import Unassigned.Lint.Linter
import Unassigned.Proofs.Heights
import Unassigned.Proofs.Trigger

/-!
# `Proofs.RelaxedMode` — which scopes become relaxed, and when

A trigger does not make a scope relaxed at once: it puts a switch into the one slot there is, in place of one
that is waiting, and the switch is applied to the innermost frame on arrival at the end of the statement. So
the last trigger of nested statements wins, and what counts is which frame is the **current** one when the
switch falls due.

The slot is followed through the moments of a scan: from the last trigger on it holds its switch, up to the
first arrival at or behind the end of its statement (`pending_of_lastTrigger`), and it holds nothing else
(`lastTrigger_of_pending`).
-/

namespace Unassigned

/-! ## The waiting switch -/

namespace ScopeStack

variable {old : ScopeStack} {i : Nat} {switch : PendingSwitch}

/-- A switch that is due makes the innermost frame relaxed. -/
theorem relaxed_of_due (hp : old.pending = some switch) (hdue : switch.effectiveAt ≤ i)
    (hne : old.frames ≠ []) :
    ∃ frame, (old.applyPending i).1.frame? 0 = some frame ∧ frame.mode = .relaxed := by
  have hdue' : old.due? i = some switch := by simp [due?, hp, hdue]
  obtain ⟨top, below, hframes⟩ := List.exists_cons_of_ne_nil hne
  unfold applyPending
  rw [hdue']
  dsimp only
  split
  next hmode =>
    refine ⟨top, by simp [frame?, hframes], ?_⟩
    simpa [modeAt, frame?, hframes] using hmode
  next hmode =>
    exact ⟨{ top with mode := .relaxed }, by simp [frame?, modifyTop, hframes], rfl⟩

/-- Only the innermost frame is switched, by a switch that is due. -/
theorem due_of_relaxed {h : Nat} {a b : Frame} (ha : old.atHeight h = some a) (hstrict : a.mode = .strict)
    (hb : (old.applyPending i).1.atHeight h = some b) (hrelaxed : b.mode = .relaxed) :
    h + 1 = old.depth ∧ ∃ switch, old.pending = some switch ∧ switch.effectiveAt ≤ i := by
  have hne : a ≠ b := by rintro rfl; simp [hstrict] at hrelaxed
  cases hdue : old.due? i with
  | none =>
      rw [applyPending_of_not_due hdue, ha] at hb
      exact absurd (Option.some.inj hb) hne
  | some switch =>
      obtain ⟨hp, hle⟩ := Option.filter_eq_some_iff.mp hdue
      refine ⟨?_, switch, hp, by simpa using hle⟩
      unfold applyPending at hb
      rw [hdue] at hb
      dsimp only at hb
      split at hb
      · exact absurd (Option.some.inj (ha.symm.trans hb)) hne
      · -- the frames below the innermost one are the same
        have hlt := lt_depth_of_atHeight ha
        unfold atHeight modifyTop at hb
        unfold atHeight at ha
        unfold depth at hlt ⊢
        cases hframes : old.frames with
        | nil => simp [hframes] at hlt
        | cons top below =>
            rw [hframes] at ha hb hlt
            rw [List.reverse_cons] at ha
            rw [List.modifyHead_cons, List.reverse_cons] at hb
            rcases Nat.lt_or_ge h below.length with hbelow | hge
            · rw [List.getElem?_append_left (by simpa using hbelow)] at ha hb
              exact absurd (Option.some.inj (ha.symm.trans hb)) hne
            · simp at hlt ⊢
              omega

end ScopeStack

/-- A command other than the application of a switch leaves the mode of every frame as it is. -/
theorem ScopeStep.mode_eq {c : Command} {old new : ScopeStack} (hstep : ScopeStep c old new)
    (hc : ∀ i, c ≠ .applySwitch i) {h : Nat} {a b : Frame} (ha : old.atHeight h = some a)
    (hb : new.atHeight h = some b) : b.mode = a.mode := by
  have hsuffix : old.frames <:+ new.frames ∨ new.frames <:+ old.frames → b.mode = a.mode := by
    rintro (hsuffix | hsuffix)
    · have heq := ScopeStack.atHeight_of_suffix hsuffix (ScopeStack.lt_depth_of_atHeight ha)
      rw [Option.some.inj (ha.symm.trans (heq.trans hb))]
    · have heq := ScopeStack.atHeight_of_suffix hsuffix (ScopeStack.lt_depth_of_atHeight hb)
      rw [Option.some.inj (ha.symm.trans (heq.symm.trans hb))]
  have hrel : List.Forall₂ (fun x y : Frame => y.mode = x.mode) old.frames new.frames →
      b.mode = a.mode := by
    intro hrel
    obtain ⟨b', hb', hmode⟩ := ScopeStack.atHeight_of_forall₂ hrel ha
    rwa [Option.some.inj (hb.symm.trans hb')]
  cases hstep with
  | grow hframes => exact hrel (hframes.imp fun _ _ hgrow => hgrow.mode)
  | schedule => exact hsuffix (.inl List.suffix_rfl)
  | switch i => exact absurd rfl (hc i)
  | drop i => exact hsuffix (.inr (dropFinishedFrames_suffix i _))
  | openFunction => exact hsuffix (.inl (List.suffix_cons _ _))
  | openArrow => exact hsuffix (.inl (List.suffix_cons _ _))
  | endAt endIndex =>
      apply hrel
      show List.Forall₂ _ _ (old.frames.modifyHead _)
      cases old.frames with
      | nil => exact .nil
      | cons frame below => exact .cons rfl (List.forall₂_same.mpr fun _ _ => rfl)
  | discard => exact hsuffix (.inr (List.tail_suffix _))

/-- A frame that is opened relaxed is that of an arrow function inside a relaxed one. -/
theorem ScopeStep.opened_relaxed {c : Command} {old new : ScopeStack} (hstep : ScopeStep c old new)
    {h : Nat} {frame : Frame} (hold : old.depth ≤ h) (hnew : new.atHeight h = some frame)
    (hrelaxed : frame.mode = .relaxed) : (∃ endIndex, c = .openArrow endIndex)
      ∧ ∃ g outer, h = g + 1 ∧ old.atHeight g = some outer ∧ outer.mode = .relaxed := by
  have hlt := ScopeStack.lt_depth_of_atHeight hnew
  -- a command that opens no frame leaves nothing to show
  have hshorter : new.frames.length ≤ old.frames.length → False := by
    intro hle
    unfold ScopeStack.depth at hlt hold
    omega
  cases hstep with
  | grow hframes => exact (hshorter (Nat.le_of_eq hframes.length_eq.symm)).elim
  | schedule => exact (hshorter (Nat.le_refl _)).elim
  | switch i =>
      exact (hshorter (Nat.le_of_eq (ScopeStack.applyPending_evolves i).length_eq.symm)).elim
  | drop i => exact (hshorter (dropFinishedFrames_suffix i _).length_le).elim
  | endAt endIndex => exact (hshorter (by simp [ScopeStack.modifyTop])).elim
  | discard => exact (hshorter (List.tail_suffix _).length_le).elim
  | openFunction =>
      have hh : h = old.frames.length := by
        simp [ScopeStack.push, ScopeStack.depth] at hlt hold
        omega
      have htop : (old.push { mode := .strict }).atHeight h = some { mode := .strict } := by
        simp [ScopeStack.atHeight, ScopeStack.push, hh]
      rw [← Option.some.inj (htop.symm.trans hnew)] at hrelaxed
      simp at hrelaxed
  | @openArrow _ endIndex outer houter =>
      have hh : h = old.frames.length := by
        simp [ScopeStack.push, ScopeStack.depth] at hlt hold
        omega
      have htop : (old.push (outer.inner endIndex)).atHeight h = some (outer.inner endIndex) := by
        simp [ScopeStack.atHeight, ScopeStack.push, hh]
      have hpos : 0 < old.depth := (List.getElem?_eq_some_iff.mp houter).1
      refine ⟨⟨endIndex, rfl⟩, old.depth - 1, outer, ?_, ?_, ?_⟩
      · unfold ScopeStack.depth at hpos ⊢
        omega
      · rw [← houter, ScopeStack.frame?_eq_atHeight hpos]
        rfl
      · rw [← Option.some.inj (htop.symm.trans hnew)] at hrelaxed
        exact hrelaxed

/-! ## The slot through the moments -/

namespace ScanContext

variable (ctx : ScanContext)
variable {k c b e : Nat} {t : Token}

/-- The scan arrives at place `j` at moment `k`. -/
def ArrivesAt (k j : Nat) : Prop :=
  ctx.history[k]? = some (.applySwitch j)

/-- The place at which the scan arrives at a moment, if it does. -/
def arrivalAt? (k : Nat) : Option Nat :=
  match ctx.history[k]? with
  | some (.applySwitch j) => some j
  | _ => none

theorem arrivalAt?_eq_some {j : Nat} : ctx.arrivalAt? k = some j ↔ ctx.ArrivesAt k j := by
  unfold arrivalAt? ArrivesAt
  split
  next j' hj => simp [hj]
  next hno =>
    constructor
    · intro h; simp at h
    · exact fun h => absurd h (hno j)

/-- After moment `a`, the first arrival at or behind the place `e` is at moment `b`. -/
structure FirstArrival (a e b : Nat) : Prop where
  lt : a < b
  arrives : ∃ j, ctx.ArrivesAt b j ∧ e ≤ j
  before : ∀ k j, a < k → k < b → ctx.ArrivesAt k j → j < e

instance (a e b : Nat) : Decidable (ctx.FirstArrival a e b) :=
  decidable_of_iff (a < b ∧ (ctx.arrivalAt? b).any (e ≤ ·)
      ∧ ∀ k, k < b → a < k → (ctx.arrivalAt? k).all (· < e)) (by
    constructor
    · rintro ⟨hlt, harrives, hbefore⟩
      obtain ⟨j, hj, hej⟩ := Option.any_eq_true _ _ |>.mp harrives
      refine ⟨hlt, ⟨j, ctx.arrivalAt?_eq_some.mp hj, by simpa using hej⟩, fun k j hak hkb hk => ?_⟩
      simpa [ctx.arrivalAt?_eq_some.mpr hk] using hbefore k hkb hak
    · rintro ⟨hlt, ⟨j, hj, hej⟩, hbefore⟩
      refine ⟨hlt, by simp [ctx.arrivalAt?_eq_some.mpr hj, hej], fun k hkb hak => ?_⟩
      cases hk : ctx.arrivalAt? k with
      | none => rfl
      | some j => simpa using hbefore k j hak hkb (ctx.arrivalAt?_eq_some.mp hk))

/-- At moment `c` a trigger is dealt with, for a statement that ends at `e`, and up to moment `b` no other
    one is. -/
structure LastTrigger (c b : Nat) (t : Token) (e : Nat) : Prop where
  lt : c < b
  trigger : ctx.history[c]? = some (.schedule t e)
  last : ∀ k t' e', c < k → k < b → ctx.history[k]? ≠ some (.schedule t' e')

section

variable {ctx}

/-- A trigger is the last one right after it. -/
theorem LastTrigger.here (h : ctx.history[c]? = some (.schedule t e)) : ctx.LastTrigger c (c + 1) t e :=
  ⟨Nat.lt_succ_self c, h, fun k _ _ hck hkc => by omega⟩

/-- A moment without a trigger leaves the last one as it is. -/
theorem LastTrigger.succ (h : ctx.LastTrigger c b t e)
    (hno : ∀ t' e', ctx.history[b]? ≠ some (.schedule t' e')) : ctx.LastTrigger c (b + 1) t e := by
  refine ⟨Nat.lt_succ_of_lt h.lt, h.trigger, ?_⟩
  intro k t' e' hck hkb
  rcases Nat.lt_succ_iff_lt_or_eq.mp hkb with hlt | rfl
  · exact h.last k t' e' hck hlt
  · exact hno t' e'

/-- A place that is not reached up to a moment and not at it either. -/
theorem not_reached_succ (hbefore : ∀ k j, c < k → k < b → ctx.ArrivesAt k j → j < e)
    (hhere : ∀ j, ctx.ArrivesAt b j → j < e) : ∀ k j, c < k → k < b + 1 → ctx.ArrivesAt k j → j < e := by
  intro k j hck hkb hk
  rcases Nat.lt_succ_iff_lt_or_eq.mp hkb with hlt | rfl
  · exact hbefore k j hck hlt hk
  · exact hhere j hk

end

/-- What a command does to the slot. -/
theorem pending_succ {c : Command} (hk : ctx.history[k]? = some c) :
    (∃ t e, c = .schedule t e ∧ (ctx.stateAt (k + 1)).scopes.pending = some ⟨t, e⟩)
    ∨ (∃ j, c = .applySwitch j
        ∧ (ctx.stateAt (k + 1)).scopes = ((ctx.stateAt k).scopes.applyPending j).1)
    ∨ (c.isTrigger = false ∧ (∀ i, c ≠ .applySwitch i)
        ∧ (ctx.stateAt (k + 1)).scopes.pending = (ctx.stateAt k).scopes.pending) := by
  rw [ctx.stateAt_succ hk]
  by_cases hswitch : ∃ j, c = .applySwitch j
  · obtain ⟨j, rfl⟩ := hswitch
    exact .inr (.inl ⟨j, rfl, ctx.applySwitch_scopes j _⟩)
  · have hswitch' : ∀ i, c ≠ .applySwitch i := fun i hc => hswitch ⟨i, hc⟩
    cases htrigger : c.isTrigger with
    | false => exact .inr (.inr ⟨rfl, hswitch', ctx.pending_perform htrigger hswitch' _⟩)
    | true =>
        cases c with
        | schedule t e => exact .inl ⟨t, e, rfl, rfl⟩
        | _ => simp [Command.isTrigger] at htrigger

/-- From the last trigger on the slot holds its switch, until the switch falls due. -/
theorem pending_of_lastTrigger {d : Nat} (hlast : ctx.LastTrigger c b t e) (hcd : c < d) (hdb : d ≤ b)
    (hearly : ∀ k j, c < k → k < d → ctx.ArrivesAt k j → j < e) : (ctx.stateAt d).scopes.pending = some ⟨t, e⟩ := by
  induction d with
  | zero => omega
  | succ d ih =>
      rcases Nat.lt_or_ge c d with hlt | hge
      · have ih := ih hlt (by omega) fun k j hck hkd => hearly k j hck (by omega)
        cases hd : ctx.history[d]? with
        | none => rw [ctx.stateAt_succ_of_none hd]; exact ih
        | some cmd =>
            rcases ctx.pending_succ hd with ⟨t', e', rfl, _⟩ | ⟨j, rfl, hscopes⟩ | ⟨_, _, hsame⟩
            · exact absurd hd (hlast.last d t' e' hlt (by omega))
            · -- an arrival before the end of the statement
              have hj := hearly d j hlt (by omega) hd
              have hnot : (ctx.stateAt d).scopes.due? j = none := by
                simp [ScopeStack.due?, ih]
                omega
              rw [hscopes, ScopeStack.applyPending_of_not_due hnot, ih]
            · rw [hsame, ih]
      · obtain rfl : c = d := by omega
        rw [ctx.stateAt_succ hlast.trigger]
        rfl

/-- The slot holds the switch of the last trigger, whose end has not been reached, or nothing. -/
theorem lastTrigger_of_pending {switch : PendingSwitch} (hpending : (ctx.stateAt k).scopes.pending = some switch) :
    ∃ (c : Nat) (t : Token) (e : Nat), switch = ⟨t, e⟩ ∧ ctx.LastTrigger c k t e
      ∧ ∀ m j, c < m → m < k → ctx.ArrivesAt m j → j < e := by
  induction k with
  | zero => simp at hpending
  | succ k ih =>
      -- the slot was filled before moment `k`, and the command there leaves it as it is
      have hearlier : (ctx.stateAt k).scopes.pending = some switch →
          (∀ t e, ctx.history[k]? ≠ some (.schedule t e)) →
          (∀ j, ctx.ArrivesAt k j → (j : Int) < switch.effectiveAt) →
          ∃ (c : Nat) (t : Token) (e : Nat), switch = ⟨t, e⟩ ∧ ctx.LastTrigger c (k + 1) t e
            ∧ ∀ m j, c < m → m < k + 1 → ctx.ArrivesAt m j → j < e := by
        intro hp hno harrival
        obtain ⟨c, t, e, rfl, hlast, hbefore⟩ := ih hp
        exact ⟨c, t, e, rfl, hlast.succ hno, not_reached_succ hbefore fun j hj => Int.ofNat_lt.mp (harrival j hj)⟩
      cases hk : ctx.history[k]? with
      | none =>
          rw [ctx.stateAt_succ_of_none hk] at hpending
          refine hearlier hpending (by simp [hk]) fun j hj => ?_
          simp [ArrivesAt, hk] at hj
      | some cmd =>
          rcases ctx.pending_succ hk with ⟨t, e, rfl, hfilled⟩ | ⟨j, rfl, hscopes⟩
            | ⟨htrigger, hswitch, hsame⟩
          · -- the command is the last trigger itself
            rw [hfilled] at hpending
            obtain rfl := Option.some.inj hpending
            exact ⟨k, t, e, rfl, .here hk, fun m _ hkm hmk => by omega⟩
          · -- an arrival leaves a switch that is not due, and empties the slot otherwise
            rw [hscopes] at hpending
            cases hdue : (ctx.stateAt k).scopes.due? j with
            | none =>
                rw [ScopeStack.applyPending_of_not_due hdue] at hpending
                refine hearlier hpending (by simp [hk]) fun j' hj' => ?_
                obtain rfl : j = j' := by simpa [ArrivesAt, hk] using hj'
                simpa [ScopeStack.due?, hpending] using hdue
            | some due =>
                obtain ⟨hp, hle⟩ := Option.filter_eq_some_iff.mp hdue
                rw [ScopeStack.pending_applyPending_of_due hp (by simpa using hle)] at hpending
                simp at hpending
          · rw [hsame] at hpending
            refine hearlier hpending (fun t e hc => ?_) fun j hj => ?_
            · rw [hk] at hc
              obtain rfl := Option.some.inj hc
              simp [Command.isTrigger] at htrigger
            · exact absurd (Option.some.inj (hk.symm.trans hj)) (hswitch j)

/-! ## Triggers of one statement -/

variable {ctx}

theorem StepAt.arrivesAt {t n i : Nat} (h : ctx.StepAt t n i) (hi : i < ctx.file.size) :
    ctx.ArrivesAt n i := by
  have hhead : (ctx.history.drop n)[0]? = some (.applySwitch i) := by
    rw [h.drop_history]
    cases hr : (ctx.plan i (ctx.stateAt n)).result with
    | error e => rw [ctx.commandsFrom_of_error hi hr, ctx.commands_plan]; rfl
    | ok last => rw [ctx.commandsFrom_of_ok hi hr, ctx.commands_plan]; rfl
  rwa [List.getElem?_drop, Nat.add_zero] at hhead

theorem InStep.triggersAt {tok : Token} {t n i m : Nat} (h : ctx.InStep k (.schedule tok e) t n i m) :
    ∃ q, ctx.file.TriggersAt i q ∧ tok = ctx.file.token q ∧ e = ctx.file.statementEnd q := by
  have hmem := List.mem_of_getElem? h.command
  rw [ctx.commands_plan, List.mem_append] at hmem
  exact ctx.schedule_mem_dispatch.mp (hmem.resolve_left (by simp [arrival]))

theorem exists_lastTrigger {a : Nat} (ha : ctx.history[a]? = some (.schedule t e)) (hab : a < b) :
    ∃ c t' e', a ≤ c ∧ ctx.LastTrigger c b t' e' := by
  induction b with
  | zero => omega
  | succ b ih =>
      by_cases hb : ∃ t' e', ctx.history[b]? = some (.schedule t' e')
      · obtain ⟨t', e', hb⟩ := hb
        exact ⟨b, t', e', by omega, .here hb⟩
      · have hne : a ≠ b := by
          rintro rfl
          exact hb ⟨t, e, ha⟩
        obtain ⟨c, t', e', hac, hlast⟩ := ih (by omega)
        exact ⟨c, t', e', hac, hlast.succ fun t'' e'' hk => hb ⟨t'', e'', hk⟩⟩

theorem exists_firstArrival {j : Nat} (hb : ctx.ArrivesAt b j) (hej : e ≤ j) (hcb : c < b) :
    ∃ d, d ≤ b ∧ ctx.FirstArrival c e d := by
  induction b using Nat.strongRecOn generalizing j with
  | _ b ih =>
      by_cases hearlier : ∃ k j', c < k ∧ k < b ∧ ctx.ArrivesAt k j' ∧ e ≤ j'
      · obtain ⟨k, j', hck, hkb, hk, hej'⟩ := hearlier
        obtain ⟨d, hdk, hd⟩ := ih k hkb hk hej' hck
        exact ⟨d, by omega, hd⟩
      · refine ⟨b, Nat.le_refl b, hcb, ⟨j, hb, hej⟩, fun k j' hck hkb hk => ?_⟩
        rcases Nat.lt_or_ge j' e with hlt | hge
        · exact hlt
        · exact absurd ⟨k, j', hck, hkb, hk, hge⟩ hearlier

/-- Up to the end of the statement of a trigger, later triggers end no later. -/
theorem LastTrigger.end_le (hf : ctx.file.WellNested) {a e' : Nat} {t' : Token}
    (ha : ctx.history[a]? = some (.schedule t e)) (hfirst : ctx.FirstArrival a e b) (hac : a ≤ c)
    (hlast : ctx.LastTrigger c b t' e') : e' ≤ e := by
  obtain ⟨s, n, i, m, hin⟩ := exists_inStep ha
  obtain ⟨q, hq, _, rfl⟩ := hin.triggersAt
  obtain ⟨s', n', i', m', hin'⟩ := exists_inStep hlast.trigger
  obtain ⟨q', hq', _, rfl⟩ := hin'.triggersAt
  rcases Nat.lt_or_ge a c with hlt | hge
  · have hcb := hlast.lt
    have hmoment := hin'.moment
    rcases hin.order hin' hlt with ⟨rfl, rfl⟩ | ⟨han, hii⟩
    · -- a second item of the same statement
      exact hf.statementEnd_le_of_triggersAt hq hq' (Nat.le_refl i) hq.lt_end
    · have harrives := hin'.step.arrivesAt hin'.lt
      have hlt := hfirst.before n' i' han (by omega) harrives
      exact hf.statementEnd_le_of_triggersAt hq hq' (Nat.le_of_lt hii) hlt
  · obtain rfl : a = c := by omega
    have heq := Option.some.inj (ha.symm.trans hlast.trigger)
    injection heq with _ heq
    omega

/-- **The last trigger relaxes the frame that is current when its switch falls due.** -/
theorem LastTrigger.relaxes {d h : Nat} (hlast : ctx.LastTrigger c b t e) (hdue : ctx.FirstArrival c e d)
    (hdb : d ≤ b) (hcurrent : h + 1 = (ctx.stateAt d).scopes.depth) (hdk : d < k) (hopen : ctx.StaysOpen h d k) :
    ∃ frame, ctx.frameAt k h = some frame ∧ frame.mode = .relaxed := by
  obtain ⟨j, harrives, hej⟩ := hdue.arrives
  have hpending := ctx.pending_of_lastTrigger hlast hdue.lt hdb hdue.before
  have hne : (ctx.stateAt d).scopes.frames ≠ [] := by
    intro hnil
    simp [ScopeStack.depth, hnil] at hcurrent
  obtain ⟨frame, hframe, hrelaxed⟩ := ScopeStack.relaxed_of_due (i := j) hpending
    (by dsimp only; omega) hne
  -- the frame at height `h` is the innermost one
  have hat : ctx.frameAt (d + 1) h = some frame := by
    have hdepth : ((ctx.stateAt d).scopes.applyPending j).1.depth = (ctx.stateAt d).scopes.depth :=
      (ScopeStack.applyPending_evolves j).length_eq.symm
    rw [ScopeStack.frame?_eq_atHeight (by omega), hdepth, ← hcurrent] at hframe
    rw [frameAt, ctx.stateAt_succ harrives]
    show (ctx.applySwitch j _).scopes.atHeight h = _
    rw [ctx.applySwitch_scopes]
    exact hframe
  obtain ⟨frame', hframe', hevolves⟩ := ctx.evolves_of_staysOpen hdk
    (fun m hm hmk => hopen m (by omega) hmk) hat
  exact ⟨frame', hframe', hevolves.relaxed hrelaxed⟩

/-- **Only the current frame becomes relaxed, by the switch of the last trigger.** -/
theorem lastTrigger_of_relaxed {h : Nat} {old new : Frame} (hold : ctx.frameAt k h = some old)
    (hstrict : old.mode = .strict) (hnew : ctx.frameAt (k + 1) h = some new) (hrelaxed : new.mode = .relaxed) :
    h + 1 = (ctx.stateAt k).scopes.depth
      ∧ ∃ c t e, ctx.LastTrigger c k t e ∧ ctx.FirstArrival c e k := by
  have hne : old ≠ new := by rintro rfl; simp [hstrict] at hrelaxed
  cases hk : ctx.history[k]? with
  | none =>
      rw [frameAt, ctx.stateAt_succ_of_none hk] at hnew
      exact absurd (Option.some.inj (hold.symm.trans hnew)) hne
  | some cmd =>
      by_cases hswitch : ∃ j, cmd = .applySwitch j
      · obtain ⟨j, rfl⟩ := hswitch
        have hnew' : ((ctx.stateAt k).scopes.applyPending j).1.atHeight h = some new := by
          rw [← ctx.applySwitch_scopes]
          rwa [frameAt, ctx.stateAt_succ hk] at hnew
        obtain ⟨hcurrent, switch, hpending, hdue⟩ :=
          ScopeStack.due_of_relaxed hold hstrict hnew' hrelaxed
        obtain ⟨c, t, e, rfl, hlast, hbefore⟩ := ctx.lastTrigger_of_pending hpending
        exact ⟨hcurrent, c, t, e, hlast, hlast.lt, ⟨j, hk, by dsimp only at hdue; omega⟩, hbefore⟩
      · have hmode := (ctx.perform_scopes cmd (ctx.stateAt k)).mode_eq
          (fun j hj => hswitch ⟨j, hj⟩) hold (by rwa [frameAt, ctx.stateAt_succ hk] at hnew)
        rw [hmode, hstrict] at hrelaxed
        simp at hrelaxed

end ScanContext

/-! ## The scopes that a trigger relaxes -/

/-- **A trigger relaxes the scope that is current when its statement is over**, which need not be the scope that it
    stands in. The constructs that trigger are those of `TriggersAt`. The slot for the switch holds the last of them;
    its statement ends no later than that of an earlier one that it replaces. The frame that is current on arrival at
    the end of that statement is relaxed from then on. No frame becomes relaxed in another way, and a frame that is
    opened relaxed is that of an arrow function in a relaxed scope. -/
theorem Linter.trigger_relaxes_current_scope (linter : Linter) {name source : String}
    {file : SourceFile} (hfile : SourceFile.ofSource name source = .ok file) :
    let ctx := linter.context file
    (∀ types i t e, .schedule t e ∈ (ctx.dispatch types i).commands
      ↔ ∃ q, file.TriggersAt i q ∧ t = file.token q ∧ e = file.statementEnd q)
    ∧ (∀ a t e b, ctx.history[a]? = some (.schedule t e) → ctx.FirstArrival a e b →
        ∃ c t' e' d, a ≤ c ∧ ctx.LastTrigger c b t' e' ∧ e' ≤ e ∧ ctx.FirstArrival c e' d ∧ d ≤ b
          ∧ ∀ h, h + 1 = (ctx.stateAt d).scopes.depth → ∀ k, d < k → ctx.StaysOpen h d k →
            ∃ frame, ctx.frameAt k h = some frame ∧ frame.mode = .relaxed)
    ∧ (∀ k h old new, ctx.frameAt k h = some old → old.mode = .strict →
        ctx.frameAt (k + 1) h = some new → new.mode = .relaxed →
        h + 1 = (ctx.stateAt k).scopes.depth
          ∧ ∃ c t e, ctx.LastTrigger c k t e ∧ ctx.FirstArrival c e k)
    ∧ (∀ k h new, ctx.frameAt k h = none → ctx.frameAt (k + 1) h = some new →
        new.mode = .relaxed → (∃ endIndex, ctx.history[k]? = some (.openArrow endIndex))
          ∧ ∃ g outer, h = g + 1 ∧ ctx.frameAt k g = some outer ∧ outer.mode = .relaxed) := by
  intro ctx
  have hf : ctx.file.WellNested := SourceFile.wellNested_of_ofSource hfile
  refine ⟨fun types i t e => ctx.schedule_mem_dispatch, ?_, ?_, ?_⟩
  · intro a t e b ha hfirst
    obtain ⟨c, t', e', hac, hlast⟩ := ScanContext.exists_lastTrigger ha hfirst.lt
    have hle := hlast.end_le hf ha hfirst hac
    obtain ⟨j, harrives, hej⟩ := hfirst.arrives
    obtain ⟨d, hdb, hdue⟩ := ScanContext.exists_firstArrival harrives (Nat.le_trans hle hej) hlast.lt
    refine ⟨c, t', e', d, hac, hlast, hle, hdue, hdb, ?_⟩
    intro h hcurrent k hdk hopen
    exact hlast.relaxes hdue hdb hcurrent hdk hopen
  · intro k h old new hold hstrict hnew hrelaxed
    exact ScanContext.lastTrigger_of_relaxed hold hstrict hnew hrelaxed
  · intro k h new hnone hnew hrelaxed
    have hdepth : (ctx.stateAt k).scopes.depth ≤ h := by
      simpa [ScopeStack.depth] using List.getElem?_eq_none_iff.mp hnone
    rcases ctx.stateAt_scopes k with heq | ⟨c, hk, hstep⟩
    · rw [ScanContext.frameAt, heq] at hnew
      exact absurd (hnone.symm.trans hnew) (by simp)
    · obtain ⟨⟨endIndex, rfl⟩, houter⟩ := hstep.opened_relaxed hdepth hnew hrelaxed
      exact ⟨⟨endIndex, hk⟩, houter⟩

/-- A linter that reports everything and knows no names beforehand. -/
def Linter.plain : Linter :=
  ⟨.notice, true, [], []⟩

/-- A source with an `extract` in a function. -/
def singleTrigger : String :=
  "<?php function f($b) \x7b extract($b); echo $y; \x7d"

theorem singleTrigger_run : ∃ file, SourceFile.ofSource "f.php" singleTrigger = .ok file
    ∧ (Linter.plain.context file).history[15]? = some (Command.schedule (file.token 10) 14)
    ∧ (Linter.plain.context file).FirstArrival 15 14 27
    ∧ ((Linter.plain.context file).frameAt 15 1).map Frame.mode = some Mode.strict
    ∧ ∀ k : Nat, k < 31 → 15 ≤ k → ((Linter.plain.context file).stateAt k).scopes.depth = 2 :=
  exists_ok_of_decide (by decide +kernel)

/-- After the `extract` the scope of the function is relaxed. -/
theorem Linter.extract_relaxes_function_scope : ∃ file,
    SourceFile.ofSource "f.php" singleTrigger = .ok file
    ∧ (Linter.plain.context file).history[15]? = some (.schedule (file.token 10) 14)
    ∧ ((Linter.plain.context file).frameAt 15 1).map Frame.mode = some .strict
    ∧ ∃ frame, (Linter.plain.context file).frameAt 30 1 = some frame ∧ frame.mode = .relaxed := by
  obtain ⟨file, hfile, htrigger, hfirst, hstrict, hdepth⟩ := singleTrigger_run
  refine ⟨file, hfile, htrigger, hstrict, ?_⟩
  obtain ⟨c, t, e, d, hac, _, _, hdue, hdb, hrelaxes⟩ :=
    (Linter.plain.trigger_relaxes_current_scope hfile).2.1 15 _ 14 27 htrigger hfirst
  have hcd := hdue.lt
  refine hrelaxes 1 (hdepth d (by omega) (by omega)).symm 30 (by omega) ?_
  intro k hdk hk
  rw [hdepth k (by omega) (by omega)]
  decide

/-- A source with an assignment to a variable variable, whose value is an arrow function. -/
def arrowTrigger : String :=
  "<?php function f($n) \x7b $$n = fn($x) => $x; echo $y; \x7d"

theorem arrowTrigger_run : ∃ file, SourceFile.ofSource "f.php" arrowTrigger = .ok file
    ∧ (Linter.plain.context file).history[15]? = some (Command.schedule (file.token 11) 23)
    ∧ 1 + 1 = ((Linter.plain.context file).stateAt 15).scopes.depth
    ∧ (Linter.plain.context file).FirstArrival 15 23 43
    ∧ (Linter.plain.context file).FirstArrival 43 (23 + 1) 46
    ∧ (Linter.plain.context file).StaysOpen 1 15 46
    ∧ ((Linter.plain.context file).frameAt 46 1).map Frame.mode = some Mode.strict :=
  exists_ok_of_decide (by decide +kernel)

/-- The assignment is in the scope of `f`, but the scope of the arrow function is still open at the end of the
    statement and takes the switch with it: the scope of `f`, which is open throughout, is strict after it. -/
theorem Linter.arrow_scope_takes_switch : ∃ file,
    SourceFile.ofSource "f.php" arrowTrigger = .ok file
    ∧ ∃ a t e b k h, (Linter.plain.context file).history[a]? = some (.schedule t e)
        ∧ h + 1 = ((Linter.plain.context file).stateAt a).scopes.depth
        ∧ (Linter.plain.context file).FirstArrival a e b
        ∧ (Linter.plain.context file).FirstArrival b (e + 1) k
        ∧ (Linter.plain.context file).StaysOpen h a k
        ∧ ((Linter.plain.context file).frameAt k h).map Frame.mode = some .strict := by
  obtain ⟨file, hfile, hrun⟩ := arrowTrigger_run
  exact ⟨file, hfile, 15, file.token 11, 23, 43, 46, 1, hrun⟩

end Unassigned
