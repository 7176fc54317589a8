import Unassigned.Proofs.PlanShape
import Unassigned.Proofs.Search

/-!
# `Proofs.Trigger` — what makes a scope relaxed

The constructs after which other code may have set variables of a scope, stated on the text: `include` and its
kin, `eval`, a call of `extract`, an assignment to a variable variable, and a variable variable in a `global`
statement. `schedule_mem_dispatch` says that a step schedules a switch for exactly these, at the end of the
statement of the token that **triggers** it. Later triggers of the same statement fall due no later
(`statementEnd_le_of_triggersAt`).
-/

namespace Unassigned

namespace TokenStream

variable (f : TokenStream)

/-- Among the items of a `global` statement from a place on, one starts at a second place. -/
inductive GlobalItem : Nat → Nat → Prop where
  | here (p : Nat) : GlobalItem p p
  | later {p holder comma p' q : Nat} (hholder : f.globalVariable? p = some holder)
      (hcomma : f.next? holder = some comma) (hchar : f.isChar comma ',')
      (hnext : f.next? comma = some p') (h : GlobalItem p' q) : GlobalItem p q

/-- The construct at `i` makes the scope relaxed after the statement; the second place is that of the token
    which is reported for it. -/
inductive TriggersAt (i : Nat) : Nat → Prop where
  | includes (h : isIncludeKeyword (f.kind i)) (hend : (f.statementEnd? i).isSome) : TriggersAt i i
  | evals (h : f.kind i = .keyword .evalWord) : TriggersAt i i
  | extracts {paren : Nat} (h : f.kind i = .name) (htext : Text.lower (f.text i) = "extract")
      (hparen : f.next? i = some paren) (hchar : f.isChar paren '(')
      (hmember : f.prevAny i Kind.isMemberAccess = false)
      (hfunction : f.prevIs i (.keyword .functionWord) = false) : TriggersAt i i
  /-- `$$name = ...` or `${...} = ...`. -/
  | assigns {q after : Nat} (h : f.kind i = .char '$') (hq : f.next? i = some q)
      (hkind : f.kind q = .var ∨ f.kind q = .char '\x7b')
      (hafter : (f.afterIndexes (f.skipGroup q)).1 = some after) (hchar : f.isChar after '=') :
      TriggersAt i q
  /-- `global $$name`. -/
  | imports {first p q : Nat} (h : f.kind i = .keyword .globalWord) (hfirst : f.next? i = some first)
      (hitem : f.GlobalItem first p) (hdollar : f.kind p = .char '$') (hq : f.next? p = some q)
      (hkind : f.kind q = .var) : TriggersAt i q

variable {f}
variable {i e : Nat} {t : Token}

/-! ## Steps that schedule a switch -/

theorem handleInclude_schedule :
    .schedule t e ∈ f.handleInclude i
      ↔ (f.statementEnd? i).isSome ∧ t = f.token i ∧ e = f.statementEnd i := by
  unfold handleInclude statementEnd
  cases f.statementEnd? i with
  | none => simp
  | some stop => simp

theorem handleEval_schedule : .schedule t e ∈ f.handleEval i ↔ t = f.token i ∧ e = f.statementEnd i := by
  simp [handleEval]

theorem handleDollar_schedule :
    .schedule t e ∈ f.handleDollar i ↔ ∃ q after, f.next? i = some q
      ∧ (f.kind q = .var ∨ f.kind q = .char '\x7b')
      ∧ (f.afterIndexes (f.skipGroup q)).1 = some after ∧ f.isChar after '='
      ∧ t = f.token q ∧ e = f.statementEnd q := by
  unfold handleDollar
  cases f.next? i with
  | none => simp
  | some n =>
      simp only [Bool.or_eq_true, beq_iff_eq, isChar_iff, Option.any_eq_true]
      split
      next hkind =>
        split
        next hafter =>
          obtain ⟨after, hafter, hchar⟩ := hafter
          constructor
          · intro hmem
            obtain ⟨rfl, rfl⟩ : t = f.token n ∧ e = f.statementEnd n := by simpa using hmem
            exact ⟨n, after, rfl, hkind, hafter, by simpa using hchar, rfl, rfl⟩
          · rintro ⟨q, _, hq, _, _, _, rfl, rfl⟩
            obtain rfl : n = q := by simpa using hq
            simp
        next hafter =>
          constructor
          · intro hmem; simp at hmem
          · rintro ⟨q, after, hq, _, hq', hchar, _⟩
            obtain rfl : n = q := by simpa using hq
            exact absurd ⟨after, hq', by simpa using hchar⟩ hafter
      next hkind =>
        constructor
        · intro hmem; simp at hmem
        · rintro ⟨q, _, hq, hkind', _⟩
          obtain rfl : n = q := by simpa using hq
          exact absurd hkind' hkind

theorem globalVariable?_eq_some {j : Nat} : f.globalVariable? i = some j ↔
    (f.kind i = .var ∧ i = j) ∨ (f.kind i = .char '$' ∧ f.next? i = some j ∧ f.kind j = .var) := by
  unfold globalVariable?
  simp only [beq_iff_eq, isChar_iff]
  split
  next hvar => simp [hvar]
  next hvar =>
    split
    next hdollar => simp [hdollar, Option.filter_eq_some_iff]
    next hdollar => simp [hvar, hdollar]

theorem globalItem_schedule {holder : Nat} (h : f.globalVariable? i = some holder) :
    .schedule t e ∈ f.globalItem i holder ↔ f.kind i = .char '$'
      ∧ t = f.token holder ∧ e = f.statementEnd holder := by
  unfold globalItem
  rcases globalVariable?_eq_some.mp h with ⟨hvar, rfl⟩ | ⟨hdollar, _, _⟩
  · simp [hvar]
  · simp [hdollar]

theorem globalItem_cases {holder p : Nat} (hholder : f.globalVariable? i = some holder) :
    f.GlobalItem i p ↔ i = p ∨ ∃ comma first, f.next? holder = some comma ∧ f.isChar comma ','
      ∧ f.next? comma = some first ∧ f.GlobalItem first p := by
  constructor
  · intro h
    cases h with
    | here => exact .inl rfl
    | later hholder' hcomma hchar hnext h =>
        obtain rfl : holder = _ := by simpa [hholder] using hholder'
        exact .inr ⟨_, _, hcomma, hchar, hnext, h⟩
  · rintro (rfl | ⟨comma, first, hcomma, hchar, hnext, h⟩)
    · exact .here _
    · exact .later hholder hcomma hchar hnext h

/-- The commands of a `global` statement are those of its items. -/
theorem mem_handleGlobalItems {keyword : Nat} {c : Command} :
    c ∈ (f.handleGlobalItems keyword i).commands
      ↔ ∃ p holder, f.GlobalItem i p ∧ f.globalVariable? p = some holder ∧ c ∈ f.globalItem p holder := by
  fun_induction handleGlobalItems f keyword i with
  | case1 i hnone =>
      constructor
      · intro hmem; simp at hmem
      · rintro ⟨p, holder, hitem, hp, _⟩
        cases hitem with
        | here => simp [hp] at hnone
        | later hholder => simp [hholder] at hnone
  | case2 i holder hholder ih =>
      rw [Plan.bind_of_ok (Plan.result_emitAll _)]
      show _ ∈ f.globalItem i holder ++ _ ↔ _
      rw [List.mem_append]
      constructor
      · rintro (hmem | hmem)
        · exact ⟨i, holder, .here i, hholder, hmem⟩
        · -- one of the items after the comma
          split at hmem
          · simp at hmem
          next comma hcomma =>
            split at hmem
            next hchar =>
              split at hmem
              · simp at hmem
              next first hfirst =>
                obtain ⟨p, q, hitem, hrest⟩ := (ih comma hcomma first hfirst).mp hmem
                exact ⟨p, q, .later hholder hcomma hchar hfirst hitem, hrest⟩
            next => split at hmem <;> simp at hmem
      · rintro ⟨p, q, hitem, hq, hmem⟩
        rcases (globalItem_cases hholder).mp hitem with rfl | ⟨comma, first, hcomma, hchar, hfirst, hitem⟩
        · obtain rfl : holder = q := by simpa [hholder] using hq
          exact .inl hmem
        · right
          split
          next hnone => rw [hcomma] at hnone; simp at hnone
          next comma' hcomma' =>
            obtain rfl : comma = comma' := by simpa [hcomma] using hcomma'
            rw [if_pos hchar]
            split
            next hnone => rw [hfirst] at hnone; simp at hnone
            next first' hfirst' =>
              obtain rfl : first = first' := by simpa [hfirst] using hfirst'
              exact (ih comma hcomma first hfirst).mpr ⟨p, q, hitem, hq, hmem⟩

theorem mem_handleGlobal {c : Command} : c ∈ (f.handleGlobal i).commands
    ↔ ∃ first p holder, f.next? i = some first ∧ f.GlobalItem first p ∧ f.globalVariable? p = some holder
      ∧ c ∈ f.globalItem p holder := by
  unfold handleGlobal
  cases f.next? i with
  | none => simp
  | some first => simp [mem_handleGlobalItems]

theorem handleGlobal_schedule :
    .schedule t e ∈ (f.handleGlobal i).commands ↔ ∃ first p q, f.next? i = some first
      ∧ f.GlobalItem first p ∧ f.kind p = .char '$' ∧ f.next? p = some q ∧ f.kind q = .var
      ∧ t = f.token q ∧ e = f.statementEnd q := by
  rw [mem_handleGlobal]
  constructor
  · rintro ⟨first, p, q, hfirst, hitem, hp, hmem⟩
    obtain ⟨hdollar, ht, he⟩ := (globalItem_schedule hp).mp hmem
    rcases globalVariable?_eq_some.mp hp with ⟨hvar, _⟩ | ⟨_, hq, hkind⟩
    · simp [hvar] at hdollar
    · exact ⟨first, p, q, hfirst, hitem, hdollar, hq, hkind, ht, he⟩
  · rintro ⟨first, p, q, hfirst, hitem, hdollar, hq, hkind, ht, he⟩
    have hp := globalVariable?_eq_some.mpr (.inr ⟨hdollar, hq, hkind⟩)
    exact ⟨first, p, q, hfirst, hitem, hp, (globalItem_schedule hp).mpr ⟨hdollar, ht, he⟩⟩

end TokenStream

open Plan

namespace ScanContext

variable {ctx : ScanContext} {types : List (String × String)} {i : Nat} {t : Token} {e : Nat}

theorem handleName_schedule : .schedule t e ∈ (ctx.handleName types i).commands
    ↔ ∃ paren, ctx.OpensCall i paren ∧ ctx.file.prevAny i Kind.isMemberAccess = false
      ∧ Text.lower (ctx.file.text i) = "extract" ∧ t = ctx.file.token i ∧ e = ctx.file.statementEnd i := by
  -- the arguments of a call schedule nothing
  have hcall : ∀ {paren}, ctx.OpensCall i paren → (.schedule t e ∈ (ctx.handleName types i).commands
      ↔ .schedule t e ∈ ctx.extractSwitch i) := by
    intro paren h
    rw [h.handleName_eq, bind_of_ok (result_emitAll _)]
    refine List.mem_append.trans (or_iff_left fun hmem => ?_)
    cases (ctx.handleCall_keeps types i paren).all _ hmem
  have hswitch : .schedule t e ∈ ctx.extractSwitch i ↔ ctx.file.prevAny i Kind.isMemberAccess = false
      ∧ Text.lower (ctx.file.text i) = "extract" ∧ t = ctx.file.token i ∧ e = ctx.file.statementEnd i := by
    unfold extractSwitch
    split
    next h => simp_all
    next h =>
      refine iff_of_false (by simp) fun hall => h ?_
      simp [hall.1, hall.2.1]
  constructor
  · intro hmem
    rcases ctx.handleName_cases types i with hpure | ⟨paren, h⟩
    · rw [hpure] at hmem
      cases hmem
    · exact ⟨paren, h, hswitch.mp ((hcall h).mp hmem)⟩
  · rintro ⟨paren, h, hall⟩
    exact (hcall h).mpr (hswitch.mpr hall)

theorem StepPlan.triggersAt {plan : Plan Nat} (hplan : ctx.StepPlan types i plan)
    (h : .schedule t e ∈ plan.commands) :
    ∃ q, ctx.file.TriggersAt i q ∧ t = ctx.file.token q ∧ e = ctx.file.statementEnd q := by
  cases hplan with
  | ordinary hplan => cases hplan.all _ h
  | function => cases (ctx.file.handleFunction_keeps i).all _ h
  | arrow => cases (ctx.file.handleArrowFunction_keeps i).all _ h
  | switch _ hcs =>
      rcases hcs with ⟨hkind, rfl⟩ | ⟨hkind, rfl⟩ | ⟨hkind, rfl⟩
      · obtain ⟨hend, ht, he⟩ := TokenStream.handleInclude_schedule.mp h
        exact ⟨i, .includes hkind hend, ht, he⟩
      · obtain ⟨ht, he⟩ := TokenStream.handleEval_schedule.mp h
        exact ⟨i, .evals hkind, ht, he⟩
      · obtain ⟨q, after, hq, hvar, hafter, hchar, ht, he⟩ := TokenStream.handleDollar_schedule.mp h
        exact ⟨q, .assigns hkind hq hvar hafter hchar, ht, he⟩
  | name hkind =>
      rw [bind_return_commands] at h
      obtain ⟨paren, hcall, hmember, htext, ht, he⟩ := handleName_schedule.mp h
      exact ⟨i, .extracts hkind htext hcall.next hcall.opens hmember hcall.notDeclared, ht, he⟩
  | global hkind =>
      obtain ⟨first, p, q, hfirst, hitem, hdollar, hq, hvar, ht, he⟩ := TokenStream.handleGlobal_schedule.mp h
      exact ⟨q, .imports hkind hfirst hitem hdollar hq hvar, ht, he⟩

variable (ctx)

theorem schedule_of_triggersAt {q : Nat} (h : ctx.file.TriggersAt i q) :
    .schedule (ctx.file.token q) (ctx.file.statementEnd q)
      ∈ (ctx.dispatch types i).commands := by
  cases h with
  | includes h hend =>
      have hmem := TokenStream.handleInclude_schedule.mpr ⟨hend, rfl, rfl⟩
      unfold TokenStream.isIncludeKeyword at h
      split at h
      iterate 4 next heq => simpa only [dispatch, heq, SourceFile.handleKeyword, stay] using hmem
      · simp at h
  | evals h =>
      simp only [dispatch, h, SourceFile.handleKeyword, stay]
      exact TokenStream.handleEval_schedule.mpr ⟨rfl, rfl⟩
  | extracts h htext hparen hchar hmember hfunction =>
      simp only [dispatch, h, bind_return_commands]
      exact handleName_schedule.mpr ⟨_, ⟨hparen, hchar, hfunction⟩, hmember, htext, rfl, rfl⟩
  | assigns h hq hkind hafter hchar =>
      have hmem := TokenStream.handleDollar_schedule.mpr ⟨_, _, hq, hkind, hafter, hchar, rfl, rfl⟩
      simpa only [dispatch, h, stay, if_true] using hmem
  | imports h hfirst hitem hdollar hq hkind =>
      have hmem := TokenStream.handleGlobal_schedule.mpr
        ⟨_, _, _, hfirst, hitem, hdollar, hq, hkind, rfl, rfl⟩
      simpa only [dispatch, h, SourceFile.handleKeyword] using hmem

/-- **A step schedules a switch for a trigger, and for nothing else.** -/
theorem schedule_mem_dispatch : .schedule t e ∈ (ctx.dispatch types i).commands
      ↔ ∃ q, ctx.file.TriggersAt i q ∧ t = ctx.file.token q ∧ e = ctx.file.statementEnd q := by
  constructor
  · exact (ctx.stepPlan types i).triggersAt
  · rintro ⟨q, h, rfl, rfl⟩
    exact ctx.schedule_of_triggersAt h

end ScanContext

/-! ## Triggers in one statement -/

namespace TokenStream

variable {f : TokenStream}
variable {i first p q : Nat}

theorem endsStatement_of_kind
    (h : f.kind i = .var ∨ f.kind i = .char '$' ∨ f.kind i = .char ',' ∨ f.kind i = .char '\x7b') :
    f.endsStatement i = false := by
  rw [Bool.eq_false_iff, ne_eq, endsStatement_iff]
  rcases h with h | h | h | h <;> simp [h]

/-- A variable, dollar sign or comma is a token in the middle of a statement. -/
theorem WellNested.statementEnd_of_kind (hf : f.WellNested) {j : Nat} (h : f.next? i = some j)
    (hkind : f.kind j = .var ∨ f.kind j = .char '$' ∨ f.kind j = .char ',') :
    f.statementEnd i = f.statementEnd j := by
  refine statementEnd_of_next h ?_ (hf.closer?_of_kind ?_)
  · rcases hkind with hkind | hkind | hkind
    · exact endsStatement_of_kind (.inl hkind)
    · exact endsStatement_of_kind (.inr (.inl hkind))
    · exact endsStatement_of_kind (.inr (.inr (.inl hkind)))
  · rcases hkind with hkind | hkind | hkind <;> simp [hkind, Kind.closer?]

/-- All items of a `global` statement end with it. -/
theorem WellNested.statementEnd_of_globalItem (hf : f.WellNested) (h : f.GlobalItem first p)
    (hp : f.kind p = .char '$') (hfirst : f.next? i = some first) : f.statementEnd i = f.statementEnd p := by
  induction h generalizing i with
  | here p => exact hf.statementEnd_of_kind hfirst (.inr (.inl hp))
  | @later p holder comma p' q hholder hcomma hchar hnext _ ih =>
      have hstep : f.statementEnd i = f.statementEnd holder := by
        rcases globalVariable?_eq_some.mp hholder with ⟨hvar, rfl⟩ | ⟨hdollar, hnext, hvar⟩
        · exact hf.statementEnd_of_kind hfirst (.inl hvar)
        · exact (hf.statementEnd_of_kind hfirst (.inr (.inl hdollar))).trans
            (hf.statementEnd_of_kind hnext (.inl hvar))
      have hcomma' := hf.statementEnd_of_kind hcomma (.inr (.inr (isChar_iff.mp hchar)))
      exact hstep.trans (hcomma'.trans (ih hp hnext))

/-- The statement of a trigger ends where that of the construct does, a variable variable apart. -/
theorem TriggersAt.end_cases (hf : f.WellNested) (h : f.TriggersAt i q) :
    (f.kind i ≠ .char '$' ∧ f.statementEnd i = f.statementEnd q)
      ∨ (f.kind i = .char '$' ∧ f.next? i = some q) := by
  cases h with
  | includes h =>
      refine .inl ⟨fun hdollar => ?_, rfl⟩
      rw [hdollar] at h
      simp [isIncludeKeyword] at h
  | evals h | extracts h => exact .inl ⟨by simp [h], rfl⟩
  | assigns h hq => exact .inr ⟨h, hq⟩
  | imports h hfirst hitem hdollar hq hkind =>
      refine .inl ⟨by simp [h], ?_⟩
      rw [hf.statementEnd_of_globalItem hitem hdollar hfirst]
      exact hf.statementEnd_of_kind hq (.inl hkind)

theorem TriggersAt.significant (h : f.TriggersAt i q) : (f.token i).isTrivial = false := by
  show (f.kind i).isTrivial = false
  cases h with
  | includes h =>
      unfold isIncludeKeyword at h
      split at h
      iterate 4 next heq => rw [heq]; rfl
      · simp at h
  | evals h | extracts h | assigns h | imports h => rw [h]; rfl

/-- A token in the middle of a statement that comes next is still in the statement. -/
theorem lt_statementEnd_of_next {j : Nat} (h : f.next? i = some j) (hi : i < f.statementEnd p)
    (hend : f.endsStatement j = false) : j < f.statementEnd p := by
  rcases f.statementEnd_cases p with hsize | ⟨hends, hsig⟩
  · rw [hsize]
    exact (f.next?_bounds h).2
  · have hle := le_of_next? h hi hsig
    have hne : j ≠ f.statementEnd p := by
      intro heq
      rw [← heq, hend] at hends
      simp at hends
    omega

theorem GlobalItem.lt_statementEnd (h : f.GlobalItem first q) (hq : f.kind q = .char '$')
    (hfirst : f.next? i = some first) (hi : i < f.statementEnd p) : q < f.statementEnd p := by
  induction h generalizing i with
  | here q => exact lt_statementEnd_of_next hfirst hi (endsStatement_of_kind (.inr (.inl hq)))
  | @later r holder comma r' q hholder hcomma hchar hnext _ ih =>
      have hholder' : holder < f.statementEnd p := by
        rcases globalVariable?_eq_some.mp hholder with ⟨hvar, rfl⟩ | ⟨hdollar, hnext, hvar⟩
        · exact lt_statementEnd_of_next hfirst hi (endsStatement_of_kind (.inl hvar))
        · have hr := lt_statementEnd_of_next hfirst hi (endsStatement_of_kind (.inr (.inl hdollar)))
          exact lt_statementEnd_of_next hnext hr (endsStatement_of_kind (.inl hvar))
      have hcomma' := lt_statementEnd_of_next hcomma hholder'
        (endsStatement_of_kind (.inr (.inr (.inl (isChar_iff.mp hchar)))))
      exact ih hq hnext hcomma'

/-- A construct inside a statement triggers inside it. -/
theorem TriggersAt.lt_statementEnd {p i q : Nat} (h : f.TriggersAt i q)
    (hi : i < f.statementEnd p) : q < f.statementEnd p := by
  cases h with
  | includes | evals | extracts => exact hi
  | assigns _ hq hkind =>
      refine lt_statementEnd_of_next hq hi (endsStatement_of_kind ?_)
      rcases hkind with hkind | hkind
      · exact .inl hkind
      · exact .inr (.inr (.inr hkind))
  | imports _ hfirst hitem hdollar hq hkind =>
      have hp := hitem.lt_statementEnd hdollar hfirst hi
      exact lt_statementEnd_of_next hq hp (endsStatement_of_kind (.inl hkind))

theorem GlobalItem.le (h : f.GlobalItem first p) : first ≤ p := by
  induction h with
  | here => exact Nat.le_refl _
  | later hholder hcomma _ hnext _ ih =>
      have := f.le_of_globalVariable? hholder
      have := (f.next?_bounds hcomma).1
      have := (f.next?_bounds hnext).1
      omega

theorem TriggersAt.le {i q : Nat} (h : f.TriggersAt i q) : i ≤ q := by
  cases h with
  | includes | evals | extracts => exact Nat.le_refl i
  | assigns _ hq => exact Nat.le_of_lt (f.next?_bounds hq).1
  | imports _ hfirst hitem _ hq =>
      have := (f.next?_bounds hfirst).1
      have := hitem.le
      have := (f.next?_bounds hq).1
      omega

/-- A trigger stands before the end of its statement. -/
theorem TriggersAt.lt_end (h : f.TriggersAt i q) : i < f.statementEnd q := by
  have hle := h.le
  have hsize : q < f.size := by
    cases h with
    | includes h =>
        apply lt_size_of_kind
        intro heq
        simp [heq, isIncludeKeyword] at h
    | evals h | extracts h => exact lt_size_of_kind (by simp [h])
    | assigns _ hq => exact (f.next?_bounds hq).2
    | imports _ _ _ _ hq => exact (f.next?_bounds hq).2
  have hlt : q < f.statementEnd q := by
    unfold statementEnd
    cases hend : f.statementEnd? q with
    | none => simpa using hsize
    | some e => simpa using (f.search?_bounds hend).1
  omega

/-- **A later trigger in the statement of an earlier one falls due no later.** -/
theorem WellNested.statementEnd_le_of_triggersAt (hf : f.WellNested) {i' q' : Nat} (h : f.TriggersAt i q)
    (h' : f.TriggersAt i' q') (hle : i ≤ i') (hlt : i' < f.statementEnd q) :
    f.statementEnd q' ≤ f.statementEnd q := by
  have hq' := h'.lt_statementEnd hlt
  have hi' := h'.le
  rcases h.end_cases hf with ⟨hkind, hend⟩ | ⟨hdollar, hq⟩
  · rw [← hend] at hq' ⊢
    exact hf.statementEnd_le (by omega) hq'
  · by_cases hii : i = i'
    · -- both are the variable after the dollar sign
      subst hii
      rcases h'.end_cases hf with ⟨hkind, _⟩ | ⟨_, hq''⟩
      · exact absurd hdollar hkind
      · obtain rfl : q = q' := by simpa [hq] using hq''
        exact Nat.le_refl _
    · have := le_of_next? hq (by omega : i < i') h'.significant
      exact hf.statementEnd_le (by omega) hq'

end TokenStream

end Unassigned
