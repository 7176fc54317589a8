import Unassigned.Proofs.FileScopeSwitch

/-!
# `Proofs.ReadReports` — which commands report the read of an unknown variable

A read of an unknown variable is reported by a plain read, by a read that a function makes (`isLenient`), or by one of
the constructs that check a variable on their own. A plain read is reported only if no construct has **dealt with** the
token before, and what was dealt with stays so (`consumed_stateAt`). Reads by functions come from the arguments of
calls and from nowhere else (`lenient_of_mem_dispatch`).

`Command.Spares` sums this up for one token: a command that spares it cannot report a read of it.
-/

namespace Unassigned

/-! ## Reads by functions -/

/-- No read of the token at `q` can be reported by the command. -/
def Command.Spares (q : Nat) : Command → Prop
  | .read token | .readLeniently token | .check token | .checkOuter token => token.index ≠ q
  | c => c.isGuarded

namespace ScanContext

variable {ctx : ScanContext} {types : List (String × String)} {i : Nat} {c : Command}
variable {st : ScanState} {q : Nat} {d : Defect}

/-- **A read by a function** belongs to a call: the variable is one of its arguments. -/
theorem lenient_of_mem_dispatch (h : c ∈ (ctx.dispatch types i).commands) (hc : c.isLenient) :
    ctx.file.kind i = .name ∧ ∃ paren first q, ctx.file.next? i = some paren ∧ ctx.file.isChar paren '('
      ∧ (first ∈ ctx.file.positionalArguments paren ∨ first ∈ ctx.file.namedArguments paren)
      ∧ ctx.file.withoutAmpersand first = some q ∧ c = .readLeniently (ctx.file.token q) := by
  have husual : ¬ c.isUsual := fun h => Command.not_lenient_of_isUsual h hc
  have hfunction : ¬ c.isOfFunction := fun h => Command.not_lenient_of_isOfFunction h hc
  have hplan := ctx.stepPlan types i
  generalize ctx.dispatch types i = plan at hplan h
  cases hplan with
  | ordinary hplan => exact absurd (Command.isUsual_of_isOrdinary (hplan.all c h)) husual
  | switch hcs => exact absurd (hcs c h) husual
  | function => exact absurd ((ctx.file.handleFunction_keeps i).all c h) hfunction
  | arrow => exact absurd ((ctx.file.handleArrowFunction_keeps i).all c h) hfunction
  | global =>
      obtain ⟨_, p, holder, _, _, _, h⟩ := TokenStream.mem_handleGlobal.mp h
      rcases ctx.file.mem_globalItem h with h | ⟨_, rfl⟩
      · exact absurd h husual
      · cases hc
  | name hname =>
      rw [Plan.bind_return_commands] at h
      refine ⟨hname, ?_⟩
      rcases mem_handleName h with htrigger | ⟨paren, ⟨hparen, hopens, _⟩, h⟩
      · exact absurd (by simp [Command.isUsual, htrigger]) husual
      · rcases mem_handleCall h with ⟨first, hfirst, h⟩ | ⟨signature, first, _, _, h⟩
        · obtain ⟨q, hq, _, _, rfl | rfl⟩ := ctx.file.mem_passToUnknown.mp h
          · exact ⟨paren, first, q, hparen, hopens, List.mem_append.mp hfirst, hq, rfl⟩
          · cases hc
        · rcases ctx.file.passByReference_cases h with hordinary | ⟨_, _, _, _, _, _, _, rfl⟩
          · exact absurd (Command.isUsual_of_isOrdinary hordinary) husual
          · cases hc

/-! ## Tokens that were dealt with -/

/-- **A token that was dealt with stays so.** -/
theorem consumed_stateAt {a b : Nat} (hab : a ≤ b) (h : q ∈ (ctx.stateAt a).consumed) :
    q ∈ (ctx.stateAt b).consumed :=
  ctx.stateAt_induction (P := fun st => q ∈ st.consumed) hab h
    fun _ c _ ih => (perform_notes c _).consumed.subset ih

/-! ## Where the read of an unknown variable is reported -/

theorem index_ne_of_spares (hc : c.Spares q) (hfound : ctx.found? st c = some d) (hd : d.finding.isUnknownRead) :
    d.token.index ≠ q := by
  have hguarded : c.isGuarded → (c = .read d.token ∧ d.token.index ∉ st.consumed) ∨ c = .readLeniently d.token :=
    fun hguarded => (reads_of_found hguarded hfound hd).2
  cases c with
  | check token | checkOuter token =>
      rw [(eq_of_missing hfound).2]
      exact hc
  | read token =>
      rcases hguarded rfl with ⟨heq, _⟩ | heq
      · rwa [← Command.read.inj heq]
      · cases heq
  | readLeniently token =>
      rcases hguarded rfl with ⟨heq, _⟩ | heq
      · cases heq
      · rwa [← Command.readLeniently.inj heq]
  | _ => rcases hguarded hc with ⟨heq, _⟩ | heq <;> cases heq

end ScanContext

end Unassigned
