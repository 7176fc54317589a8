import Unassigned.Proofs.Formatting.Plan

/-!
# `Proofs.Formatting.Loop` — patterns and loops in different layouts

The handlers that go through a range of tokens one by one pass white space and comments too (`bindPattern`,
`colonBodyEnd?`, `predeclare`); there the lemma says that they do nothing about them.
-/

namespace Unassigned

theorem mem_placesBetween {first last i : Nat} : i ∈ placesBetween first last ↔ first ≤ i ∧ i ≤ last := by
  rw [placesBetween, List.mem_range'_1]
  omega

theorem pairwise_placesBetween (first last : Nat) : (placesBetween first last).Pairwise (· < ·) :=
  List.pairwise_lt_range' 1

namespace TokenStream

variable {f : TokenStream}

/-! ## White space and comments -/

/-- White space and comments in a pattern bind nothing. -/
theorem bindPattern_of_trivial {close i j : Nat} (hij : i ≤ j) (hj : j ≤ close)
    (hall : ∀ m, i ≤ m → m < j → (f.token m).isTrivial = true) :
    f.bindPattern close i = f.bindPattern close j := by
  by_cases hlt : i < j
  · have hkind : (f.kind i).isTrivial = true := hall i (Nat.le_refl i) hlt
    have hbracket : f.isCharOf i ['[', '('] = false := by
      rw [Bool.eq_false_iff]
      intro hchar
      obtain ⟨x, _, hx⟩ := TokenStream.isCharOf_iff.mp hchar
      rw [hx] at hkind
      simp [Kind.isTrivial] at hkind
    have hslot : f.slot? i = none := by
      have hvar : (f.kind i == .var) = false := by
        rw [beq_eq_false_iff_ne]
        intro hvar
        rw [hvar] at hkind
        simp [Kind.isTrivial] at hkind
      simp [TokenStream.slot?, hvar]
    rw [TokenStream.bindPattern, if_pos (by omega), hbracket, hslot]
    exact bindPattern_of_trivial hlt hj fun m hm => hall m (by omega)
  · obtain rfl : i = j := by omega
    rfl
termination_by j - i

/-- White space and comments do not count among the tokens of a loop. -/
theorem colonBodyEnd?_filter {loop closing : Kind} (hloop : loop.isTrivial = false)
    (hclosing : closing.isTrivial = false) (depth : Nat) (places : List Nat) :
    f.colonBodyEnd? loop closing depth places
      = f.colonBodyEnd? loop closing depth (places.filter fun i => !(f.token i).isTrivial) := by
  induction places generalizing depth with
  | nil => rfl
  | cons i rest ih =>
      cases htrivial : (f.token i).isTrivial with
      | false =>
          rw [List.filter_cons_of_pos (by simp [htrivial])]
          unfold TokenStream.colonBodyEnd?
          simp only [← ih]
      | true =>
          have hne : ∀ {x : Kind}, x.isTrivial = false → (f.kind i == x) = false := by
            intro x hx
            rw [beq_eq_false_iff_ne]
            rintro rfl
            have : (f.kind i).isTrivial = true := htrivial
            simp [this] at hx
          rw [List.filter_cons_of_neg (by simp [htrivial]), TokenStream.colonBodyEnd?, hne hloop,
            hne hclosing]
          exact ih depth

/-- Loops and their ends are marked by keywords. -/
theorem isTrivial_of_loopEndKeyword? {loop closing : Kind}
    (hclosing : TokenStream.loopEndKeyword? loop = some closing) :
    loop.isTrivial = false ∧ closing.isTrivial = false := by
  unfold TokenStream.loopEndKeyword? at hclosing
  split at hclosing <;> simp at hclosing <;> subst hclosing <;> exact ⟨rfl, rfl⟩

end TokenStream

namespace Layout.Formats

variable {l : Layout} {c f : TokenStream} (h : l.Formats c f)

include h

/-! ## Patterns -/

theorem beforeTarget? (i : Nat) : f.beforeTarget? (l.place i) = (c.beforeTarget? i).map l.place := by
  unfold TokenStream.beforeTarget?
  rw [h.prev?]
  cases c.prev? i with
  | none => rfl
  | some p =>
      simp only [Option.map_some, h.isChar, h.prev?]
      split <;> rfl

theorem startsSlot (i : Nat) : f.startsSlot (l.place i) = c.startsSlot i := by
  unfold TokenStream.startsSlot
  simp only [h.beforeTarget?, Option.any_map, h.isCharOf, h.kind]

theorem slot? (i : Nat) : f.slot? (l.place i) = c.slot? i := by
  unfold TokenStream.slot?
  simp only [h.afterIndexes, h.kind, h.startsSlot, Option.any_map, h.isCharOf]

theorem bindSlot (i : Nat) (isIndexed : Bool) :
    f.bindSlot (l.place i) isIndexed = (c.bindSlot i isIndexed).map (Command.layOut l) := by
  unfold TokenStream.bindSlot
  rw [h.token]
  cases isIndexed <;> rfl

theorem bindPattern_succ (close i : Nat) :
    f.bindPattern (l.place close) (l.place i + 1) = f.bindPattern (l.place close) (l.place (i + 1)) := by
  have hlt : l.place i < l.place (i + 1) := h.mono (Nat.lt_succ_self i)
  by_cases hi : i < close
  · exact TokenStream.bindPattern_of_trivial hlt (h.le_iff.mpr hi) fun m hm hmi => h.isTrivial_between hm hmi
  · have hle : l.place close ≤ l.place i := h.le_iff.mpr (by omega)
    rw [TokenStream.bindPattern, if_neg (by omega), TokenStream.bindPattern, if_neg (by omega)]

theorem bindPattern (close i : Nat) :
    f.bindPattern (l.place close) (l.place i) = (c.bindPattern close i).map (Command.layOut l) := by
  fun_induction TokenStream.bindPattern c close i with
  | case1 i hi hgroup ih =>
      rw [TokenStream.bindPattern, if_pos (h.mono hi), h.isCharOf, h.followsOperand, if_pos hgroup, h.skipGroup,
        h.bindPattern_succ, ih]
  | case2 i hi hgroup isIndexed hslot ih =>
      rw [TokenStream.bindPattern, if_pos (h.mono hi), h.isCharOf, h.followsOperand, if_neg hgroup, h.slot?,
        hslot]
      dsimp only
      rw [h.bindSlot, h.bindPattern_succ, ih, List.map_append]
  | case3 i hi hgroup hslot ih =>
      rw [TokenStream.bindPattern, if_pos (h.mono hi), h.isCharOf, h.followsOperand, if_neg hgroup, h.slot?,
        hslot]
      dsimp only
      rw [h.bindPattern_succ, ih]
  | case4 i hi =>
      rw [TokenStream.bindPattern, if_neg (by rwa [h.lt_iff])]
      rfl

theorem bindGroup (opening : Nat) :
    f.bindGroup (l.place opening) = (c.bindGroup opening).map (Command.layOut l) := by
  unfold TokenStream.bindGroup
  rw [h.skipGroup, h.bindPattern_succ, h.bindPattern]

theorem handleList (i : Nat) : f.handleList (l.place i) = (c.handleList i).layOut l id := by
  unfold TokenStream.handleList
  rw [h.next?, h.expect]
  refine Plan.layOut_bind _ fun paren => ?_
  rw [h.bindGroup]
  rfl

theorem handleBracket (i : Nat) :
    f.handleBracket (l.place i) = (c.handleBracket i).map (Command.layOut l) := by
  unfold TokenStream.handleBracket
  rw [h.followsOperand, h.skipGroup, h.nextIs, h.bindGroup]
  split <;> rfl

/-! ## Loops -/

theorem opensColonBody (i : Nat) : f.opensColonBody (l.place i) = c.opensColonBody i := by
  unfold TokenStream.opensColonBody
  rw [h.next?, Option.any_map]
  simp only [h.isChar, h.skipGroup, h.nextIs]

theorem colonBodyEnd?_map (loop closing : Kind) (depth : Nat) (places : List Nat) :
    f.colonBodyEnd? loop closing depth (places.map l.place)
      = (c.colonBodyEnd? loop closing depth places).map l.place := by
  induction places generalizing depth with
  | nil => rfl
  | cons i rest ih =>
      rw [List.map_cons]
      unfold TokenStream.colonBodyEnd?
      simp only [h.kind, h.opensColonBody, ih]
      split
      · rfl
      · split
        · split <;> rfl
        · rfl

theorem colonBodyEnd? {loop closing : Kind} (hloop : loop.isTrivial = false)
    (hclosing : closing.isTrivial = false) {i : Nat} (hi : i < c.size) :
    f.colonBodyEnd? loop closing 0 (placesBetween (l.place i) (f.size - 1))
      = (c.colonBodyEnd? loop closing 0 (placesBetween i (c.size - 1))).map l.place := by
  have hplaces : (placesBetween (l.place i) (f.size - 1)).filter (fun j => !(f.token j).isTrivial)
      = (placesBetween i (c.size - 1)).map l.place := by
    refine h.filter_significant (pairwise_placesBetween _ _) (pairwise_placesBetween _ _) fun k => ?_
    have hsize : l.place k < f.size ↔ k < c.size := by rw [← h.size, h.lt_iff]
    have hpos : l.place i < f.size := by rwa [← h.size, h.lt_iff]
    rw [mem_placesBetween, mem_placesBetween, h.le_iff]
    omega
  rw [TokenStream.colonBodyEnd?_filter hloop hclosing, hplaces, h.colonBodyEnd?_map]

theorem whileCondition? (i : Nat) :
    f.whileCondition? (l.place i) = (c.whileCondition? i).map l.place := by
  unfold TokenStream.whileCondition?
  simp only [Option.bind_eq_bind, h.next?, Option.bind_map, Option.map_bind, Function.comp_def, h.kind, h.isChar,
    h.skipGroup, apply_ite (Option.map l.place), Option.map_some, Option.map_none]

theorem doLoopEnd? (i : Nat) : f.doLoopEnd? (l.place i) = (c.doLoopEnd? i).map l.place := by
  unfold TokenStream.doLoopEnd?
  simp only [Option.bind_eq_bind, Option.pure_def, h.next?, Option.bind_map, Option.map_bind, Function.comp_def,
    h.isChar, h.skipGroup, h.statementEnd?, Option.bind_some, h.whileCondition?, Option.getD_map,
    apply_ite (Option.map l.place), Option.map_some]

theorem headedLoopEnd? (i : Nat) : f.headedLoopEnd? (l.place i) = (c.headedLoopEnd? i).map l.place := by
  unfold TokenStream.headedLoopEnd?
  rw [h.next?]
  cases hparen : c.next? i with
  | none => rfl
  | some paren =>
      have hi : i < c.size := by
        have := c.next?_bounds hparen
        omega
      simp only [Option.bind_eq_bind, Option.map_some, Option.bind_some, h.isChar, h.skipGroup, h.next?]
      split
      · rfl
      · cases c.next? (c.skipGroup paren) with
        | none => rfl
        | some n =>
            simp only [Option.map_some, h.isChar, h.skipGroup, h.kind, h.statementEnd?]
            split
            · rfl
            · split
              · rfl
              · split
                · cases hclosing : TokenStream.loopEndKeyword? (c.kind i) with
                  | none => rfl
                  | some closing =>
                      obtain ⟨hloop, hend⟩ := TokenStream.isTrivial_of_loopEndKeyword? hclosing
                      exact h.colonBodyEnd? hloop hend hi
                · rfl

theorem loopEnd? (i : Nat) : f.loopEnd? (l.place i) = (c.loopEnd? i).map l.place := by
  unfold TokenStream.loopEnd?
  rw [h.kind, h.doLoopEnd?, h.headedLoopEnd?]
  split <;> rfl

theorem isForeachTarget (i : Nat) : f.isForeachTarget (l.place i) = c.isForeachTarget i := by
  unfold TokenStream.isForeachTarget
  simp only [h.beforeTarget?, Option.any_map, h.kind, h.prev?, h.prevIs]

theorem bindForeachTarget (place : Option Nat) : f.bindForeachTarget (place.map l.place)
    = ((c.bindForeachTarget place).1.map (Command.layOut l), (c.bindForeachTarget place).2.map l.place) := by
  unfold TokenStream.bindForeachTarget
  have hplace : (place.map l.place).bind f.withoutAmpersand
      = (place.bind c.withoutAmpersand).map l.place := by
    cases place with
    | none => rfl
    | some i => exact h.withoutAmpersand i
  rw [hplace]
  cases place.bind c.withoutAmpersand with
  | none => rfl
  | some i =>
      simp only [Option.map_some, h.kind, h.isChar, h.next?, h.token]
      split
      · cases c.next? i with
        | none => rfl
        | some n =>
            simp only [Option.map_some, h.isChar, h.kind]
            split <;> rfl
      · split
        · have hopening : (if c.kind i == .keyword .listWord then (c.next? i).map l.place
                else some (l.place i))
              = (if c.kind i == .keyword .listWord then c.next? i else some i).map l.place := by
            split <;> rfl
          rw [hopening]
          cases (if c.kind i == .keyword .listWord then c.next? i else some i) with
          | none => rfl
          | some opening =>
              simp only [Option.map_some, h.isCharOf, h.bindGroup, h.skipGroup, h.next?]
              split <;> rfl
        · rfl

theorem bindForeachTargets (i : Nat) :
    f.bindForeachTargets (l.place i) = (c.bindForeachTargets i).map (Command.layOut l) := by
  unfold TokenStream.bindForeachTargets
  rw [h.next?, h.bindForeachTarget]
  obtain ⟨commands, after⟩ := c.bindForeachTarget (c.next? i)
  cases after with
  | none => rfl
  | some arrow =>
      simp only [Option.map_some, h.kind, h.next?, h.bindForeachTarget]
      split
      · rw [List.map_append]
      · rfl

theorem bindForeach (i : Nat) : f.bindForeach (l.place i) = (c.bindForeach i).layOut l id := by
  unfold TokenStream.bindForeach
  rw [h.next?, h.expect]
  refine Plan.layOut_bind _ fun paren => ?_
  have hfound : ∀ j,
      (decide (f.skipGroup (l.place paren) ≤ l.place j) || f.kind (l.place j) == .keyword .asWord)
      = (decide (c.skipGroup paren ≤ j) || c.kind j == .keyword .asWord) := by
    intro j
    simp only [h.skipGroup, h.le_iff, h.kind]
  dsimp only
  rw [h.searchOutside? hfound]
  cases c.searchOutside? _ paren with
  | none => simp only [Option.map_none, h.token]; rfl
  | some stop =>
      simp only [Option.map_some, h.kind, h.bindForeachTargets, h.token]
      split <;> rfl

end Layout.Formats

end Unassigned
