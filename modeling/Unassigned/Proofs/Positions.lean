import Unassigned.Lint.Linter
import Unassigned.Proofs.Scanning
import Unassigned.Proofs.Tables

/-!
# `Proofs.Positions` — where the positions of a signature come from

A call finds its signature in the file, in the configuration or among the functions of the runtime. Whichever
it is, **the positions are ascending** (`Linter.find?_ascending`), and **only a configured one can be negative**
(`Linter.configured_of_negative`).

Ascending positions make the by-reference arguments of a call predictable: they cannot be found exactly if
some position reaches before the first argument (`TokenStream.passReferences_error_iff`).
-/

namespace Unassigned

/-! ## Ascending lists -/

/-- The positions are ascending, without repetition. -/
def Ascending (positions : List Int) : Prop :=
  positions.Pairwise (· < ·)

instance (positions : List Int) : Decidable (Ascending positions) :=
  inferInstanceAs (Decidable (positions.Pairwise _))

variable {p q : Int} {set positions : List Int} {text : String} {signature : Signature}

theorem mem_insertPosition (h : q ∈ insertPosition p set) : q = p ∨ q ∈ set := by
  induction set with
  | nil => simpa [insertPosition] using h
  | cons r rest ih =>
      unfold insertPosition at h
      split at h
      · exact List.mem_cons.mp h
      · split at h
        · exact .inr h
        · rcases List.mem_cons.mp h with rfl | h
          · exact .inr (List.mem_cons_self ..)
          · exact (ih h).imp_right (List.mem_cons_of_mem r)

theorem ascending_insertPosition (p : Int) (h : Ascending set) : Ascending (insertPosition p set) := by
  induction set with
  | nil => exact List.pairwise_singleton ..
  | cons q rest ih =>
      have hrest := List.pairwise_cons.mp h
      unfold insertPosition
      split
      · next hlt =>
          refine List.pairwise_cons.mpr ⟨?_, h⟩
          intro r hr
          rcases List.mem_cons.mp hr with rfl | hr
          · exact hlt
          · exact Int.lt_trans hlt (hrest.1 r hr)
      · split
        · exact h
        · refine List.pairwise_cons.mpr ⟨?_, ih hrest.2⟩
          intro r hr
          rcases mem_insertPosition hr with rfl | hr
          · omega
          · exact hrest.1 r hr

/-- What the insertion of positions keeps holds of the set of a list of them. -/
theorem positionSet_induction {P : List Int → Prop} (hnil : P [])
    (hinsert : ∀ set, P set → ∀ p ∈ positions, P (insertPosition p set)) : P (positionSet positions) :=
  List.foldlRecOn positions _ hnil fun set hset p hp => hinsert set hset p hp

theorem ascending_positionSet (positions : List Int) : Ascending (positionSet positions) :=
  positionSet_induction List.Pairwise.nil fun _ hset p _ => ascending_insertPosition p hset

theorem mem_positionSet (h : q ∈ positionSet positions) : q ∈ positions := by
  revert h
  apply positionSet_induction (P := fun set => q ∈ set → q ∈ positions)
  · intro h
    cases h
  · intro set hset p hp h
    rcases mem_insertPosition h with rfl | h
    · exact hp
    · exact hset h

theorem insertPosition_of_lt (h : ∀ q ∈ set, q < p) : insertPosition p set = set ++ [p] := by
  induction set with
  | nil => rfl
  | cons q rest ih =>
      obtain ⟨hq, hrest⟩ := List.forall_mem_cons.mp h
      rw [insertPosition, if_neg (by omega), if_neg (by omega), ih hrest]
      rfl

/-- Positions in ascending order are their own set. -/
theorem positionSet_of_ascending (h : Ascending positions) : positionSet positions = positions := by
  suffices hfold : ∀ rest set : List Int, Ascending (set ++ rest) →
      rest.foldl (fun set p => insertPosition p set) set = set ++ rest from hfold positions [] h
  intro rest
  induction rest with
  | nil =>
      intro set _
      exact (List.append_nil set).symm
  | cons p rest ih =>
      intro set hset
      have hlt : ∀ q ∈ set, q < p := fun q hq => (List.pairwise_append.mp hset).2.2 q hq p List.mem_cons_self
      rw [List.foldl_cons, insertPosition_of_lt hlt, ih (set ++ [p]) (by simpa using hset)]
      simp

theorem mem_insertPosition_of (h : q = p ∨ q ∈ set) : q ∈ insertPosition p set := by
  induction set with
  | nil => simpa [insertPosition] using h
  | cons r rest ih =>
      unfold insertPosition
      split
      · exact List.mem_cons.mpr h
      · split
        · next heq =>
            rcases h with rfl | h
            · exact List.mem_cons.mpr (.inl heq)
            · exact h
        · rw [List.mem_cons] at h ⊢
          rcases h with rfl | rfl | h
          · exact .inr (ih (.inl rfl))
          · exact .inl rfl
          · exact .inr (ih (.inr h))

/-- The set of a list of positions has the members of the list. -/
theorem mem_positionSet_iff : q ∈ positionSet positions ↔ q ∈ positions := by
  refine ⟨mem_positionSet, fun h => ?_⟩
  suffices hfold : ∀ set : List Int, q ∈ set ∨ q ∈ positions →
      q ∈ positions.foldl (fun set p => insertPosition p set) set from hfold [] (.inr h)
  clear h
  induction positions with
  | nil =>
      intro set hset
      exact hset.resolve_right List.not_mem_nil
  | cons p rest ih =>
      intro set hset
      apply ih
      rcases hset with hset | hrest
      · exact .inl (mem_insertPosition_of (.inr hset))
      · rcases List.mem_cons.mp hrest with rfl | hrest
        · exact .inl (mem_insertPosition_of (.inl rfl))
        · exact .inr hrest

/-! ## Configured signatures -/

theorem Signature.ofPositions_ascending (h : Signature.ofPositions text = .ok signature) :
    Ascending signature.refs := by
  unfold Signature.ofPositions at h
  split at h
  · cases h
  · split at h
    · cases h
    · split at h
      · cases h
      · obtain rfl := Except.ok.inj h
        exact ascending_positionSet _

theorem Signature.ofPrototype_ascending (h : Signature.ofPrototype text = .ok signature) :
    Ascending signature.refs := by
  unfold Signature.ofPrototype at h
  split at h
  · cases h
  · split at h
    · cases h
    · obtain rfl := Except.ok.inj h
      dsimp only
      split
      · exact List.Pairwise.nil
      · exact ascending_positionSet _

theorem Signature.ofText_ascending (h : Signature.ofText text = .ok signature) : Ascending signature.refs := by
  unfold Signature.ofText at h
  split at h
  · exact Signature.ofPrototype_ascending h
  · exact Signature.ofPositions_ascending h

/-- Signatures that are added to a table have what their reader gives them. -/
theorem addSignatures_ascending {read : String → Except SignatureError Signature}
    (hread : ∀ {text signature}, read text = .ok signature → Ascending signature.refs) {texts : List String}
    {table table' : List (String × Signature)} (htable : ∀ entry ∈ table, Ascending entry.2.refs)
    (h : addSignatures read table texts = .ok table') : ∀ entry ∈ table', Ascending entry.2.refs := by
  induction texts generalizing table with
  | nil =>
      obtain rfl : table = table' := Except.ok.inj h
      exact htable
  | cons text rest ih =>
      obtain ⟨next, hnext, hrest⟩ := exists_of_bind_eq_ok h
      obtain ⟨signature, hsignature, hinsert⟩ := exists_of_bind_eq_ok hnext
      obtain rfl : Ordered.insert signature.name signature table = next := Except.ok.inj hinsert
      refine ih ?_ hrest
      intro entry hentry
      rcases Ordered.mem_insert hentry with rfl | hentry
      · exact hread hsignature
      · exact htable entry hentry

theorem configuredSignatures_ascending {byPositions inEitherForm : List String} {table : List (String × Signature)}
    (h : configuredSignatures byPositions inEitherForm = .ok table) : ∀ entry ∈ table, Ascending entry.2.refs := by
  obtain ⟨first, hfirst, hrest⟩ := exists_of_bind_eq_ok h
  have htable : ∀ entry ∈ first, Ascending entry.2.refs :=
    addSignatures_ascending Signature.ofPositions_ascending (fun entry hentry => by cases hentry) hfirst
  exact addSignatures_ascending Signature.ofText_ascending htable hrest

theorem Linter.configured_ascending {settings : LintSettings} {only : List String} {linter : Linter}
    (h : Linter.ofSettings settings only = .ok linter) : ∀ entry ∈ linter.configured, Ascending entry.2.refs := by
  unfold Linter.ofSettings at h
  split at h
  · cases h
  · split at h
    · cases h
    · split at h
      · cases h
      · next table htable =>
          obtain rfl := Except.ok.inj h
          exact configuredSignatures_ascending htable

/-! ## Declared signatures and those of the runtime -/

theorem nonneg_of_mem_refPositions {position : Nat} {isVariadic : Bool} (h : p ∈ refPositions position isVariadic) :
    0 ≤ p := by
  unfold refPositions at h
  split at h
  · obtain ⟨offset, _, rfl⟩ := List.mem_map.mp h
    omega
  · obtain rfl : p = position := by simpa using h
    omega

theorem SourceFile.nonneg_of_mem_referencePositions {f : SourceFile} {paren : Nat}
    (h : p ∈ f.referencePositions paren) : 0 ≤ p := by
  obtain ⟨⟨first, position⟩, _, hp⟩ := List.mem_flatMap.mp (mem_positionSet h)
  dsimp only at hp
  split at hp
  · exact nonneg_of_mem_refPositions hp
  · cases hp

theorem SourceFile.refs_of_mem_signatures {f : SourceFile} {entry : String × Signature} (h : entry ∈ f.signatures) :
    ∃ paren, entry.2.refs = f.referencePositions paren := by
  obtain ⟨function, _, hentry⟩ := List.mem_filterMap.mp (Ordered.mem_ofList h)
  obtain ⟨key, _, rfl⟩ := Option.map_eq_some_iff.mp hentry
  exact ⟨function.paramsStart, rfl⟩

theorem builtinSignature?_refs {name : String} (h : builtinSignature? name = some signature) :
    Ascending signature.refs ∧ ∀ p ∈ signature.refs, 0 ≤ p := by
  have htable : ∀ entry ∈ builtinReferences, Ascending entry.2 ∧ ∀ p ∈ entry.2, 0 ≤ p := by decide +kernel
  unfold builtinSignature? at h
  dsimp only at h
  split at h
  · next refs hrefs =>
      obtain rfl := Option.some.inj h
      exact htable _ (Ordered.mem_of_lookup hrefs)
  · split at h
    · obtain rfl := Option.some.inj h
      exact ⟨List.Pairwise.nil, fun p hp => by cases hp⟩
    · cases h

/-! ## The signatures of a linter -/

/-- The signature of a name comes from one of three places. -/
theorem SignatureTable.find?_cases {table : SignatureTable} {key : String} (h : table.find? key = some signature) :
    table.declared.lookup key = some signature
      ∨ table.configured.lookup key = some signature ∨ table.builtin key = some signature := by
  simp only [find?, Option.orElse_eq_orElse, Option.orElse_eq_or, Option.or_eq_some_iff] at h
  rcases h with hdeclared | ⟨_, hconfigured | ⟨_, hbuiltin⟩⟩
  · exact .inl hdeclared
  · exact .inr (.inl hconfigured)
  · exact .inr (.inr hbuiltin)

namespace Linter

variable {linter : Linter} {file : SourceFile} {key : String} {signature : Signature}

/-- Where the signature of a name comes from. -/
theorem find?_cases (h : (linter.context file).signatures.find? key = some signature) :
    file.signatures.lookup key = some signature ∨ linter.configured.lookup key = some signature
      ∨ builtinSignature? key = some signature :=
  SignatureTable.find?_cases h

/-- **The positions of a signature are ascending.** -/
theorem find?_ascending {settings : LintSettings} {only : List String} (hlinter : ofSettings settings only = .ok linter)
    (h : (linter.context file).signatures.find? key = some signature) : Ascending signature.refs := by
  rcases find?_cases h with hdeclared | hconfigured | hbuiltin
  · obtain ⟨paren, hrefs⟩ := SourceFile.refs_of_mem_signatures (Ordered.mem_of_lookup hdeclared)
    rw [hrefs]
    exact ascending_positionSet _
  · exact configured_ascending hlinter _ (Ordered.mem_of_lookup hconfigured)
  · exact (builtinSignature?_refs hbuiltin).1

/-- **Only a configured signature has a negative position.** -/
theorem configured_of_negative (h : (linter.context file).signatures.find? key = some signature) {p : Int}
    (hp : p ∈ signature.refs) (hneg : p < 0) : linter.configured.lookup key = some signature := by
  rcases find?_cases h with hdeclared | hconfigured | hbuiltin
  · obtain ⟨paren, hrefs⟩ := SourceFile.refs_of_mem_signatures (Ordered.mem_of_lookup hdeclared)
    rw [hrefs] at hp
    have := SourceFile.nonneg_of_mem_referencePositions hp
    omega
  · exact hconfigured
  · have := (builtinSignature?_refs hbuiltin).2 p hp
    omega

end Linter

/-! ## The by-reference arguments of a call -/

/-- The position reaches before the first of so many arguments. -/
def ReachesBefore (count : Nat) (position : Int) : Prop :=
  position < 0 ∧ (count : Int) < -position

theorem elementAt?_eq_none_iff {α : Type} {xs : List α} {position : Int} (h : position < xs.length) :
    elementAt? xs position = none ↔ ReachesBefore xs.length position := by
  unfold elementAt? ReachesBefore
  dsimp only
  -- counted from the end, a position is missing if it comes out before the start
  split
  · next hneg =>
      split
      · simp only [true_iff]
        omega
      · rw [List.getElem?_eq_none_iff]
        omega
  · rw [List.getElem?_eq_none_iff]
    omega

/-- **The arguments of a call cannot be found exactly if a position reaches before the first of them.** -/
theorem TokenStream.passReferences_error_iff (f : TokenStream) {positional : List Nat} (h : Ascending positions) :
    (f.passReferences signature positional positions).result = .error .positionOutOfRange
      ↔ ∃ p ∈ positions, ReachesBefore positional.length p := by
  induction positions with
  | nil =>
      simp [passReferences]
  | cons position rest ih =>
      have hrest := List.pairwise_cons.mp h
      unfold passReferences
      split
      · next hle =>
          -- the positions after one beyond the last argument are beyond it too
          have hbeyond : ∀ p ∈ position :: rest, ¬ ReachesBefore positional.length p := by
            intro p hp ⟨hneg, _⟩
            rcases List.mem_cons.mp hp with rfl | hp
            · omega
            · have := hrest.1 p hp
              omega
          simpa using hbeyond
      · next hlt =>
          have hnone : elementAt? positional position = none ↔ ReachesBefore positional.length position :=
            elementAt?_eq_none_iff (Int.not_le.mp hlt)
          split
          · next hmissing => exact ⟨fun _ => ⟨position, List.mem_cons_self .., hnone.mp hmissing⟩, fun _ => rfl⟩
          · next first hfirst =>
              have hhere : ¬ ReachesBefore positional.length position := by
                intro hbefore
                rw [hnone.mpr hbefore] at hfirst
                cases hfirst
              rw [Plan.bind_of_ok rfl]
              simpa [hhere] using ih hrest.2

end Unassigned
