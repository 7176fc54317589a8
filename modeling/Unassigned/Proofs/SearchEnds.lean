import Mathlib.Order.Bounds.Basic
import Unassigned.Proofs.Search

/-!
# `Proofs.SearchEnds` — statements and expressions end at the first token that can end them

A search outside groups hops from token to token and over every group on its way. Where it stops can be said without
the hops: at the **least** place behind its start that holds a token it looks for, is not inside a group which opens
after the start, and does not close such a group (`endPlaces`). This holds from every start, also from a bracket and
from inside a group, whose closing bracket the search then meets unpaired.

Statements and expressions are two such searches; they differ in the tokens that they look for.
-/

namespace Unassigned

namespace TokenStream

variable {f : TokenStream}

/-! ## Places behind a start -/

/-- The place `j` is inside a group that opens after `i`. -/
def InsideAfter (f : TokenStream) (i j : Nat) : Prop :=
  ∃ o c, f.partner? o = some c ∧ i < o ∧ o < j ∧ j < c

/-- The place `j` closes a group that opens after `i`. -/
def ClosesAfter (f : TokenStream) (i j : Nat) : Prop :=
  ∃ o, f.partner? o = some j ∧ i < o ∧ o < j

/-- The place `j` is outside the groups that open after `i`: it is inside none of them and closes none of them. -/
def OutsideAfter (f : TokenStream) (i j : Nat) : Prop :=
  ¬ f.InsideAfter i j ∧ ¬ f.ClosesAfter i j

/-- The places behind `i` where one of the tokens stands, outside the groups that open after `i`. -/
def endPlaces (f : TokenStream) (ends : List Kind) (i : Nat) : Set Nat :=
  {j | i < j ∧ f.kind j ∈ ends ∧ f.OutsideAfter i j}

/-- The tokens that can end a statement. -/
def statementEnds : List Kind :=
  [.closeTag, .char ';', .char '\x7d']

/-- The tokens that can end an expression. -/
def expressionEnds : List Kind :=
  [.closeTag, .char ';', .char ',', .char ')', .char ']', .char '\x7d']

/-- Outside means that the groups which open between the two places close between them. -/
theorem outsideAfter_iff {i j : Nat} :
    f.OutsideAfter i j ↔ ∀ o c, i < o → f.closer? o = some c → o < j → c < j := by
  constructor
  · rintro ⟨hinside, hcloses⟩ o c hio hgroup hoj
    obtain ⟨hpartner, _⟩ := closer?_eq_some.mp hgroup
    by_contra hreach
    by_cases hjc : j = c
    · exact hcloses ⟨o, hjc ▸ hpartner, hio, hoj⟩
    · exact hinside ⟨o, c, hpartner, hio, hoj, by omega⟩
  · intro hall
    constructor
    · rintro ⟨o, c, hpartner, hio, hoj, hjc⟩
      have hlt := hall o c hio (closer?_eq_some.mpr ⟨hpartner, by omega⟩) hoj
      omega
    · rintro ⟨o, hpartner, hio, hoj⟩
      have hlt := hall o j hio (closer?_eq_some.mpr ⟨hpartner, hoj⟩) hoj
      omega

/-! ## The least place -/

section

variable {found : Nat → Bool} {ends : List Kind}
variable {i j : Nat}

/-- A search never stops inside a group that it could have jumped over, nor at its closing bracket. -/
theorem WellNested.searchOutside?_outside (hf : f.WellNested) (h : f.searchOutside? found i = some j) :
    f.OutsideAfter i j := by
  have hend : f.searchEnd found i = j := by rw [searchEnd, h, Option.getD_some]
  apply outsideAfter_iff.mpr
  intro o c hio hgroup hoj
  rcases hf.searchEnd_group found hio hgroup with hle | hlt <;> omega

/-- A search stops no later than at a place where it can stop. -/
theorem WellNested.searchEnd_le (hf : f.WellNested) {m : Nat} (him : i < m) (hm : m < f.size) (hfound : found m)
    (hsig : (f.token m).isTrivial = false) (houtside : f.OutsideAfter i m) : f.searchEnd found i ≤ m := by
  rcases hf.searchEnd_cases found him hm hsig with hle | ⟨hnot, _⟩ | ⟨o, c, hio, hom, hgroup, hmc, _⟩
  · exact hle
  · exact absurd hfound hnot
  · have hlt := outsideAfter_iff.mp houtside o c hio hgroup hom
    omega

/-- **A search outside groups stops at the least place** where it can stop, and finds nothing if there is none. -/
theorem WellNested.searchOutside?_isLeast (hf : f.WellNested) (hfound : ∀ j, found j ↔ f.kind j ∈ ends)
    (hends : ∀ kind ∈ ends, kind.isTrivial = false ∧ kind ≠ .inlineHtml) (i : Nat) :
    (∃ j, f.searchOutside? found i = some j ∧ IsLeast (f.endPlaces ends i) j)
      ∨ (f.searchOutside? found i = none ∧ f.endPlaces ends i = ∅) := by
  have hplace : ∀ m ∈ f.endPlaces ends i, m < f.size ∧ f.searchEnd found i ≤ m := by
    rintro m ⟨him, hkind, houtside⟩
    obtain ⟨htrivial, hinline⟩ := hends _ hkind
    have hm : m < f.size := lt_size_of_kind hinline
    exact ⟨hm, hf.searchEnd_le him hm ((hfound m).mpr hkind) htrivial houtside⟩
  cases h : f.searchOutside? found i with
  | some j =>
      have hend : f.searchEnd found i = j := by rw [searchEnd, h, Option.getD_some]
      refine .inl ⟨j, rfl, ⟨(f.search?_bounds h).1, (hfound j).mp (search?_found h).1, hf.searchOutside?_outside h⟩, ?_⟩
      intro m hm
      exact hend ▸ (hplace m hm).2
  | none =>
      have hend : f.searchEnd found i = f.size := by rw [searchEnd, h, Option.getD_none]
      refine .inr ⟨rfl, Set.eq_empty_of_forall_notMem fun m hm => ?_⟩
      obtain ⟨hlt, hle⟩ := hplace m hm
      omega

/-- The least place is the one that is found. -/
theorem WellNested.searchOutside?_eq_some_iff (hf : f.WellNested) (hfound : ∀ j, found j ↔ f.kind j ∈ ends)
    (hends : ∀ kind ∈ ends, kind.isTrivial = false ∧ kind ≠ .inlineHtml) :
    f.searchOutside? found i = some j ↔ IsLeast (f.endPlaces ends i) j := by
  rcases hf.searchOutside?_isLeast hfound hends i with ⟨k, hk, hleast⟩ | ⟨hnone, hempty⟩
  · rw [hk, Option.some.injEq]
    exact ⟨fun hkj => hkj ▸ hleast, fun hj => hleast.unique hj⟩
  · rw [hnone, hempty]
    exact ⟨nofun, fun hj => absurd hj.1 (Set.notMem_empty j)⟩

/-- Nothing is found exactly if there is no place to stop at. -/
theorem WellNested.searchOutside?_eq_none_iff (hf : f.WellNested) (hfound : ∀ j, found j ↔ f.kind j ∈ ends)
    (hends : ∀ kind ∈ ends, kind.isTrivial = false ∧ kind ≠ .inlineHtml) :
    f.searchOutside? found i = none ↔ f.endPlaces ends i = ∅ := by
  rcases hf.searchOutside?_isLeast hfound hends i with ⟨k, hk, hleast⟩ | ⟨hnone, hempty⟩
  · rw [hk]
    refine iff_of_false (Option.some_ne_none k) fun hempty => ?_
    rw [hempty] at hleast
    exact Set.notMem_empty k hleast.1
  · exact iff_of_true hnone hempty

theorem searchEnd_eq_iff (hj : j < f.size) : f.searchEnd found i = j ↔ f.searchOutside? found i = some j := by
  unfold searchEnd
  cases h : f.searchOutside? found i with
  | some k => rw [Option.getD_some, Option.some.injEq]
  | none =>
      rw [Option.getD_none]
      exact iff_of_false (Nat.ne_of_gt hj) (Option.some_ne_none j).symm

theorem searchEnd_eq_size_iff : f.searchEnd found i = f.size ↔ f.searchOutside? found i = none := by
  unfold searchEnd
  cases h : f.searchOutside? found i with
  | some k =>
      rw [Option.getD_some]
      exact iff_of_false (Nat.ne_of_lt (f.search?_bounds h).2) (Option.some_ne_none k)
  | none => exact iff_of_true rfl rfl

end

/-! ## Statements and expressions -/

theorem mem_statementEnds (j : Nat) :
    (f.kind j == .closeTag || f.isCharOf j [';', '\x7d']) ↔ f.kind j ∈ statementEnds := by
  simp [statementEnds, isCharOf_iff]

theorem mem_expressionEnds (j : Nat) :
    (f.kind j == .closeTag || f.isCharOf j [';', ',', ')', ']', '\x7d']) ↔ f.kind j ∈ expressionEnds := by
  simp [expressionEnds, isCharOf_iff]

/-- The tokens that can end an expression, and so those that can end a statement, are tokens of the file and no white
    space. -/
theorem visible_of_mem_expressionEnds {kind : Kind} (h : kind ∈ expressionEnds) :
    kind.isTrivial = false ∧ kind ≠ .inlineHtml := by
  revert kind
  decide

theorem visible_of_mem_statementEnds {kind : Kind} (h : kind ∈ statementEnds) :
    kind.isTrivial = false ∧ kind ≠ .inlineHtml := by
  revert kind
  decide

end TokenStream

namespace SourceFile

open TokenStream

variable {fileName source : String} {f : SourceFile}

/-- **Statements and expressions end at the first token that can end them.** From every place of a file that can be
    parsed, the statement's end is the least place behind it with a semicolon, a closing tag or a closing brace, outside
    the groups that open after the place and not closing one of them; there is none exactly if there is no such place.
    For the end of an expression also commas and the other closing brackets count, and the number of tokens stands for
    the absence of an end. -/
theorem ends_are_least (hf : ofSource fileName source = .ok f) (i : Nat) :
    (∀ j, f.statementEnd? i = some j ↔ IsLeast (f.endPlaces statementEnds i) j)
    ∧ (f.statementEnd? i = none ↔ f.endPlaces statementEnds i = ∅)
    ∧ (∀ j < f.size, f.expressionEnd i = j ↔ IsLeast (f.endPlaces expressionEnds i) j)
    ∧ (f.expressionEnd i = f.size ↔ f.endPlaces expressionEnds i = ∅) := by
  have hnested := wellNested_of_ofSource hf
  refine ⟨fun j => ?_, ?_, fun j hj => ?_, ?_⟩
  · exact hnested.searchOutside?_eq_some_iff mem_statementEnds fun _ => visible_of_mem_statementEnds
  · exact hnested.searchOutside?_eq_none_iff mem_statementEnds fun _ => visible_of_mem_statementEnds
  · rw [← hnested.searchOutside?_eq_some_iff mem_expressionEnds fun _ => visible_of_mem_expressionEnds]
    exact searchEnd_eq_iff hj
  · rw [← hnested.searchOutside?_eq_none_iff mem_expressionEnds fun _ => visible_of_mem_expressionEnds]
    exact searchEnd_eq_size_iff

/-- A source with brackets inside brackets. -/
def bracketsInBrackets : String :=
  "<?php f([fn($x) => \x7b1;\x7d, 2]); ?>x"

theorem bracketsInBrackets_run : ∃ f, ofSource "f.php" bracketsInBrackets = .ok f
    ∧ f.size = 24 ∧ f.statementEnd? 5 = some 20 ∧ f.expressionEnd 5 = 7 ∧ f.statementEnd? 22 = none
    ∧ f.expressionEnd 22 = f.size :=
  exists_ok_of_decide (by decide +kernel)

/-- From the parenthesis of the arrow function: the statement goes on over the closing brackets that the search meets
    unpaired, the expression ends at the first of them. Nothing ends behind the closing tag. -/
theorem bracketsInBrackets_ends : ∃ f, ofSource "f.php" bracketsInBrackets = .ok f
    ∧ IsLeast (f.endPlaces statementEnds 5) 20 ∧ IsLeast (f.endPlaces expressionEnds 5) 7
    ∧ f.endPlaces statementEnds 22 = ∅ ∧ f.endPlaces expressionEnds 22 = ∅ := by
  obtain ⟨f, hf, hsize, hstatement, hexpression, hnone, hlast⟩ := bracketsInBrackets_run
  obtain ⟨hsome, _, hend, _⟩ := ends_are_least hf 5
  obtain ⟨_, hempty, _, hempty'⟩ := ends_are_least hf 22
  exact ⟨f, hf, (hsome 20).mp hstatement, (hend 7 (by omega)).mp hexpression, hempty.mp hnone, hempty'.mp hlast⟩

end SourceFile

end Unassigned
