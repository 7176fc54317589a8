import Mathlib.Algebra.Group.Nat.Defs
import Unassigned.Text.Number

/-!
# `Proofs.DecimalText` — integers are read back from their decimal notation

White space around a text does not matter for what is left of it (`stripChars_blank_append`, `stripChars_append_blank`).
The digits of a number in decimal notation are read from left to right with the value of those before them, so an
integer of any size and sign is read back from its notation (`integer?_toString`), as long as it has no more digits
than are read at all.
-/

namespace Unassigned.Text

/-! ## White space at the ends -/

theorem stripChars_blank_append {lead : List Char} (h : ∀ c ∈ lead, isBlank c) (s : List Char) :
    stripChars (lead ++ s) = stripChars s := by
  unfold stripChars stripFront
  rw [List.dropWhile_append_of_pos h]

theorem stripBack_append_blank {trail : List Char} (h : ∀ c ∈ trail, isBlank c) (s : List Char) :
    stripBack (s ++ trail) = stripBack s := by
  unfold stripBack
  rw [List.reverse_append, List.dropWhile_append_of_pos]
  intro c hc
  exact h c (List.mem_reverse.mp hc)

theorem stripChars_append_blank {trail : List Char} (h : ∀ c ∈ trail, isBlank c) (s : List Char) :
    stripChars (s ++ trail) = stripChars s := by
  unfold stripChars stripFront
  rw [List.dropWhile_append]
  split
  · next hempty =>
      -- all is white space
      have htrail : trail.dropWhile isBlank = [] := by
        rw [← List.append_nil trail, List.dropWhile_append_of_pos h, List.dropWhile_nil]
      rw [htrail, List.isEmpty_iff.mp hempty]
  · exact stripBack_append_blank h _

theorem dropWhile_isBlank {s : List Char} (h : ∀ c ∈ s, isBlank c = false) : s.dropWhile isBlank = s := by
  cases s with
  | nil => rfl
  | cons c s => exact List.dropWhile_cons_of_neg (by simp [h c List.mem_cons_self])

theorem stripChars_of_not_blank {s : List Char} (h : ∀ c ∈ s, isBlank c = false) : stripChars s = s := by
  unfold stripChars stripFront stripBack
  rw [dropWhile_isBlank h, dropWhile_isBlank fun c hc => h c (List.mem_reverse.mp hc), List.reverse_reverse]

/-! ## Digits -/

variable {c : Char} {digits : List Char}

theorem code_of_isDigit (h : c.isDigit) : 48 ≤ c.toNat ∧ c.toNat ≤ 57 :=
  Char.isDigit_iff_toNat.mp h

/-- The ASCII digits come first in the table. -/
theorem digitValue?_of_isDigit (h : c.isDigit) : digitValue? c = some (c.toNat - 48) := by
  obtain ⟨hge, hle⟩ := code_of_isDigit h
  unfold digitValue? zeroTable
  rw [List.find?_cons_of_pos]
  · rfl
  · simp only [Bool.and_eq_true, decide_eq_true_eq]
    omega

theorem isBlank_of_isDigit (h : c.isDigit) : isBlank c = false := by
  obtain ⟨hge, hle⟩ := code_of_isDigit h
  exact isBlank_of_visible (by omega) (by omega)

theorem ne_of_isDigit {d : Char} (h : c.isDigit) (hd : d.isDigit = false) : c ≠ d := by
  rintro rfl
  rw [h] at hd
  cases hd

/-- Digits go on after the value of those before them. -/
theorem digitsAfter?_of_digits (h : ∀ c ∈ digits, c.isDigit) {value count : Nat}
    (hcount : count + digits.length ≤ maxDigits) :
    digitsAfter? value count digits = some (Nat.ofDigitChars 10 digits value) := by
  induction digits generalizing value count with
  | nil =>
      rw [Nat.ofDigitChars_nil]
      exact if_pos hcount
  | cons c digits ih =>
      obtain ⟨hc, hdigits⟩ := List.forall_mem_cons.mp h
      rw [List.length_cons] at hcount
      have hne : c ≠ '_' := ne_of_isDigit hc rfl
      unfold digitsAfter?
      split
      · next heq => cases heq
      · next heq => exact absurd (List.cons.inj heq).1 hne
      · next heq =>
          obtain ⟨rfl, rfl⟩ := List.cons.inj heq
          rw [digitValue?_of_isDigit hc]
          show digitsAfter? _ _ digits = _
          rw [ih hdigits (by omega), Nat.ofDigitChars_cons]
          rfl

theorem natural?_of_digits (hne : digits ≠ []) (h : ∀ c ∈ digits, c.isDigit) (hlength : digits.length ≤ maxDigits) :
    natural? digits = some (Nat.ofDigitChars 10 digits 0) := by
  obtain ⟨c, more, rfl⟩ := List.exists_cons_of_ne_nil hne
  obtain ⟨hc, hmore⟩ := List.forall_mem_cons.mp h
  rw [List.length_cons] at hlength
  unfold natural?
  dsimp only
  rw [digitValue?_of_isDigit hc]
  show digitsAfter? _ _ more = _
  rw [digitsAfter?_of_digits hmore (by omega), Nat.ofDigitChars_cons, Nat.mul_zero, Nat.zero_add]
  rfl

/-! ## Integers -/

theorem isDigit_of_mem_toDigits {n : Nat} {c : Char} (h : c ∈ Nat.toDigits 10 n) : c.isDigit :=
  Nat.isDigit_of_mem_toDigits (by decide) (by decide) h

/-- A number is read back from its digits. -/
theorem natural?_toDigits {n : Nat} (h : n < 10 ^ maxDigits) : natural? (Nat.toDigits 10 n) = some n := by
  have hlength : (Nat.toDigits 10 n).length ≤ maxDigits :=
    (Nat.length_toDigits_le_iff (by decide) (by decide)).mpr h
  rw [natural?_of_digits Nat.toDigits_ne_nil (fun c => isDigit_of_mem_toDigits) hlength, Nat.ofDigitChars_ten_toDigits]

/-- A number without sign in front. -/
theorem signed?_of_digits (h : ∀ c ∈ digits, c.isDigit) : signed? digits = (natural? digits).map Int.ofNat := by
  unfold signed?
  split
  · exact absurd rfl (ne_of_isDigit (h '-' List.mem_cons_self) (d := '-') rfl)
  · exact absurd rfl (ne_of_isDigit (h '+' List.mem_cons_self) (d := '+') rfl)
  · rfl

/-- The notation of an integer: its digits, after a minus sign if it is negative. -/
theorem toList_toString (z : Int) : (toString z).toList
    = if 0 ≤ z then Nat.toDigits 10 z.natAbs else '-' :: Nat.toDigits 10 z.natAbs := by
  rw [Int.toString_eq_repr, Int.repr_eq_if]
  by_cases hz : 0 ≤ z
  · rw [if_pos hz, if_pos hz, Nat.toList_repr, show z.toNat = z.natAbs by omega]
  · rw [if_neg hz, if_neg hz, String.toList_append, Nat.toList_repr, show (-z).toNat = z.natAbs by omega]
    rfl

theorem mem_toString {z : Int} (h : c ∈ (toString z).toList) : c = '-' ∨ c.isDigit := by
  rw [toList_toString] at h
  split at h
  · exact .inr (isDigit_of_mem_toDigits h)
  · exact (List.mem_cons.mp h).imp_right isDigit_of_mem_toDigits

theorem toString_ne_nil (z : Int) : (toString z).toList ≠ [] := by
  rw [toList_toString]
  split
  · exact Nat.toDigits_ne_nil
  · exact List.cons_ne_nil _ _

theorem stripChars_toString (z : Int) : stripChars (toString z).toList = (toString z).toList := by
  apply stripChars_of_not_blank
  intro c hc
  rcases mem_toString hc with rfl | hdigit
  · decide
  · exact isBlank_of_isDigit hdigit

/-- **An integer is read back from its decimal notation.** -/
theorem integer?_toString {z : Int} (h : z.natAbs < 10 ^ maxDigits) : integer? (toString z).toList = some z := by
  rw [integer?, stripChars_toString, toList_toString]
  by_cases hz : 0 ≤ z
  · rw [if_pos hz, signed?_of_digits fun c => isDigit_of_mem_toDigits, natural?_toDigits h]
    show some (z.natAbs : Int) = some z
    rw [Int.natAbs_of_nonneg hz]
  · have hminus : ∀ s, signed? ('-' :: s) = (natural? s).map fun n => -(n : Int) := fun s => rfl
    rw [if_neg hz, hminus, natural?_toDigits h]
    show some (-(z.natAbs : Int)) = some z
    congr 1
    omega

end Unassigned.Text
