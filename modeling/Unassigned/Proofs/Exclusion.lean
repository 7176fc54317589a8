import Mathlib.Data.List.DropRight
import Unassigned.Files.Path

/-!
# `Proofs.Exclusion` — what is below an excluded directory is excluded

Exclusions compare paths without `./` in front and without separators at the end. A file below an excluded directory is
found to be excluded by its own path because the comparable path of the directory is in front of that of the file, with
a separator behind it (`isWithin_comparable`).

There is one exception. Separators are dropped in front of a final line feed too, so a path that **ends loosely**, in a
line feed with a separator before it, is compared as another path. Neither the directory nor the file may end so.
-/

namespace Unassigned

/-! ## One path within another -/

theorem isWithin_iff {directory path : List Char} :
    isWithin directory path ↔ ∃ rest, path = directory ++ rest ∧ rest.head?.all isSeparator := by
  rw [isWithin, Bool.and_eq_true_iff, List.isPrefixOf_iff_prefix]
  constructor
  · rintro ⟨⟨rest, rfl⟩, hrest⟩
    rw [List.drop_left] at hrest
    refine ⟨rest, rfl, ?_⟩
    cases rest with
    | nil => rfl
    | cons c rest => exact hrest
  · rintro ⟨rest, rfl, hrest⟩
    refine ⟨List.prefix_append directory rest, ?_⟩
    rw [List.drop_left]
    cases rest with
    | nil => rfl
    | cons c rest => exact hrest

theorem isWithin_trans {a b c : List Char} (hab : isWithin a b) (hbc : isWithin b c) : isWithin a c := by
  obtain ⟨rest, rfl, hrest⟩ := isWithin_iff.mp hab
  obtain ⟨more, rfl, hmore⟩ := isWithin_iff.mp hbc
  refine isWithin_iff.mpr ⟨rest ++ more, List.append_assoc a rest more, ?_⟩
  cases rest with
  | nil => exact hmore
  | cons d rest => exact hrest

/-! ## Comparable paths -/

/-- The text ends in a line feed directly behind a separator. -/
def endsLoosely (s : List Char) : Bool :=
  match s.reverse with
  | last :: c :: _ => last == '\n' && isSeparator c
  | _ => false

variable {path : String} {s : List Char}

theorem endsLoosely_iff : endsLoosely s ↔ ∃ front c, s = front ++ [c, '\n'] ∧ isSeparator c := by
  unfold endsLoosely
  constructor
  · intro h
    split at h
    · next last c rest hreverse =>
        obtain ⟨hlast, hc⟩ := Bool.and_eq_true_iff.mp h
        refine ⟨rest.reverse, c, ?_, hc⟩
        rw [← List.reverse_reverse s, hreverse, beq_iff_eq.mp hlast]
        simp
    · cases h
  · rintro ⟨front, c, rfl, hc⟩
    simp [hc]

theorem dropHere_suffix (s : List Char) : dropHere s <:+ s := by
  unfold dropHere
  split
  · next c rest =>
      split
      · exact (List.dropWhile_suffix isSeparator).trans ⟨['.', c], rfl⟩
      · exact List.suffix_rfl
  · exact List.suffix_rfl

/-- Only separators are dropped at the end of a path that does not end loosely. -/
theorem toList_comparablePath (h : endsLoosely path.toList = false) :
    (comparablePath path).toList = (dropHere path.toList).rdropWhile isSeparator := by
  rw [comparablePath, String.toList_ofList, List.rdropWhile]
  congr 1
  obtain ⟨front, hfront⟩ := dropHere_suffix path.toList
  unfold dropBackSeparators
  split
  · next rest hreverse =>
      have hself : rest.dropWhile isSeparator = rest := by
        cases rest with
        | nil => rfl
        | cons c rest =>
            apply List.dropWhile_cons_of_neg
            intro hc
            have hloose : endsLoosely path.toList := by
              refine endsLoosely_iff.mpr ⟨front ++ rest.reverse, c, ?_, hc⟩
              rw [← hfront, ← List.reverse_reverse (dropHere path.toList), hreverse]
              simp
            rw [h] at hloose
            cases hloose
      rw [hself, hreverse]
      exact (List.dropWhile_cons_of_neg (by decide)).symm
  · rfl

/-! ## Below a directory -/

/-- A path that goes on behind the path of a directory. -/
def Below (directory path : List Char) : Prop :=
  ∃ rest, path = directory ++ rest ∧ (rest.head?.all (· == '/') ∨ directory.getLast? = some '/')

theorem Below.refl (path : List Char) : Below path path :=
  ⟨[], (List.append_nil path).symm, .inl rfl⟩

theorem Below.trans {a b c : List Char} (hab : Below a b) (hbc : Below b c) : Below a c := by
  obtain ⟨rest, rfl, hrest⟩ := hab
  obtain ⟨more, rfl, hmore⟩ := hbc
  refine ⟨rest ++ more, List.append_assoc a rest more, ?_⟩
  cases rest with
  | nil =>
      rw [List.append_nil] at hmore
      exact hmore
  | cons d rest => exact hrest

theorem toList_join (directory name : String) : ∃ front, (Path.join directory name).toList = front ++ '/' :: name.toList
    ∧ (directory.toList = front ∨ directory.toList = front ++ ['/']) := by
  unfold Path.join
  rw [String.endsWith_char_eq_getLast?]
  split
  · next hlast =>
      obtain ⟨front, hfront⟩ := List.getLast?_eq_some_iff.mp (beq_iff_eq.mp hlast)
      refine ⟨front, ?_, .inr hfront⟩
      rw [String.toList_append, hfront, List.append_assoc]
      rfl
  · refine ⟨directory.toList, ?_, .inl rfl⟩
    rw [String.toList_append, String.toList_append, List.append_assoc]
    rfl

theorem below_join (directory name : String) : Below directory.toList (Path.join directory name).toList := by
  obtain ⟨front, hjoin, hfront | hfront⟩ := toList_join directory name
  · exact ⟨'/' :: name.toList, by rw [hjoin, hfront], .inl rfl⟩
  · refine ⟨name.toList, ?_, .inr ?_⟩
    · rw [hjoin, hfront, List.append_assoc]
      rfl
    · rw [hfront, List.getLast?_append]
      rfl

theorem join_ne_here (directory name : String) : Path.join directory name ≠ "." := by
  obtain ⟨front, hjoin, _⟩ := toList_join directory name
  intro heq
  have hmem : '/' ∈ (Path.join directory name).toList := by
    rw [hjoin]
    exact List.mem_append_right front List.mem_cons_self
  rw [heq] at hmem
  exact absurd hmem (by decide)

/-- How a path ends is told by its last name. -/
theorem endsLoosely_join (directory name : String) :
    endsLoosely (Path.join directory name).toList = endsLoosely ('/' :: name.toList) := by
  obtain ⟨front, hjoin, _⟩ := toList_join directory name
  rw [hjoin, endsLoosely, endsLoosely, List.reverse_append, List.reverse_cons]
  match name.toList.reverse with
  | [] => cases front.reverse <;> rfl
  | [c] => rfl
  | c :: d :: more => rfl

/-- Without separators at the end of a text, only what is behind it can lose some. -/
theorem rdropWhile_append (hs : s.rdropWhile isSeparator = s) (rest : List Char) :
    (s ++ rest).rdropWhile isSeparator = s ++ rest.rdropWhile isSeparator := by
  have hreverse : s.reverse.dropWhile isSeparator = s.reverse := by
    rw [← List.reverse_inj, List.reverse_reverse]
    exact hs
  rw [List.rdropWhile, List.rdropWhile, List.reverse_append, List.dropWhile_append]
  split
  · next hempty =>
      rw [List.isEmpty_iff.mp hempty, hreverse, List.reverse_reverse]
      exact (List.append_nil s).symm
  · rw [List.reverse_append, List.reverse_reverse]

theorem dropHere_of_ne {c : Char} (hc : c ≠ '.') (s : List Char) : dropHere (c :: s) = c :: s := by
  unfold dropHere
  split
  · next heq => exact absurd (List.cons.inj heq).1 hc
  · rfl

/-- What is dropped in front of a path does not depend on what is behind it, unless the path is `.` or nothing of it is
    left. -/
theorem dropHere_append (hdot : s ≠ ['.']) (hs : dropHere s ≠ []) (rest : List Char) :
    dropHere (s ++ rest) = dropHere s ++ rest := by
  match s with
  | [] => exact absurd rfl hs
  | [c] =>
      have hc : c ≠ '.' := by
        rintro rfl
        exact hdot rfl
      rw [List.singleton_append, dropHere_of_ne hc, dropHere_of_ne hc]
      rfl
  | a :: c :: s =>
      by_cases ha : a = '.'
      · subst ha
        by_cases hc : isSeparator c
        · have hleft : dropHere ('.' :: c :: s) = s.dropWhile isSeparator := by
            simp [dropHere, hc]
          have hboth : dropHere ('.' :: c :: (s ++ rest)) = (s ++ rest).dropWhile isSeparator := by
            simp [dropHere, hc]
          rw [hleft] at hs
          rw [hleft, List.cons_append, List.cons_append, hboth, List.dropWhile_append, if_neg]
          rw [List.isEmpty_iff]
          exact hs
        · simp [dropHere, hc]
      · rw [List.cons_append, dropHere_of_ne ha, dropHere_of_ne ha]
        rfl

/-- Behind the last character of a directory that is no separator, a separator follows. -/
theorem separator_behind {rest : List Char} (h : rest.head?.all (· == '/') ∨ s.getLast? = some '/') :
    (s.rtakeWhile isSeparator ++ rest).head?.all isSeparator := by
  cases hback : s.rtakeWhile isSeparator with
  | cons c back =>
      have hc : c ∈ s.rtakeWhile isSeparator := by
        rw [hback]
        exact List.mem_cons_self
      show isSeparator c
      exact List.mem_rtakeWhile_imp hc
  | nil =>
      rw [List.nil_append]
      rcases h with hrest | hlast
      · cases rest with
        | nil => rfl
        | cons c rest =>
            obtain rfl : c = '/' := by simpa using hrest
            rfl
      · -- a directory that ends in a slash has a separator at its end
        obtain ⟨front, rfl⟩ := List.getLast?_eq_some_iff.mp hlast
        rw [List.rtakeWhile_concat_pos _ _ _ (by decide)] at hback
        simp at hback

theorem head_of_prefix {p : Char → Bool} {t : List Char} (h : s <+: t) (ht : t.head?.all p) : s.head?.all p := by
  obtain ⟨rest, rfl⟩ := h
  cases s with
  | nil => rfl
  | cons c s => exact ht

/-- **What is below a directory** is within it for comparisons too. -/
theorem isWithin_comparable {directory : String} (h : Below directory.toList path.toList) (hdot : directory ≠ ".")
    (hdirectory : endsLoosely directory.toList = false) (hpath : endsLoosely path.toList = false)
    (hne : (comparablePath directory).toList ≠ []) :
    isWithin (comparablePath directory).toList (comparablePath path).toList := by
  obtain ⟨rest, hrest, hborder⟩ := h
  rw [toList_comparablePath hdirectory] at hne ⊢
  rw [toList_comparablePath hpath, hrest]
  have hchars : directory.toList ≠ ['.'] := by
    intro hchars
    exact hdot (String.toList_inj.mp hchars)
  have hhere : dropHere directory.toList ≠ [] := by
    intro hnil
    rw [hnil] at hne
    exact hne rfl
  rw [dropHere_append hchars hhere]
  obtain ⟨front, hfront⟩ := dropHere_suffix directory.toList
  generalize dropHere directory.toList = s at hne hhere hfront ⊢
  have hborder : rest.head?.all (· == '/') ∨ s.getLast? = some '/' := by
    rw [← hfront, List.getLast?_append_of_ne_nil front hhere] at hborder
    exact hborder
  have hsplit : s ++ rest = s.rdropWhile isSeparator ++ (s.rtakeWhile isSeparator ++ rest) := by
    rw [← List.append_assoc, List.rdropWhile_append_rtakeWhile]
  rw [hsplit, rdropWhile_append (List.rdropWhile_idempotent isSeparator s)]
  exact isWithin_iff.mpr ⟨_, rfl, head_of_prefix (List.rdropWhile_prefix isSeparator _) (separator_behind hborder)⟩

/-- **What is below an excluded directory is excluded.** -/
theorem isExcluded_below {exclude : List String} {directory : String} (h : isExcluded exclude directory)
    (hbelow : Below directory.toList path.toList) (hdot : directory ≠ ".")
    (hdirectory : endsLoosely directory.toList = false) (hpath : endsLoosely path.toList = false) :
    isExcluded exclude path := by
  obtain ⟨excluded, hmem, hexcluded⟩ := List.any_eq_true.mp h
  obtain ⟨hne, hwithin⟩ := Bool.and_eq_true_iff.mp hexcluded
  refine List.any_eq_true.mpr ⟨excluded, hmem, Bool.and_eq_true_iff.mpr ⟨hne, ?_⟩⟩
  refine isWithin_trans hwithin (isWithin_comparable hbelow hdot hdirectory hpath ?_)
  -- an exclusion that is not empty is in front of the directory
  intro hnil
  obtain ⟨rest, hrest, _⟩ := isWithin_iff.mp hwithin
  rw [hnil] at hrest
  have hempty : excluded.toList = [] := (List.append_eq_nil_iff.mp hrest.symm).1
  rw [String.toList_eq_nil_iff.mp hempty] at hne
  cases hne

end Unassigned
