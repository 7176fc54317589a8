import Mathlib.Data.List.Forall2
import Unassigned.Signature.Parser

/-!
# `Proofs.PrototypeText` — a prototype reads its parameters off their text

A prototype `name(…)` is cut at every comma between its parentheses. A piece is by reference if an ampersand stands in
it before the first dollar sign, and variadic if three points do; white space at the two ends of the list makes no
difference (`ofPrototype_parentheses`).

What the pieces are for a text in parts: `splitAt_append_cons` for parts with a comma between them, and
`markedPositions_parameter` for one parameter, a marker and what starts with the variable.
-/

namespace Unassigned

namespace Text

variable {separator : Char}
variable {s piece : List Char}

/-! ## Cutting a text -/

theorem splitAt_ne_nil (separator : Char) (s : List Char) : splitAt separator s ≠ [] := by
  cases s with
  | nil => exact List.cons_ne_nil _ _
  | cons c rest =>
      unfold splitAt
      split
      · exact List.cons_ne_nil _ _
      · split <;> exact List.cons_ne_nil _ _

theorem splitAt_cons_self (separator : Char) (s : List Char) :
    splitAt separator (separator :: s) = [] :: splitAt separator s := by
  rw [splitAt, if_pos rfl]

theorem splitAt_cons_of_ne {c : Char} (h : c ≠ separator) {pieces : List (List Char)}
    (hs : splitAt separator s = piece :: pieces) : splitAt separator (c :: s) = (c :: piece) :: pieces := by
  rw [splitAt, if_neg h, hs]

/-- A text without separator goes to the first piece of what follows it. -/
theorem splitAt_append {front : List Char} {pieces : List (List Char)} (h : separator ∉ front)
    (hs : splitAt separator s = piece :: pieces) : splitAt separator (front ++ s) = (front ++ piece) :: pieces := by
  induction front with
  | nil => exact hs
  | cons c front ih =>
      rw [List.mem_cons, not_or] at h
      exact splitAt_cons_of_ne (Ne.symm h.1) (ih h.2)

/-- The pieces of two texts with a separator between them are those of both. -/
theorem splitAt_append_cons (separator : Char) (s t : List Char) :
    splitAt separator (s ++ separator :: t) = splitAt separator s ++ splitAt separator t := by
  induction s with
  | nil => exact splitAt_cons_self separator t
  | cons c s ih =>
      by_cases hc : c = separator
      · rw [hc, List.cons_append, splitAt_cons_self, splitAt_cons_self, ih]
        rfl
      · obtain ⟨piece, pieces, hs⟩ := List.exists_cons_of_ne_nil (splitAt_ne_nil separator s)
        rw [hs] at ih
        rw [List.cons_append, splitAt_cons_of_ne hc ih, splitAt_cons_of_ne hc hs]
        rfl

theorem length_splitAt (separator : Char) (s : List Char) :
    (splitAt separator s).length = s.count separator + 1 := by
  induction s with
  | nil => rfl
  | cons c s ih =>
      by_cases hc : c = separator
      · rw [hc, splitAt_cons_self, List.length_cons, ih, List.count_cons_self]
      · obtain ⟨piece, pieces, hs⟩ := List.exists_cons_of_ne_nil (splitAt_ne_nil separator s)
        rw [hs] at ih
        rw [splitAt_cons_of_ne hc hs, List.count_cons_of_ne hc, ← ih]
        rfl

/-- The first piece ends at the first separator, and the others are what comes after it. -/
theorem splitAt_eq (separator : Char) (s : List Char) : ∃ pieces,
    splitAt separator s = s.takeWhile (· != separator) :: pieces
      ∧ ∀ piece ∈ pieces, ∀ c ∈ piece, c ∈ s.dropWhile (· != separator) := by
  induction s with
  | nil => exact ⟨[], rfl, nofun⟩
  | cons d s ih =>
      obtain ⟨pieces, hs, hpieces⟩ := ih
      by_cases hd : d = separator
      · refine ⟨splitAt separator s, ?_, ?_⟩
        · rw [hd, splitAt_cons_self]
          simp
        · intro piece hpiece c hc
          rw [List.dropWhile_cons_of_neg (by simp [hd])]
          rw [hs] at hpiece
          refine List.mem_cons_of_mem d ?_
          rcases List.mem_cons.mp hpiece with rfl | hpiece
          · exact List.takeWhile_subset _ hc
          · exact (List.dropWhile_suffix _).subset (hpieces piece hpiece c hc)
      · refine ⟨pieces, ?_, ?_⟩
        · rw [splitAt_cons_of_ne hd hs, List.takeWhile_cons_of_pos (by simpa using hd)]
        · rwa [List.dropWhile_cons_of_pos (by simpa using hd)]

theorem mem_of_mem_splitAt (hpiece : piece ∈ splitAt separator s) {c : Char} (hc : c ∈ piece) : c ∈ s := by
  obtain ⟨pieces, hs, hpieces⟩ := splitAt_eq separator s
  rw [hs] at hpiece
  rcases List.mem_cons.mp hpiece with rfl | hpiece
  · exact List.takeWhile_subset _ hc
  · exact (List.dropWhile_suffix _).subset (hpieces piece hpiece c hc)

end Text

namespace Signature

variable {c : Char} {name : String}

open Text

/-! ## Marks -/

/-- What is read off a parameter: an ampersand and three points before its variable. -/
def marks (parameter : List Char) : Bool × Bool :=
  ((parameterMarker parameter).contains '&', hasEllipsis (parameterMarker parameter))

/-- A character that is none of those a prototype looks for. -/
def isQuiet (c : Char) : Bool :=
  c != ',' && c != '&' && c != '$' && c != '.'

theorem markedPositions_append (position : Nat) (first second : List (List Char)) :
    markedPositions position (first ++ second)
      = markedPositions position first ++ markedPositions (position + first.length) second := by
  induction first generalizing position with
  | nil => rfl
  | cons parameter first ih =>
      rw [List.cons_append, markedPositions, markedPositions, ih, List.append_assoc, List.length_cons,
        Nat.add_assoc, Nat.add_comm 1]

/-- Only the marks of the parameters matter. -/
theorem markedPositions_congr {first second : List (List Char)}
    (h : List.Forall₂ (fun a b => marks a = marks b) first second) (position : Nat) :
    markedPositions position first = markedPositions position second := by
  induction h generalizing position with
  | nil => rfl
  | @cons a b _ _ hab _ ih =>
      obtain ⟨hampersand, hellipsis⟩ := Prod.mk.inj hab
      rw [markedPositions, markedPositions, hampersand, hellipsis, ih]

/-- Without ampersand nothing is by reference. -/
theorem markedPositions_of_not_mem {parameters : List (List Char)} (h : ∀ parameter ∈ parameters, '&' ∉ parameter)
    (position : Nat) : markedPositions position parameters = [] := by
  induction parameters generalizing position with
  | nil => rfl
  | cons parameter parameters ih =>
      have hmarker : ¬ (parameterMarker parameter).contains '&' := by
        intro hcontains
        have hmem := List.takeWhile_subset _ (List.contains_iff_mem.mp hcontains)
        exact h parameter List.mem_cons_self hmem
      rw [markedPositions, if_neg hmarker, ih fun other hother => h other (List.mem_cons_of_mem _ hother)]
      rfl

/-- **One parameter**: what stands before its variable decides, and what comes after a comma in its default value does
    not matter if it has no ampersand. -/
theorem markedPositions_parameter {marker rest : List Char} (hcomma : ',' ∉ marker) (hdollar : '$' ∉ marker)
    (hquiet : '&' ∉ rest.dropWhile (· != ',')) (position : Nat) :
    markedPositions position (splitAt ',' (marker ++ '$' :: rest))
      = if '&' ∈ marker then refPositions position (hasEllipsis marker) else [] := by
  obtain ⟨pieces, hrest, hpieces⟩ := splitAt_eq ',' rest
  have hsplit := splitAt_append hcomma (splitAt_cons_of_ne (c := '$') (by decide) hrest)
  have hmarker : parameterMarker (marker ++ '$' :: rest.takeWhile (· != ',')) = marker := by
    rw [parameterMarker, List.takeWhile_append_of_pos fun c hc => ?_]
    · simp
    · simpa using fun hd : c = '$' => hdollar (hd ▸ hc)
  have hothers : ∀ piece ∈ pieces, '&' ∉ piece := by
    intro piece hpiece hmem
    exact hquiet (hpieces piece hpiece '&' hmem)
  rw [hsplit, markedPositions, hmarker, markedPositions_of_not_mem hothers, List.append_nil]
  simp only [List.contains_iff_mem]

/-! ## White space at the ends -/

theorem hasEllipsis_cons (hc : c ≠ '.') (s : List Char) : hasEllipsis (c :: s) = hasEllipsis s := by
  have hprefix : ['.', '.', '.'].isPrefixOf (c :: s) = false := by
    simp [List.isPrefixOf, Ne.symm hc]
  rw [hasEllipsis, hprefix, Bool.false_or]

theorem hasEllipsis_concat (hc : c ≠ '.') (s : List Char) : hasEllipsis (s ++ [c]) = hasEllipsis s := by
  induction s with
  | nil => exact hasEllipsis_cons hc []
  | cons d s ih =>
      have hprefix : ['.', '.', '.'].isPrefixOf (d :: (s ++ [c])) = ['.', '.', '.'].isPrefixOf (d :: s) := by
        match s with
        | [] => simp [List.isPrefixOf]
        | [e] => simp [List.isPrefixOf, Ne.symm hc]
        | e :: g :: rest => simp [List.isPrefixOf]
      rw [List.cons_append, hasEllipsis, hasEllipsis, hprefix, ih]

theorem hasEllipsis_iff_infix {s : List Char} : hasEllipsis s ↔ ['.', '.', '.'] <:+: s := by
  induction s with
  | nil => simp [hasEllipsis]
  | cons c s ih => rw [hasEllipsis, Bool.or_eq_true, List.isPrefixOf_iff_prefix, ih, List.infix_cons_iff]

theorem marks_cons (hc : isQuiet c) (parameter : List Char) : marks (c :: parameter) = marks parameter := by
  simp only [isQuiet, Bool.and_eq_true, bne_iff_ne] at hc
  obtain ⟨⟨⟨_, hampersand⟩, hdollar⟩, hpoint⟩ := hc
  have hmarker : parameterMarker (c :: parameter) = c :: parameterMarker parameter :=
    List.takeWhile_cons_of_pos (by simpa using hdollar)
  have hcontains : (c :: parameterMarker parameter).contains '&' = (parameterMarker parameter).contains '&' := by
    simp [Ne.symm hampersand]
  rw [marks, hmarker, hcontains, hasEllipsis_cons hpoint]
  rfl

theorem marks_concat (hc : isQuiet c) (parameter : List Char) : marks (parameter ++ [c]) = marks parameter := by
  simp only [isQuiet, Bool.and_eq_true, bne_iff_ne] at hc
  obtain ⟨⟨⟨_, hampersand⟩, hdollar⟩, hpoint⟩ := hc
  unfold marks parameterMarker
  rw [List.takeWhile_append]
  split
  · next hall =>
      have hself : parameter.takeWhile (· != '$') = parameter :=
        (List.takeWhile_prefix _).eq_of_length hall
      have hend : [c].takeWhile (· != '$') = [c] := List.takeWhile_cons_of_pos (by simpa using hdollar)
      rw [hself, hend, hasEllipsis_concat hpoint]
      simp [Ne.symm hampersand]
  · rfl

/-- A quiet character in front changes no mark. -/
theorem markedPositions_cons (hc : isQuiet c) (s : List Char) (position : Nat) :
    markedPositions position (splitAt ',' (c :: s)) = markedPositions position (splitAt ',' s) := by
  have hcomma : c ≠ ',' := by
    rintro rfl
    cases hc
  obtain ⟨piece, pieces, hs⟩ := List.exists_cons_of_ne_nil (splitAt_ne_nil ',' s)
  rw [splitAt_cons_of_ne hcomma hs, hs]
  exact markedPositions_congr (.cons (marks_cons hc piece) (List.forall₂_same.mpr fun _ _ => rfl)) position

/-- A character at the end goes to the last piece. -/
theorem forall₂_splitAt_concat (hc : c ≠ ',') (s : List Char) :
    List.Forall₂ (fun a b => b = a ∨ b = a ++ [c]) (splitAt ',' s) (splitAt ',' (s ++ [c])) := by
  induction s with
  | nil => exact (splitAt_cons_of_ne hc (rfl : splitAt ',' [] = [[]])) ▸ .cons (.inr rfl) .nil
  | cons d s ih =>
      by_cases hd : d = ','
      · rw [hd, List.cons_append, splitAt_cons_self, splitAt_cons_self]
        exact .cons (.inl rfl) ih
      · obtain ⟨piece, pieces, hs⟩ := List.exists_cons_of_ne_nil (splitAt_ne_nil ',' s)
        obtain ⟨piece', pieces', hs'⟩ := List.exists_cons_of_ne_nil (splitAt_ne_nil ',' (s ++ [c]))
        rw [hs, hs'] at ih
        rw [List.cons_append, splitAt_cons_of_ne hd hs, splitAt_cons_of_ne hd hs']
        cases ih with
        | cons hpiece hpieces =>
            refine .cons ?_ hpieces
            rcases hpiece with rfl | rfl
            · exact .inl rfl
            · exact .inr rfl

/-- A quiet character at the end changes no mark. -/
theorem markedPositions_concat (hc : isQuiet c) (s : List Char) (position : Nat) :
    markedPositions position (splitAt ',' (s ++ [c])) = markedPositions position (splitAt ',' s) := by
  have hcomma : c ≠ ',' := by
    rintro rfl
    cases hc
  symm
  refine markedPositions_congr ((forall₂_splitAt_concat hcomma s).imp fun a b hab => ?_) position
  rcases hab with rfl | rfl
  · rfl
  · exact (marks_concat hc a).symm

theorem isQuiet_of_isBlank (h : isBlank c) : isQuiet c := by
  simp only [isQuiet, Bool.and_eq_true, bne_iff_ne]
  refine ⟨⟨⟨?_, ?_⟩, ?_⟩, ?_⟩ <;>
    · rintro rfl
      revert h
      decide

theorem markedPositions_blank_append {front : List Char} (h : ∀ c ∈ front, isBlank c) (s : List Char) (position : Nat) :
    markedPositions position (splitAt ',' (front ++ s)) = markedPositions position (splitAt ',' s) := by
  induction front with
  | nil => rfl
  | cons c front ih =>
      obtain ⟨hc, hfront⟩ := List.forall_mem_cons.mp h
      rw [List.cons_append, markedPositions_cons (isQuiet_of_isBlank hc), ih hfront]

theorem markedPositions_append_blank {back : List Char} (h : ∀ c ∈ back, isBlank c) (s : List Char) (position : Nat) :
    markedPositions position (splitAt ',' (s ++ back)) = markedPositions position (splitAt ',' s) := by
  induction back generalizing s with
  | nil => rw [List.append_nil]
  | cons c back ih =>
      obtain ⟨hc, hback⟩ := List.forall_mem_cons.mp h
      rw [List.append_cons, ih hback, markedPositions_concat (isQuiet_of_isBlank hc)]

/-- White space at the two ends of a parameter list changes no mark. -/
theorem markedPositions_strip (s : List Char) (position : Nat) :
    markedPositions position (splitAt ',' (stripChars s)) = markedPositions position (splitAt ',' s) := by
  have hfront : s.takeWhile isBlank ++ stripFront s = s := List.takeWhile_append_dropWhile
  have hback : stripChars s ++ ((stripFront s).reverse.takeWhile isBlank).reverse = stripFront s := by
    rw [stripChars, stripBack, ← List.reverse_append, List.takeWhile_append_dropWhile, List.reverse_reverse]
  have hblank : ∀ c ∈ ((stripFront s).reverse.takeWhile isBlank).reverse, isBlank c := by
    intro c hc
    exact List.all_eq_true.mp List.all_takeWhile c (List.mem_reverse.mp hc)
  calc markedPositions position (splitAt ',' (stripChars s))
      = markedPositions position (splitAt ',' (stripFront s)) := by
        rw [← markedPositions_append_blank hblank, hback]
    _ = markedPositions position (splitAt ',' s) := by
        rw [← markedPositions_blank_append (List.all_eq_true.mp (List.all_takeWhile (p := isBlank) (l := s))), hfront]

/-! ## The prototype of a name -/

/-- A name that can stand in a prototype: it starts with a letter or an underscore, and goes on with word characters. -/
def isPlainName (name : String) : Bool :=
  match name.toList with
  | c :: rest => isPrototypeStart c && rest.all isWordChar
  | [] => false

/-- The first character of a prototype is an ASCII letter or the underscore. -/
theorem code_of_isPrototypeStart (h : isPrototypeStart c) :
    65 ≤ c.toNat ∧ c.toNat ≤ 90 ∨ c.toNat = 95 ∨ 97 ≤ c.toNat ∧ c.toNat ≤ 122 := by
  delta isPrototypeStart Char.isAlpha Char.isUpper Char.isLower at h
  simp only [Bool.or_eq_true, Bool.and_eq_true, decide_eq_true_eq, beq_iff_eq, UInt32.le_iff_toNat_le,
    ge_iff_le] at h
  rcases h with (h | h) | h
  · exact .inl h
  · exact .inr (.inr h)
  · subst h
    exact .inr (.inl rfl)

theorem isBlank_of_isPrototypeStart (h : isPrototypeStart c) : isBlank c = false := by
  have hcode := code_of_isPrototypeStart h
  exact isBlank_of_visible (by omega) (by omega)

theorem isWordChar_of_isPrototypeStart (h : isPrototypeStart c) : isWordChar c := by
  have hcode := code_of_isPrototypeStart h
  have hascii : c.toNat < 0x80 := by omega
  unfold isWordChar
  rw [if_pos hascii]
  delta isPrototypeStart at h
  delta Char.isAlphanum
  rcases Bool.or_eq_true_iff.mp h with halpha | hunderscore
  · rw [halpha]
    rfl
  · rw [hunderscore, Bool.or_true]

theorem isWordChar_of_isPlainName (h : isPlainName name) (hc : c ∈ name.toList) : isWordChar c := by
  unfold isPlainName at h
  split at h
  · next d rest hname =>
      obtain ⟨hstart, hrest⟩ := Bool.and_eq_true_iff.mp h
      rw [hname] at hc
      rcases List.mem_cons.mp hc with rfl | hc
      · exact isWordChar_of_isPrototypeStart hstart
      · exact List.all_eq_true.mp hrest c hc
  · cases h

theorem qualifiedName?_cons (h : isPrototypeStart c) (rest : List Char) :
    qualifiedName? (c :: rest) = some (c :: rest.takeWhile isQualifiedChar, rest.dropWhile isQualifiedChar) := by
  have hbackslash : c ≠ '\\' := by
    rintro rfl
    cases h
  simp [qualifiedName?, hbackslash, h]

theorem prototypeHead?_cons (h : isPrototypeStart c) (rest : List Char) :
    prototypeHead? (c :: rest) = some (c :: rest.takeWhile isQualifiedChar, rest.dropWhile isQualifiedChar) := by
  unfold prototypeHead?
  split
  · next heq =>
      obtain ⟨rfl, _⟩ := List.cons.inj heq
      cases h
  · exact qualifiedName?_cons h rest

/-- A plain name before a parenthesis is read as one part. -/
theorem prototypeName?_of_isPlainName (h : isPlainName name) (rest : List Char) :
    prototypeName? (stripFront (name.toList ++ '(' :: rest)) = some ([name.toList], '(' :: rest) := by
  have hqualified : ∀ c ∈ name.toList, isQualifiedChar c := by
    intro c hc
    rw [isQualifiedChar, isWordChar_of_isPlainName h hc]
    rfl
  have hparen : ¬ isQualifiedChar '(' := by decide
  unfold isPlainName at h
  split at h
  · next c more hname =>
      obtain ⟨hstart, _⟩ := Bool.and_eq_true_iff.mp h
      rw [hname] at hqualified ⊢
      have hmore : ∀ d ∈ more, isQualifiedChar d := fun d hd => hqualified d (List.mem_cons_of_mem c hd)
      have hstrip : stripFront (c :: (more ++ '(' :: rest)) = c :: (more ++ '(' :: rest) :=
        List.dropWhile_cons_of_neg (by simp [isBlank_of_isPrototypeStart hstart])
      have hquestion : c :: more ≠ ['?'] := by
        intro heq
        obtain ⟨rfl, _⟩ := List.cons.inj heq
        cases hstart
      rw [List.cons_append, hstrip]
      unfold prototypeName?
      rw [prototypeHead?_cons hstart, List.takeWhile_append_of_pos hmore, List.takeWhile_cons_of_neg hparen,
        List.append_nil, List.dropWhile_append_of_pos hmore, List.dropWhile_cons_of_neg hparen]
      exact if_neg hquestion
  · cases h

theorem prototypeArguments?_parentheses (parameters : List Char) :
    prototypeArguments? ('(' :: (parameters ++ [')'])) = some parameters := by
  have hstrip : stripFront ('(' :: (parameters ++ [')'])) = '(' :: (parameters ++ [')']) :=
    List.dropWhile_cons_of_neg (by decide)
  have hlast : afterLast ')' (parameters ++ [')']) = [] := by
    rw [afterLast, List.reverse_append]
    rfl
  unfold prototypeArguments?
  simp only [hstrip, hlast]
  rw [if_pos (by simp [isPrototypeTail, stripChars, stripBack, stripFront])]
  simp

theorem afterLast_of_not_mem {separator : Char} {s : List Char} (h : separator ∉ s) : afterLast separator s = s := by
  have hall : ∀ c ∈ s.reverse, (c != separator) = true := by
    intro c hc
    simpa using fun heq : c = separator => h (heq ▸ List.mem_reverse.mp hc)
  rw [afterLast, ← List.append_nil s.reverse, List.takeWhile_append_of_pos hall, List.takeWhile_nil, List.append_nil,
    List.reverse_reverse]

/-- **What is read behind a name**: with a parameter list in parentheses behind it, the text is a prototype, and its
    positions are those of the marked pieces. -/
theorem ofPrototype_of_name {text : String} {parts : List (List Char)} {parameters : List Char}
    (hname : prototypeName? (stripFront text.toList) = some (parts, '(' :: (parameters ++ [')']))) :
    ofPrototype text = .ok {
      name := "::".intercalate (parts.map fun part => String.ofList (afterLast '\\' part))
      refs := positionSet (markedPositions 0 (splitAt ',' parameters)) } := by
  have hblank : (stripChars parameters).isEmpty →
      positionSet (markedPositions 0 (splitAt ',' parameters)) = [] := by
    intro hempty
    rw [← markedPositions_strip, List.isEmpty_iff.mp hempty]
    rfl
  unfold ofPrototype
  rw [hname]
  dsimp only
  rw [prototypeArguments?_parentheses]
  dsimp only
  rw [markedPositions_strip]
  split
  · next hempty => rw [hblank hempty]
  · rfl

/-- **A name and parameters in parentheses are a prototype**, and its positions are those of the marked pieces. -/
theorem ofPrototype_parentheses (hname : isPlainName name) (parameters : List Char) :
    ofPrototype (name ++ "(" ++ String.ofList parameters ++ ")")
      = .ok { name, refs := positionSet (markedPositions 0 (splitAt ',' parameters)) } := by
  have htext : (name ++ "(" ++ String.ofList parameters ++ ")").toList
      = name.toList ++ '(' :: (parameters ++ [')']) := by
    simp [String.toList_append]
  have hunqualified : afterLast '\\' name.toList = name.toList := by
    refine afterLast_of_not_mem fun hmem => ?_
    cases isWordChar_of_isPlainName hname hmem
  have hread := ofPrototype_of_name (htext ▸ prototypeName?_of_isPlainName hname (parameters ++ [')']))
  rw [List.map_singleton, hunqualified, String.ofList_toList] at hread
  exact hread

end Signature

end Unassigned
