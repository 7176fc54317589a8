import Unassigned.Proofs.PrototypeText

/-!
# `Proofs.PrototypeForms` — the prototypes that can be written

A prototype is written from a **name** and its **parameters**. The name is that of a function with its namespace, of a
method with its class, or of a method of any class (`PrototypeName`); a plain parameter is a variable with an optional
ampersand and three points before it (`PrototypeParameter`). What is written in this way is read back
(`ofPrototype_written`): the name without its namespace, and the positions of the parameters with an ampersand.
-/

namespace Unassigned

namespace Signature

open Text

/-! ## Names -/

/-- An identifier: an ASCII letter or an underscore, and then letters, digits and underscores. -/
structure PlainWord where
  text : String
  plain : isPlainName text

/-- A name with its namespace: identifiers with backslashes between them, and possibly one in front. -/
structure QualifiedName where
  rooted : Bool
  spaces : List PlainWord
  last : PlainWord

/-- What a prototype can be a prototype of: a function, a method of a class, or a method of any class. -/
inductive PrototypeName where
  | function (name : QualifiedName)
  | method (owner : QualifiedName) (name : PlainWord)
  | anyMethod (name : PlainWord)

namespace PlainWord

variable (w : PlainWord)

def chars : List Char :=
  w.text.toList

/-- The first character of an identifier, and the others. -/
theorem exists_cons : ∃ c more, w.chars = c :: more ∧ isPrototypeStart c ∧ ∀ d ∈ more, isWordChar d := by
  have hplain := w.plain
  unfold isPlainName at hplain
  split at hplain
  · next c more hchars =>
      obtain ⟨hstart, hmore⟩ := Bool.and_eq_true_iff.mp hplain
      exact ⟨c, more, hchars, hstart, List.all_eq_true.mp hmore⟩
  · cases hplain

theorem isWordChar_of_mem {c : Char} (h : c ∈ w.chars) : isWordChar c :=
  isWordChar_of_isPlainName w.plain h

theorem backslash_not_mem : '\\' ∉ w.chars := by
  intro hmem
  cases w.isWordChar_of_mem hmem

end PlainWord

theorem isQualifiedChar_of_isWordChar {c : Char} (h : isWordChar c) : isQualifiedChar c := by
  rw [isQualifiedChar, h]
  rfl

namespace QualifiedName

variable (name : QualifiedName)

/-- The identifiers of the namespace, each with its backslash. -/
def front : List Char :=
  name.spaces.flatMap fun w => w.chars ++ ['\\']

/-- The text of the name. -/
def chars : List Char :=
  (if name.rooted then ['\\'] else []) ++ (name.front ++ name.last.chars)

/-- Without the backslash in front, a name starts like an identifier and has no other characters. -/
theorem exists_cons : ∃ c more, name.front ++ name.last.chars = c :: more ∧ isPrototypeStart c
    ∧ ∀ d ∈ more, isQualifiedChar d := by
  unfold front
  induction name.spaces with
  | nil =>
      obtain ⟨c, more, hchars, hstart, hmore⟩ := name.last.exists_cons
      exact ⟨c, more, hchars, hstart, fun d hd => isQualifiedChar_of_isWordChar (hmore d hd)⟩
  | cons w spaces ih =>
      obtain ⟨c, more, hchars, hstart, hmore⟩ := w.exists_cons
      obtain ⟨c', more', hrest, hstart', hmore'⟩ := ih
      refine ⟨c, more ++ '\\' :: c' :: more', ?_, hstart, ?_⟩
      · rw [List.flatMap_cons, List.append_assoc, hrest, hchars]
        simp
      · intro d hd
        rcases List.mem_append.mp hd with hd | hd
        · exact isQualifiedChar_of_isWordChar (hmore d hd)
        · rcases List.mem_cons.mp hd with rfl | hd
          · rfl
          · rcases List.mem_cons.mp hd with rfl | hd
            · exact isQualifiedChar_of_isWordChar (isWordChar_of_isPrototypeStart hstart')
            · exact hmore' d hd

/-- A name is read up to the first character that cannot belong to it. -/
theorem qualifiedName?_append {c : Char} (hc : ¬ isQualifiedChar c) (rest : List Char) :
    qualifiedName? (name.chars ++ c :: rest) = some (name.chars, c :: rest) := by
  obtain ⟨d, more, hchars, hstart, hmore⟩ := name.exists_cons
  have htake : (more ++ c :: rest).takeWhile isQualifiedChar = more := by
    rw [List.takeWhile_append_of_pos hmore, List.takeWhile_cons_of_neg hc, List.append_nil]
  have hdrop : (more ++ c :: rest).dropWhile isQualifiedChar = c :: rest := by
    rw [List.dropWhile_append_of_pos hmore, List.dropWhile_cons_of_neg hc]
  unfold chars
  rw [hchars]
  by_cases hrooted : name.rooted
  · simp [qualifiedName?, hrooted, hstart, htake, hdrop]
  · rw [if_neg hrooted, List.nil_append, List.cons_append, qualifiedName?_cons hstart, htake, hdrop]

/-- The first character of a name is no white space and no question mark. -/
theorem exists_first : ∃ c more, name.chars = c :: more ∧ isBlank c = false ∧ c ≠ '?' := by
  obtain ⟨d, more, hchars, hstart, _⟩ := name.exists_cons
  unfold chars
  rw [hchars]
  by_cases hrooted : name.rooted
  · rw [if_pos hrooted]
    exact ⟨'\\', d :: more, rfl, by decide, by decide⟩
  · rw [if_neg hrooted]
    refine ⟨d, more, rfl, isBlank_of_isPrototypeStart hstart, ?_⟩
    rintro rfl
    cases hstart

theorem prototypeHead?_append {c : Char} (hc : ¬ isQualifiedChar c) (rest : List Char) :
    prototypeHead? (name.chars ++ c :: rest) = some (name.chars, c :: rest) := by
  have hread := name.qualifiedName?_append hc rest
  obtain ⟨d, more, hchars, _, hquestion⟩ := name.exists_first
  rw [hchars, List.cons_append] at hread ⊢
  unfold prototypeHead?
  split
  · next heq => exact absurd (List.cons.inj heq).1 hquestion
  · exact hread

end QualifiedName

end Signature

/-- What follows the last separator, if all that stands in front of it ends with one. -/
theorem Text.afterLast_append {separator : Char} {front back : List Char}
    (hfront : front = [] ∨ ∃ more, front = more ++ [separator]) (hback : separator ∉ back) :
    afterLast separator (front ++ back) = back := by
  have hall : ∀ c ∈ back.reverse, (c != separator) = true := by
    intro c hc
    simpa using fun heq : c = separator => hback (heq ▸ List.mem_reverse.mp hc)
  rw [afterLast, List.reverse_append, List.takeWhile_append_of_pos hall]
  rcases hfront with rfl | ⟨more, rfl⟩
  · simp
  · simp

namespace Signature

open Text

/-- **The namespace is dropped.** -/
theorem QualifiedName.afterLast_chars (name : QualifiedName) : afterLast '\\' name.chars = name.last.chars := by
  unfold chars
  rw [← List.append_assoc]
  refine afterLast_append ?_ name.last.backslash_not_mem
  unfold front
  rcases List.eq_nil_or_concat name.spaces with hnil | ⟨spaces, w, hspaces⟩
  · rw [hnil]
    by_cases hrooted : name.rooted
    · rw [if_pos hrooted]
      exact .inr ⟨[], rfl⟩
    · rw [if_neg hrooted]
      exact .inl rfl
  · rw [hspaces, List.concat_eq_append, List.flatMap_append]
    refine .inr ⟨(if name.rooted then ['\\'] else []) ++ (spaces.flatMap (fun w => w.chars ++ ['\\']) ++ w.chars), ?_⟩
    simp

namespace PrototypeName

/-- The parts of the name, before and after the colons. -/
def parts : PrototypeName → List (List Char)
  | function name => [name.chars]
  | method owner name => [owner.chars, name.chars]
  | anyMethod name => [['?'], name.chars]

/-- The text of the name. -/
def chars : PrototypeName → List Char
  | function name => name.chars
  | method owner name => owner.chars ++ ':' :: ':' :: name.chars
  | anyMethod name => '?' :: ':' :: ':' :: name.chars

/-- The name under which calls are looked up: the name without its namespace. -/
def key : PrototypeName → String
  | function name => name.last.text
  | method owner name => owner.last.text ++ "::" ++ name.text
  | anyMethod name => "?::" ++ name.text

/-- The name behind the colons is read up to the parenthesis. -/
theorem prototypeName?_of_head {s head rest : List Char} {w : PlainWord}
    (hhead : prototypeHead? s = some (head, ':' :: ':' :: (w.chars ++ '(' :: rest))) :
    prototypeName? s = some ([head, w.chars], '(' :: rest) := by
  obtain ⟨c, more, hchars, hstart, hmore⟩ := w.exists_cons
  have hparen : ¬ isWordChar '(' := by decide
  rw [hchars, List.cons_append] at hhead
  unfold prototypeName?
  rw [hhead, hchars]
  show (if isPrototypeStart c then _ else none) = _
  rw [if_pos hstart, List.takeWhile_append_of_pos hmore, List.takeWhile_cons_of_neg hparen, List.append_nil,
    List.dropWhile_append_of_pos hmore, List.dropWhile_cons_of_neg hparen]

/-- **A name before a parenthesis is read back**, in its parts. -/
theorem prototypeName?_append (name : PrototypeName) (rest : List Char) :
    prototypeName? (stripFront (name.chars ++ '(' :: rest)) = some (name.parts, '(' :: rest) := by
  cases name with
  | function name =>
      have hhead := name.prototypeHead?_append (c := '(') (by decide) rest
      obtain ⟨c, more, hchars, hblank, hquestion⟩ := name.exists_first
      have hstrip : stripFront (name.chars ++ '(' :: rest) = name.chars ++ '(' :: rest := by
        rw [hchars]
        exact List.dropWhile_cons_of_neg (by simp [hblank])
      have hne : name.chars ≠ ['?'] := by
        intro heq
        rw [hchars] at heq
        exact hquestion (List.cons.inj heq).1
      show prototypeName? (stripFront (name.chars ++ '(' :: rest)) = some ([name.chars], '(' :: rest)
      unfold prototypeName?
      rw [hstrip, hhead]
      exact if_neg hne
  | method owner name =>
      have hhead := owner.prototypeHead?_append (c := ':') (by decide) (':' :: (name.chars ++ '(' :: rest))
      obtain ⟨c, more, hchars, hblank, _⟩ := owner.exists_first
      have hstrip : stripFront (owner.chars ++ ':' :: ':' :: (name.chars ++ '(' :: rest))
          = owner.chars ++ ':' :: ':' :: (name.chars ++ '(' :: rest) := by
        rw [hchars]
        exact List.dropWhile_cons_of_neg (by simp [hblank])
      show prototypeName? (stripFront ((owner.chars ++ ':' :: ':' :: name.chars) ++ '(' :: rest)) = _
      rw [List.append_assoc, List.cons_append, List.cons_append, hstrip]
      exact prototypeName?_of_head hhead
  | anyMethod name =>
      have hstrip : stripFront ('?' :: ':' :: ':' :: (name.chars ++ '(' :: rest))
          = '?' :: ':' :: ':' :: (name.chars ++ '(' :: rest) := List.dropWhile_cons_of_neg (by decide)
      show prototypeName? (stripFront ('?' :: ':' :: ':' :: (name.chars ++ '(' :: rest))) = _
      rw [hstrip]
      exact prototypeName?_of_head rfl

/-- The parts without namespaces are the key. -/
theorem intercalate_parts (name : PrototypeName) :
    "::".intercalate (name.parts.map fun part => String.ofList (afterLast '\\' part)) = name.key := by
  have hword : ∀ w : PlainWord, afterLast '\\' w.chars = w.chars := fun w => afterLast_of_not_mem w.backslash_not_mem
  have htext : ∀ w : PlainWord, String.ofList w.chars = w.text := fun w => String.ofList_toList
  cases name with
  | function name =>
      rw [parts, List.map_singleton, name.afterLast_chars, htext]
      rfl
  | method owner name =>
      rw [parts, List.map_cons, List.map_singleton, owner.afterLast_chars, hword, htext, htext]
      rfl
  | anyMethod name =>
      rw [parts, List.map_cons, List.map_singleton, hword, htext]
      rfl

end PrototypeName

/-! ## Parameters -/

/-- White space, possibly none. -/
structure Spacing where
  chars : List Char
  blank : ∀ c ∈ chars, isBlank c

/-- No white space. -/
def Spacing.none : Spacing where
  chars := []
  blank := by simp

/-- One space. -/
def Spacing.one : Spacing where
  chars := [' ']
  blank := List.all_eq_true.mp (by decide)

theorem Spacing.not_mem (gap : Spacing) {c : Char} (hc : isBlank c = false) : c ∉ gap.chars := by
  intro hmem
  rw [gap.blank c hmem] at hc
  cases hc

/-- A plain parameter: a variable with an optional ampersand and three points before it, and white space in front. What
    follows the dollar sign has no comma in it. -/
structure PrototypeParameter where
  lead : Spacing
  isRef : Bool
  isVariadic : Bool
  name : List Char
  comma : ',' ∉ name

/-- The positions of the by-reference parameters from a position on, told from the marks of each parameter: by
    reference, and variadic. -/
def referencesFrom (position : Nat) (marks : List (Bool × Bool)) : List Int :=
  (marks.zipIdx position).flatMap fun entry => if entry.1.1 then refPositions entry.2 entry.1.2 else []

theorem referencesFrom_cons (position : Nat) (mark : Bool × Bool) (marks : List (Bool × Bool)) :
    referencesFrom position (mark :: marks)
      = (if mark.1 then refPositions position mark.2 else []) ++ referencesFrom (position + 1) marks := by
  rw [referencesFrom, List.zipIdx_cons, List.flatMap_cons]
  rfl

namespace PrototypeParameter

variable (p : PrototypeParameter)

/-- By reference, and variadic. -/
def mark : Bool × Bool :=
  (p.isRef, p.isVariadic)

/-- What stands before the variable. -/
def marker : List Char :=
  p.lead.chars ++ ((if p.isRef then ['&'] else []) ++ (if p.isVariadic then ['.', '.', '.'] else []))

/-- The text of the parameter. -/
def chars : List Char :=
  p.marker ++ '$' :: p.name

theorem mem_marker {c : Char} :
    c ∈ p.marker ↔ c ∈ p.lead.chars ∨ (p.isRef ∧ c = '&') ∨ (p.isVariadic ∧ c = '.') := by
  unfold marker
  cases p.isRef <;> cases p.isVariadic <;> simp

theorem ampersand_mem_marker : '&' ∈ p.marker ↔ p.isRef := by
  rw [mem_marker]
  simp [p.lead.not_mem (c := '&') (by decide)]

theorem not_mem_marker : ',' ∉ p.marker ∧ '$' ∉ p.marker := by
  rw [mem_marker, mem_marker]
  simp [p.lead.not_mem (c := ',') (by decide), p.lead.not_mem (c := '$') (by decide)]

theorem hasEllipsis_marker : hasEllipsis p.marker = p.isVariadic := by
  rw [Bool.eq_iff_iff, hasEllipsis_iff_infix]
  constructor
  · intro hinfix
    have hmem : '.' ∈ p.marker := hinfix.subset List.mem_cons_self
    simpa [mem_marker, p.lead.not_mem (c := '.') (by decide)] using hmem
  · intro hvariadic
    refine ⟨p.lead.chars ++ (if p.isRef then ['&'] else []), [], ?_⟩
    simp [marker, hvariadic]

theorem comma_not_mem : ',' ∉ p.chars := by
  intro hmem
  rcases List.mem_append.mp hmem with hmarker | hname
  · exact p.not_mem_marker.1 hmarker
  · rcases List.mem_cons.mp hname with hdollar | hname
    · cases hdollar
    · exact p.comma hname

/-- A parameter has the position that its marks give it. -/
theorem markedPositions_chars (position : Nat) :
    markedPositions position (splitAt ',' p.chars) = referencesFrom position [p.mark] := by
  obtain ⟨hcomma, hdollar⟩ := p.not_mem_marker
  have hrest : p.name.dropWhile (· != ',') = [] := by
    rw [← List.append_nil p.name, List.dropWhile_append_of_pos, List.dropWhile_nil]
    intro c hc
    simpa using fun heq : c = ',' => p.comma (heq ▸ hc)
  rw [chars, markedPositions_parameter hcomma hdollar (by rw [hrest]; exact List.not_mem_nil), p.hasEllipsis_marker,
    referencesFrom_cons]
  simp only [p.ampersand_mem_marker]
  exact (List.append_nil _).symm

/-- **The marked pieces of a parameter list** are its by-reference parameters. -/
theorem markedPositions_intercalate (parameters : List PrototypeParameter) (position : Nat) :
    markedPositions position (splitAt ',' ([','].intercalate (parameters.map chars)))
      = referencesFrom position (parameters.map mark) := by
  induction parameters generalizing position with
  | nil => rfl
  | cons p rest ih =>
      cases rest with
      | nil =>
          rw [List.map_singleton, List.map_singleton, List.intercalate_singleton]
          exact p.markedPositions_chars position
      | cons p' rest =>
          have hlength : (splitAt ',' p.chars).length = 1 := by
            rw [length_splitAt, List.count_eq_zero.mpr p.comma_not_mem]
          have htext : [','].intercalate ((p :: p' :: rest).map chars)
              = p.chars ++ ',' :: [','].intercalate ((p' :: rest).map chars) := by
            rw [List.map_cons, List.map_cons, List.intercalate_cons_cons, List.append_assoc, List.singleton_append]
          rw [htext, splitAt_append_cons, markedPositions_append, hlength, ih, p.markedPositions_chars, List.map_cons,
            referencesFrom_cons, referencesFrom_cons, List.append_assoc]
          rfl

end PrototypeParameter

/-! ## Prototypes -/

/-- The text of a prototype. -/
def prototypeText (name : PrototypeName) (parameters : List PrototypeParameter) : String :=
  String.ofList (name.chars ++ '(' :: ([','].intercalate (parameters.map PrototypeParameter.chars) ++ [')']))

/-- **A prototype is read back**: its name without the namespace, and the positions of its by-reference parameters. -/
theorem ofPrototype_written (name : PrototypeName) (parameters : List PrototypeParameter) :
    ofPrototype (prototypeText name parameters) = .ok {
      name := name.key
      refs := positionSet (referencesFrom 0 (parameters.map PrototypeParameter.mark)) } := by
  have hname := name.prototypeName?_append ([','].intercalate (parameters.map PrototypeParameter.chars) ++ [')'])
  rw [← @String.toList_ofList (name.chars ++ _)] at hname
  rw [prototypeText, ofPrototype_of_name hname, name.intercalate_parts,
    PrototypeParameter.markedPositions_intercalate]

/-- A text with a parenthesis is read as a prototype. -/
theorem ofText_written (name : PrototypeName) (parameters : List PrototypeParameter) :
    ofText (prototypeText name parameters) = ofPrototype (prototypeText name parameters) := by
  have hparen : (prototypeText name parameters).toList.contains '(' := by
    simp [prototypeText]
  exact if_pos hparen

end Signature

end Unassigned
