import Unassigned.DocComment
import Unassigned.Proofs.Tables

/-!
# `Proofs.DocAnnotations` — the annotations of a doc comment are read back

A doc comment is written line by line (`DocLine`): a line declares variables, with or without their type, or it has a
tag that names a type only, or it is prose. Reading the comment gives back what its lines declare
(`declarations_comment`).

The reader knows nothing of lines: the white space that it skips includes the line feed. What keeps a tag within its
line is the asterisk at the start of the next one, which is neither a type, nor a comma, nor a variable. So each line is
read for itself, whatever comes behind it, as long as that **starts a line** (`StartsLine`).
-/

namespace Unassigned.DocComment

/-! ## Lines -/

/-- A character that the name of a variable starts with in an annotation. -/
def startsVariable (c : Char) : Bool :=
  c.isAlpha || c == '_' || (0x80 ≤ c.toNat && c.toNat ≤ 0xffff && !Text.isBlank c)

/-- Any other character of that name. -/
def continuesVariable (c : Char) : Bool :=
  c.isAlphanum || c == '_' || (0x80 ≤ c.toNat && c.toNat ≤ 0xffff && !Text.isBlank c)

/-- A dollar sign and a name. -/
def isVariable : List Char → Bool
  | '$' :: c :: rest => startsVariable c && rest.all continuesVariable
  | _ => false

/-- Not empty, without white space and dollar signs, and without an asterisk in front. -/
def isType : List Char → Bool
  | [] => false
  | c :: rest => c != '*' && (c :: rest).all fun d => !Text.isBlank d && d != '$'

/-- The tag of an annotation. -/
def tagChars : List Char :=
  ['@', 'v', 'a', 'r']

/-- A variable with its dollar sign. -/
structure VariableName where
  text : String
  wellFormed : isVariable text.toList

/-- The type of a variable. -/
structure TypeName where
  text : String
  wellFormed : isType text.toList

/-- Text without a tag, on one line or on several. -/
structure Prose where
  text : String
  untagged : ¬ tagChars <:+: text.toList

/-- A line of a doc comment. -/
inductive DocLine where
  | declaration (type : Option TypeName) (first : VariableName) (others : List VariableName)
  | property (type : TypeName)
  | prose (words : Prose)

/-- Variables with commas between them. -/
def listText (first : VariableName) (others : List VariableName) : String :=
  ", ".intercalate ((first :: others).map VariableName.text)

namespace DocLine

/-- The text of a line. -/
def text : DocLine → String
  | .declaration none first others => " * @var " ++ listText first others
  | .declaration (some type) first others => " * @var " ++ (type.text ++ " " ++ listText first others)
  | .property type => " * @var " ++ type.text
  | .prose words => " * " ++ words.text

/-- The variables that a line declares. -/
def names : DocLine → List String
  | .declaration _ first others => (first :: others).map VariableName.text
  | _ => []

/-- The type that a line gives to its variables. -/
def type? : DocLine → Option String
  | .declaration type _ _ => type.map TypeName.text
  | _ => none

end DocLine

/-- The doc comment with these lines. -/
def comment (lines : List DocLine) : String :=
  "\n".intercalate ("/**" :: lines.map DocLine.text ++ [" */"])

/-- The type in the last line that declares a variable. -/
def lastType (lines : List DocLine) (name : String) : Option String :=
  (lines.reverse.find? fun line => line.names.contains name).bind DocLine.type?

/-! ## Names and types by their characters -/

variable {c : Char} {rest name s : List Char} {length : Nat}

theorem isNameStart_of_starts (h : startsVariable c) : isNameStart c := by
  rw [isNameStart, Bool.or_eq_true_iff]
  rcases Bool.or_eq_true_iff.mp h with hword | hbeyond
  · exact .inl hword
  · exact .inr (Bool.and_eq_true_iff.mp hbeyond).1

theorem isNameChar_of_continues (h : continuesVariable c) : isNameChar c := by
  rw [isNameChar, Bool.or_eq_true_iff]
  rcases Bool.or_eq_true_iff.mp h with hword | hbeyond
  · refine .inl ?_
    have hascii : c.toNat < 0x80 := by
      delta Char.isAlphanum Char.isAlpha Char.isUpper Char.isLower Char.isDigit at hword
      simp only [Bool.or_eq_true, Bool.and_eq_true, decide_eq_true_eq, beq_iff_eq, UInt32.le_iff_toNat_le,
        ge_iff_le] at hword
      rcases hword with ((hupper | hlower) | hdigit) | rfl
      · exact Nat.lt_of_le_of_lt hupper.2 (by decide)
      · exact Nat.lt_of_le_of_lt hlower.2 (by decide)
      · exact Nat.lt_of_le_of_lt hdigit.2 (by decide)
      · decide
    rw [Text.isWordChar, if_pos hascii]
    exact hword
  · exact .inr (Bool.and_eq_true_iff.mp hbeyond).1

namespace VariableName

variable (v : VariableName)

def chars : List Char :=
  v.text.toList

theorem exists_cons : ∃ c more, v.chars = '$' :: c :: more ∧ isNameStart c ∧ ∀ d ∈ more, isNameChar d := by
  have hform := v.wellFormed
  unfold isVariable at hform
  split at hform
  · next c more hchars =>
      obtain ⟨hstart, hmore⟩ := Bool.and_eq_true_iff.mp hform
      refine ⟨c, more, hchars, isNameStart_of_starts hstart, ?_⟩
      intro d hd
      exact isNameChar_of_continues (List.all_eq_true.mp hmore d hd)
  · cases hform

end VariableName

namespace TypeName

variable (type : TypeName)

def chars : List Char :=
  type.text.toList

theorem exists_cons : ∃ c more, type.chars = c :: more ∧ c ≠ '*' ∧ ∀ d ∈ c :: more, isTypeChar d := by
  have hform := type.wellFormed
  unfold isType at hform
  split at hform
  · cases hform
  · next c more hchars =>
      obtain ⟨hstar, hall⟩ := Bool.and_eq_true_iff.mp hform
      exact ⟨c, more, hchars, bne_iff_ne.mp hstar, List.all_eq_true.mp hall⟩

end TypeName

theorem isBlank_of_isTypeChar (h : isTypeChar c) : Text.isBlank c = false := by
  simpa using (Bool.and_eq_true_iff.mp h).1

/-! ## Lists of variables -/

/-- What follows starts with an asterisk after one space, as every line does. -/
def StartsLine (s : List Char) : Prop :=
  ∃ more, s = ' ' :: '*' :: more

theorem runLength_append {p : Char → Bool} {front : List Char} (h : ∀ c ∈ front, p c) (hc : p c = false)
    (rest : List Char) : runLength p (front ++ c :: rest) = front.length := by
  rw [runLength, List.takeWhile_append_of_pos h, List.takeWhile_cons_of_neg (by simp [hc]), List.append_nil]

/-- The next line has no comma that could go on with a list. -/
theorem commaLength?_of_startsLine (h : StartsLine rest) : commaLength? ('\n' :: rest) = none := by
  obtain ⟨more, rfl⟩ := h
  rfl

theorem commaLength?_comma (rest : List Char) : commaLength? (',' :: ' ' :: '$' :: rest) = some 2 :=
  rfl

theorem variableList_last {more : List Char} (hc : isNameStart c) (hmore : ∀ d ∈ more, isNameChar d)
    (hrest : StartsLine rest) :
    variableList ('$' :: c :: (more ++ '\n' :: rest)) = (['$' :: c :: more], more.length + 2) := by
  rw [variableList, if_pos hc, runLength_append hmore (by decide)]
  simp [commaLength?_of_startsLine hrest]

theorem variableList_comma {more : List Char} (hc : isNameStart c) (hmore : ∀ d ∈ more, isNameChar d)
    {names : List (List Char)} (hrest : variableList ('$' :: rest) = (name :: names, length)) :
    variableList ('$' :: c :: (more ++ ',' :: ' ' :: '$' :: rest))
      = (('$' :: c :: more) :: name :: names, more.length + 2 + 2 + length) := by
  rw [variableList, if_pos hc, runLength_append hmore (by decide)]
  simp [commaLength?_comma, hrest]

theorem toList_listText (first : VariableName) (others : List VariableName) :
    (listText first others).toList = [',', ' '].intercalate ((first :: others).map VariableName.chars) := by
  rw [listText, String.toList_intercalate, List.map_map]
  rfl

theorem exists_listText (first : VariableName) (others : List VariableName) :
    ∃ rest, (listText first others).toList = '$' :: rest := by
  obtain ⟨c, more, hchars, _⟩ := first.exists_cons
  rw [toList_listText, List.map_cons, hchars, List.intercalate_cons_cons_left]
  exact ⟨_, rfl⟩

theorem listText_cons (first second : VariableName) (others : List VariableName) :
    (listText first (second :: others)).toList = first.chars ++ ',' :: ' ' :: (listText second others).toList := by
  rw [toList_listText, toList_listText, List.map_cons, List.map_cons, List.intercalate_cons_cons, List.append_assoc]
  rfl

/-- A list of variables is read up to the end of its line. -/
theorem variableList_listText (first : VariableName) (others : List VariableName) (hrest : StartsLine rest) :
    variableList ((listText first others).toList ++ '\n' :: rest)
      = ((first :: others).map VariableName.chars, (listText first others).toList.length) := by
  induction others generalizing first with
  | nil =>
      obtain ⟨c, more, hchars, hc, hmore⟩ := first.exists_cons
      rw [toList_listText, List.map_cons, List.map_nil, List.intercalate_singleton, hchars]
      exact variableList_last hc hmore hrest
  | cons second others ih =>
      obtain ⟨c, more, hchars, hc, hmore⟩ := first.exists_cons
      obtain ⟨tail, htail⟩ := exists_listText second others
      have hsecond := ih second
      rw [htail, List.cons_append, List.map_cons] at hsecond
      rw [listText_cons, hchars, htail, List.map_cons, List.map_cons, hchars]
      simp only [List.cons_append, List.append_assoc]
      rw [variableList_comma hc hmore hsecond]
      simp only [List.length_cons, List.length_append]
      congr 1
      omega

/-! ## Tags -/

/-- A type is read with the white space behind it. -/
theorem typeLength?_chars (type : TypeName) {blanks : List Char} {d : Char} (hblanks : ∀ e ∈ blanks, Text.isBlank e)
    (hne : blanks ≠ []) (hd : Text.isBlank d = false) :
    typeLength? (type.chars ++ (blanks ++ d :: rest)) = some (type.chars, type.chars.length + blanks.length) := by
  obtain ⟨c, more, hchars, hstar, hall⟩ := type.exists_cons
  obtain ⟨hc, hmore⟩ := List.forall_mem_cons.mp hall
  obtain ⟨b, others, rfl⟩ := List.exists_cons_of_ne_nil hne
  have hb : isTypeChar b = false := by
    rw [isTypeChar, hblanks b List.mem_cons_self]
    rfl
  have hword : runLength isTypeChar (more ++ (b :: others ++ d :: rest)) = more.length :=
    runLength_append hmore hb _
  have hgap : runLength Text.isBlank (b :: others ++ d :: rest) = (b :: others).length :=
    runLength_append hblanks hd rest
  rw [hchars, List.cons_append, typeLength?, hword, List.drop_left, hgap, if_pos ⟨hc, hstar, by simp⟩, List.take_left]
  rw [Nat.add_comm 1]
  rfl

theorem runLength_space (hc : Text.isBlank c = false) (rest : List Char) :
    runLength Text.isBlank (' ' :: c :: rest) = 1 := by
  show runLength Text.isBlank ([' '] ++ c :: rest) = 1
  exact runLength_append (List.all_eq_true.mp (by decide)) hc rest

theorem afterTag?_untyped {names : List (List Char)} (h : variableList ('$' :: rest) = (name :: names, length)) :
    afterTag? (' ' :: '$' :: rest) = some (none, name :: names, 1 + length) := by
  have htype : typeLength? ('$' :: rest) = none := by
    rw [typeLength?, if_neg]
    rintro ⟨hdollar, _⟩
    cases hdollar
  rw [afterTag?, runLength_space (by decide)]
  simp [htype, h]

theorem afterTag?_typed (type : TypeName) {names : List (List Char)}
    (h : variableList ('$' :: rest) = (name :: names, length)) :
    afterTag? (' ' :: (type.chars ++ ' ' :: '$' :: rest))
      = some (some type.chars, name :: names, 1 + (type.chars.length + 1) + length) := by
  have htype : typeLength? (type.chars ++ ([' '] ++ '$' :: rest)) = some (type.chars, type.chars.length + 1) :=
    typeLength?_chars type (List.all_eq_true.mp (by decide)) (List.cons_ne_nil _ _) (by decide)
  obtain ⟨c, more, hchars, _, hall⟩ := type.exists_cons
  have hspace : runLength Text.isBlank (' ' :: (type.chars ++ ' ' :: '$' :: rest)) = 1 := by
    rw [hchars]
    exact runLength_space (isBlank_of_isTypeChar (hall c List.mem_cons_self)) _
  rw [afterTag?, hspace]
  simp [show typeLength? (type.chars ++ ' ' :: '$' :: rest) = _ from htype, h]

/-- A type at the end of a line has no variable behind it. -/
theorem afterTag?_property (type : TypeName) (hrest : StartsLine rest) :
    afterTag? (' ' :: (type.chars ++ '\n' :: rest)) = none := by
  obtain ⟨after, rfl⟩ := hrest
  have htype : typeLength? (type.chars ++ (['\n', ' '] ++ '*' :: after)) = some (type.chars, type.chars.length + 2) :=
    typeLength?_chars type (List.all_eq_true.mp (by decide)) (List.cons_ne_nil _ _) (by decide)
  obtain ⟨c, more, hchars, _, hall⟩ := type.exists_cons
  have hspace : runLength Text.isBlank (' ' :: (type.chars ++ '\n' :: ' ' :: '*' :: after)) = 1 := by
    rw [hchars]
    exact runLength_space (isBlank_of_isTypeChar (hall c List.mem_cons_self)) _
  rw [afterTag?, hspace]
  simp [show typeLength? (type.chars ++ '\n' :: ' ' :: '*' :: after) = _ from htype, variableList]

theorem afterTag?_word (hc : Text.isBlank c = false) (s : List Char) : afterTag? (c :: s) = none := by
  have hnone : runLength Text.isBlank (c :: s) = 0 := runLength_append (List.forall_mem_nil _) hc s
  rw [afterTag?, hnone]
  rfl

theorem afterTag?_lineEnd (hrest : StartsLine rest) : afterTag? ('\n' :: rest) = none := by
  obtain ⟨after, rfl⟩ := hrest
  have hblanks : runLength Text.isBlank ('\n' :: ' ' :: '*' :: after) = 2 := rfl
  have htype : typeLength? ('*' :: after) = none := by
    rw [typeLength?, if_neg]
    rintro ⟨_, hstar, _⟩
    exact hstar rfl
  rw [afterTag?, hblanks]
  simp [htype, variableList]

/-! ## Lines are read for themselves -/

/-- A character is passed over where no tag starts that declares variables. -/
theorem entries_cons (h : ∀ after, c :: s = tagChars ++ after → afterTag? after = none) :
    entries (c :: s) = entries s := by
  rw [entries]
  split
  · next type names length hfound =>
      split at hfound
      · next htag =>
          obtain ⟨after, hafter⟩ := List.isPrefixOf_iff_prefix.mp htag
          have hdrop : s.drop 3 = after := by
            cases hafter
            rfl
          rw [hdrop, h after hafter.symm] at hfound
          cases hfound
      · cases hfound
  · rfl

theorem entries_cons_of_ne (hc : c ≠ '@') (s : List Char) : entries (c :: s) = entries s := by
  apply entries_cons
  intro after heq
  exact absurd (List.cons.inj heq).1 hc

theorem entries_tag {type : Option (List Char)} {names : List (List Char)}
    (h : afterTag? s = some (type, names, length)) : entries (tagChars ++ s)
      = names.map (fun name => (String.ofList name, type.map String.ofList)) ++ entries (s.drop length) := by
  show entries ('@' :: ('v' :: 'a' :: 'r' :: s)) = _
  rw [entries]
  have htag : ['@', 'v', 'a', 'r'].isPrefixOf ('@' :: 'v' :: 'a' :: 'r' :: s) := rfl
  have hdrop : ('v' :: 'a' :: 'r' :: s).drop (3 + length) = s.drop length := by
    rw [← List.drop_drop]
    rfl
  simp [htag, h, hdrop]

theorem entries_tag_of_none (h : afterTag? s = none) : entries (tagChars ++ s) = entries s := by
  show entries ('@' :: ('v' :: 'a' :: 'r' :: s)) = entries s
  rw [entries_cons, entries_cons_of_ne (by decide), entries_cons_of_ne (by decide), entries_cons_of_ne (by decide)]
  intro after hafter
  cases hafter
  exact h

/-- A tag is not cut by the end of a line. -/
theorem tag_within {after : List Char} (h : s ++ '\n' :: rest = tagChars ++ after) :
    ∃ more, s = tagChars ++ more ∧ after = more ++ '\n' :: rest := by
  rcases List.append_eq_append_iff.mp h with ⟨more, htag, hrest⟩ | ⟨more, hs, hafter⟩
  · cases more with
    | nil =>
        rw [List.append_nil] at htag
        exact ⟨[], by rw [htag, List.append_nil], hrest.symm⟩
    | cons c more =>
        obtain rfl : '\n' = c := (List.cons.inj hrest).1
        have hmem : '\n' ∈ tagChars := by
          rw [htag]
          exact List.mem_append_right s List.mem_cons_self
        exact absurd hmem (by decide)
  · exact ⟨more, hs, hafter⟩

/-- Text without a tag is passed over. -/
theorem entries_untagged (hs : ¬ tagChars <:+: s) (rest : List Char) :
    entries (s ++ '\n' :: rest) = entries rest := by
  induction s with
  | nil => exact entries_cons_of_ne (by decide) rest
  | cons c s ih =>
      have hrest : ¬ tagChars <:+: s := by
        intro h
        exact hs (h.trans (List.suffix_cons c s).isInfix)
      rw [List.cons_append, ← ih hrest]
      apply entries_cons
      intro after htag
      rw [← List.cons_append] at htag
      obtain ⟨more, hmore, _⟩ := tag_within htag
      exact absurd ⟨[], more, by rw [hmore]; rfl⟩ hs

/-- The name of a type is passed over, even if it holds a tag. -/
theorem entries_type (hs : ∀ c ∈ s, isTypeChar c) (hrest : StartsLine rest) :
    entries (s ++ '\n' :: rest) = entries rest := by
  induction s with
  | nil => exact entries_cons_of_ne (by decide) rest
  | cons c s ih =>
      rw [List.cons_append, ← ih (List.forall_mem_cons.mp hs).2]
      apply entries_cons
      intro after htag
      rw [← List.cons_append] at htag
      obtain ⟨more, hmore, rfl⟩ := tag_within htag
      cases more with
      | nil => exact afterTag?_lineEnd hrest
      | cons d more =>
          have hd : d ∈ c :: s := by
            rw [hmore]
            exact List.mem_append_right tagChars List.mem_cons_self
          exact afterTag?_word (isBlank_of_isTypeChar (hs d hd)) _

/-- What stands in front of every line is passed over. -/
theorem entries_lead (s : List Char) : entries (' ' :: '*' :: ' ' :: s) = entries s := by
  rw [entries_cons_of_ne (by decide), entries_cons_of_ne (by decide), entries_cons_of_ne (by decide)]

theorem entries_tagLine (text : String) (rest : List Char) :
    entries ((" * @var " ++ text).toList ++ rest) = entries (tagChars ++ (' ' :: text.toList ++ rest)) := by
  have hlead : " * @var ".toList = ' ' :: '*' :: ' ' :: (tagChars ++ [' ']) := by
    decide
  rw [String.toList_append, hlead]
  simp only [List.cons_append, List.append_assoc, List.nil_append]
  exact entries_lead _

/-- A tag with variables behind it is read with all of them, up to the end of the line. -/
theorem entries_declaration {text : String} (type : Option TypeName) {first : VariableName}
    {others : List VariableName}
    (hread : afterTag? (' ' :: text.toList ++ '\n' :: rest)
      = some (type.map TypeName.chars, (first :: others).map VariableName.chars, 1 + text.toList.length)) :
    entries ((" * @var " ++ text).toList ++ '\n' :: rest)
      = ((first :: others).map VariableName.text).map (fun name => (name, type.map TypeName.text)) ++ entries rest := by
  have htype : (type.map TypeName.chars).map String.ofList = type.map TypeName.text := by
    rw [Option.map_map]
    congr 1
    funext t
    exact String.ofList_toList
  have hrest : (' ' :: text.toList ++ '\n' :: rest).drop (1 + text.toList.length) = '\n' :: rest := by
    rw [← List.drop_drop]
    exact List.drop_left
  rw [entries_tagLine, entries_tag hread, hrest, entries_cons_of_ne (by decide), htype, List.map_map, List.map_map]
  congr 2
  funext v
  exact congrArg (fun name => (name, type.map TypeName.text)) String.ofList_toList

/-- **A line is read for itself**: what it declares, and then what the lines behind it declare. -/
theorem entries_line (line : DocLine) (hrest : StartsLine rest) :
    entries (line.text.toList ++ '\n' :: rest)
      = line.names.map (fun name => (name, line.type?)) ++ entries rest := by
  cases line with
  | declaration type first others =>
      obtain ⟨tail, htail⟩ := exists_listText first others
      have hlist := variableList_listText first others hrest
      rw [htail, List.cons_append, List.map_cons] at hlist
      cases type with
      | none =>
          refine entries_declaration none ?_
          rw [htail]
          exact afterTag?_untyped hlist
      | some type =>
          have hlength : (type.text ++ " " ++ listText first others).toList.length
              = type.chars.length + 1 + ('$' :: tail).length := by
            rw [String.toList_append, String.toList_append, htail, List.length_append, List.length_append]
            rfl
          refine entries_declaration (some type) ?_
          rw [hlength, ← Nat.add_assoc]
          refine Eq.trans ?_ (afterTag?_typed type hlist)
          rw [String.toList_append, String.toList_append, htail]
          simp only [List.append_assoc, List.cons_append]
          rfl
  | property type =>
      obtain ⟨c, more, hchars, _, hall⟩ := type.exists_cons
      calc entries ((" * @var " ++ type.text).toList ++ '\n' :: rest)
          = entries (tagChars ++ ' ' :: (type.chars ++ '\n' :: rest)) := entries_tagLine _ _
        _ = entries (type.chars ++ '\n' :: rest) := by
            rw [entries_tag_of_none (afterTag?_property type hrest), entries_cons_of_ne (by decide)]
        _ = entries rest := entries_type (hchars ▸ hall) hrest
  | prose words =>
      have hlead : " * ".toList = [' ', '*', ' '] := by
        decide
      rw [DocLine.text, String.toList_append, hlead, List.append_assoc]
      exact (entries_lead _).trans (entries_untagged words.untagged rest)

/-! ## The whole comment -/

/-- The lines of a comment with what stands behind them. -/
def linesFrom (lines : List DocLine) : List Char :=
  ['\n'].intercalate (lines.map (fun line => line.text.toList) ++ [[' ', '*', '/']])

theorem linesFrom_cons (line : DocLine) (lines : List DocLine) :
    linesFrom (line :: lines) = line.text.toList ++ '\n' :: linesFrom lines := by
  unfold linesFrom
  rw [List.map_cons, List.cons_append, List.intercalate_cons_of_ne_nil (by simp), List.append_assoc]
  rfl

theorem startsLine_text (line : DocLine) (s : List Char) : StartsLine (line.text.toList ++ s) := by
  have hlead : ∀ text : String, StartsLine ((" * " ++ text).toList ++ s) := by
    intro text
    rw [String.toList_append]
    exact ⟨' ' :: (text.toList ++ s), by simp⟩
  have htag : ∀ text : String, StartsLine ((" * @var " ++ text).toList ++ s) := by
    intro text
    rw [String.toList_append]
    exact ⟨' ' :: (tagChars ++ ' ' :: (text.toList ++ s)), by simp [tagChars]⟩
  cases line with
  | declaration type first others =>
      cases type with
      | none => exact htag _
      | some type => exact htag _
  | property type => exact htag _
  | prose words => exact hlead _

theorem startsLine_linesFrom (lines : List DocLine) : StartsLine (linesFrom lines) := by
  cases lines with
  | nil => exact ⟨['/'], rfl⟩
  | cons line lines =>
      rw [linesFrom_cons]
      exact startsLine_text line _

theorem entries_linesFrom (lines : List DocLine) :
    entries (linesFrom lines) = lines.flatMap fun line => line.names.map fun name => (name, line.type?) := by
  induction lines with
  | nil =>
      show entries [' ', '*', '/'] = []
      rw [entries_cons_of_ne (by decide), entries_cons_of_ne (by decide), entries_cons_of_ne (by decide), entries]
  | cons line lines ih =>
      rw [linesFrom_cons, entries_line line (startsLine_linesFrom lines), ih, List.flatMap_cons]

theorem entries_comment (lines : List DocLine) : entries (comment lines).toList
    = lines.flatMap fun line => line.names.map fun name => (name, line.type?) := by
  have hcomment : (comment lines).toList = '/' :: '*' :: '*' :: '\n' :: linesFrom lines := by
    rw [comment, String.toList_intercalate, List.cons_append, List.map_cons, List.map_append, List.map_map,
      List.intercalate_cons_of_ne_nil (by simp)]
    rfl
  rw [hcomment, entries_cons_of_ne (by decide), entries_cons_of_ne (by decide), entries_cons_of_ne (by decide),
    entries_cons_of_ne (by decide), entries_linesFrom]

theorem lookup_names (names : List String) (type : Option String) (name : String) :
    (names.map fun x => (x, type)).lookup name = if names.contains name then some type else none := by
  induction names with
  | nil => rfl
  | cons x names ih =>
      rw [List.map_cons, List.lookup_cons, List.contains_cons]
      cases name == x with
      | true => rfl
      | false => exact ih

/-- The last entry of a variable is from the last line that declares it. -/
theorem lookup_entries (lines : List DocLine) (name : String) :
    (lines.flatMap fun line => line.names.map fun x => (x, line.type?)).reverse.lookup name
      = (lines.reverse.find? fun line => line.names.contains name).map DocLine.type? := by
  induction lines with
  | nil => rfl
  | cons line lines ih =>
      rw [List.flatMap_cons, List.reverse_append, List.lookup_append, ih, List.reverse_cons, List.find?_append,
        Option.map_or, ← List.map_reverse, lookup_names, List.contains_reverse, List.find?_singleton]
      congr 1
      split <;> rfl

/-- **The annotations of a doc comment are read back.** The variables are those of the lines that declare some, in the
    order in which they occur first. Each has the type that the last line which declares it gives to it. Lines that
    only name a type, and prose, declare nothing. -/
theorem declarations_comment (lines : List DocLine) : declarations (comment lines)
    = (lines.flatMap DocLine.names).eraseDups.map fun name => (name, lastType lines name) := by
  have hkeys : Ordered.keys (lines.flatMap fun line => line.names.map fun name => (name, line.type?))
      = lines.flatMap DocLine.names := by
    simp [Ordered.keys, List.map_flatMap, Function.comp_def]
  rw [declarations, entries_comment, Ordered.ofList_eq_map (lastType lines), hkeys]
  intro name type htype
  rw [lookup_entries, Option.map_eq_some_iff] at htype
  obtain ⟨line, hline, rfl⟩ := htype
  rw [lastType, hline]
  rfl

end Unassigned.DocComment
