import Unassigned.Lint.Linter

/-!
# `Proofs.StraightLine.Program` — functions without branches, loops and calls

A straight-line program is one function whose body assigns and prints expressions of variables and integers.
Written out it is a sequence of words with one blank between them. The occurrences of its variables are told
apart by the words: parameters, left sides of assignments, and reads.

`Program.expected` says which of the reads are to be reported, in words of the program text alone.
-/

namespace Unassigned

namespace StraightLine

/-! ## Syntax -/

/-- The name of a function or, without its dollar sign, of a variable. -/
structure Identifier where
  chars : List Char
  start : startsIn isNameStart chars
  all : ∀ c ∈ chars, isNameChar c

instance : DecidableEq Identifier := fun x y =>
  decidable_of_iff (x.chars = y.chars) (by cases x; cases y; simp)

/-- A decimal integer. -/
structure Digits where
  chars : List Char
  ne_nil : chars ≠ []
  all : ∀ c ∈ chars, c.isDigit

instance : DecidableEq Digits := fun m n =>
  decidable_of_iff (m.chars = n.chars) (by cases m; cases n; simp)

inductive Operand where
  | var (x : Identifier)
  | integer (n : Digits)

inductive Operator where
  | plus
  | minus
  | times
  deriving DecidableEq

/-- Operands with operators between them. -/
structure Expr where
  first : Operand
  more : List (Operator × Operand)

inductive Statement where
  | assign (x : Identifier) (e : Expr)
  | echo (e : Expr)

/-- A function with parameters and a body. -/
structure Program where
  name : Identifier
  params : List Identifier
  body : List Statement

/-! ## Words -/

/-- The punctuation of a program. -/
inductive Mark where
  | parenOpen
  | parenClose
  | comma
  | braceOpen
  | braceClose
  | equals
  | semicolon
  | operator (o : Operator)
  deriving DecidableEq

def Mark.char : Mark → Char
  | .parenOpen => '('
  | .parenClose => ')'
  | .comma => ','
  | .braceOpen => '\x7b'
  | .braceClose => '\x7d'
  | .equals => '='
  | .semicolon => ';'
  | .operator .plus => '+'
  | .operator .minus => '-'
  | .operator .times => '*'

/-- A word of a program. -/
inductive Word where
  | function
  | echo
  /-- The name of the function. -/
  | name (x : Identifier)
  | param (x : Identifier)
  /-- The left side of an assignment. -/
  | target (x : Identifier)
  /-- A variable in an expression. -/
  | read (x : Identifier)
  | integer (n : Digits)
  | mark (m : Mark)
  deriving DecidableEq

/-- The name of a variable, with its dollar sign. -/
def Identifier.variable (x : Identifier) : String :=
  String.ofList ('$' :: x.chars)

def Word.text : Word → String
  | .function => "function"
  | .echo => "echo"
  | .name x => String.ofList x.chars
  | .param x | .target x | .read x => x.variable
  | .integer n => String.ofList n.chars
  | .mark m => String.singleton m.char

def Word.kind : Word → Kind
  | .function => .keyword .functionWord
  | .echo => .keyword .echoWord
  | .name _ => .name
  | .param _ | .target _ | .read _ => .var
  | .integer _ => .integer
  | .mark m => .char m.char

def Operand.word : Operand → Word
  | .var x => .read x
  | .integer n => .integer n

def Expr.words (e : Expr) : List Word :=
  e.first.word :: e.more.flatMap fun (o, operand) => [.mark (.operator o), operand.word]

def Statement.words : Statement → List Word
  | .assign x e => .target x :: .mark .equals :: e.words ++ [.mark .semicolon]
  | .echo e => .echo :: e.words ++ [.mark .semicolon]

/-- Parameters, with commas between them. -/
def paramWords : List Identifier → List Word
  | [] => []
  | x :: rest => .param x :: rest.flatMap fun y => [.mark .comma, .param y]

namespace Program

variable (p : Program)

/-- The words of the body. -/
def bodyWords : List Word :=
  p.body.flatMap Statement.words

/-- The words of the program, in order. -/
def words : List Word :=
  [.function, .name p.name, .mark .parenOpen] ++ paramWords p.params ++ [.mark .parenClose, .mark .braceOpen]
    ++ p.bodyWords ++ [.mark .braceClose]

/-- The text of the program: the opening tag and the words, with one blank between them. -/
def text : String :=
  "<?php " ++ " ".intercalate (p.words.map Word.text)

end Program

/-! ## The words of the parts -/

/-- A word of a parameter list. -/
def Word.isListed : Word → Bool
  | .param _ | .mark .comma => true
  | _ => false

/-- A word of a statement. -/
def Word.isInner : Word → Bool
  | .echo | .target _ | .read _ | .integer _ | .mark .equals | .mark .semicolon | .mark (.operator _) => true
  | _ => false

theorem isListed_paramWords (params : List Identifier) : ∀ w ∈ paramWords params, w.isListed := by
  intro w hw
  cases params with
  | nil => cases hw
  | cons x rest =>
      simp only [paramWords, List.mem_cons, List.mem_flatMap, List.not_mem_nil, or_false] at hw
      rcases hw with rfl | ⟨y, _, rfl | rfl⟩ <;> rfl

theorem Operand.isInner_word (operand : Operand) : operand.word.isInner := by
  cases operand <;> rfl

theorem Expr.isInner_words (e : Expr) : ∀ w ∈ e.words, w.isInner := by
  intro w hw
  simp only [Expr.words, List.mem_cons, List.mem_flatMap, List.not_mem_nil, or_false] at hw
  rcases hw with rfl | ⟨⟨o, operand⟩, _, rfl | rfl⟩
  · exact e.first.isInner_word
  · rfl
  · exact operand.isInner_word

theorem Statement.isInner_words (s : Statement) : ∀ w ∈ s.words, w.isInner := by
  intro w hw
  cases s with
  | assign x e =>
      simp only [Statement.words, List.mem_append, List.mem_cons, List.not_mem_nil, or_false] at hw
      rcases hw with (rfl | rfl | hw) | rfl
      · rfl
      · rfl
      · exact e.isInner_words w hw
      · rfl
  | echo e =>
      simp only [Statement.words, List.mem_append, List.mem_cons, List.not_mem_nil, or_false] at hw
      rcases hw with (rfl | hw) | rfl
      · rfl
      · exact e.isInner_words w hw
      · rfl

theorem Program.isInner_bodyWords (p : Program) : ∀ w ∈ p.bodyWords, w.isInner := by
  intro w hw
  obtain ⟨s, _, hw⟩ := List.mem_flatMap.mp hw
  exact s.isInner_words w hw

/-! ## What is to be reported -/

/-- Word number `k` as a token: all words are on the first line, and before each of them stands the opening
    tag or a blank. -/
def Word.token (k : Nat) (w : Word) : Token :=
  ⟨w.kind, w.text, 1, 2 * k + 1⟩

/-- The reads to report in words that follow the words `before`: those of variables that are no superglobals,
    no parameters, not on the left of an assignment before, and not among those `reported` already. -/
def missingReads (before : List Word) (reported : List Identifier) : List Word → List Defect
  | [] => []
  | .read x :: rest =>
    if superglobals.contains x.variable ∨ Word.param x ∈ before ∨ Word.target x ∈ before ∨ x ∈ reported then
      missingReads (before ++ [.read x]) reported rest
    else
      ⟨(Word.read x).token before.length, .error, .undefined⟩
        :: missingReads (before ++ [.read x]) (x :: reported) rest
  | w :: rest => missingReads (before ++ [w]) reported rest

/-- The defects of a program, in the order of its text. -/
def Program.expected (p : Program) : List Defect :=
  missingReads [] [] p.words

end StraightLine

end Unassigned
