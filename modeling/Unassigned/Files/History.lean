import Unassigned.Files.Tree

/-!
# `Files.History` — the files of a committed revision

A history is a line of commits on one branch. A revision names a commit: by its id, by the name of the
branch or of the head, or as an ancestor of such a one, `HEAD~2` or `HEAD^`.
-/

namespace Unassigned

/-- A committed tree. -/
structure Commit where
  id : String
  tree : Node

/-- The commits of a branch, the oldest first. -/
structure History where
  branch : String := "main"
  commits : List Commit

/-- Why a revision, or a file of it, is not found. -/
inductive HistoryError where
  | invalidRevision (revision : String)
  | noSuchFile (name id : String)
  deriving DecidableEq, Repr

/-- The wording of an error. -/
def HistoryError.message : HistoryError → String
  | .invalidRevision revision => "Invalid revision: " ++ revision
  | .noSuchFile name id => name ++ " not found in revision " ++ id

/-- A step from a commit to an earlier one. -/
inductive AncestorStep where
  /-- So many generations back. -/
  | back (generations : Nat)
  /-- The parent of this number, counted from one; number zero is the commit itself. -/
  | parent (number : Nat)
  deriving DecidableEq, Repr

namespace AncestorStep

/-- How many generations a step goes back in a history where every commit has at most one parent. -/
def generations? : AncestorStep → Option Nat
  | .back n => some n
  | .parent 0 => some 0
  | .parent 1 => some 1
  | .parent _ => none

end AncestorStep

namespace History

/-- The decimal number at the start of a text, or one if there is none, and its length. -/
def stepCount (s : List Char) : Nat × Nat :=
  let digits := s.takeWhile Char.isDigit
  if digits.isEmpty then (1, 0)
  else (digits.foldl (fun n c => n * 10 + (c.toNat - '0'.toNat)) 0, digits.length)

/-- The steps that a revision is followed by. -/
def ancestorSteps? (s : List Char) : Option (List AncestorStep) :=
  match s with
  | [] => some []
  | c :: rest =>
    let (count, length) := stepCount rest
    if c = '~' then (ancestorSteps? (rest.drop length)).map (.back count :: ·)
    else if c = '^' then (ancestorSteps? (rest.drop length)).map (.parent count :: ·)
    else none
termination_by s.length
decreasing_by all_goals (rw [List.length_drop, List.length_cons]; omega)

/-- A character that ends the name at the start of a revision. -/
def isStepMark (c : Char) : Bool :=
  c == '~' || c == '^'

variable (history : History)

/-- The names of the newest commit. -/
def headNames : List String :=
  ["HEAD", "@", history.branch, "heads/" ++ history.branch, "refs/heads/" ++ history.branch]

/-- The place among the commits that a name stands for. -/
def named? (name : String) : Option Nat :=
  if history.headNames.contains name then
    if history.commits.isEmpty then none else some (history.commits.length - 1)
  else history.commits.findIdx? fun commit => commit.id = name

/-- The commit that a revision names. -/
def resolve? (revision : String) : Option Commit := do
  let name := revision.toList.takeWhile fun c => !isStepMark c
  let place ← history.named? (String.ofList name)
  let steps ← ancestorSteps? (revision.toList.drop name.length)
  let generations ← steps.mapM AncestorStep.generations?
  let back := generations.foldl (· + ·) 0
  if back ≤ place then history.commits[place - back]? else none

/-- The commit that a revision names. -/
def resolve (revision : String) : Except HistoryError Commit :=
  match history.resolve? revision with
  | some commit => .ok commit
  | none => .error (.invalidRevision revision)

end History

namespace Commit

variable (commit : Commit)

/-- The files of a commit that a filter lets through, in tracked order. -/
def files (filter : FileFilter) : List String :=
  (commit.tree.tracked "").filter fun name => filter.matchesName name && filter.allows name

/-- The text of a file of a commit. -/
def text (name : String) : Except HistoryError String :=
  match commit.tree.content? (Path.segments name) with
  | some content => .ok (String.ofList (Text.decodeUtf8 content.toList))
  | none => .error (.noSuchFile name commit.id)

end Commit

end Unassigned
