import Unassigned.Files.Path
import Unassigned.Ordered
import Unassigned.Text.Quoted
import Unassigned.Text.Utf8

/-!
# `Files.Tree` — files and directories

A tree is what a working directory or a committed revision holds. A path is looked up name by name; `..`
leads back to the directory before. Names and paths have a greatest length, and to look up a longer one is a
different failure from finding nothing.

Two traversals list the files below a directory. The walk takes the files of a directory first and then
its subdirectories, each sorted by name. The tracked order mixes both, a directory as if its name ended in
a slash.
-/

namespace Unassigned

/-- A file with its content, or a directory with its entries. -/
inductive Node where
  | file (content : ByteArray)
  | dir (entries : List (String × Node))

/-- Why there is no node at a path. -/
inductive LookupError where
  | missing
  | tooLong
  deriving DecidableEq, Repr

/-- The greatest length of a name in a directory, in bytes. -/
def maxNameBytes : Nat := 255

/-- The greatest length of a path, in bytes. -/
def maxPathBytes : Nat := 4095

namespace Node

/-- The entries of a directory; a file has none. -/
def entries : Node → List (String × Node)
  | .file _ => []
  | .dir entries => entries

/-- The node is a directory. -/
def isDir : Node → Bool
  | .file _ => false
  | .dir _ => true

/-! ## Building -/

/-- The entries below a name; none if there is no such directory. -/
def entriesAt (name : String) (entries : List (String × Node)) : List (String × Node) :=
  ((entries.lookup name).map Node.entries).getD []

/-- Adds a directory, with the directories that lead to it. -/
def addDir : List String → List (String × Node) → List (String × Node)
  | [], entries => entries
  | name :: names, entries => Ordered.insert name (.dir (addDir names (entriesAt name entries))) entries

/-- Adds a file, with the directories that lead to it. -/
def addFile (content : ByteArray) : List String → List (String × Node) → List (String × Node)
  | [], entries => entries
  | [name], entries => Ordered.insert name (.file content) entries
  | name :: names, entries =>
    Ordered.insert name (.dir (addFile content names (entriesAt name entries))) entries

/-! ## Looking up -/

/-- Follows names from a node; `above` are the directories that led to it, the nearest first. Only a directory can be
    left by a name, even by one that stays in place. Nothing above the working directory is in the tree: a path that
    leaves it is taken to name nothing, and what such a path names outside is not covered. -/
def follow (node : Node) (above : List Node) : List String → Except LookupError Node
  | [] => .ok node
  | name :: names =>
    match node with
    | .file _ => .error .missing
    | .dir entries =>
      if name = "" ∨ name = "." then node.follow above names
      else if name = ".." then
        match above with
        | [] => .error .missing
        | parent :: rest => parent.follow rest names
      else if maxNameBytes < name.utf8ByteSize then .error .tooLong
      else
        match entries.lookup name with
        | none => .error .missing
        | some child => child.follow (node :: above) names

/-- The node that a text names, taken literally: a slash after a name asks for a directory. The empty text
    and paths from the root name nothing. -/
def atText? (tree : Node) (text : String) : Option Node :=
  if text = "" ∨ text.startsWith "/" ∨ maxPathBytes < text.utf8ByteSize then none
  else (tree.follow [] (Path.segments text)).toOption

/-- The node at a path, or why there is none. -/
def lookup (tree : Node) (path : Path) : Except LookupError Node :=
  if maxPathBytes < path.toText.utf8ByteSize then .error .tooLong
  else if path.root = "" then tree.follow [] path.names
  else .error .missing

/-- The node at a path. -/
def at? (tree : Node) (path : Path) : Option Node :=
  (tree.lookup path).toOption

/-- The content of the file with exactly these names. -/
def content? : Node → List String → Option ByteArray
  | .file content, [] => some content
  | .dir _, [] => none
  | .file _, _ :: _ => none
  | .dir entries, name :: names =>
    match entries.lookup name with
    | none => none
    | some child => child.content? names

/-! ## Listing -/

/-- Pairs sorted by their first component. -/
def sortByKey {α : Type} (pairs : List (String × α)) : List (String × α) :=
  pairs.mergeSort fun a b => decide (a.1 ≤ b.1)

/-- The names of the files among some entries, sorted. -/
def fileNames (entries : List (String × Node)) : List String :=
  (entries.filterMap fun (name, node) => if node.isDir then none else some name).mergeSort
    fun a b => decide (a ≤ b)

mutual

/-- The files below a directory at `path` whose name is accepted, directory by directory. Only the
    directories that may be entered are looked into. -/
def walk (accept enter : String → Bool) (path : String) : Node → List String
  | .file _ => []
  | .dir entries =>
    ((fileNames entries).filter accept).map (Path.join path)
      ++ (sortByKey (walkEntries accept enter path entries)).flatMap Prod.snd

/-- The walks of the subdirectories among some entries, by their names. -/
def walkEntries (accept enter : String → Bool) (path : String) :
    List (String × Node) → List (String × List String)
  | [] => []
  | (name, node) :: rest =>
    let others := walkEntries accept enter path rest
    if node.isDir && enter (Path.join path name) then
      (name, node.walk accept enter (Path.join path name)) :: others
    else others

end

mutual

/-- The paths of all files below a directory, in tracked order; `above` stands in front of each. -/
def tracked (above : String) : Node → List String
  | .file _ => []
  | .dir entries => (sortByKey (trackedEntries above entries)).flatMap Prod.snd

/-- The tracked files of each entry, by the key that orders the entries. -/
def trackedEntries (above : String) : List (String × Node) → List (String × List String)
  | [] => []
  | (name, node) :: rest =>
    let others := trackedEntries above rest
    match node with
    | .file _ => (name, [above ++ name]) :: others
    | .dir _ => (name ++ "/", node.tracked (above ++ name ++ "/")) :: others

end

end Node

/-! ## Selection

A path of a file names that file, whatever its extension. A path of a directory names the files below it that have one of
the extensions. Excluded files are left out, excluded directories are not entered, and a name is listed once. Where no
path is given, the working directory is meant. -/

/-- A path that names nothing. -/
inductive SelectionError where
  | noSuchPath (text : String)
  | tooLong (path : Path)
  deriving DecidableEq, Repr

/-- The wording of an error. -/
def SelectionError.message : SelectionError → String
  | .noSuchPath text => "No such file or directory: " ++ text
  | .tooLong path => "[Errno 36] File name too long: " ++ Text.quoted path.toText

namespace Node

variable (tree : Node)

/-- The files that a path names, before exclusion. -/
def filesAt (filter : FileFilter) (text : String) : Except SelectionError (List String) :=
  let path := Path.ofText text
  match tree.lookup path with
  | .error .missing => .error (.noSuchPath text)
  | .error .tooLong => .error (.tooLong path)
  | .ok (.file _) => .ok [path.toText]
  | .ok node => .ok (node.walk filter.matchesName filter.allows path.toText)

/-- The files that a path leads to and that are passed over, since they have none of the extensions. -/
def passedOver (filter : FileFilter) (text : String) : List String :=
  let path := Path.ofText text
  match tree.at? path with
  | none => []
  | some node => node.walk (fun name => !filter.matchesName name) filter.allows path.toText

/-- The paths to look at: those given, or the working directory. -/
def pathsOrHere : List String → List String
  | [] => ["."]
  | paths => paths

/-- The files that some paths name. -/
def select (filter : FileFilter) (paths : List String) : Except SelectionError (List String) := do
  let names ← (pathsOrHere paths).mapM (tree.filesAt filter)
  return (names.flatten.filter filter.allows).eraseDups

/-- The text of a file in a working directory; every line of it ends in a line feed. -/
def text? (name : String) : Option String :=
  match tree.atText? name with
  | some (.file content) =>
    some (String.ofList (Text.unifyNewlines (Text.decodeUtf8 content.toList)))
  | _ => none

end Node

end Unassigned
