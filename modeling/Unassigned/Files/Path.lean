import Unassigned.Text.LowerCase

/-!
# `Files.Path` — paths as a user writes them, and filters for them

A path is a list of names. Empty names and the name `.` say nothing and are dropped, so `./src//lib/` is
the path `src/lib`; the name `..` is kept, since what it means depends on the files. The path without names
is `.`.
-/

namespace Unassigned

/-- A path: the slashes it starts with and its names. -/
structure Path where
  root : String := ""
  names : List String
  deriving DecidableEq, Repr

namespace Path

/-- The names between the slashes of a text. -/
def segments (text : String) : List String :=
  (Text.splitAt '/' text.toList).map String.ofList

/-- The slashes at the start that count: two are kept, any other number is as good as one. -/
def rootOf (text : String) : String :=
  match (text.toList.takeWhile (· == '/')).length with
  | 0 => ""
  | 2 => "//"
  | _ => "/"

/-- Reads a path. -/
def ofText (text : String) : Path where
  root := rootOf text
  names := (segments text).filter fun name => name != "" && name != "."

/-- Writes a path. -/
def toText (path : Path) : String :=
  if path.names.isEmpty && path.root.isEmpty then "."
  else path.root ++ "/".intercalate path.names

/-- Names without `..`, of which each takes back the name before. -/
def foldedFrom (above : List String) : List String → List String
  | [] => above.reverse
  | name :: names => if name = ".." then foldedFrom above.tail names else foldedFrom (name :: above) names

/-- The path of what a path leads to, without `..`. -/
def folded (path : Path) : Path where
  root := path.root
  names := foldedFrom [] path.names

/-- A path and those of the directories above it, the longest first. -/
def withAncestors (path : Path) : List Path :=
  (List.range (path.names.length + 1)).reverse.map fun count =>
    { path with names := path.names.take count }

/-- The text of a path with one more name. -/
def join (directory name : String) : String :=
  if directory.endsWith '/' then directory ++ name else directory ++ "/" ++ name

end Path

/-! ## Filters

Files are chosen by their extension, whatever the case of its letters, and can be excluded by name or with the
directory they are in. For this purpose the slash and the backslash both separate names. -/

/-- A character between the names of a path. -/
def isSeparator (c : Char) : Bool :=
  c == '/' || c == '\\'

/-- A path without the current directory in front. -/
def dropHere : List Char → List Char
  | '.' :: c :: rest =>
    if isSeparator c then rest.dropWhile isSeparator else '.' :: c :: rest
  | s => s

/-- A reversed path without separators at its end. They are dropped in front of a final line feed too. -/
def dropBackSeparators : List Char → List Char
  | '\n' :: rest => '\n' :: rest.dropWhile isSeparator
  | s => s.dropWhile isSeparator

/-- A path as exclusions compare it: `./vendor/` is `vendor`. -/
def comparablePath (path : String) : String :=
  String.ofList (dropBackSeparators (dropHere path.toList).reverse).reverse

/-- A path is another one or below it. -/
def isWithin (directory path : List Char) : Bool :=
  directory.isPrefixOf path &&
    match path.drop directory.length with
    | [] => true
    | c :: _ => isSeparator c

/-- A name is excluded by one of some paths, of which empty ones do not count. -/
def isExcluded (exclude : List String) (name : String) : Bool :=
  exclude.any fun path =>
    path != "" && isWithin path.toList (comparablePath name).toList

/-- A name ends in one of some extensions. -/
def hasExtension (extensions : List String) (name : String) : Bool :=
  extensions.any fun extension =>
    (Text.lower extension).toList.isSuffixOf (Text.lower name).toList

/-- Which files a run looks at. -/
structure FileFilter where
  extensions : List String
  exclude : List String

namespace FileFilter

/-- The filter of an extension list and an exclude list. -/
def ofLists (extensions exclude : List String) : FileFilter where
  extensions := extensions
  exclude := exclude.map comparablePath

/-- The name has one of the extensions. -/
def matchesName (filter : FileFilter) (name : String) : Bool :=
  hasExtension filter.extensions name

/-- The file or directory is not excluded. -/
def allows (filter : FileFilter) (path : String) : Bool :=
  !isExcluded filter.exclude path

end FileFilter

end Unassigned
