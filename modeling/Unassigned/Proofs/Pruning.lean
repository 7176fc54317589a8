import Unassigned.Files.Tree
import Unassigned.Proofs.Exclusion
import Unassigned.Proofs.Scanning

/-!
# `Proofs.Pruning` — excluded directories are not entered, and nothing is missed

A walk does not enter an excluded directory. Seen from the whole tree, where every directory is entered (`listing`), it
finds the files that no excluded directory leads to (`walk_eq_listing`). The files that are selected do not depend on
that: a file below an excluded directory is excluded by its own path (`Proofs.Exclusion`).

The exception of exclusions is one of selections. A file can be missed if a line feed ends its name, or that of a
directory which leads to it, and a separator stands in front of the line feed in the path (`select_eq_unpruned`).
-/

namespace Unassigned

namespace Node

/-! ## All files -/

/-- A file below a directory: the directories that lead to it from there, the outermost first, the directory that it is
    in, and its name. -/
structure Found where
  passed : List String
  directory : String
  name : String

namespace Found

def path (file : Found) : String :=
  Path.join file.directory file.name

/-- The file, seen from above a directory that leads to it. -/
def through (directory : String) (file : Found) : Found :=
  { file with passed := directory :: file.passed }

end Found

mutual

/-- The files below a directory at `path`, in the order of a walk that enters every directory. -/
def listing (path : String) : Node → List Found
  | .file _ => []
  | .dir entries =>
    (fileNames entries).map (fun name => ⟨[], path, name⟩)
      ++ (sortByKey (listingEntries path entries)).flatMap Prod.snd

/-- The files below the subdirectories among some entries, by the names of these. -/
def listingEntries (path : String) : List (String × Node) → List (String × List Found)
  | [] => []
  | (name, node) :: rest =>
    let others := listingEntries path rest
    if node.isDir then
      (name, (node.listing (Path.join path name)).map (Found.through (Path.join path name))) :: others
    else others

end

mutual

/-- The names of all files and directories below a directory. -/
def names : Node → List String
  | .file _ => []
  | .dir entries => namesIn entries

/-- The names of some entries, and those below them. -/
def namesIn : List (String × Node) → List String
  | [] => []
  | (name, node) :: rest => name :: (node.names ++ namesIn rest)

end

/-! ## Sorting -/

section Sorting
variable {α β : Type}

/-- A list is cut in one way only between elements without a property and elements with it. -/
theorem append_eq_append_of_class {p : α → Bool} {front back front' back' : List α}
    (h : front ++ back = front' ++ back') (hfront : ∀ x ∈ front, p x = false) (hback : ∀ x ∈ back, p x)
    (hfront' : ∀ x ∈ front', p x = false) (hback' : ∀ x ∈ back', p x) : front = front' ∧ back = back' := by
  have hcut : ∀ {xs ys : List α}, (∀ x ∈ xs, p x = false) → (∀ y ∈ ys, p y) →
      (xs ++ ys).takeWhile (fun x => !p x) = xs := by
    intro xs ys hxs hys
    rw [List.takeWhile_append_of_pos (by simpa using hxs)]
    cases ys with
    | nil => exact List.append_nil xs
    | cons y ys => rw [List.takeWhile_cons_of_neg (by simp [hys y List.mem_cons_self]), List.append_nil]
  have heq : front = front' := by
    rw [← hcut hfront hback, h, hcut hfront' hback']
  subst heq
  exact ⟨rfl, List.append_cancel_left h⟩

/-- The first of some entries goes in front of those with the same key or a greater one. -/
theorem exists_sortByKey_cons (pair : String × α) (pairs : List (String × α)) :
    ∃ front back, sortByKey (pair :: pairs) = front ++ pair :: back ∧ sortByKey pairs = front ++ back
      ∧ (∀ other ∈ front, decide (pair.1 ≤ other.1) = false) ∧ ∀ other ∈ back, decide (pair.1 ≤ other.1) := by
  have htrans : ∀ a b c : String × α, decide (a.1 ≤ b.1) → decide (b.1 ≤ c.1) → decide (a.1 ≤ c.1) := by
    intro a b c hab hbc
    exact decide_eq_true (String.le_trans (of_decide_eq_true hab) (of_decide_eq_true hbc))
  have htotal : ∀ a b : String × α, decide (a.1 ≤ b.1) || decide (b.1 ≤ a.1) := by
    intro a b
    simpa using String.le_total a.1 b.1
  obtain ⟨front, back, hcons, hpairs, hfront⟩ := List.mergeSort_cons htrans htotal pair pairs
  refine ⟨front, back, hcons, hpairs, ?_, ?_⟩
  · intro other hother
    simpa using hfront other hother
  · intro other hother
    have hsorted := List.pairwise_mergeSort htrans htotal (pair :: pairs)
    rw [hcons] at hsorted
    exact List.rel_of_pairwise_cons (List.pairwise_append.mp hsorted).2.1 hother

/-- Entries that are left out do not change the order of the others. -/
theorem sortByKey_filter (keeps : String × α → Bool) (pairs : List (String × α)) :
    sortByKey (pairs.filter keeps) = (sortByKey pairs).filter keeps := by
  induction pairs with
  | nil => simp [sortByKey]
  | cons pair pairs ih =>
      obtain ⟨front, back, hcons, hpairs, hfront, hback⟩ := exists_sortByKey_cons pair pairs
      rw [hpairs, List.filter_append] at ih
      by_cases hkeeps : keeps pair
      · obtain ⟨front', back', hcons', hpairs', hfront', hback'⟩ := exists_sortByKey_cons pair (pairs.filter keeps)
        -- both cuts of the entries that are kept stand before the first one that is not less
        obtain ⟨rfl, rfl⟩ := append_eq_append_of_class (hpairs'.symm.trans ih) hfront' hback'
          (fun other hother => hfront other (List.mem_of_mem_filter hother))
          (fun other hother => hback other (List.mem_of_mem_filter hother))
        rw [List.filter_cons_of_pos hkeeps, hcons', hcons, List.filter_append, List.filter_cons_of_pos hkeeps]
      · rw [List.filter_cons_of_neg hkeeps, ih, hcons, List.filter_append, List.filter_cons_of_neg hkeeps]

theorem sortByKey_map (g : String × α → β) (pairs : List (String × α)) :
    sortByKey (pairs.map fun pair => (pair.1, g pair)) = (sortByKey pairs).map fun pair => (pair.1, g pair) := by
  unfold sortByKey
  rw [List.map_mergeSort]
  intro a _ b _
  rfl

end Sorting

/-! ## The walk -/

variable {accept enter : String → Bool}
variable {entries : List (String × Node)} {name text : String} {node : Node}

/-- A file that a walk finds: its name is accepted, and the directories that lead to it are entered. -/
def Found.isVisited (accept enter : String → Bool) (file : Found) : Bool :=
  accept file.name && file.passed.all enter

theorem passed_of_mem_listingEntries {path : String} {pair : String × List Found}
    (h : pair ∈ listingEntries path entries) {file : Found} (hfile : file ∈ pair.2) :
    ∃ more, file.passed = Path.join path pair.1 :: more := by
  induction entries with
  | nil => cases h
  | cons entry rest ih =>
      obtain ⟨name, node⟩ := entry
      unfold listingEntries at h
      split at h
      · rcases List.mem_cons.mp h with rfl | hrest
        · obtain ⟨inner, _, rfl⟩ := List.mem_map.mp hfile
          exact ⟨inner.passed, rfl⟩
        · exact ih hrest
      · exact ih h

/-- What is below a directory that is not entered is not visited. -/
theorem visited_of_not_entered {path : String} {pair : String × List Found} (h : pair ∈ listingEntries path entries)
    (henter : enter (Path.join path pair.1) = false) : pair.2.filter (Found.isVisited accept enter) = [] := by
  apply List.filter_eq_nil_iff.mpr
  intro file hfile
  obtain ⟨more, hpassed⟩ := passed_of_mem_listingEntries h hfile
  simp [Found.isVisited, hpassed, henter]

/-- Seen from above a directory that is entered, the same files are visited. -/
theorem visited_through {directory : String} (henter : enter directory) (files : List Found) :
    ((files.map (Found.through directory)).filter (Found.isVisited accept enter)).map Found.path
      = (files.filter (Found.isVisited accept enter)).map Found.path := by
  have hsame : Found.isVisited accept enter ∘ Found.through directory = Found.isVisited accept enter := by
    funext file
    simp [Found.isVisited, Found.through, henter]
  rw [List.filter_map, hsame, List.map_map]
  rfl

/-- Leaving out what gives nothing makes no difference. -/
theorem flatMap_filter {α β : Type} {keeps : α → Bool} {g : α → List β} {xs : List α}
    (h : ∀ x ∈ xs, keeps x = false → g x = []) : (xs.filter keeps).flatMap g = xs.flatMap g := by
  induction xs with
  | nil => rfl
  | cons x xs ih =>
      obtain ⟨hx, hxs⟩ := List.forall_mem_cons.mp h
      rw [List.flatMap_cons, ← ih hxs]
      by_cases hkeeps : keeps x
      · rw [List.filter_cons_of_pos hkeeps, List.flatMap_cons]
      · rw [List.filter_cons_of_neg hkeeps, hx (by simpa using hkeeps), List.nil_append]

mutual

/-- **A walk finds** the files with an accepted name that no directory leads to which may not be entered. -/
theorem walk_eq_listing (accept enter : String → Bool) (path : String) : (node : Node) →
    node.walk accept enter path = ((node.listing path).filter (Found.isVisited accept enter)).map Found.path
  | .file _ => by
      simp [walk, listing]
  | .dir entries => by
      have hentries := walkEntries_eq_listing accept enter path entries
      have hhere : Found.isVisited accept enter ∘ (fun name => ⟨[], path, name⟩) = accept := by
        funext name
        simp [Found.isVisited]
      unfold walk listing
      rw [hentries, sortByKey_map, sortByKey_filter, List.flatMap_map, List.filter_append, List.map_append,
        List.filter_flatMap, List.map_flatMap, List.filter_map, hhere, List.map_map]
      congr 1
      apply flatMap_filter
      intro pair hpair henter
      rw [visited_of_not_entered (List.mem_mergeSort.mp hpair) henter]
      rfl

theorem walkEntries_eq_listing (accept enter : String → Bool) (path : String) : (entries : List (String × Node)) →
    walkEntries accept enter path entries
      = ((listingEntries path entries).filter fun pair => enter (Path.join path pair.1)).map
          fun pair => (pair.1, (pair.2.filter (Found.isVisited accept enter)).map Found.path)
  | [] => by
      simp [walkEntries, listingEntries]
  | (name, node) :: rest => by
      have hrest := walkEntries_eq_listing accept enter path rest
      have hnode := walk_eq_listing accept enter (Path.join path name) node
      unfold walkEntries listingEntries
      by_cases hdir : node.isDir
      · by_cases henter : enter (Path.join path name)
        · simp only [hdir, henter, Bool.and_self, if_true, List.filter_cons, List.map_cons]
          rw [visited_through henter, hrest, hnode]
        · simp only [hdir, henter, Bool.and_false, if_true, List.filter_cons, Bool.false_eq_true, if_false]
          exact hrest
      · simp only [hdir, Bool.false_and, Bool.false_eq_true, if_false]
        exact hrest

end

/-! ## Where the files are -/

theorem names_of_mem (h : (name, node) ∈ entries) : name ∈ namesIn entries ∧ node.names ⊆ namesIn entries := by
  induction entries with
  | nil => cases h
  | cons entry rest ih =>
      obtain ⟨first, other⟩ := entry
      unfold namesIn
      rcases List.mem_cons.mp h with heq | hrest
      · cases heq
        refine ⟨List.mem_cons_self, ?_⟩
        intro x hx
        exact List.mem_cons_of_mem name (List.mem_append_left _ hx)
      · obtain ⟨hname, hnode⟩ := ih hrest
        refine ⟨List.mem_cons_of_mem first (List.mem_append_right _ hname), ?_⟩
        intro x hx
        exact List.mem_cons_of_mem first (List.mem_append_right _ (hnode hx))

theorem mem_namesIn_of_fileNames (h : name ∈ fileNames entries) : name ∈ namesIn entries := by
  obtain ⟨⟨other, node⟩, hmem, hname⟩ := List.mem_filterMap.mp (List.mem_mergeSort.mp h)
  obtain rfl : other = name := by
    by_cases hdir : node.isDir
    · simp [hdir] at hname
    · simpa [hdir] using hname
  exact (names_of_mem hmem).1

/-- A file that is below a directory, with names from a list. The directories that lead to it are in front of its
    path. -/
structure Found.Placed (path : String) (names : List String) (file : Found) : Prop where
  below : Below path.toList file.directory.toList
  name_mem : file.name ∈ names
  passed : ∀ directory ∈ file.passed, Below directory.toList file.directory.toList
    ∧ ∃ above name, directory = Path.join above name ∧ name ∈ names

namespace Found.Placed

variable {path : String} {names others : List String} {file : Found}

theorem mono (h : file.Placed path names) (hsub : names ⊆ others) : file.Placed path others := by
  refine ⟨h.below, hsub h.name_mem, ?_⟩
  intro directory hdirectory
  obtain ⟨hbelow, above, name, heq, hname⟩ := h.passed directory hdirectory
  exact ⟨hbelow, above, name, heq, hsub hname⟩

theorem through {name : String} (h : file.Placed (Path.join path name) names) (hname : name ∈ names) :
    (file.through (Path.join path name)).Placed path names := by
  refine ⟨(below_join path name).trans h.below, h.name_mem, ?_⟩
  intro directory hdirectory
  rcases List.mem_cons.mp hdirectory with rfl | hrest
  · exact ⟨h.below, path, name, rfl, hname⟩
  · exact h.passed directory hrest

end Found.Placed

mutual

theorem placed_of_mem_listing (path : String) : (node : Node) →
    ∀ file ∈ node.listing path, file.Placed path node.names
  | .file _ => by
      intro file hfile
      cases hfile
  | .dir entries => by
      intro file hfile
      rcases List.mem_append.mp hfile with hhere | hbelow
      · obtain ⟨name, hname, rfl⟩ := List.mem_map.mp hhere
        exact ⟨.refl _, mem_namesIn_of_fileNames hname, List.forall_mem_nil _⟩
      · obtain ⟨pair, hpair, hfile⟩ := List.mem_flatMap.mp hbelow
        exact placed_of_mem_listingEntries path entries pair (List.mem_mergeSort.mp hpair) file hfile

theorem placed_of_mem_listingEntries (path : String) : (entries : List (String × Node)) →
    ∀ pair ∈ listingEntries path entries, ∀ file ∈ pair.2, file.Placed path (namesIn entries)
  | [] => by
      intro pair hpair
      cases hpair
  | (name, node) :: rest => by
      intro pair hpair file hfile
      obtain ⟨hname, hnode⟩ := names_of_mem (List.mem_cons_self (a := (name, node)) (l := rest))
      have hrest : ∀ pair ∈ listingEntries path rest, ∀ file ∈ pair.2,
          file.Placed path (namesIn ((name, node) :: rest)) := by
        intro pair hpair file hfile
        refine (placed_of_mem_listingEntries path rest pair hpair file hfile).mono ?_
        intro x hx
        exact List.mem_cons_of_mem name (List.mem_append_right _ hx)
      unfold listingEntries at hpair
      split at hpair
      · rcases List.mem_cons.mp hpair with rfl | hpair
        · obtain ⟨inner, hinner, rfl⟩ := List.mem_map.mp hfile
          exact ((placed_of_mem_listing (Path.join path name) node inner hinner).mono hnode).through hname
        · exact hrest pair hpair file hfile
      · exact hrest pair hpair file hfile

end

/-- What is found by following names is in the tree. -/
theorem names_of_follow {found : Node} {above : List Node} {names all : List String}
    (h : node.follow above names = .ok found) (hnode : node.names ⊆ all) (habove : ∀ other ∈ above, other.names ⊆ all) :
    found.names ⊆ all := by
  fun_induction follow node above names with
  | case1 node above =>
      cases h
      exact hnode
  | case2 | case4 | case6 | case7 => cases h
  | case3 above name names entries _ ih => exact ih h hnode habove
  | case5 names entries parent rest _ ih =>
      obtain ⟨hparent, hrest⟩ := List.forall_mem_cons.mp habove
      exact ih h hparent hrest
  | case8 above name names entries _ _ _ child hchild ih =>
      have hmem := names_of_mem (Ordered.mem_of_lookup hchild)
      exact ih h (fun x hx => hnode (hmem.2 hx)) (List.forall_mem_cons.mpr ⟨hnode, habove⟩)

theorem at?_eq_some {tree : Node} {path : Path} : tree.at? path = some node ↔ tree.lookup path = .ok node := by
  unfold at?
  cases tree.lookup path with
  | error e => simp [Except.toOption]
  | ok found => simp [Except.toOption]

theorem names_of_at? {tree : Node} {path : Path} (h : tree.at? path = some node) : node.names ⊆ tree.names := by
  have hlookup := at?_eq_some.mp h
  unfold lookup at hlookup
  split at hlookup
  · cases hlookup
  · split at hlookup
    · exact names_of_follow hlookup (List.Subset.refl _) (List.forall_mem_nil _)
    · cases hlookup

/-! ## Files that are selected -/

/-- The path, or that of a directory which leads to it, ends loosely. -/
def LooseWithin (path : List Char) : Prop :=
  ∃ front, Below front path ∧ endsLoosely front

/-- The files that a path names where every directory is entered, before exclusion. -/
def unprunedAt (tree : Node) (filter : FileFilter) (text : String) : List String :=
  match tree.at? (.ofText text) with
  | none => []
  | some (.file _) => [(Path.ofText text).toText]
  | some node =>
    ((node.listing (Path.ofText text).toText).filter fun file => filter.matchesName file.name).map Found.path

/-- The files that some paths name where every directory is entered: those that are not excluded by their own paths,
    each once. -/
def unpruned (tree : Node) (filter : FileFilter) (paths : List String) : List String :=
  (((pathsOrHere paths).flatMap (tree.unprunedAt filter)).filter filter.allows).eraseDups

/-- The files that a path names, and none where it names nothing. -/
def namedAt (tree : Node) (filter : FileFilter) (text : String) : List String :=
  (tree.filesAt filter text).toOption.getD []

variable {tree : Node} {filter : FileFilter}

/-- No directory that leads to an allowed file is excluded. -/
theorem Found.Placed.entered {path : String} {names : List String} {file : Found} (h : file.Placed path names)
    (hallows : filter.allows file.path) (hfile : endsLoosely file.path.toList = false)
    (hpassed : ∀ directory ∈ file.passed, endsLoosely directory.toList = false) : file.passed.all filter.allows := by
  apply List.all_eq_true.mpr
  intro directory hdirectory
  obtain ⟨hbelow, above, name, rfl, _⟩ := h.passed directory hdirectory
  cases hexcluded : isExcluded filter.exclude (Path.join above name) with
  | false => simp [FileFilter.allows, hexcluded]
  | true =>
      have hfileExcluded := isExcluded_below hexcluded (hbelow.trans (below_join file.directory file.name))
        (join_ne_here above name) (hpassed _ hdirectory) hfile
      rw [FileFilter.allows, show isExcluded filter.exclude file.path from hfileExcluded] at hallows
      cases hallows

theorem filesAt_of_file {content : ByteArray} (h : tree.at? (.ofText text) = some (.file content)) :
    tree.filesAt filter text = .ok [(Path.ofText text).toText] := by
  simp only [filesAt, at?_eq_some.mp h]

theorem filesAt_of_dir (h : tree.at? (.ofText text) = some (.dir entries)) : tree.filesAt filter text
      = .ok ((dir entries).walk filter.matchesName filter.allows (Path.ofText text).toText) := by
  simp only [filesAt, at?_eq_some.mp h]

/-- A path that exists names a file, or the files that are found below a directory. -/
theorem namedAt_cases (filter : FileFilter) (h : (tree.at? (.ofText text)).isSome) :
    tree.filesAt filter text = .ok (tree.namedAt filter text)
    ∧ ((∃ content, tree.at? (.ofText text) = some (.file content)
        ∧ tree.namedAt filter text = [(Path.ofText text).toText]
        ∧ tree.unprunedAt filter text = [(Path.ofText text).toText])
      ∨ ∃ files : List Found, (∀ file ∈ files, file.Placed (Path.ofText text).toText tree.names)
        ∧ tree.namedAt filter text
          = (files.filter (Found.isVisited filter.matchesName filter.allows)).map Found.path
        ∧ tree.unprunedAt filter text = (files.filter fun file => filter.matchesName file.name).map Found.path) := by
  obtain ⟨node, hat⟩ := Option.isSome_iff_exists.mp h
  cases node with
  | file content =>
      rw [namedAt, filesAt_of_file hat]
      refine ⟨rfl, .inl ⟨content, hat, rfl, ?_⟩⟩
      simp only [unprunedAt, hat]
  | dir entries =>
      rw [namedAt, filesAt_of_dir hat]
      refine ⟨rfl, .inr ⟨(dir entries).listing (Path.ofText text).toText, ?_, walk_eq_listing _ _ _ _, ?_⟩⟩
      · intro file hfile
        exact (placed_of_mem_listing _ _ file hfile).mono (names_of_at? hat)
      · simp only [unprunedAt, hat]

/-- Nothing is named that is not found where every directory is entered. -/
theorem mem_unprunedAt (h : (tree.at? (.ofText text)).isSome) (hname : name ∈ tree.namedAt filter text) :
    name ∈ tree.unprunedAt filter text := by
  obtain ⟨_, ⟨_, _, hnamed, hunpruned⟩ | ⟨files, _, hnamed, hunpruned⟩⟩ := namedAt_cases filter h
  · rwa [hunpruned, ← hnamed]
  · rw [hnamed] at hname
    rw [hunpruned]
    obtain ⟨file, hfile, rfl⟩ := List.mem_map.mp hname
    obtain ⟨hmem, hvisited⟩ := List.mem_filter.mp hfile
    exact List.mem_map.mpr ⟨file, List.mem_filter.mpr ⟨hmem, (Bool.and_eq_true_iff.mp hvisited).1⟩, rfl⟩

/-- An allowed file is missed only if its path, or that of a directory which leads to it, ends loosely. -/
theorem mem_namedAt (h : (tree.at? (.ofText text)).isSome) (hname : name ∈ tree.unprunedAt filter text)
    (hallows : filter.allows name) (hloose : ¬ LooseWithin name.toList) : name ∈ tree.namedAt filter text := by
  obtain ⟨_, ⟨_, _, hnamed, hunpruned⟩ | ⟨files, hplaced, hnamed, hunpruned⟩⟩ := namedAt_cases filter h
  · rwa [hnamed, ← hunpruned]
  · rw [hunpruned] at hname
    rw [hnamed]
    obtain ⟨file, hfile, rfl⟩ := List.mem_map.mp hname
    obtain ⟨hmem, hmatches⟩ := List.mem_filter.mp hfile
    have hends : ∀ front, Below front file.path.toList → endsLoosely front = false := by
      intro front hfront
      cases hends : endsLoosely front with
      | false => rfl
      | true => exact absurd ⟨front, hfront, hends⟩ hloose
    have hentered : file.passed.all filter.allows := by
      refine (hplaced file hmem).entered hallows (hends _ (.refl _)) ?_
      intro directory hdirectory
      have hbelow := ((hplaced file hmem).passed directory hdirectory).1
      exact hends _ (hbelow.trans (below_join file.directory file.name))
    refine List.mem_map.mpr ⟨file, List.mem_filter.mpr ⟨hmem, ?_⟩, rfl⟩
    rw [Found.isVisited, hmatches, hentered]
    rfl

/-- Where no name ends loosely in a path, no allowed file is missed, and the order is kept. -/
theorem namedAt_filter (hnames : ∀ name ∈ tree.names, endsLoosely ('/' :: name.toList) = false)
    (h : (tree.at? (.ofText text)).isSome) :
    (tree.namedAt filter text).filter filter.allows = (tree.unprunedAt filter text).filter filter.allows := by
  obtain ⟨_, ⟨_, _, hnamed, hunpruned⟩ | ⟨files, hplaced, hnamed, hunpruned⟩⟩ := namedAt_cases filter h
  · rw [hnamed, hunpruned]
  · rw [hnamed, hunpruned, List.filter_map, List.filter_map, List.filter_filter, List.filter_filter]
    congr 1
    apply List.filter_congr
    intro file hfile
    cases hallows : filter.allows file.path with
    | false => simp [hallows]
    | true =>
        have hends : endsLoosely file.path.toList = false := by
          rw [Found.path, endsLoosely_join]
          exact hnames _ (hplaced file hfile).name_mem
        have hentered : file.passed.all filter.allows := by
          refine (hplaced file hfile).entered hallows hends ?_
          intro directory hdirectory
          obtain ⟨_, above, name, rfl, hname⟩ := (hplaced file hfile).passed directory hdirectory
          rw [endsLoosely_join]
          exact hnames name hname
        rw [Found.isVisited, hentered, Bool.and_true]

/-! ## The selection -/

theorem exists_pathsOrHere {paths : List String} (h : ∀ path ∈ paths, (tree.at? (.ofText path)).isSome) :
    ∀ path ∈ pathsOrHere paths, (tree.at? (.ofText path)).isSome := by
  cases paths with
  | nil =>
      intro path hpath
      obtain rfl : path = "." := by simpa [pathsOrHere] using hpath
      rfl
  | cons first rest => exact h

/-- Where the paths exist, the selection is what they name and is allowed, each file once. -/
theorem select_eq_ok (filter : FileFilter) {paths : List String}
    (h : ∀ path ∈ paths, (tree.at? (.ofText path)).isSome) : tree.select filter paths
      = .ok (((pathsOrHere paths).flatMap (tree.namedAt filter)).filter filter.allows).eraseDups := by
  have hpaths := exists_pathsOrHere h
  rw [select, mapM_eq fun path hpath => (namedAt_cases filter (hpaths path hpath)).1]
  rfl

/-- **Pruning.** Where the paths exist, the selection has no file that is not found by entering every directory. It
    misses a file only if a line feed ends the path of the file, or of a directory that leads to it, directly behind a
    separator. If no name in the tree ends so in a path, the selection is the list that is found by entering every
    directory. -/
theorem select_eq_unpruned (tree : Node) (extensions exclude : List String) {paths : List String}
    (hpaths : ∀ path ∈ paths, (tree.at? (.ofText path)).isSome) :
    ∃ files, tree.select (.ofLists extensions exclude) paths = .ok files
      ∧ (∀ name ∈ files, name ∈ tree.unpruned (.ofLists extensions exclude) paths)
      ∧ (∀ name ∈ tree.unpruned (.ofLists extensions exclude) paths, name ∈ files ∨ LooseWithin name.toList)
      ∧ ((∀ name ∈ tree.names, endsLoosely ('/' :: name.toList) = false) →
        files = tree.unpruned (.ofLists extensions exclude) paths) := by
  have hexists := exists_pathsOrHere hpaths
  refine ⟨_, select_eq_ok _ hpaths, ?_, ?_, ?_⟩
  · intro name hname
    rw [List.mem_eraseDups, List.mem_filter, List.mem_flatMap] at hname
    obtain ⟨⟨path, hpath, hname⟩, hallows⟩ := hname
    rw [unpruned, List.mem_eraseDups, List.mem_filter, List.mem_flatMap]
    exact ⟨⟨path, hpath, mem_unprunedAt (hexists path hpath) hname⟩, hallows⟩
  · intro name hname
    rw [unpruned, List.mem_eraseDups, List.mem_filter, List.mem_flatMap] at hname
    obtain ⟨⟨path, hpath, hname⟩, hallows⟩ := hname
    by_cases hloose : LooseWithin name.toList
    · exact .inr hloose
    · refine .inl ?_
      rw [List.mem_eraseDups, List.mem_filter, List.mem_flatMap]
      exact ⟨⟨path, hpath, mem_namedAt (hexists path hpath) hname hallows hloose⟩, hallows⟩
  · intro hnames
    rw [unpruned, List.filter_flatMap, List.filter_flatMap]
    congr 1
    apply congrArg List.flatten
    apply List.map_congr_left
    intro path hpath
    exact namedAt_filter hnames (hexists path hpath)

/-- A tree with a directory that can be excluded. -/
def sampleTree : Node :=
  .dir [
    ("src", .dir [("vendor", .dir [("dep.php", .file ⟨#[]⟩)]), ("index.PHP", .file ⟨#[]⟩)]),
    ("legacy.inc", .file ⟨#[]⟩)]

theorem sampleTree_selects : (∀ path ∈ ["src", "legacy.inc", "src/index.PHP"], (sampleTree.at? (.ofText path)).isSome)
    ∧ sampleTree.select (.ofLists [".php"] ["./src/vendor/"]) ["src", "legacy.inc", "src/index.PHP"]
      = .ok ["src/index.PHP", "legacy.inc"] := by
  have hpaths : ∀ path ∈ ["src", "legacy.inc", "src/index.PHP"], (sampleTree.at? (.ofText path)).isSome :=
    List.all_eq_true.mp (by decide +kernel)
  refine ⟨hpaths, ?_⟩
  obtain ⟨files, hfiles, _, _, hall⟩ := select_eq_unpruned sampleTree [".php"] ["./src/vendor/"] hpaths
  rw [hfiles, hall (by decide +kernel)]
  decide +kernel

/-- A directory whose name is a line feed, in a directory that is not excluded. -/
def looseTree : Node :=
  .dir [("x", .dir [("\n", .dir [("f.php", .file ⟨#[]⟩)])])]

/-- The file is not excluded by its own path, and yet it is missed. -/
theorem looseTree_misses : (looseTree.at? (.ofText ".")).isSome
    ∧ looseTree.select (.ofLists [".php"] ["x\n"]) ["."] = .ok []
    ∧ looseTree.unpruned (.ofLists [".php"] ["x\n"]) ["."] = ["./x/\n/f.php"] := by
  decide +kernel

end Node

end Unassigned
