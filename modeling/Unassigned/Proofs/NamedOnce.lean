import Mathlib.Data.List.Nodup
import Unassigned.Proofs.Pruning
import Unassigned.Proofs.Tables

/-!
# `Proofs.NamedOnce` — a file is selected under one name, unless it is found from two sides

A selection lists every name once, but a file can have two names. Found from the working directory, it has a name that
**starts here**, with `./`; found by any other path, it has a name that does not (`startsHere_of_mem_namedAt`). So a
file is listed twice if it is found from both sides, and only then (`select_named_once`).
-/

namespace Unassigned

/-! ## Names that start here -/

/-- The name starts at the working directory. -/
def startsHere (name : String) : Bool :=
  ['.', '/'].isPrefixOf name.toList

/-- A name without the working directory in front. -/
def withoutHere (name : String) : String :=
  if startsHere name then String.ofList (name.toList.drop 2) else name

theorem startsHere_append (name : String) : startsHere ("./" ++ name) := by
  rw [startsHere, String.toList_append, List.isPrefixOf_iff_prefix]
  exact List.prefix_append ['.', '/'] name.toList

theorem withoutHere_append (name : String) : withoutHere ("./" ++ name) = name := by
  rw [withoutHere, if_pos (startsHere_append name), String.toList_append]
  exact String.ofList_toList

variable {name : String}

theorem withoutHere_of_not (h : startsHere name = false) : withoutHere name = name := by
  rw [withoutHere, h]
  rfl

theorem eq_append_of_startsHere (h : startsHere name) : name = "./" ++ withoutHere name := by
  obtain ⟨rest, hrest⟩ := List.isPrefixOf_iff_prefix.mp h
  apply String.toList_inj.mp
  rw [withoutHere, if_pos h, String.toList_append, String.toList_ofList (l := name.toList.drop 2), ← hrest]
  rfl

/-- Two names of one file are one that starts here and the same without that. -/
theorem map_withoutHere_nodup {files : List String} (hfiles : files.Nodup) : (files.map withoutHere).Nodup
    ↔ ∀ name ∈ files, startsHere name = false → "./" ++ name ∉ files := by
  constructor
  · intro hnodup name hname hnot htwice
    have heq : "./" ++ name = name := by
      apply List.inj_on_of_nodup_map hnodup htwice hname
      rw [withoutHere_append, withoutHere_of_not hnot]
    have hhere := startsHere_append name
    rw [heq, hnot] at hhere
    cases hhere
  · intro honce
    refine hfiles.map_on ?_
    intro a ha b hb heq
    cases hhereA : startsHere a with
    | false =>
        cases hhereB : startsHere b with
        | false => rwa [withoutHere_of_not hhereA, withoutHere_of_not hhereB] at heq
        | true =>
            refine absurd hb ?_
            rw [eq_append_of_startsHere hhereB, ← heq, withoutHere_of_not hhereA]
            exact honce a ha hhereA
    | true =>
        cases hhereB : startsHere b with
        | false =>
            refine absurd ha ?_
            rw [eq_append_of_startsHere hhereA, heq, withoutHere_of_not hhereB]
            exact honce b hb hhereB
        | true => rw [eq_append_of_startsHere hhereA, eq_append_of_startsHere hhereB, heq]

/-! ## Paths -/

namespace Path

/-- The working directory. -/
def here : Path where
  names := []

theorem separator_not_mem_of_mem_splitAt {separator : Char} {s piece : List Char}
    (h : piece ∈ Text.splitAt separator s) : separator ∉ piece := by
  induction s generalizing piece with
  | nil =>
      rw [List.mem_singleton.mp h]
      exact List.not_mem_nil
  | cons c s ih =>
      unfold Text.splitAt at h
      split at h
      · rcases List.mem_cons.mp h with rfl | h
        · exact List.not_mem_nil
        · exact ih h
      · next hc =>
          split at h
          · next hnone =>
              rw [List.mem_singleton.mp h, List.mem_singleton]
              exact Ne.symm hc
          · next first pieces hpieces =>
              rw [hpieces] at ih
              rcases List.mem_cons.mp h with rfl | h
              · rw [List.mem_cons, not_or]
                exact ⟨Ne.symm hc, ih List.mem_cons_self⟩
              · exact ih (List.mem_cons_of_mem first h)

/-- A name in a path is a name: it is not empty, does not stay in place and has no slash. -/
theorem name_of_mem {text name : String} (h : name ∈ (ofText text).names) :
    name ≠ "" ∧ name ≠ "." ∧ '/' ∉ name.toList := by
  obtain ⟨hsegment, hname⟩ := List.mem_filter.mp h
  obtain ⟨hempty, hdot⟩ := Bool.and_eq_true_iff.mp hname
  refine ⟨by simpa using hempty, by simpa using hdot, ?_⟩
  obtain ⟨piece, hpiece, rfl⟩ := List.mem_map.mp hsegment
  rw [String.toList_ofList]
  exact separator_not_mem_of_mem_splitAt hpiece

/-- A relative path is the working directory, or its text starts with a name. -/
theorem here_or_prefix {text : String} (hroot : (ofText text).root = "") : ofText text = here
    ∨ ∃ first ∈ (ofText text).names, first.toList <+: (ofText text).toText.toList := by
  cases hnames : (ofText text).names with
  | nil =>
      refine .inl ?_
      show Path.mk (ofText text).root (ofText text).names = here
      rw [hroot, hnames]
      rfl
  | cons first rest =>
      refine .inr ⟨first, List.mem_cons_self, ?_⟩
      rw [toText, hnames, hroot, String.empty_append, List.isEmpty_cons, Bool.false_and, if_neg Bool.false_ne_true,
        String.toList_intercalate, List.map_cons]
      cases rest with
      | nil => exact ⟨[], by rw [List.map_nil, List.intercalate_singleton, List.append_nil]⟩
      | cons second rest =>
          rw [List.map_cons, List.intercalate_cons_cons, List.append_assoc]
          exact List.prefix_append _ _

end Path

/-- What is below the working directory starts here. -/
theorem startsHere_of_below (h : Below ".".toList name.toList) (hne : name ≠ ".") : startsHere name := by
  obtain ⟨rest, hname, hrest | hlast⟩ := h
  · cases rest with
    | nil => exact absurd (String.toList_inj.mp hname) hne
    | cons c rest =>
        rw [startsHere, hname, beq_iff_eq.mp (show c == '/' from hrest)]
        rfl
  · exact absurd hlast (by decide)

/-- What starts with a name does not start here. -/
theorem not_startsHere_of_prefix {first : String} (hfirst : first ≠ "" ∧ first ≠ "." ∧ '/' ∉ first.toList)
    (h : first.toList <+: name.toList) : startsHere name = false := by
  obtain ⟨hempty, hdot, hslash⟩ := hfirst
  obtain ⟨rest, hrest⟩ := h
  rw [startsHere, ← hrest]
  cases hchars : first.toList with
  | nil => exact absurd (String.toList_inj.mp hchars) hempty
  | cons c more =>
      by_cases hc : c = '.'
      · subst hc
        cases more with
        | nil => exact absurd (String.toList_inj.mp hchars) hdot
        | cons d more =>
            rw [hchars] at hslash
            have hd : d ≠ '/' := by
              rintro rfl
              exact hslash (List.mem_cons_of_mem _ List.mem_cons_self)
            simp [List.isPrefixOf, Ne.symm hd]
      · simp [List.isPrefixOf, Ne.symm hc]

/-! ## The selection -/

namespace Node

variable {entries : List (String × Node)} {filter : FileFilter}

theorem root_of_at? {tree : Node} {path : Path} (h : (tree.at? path).isSome) : path.root = "" := by
  obtain ⟨node, hat⟩ := Option.isSome_iff_exists.mp h
  have hlookup := at?_eq_some.mp hat
  unfold lookup at hlookup
  split at hlookup
  · cases hlookup
  · split at hlookup
    · assumption
    · cases hlookup

/-- The names that a path gives are below its own text, and none of them is `.`. -/
theorem below_of_mem_namedAt {text name : String} (h : ((dir entries).at? (.ofText text)).isSome)
    (hname : name ∈ (dir entries).namedAt filter text) : Below (Path.ofText text).toText.toList name.toList
      ∧ (Path.ofText text = .here → name ≠ ".") := by
  obtain ⟨_, ⟨content, hat, hnamed, _⟩ | ⟨files, hplaced, hnamed, _⟩⟩ := namedAt_cases filter h
  · rw [hnamed, List.mem_singleton] at hname
    subst hname
    refine ⟨.refl _, ?_⟩
    -- the working directory is not a file
    intro hhere
    rw [hhere] at hat
    cases hat
  · rw [hnamed] at hname
    obtain ⟨file, hfile, rfl⟩ := List.mem_map.mp hname
    have hbelow := (hplaced file (List.mem_of_mem_filter hfile)).below
    exact ⟨hbelow.trans (below_join file.directory file.name), fun _ => join_ne_here file.directory file.name⟩

theorem startsHere_of_mem_namedAt {text name : String} (h : ((dir entries).at? (.ofText text)).isSome)
    (hname : name ∈ (dir entries).namedAt filter text) : startsHere name ↔ Path.ofText text = .here := by
  obtain ⟨hbelow, hne⟩ := below_of_mem_namedAt h hname
  constructor
  · intro hstarts
    rcases Path.here_or_prefix (root_of_at? h) with hhere | ⟨first, hfirst, hlead⟩
    · exact hhere
    · obtain ⟨rest, hrest, _⟩ := hbelow
      have hnot := not_startsHere_of_prefix (Path.name_of_mem hfirst)
        (hlead.trans (hrest ▸ List.prefix_append _ rest))
      rw [hnot] at hstarts
      cases hstarts
  · intro hhere
    rw [hhere] at hbelow
    exact startsHere_of_below hbelow (hne hhere)

/-- Where no path is given, the working directory is the only one. -/
theorem one_side_pathsOrHere {paths : List String}
    (h : (∀ path ∈ paths, Path.ofText path = .here) ∨ ∀ path ∈ paths, Path.ofText path ≠ .here) :
    (∀ path ∈ pathsOrHere paths, Path.ofText path = .here) ∨ ∀ path ∈ pathsOrHere paths, Path.ofText path ≠ .here := by
  cases paths with
  | nil =>
      refine .inl ?_
      intro path hpath
      rw [List.mem_singleton.mp hpath]
      decide
  | cons first rest => exact h

/-- **Every file once.** Where the paths exist, the selection lists no name twice. A name in it starts here if it is
    found from the working directory, and does not if it is found by another path. The selection lists no file twice,
    under two names, unless it lists one both ways; so it never does if all paths are the working directory, or none
    is. -/
theorem select_named_once (entries : List (String × Node)) (filter : FileFilter) {paths : List String}
    (hpaths : ∀ path ∈ paths, ((dir entries).at? (.ofText path)).isSome) :
    ∃ files, (dir entries).select filter paths = .ok files
      ∧ files.Nodup
      ∧ (∀ name ∈ files, ∃ path ∈ pathsOrHere paths, name ∈ (dir entries).namedAt filter path
        ∧ (startsHere name ↔ Path.ofText path = .here))
      ∧ ((files.map withoutHere).Nodup ↔ ∀ name ∈ files, startsHere name = false → "./" ++ name ∉ files)
      ∧ ((∀ path ∈ paths, Path.ofText path = .here) ∨ (∀ path ∈ paths, Path.ofText path ≠ .here) →
        (files.map withoutHere).Nodup) := by
  have hexists := exists_pathsOrHere hpaths
  have hfound : ∀ name ∈ (((pathsOrHere paths).flatMap ((dir entries).namedAt filter)).filter filter.allows).eraseDups,
      ∃ path ∈ pathsOrHere paths, name ∈ (dir entries).namedAt filter path
        ∧ (startsHere name ↔ Path.ofText path = .here) := by
    intro name hname
    rw [List.mem_eraseDups, List.mem_filter, List.mem_flatMap] at hname
    obtain ⟨⟨path, hpath, hname⟩, _⟩ := hname
    exact ⟨path, hpath, hname, startsHere_of_mem_namedAt (hexists path hpath) hname⟩
  have hnodup := Ordered.nodup_eraseDups
    (((pathsOrHere paths).flatMap ((dir entries).namedAt filter)).filter filter.allows)
  refine ⟨_, select_eq_ok filter hpaths, hnodup, hfound, map_withoutHere_nodup hnodup, ?_⟩
  intro hside
  refine (map_withoutHere_nodup hnodup).mpr ?_
  intro name hname hnot htwice
  obtain ⟨first, hfirst, _, hfirstHere⟩ := hfound name hname
  obtain ⟨second, hsecond, _, hsecondHere⟩ := hfound _ htwice
  rw [hnot] at hfirstHere
  rcases one_side_pathsOrHere hside with hall | hnone
  · exact Bool.false_ne_true (hfirstHere.mpr (hall first hfirst))
  · exact hnone second hsecond (hsecondHere.mp (startsHere_append name))

/-- A tree with one file. -/
def deepTree : List (String × Node) :=
  [("src", .dir [("a.php", .file ⟨#[]⟩)])]

theorem deepTree_named_once : (∀ path ∈ ["src", "./src//a.php"], ((dir deepTree).at? (.ofText path)).isSome)
    ∧ ∃ files, (dir deepTree).select (.ofLists [".php"] []) ["src", "./src//a.php"] = .ok files
      ∧ (files.map withoutHere).Nodup := by
  have hpaths : ∀ path ∈ ["src", "./src//a.php"], ((dir deepTree).at? (.ofText path)).isSome :=
    List.all_eq_true.mp (by decide +kernel)
  obtain ⟨files, hfiles, _, _, _, honce⟩ := select_named_once deepTree (.ofLists [".php"] []) hpaths
  exact ⟨hpaths, files, hfiles, honce (.inr (by decide +kernel))⟩

/-- Found from the working directory and from below, a file is listed under two names. -/
theorem deepTree_named_twice : (∀ path ∈ [".", "src"], ((dir deepTree).at? (.ofText path)).isSome)
    ∧ (dir deepTree).select (.ofLists [".php"] []) [".", "src"] = .ok ["./src/a.php", "src/a.php"]
    ∧ ¬ (["./src/a.php", "src/a.php"].map withoutHere).Nodup := by
  decide +kernel

end Node

end Unassigned
