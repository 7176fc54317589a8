import Mathlib.Algebra.Group.Int.Defs
import Mathlib.Data.Finset.Insert
import Unassigned.Proofs.DecimalText
import Unassigned.Proofs.Positions
import Unassigned.Proofs.PrototypeForms

/-!
# `Proofs.SignatureRoundTrip` — configured signatures are read back

A signature can be written in two forms, and each is the inverse of its reading. In the first, a name is followed by
**positions** in decimal notation, in any order and as often as one likes, with white space around the commas
(`positionsText`); what is read back is their set. In the second, a name of the prototype grammar is followed by
**parameters**, of which those with an ampersand are meant (`flagsText`). A text with a parenthesis is read in the
second form, any other in the first.
-/

namespace Unassigned

namespace Signature

variable {name : String}

open Text

/-! ## Names and positions -/

/-- A position with white space around it. -/
structure PositionEntry where
  before : Spacing
  position : Int
  after : Spacing

/-- The text of a position, without the comma. -/
def PositionEntry.chars (entry : PositionEntry) : List Char :=
  entry.before.chars ++ ((toString entry.position).toList ++ entry.after.chars)

/-- A name and the positions of its by-reference arguments, each after a comma. -/
def positionsText (name : String) (gap : Spacing) (entries : List PositionEntry) : String :=
  String.ofList ((name.toList ++ gap.chars) ++ entries.flatMap fun entry => ',' :: entry.chars)

/-- A position has no other characters than white space, a minus sign and digits. -/
theorem PositionEntry.not_mem (entry : PositionEntry) {c : Char} (hblank : isBlank c = false) (hminus : c ≠ '-')
    (hdigit : c.isDigit = false) : c ∉ entry.chars := by
  intro hmem
  rcases List.mem_append.mp hmem with hbefore | hmem
  · exact entry.before.not_mem hblank hbefore
  · rcases List.mem_append.mp hmem with hposition | hafter
    · rcases mem_toString hposition with rfl | hc
      · exact hminus rfl
      · rw [hc] at hdigit
        cases hdigit
    · exact entry.after.not_mem hblank hafter

theorem PositionEntry.stripChars_chars (entry : PositionEntry) :
    stripChars entry.chars = (toString entry.position).toList := by
  rw [chars, stripChars_blank_append entry.before.blank, stripChars_append_blank entry.after.blank,
    stripChars_toString]

/-- The pieces between the commas are the name and the positions. -/
theorem splitAt_entries {first : List Char} (hfirst : ',' ∉ first) (entries : List PositionEntry) :
    splitAt ',' (first ++ entries.flatMap fun entry => ',' :: entry.chars)
      = first :: entries.map PositionEntry.chars := by
  induction entries generalizing first with
  | nil =>
      rw [splitAt_append hfirst (rfl : splitAt ',' _ = [[]]), List.append_nil]
      rfl
  | cons entry entries ih =>
      have hsingle : splitAt ',' first = [first] := by
        have hpieces := splitAt_append hfirst (rfl : splitAt ',' [] = [[]])
        rwa [List.append_nil] at hpieces
      rw [List.flatMap_cons, List.cons_append, splitAt_append_cons, hsingle,
        ih (entry.not_mem (by decide) (by decide) (by decide)), List.map_cons]
      rfl

theorem stripChars_of_strip (h : strip name = name) : stripChars name.toList = name.toList := by
  have hchars := congrArg String.toList h
  rwa [strip, String.toList_ofList] at hchars

/-- Without white space, the pieces are the name and the positions in decimal notation. -/
theorem pieces_positionsText (hcomma : ',' ∉ name.toList) (hstrip : strip name = name) (gap : Spacing)
    (entries : List PositionEntry) : (splitAt ',' (positionsText name gap entries).toList).map stripChars
      = name.toList :: entries.map fun entry => (toString entry.position).toList := by
  have hfirst : ',' ∉ name.toList ++ gap.chars := by
    intro hmem
    rcases List.mem_append.mp hmem with hname | hgap
    · exact hcomma hname
    · exact gap.not_mem (by decide) hgap
  rw [positionsText, String.toList_ofList, splitAt_entries hfirst, List.map_cons, stripChars_append_blank gap.blank,
    stripChars_of_strip hstrip, List.map_map]
  congr 1
  apply List.map_congr_left
  intro entry _
  exact entry.stripChars_chars

/-- The positions are read one by one. -/
theorem mapM_integer? {entries : List PositionEntry}
    (hdigits : ∀ entry ∈ entries, entry.position.natAbs < 10 ^ maxDigits) :
    (entries.map fun entry => (toString entry.position).toList).mapM integer?
      = some (entries.map PositionEntry.position) := by
  induction entries with
  | nil => rfl
  | cons entry entries ih =>
      obtain ⟨hentry, hentries⟩ := List.forall_mem_cons.mp hdigits
      rw [List.map_cons, List.mapM_cons, integer?_toString hentry, ih hentries]
      rfl

/-- **Names and positions are read back**, the positions as a set. -/
theorem ofPositions_written (hname : name ≠ "") (hcomma : ',' ∉ name.toList) (hstrip : strip name = name)
    (gap : Spacing) {entries : List PositionEntry}
    (hdigits : ∀ entry ∈ entries, entry.position.natAbs < 10 ^ maxDigits) :
    ofPositions (positionsText name gap entries)
      = .ok { name, refs := positionSet (entries.map PositionEntry.position) } := by
  have hempty : name.toList.isEmpty = false := by
    simpa using hname
  have hfilter : (entries.map fun entry => (toString entry.position).toList).filter (fun part => !part.isEmpty)
      = entries.map fun entry => (toString entry.position).toList := by
    apply List.filter_eq_self.mpr
    intro part hpart
    obtain ⟨entry, _, rfl⟩ := List.mem_map.mp hpart
    simpa using toString_ne_nil entry.position
  unfold ofPositions
  rw [pieces_positionsText hcomma hstrip]
  dsimp only
  rw [hempty, if_neg Bool.false_ne_true, hfilter, mapM_integer? hdigits, String.ofList_toList]

/-- A text without parenthesis is read as a name and positions. -/
theorem ofText_positionsText (hparen : '(' ∉ name.toList) (gap : Spacing) (entries : List PositionEntry) :
    ofText (positionsText name gap entries) = ofPositions (positionsText name gap entries) := by
  have hnot : '(' ∉ (positionsText name gap entries).toList := by
    rw [positionsText, String.toList_ofList]
    intro hmem
    rcases List.mem_append.mp hmem with hfirst | hrest
    · rcases List.mem_append.mp hfirst with hmem | hmem
      · exact hparen hmem
      · exact gap.not_mem (by decide) hmem
    · obtain ⟨entry, _, hentry⟩ := List.mem_flatMap.mp hrest
      rcases List.mem_cons.mp hentry with hcomma | hentry
      · cases hcomma
      · exact entry.not_mem (by decide) (by decide) (by decide) hentry
  exact if_neg (by simpa using hnot)

/-! ## Names and parameters -/

/-- A prototype whose parameters are `$p0`, `$p1` and so on, with an ampersand where the flag is set. -/
def flagsText (name : PrototypeName) (flags : List Bool) : String :=
  String.ofList name.chars ++ "("
    ++ ", ".intercalate (flags.mapIdx fun i flag => (if flag then "&" else "") ++ "$p" ++ toString i) ++ ")"

/-- The positions where a flag is set, in order. -/
def flaggedPositions (flags : List Bool) : List Int :=
  (flags.zipIdx.filter fun entry => entry.1).map fun entry => (entry.2 : Int)

/-- A flag with its number as a parameter, with white space in front. -/
def flagParameter (lead : Spacing) (entry : Bool × Nat) : PrototypeParameter where
  lead := lead
  isRef := entry.1
  isVariadic := false
  name := 'p' :: (toString entry.2).toList
  comma := by
    intro hmem
    rcases List.mem_cons.mp hmem with hp | hdigit
    · cases hp
    · have hdigit := isDigit_of_mem_toDigits (Nat.toList_repr ▸ hdigit)
      cases hdigit

/-- The parameters of a prototype, with a space before all but the first one. -/
def spacedParameters : List (Bool × Nat) → List PrototypeParameter
  | [] => []
  | entry :: entries => flagParameter .none entry :: entries.map (flagParameter .one)

theorem flagParameter_chars (lead : Spacing) (entry : Bool × Nat) : (flagParameter lead entry).chars
    = lead.chars ++ ((if entry.1 then "&" else "") ++ "$p" ++ toString entry.2).toList := by
  unfold PrototypeParameter.chars PrototypeParameter.marker flagParameter
  cases entry.1 <;> simp

/-- Texts with a comma and a space between them have the space in front of all but the first one. -/
theorem intercalate_space (text : List Char) (texts : List (List Char)) :
    [',', ' '].intercalate (text :: texts) = [','].intercalate (text :: texts.map (' ' :: ·)) := by
  induction texts generalizing text with
  | nil => rw [List.map_nil, List.intercalate_singleton, List.intercalate_singleton]
  | cons other texts ih =>
      have hspace : [','].intercalate ((' ' :: other) :: texts.map (' ' :: ·))
          = ' ' :: [','].intercalate (other :: texts.map (' ' :: ·)) := by
        cases texts <;> simp [List.intercalate_cons_cons]
      rw [List.intercalate_cons_cons, ih, List.map_cons, List.intercalate_cons_cons, hspace]
      simp

/-- **The flags are written as plain parameters.** -/
theorem flagsText_eq (name : PrototypeName) (flags : List Bool) :
    flagsText name flags = prototypeText name (spacedParameters flags.zipIdx) := by
  have hparameters : (", ".intercalate
      (flags.mapIdx fun i flag => (if flag then "&" else "") ++ "$p" ++ toString i)).toList
        = [','].intercalate ((spacedParameters flags.zipIdx).map PrototypeParameter.chars) := by
    rw [String.toList_intercalate, List.mapIdx_eq_zipIdx_map, List.map_map]
    cases flags.zipIdx with
    | nil => rfl
    | cons entry entries =>
        rw [List.map_cons, spacedParameters, List.map_cons, List.map_map, flagParameter_chars]
        show [',', ' '].intercalate _ = _
        rw [intercalate_space, List.map_map]
        congr 2
        apply List.map_congr_left
        intro other _
        exact (flagParameter_chars .one other).symm
  apply String.toList_inj.mp
  rw [flagsText, prototypeText, String.toList_append, String.toList_append, String.toList_append, hparameters]
  simp

theorem mark_spacedParameters (entries : List (Bool × Nat)) :
    (spacedParameters entries).map PrototypeParameter.mark = (entries.map Prod.fst).map fun flag => (flag, false) := by
  cases entries with
  | nil => rfl
  | cons entry entries =>
      rw [spacedParameters, List.map_cons, List.map_map, List.map_cons, List.map_cons, List.map_map]
      rfl

/-- The by-reference parameters are those whose flag is set. -/
theorem referencesFrom_flags (flags : List Bool) (position : Nat) :
    referencesFrom position (flags.map fun flag => (flag, false))
      = ((flags.zipIdx position).filter fun entry => entry.1).map fun entry => (entry.2 : Int) := by
  induction flags generalizing position with
  | nil => rfl
  | cons flag flags ih =>
      rw [List.map_cons, referencesFrom_cons, ih, List.zipIdx_cons]
      cases flag <;> rfl

theorem ascending_flaggedPositions (flags : List Bool) : Ascending (flaggedPositions flags) := by
  have hplaces : flags.zipIdx.Pairwise fun x y => x.2 < y.2 := by
    rw [← List.pairwise_map, List.zipIdx_map_snd]
    exact List.pairwise_lt_range'
  apply List.pairwise_map.mpr
  apply List.Pairwise.filter
  exact hplaces.imp fun {x y} hlt => Int.ofNat_lt.mpr hlt

theorem ofText_flagsText (name : PrototypeName) (flags : List Bool) :
    ofText (flagsText name flags) = .ok { name := name.key, refs := flaggedPositions flags } := by
  have hrefs : positionSet (referencesFrom 0 ((spacedParameters flags.zipIdx).map PrototypeParameter.mark))
      = flaggedPositions flags := by
    rw [mark_spacedParameters, List.zipIdx_map_fst, referencesFrom_flags]
    exact positionSet_of_ascending (ascending_flaggedPositions flags)
  rw [flagsText_eq, ofText_written, ofPrototype_written, hrefs]

/-! ## Both forms -/

/-- **Configured signatures are read back.** A name that is not empty, has no comma in it and no white space at its
    ends, followed by positions in decimal notation of at most `maxDigits` digits, in any order and with repetitions,
    with commas and white space between them, is read as that name with the set of the positions, also in either form
    if the name has no parenthesis in it. A name of the prototype grammar, followed by parameters of which some have an
    ampersand, is read as the name without its namespace with the positions of exactly those parameters. -/
theorem signatures_read_back :
    (∀ (name : String) (gap : Spacing) (entries : List PositionEntry) (S : Finset Int),
      name ≠ "" → ',' ∉ name.toList → strip name = name →
      (∀ p, p ∈ S ↔ p ∈ entries.map PositionEntry.position) → (∀ p ∈ S, p.natAbs < 10 ^ maxDigits) →
      ∃ refs, Ascending refs ∧ (∀ p, p ∈ refs ↔ p ∈ S)
        ∧ ofPositions (positionsText name gap entries) = .ok { name, refs }
        ∧ ('(' ∉ name.toList → ofText (positionsText name gap entries) = .ok { name, refs }))
    ∧ ∀ (name : PrototypeName) (flags : List Bool),
      ofText (flagsText name flags) = .ok { name := name.key, refs := flaggedPositions flags } := by
  refine ⟨?_, ofText_flagsText⟩
  intro name gap entries S hname hcomma hstrip hS hdigits
  have hentries : ∀ entry ∈ entries, entry.position.natAbs < 10 ^ maxDigits := by
    intro entry hentry
    exact hdigits _ ((hS _).mpr (List.mem_map.mpr ⟨entry, hentry, rfl⟩))
  have hread := ofPositions_written hname hcomma hstrip gap hentries
  refine ⟨_, ascending_positionSet _, fun p => ?_, hread, fun hparen => ?_⟩
  · rw [mem_positionSet_iff, hS]
  · rw [ofText_positionsText hparen, hread]

/-- Positions that are out of order and repeated, negative and large. -/
def someEntries : List PositionEntry :=
  [⟨.one, 2 ^ 70, .none⟩, ⟨.none, -1, .one⟩, ⟨.one, 2 ^ 70, .none⟩]

/-- A method of a class in a namespace. -/
def someMethod : PrototypeName :=
  .method ⟨true, [⟨"App", by decide⟩], ⟨"Map", by decide⟩⟩ ⟨"get_2", by decide⟩

theorem someSignatures_read_back :
    positionsText "a b" .one someEntries = "a b , 1180591620717411303424,-1 , 1180591620717411303424"
    ∧ (∃ refs, Ascending refs ∧ (∀ p, p ∈ refs ↔ p ∈ ({-1, 2 ^ 70} : Finset Int))
      ∧ ofText "a b , 1180591620717411303424,-1 , 1180591620717411303424" = .ok ⟨"a b", refs, false⟩)
    ∧ flagsText someMethod [true, false, true] = "\\App\\Map::get_2(&$p0, $p1, &$p2)"
    ∧ ofText "\\App\\Map::get_2(&$p0, $p1, &$p2)" = .ok ⟨"Map::get_2", [0, 2], false⟩ := by
  have htext : positionsText "a b" .one someEntries
      = "a b , 1180591620717411303424,-1 , 1180591620717411303424" := by decide +kernel
  have hflags : flagsText someMethod [true, false, true] = "\\App\\Map::get_2(&$p0, $p1, &$p2)" := by decide +kernel
  have hmembers : ∀ p, p ∈ ({-1, 2 ^ 70} : Finset Int) ↔ p ∈ someEntries.map PositionEntry.position := by
    intro p
    simp only [Finset.mem_insert, Finset.mem_singleton, someEntries, List.map_cons, List.map_nil, List.mem_cons,
      List.not_mem_nil, or_false]
    omega
  have hdigits : ∀ p ∈ ({-1, 2 ^ 70} : Finset Int), p.natAbs < 10 ^ maxDigits := by
    intro p hp
    have hsmall : p.natAbs < 10 ^ 22 := by
      rcases Finset.mem_insert.mp hp with rfl | hp
      · decide
      · rw [Finset.mem_singleton.mp hp]
        decide
    exact Nat.lt_of_lt_of_le hsmall (Nat.pow_le_pow_right (by decide) (by decide))
  obtain ⟨hpositions, hprototypes⟩ := signatures_read_back
  obtain ⟨refs, hascending, hrefs, _, hread⟩ := hpositions "a b" .one someEntries {-1, 2 ^ 70} (by decide) (by decide)
    (by decide) hmembers hdigits
  refine ⟨htext, ⟨refs, hascending, hrefs, ?_⟩, hflags, ?_⟩
  · rw [← htext]
    exact hread (by decide)
  · rw [← hflags, hprototypes]
    rfl

end Signature

end Unassigned
