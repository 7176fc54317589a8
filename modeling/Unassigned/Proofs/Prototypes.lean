import Unassigned.Proofs.CallKeys
import Unassigned.Proofs.ParameterText

/-!
# `Proofs.Prototypes` — a declaration and its prototype

A function that is declared as `function name(P)` can also be configured by the prototype `name(P)`. The two are read
by different rules. In a declaration an ampersand marks a reference only directly before the variable or the ellipsis,
and a position is the number of parameters before it. In a prototype any ampersand before the variable marks a
reference, and a position is the number of commas before it, also of those in default values.

So the prototype of an intersection type `A&B $x` has a reference that the declaration does not have, and a default
value with commas moves the references after it. **Where neither happens the two mean the same**, and without variadic
parameters they mean the same only there (`SourceFile.prototype_of_declaration`).
-/

namespace Unassigned

/-! ## Positions in order -/

/-- Positions that are picked from growing ones are their own set. -/
theorem positionSet_picks {α : Type} {picked : α → Bool} {place : α → Nat} {items : List α}
    (h : items.Pairwise fun x y => place x < place y) :
    positionSet (items.flatMap fun x => if picked x then [(place x : Int)] else [])
      = items.flatMap fun x => if picked x then [(place x : Int)] else [] := by
  refine positionSet_of_ascending (List.pairwise_flatMap.mpr ⟨fun x _ => ?_, h.imp fun {x y} hlt p hp q hq => ?_⟩)
  · split
    · exact List.pairwise_singleton _ _
    · exact .nil
  · split at hp
    · split at hq
      · rw [List.mem_singleton.mp hp, List.mem_singleton.mp hq]
        exact Int.ofNat_lt.mpr hlt
      · cases hq
    · cases hp

section

variable {α : Type} {first second : α → Bool} {place place' : α → Int} {items : List α}

/-- Who picks wherever another one does picks no less. -/
theorem length_picks_le (h : ∀ x ∈ items, first x → second x) :
    (items.flatMap fun x => if first x then [place x] else []).length
      ≤ (items.flatMap fun x => if second x then [place' x] else []).length := by
  induction items with
  | nil => exact Nat.le_refl _
  | cons x rest ih =>
      obtain ⟨hx, hrest⟩ := List.forall_mem_cons.mp h
      have hle := ih hrest
      rw [List.flatMap_cons, List.flatMap_cons, List.length_append, List.length_append]
      by_cases hfirst : first x
      · rw [if_pos hfirst, if_pos (hx hfirst)]
        exact Nat.add_le_add_left hle 1
      · rw [if_neg hfirst, List.length_nil, Nat.zero_add]
        exact Nat.le_trans hle (Nat.le_add_left _ _)

/-- Of two ways to pick positions from a list, the second picks wherever the first one does. If they pick the same
    positions, then they pick at the same places. -/
theorem picks_agree (h : ∀ x ∈ items, first x → second x)
    (heq : (items.flatMap fun x => if first x then [place x] else [])
      = items.flatMap fun x => if second x then [place' x] else []) :
    ∀ x ∈ items, second x → first x ∧ place' x = place x := by
  induction items with
  | nil =>
      intro x hx
      cases hx
  | cons x rest ih =>
      obtain ⟨hx, hrest⟩ := List.forall_mem_cons.mp h
      rw [List.flatMap_cons, List.flatMap_cons] at heq
      by_cases hfirst : first x
      · rw [if_pos hfirst, if_pos (hx hfirst)] at heq
        obtain ⟨hplace, htail⟩ := List.cons.inj heq
        exact List.forall_mem_cons.mpr ⟨fun _ => ⟨hfirst, hplace.symm⟩, ih hrest htail⟩
      · by_cases hsecond : second x
        · -- the second way would pick more
          rw [if_neg hfirst, if_pos hsecond] at heq
          have hle : (rest.flatMap fun x => if first x then [place x] else []).length
              ≤ (rest.flatMap fun x => if second x then [place' x] else []).length := length_picks_le hrest
          have hlengths := congrArg List.length heq
          simp only [List.nil_append, List.length_append, List.length_singleton] at hlengths
          omega
        · rw [if_neg hfirst, if_neg hsecond] at heq
          exact List.forall_mem_cons.mpr ⟨fun hx => absurd hx hsecond, ih hrest heq⟩

end

/-! ## Files -/

namespace SourceFile

variable {fileName source : String} {f : SourceFile}
variable {paren : Nat}

theorem written_of_ofSource (hf : ofSource fileName source = .ok f) : f.Written where
  nested := wellNested_of_ofSource hf
  allows := allows_of_ofSource hf
  spells := token_of_ofSource hf (fun _ _ htext => nomatch htext) fun _ => tokenize_spelled

/-- What stands between the parentheses of a parameter list. -/
def parameterText (f : SourceFile) (paren : Nat) : List Char :=
  f.spelled (paren + 1) (f.skipGroup paren)

/-- The parameter list that opens at a place is plain. -/
def PlainParameters (f : SourceFile) (paren : Nat) : Prop :=
  f.PlainList (f.skipGroup paren) paren

/-- **Every ampersand is a mark and every comma separates**, as far as positions depend on it: a parameter with an
    ampersand before its variable is by reference, and as many commas stand before it as parameters. -/
def ReadsAlike (f : SourceFile) (paren : Nat) : Prop :=
  ∀ entry ∈ (f.arguments paren).zipIdx, f.hasAmpersand entry.1 →
    (f.parameterAt entry.1).isRef ∧ f.commasBefore paren entry.1 = entry.2

instance (paren : Nat) : Decidable (f.ReadsAlike paren) :=
  inferInstanceAs (Decidable (∀ entry ∈ _, _ → _))

/-- The positions that the prototype of a declaration has. -/
def prototypePositions (f : SourceFile) (paren : Nat) : List Int :=
  positionSet <| (f.arguments paren).flatMap fun first =>
    if f.hasAmpersand first then refPositions (f.commasBefore paren first) (f.parameterAt first).isVariadic else []

/-- The parameters with their numbers have the same positions as without. -/
theorem prototypePositions_eq (paren : Nat) : f.prototypePositions paren
    = positionSet ((f.arguments paren).zipIdx.flatMap fun entry => if f.hasAmpersand entry.1
        then refPositions (f.commasBefore paren entry.1) (f.parameterAt entry.1).isVariadic else []) := by
  unfold prototypePositions
  congr 1
  rw [← List.zipIdx_map_fst 0 (f.arguments paren), List.flatMap_map, List.zipIdx_map_fst]

theorem isChar_close (hf : ofSource fileName source = .ok f) (h : f.isChar paren '(') :
    f.isChar (f.skipGroup paren) ')' := by
  have hnested := wellNested_of_ofSource hf
  have hkind := TokenStream.isChar_iff.mp h
  obtain ⟨close, hclose⟩ := hnested.closes (i := paren) (by rw [hkind]; rfl)
  rw [TokenStream.skipGroup_of_closer hclose]
  exact TokenStream.isChar_iff.mpr (hnested.kind_closer hclose (by rw [hkind]; rfl))

/-- The text of a plain parameter list, read as that of a prototype. -/
theorem ofPrototype_parameterText (hf : ofSource fileName source = .ok f) {name : String}
    (hname : Signature.isPlainName name) (hparen : f.isChar paren '(') (hplain : f.PlainParameters paren) :
    Signature.ofPrototype (name ++ "(" ++ String.ofList (f.parameterText paren) ++ ")")
      = .ok { name, refs := f.prototypePositions paren } := by
  have hmarked := hplain.markedPositions_eq (written_of_ofSource hf) (isChar_close hf hparen) 0
  rw [Signature.ofPrototype_parentheses hname, parameterText, hmarked, prototypePositions,
    TokenStream.arguments_eq_elementsAfter]
  simp only [Nat.zero_add]

/-- The texts of the tokens spell the source, if every heredoc is plain. -/
theorem spelled_eq_source (hf : ofSource fileName source = .ok f)
    (hplain : PlainHeredocs (f.tokens.toList.map Token.kind)) : f.spelled 0 f.size = source.toList := by
  obtain ⟨tokens, htokens, hfile⟩ := ofSource_eq_ok hf
  obtain ⟨_, _, hstream⟩ := TokenStream.ofTokens_eq_ok (ofTokens_eq_ok hfile).1
  rw [hstream] at hplain ⊢
  obtain ⟨lexemes, hlexemes, rfl⟩ := exists_of_map_eq_ok htokens
  obtain ⟨read, hread, rfl⟩ := exists_of_map_eq_ok hlexemes
  obtain ⟨new, hnew, hspelling⟩ := scanFile_adds hread
  obtain rfl : new = read.reverse := by simp [hnew]
  have htext := hspelling.spells [] (by simpa using Token.plainHeredocs_ofLexemes hplain)
  rw [List.append_nil] at htext
  rw [TokenStream.spelled_eq_flatMap, ← htext]
  show (Token.ofLexemes {} 1 0 read.reverse).flatMap _ = _
  rw [← List.flatMap_map, Token.text_ofLexemes, List.flatMap_map]
  simp only [String.toList_ofList]

/-- A parameter list and what stands around it are the source. -/
theorem source_eq_append (hf : ofSource fileName source = .ok f)
    (hheredocs : PlainHeredocs (f.tokens.toList.map Token.kind)) (hparen : f.isChar paren '(')
    (hlt : paren < f.skipGroup paren) : source.toList
      = f.spelled 0 paren ++ '(' :: f.parameterText paren ++ ')' :: f.spelled (f.skipGroup paren + 1) f.size := by
  have hwritten := written_of_ofSource hf
  have hclose := isChar_close hf hparen
  have hsize : f.skipGroup paren < f.size := TokenStream.lt_size_of_kind (by simp [TokenStream.isChar_iff.mp hclose])
  have hfirst : f.spelled 0 paren ++ f.spelled paren f.size = f.spelled 0 f.size :=
    TokenStream.spelled_append (Nat.zero_le paren) (by omega)
  have hinside : f.parameterText paren ++ f.spelled (f.skipGroup paren) f.size = f.spelled (paren + 1) f.size :=
    TokenStream.spelled_append hlt (Nat.le_of_lt hsize)
  rw [← spelled_eq_source hf hheredocs, ← hfirst, TokenStream.spelled_cons (show paren < f.size by omega),
    hwritten.text_of_isChar hparen, ← hinside, TokenStream.spelled_cons hsize, hwritten.text_of_isChar hclose]
  simp

/-- In a plain list every reference has its ampersand. -/
theorem hasAmpersand_of_mem (hf : ofSource fileName source = .ok f) (hparen : f.isChar paren '(')
    (hplain : f.PlainParameters paren) {entry : Nat × Nat} (hentry : entry ∈ (f.arguments paren).zipIdx)
    (href : (f.parameterAt entry.1).isRef) : f.hasAmpersand entry.1 := by
  have hvar := hplain.exists_var (isChar_close hf hparen)
  rw [← TokenStream.arguments_eq_elementsAfter] at hvar
  obtain ⟨v, hv⟩ := hvar entry.1 (List.fst_mem_of_mem_zipIdx hentry)
  exact TokenStream.hasAmpersand_of_isRef hv href

theorem positions_eq_of_readsAlike (hf : ofSource fileName source = .ok f) (hparen : f.isChar paren '(')
    (hplain : f.PlainParameters paren) (halike : f.ReadsAlike paren) :
    f.prototypePositions paren = f.referencePositions paren := by
  rw [prototypePositions_eq, referencePositions]
  congr 1
  refine List.flatMap_congr fun entry hentry => ?_
  by_cases hampersand : f.hasAmpersand entry.1
  · obtain ⟨href, hcommas⟩ := halike entry hentry hampersand
    rw [if_pos hampersand, hcommas]
    exact (if_pos href).symm
  · rw [if_neg hampersand]
    exact (if_neg fun href => hampersand (hasAmpersand_of_mem hf hparen hplain hentry href)).symm

/-! ## Without variadic parameters -/

theorem refPositions_of_mem (hvariadic : ∀ first ∈ f.arguments paren, ¬ (f.parameterAt first).isVariadic)
    {entry : Nat × Nat} (hentry : entry ∈ (f.arguments paren).zipIdx) (position : Nat) :
    refPositions position (f.parameterAt entry.1).isVariadic = [(position : Int)] := by
  rw [refPositions, if_neg (hvariadic entry.1 (List.fst_mem_of_mem_zipIdx hentry))]

theorem referencePositions_eq_picks (hvariadic : ∀ first ∈ f.arguments paren, ¬ (f.parameterAt first).isVariadic) :
    f.referencePositions paren = (f.arguments paren).zipIdx.flatMap fun entry =>
      if (f.parameterAt entry.1).isRef then [(entry.2 : Int)] else [] := by
  have hgrow : (f.arguments paren).zipIdx.Pairwise fun x y => x.2 < y.2 := by
    rw [← List.pairwise_map, List.zipIdx_map_snd]
    exact List.pairwise_lt_range'
  rw [← positionSet_picks hgrow, referencePositions]
  congr 1
  refine List.flatMap_congr fun entry hentry => ?_
  dsimp only
  rw [refPositions_of_mem hvariadic hentry]

theorem prototypePositions_eq_picks (hvariadic : ∀ first ∈ f.arguments paren, ¬ (f.parameterAt first).isVariadic)
    (hgrow : (f.arguments paren).Pairwise fun x y => f.commasBefore paren x < f.commasBefore paren y) :
    f.prototypePositions paren = (f.arguments paren).zipIdx.flatMap fun entry =>
      if f.hasAmpersand entry.1 then [(f.commasBefore paren entry.1 : Int)] else [] := by
  rw [← List.zipIdx_map_fst 0 (f.arguments paren), List.pairwise_map] at hgrow
  rw [← positionSet_picks hgrow, prototypePositions_eq]
  congr 1
  refine List.flatMap_congr fun entry hentry => ?_
  rw [refPositions_of_mem hvariadic hentry]

/-- Equal positions are those of the same parameters: both lists of positions are in order, and the prototype has no
    fewer of them. -/
theorem readsAlike_of_positions_eq (hf : ofSource fileName source = .ok f) (hparen : f.isChar paren '(')
    (hplain : f.PlainParameters paren) (hvariadic : ∀ first ∈ f.arguments paren, ¬ (f.parameterAt first).isVariadic)
    (heq : f.prototypePositions paren = f.referencePositions paren) : f.ReadsAlike paren := by
  have hgrow := hplain.pairwise_commasBefore (written_of_ofSource hf) (isChar_close hf hparen)
  rw [← TokenStream.arguments_eq_elementsAfter] at hgrow
  rw [referencePositions_eq_picks hvariadic, prototypePositions_eq_picks hvariadic hgrow] at heq
  intro entry hentry hampersand
  obtain ⟨href, hplace⟩ := picks_agree (fun _ hmem => hasAmpersand_of_mem hf hparen hplain hmem) heq.symm entry hentry
    hampersand
  exact ⟨href, Int.ofNat_inj.mp hplace⟩

/-! ## The two readings -/

/-- **A declaration and its prototype.** In every file that can be parsed, take the last declaration of a function whose
    name can stand in a prototype and whose parameter list is plain. The text of the parameter list is the one in the
    source. The prototype with this text is accepted; it marks the parameters with an ampersand before the variable, at
    the numbers of commas before them, while the declaration marks the references, at the numbers of parameters before
    them. Both mean the same if every ampersand is a mark and every comma separates; without variadic parameters they
    mean the same only then. -/
theorem prototype_of_declaration (hf : ofSource fileName source = .ok f) {name : String} {d : FunctionDecl}
    (hd : f.LastDeclares name d) (hname : Signature.isPlainName name) (hplain : f.PlainParameters d.paramsStart) :
    let paren := d.paramsStart
    (PlainHeredocs (f.tokens.toList.map Token.kind) → source.toList
      = f.spelled 0 paren ++ '(' :: f.parameterText paren ++ ')' :: f.spelled (f.skipGroup paren + 1) f.size)
    ∧ Signature.ofPrototype (name ++ "(" ++ String.ofList (f.parameterText paren) ++ ")")
      = .ok { name, refs := f.prototypePositions paren }
    ∧ f.signatures.lookup name = some { name, refs := f.referencePositions paren }
    ∧ (f.ReadsAlike paren → f.prototypePositions paren = f.referencePositions paren)
    ∧ ((∀ first ∈ f.arguments paren, ¬ (f.parameterAt first).isVariadic) →
        f.prototypePositions paren = f.referencePositions paren → f.ReadsAlike paren) := by
  intro paren
  obtain ⟨_, _, stop, hdeclares⟩ := declares_of_mem hf hd.mem
  have hparen : f.isChar paren '(' := hdeclares.opens
  exact ⟨fun hheredocs => source_eq_append hf hheredocs hparen hplain.lt,
    ofPrototype_parameterText hf hname hparen hplain, lookup_signatures.mpr ⟨d, hd, rfl⟩,
    positions_eq_of_readsAlike hf hparen hplain, readsAlike_of_positions_eq hf hparen hplain⟩

/-- A function with types, references and a default value. -/
def swapDeclaration : String :=
  "<?php function swap(?int $n, A|B &$a, &$b, $c = [1, 2]) \x7b\x7d"

theorem swapDeclaration_run : ∃ f, ofSource "f.php" swapDeclaration = .ok f
    ∧ (f.signatures.lookup "swap").isSome ∧ (f.functions.all fun d => d.paramsStart == 4) ∧ f.skipGroup 4 = 33
    ∧ f.PlainParameter 4 9 5 8 ∧ f.isChar 9 ',' ∧ f.PlainParameter 9 17 11 16 ∧ f.isChar 17 ','
    ∧ f.PlainParameter 17 21 19 20 ∧ f.isChar 21 ',' ∧ f.PlainParameter 21 33 23 23
    ∧ f.parameterText 4 = "?int $n, A|B &$a, &$b, $c = [1, 2]".toList ∧ f.ReadsAlike 4
    ∧ f.referencePositions 4 = [1, 2] :=
  exists_ok_of_decide (by decide +kernel)

/-- The prototype of the function means the same as its declaration. -/
theorem swapDeclaration_prototype : ∃ f d, ofSource "f.php" swapDeclaration = .ok f ∧ f.LastDeclares "swap" d
    ∧ Signature.isPlainName "swap" ∧ f.PlainParameters d.paramsStart
    ∧ Signature.ofPrototype "swap(?int $n, A|B &$a, &$b, $c = [1, 2])" = .ok ⟨"swap", [1, 2], false⟩
    ∧ f.signatures.lookup "swap" = some ⟨"swap", [1, 2], false⟩ := by
  obtain ⟨f, hf, hkey, hparens, hclose, h4, h9, h11, h17, h19, h21, h23, htext, halike, hrefs⟩ := swapDeclaration_run
  obtain ⟨signature, hsignature⟩ := Option.isSome_iff_exists.mp hkey
  obtain ⟨d, hd, _⟩ := lookup_signatures.mp hsignature
  have hparen : d.paramsStart = 4 := by simpa using List.all_eq_true.mp hparens d hd.mem
  have hname : Signature.isPlainName "swap" := by decide
  have hplain : f.PlainParameters d.paramsStart := by
    rw [hparen, PlainParameters, hclose]
    exact .cons h4 h9 (.cons h11 h17 (.cons h19 h21 (.last h23)))
  obtain ⟨_, hprototype, hdeclared, hequal, _⟩ := prototype_of_declaration hf hd hname hplain
  rw [hparen] at hprototype hdeclared hequal
  rw [hequal halike, htext, hrefs] at hprototype
  rw [hrefs] at hdeclared
  exact ⟨f, d, hf, hd, hname, hplain, hprototype, hdeclared⟩

/-- **Where the two differ.** The ampersand of an intersection type makes a reference in the prototype only, and the
    comma in a default value moves the reference after it. -/
theorem prototypes_differ :
    (∃ f, ofSource "f.php" "<?php function f(A&B $x) \x7b\x7d" = .ok f
      ∧ f.signatures.lookup "f" = some ⟨"f", [], false⟩
      ∧ Signature.ofPrototype "f(A&B $x)" = .ok ⟨"f", [0], false⟩)
    ∧ ∃ f, ofSource "f.php" "<?php function f($a = [1, 2], &$b) \x7b\x7d" = .ok f
      ∧ f.signatures.lookup "f" = some ⟨"f", [1], false⟩
      ∧ Signature.ofPrototype "f($a = [1, 2], &$b)" = .ok ⟨"f", [2], false⟩ := by
  have hintersection : ∃ f, ofSource "f.php" "<?php function f(A&B $x) \x7b\x7d" = .ok f
      ∧ f.signatures.lookup "f" = some ⟨"f", [], false⟩ := exists_ok_of_decide (by decide +kernel)
  have hdefault : ∃ f, ofSource "f.php" "<?php function f($a = [1, 2], &$b) \x7b\x7d" = .ok f
      ∧ f.signatures.lookup "f" = some ⟨"f", [1], false⟩ := exists_ok_of_decide (by decide +kernel)
  obtain ⟨f, hf, hlookup⟩ := hintersection
  obtain ⟨g, hg, hlookup'⟩ := hdefault
  exact ⟨⟨f, hf, hlookup, rfl⟩, g, hg, hlookup', rfl⟩

end SourceFile

end Unassigned
