import Unassigned.Proofs.CallKeys
import Unassigned.Proofs.ParameterMarks
import Unassigned.Proofs.PrototypeForms

/-!
# `Proofs.RecordedReferences` — which by-reference parameters a signature records

The signature of a declared function and that of a configured prototype are made by two readers, one of tokens and one
of text. Both come down to the marks of the parameters, by reference and variadic, in order (`referencePositions_eq`,
`ofPrototype_written`), and so record the same (`references_recorded`): **every by-reference parameter** at its own
position, but a variadic one only below `maxVariadicPosition`, and no other parameter unless a by-reference variadic one
comes before it.

A variadic by-reference parameter past that limit is lost (`lateReference_lost`). So is the mark of a declared parameter
whose type has a keyword in its name: the reading of the parameter stops there.
-/

namespace Unassigned

namespace Signature

/-! ## Marks and positions -/

/-- The positions record the parameters with these marks, by reference and variadic. -/
structure Records (marks : List (Bool × Bool)) (refs : List Int) : Prop where
  /-- A by-reference parameter is recorded, a variadic one up to the limit. -/
  reference : ∀ {p : Nat} {isVariadic : Bool}, marks[p]? = some (true, isVariadic) →
    ((p : Int) ∈ refs ↔ (isVariadic → p < maxVariadicPosition))
  /-- Another one is not, if there is no variadic reference before it. -/
  other : ∀ {p : Nat} {isVariadic : Bool}, marks[p]? = some (false, isVariadic) →
    (∀ k < p, marks[k]? ≠ some (true, true)) → (p : Int) ∉ refs

theorem mem_refPositions {position p : Nat} {isVariadic : Bool} : (p : Int) ∈ refPositions position isVariadic
    ↔ if isVariadic then position ≤ p ∧ p < maxVariadicPosition else p = position := by
  cases isVariadic with
  | false => simp only [refPositions, Bool.false_eq_true, if_false, List.mem_singleton, Int.natCast_inj]
  | true =>
      simp only [refPositions, if_true, List.mem_map, List.mem_range]
      constructor
      · rintro ⟨offset, hoffset, heq⟩
        omega
      · rintro ⟨hle, hlt⟩
        exact ⟨p - position, by omega, by omega⟩

/-- The positions come from the by-reference parameters. -/
theorem mem_referencesFrom {marks : List (Bool × Bool)} {q : Int} : q ∈ referencesFrom 0 marks
    ↔ ∃ k isVariadic, marks[k]? = some (true, isVariadic) ∧ q ∈ refPositions k isVariadic := by
  unfold referencesFrom
  rw [List.mem_flatMap]
  constructor
  · rintro ⟨⟨⟨isRef, isVariadic⟩, k⟩, hentry, hq⟩
    cases isRef with
    | false => cases hq
    | true => exact ⟨k, isVariadic, List.mk_mem_zipIdx_iff_getElem?.mp hentry, hq⟩
  · rintro ⟨k, isVariadic, hmark, hq⟩
    exact ⟨((true, isVariadic), k), List.mk_mem_zipIdx_iff_getElem?.mpr hmark, hq⟩

theorem records_referencesFrom (marks : List (Bool × Bool)) :
    Records marks (positionSet (referencesFrom 0 marks)) := by
  constructor
  · intro p isVariadic hp
    rw [mem_positionSet_iff, mem_referencesFrom]
    constructor
    · rintro ⟨k, _ | _, hk, hmem⟩ hvariadic
      · obtain rfl : p = k := mem_refPositions.mp hmem
        cases (Option.some.inj (hk.symm.trans hp) : (true, false) = (true, isVariadic))
        cases hvariadic
      · exact (mem_refPositions.mp hmem).2
    · intro hlimit
      refine ⟨p, isVariadic, hp, mem_refPositions.mpr ?_⟩
      split
      · next hvariadic => exact ⟨Nat.le_refl p, hlimit hvariadic⟩
      · rfl
  · intro p isVariadic hp hearlier hmem
    rw [mem_positionSet_iff, mem_referencesFrom] at hmem
    obtain ⟨k, isVariadic', hk, hmem⟩ := hmem
    have hne : p ≠ k := by
      rintro rfl
      cases hk.symm.trans hp
    cases isVariadic' with
    | false => exact hne (mem_refPositions.mp hmem)
    | true =>
        have hle : k ≤ p := (mem_refPositions.mp hmem).1
        exact hearlier k (by omega) hk

end Signature

namespace SourceFile

variable {f : SourceFile} {d : FunctionDecl} {key : String}

/-! ## The signature of a declared function -/

/-- By reference, and variadic. -/
def parameterMark (f : SourceFile) (first : Nat) : Bool × Bool :=
  ((f.parameterAt first).isRef, (f.parameterAt first).isVariadic)

theorem referencePositions_eq (f : SourceFile) (paren : Nat) : f.referencePositions paren
    = positionSet (Signature.referencesFrom 0 ((f.arguments paren).map f.parameterMark)) := by
  rw [referencePositions, Signature.referencesFrom, List.zipIdx_map, List.flatMap_map]
  rfl

/-- A named function has a key, unless it is a constructor or belongs to an anonymous class. -/
theorem exists_signatureKey? {name : String} (hname : d.name = some name) (hconstruct : Text.lower name ≠ "__construct")
    (hclass : ∀ c, f.classAt? d.keywordIndex = some c → c.name ≠ none) : ∃ key, f.signatureKey? d = some key := by
  unfold signatureKey?
  rw [hname]
  dsimp only
  rw [if_neg hconstruct]
  split
  · next hanonymous => exact absurd rfl (hclass _ hanonymous)
  · split
    · exact ⟨_, rfl⟩
    · exact ⟨_, rfl⟩

/-- Of the functions with a key there is a last one. -/
theorem exists_lastDeclares (hd : d ∈ f.functions) (hkey : f.signatureKey? d = some key) :
    ∃ e, f.LastDeclares key e := by
  unfold LastDeclares
  generalize f.functions = functions at hd
  induction functions generalizing d with
  | nil => cases hd
  | cons first rest ih =>
      by_cases hlater : ∃ e ∈ rest, f.signatureKey? e = some key
      · obtain ⟨e, he, hekey⟩ := hlater
        obtain ⟨last, before, after, hrest, hlast⟩ := ih hekey he
        exact ⟨last, first :: before, after, by rw [hrest]; rfl, hlast⟩
      · obtain rfl : d = first := by
          rcases List.mem_cons.mp hd with rfl | hd
          · rfl
          · exact absurd ⟨d, hd, hkey⟩ hlater
        exact ⟨d, [], rest, rfl, hkey, fun e he hekey => hlater ⟨e, he, hekey⟩⟩

/-- **The only declaration of a key** gives its signature. -/
theorem lookup_signatures_of_once (hd : d ∈ f.functions) (hkey : f.signatureKey? d = some key)
    (honce : ∀ e ∈ f.functions, f.signatureKey? e = some key → e = d) :
    f.signatures.lookup key = some { name := key, refs := f.referencePositions d.paramsStart } := by
  obtain ⟨e, he⟩ := exists_lastDeclares hd hkey
  obtain rfl := honce e he.mem he.key_eq
  exact lookup_signatures.mpr ⟨e, he, rfl⟩

end SourceFile

/-! ## Both readers -/

open Signature

/-- **By-reference parameters are recorded**, for the functions that a file declares and for configured prototypes.

    The marks of a declared parameter are what stands directly before the place where its reading stops. That is the
    variable, if the type before it is one that can be read. -/
theorem references_recorded (fileName source : String) (prototype : PrototypeName)
    (parameters : List PrototypeParameter) :
    (∀ f, SourceFile.ofSource fileName source = .ok f → ∀ d ∈ f.functions, ∀ name, d.name = some name →
      Text.lower name ≠ "__construct" → (∀ c, f.classAt? d.keywordIndex = some c → c.name ≠ none) →
      (∃ key, f.signatureKey? d = some key
        ∧ ((∀ e ∈ f.functions, f.signatureKey? e = some key → e = d) →
          ∃ signature, f.signatures.lookup key = some signature
            ∧ Records ((f.arguments d.paramsStart).map f.parameterMark) signature.refs))
      ∧ ∀ first ∈ f.arguments d.paramsStart, ∀ stop, f.LeadsTo stop first → ¬ f.isLead stop →
        f.EllipsisLast first stop → f.parameterMark first = (f.referenceBefore stop, f.prevIs stop .ellipsis))
    ∧ ∃ signature, ofPrototype (prototypeText prototype parameters) = .ok signature
      ∧ ofText (prototypeText prototype parameters) = .ok signature ∧ signature.name = prototype.key
      ∧ Records (parameters.map PrototypeParameter.mark) signature.refs := by
  refine ⟨?_, ?_⟩
  · intro f hf d hd name hname hconstruct hclass
    refine ⟨?_, ?_⟩
    · obtain ⟨key, hkey⟩ := SourceFile.exists_signatureKey? hname hconstruct hclass
      refine ⟨key, hkey, fun honce => ⟨_, SourceFile.lookup_signatures_of_once hd hkey honce, ?_⟩⟩
      show Records _ (f.referencePositions d.paramsStart)
      rw [f.referencePositions_eq]
      exact records_referencesFrom _
    · intro first hfirst stop hleads hstop hlast
      obtain ⟨_, _, _, hdeclares⟩ := SourceFile.declares_of_mem hf hd
      have hnested := SourceFile.wellNested_of_ofSource hf
      obtain ⟨href, hvariadic⟩ := hnested.marks_of_leadsTo hdeclares.opens hfirst hleads hstop hlast
      exact Prod.ext href hvariadic
  · have hread := ofPrototype_written prototype parameters
    exact ⟨_, hread, (ofText_written prototype parameters).trans hread, rfl, records_referencesFrom _⟩

/-- A method with a reference of an intersection type and a variadic one. -/
def typedReferences : String :=
  "<?php class C \x7b function M(A&B &$a, $b, ?D &...$c) \x7b\x7d \x7d"

theorem typedReferences_run : ∃ f, SourceFile.ofSource "f.php" typedReferences = .ok f
    ∧ f.functions.length = 1 ∧ (f.functions.all fun d => d.name == some "M" && d.paramsStart == 10
      && f.signatureKey? d == some "C::M" && (f.classAt? d.keywordIndex).all fun c : ClassDecl => c.name.isSome)
    ∧ f.arguments 10 = [11, 19, 22] ∧ f.parameterMark 11 = (true, false) ∧ f.parameterMark 19 = (false, false)
    ∧ (f.isLead 22 ∧ f.next? (f.leadEnd 22) = some 23) ∧ (f.isLead 23 ∧ f.next? (f.leadEnd 23) = some 25)
    ∧ (f.isLead 25 ∧ f.next? (f.leadEnd 25) = some 26) ∧ (f.isLead 26 ∧ f.next? (f.leadEnd 26) = some 27)
    ∧ ¬ f.isLead 27 ∧ ((List.range 27).all fun e => f.kind e != .ellipsis || f.next? e == some 27)
    ∧ f.referenceBefore 27 ∧ f.prevIs 27 .ellipsis :=
  exists_ok_of_decide (by decide +kernel)

/-- A plain parameter and a variadic reference. -/
def somePrototype : PrototypeName × List PrototypeParameter :=
  (.function ⟨false, [], ⟨"f", by decide⟩⟩,
    [⟨.none, false, false, ['a'], by decide⟩, ⟨.one, true, true, ['b'], by decide⟩])

/-- The first and the last parameter of the method are recorded, and the one between them is not. -/
theorem typedReferences_recorded :
    (∃ f d signature, SourceFile.ofSource "f.php" typedReferences = .ok f
      ∧ f.functions = [d] ∧ d.name = some "M" ∧ f.signatureKey? d = some "C::M" ∧ 22 ∈ f.arguments d.paramsStart
      ∧ f.LeadsTo 27 22 ∧ f.EllipsisLast 22 27 ∧ f.parameterMark 22 = (true, true)
      ∧ f.signatures.lookup "C::M" = some signature
      ∧ (0 : Int) ∈ signature.refs ∧ (1 : Int) ∉ signature.refs ∧ (2 : Int) ∈ signature.refs)
    ∧ ∃ signature, Signature.ofPrototype "f($a, &...$b)" = .ok signature
      ∧ (0 : Int) ∉ signature.refs ∧ (1 : Int) ∈ signature.refs := by
  obtain ⟨f, hf, hone, hall, harguments, h11, h19, h22, h23, h25, h26, hstop, hellipses, href,
    hvariadic⟩ := typedReferences_run
  obtain ⟨d, hd⟩ := List.length_eq_one_iff.mp hone
  have hmem : d ∈ f.functions := by
    rw [hd]
    exact List.mem_cons_self
  obtain ⟨⟨⟨hname, hparen⟩, hkey⟩, hclass⟩ : ((d.name = some "M" ∧ d.paramsStart = 10)
      ∧ f.signatureKey? d = some "C::M") ∧ (f.classAt? d.keywordIndex).all fun c => c.name.isSome := by
    simpa using List.all_eq_true.mp hall d hmem
  have hnamed : ∀ c, f.classAt? d.keywordIndex = some c → c.name ≠ none := by
    intro c hc hnone
    rw [hc, Option.all_some, hnone] at hclass
    cases hclass
  obtain ⟨hdeclared, signature', hprototype, _, _, hrecords'⟩ :=
    references_recorded "f.php" typedReferences somePrototype.1 somePrototype.2
  obtain ⟨⟨key, hkey', hrecorded⟩, hmarks⟩ := hdeclared f hf d hmem "M" hname (by decide) hnamed
  obtain rfl := Option.some.inj (hkey.symm.trans hkey')
  obtain ⟨signature, hsignature, hrecords⟩ := hrecorded fun e he _ => by simpa [hd] using he
  have hleads : f.LeadsTo 27 22 := .pass h22.1 h22.2 (.pass h23.1 h23.2 (.pass h25.1 h25.2 (.pass h26.1 h26.2 .here)))
  have hlast : f.EllipsisLast 22 27 := by
    intro e _ he hkind
    simpa [hkind] using List.all_eq_true.mp hellipses e (List.mem_range.mpr he)
  have h22mem : 22 ∈ f.arguments d.paramsStart := by simp [hparen, harguments]
  have h22mark : f.parameterMark 22 = (true, true) := by
    rw [hmarks 22 h22mem 27 hleads hstop hlast, href, hvariadic]
  rw [hparen, harguments, List.map_cons, List.map_cons, List.map_cons, List.map_nil, h11, h19, h22mark] at hrecords
  have htext : Signature.prototypeText somePrototype.1 somePrototype.2 = "f($a, &...$b)" := by decide +kernel
  rw [htext] at hprototype
  refine ⟨⟨f, d, signature, hf, hd, hname, hkey, h22mem, hleads, hlast, h22mark, hsignature, ?_, ?_, ?_⟩,
    signature', hprototype, ?_, ?_⟩
  · exact (hrecords.reference (p := 0) rfl).mpr nofun
  · exact hrecords.other (p := 1) rfl (by decide)
  · exact (hrecords.reference (p := 2) rfl).mpr fun _ => by decide
  · exact hrecords'.other (p := 0) rfl (by decide)
  · exact (hrecords'.reference (p := 1) rfl).mpr fun _ => by decide

/-- Ten parameters, and a variadic reference behind them. -/
def lateReference : String :=
  "<?php function f($a, $b, $c, $d, $e, $g, $h, $i, $j, $k, &...$r) \x7b\x7d"

theorem lateReference_run : ∃ f, SourceFile.ofSource "f.php" lateReference = .ok f
    ∧ f.functions.length = 1 ∧ (f.functions.all fun d => (f.arguments d.paramsStart)[10]? == some 35)
    ∧ f.parameterMark 35 = (true, true) ∧ f.referenceBefore 37
    ∧ f.signatures.lookup "f" = some ⟨"f", [], false⟩ :=
  exists_ok_of_decide (by decide +kernel)

/-- A reference to a class that is named with a keyword. -/
def keywordReference : String :=
  "<?php function f(N\\List &$x) \x7b\x7d"

theorem keywordReference_run : ∃ f, SourceFile.ofSource "f.php" keywordReference = .ok f
    ∧ f.functions.length = 1 ∧ (f.functions.all fun d => (f.arguments d.paramsStart)[0]? == some 5)
    ∧ f.kind 10 = .var ∧ f.referenceBefore 10 ∧ f.signatures.lookup "f" = some ⟨"f", [], false⟩ :=
  exists_ok_of_decide (by decide +kernel)

/-- **References that are not recorded.** A variadic reference in the eleventh place is lost by both readers, and a
    declared one if its type is named with a keyword. -/
theorem lateReference_lost :
    (∃ f d, SourceFile.ofSource "f.php" lateReference = .ok f ∧ f.functions = [d]
      ∧ (f.arguments d.paramsStart)[10]? = some 35 ∧ f.parameterMark 35 = (true, true) ∧ f.referenceBefore 37
      ∧ f.signatures.lookup "f" = some ⟨"f", [], false⟩)
    ∧ Signature.ofPrototype "f($a, $b, $c, $d, $e, $g, $h, $i, $j, $k, &...$r)" = .ok ⟨"f", [], false⟩
    ∧ ∃ f d, SourceFile.ofSource "f.php" keywordReference = .ok f ∧ f.functions = [d]
      ∧ (f.arguments d.paramsStart)[0]? = some 5 ∧ f.kind 10 = .var ∧ f.referenceBefore 10
      ∧ f.signatures.lookup "f" = some ⟨"f", [], false⟩ := by
  refine ⟨?_, rfl, ?_⟩
  · obtain ⟨f, hf, hone, hall, hrest⟩ := lateReference_run
    obtain ⟨d, hd⟩ := List.length_eq_one_iff.mp hone
    exact ⟨f, d, hf, hd, by simpa [hd] using hall, hrest⟩
  · obtain ⟨f, hf, hone, hall, hrest⟩ := keywordReference_run
    obtain ⟨d, hd⟩ := List.length_eq_one_iff.mp hone
    exact ⟨f, d, hf, hd, by simpa [hd] using hall, hrest⟩

end Unassigned
