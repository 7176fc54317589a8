import Unassigned.Proofs.Formatting.Layout

/-!
# `Proofs.Formatting.Declarations` — declarations in different layouts

The classes, functions and parameters of a file are those of its code, put in their places. So what a file
knows about a place, the innermost class and function around it (`classAt?`, `functionAt?`), commutes with
the layout. The names under which a call is looked up and the signatures that the file declares hold no
places: they are the same in every layout (`callNames`, `signatures`).
-/

namespace Unassigned

/-- A parameter of the code in a layout. -/
def Parameter.layOut (l : Layout) (p : Parameter) : Parameter :=
  { p with varIndex := p.varIndex.map l.place }

/-- A class of the code in a layout. -/
def ClassDecl.layOut (l : Layout) (d : ClassDecl) : ClassDecl :=
  ⟨d.name, l.place d.keywordIndex, l.place d.bodyStart, l.place d.bodyEnd⟩

/-- A function of the code in a layout. -/
def FunctionDecl.layOut (l : Layout) (d : FunctionDecl) : FunctionDecl where
  name := d.name
  className := d.className
  keywordIndex := l.place d.keywordIndex
  nameIndex := d.nameIndex.map l.place
  paramsStart := l.place d.paramsStart
  bodyStart := d.bodyStart.map l.place
  endIndex := l.place d.endIndex

theorem toOption_bind {ε α β : Type} (x : Except ε α) (next : α → Except ε β) :
    (x >>= next).toOption = x.toOption.bind fun a => (next a).toOption := by
  cases x <;> rfl

theorem toOption_mapM {ε α β : Type} {l : Layout} {g : α → β} {read : Nat → Except ε α}
    {read' : Nat → Except ε β} (hread : ∀ i, (read' (l.place i)).toOption = (read i).toOption.map g)
    (places : List Nat) :
    ((places.map l.place).mapM read').toOption = (places.mapM read).toOption.map (List.map g) := by
  induction places with
  | nil => rfl
  | cons i rest ih =>
      rw [List.map_cons, List.mapM_cons, List.mapM_cons]
      simp only [toOption_bind, hread, ih, Option.bind_map, Option.map_bind, Function.comp_def]
      rfl

namespace TokenStream

variable {f : TokenStream}

theorem parameterFrom_eq (isRef isVariadic : Bool) (i : Nat) : f.parameterFrom isRef isVariadic i
    = if f.kind i == .attributeOpen || f.isChar i '(' || TokenStream.isParameterPart (f.kind i)
          || f.isCharOf i ['?', '|'] || f.isChar i '&' || f.kind i == .ellipsis then
        match f.next? (if f.kind i == .attributeOpen || f.isChar i '(' then f.skipGroup i else i) with
        | none => ⟨none, isRef, isVariadic || f.kind i == .ellipsis⟩
        | some j =>
          f.parameterFrom (isRef || (f.isChar i '&' && (f.kind j == .var || f.kind j == .ellipsis)))
            (isVariadic || f.kind i == .ellipsis) j
      else ⟨if f.kind i == .var then some i else none, isRef, isVariadic⟩ := by
  rw [TokenStream.parameterFrom]
  dsimp only
  generalize f.next? (if f.kind i == .attributeOpen || f.isChar i '(' then f.skipGroup i else i) = next
  cases next <;> rfl

end TokenStream

namespace Layout.Formats

variable {l : Layout} {c f : TokenStream} (h : l.Formats c f)

/-! ## Parameters and headers -/

include h

theorem parameterFrom (isRef isVariadic : Bool) (i : Nat) :
    f.parameterFrom isRef isVariadic (l.place i) = (c.parameterFrom isRef isVariadic i).layOut l := by
  rw [TokenStream.parameterFrom_eq, TokenStream.parameterFrom_eq, h.kind, h.isChar, h.isChar, h.isCharOf]
  split
  · have hnext : f.next? (if c.kind i == .attributeOpen || c.isChar i '(' then f.skipGroup (l.place i)
          else l.place i)
        = (c.next? (if c.kind i == .attributeOpen || c.isChar i '(' then c.skipGroup i else i)).map
          l.place := by
      split
      · rw [h.skipGroup, h.next?]
      · exact h.next? i
    rw [hnext]
    cases hj : c.next? (if c.kind i == .attributeOpen || c.isChar i '(' then c.skipGroup i else i) with
    | none => rfl
    | some j =>
        simp only [Option.map_some, h.kind]
        exact parameterFrom _ _ j
  · split <;> rfl
termination_by c.size - i
decreasing_by
  have hbounds := c.next?_bounds hj
  have hskip := c.le_skipGroup i
  split at hbounds <;> omega

theorem parameterAt (i : Nat) : f.parameterAt (l.place i) = (c.parameterAt i).layOut l :=
  h.parameterFrom false false i

theorem headerEnd? (paren : Nat) : f.headerEnd? (l.place paren) = (c.headerEnd? paren).map l.place := by
  unfold TokenStream.headerEnd?
  simp only [Option.bind_eq_bind, Option.bind_some, Option.bind_none, h.skipGroup, h.next?, h.kind, h.isChar,
    h.isCharOf, h.afterReturnType?, Option.bind_map, Option.map_bind, Function.comp_def,
    apply_ite (Option.map l.place), Option.map_some, Option.map_none]

theorem afterFunctionKeyword? (i : Nat) :
    f.afterFunctionKeyword? (l.place i) = (c.afterFunctionKeyword? i).map l.place := by
  unfold TokenStream.afterFunctionKeyword?
  rw [h.next?]
  cases c.next? i with
  | none => rfl
  | some j =>
      simp only [Option.map_some, h.isChar, h.next?]
      split <;> rfl

theorem functionName? (i : Nat) : f.functionName? (l.place i) = (c.functionName? i).map l.place := by
  unfold TokenStream.functionName?
  rw [h.afterFunctionKeyword?, Option.filter_map]
  simp only [Function.comp_def, h.kind]

theorem functionParen? (i : Nat) :
    f.functionParen? (l.place i) = (c.functionParen? i).map l.place := by
  unfold TokenStream.functionParen?
  rw [h.functionName?]
  cases c.functionName? i with
  | none => exact h.afterFunctionKeyword? i
  | some j => exact h.next? j

/-! ## Classes and functions -/

theorem classAtKeyword (i : Nat) : (f.classAtKeyword (l.place i)).toOption
    = (c.classAtKeyword i).toOption.map (ClassDecl.layOut l) := by
  unfold TokenStream.classAtKeyword
  rw [h.search? (fun j => h.isChar j '(') (fun j => h.isCharOf j ['\x7b', ';'])]
  dsimp only
  cases c.search? (fun j => c.isChar j '(') (fun j => c.isCharOf j ['\x7b', ';']) i with
  | none => rfl
  | some body =>
      simp only [Option.map_some, h.isChar]
      split
      · rfl
      · simp only [Except.toOption, Option.map_some, ClassDecl.layOut, h.next?, h.skipGroup, h.kind, h.text,
          Option.bind_map, Function.comp_def]

theorem classes : f.classes.toOption = c.classes.toOption.map (List.map (ClassDecl.layOut l)) := by
  unfold TokenStream.classes
  have hplaces := h.filter_range
    (p := fun i => TokenStream.isClassKeyword (c.kind i) && !c.prevIs i .doubleColon)
    (q := fun i => TokenStream.isClassKeyword (f.kind i) && !f.prevIs i .doubleColon)
    (fun k => by rw [h.kind, h.prevIs]) ?_
  · rw [hplaces]
    exact toOption_mapM h.classAtKeyword _
  · intro i hi
    have hkind : TokenStream.isClassKeyword (f.kind i) := (Bool.and_eq_true_iff.mp hi).1
    show (f.kind i).isTrivial = false
    revert hkind
    cases f.kind i <;> simp [TokenStream.isClassKeyword, Kind.isTrivial]

theorem innermost? {α β : Type} (g : α → β) (span : α → Nat × Nat) (span' : β → Nat × Nat)
    (hspan : ∀ a, span' (g a) = (l.place (span a).1, l.place (span a).2)) (i : Nat) (items : List α) :
    Unassigned.innermost? span' (l.place i) (items.map g) = (Unassigned.innermost? span i items).map g := by
  unfold Unassigned.innermost?
  rw [List.foldl_map]
  suffices hfold : ∀ best : Option α, items.foldl _ (best.map g) = (items.foldl _ best).map g from hfold none
  induction items with
  | nil => exact fun best => rfl
  | cons item rest ih =>
      intro best
      rw [List.foldl_cons, List.foldl_cons, ← ih]
      congr 1
      have hbest : (best.map g).all (fun other => decide ((span' other).1 ≤ (span' (g item)).1))
          = best.all fun other => decide ((span other).1 ≤ (span item).1) := by
        cases best with
        | none => rfl
        | some other => simp [hspan, h.le_iff]
      rw [hbest, hspan]
      simp only [h.le_iff]
      split <;> rfl

theorem functionAtKeyword (classes : List ClassDecl) (i : Nat) :
    (f.functionAtKeyword (classes.map (ClassDecl.layOut l)) (l.place i)).toOption
      = (c.functionAtKeyword classes i).toOption.map (FunctionDecl.layOut l) := by
  unfold TokenStream.functionAtKeyword
  rw [h.functionParen?]
  cases c.functionParen? i with
  | none => rfl
  | some paren =>
      simp only [Option.map_some, h.isChar, h.headerEnd?]
      split
      · cases c.headerEnd? paren with
        | none => rfl
        | some body =>
            have howner := h.innermost? (ClassDecl.layOut l) (fun d => (d.bodyStart, d.bodyEnd))
              (fun d => (d.bodyStart, d.bodyEnd)) (fun _ => rfl) i classes
            simp only [Option.map_some, h.isChar, h.functionName?, h.skipGroup, howner, Except.toOption]
            cases c.functionName? i with
            | none => split <;> rfl
            | some j =>
                simp only [Option.map_some, Option.bind_some, h.text, FunctionDecl.layOut]
                cases Unassigned.innermost? (fun d : ClassDecl => (d.bodyStart, d.bodyEnd)) i classes <;>
                  split <;> rfl
      · rfl

theorem functions (classes : List ClassDecl) :
    (f.functions (classes.map (ClassDecl.layOut l))).toOption
      = (c.functions classes).toOption.map (List.map (FunctionDecl.layOut l)) := by
  unfold TokenStream.functions
  have hplaces := h.filter_range (p := c.declaresFunction) (q := f.declaresFunction)
    (fun k => by rw [TokenStream.declaresFunction, h.kind, h.prevIs]; rfl) ?_
  · rw [hplaces]
    exact toOption_mapM (h.functionAtKeyword classes) _
  · intro i hi
    have hkind : f.kind i = .keyword .functionWord := by
      simpa using (Bool.and_eq_true_iff.mp hi).1
    show (f.kind i).isTrivial = false
    rw [hkind]
    rfl

end Layout.Formats

/-! ## Files -/

/-- The file `f` is the file `c` in the layout `l`, under whatever name. -/
structure Layout.FormatsFile (l : Layout) (c f : SourceFile) : Prop
    extends l.Formats c.toTokenStream f.toTokenStream where
  classes : f.classes = c.classes.map (ClassDecl.layOut l)
  functions : f.functions = c.functions.map (FunctionDecl.layOut l)

namespace Layout.FormatsFile

variable {l : Layout} {c f : SourceFile} (h : l.FormatsFile c f)

include h

theorem classAt? (i : Nat) : f.classAt? (l.place i) = (c.classAt? i).map (ClassDecl.layOut l) := by
  unfold SourceFile.classAt?
  rw [h.classes]
  exact h.innermost? (ClassDecl.layOut l) _ _ (fun _ => rfl) i c.classes

theorem functionAt? (i : Nat) :
    f.functionAt? (l.place i) = (c.functionAt? i).map (FunctionDecl.layOut l) := by
  unfold SourceFile.functionAt?
  rw [h.functions]
  exact h.innermost? (FunctionDecl.layOut l) _ _ (fun _ => rfl) i c.functions

theorem inClassBody (i : Nat) : f.inClassBody (l.place i) = c.inClassBody i := by
  unfold SourceFile.inClassBody
  rw [h.classAt?, h.functionAt?]
  cases c.classAt? i with
  | none => rfl
  | some d =>
      cases c.functionAt? i with
      | none => rfl
      | some function => simp [ClassDecl.layOut, FunctionDecl.layOut, h.lt_iff]

/-- Two functions of a file are told apart in every layout. -/
theorem functionDecl_inj {d e : FunctionDecl} : d.layOut l = e.layOut l ↔ d = e := by
  constructor
  · intro heq
    have hmap : ∀ {x y : Option Nat}, x.map l.place = y.map l.place → x = y :=
      fun hxy => Option.map_injective (fun _ _ hplace => h.inj.mp hplace) hxy
    simp only [FunctionDecl.layOut, FunctionDecl.mk.injEq, h.inj] at heq
    obtain ⟨hname, hclass, hkeyword, hindex, hparams, hbody, hend⟩ := heq
    exact FunctionDecl.ext hname hclass hkeyword (hmap hindex) hparams (hmap hbody) hend
  · rintro rfl
    rfl

/-! ## Names and signatures of calls -/

theorem classNameAt? (i : Nat) : f.classNameAt? (l.place i) = c.classNameAt? i := by
  unfold SourceFile.classNameAt?
  rw [h.classAt?]
  cases c.classAt? i <;> rfl

theorem receiverClass? (types : List (String × String)) (i operator : Nat) :
    f.receiverClass? types (l.place i) (l.place operator) = c.receiverClass? types i operator := by
  unfold SourceFile.receiverClass?
  simp only [Option.bind_eq_bind, h.prev?, Option.bind_map, Function.comp_def, h.kind, h.text,
    h.classNameAt?, Option.any_map]

theorem qualifierClass? (i operator : Nat) :
    f.qualifierClass? (l.place i) (l.place operator) = c.qualifierClass? i operator := by
  unfold SourceFile.qualifierClass?
  simp only [Option.bind_eq_bind, h.prev?, Option.bind_map, Function.comp_def, h.kind, h.text,
    h.classNameAt?]

/-- **A call is looked up under the same names in every layout.** -/
theorem callNames (types : List (String × String)) (i : Nat) :
    f.callNames types (l.place i) = c.callNames types i := by
  unfold SourceFile.callNames
  rw [h.prev?, h.text]
  cases c.prev? i with
  | none => rfl
  | some operator =>
      simp only [Option.map_some, h.kind, h.receiverClass?, h.qualifierClass?]

theorem referencePositions (paren : Nat) :
    f.referencePositions (l.place paren) = c.referencePositions paren := by
  unfold SourceFile.referencePositions
  rw [h.arguments, List.zipIdx_map, List.flatMap_map]
  simp only [Prod.map, id, h.parameterAt, Parameter.layOut]

theorem signatureKey? (function : FunctionDecl) :
    f.signatureKey? (function.layOut l) = c.signatureKey? function := by
  unfold SourceFile.signatureKey?
  simp only [FunctionDecl.layOut, h.classAt?]
  cases c.classAt? function.keywordIndex with
  | none => rfl
  | some d =>
      obtain ⟨name, _, _, _⟩ := d
      cases name <;> rfl

/-- **A file declares the same signatures in every layout.** -/
theorem signatures : f.signatures = c.signatures := by
  unfold SourceFile.signatures
  rw [h.functions, List.filterMap_map]
  have hparams : ∀ d : FunctionDecl,
      f.referencePositions (d.layOut l).paramsStart = c.referencePositions d.paramsStart :=
    fun d => h.referencePositions d.paramsStart
  simp only [Function.comp_def, h.signatureKey?, hparams]

end Layout.FormatsFile

end Unassigned
