import Unassigned.Proofs.ParameterReading
import Unassigned.Proofs.PrototypeText
import Unassigned.Proofs.Wording

/-!
# `Proofs.ParameterText` — the text of a declared parameter list

A declaration is read off its tokens, a prototype off its text. For **plain** parameter lists (`PlainList`) the text
can be told from the tokens: its parts are the parameters and the commas between them, and what stands before the
variable of a parameter holds an ampersand or three points only as tokens of their own. Types of all sorts, references,
variadic parameters and default values can be plain, also values with commas in them.

The marked pieces of such a text are the parameters with an ampersand before the variable, each at the number of commas
before it (`PlainList.markedPositions_eq`).
-/

namespace Unassigned

namespace TokenStream

variable {f : TokenStream}
variable {a b first v : Nat}

/-! ## The text between two places -/

/-- The text of the tokens from one place up to, but without, another one. -/
def spelled (f : TokenStream) (a b : Nat) : List Char :=
  (List.range' a (b - a)).flatMap fun j => (f.text j).toList

theorem spelled_append {c : Nat} (hab : a ≤ b) (hbc : b ≤ c) : f.spelled a b ++ f.spelled b c = f.spelled a c := by
  have hlength : c - a = (b - a) + (c - b) := by omega
  have hstart : b = a + (b - a) := by omega
  unfold spelled
  rw [← List.flatMap_append, hlength, ← List.range'_append_1, ← hstart]

theorem spelled_cons (h : a < b) : f.spelled a b = (f.text a).toList ++ f.spelled (a + 1) b := by
  have hlength : b - a = (b - (a + 1)) + 1 := by omega
  unfold spelled
  rw [hlength, List.range'_succ, List.flatMap_cons]

theorem mem_spelled {c : Char} : c ∈ f.spelled a b ↔ ∃ j, a ≤ j ∧ j < b ∧ c ∈ (f.text j).toList := by
  unfold spelled
  rw [List.mem_flatMap]
  constructor
  · rintro ⟨j, hj, hc⟩
    rw [List.mem_range'_1] at hj
    exact ⟨j, hj.1, by omega, hc⟩
  · rintro ⟨j, haj, hjb, hc⟩
    exact ⟨j, List.mem_range'_1.mpr ⟨haj, by omega⟩, hc⟩

/-- The texts of all tokens, one after the other. -/
theorem spelled_eq_flatMap : f.spelled 0 f.size = f.tokens.toList.flatMap fun t => t.text.toList := by
  have htokens : f.tokens.toList = (List.range' 0 f.size).map f.token := by
    refine List.ext_getElem (by simp [size]) fun i hi _ => ?_
    have hlt : i < f.tokens.size := by simpa using hi
    simp [token, hlt]
  rw [htokens, List.flatMap_map]
  rfl

/-- The stream has the brackets and the texts of a source. -/
structure Written (f : TokenStream) : Prop where
  nested : f.WellNested
  allows : ∀ i, (f.kind i).Allows (f.text i).toList
  spells : ∀ i, (f.token i).Spelled

theorem Written.text_of_isChar (hf : f.Written) {i : Nat} {c : Char} (h : f.isChar i c) : (f.text i).toList = [c] := by
  have hspelled := hf.spells i [c] (by rw [show (f.token i).kind = .char c from isChar_iff.mp h]; rfl)
  rw [text, hspelled, String.toList_ofList]

theorem Written.text_of_ellipsis (hf : f.Written) {i : Nat} (h : f.kind i = .ellipsis) :
    (f.text i).toList = ['.', '.', '.'] := by
  have hallows := hf.allows i
  rwa [h] at hallows

/-! ## Plain parameters -/

/-- An ampersand stands between the first token of a parameter and its variable. -/
def hasAmpersand (f : TokenStream) (first : Nat) : Bool :=
  (f.parameterAt first).varIndex.any fun v => (List.range v).any fun j => decide (first ≤ j) && f.isChar j '&'

theorem hasAmpersand_iff (h : (f.parameterAt first).varIndex = some v) :
    f.hasAmpersand first ↔ ∃ j, first ≤ j ∧ j < v ∧ f.isChar j '&' := by
  simp only [hasAmpersand, h, Option.any_some, List.any_eq_true, List.mem_range, Bool.and_eq_true, decide_eq_true_eq]
  constructor
  · rintro ⟨j, hjv, hle, hj⟩
    exact ⟨j, hle, hjv, hj⟩
  · rintro ⟨j, hle, hjv, hj⟩
    exact ⟨j, hjv, hle, hj⟩

theorem hasAmpersand_of_isRef (hvar : (f.parameterAt first).varIndex = some v) (href : (f.parameterAt first).isRef) :
    f.hasAmpersand first := by
  obtain ⟨hleads, hkind⟩ := leadsTo_of_varIndex false false first hvar
  rcases (hleads.isRef_iff_passes (not_isLead_of_var hkind)).mp href with hseen | ⟨a, _, ha, hlt, hamp, _⟩
  · cases hseen
  · exact (hasAmpersand_iff hvar).mpr ⟨a, ha.le, hlt, hamp⟩

/-- The number of commas between a place and a later one, whether or not they separate parameters. -/
def commasBefore (f : TokenStream) (a first : Nat) : Nat :=
  (f.spelled (a + 1) first).count ','

/-- A token at which an element of a list can end. -/
def endsElement (f : TokenStream) (j : Nat) : Bool :=
  f.kind j == .closeTag || f.isCharOf j [',', ')']

/-- A token before the variable at `v`: it has no comma and no dollar sign in it, an ampersand only if it is one, and
    points only if it is the ellipsis directly before the variable. -/
def PlainMarker (f : TokenStream) (v j : Nat) : Prop :=
  ',' ∉ (f.text j).toList ∧ '$' ∉ (f.text j).toList ∧ ('&' ∈ (f.text j).toList → f.isChar j '&')
    ∧ ('.' ∈ (f.text j).toList → f.kind j = .ellipsis ∧ f.next? j = some v)

instance (v j : Nat) : Decidable (f.PlainMarker v j) :=
  inferInstanceAs (Decidable (_ ∧ _ ∧ _ ∧ _))

/-- **A plain parameter** between the places `a` and `b`, with its first token and its variable. After a comma in its
    default value there is no ampersand. -/
structure PlainParameter (f : TokenStream) (a b first v : Nat) : Prop where
  next_eq : f.next? a = some first
  var_eq : (f.parameterAt first).varIndex = some v
  ends : f.searchOutside? f.endsElement a = some b
  lt : v < b
  marker : ∀ j < v, a < j → f.PlainMarker v j
  default : '&' ∉ (f.spelled (v + 1) b).dropWhile (· != ',')

instance (a b first v : Nat) : Decidable (f.PlainParameter a b first v) :=
  decidable_of_iff (f.next? a = some first ∧ (f.parameterAt first).varIndex = some v
      ∧ f.searchOutside? f.endsElement a = some b ∧ v < b ∧ (∀ j < v, a < j → f.PlainMarker v j)
      ∧ '&' ∉ (f.spelled (v + 1) b).dropWhile (· != ','))
    ⟨fun ⟨hnext, hvar, hends, hlt, hmarker, hdefault⟩ => ⟨hnext, hvar, hends, hlt, hmarker, hdefault⟩,
      fun h => ⟨h.next_eq, h.var_eq, h.ends, h.lt, h.marker, h.default⟩⟩

/-- **A plain parameter list** from the place `a` up to its end at `close`: plain parameters with commas between them,
    possibly one more comma, possibly nothing at all. -/
inductive PlainList (f : TokenStream) (close : Nat) : Nat → Prop where
  | nil {a : Nat} : f.next? a = some close → '&' ∉ f.spelled (a + 1) close → PlainList f close a
  | last {a first v : Nat} : f.PlainParameter a close first v → PlainList f close a
  | cons {a b first v : Nat} : f.PlainParameter a b first v → f.isChar b ',' → PlainList f close b → PlainList f close a

namespace PlainParameter

variable {a b first v : Nat}

theorem leadsTo (h : f.PlainParameter a b first v) : f.LeadsTo v first :=
  (leadsTo_of_varIndex false false first h.var_eq).1

theorem isVar (h : f.PlainParameter a b first v) : f.kind v = .var :=
  (leadsTo_of_varIndex false false first h.var_eq).2

/-- The parameter is variadic if its reading comes to an ellipsis. -/
theorem isVariadic_iff (h : f.PlainParameter a b first v) :
    (f.parameterAt first).isVariadic ↔ ∃ e, f.LeadsTo e first ∧ e < v ∧ f.kind e = .ellipsis := by
  rw [parameterAt, h.leadsTo.isVariadic_iff_passes (not_isLead_of_var h.isVar)]
  exact or_iff_right Bool.false_ne_true

theorem lt_first (h : f.PlainParameter a b first v) : a < first :=
  (f.next?_bounds h.next_eq).1

theorem lt_end (h : f.PlainParameter a b first v) : a < b := by
  have hfirst := h.lt_first
  have hle := h.leadsTo.le
  have hlt := h.lt
  omega

theorem not_mem_marker (h : f.PlainParameter a b first v) : ',' ∉ f.spelled (a + 1) v ∧ '$' ∉ f.spelled (a + 1) v := by
  constructor
  · intro hmem
    obtain ⟨j, haj, hjv, hj⟩ := mem_spelled.mp hmem
    exact (h.marker j hjv haj).1 hj
  · intro hmem
    obtain ⟨j, haj, hjv, hj⟩ := mem_spelled.mp hmem
    exact (h.marker j hjv haj).2.1 hj

/-- The ampersands in the text before the variable are tokens of the parameter. -/
theorem ampersand_mem_iff (hf : f.Written) (h : f.PlainParameter a b first v) :
    '&' ∈ f.spelled (a + 1) v ↔ f.hasAmpersand first := by
  rw [hasAmpersand_iff h.var_eq, mem_spelled]
  constructor
  · rintro ⟨j, haj, hjv, hj⟩
    have hchar := (h.marker j hjv haj).2.2.1 hj
    refine ⟨j, ?_, hjv, hchar⟩
    exact le_of_next? h.next_eq haj (isTrivial_of_kind (isChar_iff.mp hchar) rfl)
  · rintro ⟨j, hle, hjv, hchar⟩
    have hlt := h.lt_first
    exact ⟨j, by omega, hjv, by simp [hf.text_of_isChar hchar]⟩

/-- Three points in the text before the variable are the ellipsis of the parameter. -/
theorem hasEllipsis_iff (hf : f.Written) (h : f.PlainParameter a b first v) :
    Signature.hasEllipsis (f.spelled (a + 1) v) ↔ (f.parameterAt first).isVariadic := by
  have hlt := h.lt_first
  rw [Signature.hasEllipsis_iff_infix, h.isVariadic_iff]
  constructor
  · intro hpoints
    obtain ⟨j, haj, hjv, hj⟩ := mem_spelled.mp (hpoints.subset (List.mem_cons_self : '.' ∈ _))
    obtain ⟨hkind, hnext⟩ := (h.marker j hjv haj).2.2.2 hj
    have hsig := isTrivial_of_kind hkind rfl
    have hle := le_of_next? h.next_eq haj hsig
    exact ⟨j, h.leadsTo.of_next? hf.nested hle hsig (by rw [hkind]; rfl) hnext, hjv, hkind⟩
  · rintro ⟨j, hj, hjv, hkind⟩
    have hle := hj.le
    rw [← spelled_append (show a + 1 ≤ j by omega) (Nat.le_of_lt hjv), spelled_cons hjv, hf.text_of_ellipsis hkind]
    exact ⟨_, _, List.append_assoc _ _ _⟩

/-- The text of a parameter is what stands before the variable, the dollar sign, and a rest that a comma can only be in
    as part of the default value. -/
theorem exists_spelled (hf : f.Written) (h : f.PlainParameter a b first v) : ∃ rest,
    f.spelled (a + 1) b = f.spelled (a + 1) v ++ '$' :: rest
      ∧ rest.dropWhile (· != ',') = (f.spelled (v + 1) b).dropWhile (· != ',') := by
  have hallows := hf.allows v
  rw [h.isVar] at hallows
  obtain ⟨name, htext, hname⟩ := hallows
  have hlt := h.lt_first
  have hle := h.leadsTo.le
  refine ⟨name ++ f.spelled (v + 1) b, ?_, ?_⟩
  · rw [← spelled_append (show a + 1 ≤ v by omega) (Nat.le_of_lt h.lt), spelled_cons h.lt, htext]
    rfl
  · refine List.dropWhile_append_of_pos fun c hc => bne_iff_ne.mpr ?_
    rintro rfl
    cases hname ',' hc

/-- **The positions of one parameter** are those that an ampersand before its variable marks. -/
theorem markedPositions_eq (hf : f.Written) (h : f.PlainParameter a b first v) (position : Nat) :
    Signature.markedPositions position (Text.splitAt ',' (f.spelled (a + 1) b))
      = if f.hasAmpersand first then refPositions position (f.parameterAt first).isVariadic else [] := by
  obtain ⟨rest, htext, hrest⟩ := h.exists_spelled hf
  obtain ⟨hcomma, hdollar⟩ := h.not_mem_marker
  have hellipsis : Signature.hasEllipsis (f.spelled (a + 1) v) = (f.parameterAt first).isVariadic :=
    Bool.eq_iff_iff.mpr (h.hasEllipsis_iff hf)
  have hquiet : '&' ∉ rest.dropWhile (· != ',') := by
    rw [hrest]
    exact h.default
  rw [htext, Signature.markedPositions_parameter hcomma hdollar hquiet, hellipsis]
  simp only [h.ampersand_mem_iff hf]

/-- No comma stands before the first token of a parameter. -/
theorem commasBefore_first (h : f.PlainParameter a b first v) : f.commasBefore a first = 0 := by
  refine List.count_eq_zero.mpr fun hmem => h.not_mem_marker.1 ?_
  obtain ⟨j, haj, hjf, hj⟩ := mem_spelled.mp hmem
  have hle := h.leadsTo.le
  exact mem_spelled.mpr ⟨j, haj, by omega, hj⟩

end PlainParameter

/-! ## The elements of a plain list -/

/-- The first tokens of the elements after a place. -/
def elementsAfter (f : TokenStream) (a : Nat) : List Nat :=
  ((f.next? a).map (f.elementsFrom [','] [')'] true)).getD []

theorem arguments_eq_elementsAfter (paren : Nat) : f.arguments paren = f.elementsAfter paren := by
  unfold arguments elements elementsAfter next?
  cases f.nextFrom? (paren + 1) <;> rfl

/-- Behind an index that is passed, as a group or by itself. -/
theorem next?_skip_bounds {p : Prop} [Decidable p] {i j : Nat}
    (h : f.next? (if p then i else f.skipGroup i) = some j) : i < j ∧ j < f.size := by
  have hbounds := f.next?_bounds h
  have hskip := f.le_skipGroup i
  split at hbounds <;> omega

theorem lt_of_mem_elementsFrom {separators terminators : List Char} {fresh : Bool} (i : Nat) {first : Nat}
    (h : first ∈ f.elementsFrom separators terminators fresh i) : i ≤ first := by
  rw [elementsFrom_eq] at h
  split at h
  · cases h
  · rcases List.mem_append.mp h with hhere | hlater
    · split at hhere
      · exact Nat.le_of_eq (List.mem_singleton.mp hhere).symm
      · cases hhere
    · cases hnext : f.next? (if f.isCharOf i separators then i else f.skipGroup i) with
      | none =>
          rw [hnext] at hlater
          cases hlater
      | some j =>
          rw [hnext] at hlater
          have hle := lt_of_mem_elementsFrom j hlater
          have hbounds := next?_skip_bounds hnext
          omega
termination_by f.size - i
decreasing_by
  have hbounds := next?_skip_bounds hnext
  omega

theorem lt_of_mem_elementsAfter (h : first ∈ f.elementsAfter a) : a < first := by
  unfold elementsAfter at h
  cases hnext : f.next? a with
  | none =>
      rw [hnext] at h
      cases h
  | some j =>
      rw [hnext] at h
      have hle := lt_of_mem_elementsFrom j h
      have hbounds := f.next?_bounds hnext
      omega

theorem endsElement_iff {j : Nat} :
    f.endsElement j ↔ f.kind j = .closeTag ∨ f.isCharOf j [')'] ∨ f.isCharOf j [','] := by
  simp only [endsElement, Bool.or_eq_true, beq_iff_eq, isCharOf_iff, List.mem_cons, List.not_mem_nil, or_false]
  grind

/-- Inside an element the list goes on at the element's end. -/
theorem elementsFrom_of_ends (i : Nat) {b : Nat} (h : f.searchOutside? f.endsElement i = some b) :
    ((f.next? i).map (f.elementsFrom [','] [')'] false)).getD [] = f.elementsFrom [','] [')'] false b := by
  cases hnext : f.next? i with
  | none =>
      rw [searchOutside?_of_none hnext] at h
      cases h
  | some j =>
      by_cases hends : f.endsElement j
      · rw [searchOutside?_of_found hnext hends] at h
        obtain rfl := Option.some.inj h
        rfl
      · rw [searchOutside?_of_not_found hnext hends] at h
        rw [endsElement_iff, not_or, not_or] at hends
        obtain ⟨htag, hparen, hcomma⟩ := hends
        rw [Option.map_some, Option.getD_some, elementsFrom_eq, if_neg (by simp [htag, hparen]),
          if_neg (by simp), if_neg hcomma, List.nil_append]
        rw [Bool.not_eq_true] at hcomma
        rw [hcomma]
        exact elementsFrom_of_ends (f.skipGroup j) h
termination_by f.size - i
decreasing_by
  have hbounds := f.next?_bounds hnext
  have hskip := f.le_skipGroup j
  omega

/-- A plain parameter is the first element, and the list goes on at its end. -/
theorem PlainParameter.elementsAfter_eq (h : f.PlainParameter a b first v) :
    f.elementsAfter a = first :: f.elementsFrom [','] [')'] false b := by
  have hends : ¬ f.endsElement first := by
    intro hends
    have hsame := searchOutside?_of_found h.next_eq hends
    rw [h.ends] at hsame
    have hle := h.leadsTo.le
    have hlt := h.lt
    have heq := Option.some.inj hsame
    omega
  have hrest := h.ends
  rw [searchOutside?_of_not_found h.next_eq hends] at hrest
  rw [endsElement_iff, not_or, not_or] at hends
  obtain ⟨htag, hparen, hcomma⟩ := hends
  rw [Bool.not_eq_true] at hcomma
  rw [elementsAfter, h.next_eq, Option.map_some, Option.getD_some, elementsFrom_eq, if_neg (by simp [htag, hparen]),
    hcomma, if_neg Bool.false_ne_true, elementsFrom_of_ends (f.skipGroup first) hrest]
  rfl

theorem elementsFrom_close {close : Nat} (fresh : Bool) (h : f.isChar close ')') :
    f.elementsFrom [','] [')'] fresh close = [] := by
  have hparen : f.isCharOf close [')'] := isCharOf_iff.mpr ⟨')', List.mem_singleton_self _, isChar_iff.mp h⟩
  rw [elementsFrom_eq, if_pos (by simp [hparen])]

theorem elementsAfter_close {close : Nat} (h : f.isChar close ')') (hnext : f.next? a = some close) :
    f.elementsAfter a = [] := by
  rw [elementsAfter, hnext]
  exact elementsFrom_close true h

theorem elementsFrom_comma (h : f.isChar b ',') : f.elementsFrom [','] [')'] false b = f.elementsAfter b := by
  have hkind := isChar_iff.mp h
  have hcomma : f.isCharOf b [','] := isCharOf_iff.mpr ⟨',', List.mem_singleton_self _, hkind⟩
  have hparen : ¬ f.isCharOf b [')'] := by simp [isCharOf_iff, hkind]
  rw [elementsFrom_eq, if_neg (by simp [hparen, hkind]), hcomma]
  rfl

/-- The commas before a later parameter are those of the parameters before it and the ones between them. -/
theorem Written.commasBefore_of_comma (hf : f.Written) (hab : a < b) (hcomma : f.isChar b ',') (hfirst : b < first) :
    f.commasBefore a first = (f.spelled (a + 1) b).count ',' + 1 + f.commasBefore b first := by
  unfold commasBefore
  rw [← spelled_append (show a + 1 ≤ b by omega) (Nat.le_of_lt hfirst), spelled_cons hfirst, hf.text_of_isChar hcomma,
    List.count_append, List.count_append, List.count_singleton_self, Nat.add_assoc]

namespace PlainList

variable {close a : Nat}

theorem lt (h : f.PlainList close a) : a < close := by
  induction h with
  | nil hnext _ => exact (f.next?_bounds hnext).1
  | last hparameter => exact hparameter.lt_end
  | cons hparameter _ _ ih => exact Nat.lt_trans hparameter.lt_end ih

/-- **The marked pieces of a plain list** are its parameters with an ampersand before the variable, each at the number
    of commas before it. -/
theorem markedPositions_eq (hf : f.Written) (hclose : f.isChar close ')') (h : f.PlainList close a) (position : Nat) :
    Signature.markedPositions position (Text.splitAt ',' (f.spelled (a + 1) close))
      = (f.elementsAfter a).flatMap fun first => if f.hasAmpersand first
          then refPositions (position + f.commasBefore a first) (f.parameterAt first).isVariadic else [] := by
  induction h generalizing position with
  | @nil a hnext hquiet =>
      rw [elementsAfter_close hclose hnext, List.flatMap_nil]
      refine Signature.markedPositions_of_not_mem (fun piece hpiece hmem => hquiet ?_) position
      exact Text.mem_of_mem_splitAt hpiece hmem
  | @last a first v hparameter =>
      rw [hparameter.markedPositions_eq hf, hparameter.elementsAfter_eq, elementsFrom_close false hclose,
        List.flatMap_singleton, hparameter.commasBefore_first, Nat.add_zero]
  | @cons a b first v hparameter hcomma hrest ih =>
      have hab := hparameter.lt_end
      have hbc := hrest.lt
      have hlater : ∀ other ∈ f.elementsAfter b, position + f.commasBefore a other
          = position + (f.spelled (a + 1) b).count ',' + 1 + f.commasBefore b other := by
        intro other hother
        rw [hf.commasBefore_of_comma hab hcomma (lt_of_mem_elementsAfter hother)]
        omega
      rw [← spelled_append (show a + 1 ≤ b by omega) (Nat.le_of_lt hbc), spelled_cons hbc, hf.text_of_isChar hcomma,
        List.singleton_append, Text.splitAt_append_cons, Signature.markedPositions_append, Text.length_splitAt,
        hparameter.markedPositions_eq hf, ih, hparameter.elementsAfter_eq, elementsFrom_comma hcomma, List.flatMap_cons,
        hparameter.commasBefore_first, Nat.add_zero, ← Nat.add_assoc]
      congr 1
      refine List.flatMap_congr fun other hother => ?_
      rw [hlater other hother]

/-- Every parameter of a plain list has its variable. -/
theorem exists_var (hclose : f.isChar close ')') (h : f.PlainList close a) :
    ∀ first ∈ f.elementsAfter a, ∃ v, (f.parameterAt first).varIndex = some v := by
  induction h with
  | @nil a hnext hquiet =>
      rw [elementsAfter_close hclose hnext]
      intro first hfirst
      cases hfirst
  | @last a first v hparameter =>
      rw [hparameter.elementsAfter_eq, elementsFrom_close false hclose]
      intro other hother
      obtain rfl := List.mem_singleton.mp hother
      exact ⟨v, hparameter.var_eq⟩
  | @cons a b first v hparameter hcomma hrest ih =>
      rw [hparameter.elementsAfter_eq, elementsFrom_comma hcomma]
      intro other hother
      rcases List.mem_cons.mp hother with rfl | hother
      · exact ⟨v, hparameter.var_eq⟩
      · exact ih other hother

/-- The parameters stand at more and more commas. -/
theorem pairwise_commasBefore (hf : f.Written) (hclose : f.isChar close ')') (h : f.PlainList close a) :
    (f.elementsAfter a).Pairwise fun first other => f.commasBefore a first < f.commasBefore a other := by
  induction h with
  | @nil a hnext hquiet =>
      rw [elementsAfter_close hclose hnext]
      exact .nil
  | @last a first v hparameter =>
      rw [hparameter.elementsAfter_eq, elementsFrom_close false hclose]
      exact List.pairwise_singleton _ _
  | @cons a b first v hparameter hcomma hrest ih =>
      have hab := hparameter.lt_end
      rw [hparameter.elementsAfter_eq, elementsFrom_comma hcomma, List.pairwise_cons]
      constructor
      · intro other hother
        rw [hparameter.commasBefore_first, hf.commasBefore_of_comma hab hcomma (lt_of_mem_elementsAfter hother)]
        omega
      · refine ih.imp_of_mem fun {x y} hx hy hlt => ?_
        rw [hf.commasBefore_of_comma hab hcomma (lt_of_mem_elementsAfter hx),
          hf.commasBefore_of_comma hab hcomma (lt_of_mem_elementsAfter hy)]
        omega

end PlainList

end TokenStream

end Unassigned
