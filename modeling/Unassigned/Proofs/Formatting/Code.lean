import Unassigned.Proofs.Formatting.Declarations

/-!
# `Proofs.Formatting.Code` — the code of a file

The code of a file is the list of the kinds and texts of its significant tokens. A file can be made from the
code alone (`codeTokens`), and a file that can be parsed is that file in a layout: the layout is read off
the file (`TokenStream.layout`), and `exists_formatsFile` says that brackets, classes and functions are
those of the code.
-/

namespace Unassigned

/-- The kinds and texts of the significant tokens. -/
def codeOf (tokens : List Token) : List (Kind × String) :=
  (tokens.filter fun t => !t.isTrivial).map fun t => (t.kind, t.text)

/-- The tokens of some code, with nothing between them. -/
def codeTokens (code : List (Kind × String)) : List Token :=
  code.zipIdx.map fun (entry, k) => ⟨entry.1, entry.2, 0, k⟩

theorem codeTokens_getElem? (code : List (Kind × String)) (k : Nat) :
    (codeTokens code)[k]? = code[k]?.map fun entry => ⟨entry.1, entry.2, 0, k⟩ := by
  unfold codeTokens
  rw [List.getElem?_map, List.getElem?_zipIdx, Option.map_map, Nat.zero_add]
  rfl

theorem length_codeTokens (code : List (Kind × String)) : (codeTokens code).length = code.length := by
  unfold codeTokens
  rw [List.length_map, List.length_zipIdx]

theorem codeTokens_numbered (code : List (Kind × String)) : NumberedFrom 0 (codeTokens code) := by
  intro k t hk
  rw [codeTokens_getElem?] at hk
  obtain ⟨entry, _, rfl⟩ := Option.map_eq_some_iff.mp hk
  exact (Nat.zero_add k).symm

/-! ## Brackets -/

/-- White space and comments are no brackets. -/
theorem pairBrackets_filter (opened tokens : List Token) :
    pairBrackets opened (tokens.filter fun t => !t.isTrivial) = pairBrackets opened tokens := by
  induction tokens generalizing opened with
  | nil => rfl
  | cons t rest ih =>
      cases htrivial : t.isTrivial with
      | false =>
          rw [List.filter_cons_of_pos (by simp [htrivial])]
          unfold pairBrackets
          simp only [ih]
      | true =>
          rw [List.filter_cons_of_neg (by simp [htrivial]), ih]
          have hkind : t.kind.closer? = none ∧ t.kind.closing? = none := by
            unfold Token.isTrivial at htrivial
            cases hk : t.kind <;> simp [hk, Kind.isTrivial, Kind.closer?, Kind.closing?] at htrivial ⊢
          conv => rhs; unfold pairBrackets
          rw [hkind.1, hkind.2]

/-- Brackets pair up in the same way in every layout. -/
theorem pairBrackets_layOut (l : Layout) (opened tokens : List Token) :
    (pairBrackets (opened.map (Token.layOut l)) (tokens.map (Token.layOut l))).toOption
      = (pairBrackets opened tokens).toOption.map (List.map (Prod.map l.place l.place)) := by
  induction tokens generalizing opened with
  | nil => cases opened <;> rfl
  | cons t rest ih =>
      have hkind : (t.layOut l).kind = t.kind := rfl
      rw [List.map_cons]
      unfold pairBrackets
      rw [hkind]
      split
      next => exact ih (t :: opened)
      next c hcloser hclosing =>
        cases opened with
        | nil => rfl
        | cons opener below =>
            have hopener : (opener.layOut l).kind = opener.kind := rfl
            have hbelow := ih below
            rw [List.map_cons]
            dsimp only
            rw [hopener]
            split
            · generalize pairBrackets (below.map (Token.layOut l)) (rest.map (Token.layOut l)) = result'
                at hbelow ⊢
              generalize pairBrackets below rest = result at hbelow ⊢
              cases result <;> cases result' <;> simp [Except.toOption, Except.map] at hbelow ⊢
              exact ⟨⟨rfl, rfl⟩, hbelow⟩
            · rfl
      next => exact ih opened

/-! ## The layout of a file -/

namespace TokenStream

variable (f : TokenStream)

/-- The places of the significant tokens. -/
def codePlaces : List Nat :=
  (List.range f.size).filter fun i => !(f.token i).isTrivial

/-- Where the code stands in a file; behind it the places just go on. -/
def layout : Layout where
  place k := f.codePlaces.getD k (f.size + (k - f.codePlaces.length))
  line k := (f.token (f.codePlaces.getD k (f.size + (k - f.codePlaces.length)))).line

variable {f}
variable {i : Nat} {c : TokenStream}

theorem mem_codePlaces : i ∈ f.codePlaces ↔ i < f.size ∧ (f.token i).isTrivial = false := by
  simp [codePlaces]

theorem place_of_getElem? {k : Nat} (h : f.codePlaces[k]? = some i) : f.layout.place k = i := by
  show f.codePlaces.getD k _ = i
  rw [List.getD_eq_getElem?_getD, h, Option.getD_some]

theorem place_of_le {k : Nat} (h : f.codePlaces.length ≤ k) :
    f.layout.place k = f.size + (k - f.codePlaces.length) := by
  show f.codePlaces.getD k _ = _
  rw [List.getD_eq_getElem?_getD, List.getElem?_eq_none h, Option.getD_none]

theorem layout_mono {j : Nat} (hij : i < j) : f.layout.place i < f.layout.place j := by
  have hsorted : f.codePlaces.Pairwise (· < ·) := List.pairwise_lt_range.filter _
  by_cases hj : j < f.codePlaces.length
  · have hi : i < f.codePlaces.length := by omega
    rw [place_of_getElem? (List.getElem?_eq_getElem hi), place_of_getElem? (List.getElem?_eq_getElem hj)]
    exact List.pairwise_iff_getElem.mp hsorted i j hi hj hij
  · rw [place_of_le (show f.codePlaces.length ≤ j by omega)]
    by_cases hi : i < f.codePlaces.length
    · rw [place_of_getElem? (List.getElem?_eq_getElem hi)]
      have := (mem_codePlaces.mp (List.getElem_mem hi)).1
      omega
    · rw [place_of_le (by omega)]
      omega

theorem layout_onto (hsig : (f.token i).isTrivial = false) : ∃ k, f.layout.place k = i := by
  by_cases hi : i < f.size
  · obtain ⟨k, hk⟩ := List.mem_iff_getElem?.mp (mem_codePlaces.mpr ⟨hi, hsig⟩)
    exact ⟨k, place_of_getElem? hk⟩
  · refine ⟨f.codePlaces.length + (i - f.size), ?_⟩
    rw [place_of_le (by omega)]
    omega

theorem token_of_size_le (hi : f.size ≤ i) : f.token i = ⟨.inlineHtml, "", 0, i⟩ := by
  unfold token
  rw [Array.getD_eq_getD_getElem?, Array.getElem?_eq_none hi, Option.getD_none]

variable (f)

theorem toList_tokens : f.tokens.toList = (List.range f.size).map f.token := by
  refine List.ext_getElem? fun i => ?_
  rw [List.getElem?_map, Array.getElem?_toList]
  by_cases hi : i < f.size
  · rw [List.getElem?_range hi, Option.map_some, token, Array.getD_eq_getD_getElem?,
      Array.getElem?_eq_getElem hi, Option.getD_some]
  · rw [Array.getElem?_eq_none (by unfold size at hi; omega), List.getElem?_eq_none (by simpa using hi),
      Option.map_none]

theorem filter_tokens : f.tokens.toList.filter (fun t => !t.isTrivial) = f.codePlaces.map f.token := by
  rw [toList_tokens, List.filter_map]
  rfl

/-- The code of a file, by the places of its significant tokens. -/
theorem codeOf_tokens : codeOf f.tokens.toList = f.codePlaces.map fun i => (f.kind i, f.text i) := by
  rw [codeOf, filter_tokens, List.map_map]
  rfl

theorem length_code : (codeTokens (codeOf f.tokens.toList)).length = f.codePlaces.length := by
  rw [length_codeTokens, codeOf_tokens, List.length_map]

variable {f}

/-- The tokens of the code, put in their places, are the significant tokens of the file. -/
theorem codeTokens_layOut (hindex : ∀ i, (f.token i).index = i) :
    (codeTokens (codeOf f.tokens.toList)).map (Token.layOut f.layout)
      = f.tokens.toList.filter fun t => !t.isTrivial := by
  refine List.ext_getElem? fun k => ?_
  rw [filter_tokens, List.getElem?_map, List.getElem?_map, codeTokens_getElem?, codeOf_tokens,
    List.getElem?_map]
  cases hk : f.codePlaces[k]? with
  | none => rfl
  | some i =>
      have hplace : f.layout.place k = i := place_of_getElem? hk
      have hline : f.layout.line k = (f.token i).line := by
        rw [← hplace]
        rfl
      simp only [Option.map_some, Token.layOut, hplace, hline]
      exact congrArg some (Token.ext rfl rfl rfl (hindex i).symm)

/-- The code alone can be read if the file can, with the brackets in their places. -/
theorem pairBrackets_code (hindex : ∀ i, (f.token i).index = i) {pairs : List (Nat × Nat)}
    (hpairs : pairBrackets [] f.tokens.toList = .ok pairs) :
    ∃ pairs', pairBrackets [] (codeTokens (codeOf f.tokens.toList)) = .ok pairs'
      ∧ pairs = pairs'.map (Prod.map f.layout.place f.layout.place) := by
  have hmap := pairBrackets_layOut f.layout [] (codeTokens (codeOf f.tokens.toList))
  rw [List.map_nil, codeTokens_layOut hindex, pairBrackets_filter, hpairs] at hmap
  cases hcode : pairBrackets [] (codeTokens (codeOf f.tokens.toList)) with
  | error e => simp [hcode, Except.toOption] at hmap
  | ok pairs' => exact ⟨pairs', rfl, by simpa [hcode, Except.toOption] using hmap⟩

theorem isTrivial_place (k : Nat) : (f.token (f.layout.place k)).isTrivial = false := by
  by_cases hk : k < f.codePlaces.length
  · rw [place_of_getElem? (List.getElem?_eq_getElem hk)]
    exact (mem_codePlaces.mp (List.getElem_mem hk)).2
  · rw [token_of_size_le (by rw [place_of_le (by omega)]; omega)]
    rfl

/-- Each token of the code is found at its place in the file. -/
theorem token_place (hindex : ∀ i, (f.token i).index = i)
    (hcode : c.tokens.toList = codeTokens (codeOf f.tokens.toList)) (k : Nat) :
    f.token (f.layout.place k) = (c.token k).layOut f.layout := by
  by_cases hk : k < f.codePlaces.length
  · have hmap := congrArg (·[k]?) (codeTokens_layOut hindex)
    have hc : k < c.size := by rw [size, ← Array.length_toList, hcode, length_code]; exact hk
    rw [← hcode, filter_tokens, toList_tokens, List.map_map] at hmap
    simpa [hc, place_of_getElem? (List.getElem?_eq_getElem hk), hk] using hmap.symm
  · have hc : c.size ≤ k := by rw [size, ← Array.length_toList, hcode, length_code]; omega
    have hplace : f.size ≤ f.layout.place k := by rw [place_of_le (by omega)]; omega
    have hline : f.layout.line k = (f.token (f.layout.place k)).line := rfl
    rw [token_of_size_le hc, token_of_size_le hplace]
    rw [token_of_size_le hplace] at hline
    exact Token.ext rfl rfl hline.symm rfl

theorem size_code (hcode : c.tokens.toList = codeTokens (codeOf f.tokens.toList)) :
    f.layout.place c.size = f.size := by
  have hsize : c.size = f.codePlaces.length := by
    rw [size, ← Array.length_toList, hcode, length_code]
  rw [place_of_le (Nat.le_of_eq hsize.symm), hsize, Nat.sub_self, Nat.add_zero]

/-- Brackets that pair up in the code pair up at their places. -/
theorem closer_place {pairs : List (Nat × Nat)} (hc : ∀ {i k : Nat}, c.closer? i = some k ↔ (i, k) ∈ pairs)
    (hf : ∀ {i k : Nat}, f.closer? i = some k ↔ (i, k) ∈ pairs.map (Prod.map f.layout.place f.layout.place)) (k : Nat) :
    f.closer? (f.layout.place k) = (c.closer? k).map f.layout.place := by
  refine Option.ext fun j => ?_
  rw [hf, List.mem_map, Option.map_eq_some_iff]
  constructor
  · rintro ⟨⟨i, m⟩, hmem, heq⟩
    obtain ⟨hi, rfl⟩ := Prod.mk.inj heq
    obtain rfl : i = k := by
      rcases Nat.lt_trichotomy i k with hik | hik | hki
      · have := layout_mono (f := f) hik
        omega
      · exact hik
      · have := layout_mono (f := f) hki
        omega
    exact ⟨m, hc.mpr hmem, rfl⟩
  · rintro ⟨m, hm, rfl⟩
    exact ⟨(k, m), hc.mp hm, rfl⟩

/-- **A file is its code in a layout.** -/
theorem exists_formats {tokens : List Token} (hnumbered : NumberedFrom 0 tokens)
    (hf : TokenStream.ofTokens tokens = .ok f) :
    ∃ c, TokenStream.ofTokens (codeTokens (codeOf f.tokens.toList)) = .ok c ∧ f.layout.Formats c f := by
  have hindex := (wellNested_of_ofTokens hnumbered hf).index
  obtain ⟨pairs, hpairs, hstream⟩ := ofTokens_eq_ok hf
  obtain rfl : tokens = f.tokens.toList := by rw [hstream]
  obtain ⟨pairs', hpairs', rfl⟩ := pairBrackets_code hindex hpairs
  generalize hcode : codeTokens (codeOf f.tokens.toList) = code at hpairs'
  have hnumbered' : NumberedFrom 0 code := by rw [← hcode]; exact codeTokens_numbered _
  refine ⟨⟨code.toArray, partnerTable code.length pairs'⟩, by rw [ofTokens, hpairs']; rfl, ?_⟩
  have htoken := token_place (c := ⟨code.toArray, partnerTable code.length pairs'⟩) hindex hcode.symm
  refine ⟨layout_mono, size_code hcode.symm, htoken, fun k => ?_, fun i => layout_onto, ?_⟩
  · have hsig := isTrivial_place (f := f) k
    rwa [htoken k] at hsig
  · refine closer_place (closer?_iff_mem hnumbered' hpairs') ?_
    intro i k
    rw [← closer?_iff_mem hnumbered hpairs, ← hstream]

end TokenStream

/-- **A source that can be parsed is its code in a layout**, with the classes and functions of the code. -/
theorem SourceFile.exists_formatsFile {name source : String} {f : SourceFile}
    (hf : SourceFile.ofSource name source = .ok f) :
    ∃ c, SourceFile.ofTokens "" (codeTokens (codeOf f.tokens.toList)) = .ok c ∧ c.WellNested
      ∧ f.layout.FormatsFile c f := by
  obtain ⟨tokens, htokens, hf⟩ := ofSource_eq_ok hf
  obtain ⟨hstream, hclasses, hfunctions, _⟩ := ofTokens_eq_ok hf
  obtain ⟨c, hc, hformats⟩ := TokenStream.exists_formats (tokenize_numbered htokens) hstream
  have hclasses' := hformats.classes
  rw [hclasses] at hclasses'
  cases hcode : c.classes with
  | error e => simp [hcode, Except.toOption] at hclasses'
  | ok classes =>
      obtain heq : f.classes = classes.map (ClassDecl.layOut f.layout) := by
        simpa [hcode, Except.toOption] using hclasses'
      have hfunctions' := hformats.functions classes
      rw [← heq, hfunctions] at hfunctions'
      cases hcode' : c.functions classes with
      | error e => simp [hcode', Except.toOption] at hfunctions'
      | ok functions =>
          refine ⟨⟨c, "", classes, functions⟩, ?_, ?_, hformats, heq, ?_⟩
          · simp [ofTokens, hc, hcode, hcode', bind, Except.bind, pure, Except.pure]
          · exact TokenStream.wellNested_of_ofTokens (codeTokens_numbered _) hc
          · simpa [hcode', Except.toOption] using hfunctions'

end Unassigned
