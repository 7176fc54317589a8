import Unassigned.Lint.Linter
import Unassigned.Proofs.Formatting.Code
import Unassigned.Proofs.Formatting.Run

/-!
# `Proofs.Formatting` — white space and comments do not change the verdict

Two sources with the same code are that code in two layouts (`SourceFile.exists_formatsFile`), and the scan
of either is the scan of the code in its layout (`FormatsContext.defects`). So the two find the same: what
is said is the same, and it is said of the same tokens, counted among the significant ones.

**Documentation comments are not formatting**: a scan reads annotations from them. The other condition, a
significant token at the end, lets the scan of a file and that of its code end with the same step.
-/

namespace Unassigned

/-- The number of significant tokens before a place. -/
def TokenStream.ordinal (f : TokenStream) (i : Nat) : Nat :=
  ((List.range i).filter fun j => !(f.token j).isTrivial).length

/-- No documentation comments, and a significant token at the end. -/
structure TokenStream.PlainLayout (f : TokenStream) : Prop where
  undocumented : ∀ t ∈ f.tokens.toList, t.kind ≠ .docComment
  last : f.tokens.toList.getLast?.any fun t => !t.isTrivial

instance (f : TokenStream) : Decidable f.PlainLayout :=
  decidable_of_iff ((∀ t ∈ f.tokens.toList, t.kind ≠ .docComment)
      ∧ f.tokens.toList.getLast?.any fun t => !t.isTrivial)
    ⟨fun h => ⟨h.1, h.2⟩, fun h => ⟨h.undocumented, h.last⟩⟩

/-! ## The same verdict -/

/-- The token `t` of one file and the token `u` of another have the same kind and text and are at the same
    place among the significant tokens. -/
structure SameToken (a b : TokenStream) (t u : Token) : Prop where
  kind : t.kind = u.kind
  text : t.text = u.text
  significant : (a.token t.index).isTrivial = false ∧ (b.token u.index).isTrivial = false
  ordinal : a.ordinal t.index = b.ordinal u.index

/-- The same finding about the same token. -/
structure SameDefect (a b : TokenStream) (d e : Defect) : Prop where
  severity : d.severity = e.severity
  finding : d.finding = e.finding
  token : SameToken a b d.token e.token

/-- Two checks come to the same end: the same defects in the same order, or the same error at the same
    token. -/
inductive SameVerdict (a b : TokenStream) :
    Except LintError (List Defect) → Except LintError (List Defect) → Prop where
  | defects {ds es : List Defect} (h : List.Forall₂ (SameDefect a b) ds es) :
      SameVerdict a b (.ok ds) (.ok es)
  | analysis {d e : AnalysisError} {t u : Token} (summary : d.summary = e.summary)
      (left : d.token? = some t) (right : e.token? = some u) (token : SameToken a b t u) :
      SameVerdict a b (.error (.scan (.analysis d))) (.error (.scan (.analysis e)))
  | position : SameVerdict a b (.error (.scan .positionOutOfRange)) (.error (.scan .positionOutOfRange))

/-! ## Layouts of the same code -/

namespace Layout.Formats

variable {la lb : Layout} {c a b : TokenStream}

/-- A layout does not change how many significant tokens stand before a token. -/
theorem ordinal_place (h : la.Formats c a) (k : Nat) : a.ordinal (la.place k) = k := by
  have hplaces : (List.range (la.place k)).filter (fun i => !(a.token i).isTrivial)
      = (List.range k).map la.place := by
    refine h.filter_significant List.pairwise_lt_range List.pairwise_lt_range fun i => ?_
    rw [List.mem_range, List.mem_range, h.lt_iff]
  rw [TokenStream.ordinal, hplaces, List.length_map, List.length_range]

theorem sameToken (ha : la.Formats c a) (hb : lb.Formats c b) (t : Token) :
    SameToken a b (t.layOut la) (t.layOut lb) where
  kind := rfl
  text := rfl
  significant := ⟨ha.isTrivial_place t.index, hb.isTrivial_place t.index⟩
  ordinal := (ha.ordinal_place t.index).trans (hb.ordinal_place t.index).symm

theorem sameDefects (ha : la.Formats c a) (hb : lb.Formats c b) (ds : List Defect) :
    List.Forall₂ (SameDefect a b) (ds.map (Defect.layOut la)) (ds.map (Defect.layOut lb)) := by
  rw [List.forall₂_map_left_iff, List.forall₂_map_right_iff]
  exact List.forall₂_same.mpr fun d _ => ⟨rfl, rfl, ha.sameToken hb d.token⟩

end Layout.Formats

namespace TokenStream.PlainLayout

variable {f : TokenStream} (h : f.PlainLayout)

include h

theorem kind_ne (i : Nat) : f.kind i ≠ .docComment := by
  by_cases hi : i < f.size
  · refine h.undocumented (f.token i) ?_
    rw [toList_tokens]
    exact List.mem_map_of_mem (List.mem_range.mpr hi)
  · rw [TokenStream.kind, token_of_size_le (by omega)]
    simp

theorem significant_last : 0 < f.size ∧ (f.token (f.size - 1)).isTrivial = false := by
  have hlast := h.last
  rw [toList_tokens, List.getLast?_eq_getElem?, List.length_map, List.length_range, List.getElem?_map]
    at hlast
  rcases Nat.eq_zero_or_pos f.size with hsize | hsize
  · rw [hsize] at hlast
    simp at hlast
  · rw [List.getElem?_range (by omega)] at hlast
    exact ⟨hsize, by simpa using hlast⟩

end TokenStream.PlainLayout

namespace Linter

variable (linter : Linter)

theorem formatsContext {l : Layout} {c f : SourceFile} (h : l.FormatsFile c f) :
    l.FormatsContext (linter.context c) (linter.context f) where
  file := h
  signatures := by rw [context, context, h.signatures]
  level := rfl
  checkFileScope := rfl
  knownGlobals := rfl

/-- **The defects of a source are those of its code, in the layout of the source.** -/
theorem lintSource_of_formatsFile {name source : String} {c f : SourceFile}
    (hf : SourceFile.ofSource name source = .ok f) (hplain : f.PlainLayout) {l : Layout}
    (h : l.FormatsFile c f) (hc : c.WellNested) :
    linter.lintSource name source = ((linter.defects c).map (List.map (Defect.layOut l))).mapError
      (LintError.scan ∘ ScanError.layOut l) := by
  obtain ⟨hsize, hend⟩ := hplain.significant_last
  have hdefects := (linter.formatsContext h).defects hc hplain.kind_ne hend hsize
  unfold lintSource
  rw [hf]
  unfold defects
  dsimp only
  rw [hdefects]
  cases (linter.context c).defects <;> rfl

/-- **Formatting does not change the verdict.** Two sources with the same code get the same verdict from every
    linter, whatever white space and comments stand between their significant tokens and whatever the files
    are called. -/
theorem lintSource_sameVerdict {name name' source source' : String} {a b : SourceFile}
    (ha : SourceFile.ofSource name source = .ok a) (hb : SourceFile.ofSource name' source' = .ok b)
    (hcode : codeOf a.tokens.toList = codeOf b.tokens.toList) (hplain : a.PlainLayout)
    (hplain' : b.PlainLayout) :
    SameVerdict a.toTokenStream b.toTokenStream (linter.lintSource name source)
      (linter.lintSource name' source') := by
  obtain ⟨c, hc, hnested, hformats⟩ := SourceFile.exists_formatsFile ha
  obtain ⟨c', hc', _, hformats'⟩ := SourceFile.exists_formatsFile hb
  -- the same code makes the same file
  obtain rfl : c = c' := by
    rw [hcode, hc'] at hc
    exact (Except.ok.inj hc).symm
  rw [linter.lintSource_of_formatsFile ha hplain hformats hnested,
    linter.lintSource_of_formatsFile hb hplain' hformats' hnested]
  cases hdefects : linter.defects c with
  | ok ds => exact .defects (hformats.sameDefects hformats'.toFormats ds)
  | error e =>
      cases e with
      | positionOutOfRange => exact .position
      | analysis e =>
          obtain ⟨k, hk⟩ := (linter.context c).error_token hnested hdefects
          refine .analysis (t := (c.token k).layOut _) (u := (c.token k).layOut _) ?_ ?_ ?_
            (hformats.sameToken hformats'.toFormats (c.token k))
          · rw [AnalysisError.summary_layOut, AnalysisError.summary_layOut]
          · rw [AnalysisError.token?_layOut, hk]
            rfl
          · rw [AnalysisError.token?_layOut, hk]
            rfl

/-- A function on one line. -/
def compactSource : String :=
  "<?php function f($a) \x7b foreach ($a as $k => $v) echo $v, $w; extract($a); return fn() => $x + $k; \x7d"

/-- The same function on several lines, with comments. -/
def spacedSource : String :=
  "<?php  // sums\nfunction f( $a )\n\x7b\n  foreach( $a as $k/* key */=>$v )\n    echo $v , $w ;\n  "
    ++ "extract( $a ); # anything\n  return fn () => $x +\n    $k;\n\x7d"

theorem spacedSource_code : (SourceFile.ofSource "f.php" compactSource).toOption.any fun a =>
    (SourceFile.ofSource "f.php" spacedSource).toOption.any fun b =>
      decide (codeOf a.tokens.toList = codeOf b.tokens.toList ∧ a.PlainLayout ∧ b.PlainLayout) := by
  decide +kernel

theorem spacedSource_sameVerdict : ∃ a b,
    SourceFile.ofSource "f.php" compactSource = .ok a ∧ SourceFile.ofSource "f.php" spacedSource = .ok b
      ∧ codeOf a.tokens.toList = codeOf b.tokens.toList ∧ a.PlainLayout ∧ b.PlainLayout
      ∧ SameVerdict a.toTokenStream b.toTokenStream
        ((⟨.notice, true, [], []⟩ : Linter).lintSource "f.php" compactSource)
        ((⟨.notice, true, [], []⟩ : Linter).lintSource "f.php" spacedSource) := by
  obtain ⟨a, ha, h⟩ := exists_ok_of_any spacedSource_code
  obtain ⟨b, hb, h⟩ := exists_ok_of_any h
  obtain ⟨hcode, hplain, hplain'⟩ := of_decide_eq_true h
  exact ⟨a, b, ha, hb, hcode, hplain, hplain', lintSource_sameVerdict _ ha hb hcode hplain hplain'⟩

end Linter

end Unassigned
