import Unassigned.Proofs.LexemeOrigins

/-!
# `Proofs.HeredocBody` — the lexemes of the body of a heredoc

Where the body of a heredoc ends is found by a search for its label, before the body is scanned. An expression in
braces is scanned as code, which knows nothing of that end: it can **overrun** it, and then scanning goes back to the
label and reads some text a second time.

So the lexemes between the opening and the closing label of a heredoc spell its body exactly if neither the scan of
the body nor that of a heredoc inside it overruns (`tokenize_heredoc_body`); otherwise they are longer than the body.
-/

namespace Unassigned

/-! ## Heredocs -/

/-- A heredoc with interpolated parts, at a place in code, and how its body is scanned. -/
structure Heredoc where
  /-- The lexemes before it. -/
  read : List Lexeme
  /-- The text from its opening on. -/
  first : Char
  after : List Char
  more : Nat
  label : List Char
  /-- The number of characters of its body, and of its closing label. -/
  length : Nat
  closing : Nat
  /-- The lexemes after the scan of the body, and the text that it leaves. -/
  mid : List Lexeme
  rest : List Char
  item : Item.read first after = .heredoc more label false
  found : heredocBody? label true (after.drop more) = some (length, closing)
  hasParts : hasInterpolation ((after.drop more).take length)
  scanned : StringReads (.after length) (⟨.of .heredocStart, first :: after.take more⟩ :: read) [] (after.drop more)
    mid rest

namespace Heredoc

variable (H : Heredoc)

/-- The opening. -/
def opening : Lexeme :=
  ⟨.of .heredocStart, H.first :: H.after.take H.more⟩

/-- The text from the body on. -/
def body : List Char :=
  H.after.drop H.more

/-- The text of the body. -/
def text : List Char :=
  H.body.take H.length

/-- The text from the closing label on. -/
def ending : List Char :=
  H.body.drop H.length

/-- The closing label. -/
def closingLabel : Lexeme :=
  ⟨.of .heredocEnd, H.ending.take H.closing⟩

/-- The call for the place of the heredoc. -/
def call (stop : CodeEnd) : Call :=
  .code stop H.read (H.first :: H.after)

/-- The call for its body. -/
def bodyCall : Call :=
  .string (.after H.length) (H.opening :: H.read) [] H.body

/-- The scan of the body ends behind the place where the closing label starts. -/
def Overruns : Prop :=
  H.rest.length < H.ending.length

/-- The heredoc is met in a call. -/
def MetIn (a : Call) : Prop :=
  ∃ stop, a.Leads (H.call stop)

end Heredoc

/-- No heredoc that is met in a call overruns. -/
def Call.KeepsWithin (a : Call) : Prop :=
  ∀ H : Heredoc, H.MetIn a → ¬ H.Overruns

namespace Heredoc

variable {H : Heredoc} {a : Call}

theorem metIn_iff : H.MetIn a ↔ (∃ stop, a = H.call stop) ∨ ∃ b ∈ a.next, H.MetIn b := by
  unfold MetIn
  constructor
  · rintro ⟨stop, h⟩
    rcases Relation.ReflTransGen.cases_head h with rfl | ⟨b, hb, hrest⟩
    · exact .inl ⟨stop, rfl⟩
    · exact .inr ⟨b, hb, stop, hrest⟩
  · rintro (⟨stop, rfl⟩ | ⟨b, hb, stop, hrest⟩)
    · exact ⟨stop, .refl⟩
    · exact ⟨stop, .head hb hrest⟩

end Heredoc

namespace Call

variable {a : Call}

/-- What a call keeps to is what it does itself and what the calls that it makes keep to. -/
theorem keepsWithin_iff : a.KeepsWithin
    ↔ (∀ (H : Heredoc) (stop : CodeEnd), a = H.call stop → ¬ H.Overruns) ∧ ∀ b ∈ a.next, b.KeepsWithin := by
  constructor
  · intro h
    refine ⟨fun H stop ha => h H (Heredoc.metIn_iff.mpr (.inl ⟨stop, ha⟩)), fun b hb H hmet => ?_⟩
    exact h H (Heredoc.metIn_iff.mpr (.inr ⟨b, hb, hmet⟩))
  · rintro ⟨hhere, hnext⟩ H hmet
    rcases Heredoc.metIn_iff.mp hmet with ⟨stop, ha⟩ | ⟨b, hb, hmet⟩
    · exact hhere H stop ha
    · exact hnext b hb H hmet

/-- A call that is not at a heredoc. -/
theorem keepsWithin_iff_next (h : ∀ (H : Heredoc) (stop : CodeEnd), a ≠ H.call stop) :
    a.KeepsWithin ↔ ∀ b ∈ a.next, b.KeepsWithin := by
  rw [keepsWithin_iff]
  exact and_iff_right fun H stop ha => absurd ha (h H stop)

theorem keepsWithin_of_next_eq_nil (h : ∀ (H : Heredoc) (stop : CodeEnd), a ≠ H.call stop) (hnext : a.next = []) :
    a.KeepsWithin := by
  rw [keepsWithin_iff_next h, hnext]
  exact nofun

theorem string_ne_call {stop : StringEnd} {read : List Lexeme} {text s : List Char} (H : Heredoc) (stop' : CodeEnd) :
    Call.string stop read text s ≠ H.call stop' := nofun

theorem code_ne_call {stop : CodeEnd} {read : List Lexeme} {c : Char} {s : List Char}
    (h : ∀ more label, Item.read c s ≠ .heredoc more label false) (H : Heredoc) (stop' : CodeEnd) :
    Call.code stop read (c :: s) ≠ H.call stop' := by
  rintro ⟨⟩
  exact h _ _ H.item

end Call

/-! ## Spelling with repetitions -/

/-- The lexemes `new` spell the text `s` up to `rest` if `p`, and are longer if not. -/
def SpellsIff (new : List Lexeme) (s rest : List Char) (p : Prop) : Prop :=
  (p ∧ new.flatMap Lexeme.text ++ rest = s) ∨ (¬ p ∧ s.length < (new.flatMap Lexeme.text ++ rest).length)

variable {new read : List Lexeme} {s rest : List Char} {p : Prop}

theorem SpellsIff.append {more : List Lexeme} {mid : List Char} {q : Prop} (hnew : SpellsIff new s mid p)
    (hmore : SpellsIff more mid rest q) : SpellsIff (new ++ more) s rest (p ∧ q) := by
  unfold SpellsIff at *
  rw [List.flatMap_append, List.append_assoc]
  rcases hnew with ⟨hp, rfl⟩ | ⟨hp, hlong⟩
  · rcases hmore with ⟨hq, rfl⟩ | ⟨hq, hlonger⟩
    · exact .inl ⟨⟨hp, hq⟩, rfl⟩
    · refine .inr ⟨fun h => hq h.2, ?_⟩
      simp only [List.length_append] at hlonger ⊢
      omega
  · refine .inr ⟨fun h => hp h.1, ?_⟩
    have hle : mid.length ≤ (more.flatMap Lexeme.text ++ rest).length := by
      rcases hmore with ⟨_, rfl⟩ | ⟨_, hlonger⟩
      · exact Nat.le_refl _
      · exact Nat.le_of_lt hlonger
    simp only [List.length_append] at hlong hle ⊢
    omega

/-- Lexemes that spell a text, or are longer. -/
theorem SpellsIff.length_le {text : List Char} (h : SpellsIff new (text ++ rest) rest p) :
    text.length ≤ (new.flatMap Lexeme.text).length := by
  rcases h with ⟨_, htext⟩ | ⟨_, hlong⟩
  · exact Nat.le_of_eq (congrArg List.length (List.append_cancel_right htext)).symm
  · rw [List.length_append, List.length_append] at hlong
    omega

theorem SpellsIff.text_eq_iff {text : List Char} (h : SpellsIff new (text ++ rest) rest p) :
    new.flatMap Lexeme.text = text ↔ p := by
  rcases h with ⟨hp, htext⟩ | ⟨hp, hlong⟩
  · exact iff_of_true (List.append_cancel_right htext) hp
  · refine iff_of_false (fun htext => ?_) hp
    rw [htext] at hlong
    exact Nat.lt_irrefl _ hlong

/-- What a scanner adds to the lexemes before it spells what it has read if `p`, and is longer if not. -/
def AddsIff (read read' : List Lexeme) (s rest : List Char) (p : Prop) : Prop :=
  ∃ new, read' = new.reverse ++ read ∧ SpellsIff new s rest p

namespace AddsIff

variable {read mid read' : List Lexeme} {s after rest : List Char} {p q : Prop}

theorem congr (h : AddsIff read read' s rest p) (hpq : p ↔ q) : AddsIff read read' s rest q := by
  rwa [propext hpq] at h

theorem of_true (h : AddsIff read read' s rest True) (hp : p) : AddsIff read read' s rest p :=
  h.congr (iff_of_true trivial hp)

theorem of_eq {new : List Lexeme} (h : new.flatMap Lexeme.text ++ rest = s) :
    AddsIff read (new.reverse ++ read) s rest True :=
  ⟨new, rfl, .inl ⟨trivial, h⟩⟩

theorem refl : AddsIff read read s s True :=
  ⟨[], rfl, .inl ⟨trivial, rfl⟩⟩

/-- A lexeme. -/
theorem lexeme (lexeme : Lexeme) : AddsIff read (lexeme :: read) (lexeme.text ++ s) s True :=
  ⟨[lexeme], rfl, .inl ⟨trivial, by simp⟩⟩

/-- A lexeme of a character and some that follow it. -/
theorem taken {shape : Shape} {c : Char} {n : Nat} :
    AddsIff read (⟨shape, c :: s.take n⟩ :: read) (c :: s) (s.drop n) True :=
  ⟨[⟨shape, c :: s.take n⟩], rfl, .inl ⟨trivial, by simp⟩⟩

/-- A lexeme of some characters. -/
theorem first {shape : Shape} {n : Nat} : AddsIff read (⟨shape, s.take n⟩ :: read) s (s.drop n) True :=
  ⟨[⟨shape, s.take n⟩], rfl, .inl ⟨trivial, by simp⟩⟩

theorem flushed {text : List Char} : AddsIff read (flushText read text) (text.reverse ++ s) s True :=
  ⟨textPiece text.reverse, flushText_eq read text, .inl ⟨trivial, by rw [textPiece_text]⟩⟩

theorem trans (hmid : AddsIff read mid s after p) (h : AddsIff mid read' after rest q) :
    AddsIff read read' s rest (p ∧ q) := by
  obtain ⟨new, rfl, hnew⟩ := hmid
  obtain ⟨more, rfl, hmore⟩ := h
  exact ⟨new ++ more, by simp, hnew.append hmore⟩

/-- What is spelled in front. -/
theorem cons (hmid : AddsIff read mid s after True) (h : AddsIff mid read' after rest q) :
    AddsIff read read' s rest q :=
  (hmid.trans h).congr (iff_of_eq (true_and q))

end AddsIff

/-! ## Parts without heredocs -/

/-- Lexemes among which no heredoc starts spell what they are said to. -/
theorem Spelling.flatMap_text (h : Spelling new s rest) (hplain : ∀ lexeme ∈ new, lexeme.rawKind ≠ .heredocStart) :
    new.flatMap Lexeme.text ++ rest = s := by
  refine h.spells [] fun i _ hstart => ?_
  rw [List.append_nil] at hstart
  obtain ⟨lexeme, hmem, hkind⟩ := List.mem_map.mp (List.mem_of_getElem? hstart)
  exact absurd hkind (hplain lexeme hmem)

theorem AddsIff.simple (s : List Char) :
    AddsIff read ((simpleInterpolation s).1.reverse ++ read) ('$' :: s) (s.drop (simpleInterpolation s).2) True :=
  .of_eq ((simpleInterpolation_spelling s).flatMap_text (simpleInterpolation_kind s))

theorem AddsIff.named {inside : List Char} {name : Nat} (h : braceName? inside = some name) :
    AddsIff read (charLexeme '\x7d' :: ⟨.of .stringVarName, inside.take name⟩
      :: ⟨.of .dollarCurlyOpen, ['$', '\x7b']⟩ :: read) ('$' :: '\x7b' :: inside) (inside.drop (name + 1)) True := by
  have htext := (braceName?_spelling h).flatMap_text (by simp [Lexeme.rawKind])
  exact .of_eq htext

/-! ## The body of a heredoc -/

/-- A string that ends after a number of characters is not left before. -/
theorem StringReads.length_rest_le {n : Nat} {read' : List Lexeme} {text : List Char}
    (h : StringReads (.after n) read text s read' rest) : rest.length ≤ s.length - n := by
  refine (scanners_induction (P := fun _ _ _ _ _ => True)
    (Q := fun stop _ _ s _ rest => ∀ n, stop = .after n → rest.length ≤ s.length - n) (fun _ => trivial) ?_).2 h n rfl
  rintro stop read text s read' rest hstep n rfl
  cases hstep with
  | done hover =>
      rcases hover with rfl | rfl
      · simp
      · simp
  | escape _ hrest | simple _ hrest | named _ hrest | char _ _ hrest =>
      have hle := hrest.2 _ rfl
      simp only [List.length_drop, List.length_cons] at hle ⊢
      omega
  | braces hcode hstop hrest | dollarBraces hcode hstop hrest =>
      have hle := hrest.2 _ hstop
      have hshort := hcode.1.length_le
      simp only [List.length_cons] at hle ⊢
      omega

theorem StringReads.unique {stop : StringEnd} {mid mid' : List Lexeme} {text rest' : List Char}
    (h : StringReads stop read text s mid rest) (h' : StringReads stop read text s mid' rest') :
    mid = mid' ∧ rest = rest' := by
  obtain ⟨r, hr, rfl, rfl⟩ := h
  obtain ⟨r', hr', rfl, rfl⟩ := h'
  obtain rfl : r = r' := Except.ok.inj (hr.symm.trans hr')
  exact ⟨rfl, rfl⟩

/-- Scanning goes back to a place in front of what is left. -/
theorem AddsIff.back {mid : List Lexeme} {body : List Char} {n : Nat} (h : AddsIff read mid body rest p)
    (hn : n ≤ body.length) (hrest : rest.length ≤ body.length - n) :
    AddsIff read mid body (body.drop n) (p ∧ ¬ rest.length < (body.drop n).length) := by
  obtain ⟨new, rfl, hspells⟩ := h
  refine ⟨new, rfl, ?_⟩
  unfold SpellsIff
  rw [List.length_append, List.length_drop]
  rcases hspells with ⟨hp, hs⟩ | ⟨hp, hlong⟩
  · -- what was spelled goes up to `rest`, so it is as long as the body exactly if `rest` starts at the label
    have hlength := congrArg List.length hs
    rw [List.length_append] at hlength
    by_cases hover : rest.length < body.length - n
    · exact .inr ⟨fun hboth => hboth.2 hover, by omega⟩
    · refine .inl ⟨⟨hp, hover⟩, ?_⟩
      have htext : (new.flatMap Lexeme.text).length = n := by omega
      rw [← hs, ← htext, List.drop_left]
  · rw [List.length_append] at hlong
    exact .inr ⟨fun hboth => hp hboth.1, by omega⟩

namespace Call

variable {stop : CodeEnd} {read mid : List Lexeme} {c : Char} {s label rest : List Char} {more length closing : Nat}
  {isNowdoc : Bool}

/-- A heredoc without interpolated parts. -/
theorem literal_ne_call (hitem : Item.read c s = .heredoc more label isNowdoc)
    (hbody : heredocBody? label true (s.drop more) = some (length, closing))
    (hliteral : isNowdoc || !hasInterpolation ((s.drop more).take length)) (H : Heredoc) (stop' : CodeEnd) :
    Call.code stop read (c :: s) ≠ H.call stop' := by
  rintro ⟨⟩
  obtain ⟨rfl, rfl, rfl⟩ := Item.heredoc.inj (hitem.symm.trans H.item)
  obtain ⟨rfl, rfl⟩ := Prod.mk.inj (Option.some.inj (hbody.symm.trans H.found))
  simp [H.hasParts] at hliteral

/-- The heredoc at a place is the one that is scanned there. -/
theorem overruns_iff (hitem : Item.read c s = .heredoc more label isNowdoc)
    (hbody : heredocBody? label true (s.drop more) = some (length, closing))
    (hstring : StringReads (.after length) (⟨.of .heredocStart, c :: s.take more⟩ :: read) [] (s.drop more) mid rest)
    (hparts : ¬ (isNowdoc || !hasInterpolation ((s.drop more).take length))) :
    (∀ (H : Heredoc) (stop' : CodeEnd), Call.code stop read (c :: s) = H.call stop' → ¬ H.Overruns)
      ↔ ¬ rest.length < ((s.drop more).drop length).length := by
  obtain ⟨rfl, hinterpolated⟩ : isNowdoc = false ∧ hasInterpolation ((s.drop more).take length) = true := by
    simpa using hparts
  constructor
  · intro h
    exact h ⟨read, c, s, more, label, length, closing, mid, rest, hitem, hbody, hinterpolated, hstring⟩ stop rfl
  · rintro h H stop' ⟨⟩
    obtain ⟨rfl, rfl, _⟩ := Item.heredoc.inj (hitem.symm.trans H.item)
    obtain ⟨rfl, rfl⟩ := Prod.mk.inj (Option.some.inj (hbody.symm.trans H.found))
    obtain ⟨rfl, rfl⟩ := hstring.unique H.scanned
    exact h

theorem keepsWithin_literal (hitem : Item.read c s = .heredoc more label isNowdoc)
    (hbody : heredocBody? label true (s.drop more) = some (length, closing))
    (hliteral : isNowdoc || !hasInterpolation ((s.drop more).take length)) :
    (Call.code stop read (c :: s)).KeepsWithin
      ↔ (Call.code stop (⟨.of .heredocEnd, ((s.drop more).drop length).take closing⟩
          :: flushText (⟨.of .heredocStart, c :: s.take more⟩ :: read) ((s.drop more).take length).reverse)
        ((s.drop more).drop (length + closing))).KeepsWithin := by
  rw [keepsWithin_iff_next (literal_ne_call hitem hbody hliteral), next_heredoc hitem hbody (.literal hliteral),
    if_pos hliteral]
  exact List.forall_mem_singleton

theorem keepsWithin_interpolated (hitem : Item.read c s = .heredoc more label isNowdoc)
    (hbody : heredocBody? label true (s.drop more) = some (length, closing))
    (hstring : StringReads (.after length) (⟨.of .heredocStart, c :: s.take more⟩ :: read) [] (s.drop more) mid rest)
    (hparts : ¬ (isNowdoc || !hasInterpolation ((s.drop more).take length))) :
    (Call.code stop read (c :: s)).KeepsWithin
      ↔ ((Call.string (.after length) (⟨.of .heredocStart, c :: s.take more⟩ :: read) [] (s.drop more)).KeepsWithin
          ∧ ¬ rest.length < ((s.drop more).drop length).length)
        ∧ (Call.code stop (⟨.of .heredocEnd, ((s.drop more).drop length).take closing⟩ :: mid)
          ((s.drop more).drop (length + closing))).KeepsWithin := by
  rw [keepsWithin_iff, overruns_iff hitem hbody hstring hparts,
    next_heredoc hitem hbody (.interpolated hstring hparts), if_neg hparts, List.singleton_append,
    List.forall_mem_cons, List.forall_mem_singleton, ← and_assoc, and_comm (a := ¬ _)]

end Call

/-! ## What the scanners add -/

/-- The scanner of code spells what it reads, unless a heredoc overruns. -/
def CodeAddsIff : CodeRelation := fun stop read s read' rest =>
  AddsIff read read' s rest (Call.code stop read s).KeepsWithin

/-- The scanner of strings spells what it reads, unless a heredoc overruns. -/
def StringAddsIff : StringRelation := fun stop read text s read' rest =>
  AddsIff read read' (text.reverse ++ s) rest (Call.string stop read text s).KeepsWithin

theorem CodeStep.addsIff {stop : CodeEnd} {read' : List Lexeme}
    (h : CodeStep (CodeReads.And CodeAddsIff) (StringReads.And StringAddsIff) stop read s read' rest) :
    CodeAddsIff stop read s read' rest := by
  cases h with
  | done => exact AddsIff.refl.of_true (Call.keepsWithin_of_next_eq_nil (fun _ _ => nofun) rfl)
  | last hitem hstop =>
      refine AddsIff.taken.of_true (Call.keepsWithin_of_next_eq_nil (Call.code_ne_call (by simp [hitem])) ?_)
      rw [Call.next_lexeme hitem, hstop]
      rfl
  | closeTag hitem =>
      exact AddsIff.taken.of_true
        (Call.keepsWithin_of_next_eq_nil (Call.code_ne_call (by simp [hitem])) (Call.next_closeTag hitem))
  | lexeme hitem hstop hrest =>
      refine (AddsIff.taken.cons hrest.2).congr ?_
      rw [Call.keepsWithin_iff_next (Call.code_ne_call (by simp [hitem])), Call.next_lexeme hitem, hstop]
      exact List.forall_mem_singleton.symm
  | @quote _ _ _ _ c d s after _ hitem hstring hrest =>
      -- the string is left at its closing quote, which is the character that opened it
      obtain ⟨_, hd⟩ := (scanners_add.2 hstring.1).closes c rfl
      obtain ⟨rfl, rfl⟩ := List.cons.inj hd
      have hclosed := (AddsIff.lexeme (charLexeme d)).cons hrest.2
      refine ((AddsIff.lexeme (charLexeme d)).cons (hstring.2.trans hclosed)).congr ?_
      rw [Call.keepsWithin_iff_next (Call.code_ne_call (by simp [hitem])), Call.next_quote hitem hstring.1]
      simp [charLexeme]
  | @heredoc _ _ mid _ c s _ label more length closing isNowdoc hitem hbody hmid hrest =>
      have hlabel : AddsIff mid (⟨.of .heredocEnd, ((s.drop more).drop length).take closing⟩ :: mid)
          ((s.drop more).drop length) ((s.drop more).drop (length + closing)) True := by
        rw [← List.drop_drop]
        exact .first
      cases hmid with
      | literal hliteral =>
          have htext : AddsIff (⟨.of .heredocStart, c :: s.take more⟩ :: read)
              (flushText (⟨.of .heredocStart, c :: s.take more⟩ :: read) ((s.drop more).take length).reverse)
              (((s.drop more).take length).reverse.reverse ++ (s.drop more).drop length)
              ((s.drop more).drop length) True := .flushed
          rw [List.reverse_reverse, List.take_append_drop] at htext
          rw [CodeAddsIff, Call.keepsWithin_literal hitem hbody hliteral]
          exact AddsIff.taken.cons (htext.cons (hlabel.cons hrest.2))
      | interpolated hstring hparts =>
          -- scanning goes back to the closing label
          obtain ⟨hreads, hinside⟩ := hstring
          have hle := (heredocBody?_eq_some hbody).2.1
          rw [CodeAddsIff, Call.keepsWithin_interpolated hitem hbody hreads hparts]
          exact AddsIff.taken.cons ((AddsIff.back hinside hle hreads.length_rest_le).trans (hlabel.cons hrest.2))

theorem StringStep.addsIff {stop : StringEnd} {read' : List Lexeme} {text : List Char}
    (h : StringStep (CodeReads.And CodeAddsIff) (StringReads.And StringAddsIff) stop read text s read' rest) :
    StringAddsIff stop read text s read' rest := by
  unfold StringAddsIff
  cases h with
  | done hover =>
      exact AddsIff.flushed.of_true
        (Call.keepsWithin_of_next_eq_nil Call.string_ne_call (Call.next_done (Piece.read_of_over hover)))
  | close =>
      exact AddsIff.flushed.of_true
        (Call.keepsWithin_of_next_eq_nil Call.string_ne_call (Call.next_done (Piece.read_of_close _ _)))
  | @escape _ _ _ _ s _ _ hrest hpiece =>
      -- the two characters are the last ones of the text collected
      have htext : (s.take 1 ++ '\\' :: text).reverse ++ s.drop 1 = text.reverse ++ '\\' :: s := by
        cases s <;> simp
      rw [Call.keepsWithin_iff_next Call.string_ne_call, Call.next_escape hpiece, List.forall_mem_singleton, ← htext]
      exact hrest.2
  | @simple _ _ _ _ s _ _ hrest hpiece =>
      rw [Call.keepsWithin_iff_next Call.string_ne_call, Call.next_simple hpiece, List.forall_mem_singleton]
      exact AddsIff.flushed.cons ((AddsIff.simple s).cons hrest.2)
  | braces hcode hstop hrest hpiece =>
      subst hstop
      rw [Call.keepsWithin_iff_next Call.string_ne_call, Call.next_braces hpiece hcode.1, List.forall_mem_cons,
        List.forall_mem_singleton]
      exact AddsIff.flushed.cons ((AddsIff.lexeme ⟨.of .curlyOpen, ['\x7b']⟩).cons (hcode.2.trans hrest.2))
  | named hname hrest hpiece =>
      rw [Call.keepsWithin_iff_next Call.string_ne_call, Call.next_named hpiece, List.forall_mem_singleton]
      exact AddsIff.flushed.cons ((AddsIff.named hname).cons hrest.2)
  | dollarBraces hcode hstop hrest hpiece =>
      subst hstop
      rw [Call.keepsWithin_iff_next Call.string_ne_call, Call.next_dollarBraces hpiece hcode.1, List.forall_mem_cons,
        List.forall_mem_singleton]
      exact AddsIff.flushed.cons ((AddsIff.lexeme ⟨.of .dollarCurlyOpen, ['$', '\x7b']⟩).cons (hcode.2.trans hrest.2))
  | @char _ _ _ c _ s _ _ _ hrest hpiece =>
      have hmore := hrest.2
      rw [StringAddsIff, List.reverse_cons, List.append_assoc, List.singleton_append] at hmore
      rw [Call.keepsWithin_iff_next Call.string_ne_call, Call.next_char hpiece, List.forall_mem_singleton]
      exact hmore

/-- **The scanner of strings spells what it reads**, unless a heredoc overruns; then what it adds is longer. -/
theorem StringReads.addsIff {stop : StringEnd} {read' : List Lexeme} {text : List Char}
    (h : StringReads stop read text s read' rest) :
    AddsIff read read' (text.reverse ++ s) rest (Call.string stop read text s).KeepsWithin :=
  (scanners_induction CodeStep.addsIff StringStep.addsIff).2 h

/-! ## Heredocs of a source -/

namespace Heredoc

/-- The heredoc with interpolated parts at a place in code, if there is one and its body can be scanned. -/
def ofCode? (read : List Lexeme) (c : Char) (s : List Char) : Option Heredoc :=
  match hitem : Item.read c s with
  | .heredoc more label false =>
    match hfound : heredocBody? label true (s.drop more) with
    | some (length, closing) =>
      if hparts : hasInterpolation ((s.drop more).take length) then
        match hscan : scanString maxNesting (.after length) (⟨.of .heredocStart, c :: s.take more⟩ :: read) []
            (s.drop more) with
        | .ok r =>
          some ⟨read, c, s, more, label, length, closing, r.1, r.2.1, hitem, hfound, hparts, r, hscan, rfl, rfl⟩
        | .error _ => none
      else none
    | none => none
  | _ => none

theorem eq_of_ofCode? {read : List Lexeme} {c : Char} {s : List Char} {H : Heredoc} (h : ofCode? read c s = some H) :
    H.read = read ∧ H.first = c ∧ H.after = s := by
  unfold ofCode? at h
  split at h
  · split at h
    · split at h
      · split at h
        · cases h
          exact ⟨rfl, rfl, rfl⟩
        · cases h
      · cases h
    · cases h
  · cases h

variable (H : Heredoc)

/-- **The lexemes of the body** spell it if nothing overruns, and are longer if not. -/
theorem exists_mid_eq : ∃ new : List Lexeme, H.mid = new.reverse ++ H.opening :: H.read
    ∧ SpellsIff new H.body H.ending (H.bodyCall.KeepsWithin ∧ ¬ H.Overruns) := by
  have hle := (heredocBody?_eq_some H.found).2.1
  have hinside : AddsIff _ _ H.body _ _ := H.scanned.addsIff
  exact hinside.back hle H.scanned.length_rest_le

/-- Code that goes on behind a heredoc has its closing label behind the lexemes of the body. -/
theorem closed {H : Heredoc} {stop : CodeEnd} {read' : List Lexeme} {rest : List Char}
    (h : CodeReads stop H.read (H.first :: H.after) read' rest) : H.closingLabel :: H.mid <:+ read' := by
  cases h.step with
  | last hitem | lexeme hitem | closeTag hitem | quote hitem => cases hitem.symm.trans H.item
  | heredoc hitem hbody hmid hrest =>
      obtain ⟨rfl, rfl, rfl⟩ := Item.heredoc.inj (hitem.symm.trans H.item)
      obtain ⟨rfl, rfl⟩ := Prod.mk.inj (Option.some.inj (hbody.symm.trans H.found))
      cases hmid with
      | literal hliteral => simp [H.hasParts] at hliteral
      | interpolated hstring =>
          obtain ⟨rfl, _⟩ := hstring.unique H.scanned
          exact hrest.suffix_read

/-- The text from a heredoc on, in its parts. -/
theorem text_eq : H.first :: H.after
    = H.opening.text ++ H.text ++ H.closingLabel.text ++ H.ending.drop H.closing := by
  simp only [opening, closingLabel, text, ending, body, List.cons_append, List.append_assoc,
    List.take_append_drop]

end Heredoc

namespace Token

/-- A lexeme whose kind does not depend on its context. -/
theorem getElem?_ofLexemes {lexemes : List Lexeme} {kind : Kind} {text : List Char} {i : Nat}
    (h : lexemes[i]? = some ⟨.of kind, text⟩) (before : Preceding) (line index : Nat) :
    ∃ t, (ofLexemes before line index lexemes)[i]? = some t ∧ t.kind = kind ∧ t.text = String.ofList text := by
  induction lexemes generalizing before line index i with
  | nil => cases h
  | cons lexeme lexemes ih =>
      cases i with
      | zero =>
          cases h
          exact ⟨_, rfl, rfl, rfl⟩
      | succ i => exact ih h _ _ _

/-- The text of the tokens at the places from `i` up to `k`. -/
def textBetween (tokens : List Token) (i k : Nat) : String :=
  String.join (((tokens.take k).drop i).map Token.text)

theorem textBetween_ofLexemes (before : Preceding) (line index i k : Nat) (lexemes : List Lexeme) :
    textBetween (ofLexemes before line index lexemes) i k
      = String.ofList (((lexemes.take k).drop i).flatMap Lexeme.text) := by
  rw [textBetween, List.map_drop, List.map_take, text_ofLexemes, ← List.map_take, ← List.map_drop,
    ← String.toList_inj, String.toList_join, List.flatMap_map]
  simp only [String.toList_ofList]

end Token

namespace Call

/-- The call at the end of a path, which says for each call which of those that it makes is the next one. -/
def follow (a : Call) : List Nat → Option Call
  | [] => some a
  | i :: path => a.next[i]?.bind fun b => b.follow path

theorem leads_of_follow {a b : Call} {path : List Nat} (h : a.follow path = some b) : a.Leads b := by
  induction path generalizing a with
  | nil =>
      cases h
      exact .refl
  | cons i path ih =>
      obtain ⟨d, hd, hpath⟩ := Option.bind_eq_some_iff.mp h
      exact .head (List.mem_of_getElem? hd) (ih hpath)

/-- The heredoc at the end of a path. -/
def heredocAt? (a : Call) (path : List Nat) : Option Heredoc :=
  match a.follow path with
  | some (.code _ read (c :: s)) => Heredoc.ofCode? read c s
  | _ => none

theorem metIn_of_heredocAt? {a : Call} {path : List Nat} {H : Heredoc} (h : a.heredocAt? path = some H) :
    H.MetIn a := by
  unfold heredocAt? at h
  split at h
  · next stop read c s hpath =>
      obtain ⟨rfl, rfl, rfl⟩ := Heredoc.eq_of_ofCode? h
      exact ⟨stop, leads_of_follow hpath⟩
  · cases h

end Call

/-- **A heredoc in the lexemes of a source.** It is a part of the source, and the lexemes go on with its closing
    label behind those of its body. -/
theorem Heredoc.MetIn.lexemes_eq {H : Heredoc} {source : List Char} (hmet : H.MetIn (.file [] source))
    (h : scanFile [] source = .ok read) :
    (∃ before, source = before ++ H.first :: H.after)
      ∧ ∃ behind, read.reverse = H.mid.reverse ++ H.closingLabel :: behind := by
  obtain ⟨stop, hleads⟩ := hmet
  obtain ⟨mid, rest, hreads, hmid, before, hbefore⟩ := hleads.returns ⟨h, rfl⟩
  obtain ⟨behind, rfl⟩ := (Heredoc.closed hreads).trans hmid
  exact ⟨⟨before, hbefore.symm⟩, behind.reverse, by simp⟩

/-- Behind `i` lexemes a heredoc is opened whose closing label is found and whose body is one piece of text. -/
def Call.OpensLiteralAt (a : Call) (i : Nat) : Prop :=
  ∃ stop read c s more label isNowdoc length closing, a.Leads (.code stop read (c :: s)) ∧ read.length = i
    ∧ Item.read c s = .heredoc more label isNowdoc ∧ heredocBody? label true (s.drop more) = some (length, closing)
    ∧ (isNowdoc || !hasInterpolation ((s.drop more).take length))

/-- What is opened in a source is a literal heredoc, or one of those with interpolated parts. -/
theorem Call.OpensAt.literal_or_heredoc {source : List Char} {i : Nat} (hopens : (Call.file [] source).OpensAt i)
    (h : scanFile [] source = .ok read) :
    (Call.file [] source).OpensLiteralAt i ∨ ∃ H : Heredoc, H.MetIn (.file [] source) ∧ H.read.length = i := by
  obtain ⟨stop, read, c, s, more, label, isNowdoc, hleads, hitem, hlength⟩ := hopens
  obtain ⟨_, _, hreads, _⟩ := hleads.returns ⟨h, rfl⟩
  cases CodeReads.step hreads with
  | last hitem' | lexeme hitem' | closeTag hitem' | quote hitem' => cases hitem.symm.trans hitem'
  | @heredoc _ _ _ _ _ _ _ _ _ length closing _ hitem' hbody hmid =>
      obtain ⟨rfl, rfl, rfl⟩ := Item.heredoc.inj (hitem.symm.trans hitem')
      cases hmid with
      | literal hliteral =>
          exact .inl ⟨stop, read, c, s, more, label, isNowdoc, length, closing, hleads, hlength, hitem, hbody, hliteral⟩
      | interpolated hstring hparts =>
          obtain ⟨rfl, hinterpolated⟩ : isNowdoc = false ∧ hasInterpolation ((s.drop more).take length) = true := by
            simpa using hparts
          let H : Heredoc := ⟨read, c, s, more, label, length, closing, _, _, hitem, hbody, hinterpolated, hstring⟩
          exact .inr ⟨H, ⟨stop, hleads⟩, hlength⟩

/-- **The body of a heredoc.** Every opening in the tokens of a source is that of a literal heredoc or of one with
    interpolated parts. The tokens between the opening and the closing label of the latter are no shorter than its
    body, and they spell the body exactly if neither the scan of the body nor that of a heredoc inside it overruns
    its closing label. -/
theorem tokenize_heredoc_body {source : String} {tokens : List Token} (h : tokenize source = .ok tokens) :
    (∀ i t, tokens[i]? = some t → t.kind = .heredocStart →
      (Call.file [] source.toList).OpensLiteralAt i
        ∨ ∃ H : Heredoc, H.MetIn (.file [] source.toList) ∧ H.read.length = i)
    ∧ ∀ H : Heredoc, H.MetIn (.file [] source.toList) →
      -- its place in the source
      (∃ before behind, source.toList = before ++ (H.opening.text ++ H.text ++ H.closingLabel.text ++ behind))
      -- its opening and its closing label among the tokens
      ∧ (∃ t, tokens[H.read.length]? = some t ∧ t.kind = .heredocStart ∧ t.text = String.ofList H.opening.text)
      ∧ (∃ t, tokens[H.mid.length]? = some t ∧ t.kind = .heredocEnd ∧ t.text = String.ofList H.closingLabel.text)
      -- and the tokens between them
      ∧ H.text.length ≤ (Token.textBetween tokens (H.read.length + 1) H.mid.length).length
      ∧ (Token.textBetween tokens (H.read.length + 1) H.mid.length = String.ofList H.text
          ↔ ¬ H.Overruns ∧ ∀ K : Heredoc, K.MetIn H.bodyCall → ¬ K.Overruns) := by
  obtain ⟨lexemes, hlexemes, rfl⟩ := exists_of_map_eq_ok h
  obtain ⟨read, hread, rfl⟩ := exists_of_map_eq_ok hlexemes
  refine ⟨fun i t ht hkind => ?_, fun H hmet => ?_⟩
  · refine (Call.opensAt_of_lexeme hread ?_).literal_or_heredoc hread
    refine (Token.kind_ofLexemes (by nofun) (by nofun) read.reverse {} 1 0 i).mp ?_
    rw [List.getElem?_map, ht, Option.map_some, hkind]
  · obtain ⟨⟨before, hsource⟩, behind, hlist⟩ := hmet.lexemes_eq hread
    obtain ⟨new, hmid, hspells⟩ := H.exists_mid_eq
    have hparts : H.mid.reverse = H.read.reverse ++ H.opening :: new := by simp [hmid]
    refine ⟨⟨before, _, hsource.trans (congrArg _ H.text_eq)⟩, ?_, ?_, ?_⟩
    · refine Token.getElem?_ofLexemes ?_ _ _ _
      rw [hlist, hparts, List.append_assoc, List.getElem?_append_right (by simp), List.length_reverse, Nat.sub_self]
      rfl
    · refine Token.getElem?_ofLexemes ?_ _ _ _
      rw [hlist, List.getElem?_append_right (by simp), List.length_reverse, Nat.sub_self]
      rfl
    · have hbetween : (read.reverse.take H.mid.length).drop (H.read.length + 1) = new := by
        rw [hlist, List.take_left' (by simp), hparts, ← List.singleton_append, ← List.append_assoc]
        exact List.drop_left' (by simp)
      have hsplit : H.body = H.text ++ H.ending := (List.take_append_drop H.length H.body).symm
      rw [hsplit] at hspells
      rw [Token.textBetween_ofLexemes, hbetween, String.length_ofList, String.ofList_inj, and_comm (a := ¬ _)]
      exact ⟨hspells.length_le, hspells.text_eq_iff⟩

/-- A source with a heredoc in an expression in the body of another one. -/
def nestedHeredoc : String := "<?php echo <<<A\n\x7b$x[<<<B\n$z\nB]\x7d $y\nA;\n"

theorem nestedHeredoc_run : (tokenize nestedHeredoc).toOption.any fun tokens =>
    ((Call.file [] nestedHeredoc.toList).heredocAt? [0, 0, 0]).any fun H =>
      (H.bodyCall.heredocAt? [0, 0, 0]).isSome
        && Token.textBetween tokens (H.read.length + 1) H.mid.length == String.ofList H.text := by
  decide +kernel

theorem nestedHeredoc_body : ∃ tokens, ∃ H K : Heredoc, tokenize nestedHeredoc = .ok tokens
    ∧ H.MetIn (.file [] nestedHeredoc.toList) ∧ K.MetIn H.bodyCall
    ∧ Token.textBetween tokens (H.read.length + 1) H.mid.length = String.ofList H.text
    ∧ ¬ H.Overruns ∧ ¬ K.Overruns := by
  obtain ⟨tokens, htokens, hrun⟩ := exists_ok_of_any nestedHeredoc_run
  obtain ⟨H, hH, hrun⟩ := (Option.any_eq_true _ _).mp hrun
  rw [Bool.and_eq_true, Option.isSome_iff_exists, beq_iff_eq] at hrun
  obtain ⟨⟨K, hK⟩, htext⟩ := hrun
  have hmet := Call.metIn_of_heredocAt? hH
  have hinside := Call.metIn_of_heredocAt? hK
  obtain ⟨hover, hnested⟩ := ((tokenize_heredoc_body htokens).2 H hmet).2.2.2.2.mp htext
  exact ⟨tokens, H, K, htokens, hmet, hinside, htext, hover, hnested K hinside⟩

/-- A source with an expression that goes on behind the closing label of the heredoc around it. -/
def overrunHeredoc : String := "<?php\necho <<<A\n\x7b$x[\nA\n]\x7d\nA;\n"

theorem overrunHeredoc_run : (tokenize overrunHeredoc).toOption.any fun tokens =>
    ((Call.file [] overrunHeredoc.toList).heredocAt? [0, 0, 0]).any fun H =>
      H.text == "\x7b$x[\n".toList
        && Token.textBetween tokens (H.read.length + 1) H.mid.length == "\x7b$x[\nA\n]\x7d" := by
  decide +kernel

/-- The closing label and the text behind it up to the end of the expression are among the tokens of the body. -/
theorem overrunHeredoc_body : ∃ tokens, ∃ H : Heredoc, tokenize overrunHeredoc = .ok tokens
    ∧ H.MetIn (.file [] overrunHeredoc.toList) ∧ H.text = "\x7b$x[\n".toList
    ∧ Token.textBetween tokens (H.read.length + 1) H.mid.length = "\x7b$x[\nA\n]\x7d" := by
  obtain ⟨tokens, htokens, hrun⟩ := exists_ok_of_any overrunHeredoc_run
  obtain ⟨H, hH, hrun⟩ := (Option.any_eq_true _ _).mp hrun
  rw [Bool.and_eq_true, beq_iff_eq, beq_iff_eq] at hrun
  exact ⟨tokens, H, htokens, Call.metIn_of_heredocAt? hH, hrun⟩

end Unassigned
