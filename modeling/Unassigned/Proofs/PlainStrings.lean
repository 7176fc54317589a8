import Unassigned.Proofs.HeredocBody

/-!
# `Proofs.PlainStrings` — strings and heredocs without interpolated parts

A string in double quotes or backticks that has no interpolated part is taken as one lexeme, and so is the
body of such a heredoc. Both are decided by a look at the text, before the scanner of string contents would
run. The look decides as the scanner does: escapes, a dollar sign or brace before the closing quote and
letters beyond ASCII are no exceptions.

* `PlainBody` — the contents of a plain string, as a pattern: a repetition of four alternatives
* `plainStringLength?_eq_some_iff` — the look at the text finds the pattern
* `PlainBody.reads`, `StringReads.plain_or_interpolated` — the scanner reads such contents as one piece of
  text, and anything else as lexemes with an interpolated part among them
* `reads_of_not_hasInterpolation` — the same for the body of a heredoc
-/

namespace Unassigned

/-! ## Pieces of text -/

/-- The two ways in which a dollar sign starts an interpolated part. -/
theorem startsIn_opensInterpolation (s : List Char) :
    startsIn opensInterpolation s = (startsIn isNameStart s || startsIn (· == '\x7b') s) := by
  cases s <;> rfl

variable {stop : StringEnd} {c q : Char} {s text rest : List Char} {read read' : List Lexeme} {n p e : Nat}

/-- **A character of the text** is none that ends the string, escapes or starts an interpolated part. -/
theorem Piece.ofChar_eq_char_iff :
    Piece.ofChar stop c s = .char ↔ ¬ stop.isAt c ∧ c ≠ '\\' ∧ ¬ (c = '$' ∧ startsIn opensInterpolation s)
      ∧ ¬ (c = '\x7b' ∧ startsIn (· == '$') s) := by
  rw [startsIn_opensInterpolation]
  unfold Piece.ofChar
  constructor
  · intro h
    split at h
    · cases h
    next hat =>
    split at h
    · cases h
    next hescape =>
    split at h
    · cases h
    next hsimple =>
    split at h
    · cases h
    next hbraces =>
    split at h
    · split at h <;> cases h
    next hdollar =>
    refine ⟨hat, hescape, ?_, hbraces⟩
    rintro ⟨rfl, hopens⟩
    rcases Bool.or_eq_true_iff.mp hopens with hname | hbrace
    · exact hsimple ⟨rfl, hname⟩
    · exact hdollar ⟨rfl, hbrace⟩
  · rintro ⟨hat, hescape, hdollar, hbraces⟩
    rw [if_neg hat, if_neg hescape, if_neg fun h => hdollar ⟨h.1, by rw [h.2]; rfl⟩, if_neg hbraces,
      if_neg fun h => hdollar ⟨h.1, by rw [h.2, Bool.or_true]⟩]

/-! ## Running the scanner over text -/

/-- What was scanned of a part of a text was scanned of the text. -/
theorem StringReads.within {stop : StringEnd} {read read' : List Lexeme} {text s t rest : List Char}
    (h : StringReads stop read text t read' rest) (hle : t.length ≤ s.length) :
    ∃ r : Scanned s, (scanString maxNesting stop read text t).map (Scanned.within hle) = .ok r
      ∧ r.1 = read' ∧ r.2.1 = rest := by
  obtain ⟨inner, hinner, hread, hrest⟩ := h
  exact ⟨inner.within hle, by rw [hinner]; rfl, hread, hrest⟩

theorem StringReads.of_close : StringReads (.quote q) read text (q :: s) (flushText read text) (q :: s) := by
  refine ⟨(flushText read text, ⟨q :: s, Nat.le_refl _⟩), ?_, rfl, rfl⟩
  rw [scanString.eq_def]
  exact if_pos (beq_self_eq_true q)

theorem StringReads.of_over : StringReads (.after 0) read text s (flushText read text) s :=
  ⟨(flushText read text, ⟨s, Nat.le_refl _⟩), scanString.eq_1 .., rfl, rfl⟩

/-- A backslash and the character behind it are text. -/
theorem StringReads.of_escape (hstop : stop ≠ .after 0) (hat : ¬ stop.isAt '\\')
    (h : StringReads (stop.advance 2) read (s.take 1 ++ '\\' :: text) (s.drop 1) read' rest) :
    StringReads stop read text ('\\' :: s) read' rest := by
  obtain ⟨r, hr, hread, hrest⟩ := h.within (length_drop_le_cons 1 '\\' s)
  refine ⟨r, ?_, hread, hrest⟩
  rw [scanString.eq_4 _ _ _ _ _ _ hstop, if_neg hat, if_pos rfl, hr]

theorem StringReads.of_char (hstop : stop ≠ .after 0) (hpiece : Piece.ofChar stop c s = .char)
    (h : StringReads (stop.advance 1) read (c :: text) s read' rest) :
    StringReads stop read text (c :: s) read' rest := by
  obtain ⟨hat, hescape, hdollar, hbraces⟩ := Piece.ofChar_eq_char_iff.mp hpiece
  rw [startsIn_opensInterpolation] at hdollar
  obtain ⟨r, hr, hread, hrest⟩ := h.within (le_length_cons c (Nat.le_refl _))
  refine ⟨r, ?_, hread, hrest⟩
  rw [scanString.eq_4 _ _ _ _ _ _ hstop, if_neg hat, if_neg hescape,
    if_neg fun h => hdollar ⟨h.1, by rw [h.2]; rfl⟩, if_neg hbraces,
    if_neg fun h => hdollar ⟨h.1, by rw [h.2, Bool.or_true]⟩, hr]

/-! ## Plain strings as a pattern -/

/-- **The contents of a plain string**, with `rest` behind them: any number of ordinary characters, escaped
    characters, dollar signs that start no interpolated part and braces that start none. -/
inductive PlainBody (quote : Char) (rest : List Char) : List Char → Prop where
  | nil : PlainBody quote rest []
  | ordinary {c : Char} {body : List Char} :
      c ∉ [quote, '\\', '$', '\x7b'] → PlainBody quote rest body → PlainBody quote rest (c :: body)
  | escape {c : Char} {body : List Char} :
      PlainBody quote rest body → PlainBody quote rest ('\\' :: c :: body)
  | dollar {body : List Char} :
      startsIn opensInterpolation (body ++ rest) = false → PlainBody quote rest body →
      PlainBody quote rest ('$' :: body)
  | brace {body : List Char} :
      startsIn (· == '$') (body ++ rest) = false → PlainBody quote rest body →
      PlainBody quote rest ('\x7b' :: body)

/-- The characters that delimit a string with interpolated parts. -/
def IsStringQuote (q : Char) : Prop :=
  q = '"' ∨ q = '\x60'

theorem IsStringQuote.not_special (h : IsStringQuote q) : q ∉ ['\\', '$', '\x7b'] := by
  rcases h with rfl | rfl <;> decide

/-- A piece of text that is a single character is one of the alternatives. -/
theorem PlainBody.of_char {body : List Char} (hquote : c ≠ q) (hescape : c ≠ '\\')
    (hdollar : ¬ (c = '$' ∧ startsIn opensInterpolation (body ++ rest)))
    (hbrace : ¬ (c = '\x7b' ∧ startsIn (· == '$') (body ++ rest))) (h : PlainBody q rest body) :
    PlainBody q rest (c :: body) := by
  by_cases hc : c = '$'
  · subst hc
    exact .dollar (Bool.eq_false_iff.mpr fun hopens => hdollar ⟨rfl, hopens⟩) h
  by_cases hc' : c = '\x7b'
  · subst hc'
    exact .brace (Bool.eq_false_iff.mpr fun hopens => hbrace ⟨rfl, hopens⟩) h
  · exact .ordinary (by simp [hquote, hescape, hc, hc']) h

/-- **The look at the text** finds the pattern: a string is plain up to a closing quote exactly if its
    contents are the repetition of the four alternatives. -/
theorem plainStringLength?_eq_some_iff (hq : IsStringQuote q) :
    plainStringLength? q s = some n
      ↔ ∃ body rest, s = body ++ q :: rest ∧ n = body.length + 1 ∧ PlainBody q (q :: rest) body := by
  constructor
  · intro h
    fun_induction plainStringLength? q s generalizing n with
    | case1 | case3 | case5 | case6 => cases h
    | case2 rest =>
        cases h
        exact ⟨[], rest, rfl, rfl, .nil⟩
    | case4 d s _ ih =>
        obtain ⟨m, hm, rfl⟩ := Option.map_eq_some_iff.mp h
        obtain ⟨body, rest, rfl, rfl, hbody⟩ := ih hm
        exact ⟨'\\' :: d :: body, rest, rfl, rfl, .escape hbody⟩
    | case7 c s hquote hescape hdollar hbrace ih =>
        obtain ⟨m, hm, rfl⟩ := Option.map_eq_some_iff.mp h
        obtain ⟨body, rest, rfl, rfl, hbody⟩ := ih hm
        exact ⟨c :: body, rest, rfl, rfl, hbody.of_char hquote hescape hdollar hbrace⟩
  · rintro ⟨body, rest, rfl, rfl, hbody⟩
    have hspecial := hq.not_special
    simp only [List.mem_cons, List.not_mem_nil, or_false, not_or] at hspecial
    obtain ⟨hescape, hdollar, hbrace⟩ := hspecial
    induction hbody with
    | nil =>
        rw [List.nil_append, plainStringLength?.eq_def]
        exact if_pos rfl
    | @ordinary c body hc _ ih =>
        simp only [List.mem_cons, List.not_mem_nil, or_false, not_or] at hc
        obtain ⟨hquote, hc, hc', hc''⟩ := hc
        rw [List.cons_append, plainStringLength?.eq_def]
        simp [hquote, hc, hc', hc'', ih]
    | escape _ ih =>
        rw [List.cons_append, List.cons_append, plainStringLength?.eq_def]
        simp [Ne.symm hescape, ih]
    | dollar hopens _ ih =>
        rw [List.cons_append, plainStringLength?.eq_def]
        simp [Ne.symm hdollar, hopens, ih]
    | brace hopens _ ih =>
        rw [List.cons_append, plainStringLength?.eq_def]
        simp [Ne.symm hbrace, hopens, ih]

/-! ## The scanner on plain strings -/

/-- **Plain contents are one piece of text**: the scanner goes over them to the closing quote. -/
theorem PlainBody.reads (hq : IsStringQuote q) {body : List Char} (h : PlainBody q (q :: rest) body)
    (read : List Lexeme) (text : List Char) :
    StringReads (.quote q) read text (body ++ q :: rest) (flushText read (body.reverse ++ text)) (q :: rest) := by
  have hspecial := hq.not_special
  simp only [List.mem_cons, List.not_mem_nil, or_false, not_or] at hspecial
  obtain ⟨hescape, hdollar, hbrace⟩ := hspecial
  have hat : ∀ c, (StringEnd.quote q).isAt c = true ↔ c = q := fun c => beq_iff_eq
  induction h generalizing text with
  | nil => exact .of_close
  | @ordinary c body hc _ ih =>
      simp only [List.mem_cons, List.not_mem_nil, or_false, not_or] at hc
      have hpiece : Piece.ofChar (.quote q) c (body ++ q :: rest) = .char :=
        Piece.ofChar_eq_char_iff.mpr ⟨by rw [hat]; exact hc.1, hc.2.1, fun h => hc.2.2.1 h.1,
          fun h => hc.2.2.2 h.1⟩
      exact .of_char (by simp) hpiece (by simpa [StringEnd.advance] using ih (c :: text))
  | @escape d body _ ih =>
      have hrest := ih (d :: '\\' :: text)
      exact .of_escape (by simp) (by rw [hat]; exact Ne.symm hescape) (by simpa [StringEnd.advance] using hrest)
  | @dollar body hopens _ ih =>
      have hpiece : Piece.ofChar (.quote q) '$' (body ++ q :: rest) = .char :=
        Piece.ofChar_eq_char_iff.mpr ⟨by rw [hat]; exact Ne.symm hdollar, by decide, by simp [hopens], by simp⟩
      exact .of_char (by simp) hpiece (by simpa [StringEnd.advance] using ih ('$' :: text))
  | @brace body hopens _ ih =>
      have hpiece : Piece.ofChar (.quote q) '\x7b' (body ++ q :: rest) = .char :=
        Piece.ofChar_eq_char_iff.mpr ⟨by rw [hat]; exact Ne.symm hbrace, by decide, by simp, by simp [hopens]⟩
      exact .of_char (by simp) hpiece (by simpa [StringEnd.advance] using ih ('\x7b' :: text))

/-- The scanner of a quoted string stops at its quote. -/
theorem StringReads.rest_eq (h : StringReads (.quote q) read text s read' rest) : ∃ after, rest = q :: after :=
  (scanners_add.2 h).closes q rfl

/-- **Any other contents have an interpolated part**: what the scanner reads up to the closing quote is
    plain and one piece of text, or there is a lexeme among it that starts an interpolated part. -/
theorem StringReads.plain_or_interpolated (h : StringReads (.quote q) read text s read' rest) :
    (∃ body, s = body ++ rest ∧ PlainBody q rest body ∧ read' = flushText read (body.reverse ++ text))
      ∨ ∃ new, read' = new.reverse ++ read ∧ Interpolated new := by
  induction hlength : s.length using Nat.strongRecOn generalizing s text with
  | ind length ih =>
    subst hlength
    by_cases hpart : (Piece.read (.quote q) s).isPart
    · obtain ⟨part, more, hkind, hread⟩ := (scanners_add.2 h).starts hpart
      refine .inr ⟨textPiece text.reverse ++ part :: more, ?_, text.reverse, part, more, rfl, hkind⟩
      rw [hread, flushText_eq]
      simp
    cases h.step with
    | close => exact .inl ⟨[], rfl, .nil, rfl⟩
    | @escape _ _ _ _ s _ _ hrest =>
        cases s with
        | nil => cases hrest.step
        | cons d t =>
            rcases ih t.length (by simp only [List.length_cons]; omega) hrest rfl with ⟨body, ht, hbody, hread⟩ | hother
            · obtain rfl : t = body ++ rest := ht
              exact .inl ⟨'\\' :: d :: body, rfl, .escape hbody, by simpa using hread⟩
            · exact .inr hother
    | @char _ _ _ c _ s _ _ _ hrest hpiece =>
        obtain ⟨hat, hescape, hdollar, hbrace⟩ := Piece.ofChar_eq_char_iff.mp hpiece
        rcases ih s.length (by simp) hrest rfl with ⟨body, rfl, hbody, hread⟩ | hother
        · have hquote : c ≠ q := fun heq => hat (beq_iff_eq.mpr heq)
          exact .inl ⟨c :: body, rfl, hbody.of_char hquote hescape hdollar hbrace, by simpa using hread⟩
        · exact .inr hother
    | simple _ _ hpiece | braces _ _ _ hpiece | named _ _ hpiece | dollarBraces _ _ _ hpiece =>
        rw [hpiece] at hpart
        exact absurd rfl hpart

/-- At most one piece of text, and nothing else. -/
def IsTextOnly (new : List Lexeme) : Prop :=
  new = [] ∨ ∃ text, new = [⟨.of .stringText, text⟩]

theorem isTextOnly_textPiece (text : List Char) : IsTextOnly (textPiece text) := by
  cases text with
  | nil => exact .inl rfl
  | cons c text => exact .inr ⟨c :: text, rfl⟩

/-- The lexeme that starts an interpolated part is no text. -/
theorem Interpolated.not_isTextOnly {new : List Lexeme} (h : Interpolated new) : ¬ IsTextOnly new := by
  obtain ⟨text, part, more, rfl, hkind⟩ := h
  intro hnew
  have hpart : part.rawKind = .stringText := by
    rcases hnew with hnil | ⟨piece, hone⟩
    · simp at hnil
    · cases text with
      | nil =>
          obtain ⟨rfl, _⟩ := List.cons.inj hone
          rfl
      | cons c text => simp [textPiece] at hone
  rw [hpart] at hkind
  simp at hkind

/-! ## The body of a heredoc -/

/-- Two characters at which an interpolated part starts. -/
def OpensPart (c d : Char) : Prop :=
  c = '$' ∧ opensInterpolation d ∨ c = '\x7b' ∧ d = '$'

/-- The search for an interpolated part looks at every two neighbours. -/
theorem hasInterpolation_iff :
    hasInterpolation text ↔ ∃ before c d after, text = before ++ c :: d :: after ∧ OpensPart c d := by
  induction text with
  | nil => simp [hasInterpolation]
  | cons c s ih =>
      rw [hasInterpolation, Bool.or_eq_true_iff, ih]
      constructor
      · rintro (hhere | ⟨before, d, e, after, rfl, hopens⟩)
        · cases s with
          | nil => simp [startsIn] at hhere
          | cons d s => exact ⟨[], c, d, s, rfl, by simpa [OpensPart, startsIn] using hhere⟩
        · exact ⟨c :: before, d, e, after, rfl, hopens⟩
      · rintro ⟨before, d, e, after, heq, hopens⟩
        cases before with
        | nil =>
            cases heq
            exact .inl (by simpa [OpensPart, startsIn] using hopens)
        | cons _ before =>
            obtain ⟨rfl, rfl⟩ := List.cons.inj heq
            exact .inr ⟨before, d, e, after, rfl, hopens⟩

theorem startsIn_take {p : Char → Bool} (hn : n ≠ 0) : startsIn p (s.take n) = startsIn p s := by
  obtain ⟨m, rfl⟩ := Nat.exists_eq_succ_of_ne_zero hn
  cases s <;> rfl

/-- The last character of a body is a line feed, so a dollar sign or brace has its neighbour in the body. -/
theorem EndsLine.startsIn_take {c : Char} {p : Char → Bool} {s : List Char} {n : Nat}
    (hends : EndsLine (c :: s.take n)) (hc : c ≠ '\n') : startsIn p (s.take n) = startsIn p s := by
  apply Unassigned.startsIn_take
  rintro rfl
  rcases hends with hnil | hlast
  · cases hnil
  · exact hc (by simpa using hlast)

/-- **The body of a heredoc without interpolated parts** is one piece of text to the scanner. -/
theorem reads_of_not_hasInterpolation (hle : n ≤ s.length) (hends : EndsLine (s.take n))
    (hplain : hasInterpolation (s.take n) = false) (read : List Lexeme) (text : List Char) :
    StringReads (.after n) read text s (flushText read ((s.take n).reverse ++ text)) (s.drop n) := by
  induction n using Nat.strongRecOn generalizing s text with
  | ind n ih =>
    cases n with
    | zero => exact .of_over
    | succ n =>
      cases s with
      | nil => exact absurd hle (Nat.not_succ_le_zero n)
      | cons c s =>
        rw [List.take_succ_cons] at hends hplain ⊢
        replace hle : n ≤ s.length := Nat.le_of_succ_le_succ hle
        rw [hasInterpolation, Bool.or_eq_false_iff, Bool.or_eq_false_iff] at hplain
        obtain ⟨⟨hdollar, hbrace⟩, hplain⟩ := hplain
        by_cases hc : c = '\\'
        · subst hc
          -- the body does not end here, so the escaped character belongs to it
          obtain ⟨k, rfl⟩ : ∃ k, n = k + 1 := by
            apply Nat.exists_eq_succ_of_ne_zero
            rintro rfl
            rcases hends with hnil | hlast
            · cases hnil
            · simp at hlast
          cases s with
          | nil => exact absurd hle (Nat.not_succ_le_zero k)
          | cons d s =>
            rw [List.take_succ_cons] at hends hplain ⊢
            rw [hasInterpolation, Bool.or_eq_false_iff] at hplain
            have hreads := ih k (by omega) (Nat.le_of_succ_le_succ hle) hends.of_cons.of_cons hplain.2
              (d :: '\\' :: text)
            exact .of_escape (by simp) (by simp [StringEnd.isAt]) (by simpa [StringEnd.advance] using hreads)
        · have hpiece : Piece.ofChar (.after (n + 1)) c s = .char := by
            refine Piece.ofChar_eq_char_iff.mpr ⟨by simp [StringEnd.isAt], hc, ?_, ?_⟩
            · rintro ⟨rfl, hopens⟩
              rw [← hends.startsIn_take (by decide)] at hopens
              simp [hopens] at hdollar
            · rintro ⟨rfl, hopens⟩
              rw [← hends.startsIn_take (by decide)] at hopens
              simp [hopens] at hbrace
          have hreads := ih n (Nat.lt_succ_self n) hle hends.of_cons hplain (c :: text)
          exact .of_char (by simp) hpiece (by simpa [StringEnd.advance] using hreads)

/-! ## The short ways agree with the scanner -/

/-- **A plain string** in quotes `q` stands in the text from `p` to before `e`: the opening quote, plain
    contents and the closing quote. -/
def PlainStringAt (q : Char) (text : List Char) (p e : Nat) : Prop :=
  ∃ body rest, text.drop p = q :: body ++ q :: rest ∧ e = p + body.length + 2 ∧ PlainBody q (q :: rest) body

/-- Around a place in a text: what is in front of it and what is behind. -/
theorem drop_eq_cons (hp : text[p]? = some q) : text.drop p = q :: text.drop (p + 1) := by
  obtain ⟨hlt, rfl⟩ := List.getElem?_eq_some_iff.mp hp
  exact List.drop_eq_getElem_cons hlt

theorem plainStringAt_iff (hp : text[p]? = some q) :
    PlainStringAt q text p e ↔ ∃ body rest, text.drop (p + 1) = body ++ q :: rest
      ∧ e = p + body.length + 2 ∧ PlainBody q (q :: rest) body := by
  unfold PlainStringAt
  rw [drop_eq_cons hp]
  simp only [List.cons_append, List.cons.injEq, true_and]

/-- At a quote the text behind it decides whether the string is taken as a whole. -/
theorem Item.read_quote (hq : IsStringQuote q) (s : List Char) :
    Item.read q s = ((plainStringLength? q s).map (Item.lexeme (.of .stringLiteral))).getD .quote := by
  rcases hq with rfl | rfl
  · unfold read
    cases plainStringLength? _ s <;> rfl
  · unfold read
    cases plainStringLength? _ s <;> rfl

/-- The string that the pattern finds is the one that is taken as a whole. -/
theorem plainStringAt_iff_read (hq : IsStringQuote q) (hp : text[p]? = some q) :
    PlainStringAt q text p e
      ↔ p < e ∧ Item.read q (text.drop (p + 1)) = .lexeme (.of .stringLiteral) (e - (p + 1)) := by
  rw [plainStringAt_iff hp, Item.read_quote hq]
  constructor
  · rintro ⟨body, rest, htext, rfl, hbody⟩
    have hlength := (plainStringLength?_eq_some_iff hq).mpr ⟨body, rest, htext, rfl, hbody⟩
    have heq : p + body.length + 2 - (p + 1) = body.length + 1 := by omega
    rw [hlength, heq]
    exact ⟨by omega, rfl⟩
  · rintro ⟨hlt, hitem⟩
    cases hlength : plainStringLength? q (text.drop (p + 1)) with
    | none =>
        rw [hlength] at hitem
        cases hitem
    | some length =>
        rw [hlength] at hitem
        obtain ⟨body, rest, htext, rfl, hbody⟩ := (plainStringLength?_eq_some_iff hq).mp hlength
        have heq : body.length + 1 = e - (p + 1) := (Item.lexeme.inj hitem).2
        exact ⟨body, rest, htext, by omega, hbody⟩

/-- The scanner reads a plain string from behind its opening quote to its closing quote. -/
theorem PlainStringAt.reads {q : Char} (hq : IsStringQuote q) {text : List Char} {p e : Nat}
    (hp : text[p]? = some q) (h : PlainStringAt q text p e) (read : List Lexeme) :
    text[e - 1]? = some q ∧ text.extract p e = q :: text.extract (p + 1) (e - 1) ++ [q]
      ∧ StringReads (.quote q) read [] (text.drop (p + 1))
          ((textPiece (text.extract (p + 1) (e - 1))).reverse ++ read) (text.drop (e - 1)) := by
  obtain ⟨body, rest, htext, rfl, hbody⟩ := (plainStringAt_iff hp).mp h
  have hrest : text.drop (p + body.length + 2 - 1) = q :: rest := by
    have hplace : p + body.length + 2 - 1 = p + 1 + body.length := by omega
    rw [hplace, ← List.drop_drop, htext, List.drop_left]
  have hlast : text[p + body.length + 2 - 1]? = some q := by
    rw [← List.head?_drop, hrest]
    rfl
  have hinner : text.extract (p + 1) (p + body.length + 2 - 1) = body := by
    have hplace : p + body.length + 2 - 1 - (p + 1) = body.length := by omega
    rw [List.extract_eq_take_drop, hplace, htext, List.take_left]
  have houter : text.extract p (p + body.length + 2) = q :: body ++ [q] := by
    have hplace : p + body.length + 2 - p = (q :: body ++ [q]).length := by
      simp only [List.length_append, List.length_cons, List.length_nil]
      omega
    have hdrop : text.drop p = (q :: body ++ [q]) ++ rest := by
      rw [drop_eq_cons hp, htext]
      simp
    rw [List.extract_eq_take_drop, hplace, hdrop, List.take_left]
  have hreads := hbody.reads hq read []
  rw [List.append_nil, flushText_eq, List.reverse_reverse, ← htext] at hreads
  rw [hinner, houter, hrest]
  exact ⟨hlast, rfl, hreads⟩

/-- What the scanner reads as nothing but text up to a quote is a plain string. -/
theorem plainStringAt_of_reads (hp : text[p]? = some q) {new : List Lexeme} (htextOnly : IsTextOnly new)
    (h : StringReads (.quote q) read [] (text.drop (p + 1)) (new.reverse ++ read) (text.drop (e - 1))) :
    PlainStringAt q text p e := by
  obtain ⟨after, hafter⟩ := h.rest_eq
  rcases h.plain_or_interpolated with ⟨body, hbody, hplain, _⟩ | ⟨new', hread, hnew'⟩
  · rw [hafter] at hplain
    refine (plainStringAt_iff hp).mpr ⟨body, after, by rw [hbody, hafter], ?_, hplain⟩
    have hlength := congrArg List.length hbody
    have hrest := congrArg List.length hafter
    simp only [List.length_append, List.length_drop, List.length_cons] at hlength hrest
    omega
  · obtain rfl : new = new' := List.reverse_inj.mp (List.append_cancel_right hread)
    exact absurd htextOnly hnew'.not_isTextOnly

/-- **The short ways agree with the scanner of string contents.** At an opening quote the pattern of a plain
    string finds a string that ends before `e` exactly if the string is taken as one lexeme of that length,
    and exactly if the scanner of string contents, started behind the quote, stops at the quote at `e - 1`
    with nothing but at most one piece of text; the piece is then what stands between the quotes. And over
    the body of a heredoc for which the search finds no interpolated part, that is in which no two neighbours
    start one, the scanner adds what the short way adds: the body as one piece of text, or nothing if it is empty. -/
theorem stringShortcuts_agree (source : String) :
    (∀ p q, source.toList[p]? = some q → IsStringQuote q → ∀ e read,
      let text := source.toList
      (PlainStringAt q text p e
        ↔ p < e ∧ Item.read q (text.drop (p + 1)) = .lexeme (.of .stringLiteral) (e - (p + 1)))
      ∧ (PlainStringAt q text p e ↔ ∃ new,
          StringReads (.quote q) read [] (text.drop (p + 1)) (new.reverse ++ read) (text.drop (e - 1))
            ∧ text[e - 1]? = some q ∧ IsTextOnly new)
      ∧ (PlainStringAt q text p e → ∀ new rest,
          StringReads (.quote q) read [] (text.drop (p + 1)) (new.reverse ++ read) rest →
            rest = text.drop (e - 1) ∧ new = textPiece (text.extract (p + 1) (e - 1))
              ∧ text.extract p e = q :: text.extract (p + 1) (e - 1) ++ [q]))
    ∧ ∀ p label length closing,
      let text := source.toList.drop p
      heredocBody? label true text = some (length, closing) →
      (hasInterpolation (text.take length)
        ↔ ∃ before c d after, text.take length = before ++ c :: d :: after ∧ OpensPart c d)
      ∧ (hasInterpolation (text.take length) = false → ∀ read,
        flushText read (text.take length).reverse = (textPiece (text.take length)).reverse ++ read
        ∧ StringReads (.after length) read [] text ((textPiece (text.take length)).reverse ++ read)
            (text.drop length)) := by
  constructor
  · intro p q hp hq e read
    refine ⟨plainStringAt_iff_read hq hp, ⟨?_, ?_⟩, ?_⟩
    · intro h
      obtain ⟨hlast, _, hreads⟩ := h.reads hq hp read
      exact ⟨_, hreads, hlast, isTextOnly_textPiece _⟩
    · rintro ⟨new, hreads, _, htextOnly⟩
      exact plainStringAt_of_reads hp htextOnly hreads
    · intro h new rest hreads'
      obtain ⟨_, houter, hreads⟩ := h.reads hq hp read
      obtain ⟨hread, hrest⟩ := hreads'.unique hreads
      exact ⟨hrest, List.reverse_inj.mp (List.append_cancel_right hread), houter⟩
  · intro p label length closing text hbody
    refine ⟨hasInterpolation_iff, fun hplain read => ?_⟩
    obtain ⟨_, hle, _, hends⟩ := heredocBody?_eq_some hbody
    have hflush := flushText_eq read (text.take length).reverse
    rw [List.reverse_reverse] at hflush
    refine ⟨hflush, ?_⟩
    have hreads := reads_of_not_hasInterpolation hle hends hplain read []
    rwa [List.append_nil, hflush] at hreads

/-- An escaped quote, a brace and a dollar sign before the closing quote are text, and so is a dollar sign at
    the end of a line of a heredoc. -/
theorem stringShortcuts_agree_specials :
    let text := "\"\\\"\x7b $\" <<<A\n5 $\nA;".toList
    (∃ new, StringReads (.quote '"') [] [] (text.drop 1) (new.reverse ++ []) (text.drop 6)
      ∧ text[6]? = some '"' ∧ IsTextOnly new)
    ∧ StringReads (.after 4) [] [] (text.drop 13) ((textPiece ['5', ' ', '$', '\n']).reverse ++ [])
        ((text.drop 13).drop 4) := by
  intro text
  have hshort := stringShortcuts_agree "\"\\\"\x7b $\" <<<A\n5 $\nA;"
  have htext : text = ['"', '\\', '"', '\x7b', ' ', '$', '"', ' ', '<', '<', '<', 'A', '\n', '5', ' ', '$', '\n',
      'A', ';'] := by decide
  rw [show String.toList _ = text from rfl, htext] at hshort
  rw [htext]
  obtain ⟨hitem, hreads, _⟩ := hshort.1 0 '"' rfl (.inl rfl) 7 []
  have hbody := (hshort.2 13 ['A'] 4 1 (by decide)).2 (by decide) []
  refine ⟨hreads.mp (hitem.mpr ⟨by decide, ?_⟩), hbody.2⟩
  rw [Item.read_quote (.inl rfl)]
  rfl

end Unassigned
