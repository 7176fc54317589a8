import Mathlib.Logic.Relation
import Unassigned.Proofs.Lossless

/-!
# `Proofs.ScannerCalls` — the calls of the scanners

The scanners of files, of code and of strings call each other. A `Call` is one of these calls with what it is given,
and `Call.next` lists the calls that it makes, in order: those for the parts of a construct, and the one that goes on
behind it. So everything that a scanner does to a source is done in a call that the call for the whole source
**leads to**.

In a source that is accepted all these calls succeed, each on a part of the source that starts somewhere and goes up
to its end, and the lexemes that a call has read at its end are the first of those of the whole source
(`Call.Leads.returns`).
-/

namespace Unassigned

/-! ## Calls -/

/-- A call of a scanner: the lexemes read before it, and the text from its place on. -/
inductive Call where
  | file (read : List Lexeme) (s : List Char)
  | code (stop : CodeEnd) (read : List Lexeme) (s : List Char)
  | string (stop : StringEnd) (read : List Lexeme) (text s : List Char)

namespace Call

/-- The text from the place of the call on. -/
def input : Call → List Char
  | .file _ s | .code _ _ s | .string _ _ _ s => s

/-- The call succeeds with the lexemes `read'` and leaves `rest`. -/
def Returns : Call → List Lexeme → List Char → Prop
  | .file read s, read', rest => scanFile read s = .ok read' ∧ rest = []
  | .code stop read s, read', rest => CodeReads stop read s read' rest
  | .string stop read text s, read', rest => StringReads stop read text s read' rest

/-- The calls behind a part that was scanned, if that succeeded. -/
def behind {s : List Char} (result : Except ParseError (Scanned s)) (next : List Lexeme → List Char → List Call) :
    List Call :=
  match result with
  | .ok part => next part.1 part.2.1
  | .error _ => []

/-- The calls that a call for a place in code makes. -/
def nextInCode (stop : CodeEnd) (read : List Lexeme) (c : Char) (s : List Char) : List Call :=
  match Item.read c s with
  | .lexeme shape more =>
    match stop.after shape with
    | some stop' => [.code stop' (⟨shape, c :: s.take more⟩ :: read) (s.drop more)]
    | none => []
  | .quote =>
    let opened := charLexeme c :: read
    .string (.quote c) opened [] s :: behind (scanString maxNesting (.quote c) opened [] s) fun mid rest =>
      match rest with
      | [] => []
      | _ :: rest => [.code stop (charLexeme c :: mid) rest]
  | .heredoc more label isNowdoc =>
    let opened := ⟨.of .heredocStart, c :: s.take more⟩ :: read
    let body := s.drop more
    match heredocBody? label true body with
    | none => []
    | some (length, closing) =>
      let ended (mid : List Lexeme) : Call :=
        .code stop (⟨.of .heredocEnd, (body.drop length).take closing⟩ :: mid) (body.drop (length + closing))
      if isNowdoc || !hasInterpolation (body.take length) then [ended (flushText opened (body.take length).reverse)]
      else .string (.after length) opened [] body
        :: behind (scanString maxNesting (.after length) opened [] body) fun mid _ => [ended mid]
  | .closeTag _ | .openComment | .openString => []

/-- The calls that a call for a place inside a string makes. -/
def nextInString (stop : StringEnd) (read : List Lexeme) (text s : List Char) : List Call :=
  match Piece.read stop s, s with
  | .escape, c :: s => [.string (stop.advance 2) read (s.take 1 ++ c :: text) (s.drop 1)]
  | .simple, _ :: s =>
    let (lexemes, length) := simpleInterpolation s
    [.string (stop.advance (1 + length)) (lexemes.reverse ++ flushText read text) [] (s.drop length)]
  | .braces, _ :: s =>
    let opened := ⟨.of .curlyOpen, ['\x7b']⟩ :: flushText read text
    .code (.brace 0) opened s :: behind (scanCode maxNesting (.brace 0) opened s) fun mid rest =>
      [.string (stop.advance (1 + (s.length - rest.length))) mid [] rest]
  | .named name, _ :: _ :: inside =>
    [.string (stop.advance (name + 3)) (charLexeme '\x7d' :: ⟨.of .stringVarName, inside.take name⟩
      :: ⟨.of .dollarCurlyOpen, ['$', '\x7b']⟩ :: flushText read text) [] (inside.drop (name + 1))]
  | .dollarBraces, _ :: _ :: inside =>
    let opened := ⟨.of .dollarCurlyOpen, ['$', '\x7b']⟩ :: flushText read text
    .code (.brace 0) opened inside :: behind (scanCode maxNesting (.brace 0) opened inside) fun mid rest =>
      [.string (stop.advance (2 + (inside.length - rest.length))) mid [] rest]
  | .char, c :: s => [.string (stop.advance 1) read (c :: text) s]
  | _, _ => []

/-- **The calls that a call makes**, in order. -/
def next : Call → List Call
  | .file read s =>
    match s.drop (htmlLength s) with
    | '<' :: '?' :: rest =>
      let opened := openTag rest :: readHtml read s
      let code := rest.drop (openTagMore rest)
      .code .file opened code :: behind (scanCode maxNesting .file opened code) fun mid rest => [.file mid rest]
    | _ => []
  | .code _ _ [] => []
  | .code stop read (c :: s) => nextInCode stop read c s
  | .string stop read text s => nextInString stop read text s

/-- A call leads to another: it is the same, or the other is made in a call that it leads to. -/
abbrev Leads : Call → Call → Prop :=
  Relation.ReflTransGen fun a b => b ∈ a.next

theorem behind_of_code {stop : CodeEnd} {read mid : List Lexeme} {s rest : List Char}
    (h : CodeReads stop read s mid rest) (next : List Lexeme → List Char → List Call) :
    behind (scanCode maxNesting stop read s) next = next mid rest := by
  obtain ⟨r, hr, rfl, rfl⟩ := h
  rw [hr]
  rfl

theorem behind_of_string {stop : StringEnd} {read mid : List Lexeme} {text s rest : List Char}
    (h : StringReads stop read text s mid rest) (next : List Lexeme → List Char → List Call) :
    behind (scanString maxNesting stop read text s) next = next mid rest := by
  obtain ⟨r, hr, rfl, rfl⟩ := h
  rw [hr]
  rfl

/-! ## The calls of a call that succeeds -/

section

variable {stop : CodeEnd} {read mid : List Lexeme} {c : Char} {s : List Char}
variable {more : Nat}

/-- Behind an item the code goes on, unless the item ends it. -/
theorem next_lexeme {shape : Shape} (hitem : Item.read c s = .lexeme shape more) :
    next (.code stop read (c :: s)) = ((stop.after shape).map fun stop' =>
      .code stop' (⟨shape, c :: s.take more⟩ :: read) (s.drop more)).toList := by
  show nextInCode stop read c s = _
  delta nextInCode
  rw [hitem]
  dsimp only
  cases stop.after shape <;> rfl

theorem next_closeTag (hitem : Item.read c s = .closeTag more) : next (.code stop read (c :: s)) = [] := by
  show nextInCode stop read c s = _
  delta nextInCode
  rw [hitem]

/-- The inside of a string is read first, then the code behind its closing quote. -/
theorem next_quote {d : Char} {after : List Char} (hitem : Item.read c s = .quote)
    (hstring : StringReads (.quote c) (charLexeme c :: read) [] s mid (d :: after)) :
    next (.code stop read (c :: s))
      = [.string (.quote c) (charLexeme c :: read) [] s, .code stop (charLexeme c :: mid) after] := by
  show nextInCode stop read c s = _
  delta nextInCode
  rw [hitem]
  dsimp only
  rw [behind_of_string hstring]

/-- The body is read first if it has interpolated parts, then the code from the closing label on. -/
theorem next_heredoc {label : List Char} {length closing : Nat} {isNowdoc : Bool}
    (hitem : Item.read c s = .heredoc more label isNowdoc)
    (hbody : heredocBody? label true (s.drop more) = some (length, closing))
    (hmid : HeredocReads StringReads isNowdoc length (⟨.of .heredocStart, c :: s.take more⟩ :: read) (s.drop more)
      mid) :
    next (.code stop read (c :: s))
      = (if isNowdoc || !hasInterpolation ((s.drop more).take length) then []
          else [.string (.after length) (⟨.of .heredocStart, c :: s.take more⟩ :: read) [] (s.drop more)])
        ++ [.code stop (⟨.of .heredocEnd, ((s.drop more).drop length).take closing⟩ :: mid)
          ((s.drop more).drop (length + closing))] := by
  show nextInCode stop read c s = _
  delta nextInCode
  rw [hitem]
  dsimp only
  rw [hbody]
  dsimp only
  cases hmid with
  | literal hliteral => rw [if_pos hliteral, if_pos hliteral, List.nil_append]
  | interpolated hstring hparts => rw [if_neg hparts, if_neg hparts, behind_of_string hstring, List.singleton_append]

end

section

variable {stop : StringEnd} {read mid : List Lexeme} {text s rest inside : List Char} {c : Char}

theorem next_done (h : Piece.read stop s = .done) : next (.string stop read text s) = [] := by
  show nextInString _ _ _ _ = _
  delta nextInString
  rw [h]

theorem next_escape (h : Piece.read stop (c :: s) = .escape) : next (.string stop read text (c :: s))
    = [.string (stop.advance 2) read (s.take 1 ++ c :: text) (s.drop 1)] := by
  show nextInString _ _ _ _ = _
  delta nextInString
  rw [h]

/-- A variable in a string takes no call of its own. -/
theorem next_simple (h : Piece.read stop (c :: s) = .simple) : next (.string stop read text (c :: s))
    = [.string (stop.advance (1 + (simpleInterpolation s).2))
        ((simpleInterpolation s).1.reverse ++ flushText read text) [] (s.drop (simpleInterpolation s).2)] := by
  show nextInString _ _ _ _ = _
  delta nextInString
  rw [h]

/-- The expression is read first, then the string behind it. -/
theorem next_braces (h : Piece.read stop (c :: s) = .braces)
    (hcode : CodeReads (.brace 0) (⟨.of .curlyOpen, ['\x7b']⟩ :: flushText read text) s mid rest) :
    next (.string stop read text (c :: s))
      = [.code (.brace 0) (⟨.of .curlyOpen, ['\x7b']⟩ :: flushText read text) s,
        .string (stop.advance (1 + (s.length - rest.length))) mid [] rest] := by
  show nextInString _ _ _ _ = _
  delta nextInString
  rw [h]
  dsimp only
  rw [behind_of_code hcode]

theorem next_named {name : Nat} {d : Char} (h : Piece.read stop (c :: d :: inside) = .named name) :
    next (.string stop read text (c :: d :: inside))
      = [.string (stop.advance (name + 3)) (charLexeme '\x7d' :: ⟨.of .stringVarName, inside.take name⟩
          :: ⟨.of .dollarCurlyOpen, ['$', '\x7b']⟩ :: flushText read text) [] (inside.drop (name + 1))] := by
  show nextInString _ _ _ _ = _
  delta nextInString
  rw [h]

theorem next_dollarBraces {d : Char} (h : Piece.read stop (c :: d :: inside) = .dollarBraces)
    (hcode : CodeReads (.brace 0) (⟨.of .dollarCurlyOpen, ['$', '\x7b']⟩ :: flushText read text) inside mid rest) :
    next (.string stop read text (c :: d :: inside))
      = [.code (.brace 0) (⟨.of .dollarCurlyOpen, ['$', '\x7b']⟩ :: flushText read text) inside,
        .string (stop.advance (2 + (inside.length - rest.length))) mid [] rest] := by
  show nextInString _ _ _ _ = _
  delta nextInString
  rw [h]
  dsimp only
  rw [behind_of_code hcode]

theorem next_char (h : Piece.read stop (c :: s) = .char) : next (.string stop read text (c :: s))
    = [.string (stop.advance 1) read (c :: text) s] := by
  show nextInString _ _ _ _ = _
  delta nextInString
  rw [h]

end

end Call

/-! ## What a call leaves -/

variable {read read' : List Lexeme} {s : List Char}

/-- Lexemes that were read stay. -/
theorem CodeReads.suffix_read {stop : CodeEnd} {rest : List Char} (h : CodeReads stop read s read' rest) :
    read <:+ read' := by
  obtain ⟨new, rfl, _⟩ := scanners_add.1 h
  exact List.suffix_append _ _

theorem StringReads.suffix_read {stop : StringEnd} {text rest : List Char}
    (h : StringReads stop read text s read' rest) : read <:+ read' := by
  obtain ⟨new, rfl, _⟩ := (scanners_add.2 h).adds
  exact List.suffix_append _ _

/-- **What a scanner leaves** is the end of what it was given. -/
theorem scanners_suffix : (∀ {stop read s read' rest}, CodeReads stop read s read' rest → rest <:+ s)
    ∧ ∀ {stop read text s read' rest}, StringReads stop read text s read' rest → rest <:+ s := by
  have hdrop : ∀ {c : Char} {t : List Char} {k : Nat}, t.drop k <:+ c :: t :=
    (List.drop_suffix _ _).trans (List.suffix_cons _ _)
  apply scanners_induction
  · intro stop read s read' rest h
    cases h with
    | done => exact List.suffix_rfl
    | last | closeTag => exact hdrop
    | lexeme _ _ hrest => exact hrest.2.trans hdrop
    | quote _ hstring hrest =>
        -- the string is left at its closing quote, and code goes on behind it
        exact ((hrest.2.trans (List.suffix_cons _ _)).trans hstring.2).trans (List.suffix_cons _ _)
    | heredoc _ _ _ hrest => exact (hrest.2.trans (List.drop_suffix _ _)).trans hdrop
  · intro stop read text s read' rest h
    cases h with
    | done | close => exact List.suffix_rfl
    | escape _ hrest | simple _ hrest => exact hrest.2.trans hdrop
    | braces hcode _ hrest => exact (hrest.2.trans hcode.2).trans (List.suffix_cons _ _)
    | named _ hrest => exact (hrest.2.trans hdrop).trans (List.suffix_cons _ _)
    | dollarBraces hcode _ hrest =>
        exact ((hrest.2.trans hcode.2).trans (List.suffix_cons _ _)).trans (List.suffix_cons _ _)
    | char _ _ hrest => exact hrest.2.trans (List.suffix_cons _ _)

namespace Call

variable {read read' : List Lexeme} {s rest : List Char} {b : Call}

/-- A call succeeds in a call that has the lexemes `read'` at its end, on a part of its text. -/
def SucceedsIn (b : Call) (read' : List Lexeme) (s : List Char) : Prop :=
  ∃ mid rest, b.Returns mid rest ∧ mid <:+ read' ∧ b.input <:+ s

/-- A call of the scanner of code that returned. -/
theorem SucceedsIn.code {stop : CodeEnd} {read mid read' : List Lexeme} {s t rest : List Char}
    (h : CodeReads stop read t mid rest) (hread : mid <:+ read') (hs : t <:+ s) :
    (Call.code stop read t).SucceedsIn read' s :=
  ⟨mid, rest, h, hread, hs⟩

theorem SucceedsIn.string {stop : StringEnd} {read mid read' : List Lexeme} {text s t rest : List Char}
    (h : StringReads stop read text t mid rest) (hread : mid <:+ read') (hs : t <:+ s) :
    (Call.string stop read text t).SucceedsIn read' s :=
  ⟨mid, rest, h, hread, hs⟩

/-- **The calls that a scan makes have returned if it has.** -/
theorem succeedsIn_of_file (h : scanFile read s = .ok read') (hb : b ∈ next (.file read s)) :
    b.SucceedsIn read' s := by
  rcases scanFile_step h with ⟨hempty, _⟩ | ⟨rest, mid, after, htag, hcode, hfile, _⟩
  · simp only [next, hempty] at hb
    cases hb
  · have hrest : rest <:+ s := by
      have hsub := List.drop_suffix (htmlLength s) s
      rw [htag] at hsub
      exact ((List.suffix_cons _ _).trans (List.suffix_cons _ _)).trans hsub
    have hinside : rest.drop (openTagMore rest) <:+ s := (List.drop_suffix _ _).trans hrest
    have hafter := (scanners_suffix.1 hcode).trans hinside
    have hread : mid <:+ read' := by
      obtain ⟨new, rfl, _⟩ := scanFile_adds hfile
      exact List.suffix_append _ _
    simp only [next, htag, behind_of_code hcode, List.mem_cons, List.not_mem_nil, or_false] at hb
    rcases hb with rfl | rfl
    · exact .code hcode hread hinside
    · exact ⟨read', [], ⟨hfile, rfl⟩, List.suffix_rfl, hafter⟩

theorem succeedsIn_of_code {stop : CodeEnd} (h : CodeReads stop read s read' rest) (hb : b ∈ next (.code stop read s)) :
    b.SucceedsIn read' s := by
  have hcons : ∀ {c : Char} {t u : List Char}, u <:+ t → u <:+ c :: t := fun h => h.trans (List.suffix_cons _ _)
  cases h.step with
  | done => cases hb
  | last hitem hstop =>
      rw [next_lexeme hitem, hstop] at hb
      cases hb
  | closeTag hitem =>
      rw [next_closeTag hitem] at hb
      cases hb
  | lexeme hitem hstop hrest =>
      rw [next_lexeme hitem, hstop] at hb
      obtain rfl := List.mem_singleton.mp hb
      exact .code hrest List.suffix_rfl (hcons (List.drop_suffix _ _))
  | @quote _ _ _ _ c d s after _ hitem hstring hrest =>
      have hafter : after <:+ s := (List.suffix_cons d after).trans (scanners_suffix.2 hstring)
      rw [next_quote hitem hstring, List.mem_cons, List.mem_singleton] at hb
      rcases hb with rfl | rfl
      · exact .string hstring ((List.suffix_cons _ _).trans hrest.suffix_read) (hcons List.suffix_rfl)
      · exact .code hrest List.suffix_rfl (hcons hafter)
  | @heredoc _ _ mid _ c s _ _ more length closing isNowdoc hitem hbody hmid hrest =>
      rw [next_heredoc hitem hbody hmid, List.mem_append, List.mem_singleton] at hb
      rcases hb with hb | rfl
      · -- a call for the body, which only one with interpolated parts has
        cases hmid with
        | literal hliteral =>
            rw [if_pos hliteral] at hb
            cases hb
        | interpolated hstring hparts =>
            rw [if_neg hparts, List.mem_singleton] at hb
            obtain rfl := hb
            exact .string hstring ((List.suffix_cons _ _).trans hrest.suffix_read) (hcons (List.drop_suffix _ _))
      · exact .code hrest List.suffix_rfl (hcons ((List.drop_suffix _ _).trans (List.drop_suffix _ _)))

theorem succeedsIn_of_string {stop : StringEnd} {text : List Char} (h : StringReads stop read text s read' rest)
    (hb : b ∈ next (.string stop read text s)) : b.SucceedsIn read' s := by
  have hcons : ∀ {c : Char} {t u : List Char}, u <:+ t → u <:+ c :: t := fun h => h.trans (List.suffix_cons _ _)
  cases h.step with
  | done hover =>
      rw [next_done (Piece.read_of_over hover)] at hb
      cases hb
  | close =>
      rw [next_done (Piece.read_of_close _ _)] at hb
      cases hb
  | escape _ hrest hpiece =>
      rw [next_escape hpiece, List.mem_singleton] at hb
      obtain rfl := hb
      exact .string hrest List.suffix_rfl (hcons (List.drop_suffix _ _))
  | simple _ hrest hpiece =>
      rw [next_simple hpiece, List.mem_singleton] at hb
      obtain rfl := hb
      exact .string hrest List.suffix_rfl (hcons (List.drop_suffix _ _))
  | braces hcode hstop hrest hpiece =>
      subst hstop
      rw [next_braces hpiece hcode, List.mem_cons, List.mem_singleton] at hb
      rcases hb with rfl | rfl
      · exact .code hcode hrest.suffix_read (hcons List.suffix_rfl)
      · exact .string hrest List.suffix_rfl (hcons (scanners_suffix.1 hcode))
  | named _ hrest hpiece =>
      rw [next_named hpiece, List.mem_singleton] at hb
      obtain rfl := hb
      exact .string hrest List.suffix_rfl (hcons (hcons (List.drop_suffix _ _)))
  | dollarBraces hcode hstop hrest hpiece =>
      subst hstop
      rw [next_dollarBraces hpiece hcode, List.mem_cons, List.mem_singleton] at hb
      rcases hb with rfl | rfl
      · exact .code hcode hrest.suffix_read (hcons (hcons List.suffix_rfl))
      · exact .string hrest List.suffix_rfl (hcons (hcons (scanners_suffix.1 hcode)))
  | char _ _ hrest hpiece =>
      rw [next_char hpiece, List.mem_singleton] at hb
      obtain rfl := hb
      exact .string hrest List.suffix_rfl (hcons List.suffix_rfl)

/-- **All calls that a successful call leads to succeed**, on parts of its text, and their lexemes are the first ones
    of its lexemes. -/
theorem Leads.returns {a : Call} (h : a.Leads b) (ha : a.Returns read' rest) : b.SucceedsIn read' a.input := by
  induction h with
  | refl => exact ⟨read', rest, ha, List.suffix_rfl, List.suffix_rfl⟩
  | @tail b d _ hd ih =>
      -- one more call: it succeeds in the one that makes it, which succeeds in the first
      obtain ⟨mid, left, hb, hmid, hinput⟩ := ih
      have hsucceeds : d.SucceedsIn mid b.input := by
        cases b with
        | file read s => exact succeedsIn_of_file hb.1 hd
        | code stop read s => exact succeedsIn_of_code hb hd
        | string stop read text s => exact succeedsIn_of_string hb hd
      obtain ⟨mid', left', hreturns, hmid', hinput'⟩ := hsucceeds
      exact ⟨mid', left', hreturns, hmid'.trans hmid, hinput'.trans hinput⟩

end Call

end Unassigned
