import Unassigned.Proofs.LexerMachine

/-!
# `Proofs.LexerLoops` — the lexer always finishes

The machine of the loops does what the scanners do: from the start of a run over code or over a string it gets to the
end of it, with what the scanner returns (`Config.runs`), or it halts with the error of the scanner. So the lexer
returns what the machine halts with, and the machine always halts (`lexer_finishes`). It halts with the tokens of the
source or the error of a construct that does not end, unless it comes to an interpolated expression inside `maxNesting`
others.
-/

namespace Unassigned

namespace Config

variable {s : List Char}

/-! ## Runs of the machine -/

/-- Steps of the machine lead from one state to the other. -/
def Reaches (config config' : Config) : Prop :=
  ∃ n, run n config = config'

namespace Reaches

variable {config mid config' : Config}

theorem refl : Reaches config config :=
  ⟨0, rfl⟩

theorem head (hstep : config.step = mid) (h : Reaches mid config') : Reaches config config' := by
  obtain ⟨n, hn⟩ := h
  exact ⟨n + 1, by rw [run, hstep, hn]⟩

theorem trans (h : Reaches config mid) (h' : Reaches mid config') : Reaches config config' := by
  obtain ⟨m, rfl⟩ := h
  obtain ⟨n, rfl⟩ := h'
  exact ⟨m + n, run_add m n config⟩

end Reaches

/-! ## The machine does what the scanners do -/

/-- The end of a run of a loop, as a scanner has it. -/
def ending {s : List Char} (result : Except ParseError (Scanned s)) (waiting : List Suspended) : Config :=
  match result with
  | .ok scanned => .ended scanned.1 scanned.2.1 waiting
  | .error e => .halted (.error e)

theorem ending_within {t : List Char} (h : t.length ≤ s.length) (result : Except ParseError (Scanned t))
    (waiting : List Suspended) : ending (result.map (Scanned.within h)) waiting = ending result waiting := by
  cases result <;> rfl

/-- The room for interpolated expressions inside those that are being read. -/
def room (waiting : List Suspended) : Nat :=
  maxNesting - nesting waiting

/-- The machine does on `s` what the scanner of code does with the room that is left. -/
def RunsCode (s : List Char) : Prop :=
  ∀ stop read waiting,
    Reaches (.iteration (.code stop read s) waiting) (ending (scanCode (room waiting) stop read s) waiting)

/-- The machine does on `s` what the scanner of strings does with the room that is left. -/
def RunsString (s : List Char) : Prop :=
  ∀ stop read text waiting, Reaches (.iteration (.string stop read text s) waiting)
    (ending (scanString (room waiting) stop read text s) waiting)

section Items

variable {c : Char} (hshorter : ∀ t : List Char, t.length < (c :: s).length → RunsCode t ∧ RunsString t)
  (stop : CodeEnd) (read : List Lexeme) (waiting : List Suspended)

include hshorter

/-- A lexeme, and the code behind it unless it ends the run. -/
theorem reaches_lexeme {shape : Shape} {more : Nat} (hitem : Item.read c s = .lexeme shape more) :
    Reaches (stepCode stop read c s waiting) (ending (scanCode (room waiting) stop read (c :: s)) waiting) := by
  rw [scanCode, stepCode, hitem]
  dsimp only
  cases stop.after shape with
  | none => exact .refl
  | some stop' =>
      dsimp only
      rw [ending_within]
      exact (hshorter _ (Nat.lt_succ_of_le (length_drop_le more s))).1 _ _ _

/-- A string in quotes, and the code behind its closing quote. -/
theorem reaches_quote (hitem : Item.read c s = .quote) :
    Reaches (stepCode stop read c s waiting) (ending (scanCode (room waiting) stop read (c :: s)) waiting) := by
  rw [scanCode, stepCode, hitem]
  dsimp only
  refine .trans ((hshorter s (Nat.lt_succ_self _)).2 _ _ _ _) ?_
  show Reaches (ending (scanString (room waiting) (.quote c) (⟨.of (.char c), [c]⟩ :: read) [] s) _) _
  cases scanString (room waiting) (.quote c) (⟨.of (.char c), [c]⟩ :: read) [] s with
  | error e => exact .refl
  | ok scanned =>
      obtain ⟨mid, rest, hle⟩ := scanned
      refine .head rfl ?_
      cases rest with
      | nil => exact .refl
      | cons d after =>
          refine .trans ((hshorter after (Nat.lt_succ_of_lt hle)).1 _ _ _) ?_
          rw [← ending_within (le_length_cons c (Nat.le_of_succ_le hle))]
          exact .refl

/-- A heredoc, and the code behind its closing label. -/
theorem reaches_heredoc {more : Nat} {label : List Char} {isNowdoc : Bool}
    (hitem : Item.read c s = .heredoc more label isNowdoc) :
    Reaches (stepCode stop read c s waiting) (ending (scanCode (room waiting) stop read (c :: s)) waiting) := by
  rw [scanCode, stepCode, hitem]
  dsimp only
  have hbodyShort : (s.drop more).length < (c :: s).length := Nat.lt_succ_of_le (length_drop_le more s)
  cases heredocBody? label true (s.drop more) with
  | none => exact .refl
  | some found =>
      obtain ⟨length, closing⟩ := found
      dsimp only
      have hle := length_drop_le (length + closing) (s.drop more)
      have hwithin := le_length_cons c (Nat.le_trans hle (length_drop_le more s))
      -- however the body is read, the code behind the closing label is read next
      have hgoesOn : ∀ mid t, Reaches (resume mid t ⟨c :: s, .heredoc stop closing ((s.drop more).drop length)⟩
          waiting) (ending (scanCode (room waiting) stop
            (⟨.of .heredocEnd, ((s.drop more).drop length).take closing⟩ :: mid)
            ((s.drop more).drop (length + closing))) waiting) := by
        intro mid t
        have hruns := (hshorter _ (Nat.lt_of_le_of_lt hle hbodyShort)).1 stop
          (⟨.of .heredocEnd, ((s.drop more).drop length).take closing⟩ :: mid) waiting
        rw [← List.drop_drop] at hruns ⊢
        exact hruns
      by_cases hliteral : isNowdoc || !hasInterpolation ((s.drop more).take length)
      · rw [if_pos hliteral, if_pos hliteral]
        refine .trans (hgoesOn _ _) ?_
        rw [← ending_within hwithin]
        exact .refl
      · rw [if_neg hliteral, if_neg hliteral]
        refine .trans ((hshorter _ hbodyShort).2 _ _ _ _) ?_
        show Reaches (ending (scanString (room waiting) _ _ _ _) _) _
        cases scanString (room waiting) (.after length) (⟨.of .heredocStart, c :: s.take more⟩ :: read) []
          (s.drop more) with
        | error e => exact .refl
        | ok scanned =>
            refine .head rfl (.trans (hgoesOn scanned.1 scanned.2.1) ?_)
            rw [← ending_within hwithin]
            exact .refl

end Items

theorem runsCode_of_shorter (hshorter : ∀ t : List Char, t.length < s.length → RunsCode t ∧ RunsString t) :
    RunsCode s := by
  intro stop read waiting
  cases s with
  | nil =>
      cases stop with
      | file | brace =>
          rw [scanCode]
          exact .head rfl .refl
  | cons c s =>
      refine .head rfl ?_
      show Reaches (stepCode stop read c s waiting) _
      cases hitem : Item.read c s with
      | lexeme shape more => exact reaches_lexeme hshorter stop read waiting hitem
      | quote => exact reaches_quote hshorter stop read waiting hitem
      | heredoc more label isNowdoc => exact reaches_heredoc hshorter stop read waiting hitem
      | closeTag | openComment | openString =>
          rw [scanCode, stepCode, hitem]
          exact .refl

theorem room_expression (start : List Char) (stop : StringEnd) (waiting : List Suspended) :
    room (⟨start, .string stop⟩ :: waiting) = room waiting - 1 := by
  have hnesting : nesting (⟨start, .string stop⟩ :: waiting) = nesting waiting + 1 := List.countP_cons_of_pos rfl
  unfold room
  omega

/-- An interpolated expression in a string, and what goes on behind it, if there is room for one. -/
theorem reaches_interpolation {inside : List Char} {k : Nat} (hk : 0 < k) (hlength : s.length = k + inside.length)
    (hshorter : ∀ t : List Char, t.length < s.length → RunsCode t ∧ RunsString t) (stop : StringEnd)
    (read : List Lexeme) (waiting : List Suspended)
    (hle : ∀ after : { rest : List Char // rest.length ≤ inside.length }, after.1.length ≤ s.length) :
    Reaches (enter (.code (.brace 0) read inside) ⟨s, .string stop⟩ waiting)
      (ending (if room waiting = 0 then .error .tooDeep
        else scanCode (room waiting - 1) (.brace 0) read inside >>= fun (read, after) =>
          (scanString (room waiting) (stop.advance (k + (inside.length - after.1.length))) read [] after.1).map
            (Scanned.within (hle after))) waiting) := by
  unfold enter
  by_cases hdeep : maxNesting ≤ nesting waiting
  · have hroom : room waiting = 0 := Nat.sub_eq_zero_of_le hdeep
    rw [if_pos hdeep, if_pos hroom]
    exact .refl
  have hroom : room waiting ≠ 0 := Nat.sub_ne_zero_of_lt (Nat.lt_of_not_le hdeep)
  rw [if_neg hdeep, if_neg hroom]
  refine .trans ((hshorter inside (by omega)).1 _ _ _) ?_
  rw [room_expression]
  cases scanCode (room waiting - 1) (.brace 0) read inside with
  | error e => exact .refl
  | ok scanned =>
      obtain ⟨mid, after, hafter⟩ := scanned
      have hcount : s.length - after.length = k + (inside.length - after.length) := by omega
      refine .head rfl ?_
      show Reaches (.iteration (.string (stop.advance (s.length - after.length)) mid [] after) waiting) _
      rw [hcount]
      refine .trans ((hshorter after (by omega)).2 _ _ _ _) ?_
      rw [← ending_within (hle ⟨after, hafter⟩)]
      exact .refl

theorem runsString_of_shorter (hshorter : ∀ t : List Char, t.length < s.length → RunsCode t ∧ RunsString t) :
    RunsString s := by
  intro stop read text waiting
  rw [scanString.eq_def]
  split
  · exact .head rfl .refl
  · next count _ =>
      cases count <;> exact .head rfl .refl
  · exact .head rfl .refl
  · next c s hstop =>
      refine .head (step_string hstop read text c s waiting) ?_
      unfold stepString Piece.ofChar
      by_cases hat : stop.isAt c
      · rw [if_pos hat, if_pos hat]
        exact .refl
      rw [if_neg hat, if_neg hat]
      by_cases hescape : c = '\\'
      · rw [if_pos hescape, if_pos hescape, ending_within]
        exact (hshorter _ (Nat.lt_succ_of_le (length_drop_le 1 s))).2 _ _ _ _
      rw [if_neg hescape, if_neg hescape]
      by_cases hvar : c = '$' ∧ startsIn isNameStart s
      · rw [if_pos hvar, if_pos hvar]
        dsimp only
        rw [ending_within]
        exact (hshorter _ (Nat.lt_succ_of_le (length_drop_le _ s))).2 _ _ _ _
      rw [if_neg hvar, if_neg hvar]
      by_cases hbraces : c = '\x7b' ∧ startsIn (· == '$') s
      · rw [if_pos hbraces, if_pos hbraces]
        exact reaches_interpolation Nat.one_pos (Nat.add_comm _ _) hshorter stop _ waiting
          fun after => le_length_cons c after.2
      rw [if_neg hbraces, if_neg hbraces]
      by_cases hdollar : c = '$' ∧ startsIn (· == '\x7b') s
      · rw [if_pos hdollar, if_pos hdollar]
        obtain ⟨d, inside, rfl, _⟩ := exists_of_startsIn hdollar.2
        dsimp only
        cases braceName? ((d :: inside).drop 1) with
        | some name =>
            dsimp only
            rw [ending_within]
            exact (hshorter _ (Nat.lt_succ_of_le (Nat.le_succ_of_le (length_drop_le (name + 1) inside)))).2 _ _ _ _
        | none =>
            exact @reaches_interpolation (c :: d :: inside) inside 2 Nat.two_pos (Nat.add_comm _ 2) hshorter stop _
              waiting fun after => le_length_cons c (le_length_cons d after.2)
      rw [if_neg hdollar, if_neg hdollar, ending_within]
      exact (hshorter s (Nat.lt_succ_self _)).2 _ _ _ _

/-- **The runs over code and strings end as the scanners do.** -/
theorem runs (s : List Char) : RunsCode s ∧ RunsString s := by
  induction hn : s.length using Nat.strongRecOn generalizing s with
  | ind n ih =>
      have hshorter : ∀ t : List Char, t.length < s.length → RunsCode t ∧ RunsString t :=
        fun t ht => ih t.length (hn ▸ ht) t rfl
      exact ⟨runsCode_of_shorter hshorter, runsString_of_shorter hshorter⟩

theorem scanFile_of_tag {rest : List Char} (h : s.drop (htmlLength s) = '<' :: '?' :: rest) (read : List Lexeme) :
    scanFile read s = scanCode maxNesting .file (openTag rest :: readHtml read s) (rest.drop (openTagMore rest))
      >>= fun (read, after) => scanFile read after.1 := by
  rw [scanFile]
  dsimp only
  split
  · next rest' htag =>
      rw [h] at htag
      cases htag
      rfl
  · next hother => exact absurd h (hother rest)

theorem scanFile_of_html (h : s.drop (htmlLength s) = []) (read : List Lexeme) :
    scanFile read s = .ok (readHtml read s) := by
  rw [scanFile]
  dsimp only
  split
  · next htag =>
      rw [h] at htag
      cases htag
  · rfl

/-- The machine does with a file what its scanner does. -/
theorem reaches_scanFile (read : List Lexeme) (s : List Char) :
    Reaches (.iteration (.file read s) []) (.halted (scanFile read s)) := by
  induction hn : s.length using Nat.strongRecOn generalizing read s with
  | ind n ih =>
      cases s with
      | nil =>
          rw [scanFile_nil]
          exact .head rfl .refl
      | cons c s =>
          refine .head rfl ?_
          show Reaches (stepFile read c s []) _
          unfold stepFile
          dsimp only
          rcases drop_htmlLength (c :: s) with hhtml | ⟨rest, htag⟩
          · rw [hhtml, scanFile_of_html hhtml]
            exact .head rfl .refl
          · rw [htag, scanFile_of_tag htag]
            refine .trans ((runs _).1 _ _ _) ?_
            show Reaches (ending (scanCode maxNesting _ _ _) _) _
            cases scanCode maxNesting .file (openTag rest :: readHtml read (c :: s)) (rest.drop (openTagMore rest)) with
            | error e => exact .refl
            | ok scanned =>
                obtain ⟨mid, after, hafter⟩ := scanned
                have hshort : after.length < n := by
                  have hlength := congrArg List.length htag
                  simp only [List.length_drop, List.length_cons] at hlength hafter hn
                  omega
                exact .head rfl (ih _ hshort mid after rfl)

end Config

/-! ## What the lexer returns -/

/-- What the machine halts with is what the scanner of the file returns, since it stays as it is once it has halted. -/
theorem scanFile_of_run {source : String} {n : Nat} {result : Except ParseError (List Lexeme)}
    (h : (Config.start source).run n = .halted result) : scanFile [] source.toList = result := by
  obtain ⟨m, hm⟩ := Config.reaches_scanFile [] source.toList
  have hsame := congrArg (Config.run m) h
  rw [Config.run_halted, ← Config.run_add, Nat.add_comm, Config.run_add] at hsame
  rw [show Config.run m (Config.start source) = _ from hm, Config.run_halted] at hsame
  exact Config.halted.inj hsame

theorem tokenize_of_run {source : String} {n : Nat} {result : Except ParseError (List Lexeme)}
    (h : (Config.start source).run n = .halted result) :
    tokenize source = result.map fun read => Token.ofLexemes {} 1 0 read.reverse := by
  unfold tokenize lexemes
  rw [scanFile_of_run h]
  cases result <;> rfl

theorem exists_tokenize_eq (source : String) :
    ∃ n ≤ 2 * 3 ^ source.toList.length, ∃ result, (Config.start source).run n = .halted result
      ∧ tokenize source = result.map fun read => Token.ofLexemes {} 1 0 read.reverse := by
  obtain ⟨n, hle, result, hrun⟩ := Config.exists_halted (Config.start_isStacked source)
  exact ⟨n, hle, result, hrun, tokenize_of_run hrun⟩

/-- The state from which the machine comes to halt with what the lexer returns. -/
theorem exists_halts_of_tokenize (source : String) : ∃ k result, ((Config.start source).run k).Halts result
    ∧ tokenize source = result.map fun read => Token.ofLexemes {} 1 0 read.reverse := by
  obtain ⟨n, _, result, hrun, htokenize⟩ := exists_tokenize_eq source
  obtain ⟨k, hhalts⟩ := Config.exists_halts (fun _ => Config.noConfusion) hrun
  exact ⟨k, result, hhalts, htokenize⟩

theorem tokenize_cases (source : String) :
    (∃ tokens, tokenize source = .ok tokens) ∨ (∃ what line, tokenize source = .error (.unterminated what line))
      ∨ tokenize source = .error .tooDeep := by
  obtain ⟨k, result, hhalts, htokenize⟩ := exists_halts_of_tokenize source
  cases hhalts with
  | finished => exact .inl ⟨_, htokenize⟩
  | unterminated => exact .inr (.inl ⟨_, _, htokenize⟩)
  | tooDeep => exact .inr (.inr htokenize)

theorem tokenize_tooDeep_iff (source : String) : tokenize source = .error .tooDeep ↔ NestsTooDeep source := by
  constructor
  · intro h
    obtain ⟨k, result, hhalts, htokenize⟩ := exists_halts_of_tokenize source
    rw [h] at htokenize
    cases hhalts with
    | finished | unterminated => cases htokenize
    | tooDeep hdeep => exact ⟨k, hdeep⟩
  · rintro ⟨n, hdeep⟩
    have hrun : (Config.start source).run (n + 1) = .halted (.error .tooDeep) := by
      rw [Config.run_add]
      exact hdeep.step_eq
    exact tokenize_of_run hrun

/-! ## Sources that are nested too deep -/

/-- A string that is a look-up in `$_GET`, whose key is such a string again, `n` deep. -/
def nestedKey : Nat → List Char
  | 0 => ['0']
  | n + 1 => '"' :: '\x7b' :: '$' :: '_' :: 'G' :: 'E' :: 'T' :: '[' :: (nestedKey n ++ [']', '\x7d', '"'])

/-- A source that outputs such a string. -/
def nestedSource (n : Nat) : String :=
  String.ofList ('<' :: '?' :: '=' :: (nestedKey n ++ [';']))

theorem nestedKey_append (n : Nat) (rest : List Char) : nestedKey (n + 1) ++ rest
    = '"' :: '\x7b' :: '$' :: '_' :: 'G' :: 'E' :: 'T' :: '[' :: (nestedKey n ++ ']' :: '\x7d' :: '"' :: rest) := by
  simp [nestedKey]

/-- The machine enters a look-up that there is room for, and gets to its key. -/
theorem run_of_lookup {waiting : List Suspended} (h : Config.nesting waiting < maxNesting) (stop : CodeEnd)
    (read : List Lexeme) (rest : List Char) : ∃ read' waiting', Config.nesting waiting' = Config.nesting waiting + 1
      ∧ Config.run 4 (.iteration (.code stop read
          ('"' :: '\x7b' :: '$' :: '_' :: 'G' :: 'E' :: 'T' :: '[' :: '"' :: rest)) waiting)
        = .iteration (.code (.brace 0) read' ('"' :: rest)) waiting' := by
  let inside := '$' :: '_' :: 'G' :: 'E' :: 'T' :: '[' :: '"' :: rest
  let string : Suspended := ⟨'"' :: '\x7b' :: inside, .quote stop '"'⟩
  let expression : Call := .code (.brace 0) (⟨.of .curlyOpen, ['\x7b']⟩ :: charLexeme '"' :: read) inside
  let w : Suspended := ⟨'\x7b' :: inside, .string (.quote '"')⟩
  have henter : Config.enter expression w (string :: waiting) = .iteration expression (w :: string :: waiting) :=
    if_neg (Nat.not_le.mpr h)
  have hrun : Config.run 2 (.iteration (.code stop read ('"' :: '\x7b' :: inside)) waiting)
      = Config.enter expression w (string :: waiting) := rfl
  have hkey : ∃ read', Config.run 2 (.iteration expression (w :: string :: waiting))
      = .iteration (.code (.brace 0) read' ('"' :: rest)) (w :: string :: waiting) := ⟨_, rfl⟩
  obtain ⟨read', hkey⟩ := hkey
  refine ⟨read', w :: string :: waiting, List.countP_cons_of_pos rfl, ?_⟩
  rw [Config.run_add 2 2, hrun, henter, hkey]

/-- The machine gets too deep in a string with more look-ups than there is room for. By induction on the room: a
    look-up that is entered takes one of it, and its key is a string with a look-up less. -/
theorem exists_isTooDeep_nestedKey {waiting : List Suspended} {k : Nat} (h : maxNesting ≤ Config.nesting waiting + k)
    (stop : CodeEnd) (read : List Lexeme) (rest : List Char) :
    ∃ n, (Config.run n (.iteration (.code stop read (nestedKey (k + 1) ++ rest)) waiting)).IsTooDeep := by
  induction k generalizing waiting stop read rest with
  | zero => exact ⟨1, .inl rfl, h⟩
  | succ k ih =>
      by_cases hdeep : maxNesting ≤ Config.nesting waiting
      · exact ⟨1, .inl rfl, hdeep⟩
      obtain ⟨read', waiting', hnesting, hrun⟩ := run_of_lookup (Nat.lt_of_not_le hdeep) stop read
        ('\x7b' :: '$' :: '_' :: 'G' :: 'E' :: 'T' :: '[' :: (nestedKey k ++ ']' :: '\x7d' :: '"'
          :: ']' :: '\x7d' :: '"' :: rest))
      have hroom : maxNesting ≤ Config.nesting waiting' + k := by omega
      obtain ⟨n, hn⟩ := ih hroom (.brace 0) read' (']' :: '\x7d' :: '"' :: rest)
      refine ⟨4 + n, ?_⟩
      rw [nestedKey_append, nestedKey_append, Config.run_add, hrun, ← nestedKey_append]
      exact hn

/-- **A source with more look-ups inside each other than the limit is not read.** -/
theorem tokenize_nestedSource {n : Nat} (h : maxNesting < n) : tokenize (nestedSource n) = .error .tooDeep := by
  obtain ⟨k, rfl⟩ := Nat.exists_eq_add_one_of_ne_zero (Nat.ne_zero_of_lt h)
  let text := '<' :: '?' :: '=' :: (nestedKey (k + 1) ++ [';'])
  have hstart : (Config.start (nestedSource (k + 1))).run 1
      = .iteration (.code .file [⟨.of .openTagEcho, ['<', '?', '=']⟩] (nestedKey (k + 1) ++ [';']))
          [⟨text, .file⟩] := by
    unfold Config.start nestedSource
    rw [String.toList_ofList]
    rfl
  have hroom : maxNesting ≤ Config.nesting [⟨text, .file⟩] + k :=
    Nat.le_trans (Nat.le_of_lt_succ h) (Nat.le_add_left k _)
  obtain ⟨m, hdeep⟩ := exists_isTooDeep_nestedKey hroom .file [⟨.of .openTagEcho, ['<', '?', '=']⟩] [';']
  refine (tokenize_tooDeep_iff _).mpr ⟨1 + m, ?_⟩
  rw [Config.run_add, hstart]
  exact hdeep

/-! ## The lexer finishes -/

/-- **The lexer always finishes.** Every iteration of a loop that goes on ends behind its start, and every run of a loop
    within an iteration starts behind the start of that iteration. So the machine halts, and what it halts with is what
    the lexer returns. The runs of the machine are those of the scanners, wherever they start. What the lexer returns is
    the tokens of the source, or the error of a construct that does not end; only where the machine gets to an
    interpolated expression inside `maxNesting` others is it neither. -/
theorem lexer_finishes (source : String) :
    (∀ n, ((Config.start source).run n).Advances source.toList ((Config.start source).run n).step)
    ∧ (∀ s, Config.RunsCode s ∧ Config.RunsString s)
    ∧ (∃ n ≤ 2 * 3 ^ source.toList.length, ∃ result, (Config.start source).run n = .halted result
      ∧ tokenize source = result.map fun read => Token.ofLexemes {} 1 0 read.reverse)
    ∧ ((∃ tokens, tokenize source = .ok tokens) ∨ (∃ what line, tokenize source = .error (.unterminated what line))
      ∨ tokenize source = .error .tooDeep)
    ∧ (tokenize source = .error .tooDeep ↔ NestsTooDeep source) :=
  ⟨fun n => (Config.step_moves (Config.run_isStacked (Config.start_isStacked source) n)).1, Config.runs,
    exists_tokenize_eq source, tokenize_cases source, tokenize_tooDeep_iff source⟩

/-- A source that it does not read, though its strings are all closed. -/
theorem nestedSource_not_read : tokenize (nestedSource 400) = .error .tooDeep :=
  tokenize_nestedSource (by decide)

end Unassigned
