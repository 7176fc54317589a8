import Unassigned.Proofs.ScannerCalls

/-!
# `Proofs.LexerMachine` — the loops of the scanners as a machine that halts

The scanners are three loops: one over the stretches of a file, one over the items of code, one over the pieces of a
string. An iteration goes on to the next one, or leaves its loop, or starts a run of another loop and waits for its end.
Here the loops are a machine (`Config.step`) that takes one iteration at a time and keeps those that wait on a stack. A
machine need not halt, so that this one does is a fact about the loops. The iterations over strings that wait are those
with an interpolated expression; when `maxNesting` of them wait, the machine does not enter one more.

The machine does not always move forward: behind the body of a heredoc it is set back to the closing label, however far
the body was read. But it is set back to a place behind the one where the iteration started that waits for the body. So
every iteration that goes on ends behind its start (`Config.Advances`), and what each step diminishes is a weight of the
whole stack (`Config.weight`).
-/

namespace Unassigned

/-! ## The loops as a machine -/

/-- The loops of the scanners. -/
inductive Loop where
  | file
  | code
  | string
  deriving DecidableEq

/-- The loop that a call is an iteration of. -/
def Call.loop : Call → Loop
  | .file .. => .file
  | .code .. => .code
  | .string .. => .string

/-- What an iteration still has to do when the run that it waits for is over. -/
inductive Continuation where
  /-- Code is over, and text outside the code tags comes next. -/
  | file
  /-- The inside of a string is over, and its closing quote comes next. -/
  | quote (stop : CodeEnd) (c : Char)
  /-- The body of a heredoc is over; `ending` is the text from the closing label on. -/
  | heredoc (stop : CodeEnd) (closing : Nat) (ending : List Char)
  /-- An interpolated expression is over, and the string goes on. -/
  | string (stop : StringEnd)

def Continuation.loop : Continuation → Loop
  | .file => .file
  | .quote .. | .heredoc .. => .code
  | .string _ => .string

/-- An iteration that waits: the text that was left at its start, and what it still has to do. -/
structure Suspended where
  start : List Char
  rest : Continuation

/-- A state of the machine. -/
inductive Config where
  /-- The start of an iteration. -/
  | iteration (call : Call) (waiting : List Suspended)
  /-- A run of a loop is over, with the lexemes `read` and the text `s` left. -/
  | ended (read : List Lexeme) (s : List Char) (waiting : List Suspended)
  /-- The lexer is done, or has raised an error. -/
  | halted (result : Except ParseError (List Lexeme))

namespace Config

/-- The rest of an iteration that has waited. -/
def resume (read : List Lexeme) (s : List Char) (w : Suspended) (waiting : List Suspended) : Config :=
  match w.rest with
  | .file => .iteration (.file read s) waiting
  | .quote stop c =>
    match s with
    | [] => .halted (.error (openError .string read))
    | _ :: after => .iteration (.code stop (charLexeme c :: read) after) waiting
  | .heredoc stop closing ending =>
    .iteration (.code stop (⟨.of .heredocEnd, ending.take closing⟩ :: read) (ending.drop closing)) waiting
  | .string stop => .iteration (.string (stop.advance (w.start.length - s.length)) read [] s) waiting

/-- How many interpolated expressions are being read: an iteration over a string waits for each. -/
def nesting (waiting : List Suspended) : Nat :=
  waiting.countP fun w => w.rest.loop = .string

/-- The start of an interpolated expression, for which the iteration `w` waits, unless it is too deep. -/
def enter (expression : Call) (w : Suspended) (waiting : List Suspended) : Config :=
  if maxNesting ≤ nesting waiting then .halted (.error .tooDeep) else .iteration expression (w :: waiting)

/-- An iteration over a file that goes on with `c`, followed by `s`. -/
def stepFile (read : List Lexeme) (c : Char) (s : List Char) (waiting : List Suspended) : Config :=
  let read := readHtml read (c :: s)
  match (c :: s).drop (htmlLength (c :: s)) with
  | '<' :: '?' :: rest =>
    .iteration (.code .file (openTag rest :: read) (rest.drop (openTagMore rest))) (⟨c :: s, .file⟩ :: waiting)
  | _ => .iteration (.file read []) waiting

/-- An iteration over code that starts with `c`, followed by `s`. -/
def stepCode (stop : CodeEnd) (read : List Lexeme) (c : Char) (s : List Char) (waiting : List Suspended) : Config :=
  match Item.read c s with
  | .lexeme shape more =>
    let read := ⟨shape, c :: s.take more⟩ :: read
    match stop.after shape with
    | none => .ended read (s.drop more) waiting
    | some stop => .iteration (.code stop read (s.drop more)) waiting
  | .closeTag more => .ended (⟨.of .closeTag, c :: s.take more⟩ :: read) (s.drop more) waiting
  | .quote => .iteration (.string (.quote c) (charLexeme c :: read) [] s) (⟨c :: s, .quote stop c⟩ :: waiting)
  | .heredoc more label isNowdoc =>
    let read := ⟨.of .heredocStart, c :: s.take more⟩ :: read
    let body := s.drop more
    match heredocBody? label true body with
    | none => .halted (.error (openError (.heredoc (String.ofList label)) read))
    | some (length, closing) =>
      let waits : Suspended := ⟨c :: s, .heredoc stop closing (body.drop length)⟩
      if isNowdoc || !hasInterpolation (body.take length) then
        resume (flushText read (body.take length).reverse) (body.drop length) waits waiting
      else .iteration (.string (.after length) read [] body) (waits :: waiting)
  | .openComment => .halted (.error (openError .comment read))
  | .openString => .halted (.error (openError .string read))

/-- An iteration over a string that goes on with `c`, followed by `s`. -/
def stepString (stop : StringEnd) (read : List Lexeme) (text : List Char) (c : Char) (s : List Char)
    (waiting : List Suspended) : Config :=
  match Piece.ofChar stop c s with
  | .done | .unclosed => .ended (flushText read text) (c :: s) waiting
  | .escape => .iteration (.string (stop.advance 2) read (s.take 1 ++ c :: text) (s.drop 1)) waiting
  | .simple =>
    let part := simpleInterpolation s
    .iteration (.string (stop.advance (1 + part.2)) (part.1.reverse ++ flushText read text) [] (s.drop part.2)) waiting
  | .braces =>
    enter (.code (.brace 0) (⟨.of .curlyOpen, ['\x7b']⟩ :: flushText read text) s) ⟨c :: s, .string stop⟩ waiting
  | .named name =>
    let read := ⟨.of .dollarCurlyOpen, ['$', '\x7b']⟩ :: flushText read text
    .iteration (.string (stop.advance (name + 3))
      (charLexeme '\x7d' :: ⟨.of .stringVarName, (s.drop 1).take name⟩ :: read) [] ((s.drop 1).drop (name + 1))) waiting
  | .dollarBraces =>
    enter (.code (.brace 0) (⟨.of .dollarCurlyOpen, ['$', '\x7b']⟩ :: flushText read text) (s.drop 1))
      ⟨c :: s, .string stop⟩ waiting
  | .char => .iteration (.string (stop.advance 1) read (c :: text) s) waiting

/-- **A step of the machine**: an iteration up to the run that it has to wait for, or the rest of one. -/
def step : Config → Config
  | .iteration (.file read []) _ => .halted (.ok read)
  | .iteration (.file read (c :: s)) waiting => stepFile read c s waiting
  | .iteration (.code stop read []) waiting =>
    match stop with
    | .file => .ended read [] waiting
    | .brace _ => .halted (.error (openError .interpolation read))
  | .iteration (.code stop read (c :: s)) waiting => stepCode stop read c s waiting
  | .iteration (.string (.after 0) read text s) waiting => .ended (flushText read text) s waiting
  | .iteration (.string (.after _) read text []) waiting => .ended (flushText read text) [] waiting
  | .iteration (.string (.quote _) read _ []) _ => .halted (.error (openError .string read))
  | .iteration (.string stop read text (c :: s)) waiting => stepString stop read text c s waiting
  | .ended read s (w :: waiting) => resume read s w waiting
  | .ended read _ [] => .halted (.ok read)
  | .halted result => .halted result

/-- The machine after a number of steps. -/
def run : Nat → Config → Config
  | 0, config => config
  | n + 1, config => run n config.step

theorem run_add (m n : Nat) (config : Config) : run (m + n) config = run n (run m config) := by
  induction m generalizing config with
  | zero => rw [Nat.zero_add, run]
  | succ m ih => rw [Nat.succ_add, run, run, ih]

theorem run_halted (n : Nat) (result : Except ParseError (List Lexeme)) : run n (.halted result) = .halted result := by
  induction n with
  | zero => rfl
  | succ n ih => exact ih

/-- The machine at the start of a source. -/
def start (source : String) : Config :=
  .iteration (.file [] source.toList) []

theorem step_string {stop : StringEnd} (h : stop ≠ .after 0) (read : List Lexeme) (text : List Char) (c : Char)
    (s : List Char) (waiting : List Suspended) :
    step (.iteration (.string stop read text (c :: s)) waiting) = stepString stop read text c s waiting := by
  cases stop with
  | quote q => rfl
  | after count =>
      cases count with
      | zero => exact absurd rfl h
      | succ count => rfl

end Config

/-! ## Places in a source -/

/-- The place in a source where the text `s` is left of it. -/
def positionOf (source s : List Char) : Nat :=
  source.length - s.length

/-- What is left of a text when at least one character of it was read. -/
def Behind (s t : List Char) : Prop :=
  ∃ c rest, t = c :: rest ∧ s <:+ rest

namespace Behind

variable {s t u source : List Char} {c : Char}

theorem drop (k : Nat) : Behind (t.drop k) (c :: t) :=
  ⟨c, t, rfl, List.drop_suffix k t⟩

theorem suffix (h : Behind s t) : s <:+ t := by
  obtain ⟨c, rest, rfl, hs⟩ := h
  exact hs.trans (List.suffix_cons c rest)

theorem of_suffix (hs : s <:+ t) (h : Behind t u) : Behind s u := by
  obtain ⟨c, rest, rfl, ht⟩ := h
  exact ⟨c, rest, rfl, hs.trans ht⟩

theorem of_cons_suffix (h : c :: s <:+ t) : Behind s t := by
  cases t with
  | nil => cases List.suffix_nil.mp h
  | cons d rest =>
      refine ⟨d, rest, rfl, ?_⟩
      rcases List.suffix_cons_iff.mp h with heq | hsuffix
      · exact (List.cons.inj heq).2 ▸ List.suffix_rfl
      · exact (List.suffix_cons c s).trans hsuffix

theorem positionOf_lt (h : Behind s t) (ht : t <:+ source) : positionOf source t < positionOf source s := by
  obtain ⟨c, rest, rfl, hs⟩ := h
  have hshorter := hs.length_le
  have hle := ht.length_le
  simp only [positionOf, List.length_cons] at hle ⊢
  omega

end Behind

theorem positionOf_le_of_suffix {source s t : List Char} (h : s <:+ t) : positionOf source t ≤ positionOf source s :=
  Nat.sub_le_sub_left h.length_le _

/-! ## Every iteration moves forward -/

/-- Where a heredoc closes is behind the start of the iteration that waits for its body. -/
def Suspended.GoesOnBehind (w : Suspended) : Prop :=
  match w.rest with
  | .heredoc _ _ ending => Behind ending w.start
  | _ => True

/-- **The iterations that wait**: each started at a place of the source, and all that it waits for is behind it. -/
def Stacked (source : List Char) : List Char → List Suspended → Prop
  | s, [] => s <:+ source
  | s, w :: waiting => Behind s w.start ∧ w.GoesOnBehind ∧ Stacked source w.start waiting

namespace Stacked

variable {source s t : List Char} {waiting : List Suspended}

theorem of_suffix (hs : s <:+ t) (h : Stacked source t waiting) : Stacked source s waiting := by
  cases waiting with
  | nil => exact hs.trans h
  | cons w waiting => exact ⟨.of_suffix hs h.1, h.2⟩

/-- The machine stands at the end of the source that it has left. -/
theorem suffix (h : Stacked source s waiting) : s <:+ source := by
  induction waiting generalizing s with
  | nil => exact h
  | cons w waiting ih => exact h.1.suffix.trans (ih h.2.2)

end Stacked

namespace Config

/-- The iterations that wait in a state are stacked like that. -/
def IsStacked (source : List Char) : Config → Prop
  | .iteration a waiting => Stacked source a.input waiting
  | .ended _ s waiting => Stacked source s waiting
  | .halted _ => True

/-- **How the machine moves in a step.** -/
inductive Advances (source : List Char) : Config → Config → Prop where
  /-- An iteration ends behind its start, and the loop goes on. -/
  | goesOn {a b : Call} {waiting : List Suspended} : a.loop = b.loop →
      positionOf source a.input < positionOf source b.input →
      Advances source (.iteration a waiting) (.iteration b waiting)
  /-- An iteration starts a run of a loop, behind its own start, and waits. -/
  | enters {a b : Call} {rest : Continuation} {waiting : List Suspended} : a.loop = rest.loop →
      positionOf source a.input < positionOf source b.input →
      Advances source (.iteration a waiting) (.iteration b (⟨a.input, rest⟩ :: waiting))
  /-- An iteration leaves its loop, at its start or behind it. -/
  | leaves {a : Call} {read : List Lexeme} {s : List Char} {waiting : List Suspended} :
      positionOf source a.input ≤ positionOf source s → Advances source (.iteration a waiting) (.ended read s waiting)
  /-- An iteration that has waited ends behind its start, and its loop goes on. -/
  | resumes {read : List Lexeme} {s : List Char} {w : Suspended} {b : Call} {waiting : List Suspended} :
      w.rest.loop = b.loop → positionOf source w.start < positionOf source b.input →
      Advances source (.ended read s (w :: waiting)) (.iteration b waiting)
  | halts {config : Config} {result : Except ParseError (List Lexeme)} : Advances source config (.halted result)

/-- The machine moves as it should, to a state whose waiting iterations are stacked. -/
def Moves (source : List Char) (config next : Config) : Prop :=
  Advances source config next ∧ next.IsStacked source

namespace Moves

variable {source s t : List Char} {a b : Call} {waiting : List Suspended}

theorem goesOn (h : Stacked source a.input waiting) (hloop : a.loop = b.loop) (hb : Behind b.input a.input) :
    Moves source (.iteration a waiting) (.iteration b waiting) :=
  ⟨.goesOn hloop (hb.positionOf_lt h.suffix), h.of_suffix hb.suffix⟩

theorem enters {rest : Continuation} (h : Stacked source a.input waiting) (hloop : a.loop = rest.loop)
    (hb : Behind b.input a.input) (hrest : Suspended.GoesOnBehind ⟨a.input, rest⟩) :
    Moves source (.iteration a waiting) (.iteration b (⟨a.input, rest⟩ :: waiting)) :=
  ⟨.enters hloop (hb.positionOf_lt h.suffix), hb, hrest, h⟩

theorem leaves {read : List Lexeme} (h : Stacked source a.input waiting) (hs : s <:+ a.input) :
    Moves source (.iteration a waiting) (.ended read s waiting) :=
  ⟨.leaves (positionOf_le_of_suffix hs), h.of_suffix hs⟩

theorem halts {config : Config} {result : Except ParseError (List Lexeme)} : Moves source config (.halted result) :=
  ⟨.halts, trivial⟩

theorem entersExpression {stop : StringEnd} (h : Stacked source a.input waiting) (hloop : a.loop = .string)
    (hb : Behind b.input a.input) :
    Moves source (.iteration a waiting) (enter b ⟨a.input, .string stop⟩ waiting) := by
  unfold enter
  split
  · exact .halts
  · exact .enters h hloop hb trivial

end Moves

section

variable {source : List Char} {read : List Lexeme} {s : List Char} {waiting : List Suspended}
variable {c : Char}

theorem resume_behind (read : List Lexeme) (waiting : List Suspended) {w : Suspended} (hs : Behind s w.start)
    (hw : w.GoesOnBehind) :
    (∃ result, resume read s w waiting = .halted result)
      ∨ ∃ b, resume read s w waiting = .iteration b waiting ∧ w.rest.loop = b.loop ∧ Behind b.input w.start := by
  obtain ⟨start, rest⟩ := w
  cases rest with
  | file => exact .inr ⟨_, rfl, rfl, hs⟩
  | quote stop c =>
      cases s with
      | nil => exact .inl ⟨_, rfl⟩
      | cons d after => exact .inr ⟨_, rfl, rfl, .of_suffix (List.suffix_cons d after) hs⟩
  | heredoc stop closing ending => exact .inr ⟨_, rfl, rfl, .of_suffix (List.drop_suffix _ _) hw⟩
  | string stop => exact .inr ⟨_, rfl, rfl, hs⟩

theorem stepFile_moves (h : Stacked source (c :: s) waiting) :
    Moves source (.iteration (.file read (c :: s)) waiting) (stepFile read c s waiting) := by
  unfold stepFile
  dsimp only
  split
  · next rest htag =>
      have hrest : '<' :: '?' :: rest <:+ c :: s := htag ▸ List.drop_suffix _ _
      have hbehind := Behind.of_cons_suffix ((List.suffix_cons _ _).trans hrest)
      exact .enters h rfl (.of_suffix (List.drop_suffix _ _) hbehind) trivial
  · exact .goesOn h rfl ⟨c, s, rfl, List.nil_suffix⟩

theorem stepCode_moves {stop : CodeEnd} (h : Stacked source (c :: s) waiting) :
    Moves source (.iteration (.code stop read (c :: s)) waiting) (stepCode stop read c s waiting) := by
  unfold stepCode
  split
  · next shape more hitem =>
      dsimp only
      split
      · exact .leaves h (Behind.drop more).suffix
      · exact .goesOn h rfl (.drop more)
  · next more hitem => exact .leaves h (Behind.drop more).suffix
  · exact .enters h rfl (.drop 0) trivial
  · next more label isNowdoc hitem =>
      dsimp only
      split
      · exact .halts
      · next length closing hbody =>
          have hending : Behind ((s.drop more).drop length) (c :: s) :=
            .of_suffix (List.drop_suffix _ _) (.drop more)
          split
          · exact .goesOn h rfl (.of_suffix (List.drop_suffix _ _) hending)
          · exact .enters h rfl (.drop more) hending
  · exact .halts
  · exact .halts

theorem stepString_moves {stop : StringEnd} {text : List Char} (h : Stacked source (c :: s) waiting) :
    Moves source (.iteration (.string stop read text (c :: s)) waiting) (stepString stop read text c s waiting) := by
  unfold stepString
  split
  · exact .leaves h List.suffix_rfl
  · exact .leaves h List.suffix_rfl
  · exact .goesOn h rfl (.drop 1)
  · exact .goesOn h rfl (.drop _)
  · exact .entersExpression h rfl (.drop 0)
  · exact .goesOn h rfl (.of_suffix (List.drop_suffix _ _) (.drop 1))
  · exact .entersExpression h rfl (.drop 1)
  · exact .goesOn h rfl (.drop 0)

/-- **A step moves forward**, and keeps the iterations that wait stacked. -/
theorem step_moves {config : Config} (h : config.IsStacked source) : Moves source config config.step := by
  unfold step
  split
  · exact .halts
  · exact stepFile_moves h
  · split
    · exact .leaves h List.suffix_rfl
    · exact .halts
  · exact stepCode_moves h
  · exact .leaves h List.suffix_rfl
  · exact .leaves h List.suffix_rfl
  · exact .halts
  · exact stepString_moves h
  · next read s w waiting =>
      obtain ⟨hs, hw, hwaiting⟩ := h
      rcases resume_behind read waiting hs hw with ⟨_, heq⟩ | ⟨b, heq, hloop, hb⟩
      · rw [heq]
        exact .halts
      · rw [heq]
        exact ⟨.resumes hloop (hb.positionOf_lt hwaiting.suffix), hwaiting.of_suffix hb.suffix⟩
  · exact .halts
  · exact .halts

theorem start_isStacked (source : String) : (start source).IsStacked source.toList :=
  List.suffix_rfl

theorem run_isStacked {config : Config} (h : config.IsStacked source) (n : Nat) : (run n config).IsStacked source := by
  induction n generalizing config with
  | zero => exact h
  | succ n ih => exact ih (step_moves h).2

end

end Config

/-! ## What the machine halts with -/

namespace Config

/-- An interpolated expression comes next, and `maxNesting` of them are being read. -/
def IsTooDeep : Config → Prop
  | .iteration (.string stop _ _ s) waiting =>
    (Piece.read stop s = .braces ∨ Piece.read stop s = .dollarBraces) ∧ maxNesting ≤ nesting waiting
  | _ => False

/-- How the machine comes to halt in a step. -/
inductive Halts (config : Config) : Except ParseError (List Lexeme) → Prop where
  | finished {read : List Lexeme} : Halts config (.ok read)
  | unterminated {what : OpenConstruct} {line : Nat} : Halts config (.error (.unterminated what line))
  | tooDeep : config.IsTooDeep → Halts config (.error .tooDeep)

section

variable {read : List Lexeme} {s : List Char} {waiting : List Suspended} {result : Except ParseError (List Lexeme)}
variable {c : Char} {config : Config}

theorem resume_halts {w : Suspended} (h : resume read s w waiting = .halted result) : config.Halts result := by
  obtain ⟨start, rest⟩ := w
  cases rest with
  | file | heredoc | string => cases h
  | quote stop c =>
      cases s with
      | nil =>
          cases h
          exact .unterminated
      | cons => cases h

theorem stepFile_halts (h : stepFile read c s waiting = .halted result) : config.Halts result := by
  unfold stepFile at h
  dsimp only at h
  split at h <;> cases h

theorem stepCode_halts {stop : CodeEnd} (h : stepCode stop read c s waiting = .halted result) :
    config.Halts result := by
  unfold stepCode at h
  split at h
  · dsimp only at h
    split at h <;> cases h
  · cases h
  · cases h
  · dsimp only at h
    split at h
    · cases h
      exact .unterminated
    · split at h
      · exact resume_halts h
      · cases h
  · cases h
    exact .unterminated
  · cases h
    exact .unterminated

/-- An interpolated expression is entered unless it is too deep. -/
theorem enter_halts {expression : Call} {w : Suspended} (h : enter expression w waiting = .halted result) :
    maxNesting ≤ nesting waiting ∧ result = .error .tooDeep := by
  unfold enter at h
  split at h
  · next hdeep =>
      cases h
      exact ⟨hdeep, rfl⟩
  · cases h

theorem stepString_halts {stop : StringEnd} {text : List Char} (hstop : stop ≠ .after 0)
    (h : stepString stop read text c s waiting = .halted result) :
    (iteration (.string stop read text (c :: s)) waiting).Halts result := by
  have hread := Piece.read_cons hstop c s
  unfold stepString at h
  split at h
  case h_5 hpiece =>
    obtain ⟨hdeep, rfl⟩ := enter_halts h
    exact .tooDeep ⟨.inl (hread.trans hpiece), hdeep⟩
  case h_7 hpiece =>
    obtain ⟨hdeep, rfl⟩ := enter_halts h
    exact .tooDeep ⟨.inr (hread.trans hpiece), hdeep⟩
  all_goals cases h

/-- **How the machine comes to halt**: the source is read, or a construct of it does not end, or an interpolated
    expression is too deep. -/
theorem step_halts (hconfig : ∀ result, config ≠ .halted result) (h : config.step = .halted result) :
    config.Halts result := by
  unfold step at h
  split at h
  · cases h
    exact .finished
  · exact stepFile_halts h
  · split at h
    · cases h
    · cases h
      exact .unterminated
  · exact stepCode_halts h
  · cases h
  · cases h
  · cases h
    exact .unterminated
  · next hstop => exact stepString_halts hstop h
  · exact resume_halts h
  · cases h
    exact .finished
  · exact absurd rfl (hconfig _)

/-- A machine that has halted was in a state, somewhere on its way, from which it comes to halt with that result. -/
theorem exists_halts {n : Nat} (hconfig : ∀ result, config ≠ .halted result) (h : run n config = .halted result) :
    ∃ k, (run k config).Halts result := by
  induction n generalizing config with
  | zero => exact absurd h (hconfig result)
  | succ n ih =>
      by_cases hstep : ∃ result', config.step = .halted result'
      · obtain ⟨result', hstep⟩ := hstep
        have hrun : run n config.step = .halted result := h
        rw [hstep, run_halted] at hrun
        exact ⟨0, step_halts hconfig (hstep.trans hrun)⟩
      · obtain ⟨k, hhalts⟩ := ih (fun result' heq => hstep ⟨result', heq⟩) h
        exact ⟨k + 1, hhalts⟩

/-- The machine does not enter an expression that is too deep. -/
theorem IsTooDeep.step_eq (h : config.IsTooDeep) : config.step = .halted (.error .tooDeep) := by
  cases config with
  | ended | halted => exact h.elim
  | iteration call waiting =>
      cases call with
      | file | code => exact h.elim
      | string stop read text s =>
          obtain ⟨hpiece, hdeep⟩ := h
          have hstop : stop ≠ .after 0 := by
            rintro rfl
            rcases hpiece with hpiece | hpiece <;> cases hpiece
          cases s with
          | nil =>
              cases stop with
              | quote q => rcases hpiece with hpiece | hpiece <;> cases hpiece
              | after count => simp [Piece.read_of_over] at hpiece
          | cons c s =>
              rw [Piece.read_cons hstop] at hpiece
              rw [step_string hstop, stepString]
              rcases hpiece with hpiece | hpiece <;> rw [hpiece] <;> exact if_pos hdeep

end

end Config

/-- **The source is nested too deep**: the machine gets to an interpolated expression inside `maxNesting` others. -/
def NestsTooDeep (source : String) : Prop :=
  ∃ n, ((Config.start source).run n).IsTooDeep

/-! ## The machine halts -/

/-- A text weighs three times as much as one that is left of it further on. -/
theorem three_mul_pow_le {source s t : List Char} (h : positionOf source t < positionOf source s) :
    3 * 3 ^ s.length ≤ 3 ^ t.length := by
  have hlt : s.length < t.length := by
    unfold positionOf at h
    omega
  rw [← Nat.pow_succ']
  exact Nat.pow_le_pow_right (by decide) hlt

namespace Config

def waitingWeight : List Suspended → Nat
  | [] => 0
  | w :: waiting => 3 ^ w.start.length + waitingWeight waiting

/-- **What every step diminishes.** An iteration weighs twice as much before it starts to wait, so that there is room
    for all that it waits for. -/
def weight : Config → Nat
  | .iteration a waiting => 2 * 3 ^ a.input.length + waitingWeight waiting
  | .ended _ _ waiting => 1 + waitingWeight waiting
  | .halted _ => 0

theorem Advances.weight_lt {source : List Char} {config next : Config} (h : Advances source config next)
    (hconfig : ∀ result, config ≠ .halted result) : next.weight < config.weight := by
  have hpos : ∀ a : Call, 0 < 3 ^ a.input.length := fun _ => Nat.pow_pos (by decide)
  cases h with
  | @goesOn a b _ _ hlt =>
      have hweight := three_mul_pow_le hlt
      have hpos := hpos b
      simp only [weight]
      omega
  | @enters a b _ _ _ hlt =>
      have hweight := three_mul_pow_le hlt
      have hpos := hpos b
      simp only [weight, waitingWeight]
      omega
  | @leaves a =>
      have hpos := hpos a
      simp only [weight]
      omega
  | @resumes _ _ w b _ _ hlt =>
      have hweight := three_mul_pow_le hlt
      have hpos := hpos b
      simp only [weight, waitingWeight]
      omega
  | halts =>
      cases config with
      | iteration a waiting =>
          have hpos := hpos a
          simp only [weight]
          omega
      | ended => exact Nat.add_pos_left Nat.one_pos _
      | halted result => exact absurd rfl (hconfig result)

/-- **The machine halts**, within as many steps as its state weighs. -/
theorem exists_halted {source : List Char} {config : Config} (h : config.IsStacked source) :
    ∃ n ≤ config.weight, ∃ result, run n config = .halted result := by
  induction hn : config.weight using Nat.strongRecOn generalizing config with
  | ind m ih =>
      by_cases hconfig : ∃ result, config = .halted result
      · obtain ⟨result, rfl⟩ := hconfig
        exact ⟨0, Nat.zero_le _, result, rfl⟩
      · obtain ⟨hadvances, hstacked⟩ := step_moves h
        have hlt := hadvances.weight_lt fun result heq => hconfig ⟨result, heq⟩
        obtain ⟨n, hle, result, hrun⟩ := ih _ (hn ▸ hlt) hstacked rfl
        exact ⟨n + 1, by omega, result, hrun⟩

end Config

end Unassigned
