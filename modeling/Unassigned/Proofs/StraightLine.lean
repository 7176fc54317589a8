import Unassigned.Proofs.StraightLine.Header

/-!
# `Proofs.StraightLine` — what is reported of a straight-line function

In the body of a straight-line function every word is a step of its own. What stands next to a variable tells
whether it is assigned or read (`Adjacent`): an assignment makes a name known, a read is checked, and all other
words do nothing (`IsFileOf.scanFrom_body`). At the closing brace the scope of the function is dropped, and the
file scope has no variables.

So the defects of a straight-line program are those that `Program.expected` reads off its words
(`Program.lintSource_text`).
-/

namespace Unassigned

namespace StraightLine

variable {m : Mark} {w : Word} {x : Identifier} {before : List Word} {reported : List Identifier} {name : String}

/-! ## Neighbours -/

/-- The words `a` and `b` can stand next to each other in a body. -/
def Adjacent (a b : Word) : Prop :=
  match a with
  | .target _ => b = .mark .equals
  | .read _ => b ≠ .mark .equals
  | .mark .semicolon | .mark .braceOpen => ∀ x, b ≠ .read x
  | _ => True

/-- An operand and what follows it, up to the end of the statement. -/
theorem isChain_expr (operand : Operand) (more : List (Operator × Operand)) {rest : List Word}
    (h : List.IsChain Adjacent (.mark .semicolon :: rest)) : List.IsChain Adjacent
      (operand.word :: (more.flatMap (fun (o, operand) => [.mark (.operator o), operand.word])
        ++ .mark .semicolon :: rest)) := by
  induction more generalizing operand with
  | nil =>
      have hlast : Adjacent operand.word (.mark .semicolon) := by
        cases operand <;> simp [Operand.word, Adjacent]
      exact .cons_cons hlast h
  | cons item more ih =>
      obtain ⟨o, next⟩ := item
      have hbefore : Adjacent operand.word (.mark (.operator o)) := by
        cases operand <;> simp [Operand.word, Adjacent]
      have hafter : Adjacent (.mark (.operator o)) next.word := trivial
      exact .cons_cons hbefore (.cons_cons hafter (ih next))

/-- A statement, after what can stand before one. -/
theorem isChain_statement (s : Statement) (hm : m = .semicolon ∨ m = .braceOpen) {rest : List Word}
    (h : List.IsChain Adjacent (.mark .semicolon :: rest)) :
    List.IsChain Adjacent (.mark m :: (s.words ++ rest)) := by
  cases s with
  | assign x e =>
      have hexpr := isChain_expr e.first e.more h
      have hstart : Adjacent (.mark m) (.target x) := by
        rcases hm with rfl | rfl <;> simp [Adjacent]
      have hequals : Adjacent (.mark .equals) e.first.word := trivial
      have hchain := List.IsChain.cons_cons hstart (.cons_cons (rfl : Adjacent (.target x) (.mark .equals))
        (.cons_cons hequals hexpr))
      simpa [Statement.words, Expr.words] using hchain
  | echo e =>
      have hexpr := isChain_expr e.first e.more h
      have hstart : Adjacent (.mark m) .echo := by
        rcases hm with rfl | rfl <;> simp [Adjacent]
      have hchain := List.IsChain.cons_cons hstart (.cons_cons (trivial : Adjacent .echo e.first.word) hexpr)
      simpa [Statement.words, Expr.words] using hchain

/-- **The words of a body stand next to each other as they can.** -/
theorem isChain_body (body : List Statement) (hm : m = .semicolon ∨ m = .braceOpen) :
    List.IsChain Adjacent (.mark m :: (body.flatMap Statement.words ++ [.mark .braceClose])) := by
  induction body generalizing m with
  | nil =>
      have hend : Adjacent (.mark m) (.mark .braceClose) := by
        rcases hm with rfl | rfl <;> simp [Adjacent]
      exact .cons_cons hend (.singleton _)
  | cons s body ih =>
      rw [List.flatMap_cons, List.append_assoc]
      exact isChain_statement s hm (ih (.inl rfl))

/-! ## One word -/

/-- What is done at word number `k` of a body. -/
def Word.commands (k : Nat) (w : Word) : List Command :=
  match w with
  | .target _ => [.applyDocComment (w.token k), .assign (w.token k) .plain]
  | .read _ => [.applyDocComment (w.token k), .read (w.token k)]
  | _ => []

/-- No word is part of an access to a member, of a variable variable, of an update or of an index. -/
theorem Word.kind_plain (w : Word) : w.kind ≠ .doubleColon ∧ w.kind ≠ .char '$' ∧ w.kind ≠ .char '['
    ∧ w.kind ≠ .coalesceAssign ∧ w.kind.isObjectOperator = false ∧ TokenStream.isUpdate w.kind = false
    ∧ TokenStream.isIncDec w.kind = false := by
  cases w with
  | mark m =>
      cases m with
      | operator o => cases o <;> decide
      | _ => decide
  | _ => simp [Word.kind, Kind.isObjectOperator, TokenStream.isUpdate, TokenStream.isIncDec]

theorem Word.eq_of_kind (h : w.kind = .char m.char) : w = .mark m := by
  cases w with
  | mark n =>
      have hchar : n.char = m.char := by simpa [Word.kind] using h
      have hmark : n = m := by
        revert hchar
        rcases n with _ | _ | _ | _ | _ | _ | _ | (_ | _ | _) <;>
          rcases m with _ | _ | _ | _ | _ | _ | _ | (_ | _ | _) <;> decide
      rw [hmark]
  | _ => cases h

section Dispatch

variable {ctx : ScanContext} {p : Program} (hfile : IsFileOf ctx.file p)
include hfile

/-- There are no class bodies. -/
theorem IsFileOf.inClassBody (i : Nat) : ctx.file.inClassBody i = false := by
  rw [SourceFile.inClassBody, SourceFile.classAt?, hfile.classes]
  rfl

variable {k : Nat} {a b c : Word}

theorem IsFileOf.prevAny (ha : p.words[k]? = some a) (hb : p.words[k + 1]? = some b) (q : Kind → Bool) :
    ctx.file.prevAny (2 * (k + 1) + 1) q = q a.kind := by
  have hprev := hfile.stream.holds.prev? ha (List.getElem?_eq_some_iff.mp hb).1
  rw [TokenStream.prevAny, hprev, Option.any_some, hfile.stream.holds.kind ha]

/-- What is done at a variable of the body. -/
theorem IsFileOf.handleVariable (ha : p.words[k]? = some a) (hb : p.words[k + 1]? = some b) :
    ctx.file.handleVariable (2 * (k + 1) + 1)
      = [.applyDocComment (b.token (k + 1)), ctx.file.handleOccurrence (2 * (k + 1) + 1)] := by
  obtain ⟨hcolon, hdollar, _, _, hmember, _, _⟩ := a.kind_plain
  have hstatic : ctx.file.prevIs (2 * (k + 1) + 1) .doubleColon = false := by
    have hprev := hfile.prevAny ha hb (· == .doubleColon)
    rw [TokenStream.prevIs]
    rw [TokenStream.prevAny] at hprev
    rw [hprev, beq_eq_false_iff_ne]
    exact hcolon
  simp [SourceFile.handleVariable, hfile.inClassBody, hstatic, hfile.prevAny ha hb, hdollar, hmember,
    hfile.stream.holds.word hb]

theorem IsFileOf.afterIndexes (hc : p.words[k + 2]? = some c) :
    ctx.file.afterIndexes (2 * (k + 1) + 1) = (some (2 * (k + 2) + 1), false) := by
  have hindex : ctx.file.isChar (2 * (k + 2) + 1) '[' = false := by
    rw [← Bool.not_eq_true, TokenStream.isChar_iff, hfile.stream.holds.kind hc]
    exact c.kind_plain.2.2.1
  rw [TokenStream.afterIndexes_eq, hfile.stream.holds.next? hc]
  simp [hindex]

/-- A variable before an equals sign is assigned. -/
theorem IsFileOf.handleOccurrence_target (hb : p.words[k + 1]? = some b) (hc : p.words[k + 2]? = some (.mark .equals)) :
    ctx.file.handleOccurrence (2 * (k + 1) + 1) = .assign (b.token (k + 1)) .plain := by
  have hkind : ctx.file.kind (2 * (k + 2) + 1) = .char '=' := by
    rw [hfile.stream.holds.kind hc]
    rfl
  simp [TokenStream.handleOccurrence, hfile.afterIndexes hc, hkind, hfile.stream.holds.word hb]

variable (ha : p.words[k]? = some a) (hb : p.words[k + 1]? = some b) (hc : p.words[k + 2]? = some c)
include ha hb hc

/-- A variable in an expression is read. -/
theorem IsFileOf.handleOccurrence_read (hequals : c ≠ .mark .equals) (hsemicolon : a ≠ .mark .semicolon)
    (hbrace : a ≠ .mark .braceOpen) :
    ctx.file.handleOccurrence (2 * (k + 1) + 1) = .read (b.token (k + 1)) := by
  obtain ⟨_, _, _, hcoalesce, _, hupdate, _⟩ := c.kind_plain
  obtain ⟨_, _, _, _, _, _, hincrement⟩ := a.kind_plain
  have hassign : c.kind ≠ .char '=' := fun h => hequals (Word.eq_of_kind (m := .equals) h)
  have hstart : (a.kind == .char ';' || a.kind == .char '\x7b') = false := by
    rw [Bool.or_eq_false_iff, beq_eq_false_iff_ne, beq_eq_false_iff_ne]
    exact ⟨fun h => hsemicolon (Word.eq_of_kind (m := .semicolon) h),
      fun h => hbrace (Word.eq_of_kind (m := .braceOpen) h)⟩
  simp [TokenStream.handleOccurrence, hfile.afterIndexes hc, hfile.prevAny ha hb,
    hfile.stream.holds.kind hc, hfile.stream.holds.word hb, hassign, hcoalesce, hupdate, hincrement, hstart]

/-- **What is done at a word of the body.** -/
theorem IsFileOf.dispatch (hab : Adjacent a b) (hbc : Adjacent b c) (hinner : b.isInner)
    (types : List (String × String)) :
    ctx.dispatch types (2 * (k + 1) + 1) = .stay (b.commands (k + 1)) (2 * (k + 1) + 1) := by
  rw [ScanContext.dispatch, hfile.stream.holds.kind hb]
  cases b with
  | target x =>
      show Plan.stay (ctx.file.handleVariable _) _ = _
      obtain rfl : c = .mark .equals := hbc
      rw [hfile.handleVariable ha hb, hfile.handleOccurrence_target hb hc]
      rfl
  | read x =>
      have hsemicolon : a ≠ .mark .semicolon := by
        rintro rfl
        exact hab x rfl
      have hbrace : a ≠ .mark .braceOpen := by
        rintro rfl
        exact hab x rfl
      show Plan.stay (ctx.file.handleVariable _) _ = _
      rw [hfile.handleVariable ha hb, hfile.handleOccurrence_read ha hb hc hbc hsemicolon hbrace]
      rfl
  | mark m =>
      cases m with
      | operator o => cases o <;> rfl
      | equals | semicolon => rfl
      | _ => cases hinner
  | echo | integer => rfl
  | _ => cases hinner

end Dispatch

section Step

variable {ctx : ScanContext} {p : Program} (hfile : IsFileOf ctx.file p)
include hfile

/-- The blank before a word does nothing. -/
theorem IsFileOf.scanFrom_separator {e : Int} {known : String → Prop} {found : List Defect} {st : ScanState} {k : Nat}
    (h : InBody e known found st) (hk : k + 1 < p.words.length) (he : ((2 * (k + 1) : Nat) : Int) < e) :
    ctx.scanFrom (2 * (k + 1)) st = ctx.scanFrom (2 * (k + 1) + 1) st := by
  have hsize := hfile.stream.holds.size
  have hblank : ∀ types, ctx.dispatch types (2 * (k + 1)) = .stay [] (2 * (k + 1)) := by
    intro types
    have hkind : ctx.file.kind (2 * (k + 1)) = .whitespace := by
      rw [TokenStream.kind, hfile.stream.holds.separator hk]
      rfl
    rw [ScanContext.dispatch, hkind]
  rw [ctx.scanFrom_of_dispatch (by omega) (hblank _), h.arrive he]
  rfl

/-- A word of the body, with the blank before it. -/
theorem IsFileOf.scanFrom_word {e : Int} {known : String → Prop} {found : List Defect} {st : ScanState} {k : Nat}
    (h : InBody e known found st) (he : ((2 * (k + 1) + 1 : Nat) : Int) < e) {a b c : Word}
    (ha : p.words[k]? = some a) (hb : p.words[k + 1]? = some b) (hc : p.words[k + 2]? = some c)
    (hab : Adjacent a b) (hbc : Adjacent b c) (hinner : b.isInner) :
    ctx.scanFrom (2 * (k + 1)) st = ctx.scanFrom (2 * (k + 2)) (ctx.execute (b.commands (k + 1)) st) := by
  have hsize := hfile.stream.holds.size
  have hk := (List.getElem?_eq_some_iff.mp hb).1
  have hdispatch := hfile.dispatch ha hb hc hab hbc hinner
  rw [hfile.scanFrom_separator h hk (by omega), ctx.scanFrom_of_dispatch (by omega) (hdispatch _), h.arrive he]
  rfl

end Step

/-! ## The body -/

/-- The names known after some words, where reads of some names have been reported. -/
def Known (before : List Word) (reported : List Identifier) (name : String) : Prop :=
  ∃ x : Identifier, name = x.variable ∧ (Word.param x ∈ before ∨ Word.target x ∈ before ∨ x ∈ reported)

theorem Identifier.variable_inj {y : Identifier} : x.variable = y.variable ↔ x = y := by
  constructor
  · intro h
    have hchars : x.chars = y.chars := by
      have hlist := congrArg String.toList h
      simpa [Identifier.variable] using hlist
    cases x
    cases y
    simpa using hchars
  · rintro rfl
    rfl

theorem known_variable :
    Known before reported x.variable
      ↔ Word.param x ∈ before ∨ Word.target x ∈ before ∨ x ∈ reported := by
  simp [Known, Identifier.variable_inj]

theorem known_append :
    Known (before ++ [w]) reported name
      ↔ Known before reported name ∨ ∃ x : Identifier, name = x.variable ∧ (w = .param x ∨ w = .target x) := by
  simp only [Known, List.mem_append, List.mem_singleton, ← exists_or, eq_comm (b := w)]
  exact exists_congr fun x => by tauto

/-- A name that has been reported is known. -/
theorem known_cons : addName x.variable (Known before reported) name ↔ Known before (x :: reported) name := by
  constructor
  · rintro (rfl | ⟨y, rfl, hy⟩)
    · exact known_variable.mpr (.inr (.inr (List.mem_cons_self ..)))
    · exact known_variable.mpr (hy.imp_right (.imp_right (List.mem_cons_of_mem x)))
  · rintro ⟨y, rfl, hparam | htarget | hreported⟩
    · exact .inr ⟨y, rfl, .inl hparam⟩
    · exact .inr ⟨y, rfl, .inr (.inl htarget)⟩
    · rcases List.mem_cons.mp hreported with rfl | hreported
      · exact .inl rfl
      · exact .inr ⟨y, rfl, .inr (.inr hreported)⟩

/-- Only parameters and assignments make a name known. -/
theorem known_append_other (hparam : ∀ x, w ≠ .param x) (htarget : ∀ x, w ≠ .target x) (name : String) :
    Known before reported name ↔ Known (before ++ [w]) reported name := by
  simp [known_append, hparam, htarget]

/-- The words up to the body. -/
def Program.header (p : Program) : List Word :=
  [.function, .name p.name, .mark .parenOpen] ++ paramWords p.params ++ [.mark .parenClose, .mark .braceOpen]

theorem Program.words_eq_header (p : Program) : p.words = p.header ++ (p.bodyWords ++ [.mark .braceClose]) := by
  simp [Program.words, Program.header]

theorem Program.take_bodyStart (p : Program) : p.words.take (p.bodyStart + 1) = p.header := by
  have hlength : p.header.length = p.bodyStart + 1 := by
    simp [Program.header, Program.bodyStart, Program.paramsEnd]
    omega
  rw [p.words_eq_header, ← hlength, List.take_left]

theorem param_mem_paramWords {params : List Identifier} : Word.param x ∈ paramWords params ↔ x ∈ params := by
  cases params <;> simp [paramWords]

/-- A word of the header is no assignment and no read. -/
theorem Program.not_mem_header (p : Program) (x : Identifier) : Word.target x ∉ p.header ∧ Word.read x ∉ p.header := by
  have hlisted := isListed_paramWords p.params
  constructor
  · intro h
    have hword := hlisted (.target x) (by simpa [Program.header] using h)
    cases hword
  · intro h
    have hword := hlisted (.read x) (by simpa [Program.header] using h)
    cases hword

/-- After the header the parameters are known. -/
theorem Program.known_header (p : Program) : (∃ x ∈ p.params, name = x.variable) ↔ Known p.header [] name := by
  have hparam : ∀ x, Word.param x ∈ p.header ↔ x ∈ p.params := by
    intro x
    simp [Program.header, param_mem_paramWords]
  simp [Known, hparam, p.not_mem_header, and_comm]

/-- Words without reads have nothing to report. -/
theorem missingReads_append {ws : List Word} (hws : ∀ x, Word.read x ∉ ws) (before : List Word)
    (reported : List Identifier) (rest : List Word) :
    missingReads before reported (ws ++ rest) = missingReads (before ++ ws) reported rest := by
  induction ws generalizing before with
  | nil => simp
  | cons w ws ih =>
      have hrest := ih (fun x hx => hws x (List.mem_cons_of_mem w hx)) (before ++ [w])
      rw [List.append_assoc, List.singleton_append] at hrest
      rw [← hrest]
      cases w with
      | read x => exact absurd (List.mem_cons_self ..) (hws x)
      | _ => rfl

theorem Program.expected_eq (p : Program) :
    p.expected = missingReads p.header [] (p.bodyWords ++ [.mark .braceClose]) := by
  rw [Program.expected, p.words_eq_header, missingReads_append fun x => (p.not_mem_header x).2]
  rfl

section Body

variable {ctx : ScanContext} (hlevel : ctx.level = .notice) (hscope : ctx.checkFileScope = true)
include hlevel hscope

/-- **One word:** after it the names are known that the words up to it call for, and what it reports is what
    is no more to be reported. -/
theorem InBody.word {e : Int} {before : List Word} {reported : List Identifier} {found : List Defect} {st : ScanState}
    (h : InBody e (Known before reported) found st) {w : Word} (hinner : w.isInner) (rest : List Word) :
    ∃ reported' found', InBody e (Known (before ++ [w]) reported') found' (ctx.execute (w.commands before.length) st)
      ∧ (missingReads before reported (w :: rest)).reverse ++ found
        = (missingReads (before ++ [w]) reported' rest).reverse ++ found' := by
  cases w with
  | target x =>
      refine ⟨reported, found, ?_, rfl⟩
      show InBody _ _ _ (ctx.perform (.assign _ _) (ctx.perform (.applyDocComment _) st))
      rw [h.applyDocComment]
      refine (h.assign _).congr fun name => ?_
      simp [known_append, addName, or_comm, Word.token, Word.text]
  | read x =>
      have hother : ∀ reported name, Known before reported name ↔ Known (before ++ [.read x]) reported name :=
        fun reported => known_append_other (by simp) (by simp)
      show ∃ reported' found', InBody _ _ _ (ctx.perform (.read _) (ctx.perform (.applyDocComment _) st)) ∧ _
      rw [h.applyDocComment]
      by_cases hknown : superglobals.contains x.variable ∨ Word.param x ∈ before ∨ Word.target x ∈ before
          ∨ x ∈ reported
      · refine ⟨reported, found, ?_, ?_⟩
        · have hname : superglobals.contains x.variable ∨ Known before reported x.variable := by
            rwa [known_variable]
          exact (h.read_known hscope hname).congr (hother reported)
        · rw [missingReads, if_pos hknown]
      · -- the report makes the variable known, so a later read of it is not reported
        refine ⟨x :: reported, ⟨(Word.read x).token before.length, .error, .undefined⟩ :: found, ?_, ?_⟩
        · obtain ⟨hglobal, hunknown⟩ := not_or.mp hknown
          rw [← known_variable] at hunknown
          refine (h.read_unknown hlevel hscope hglobal hunknown).congr fun name => ?_
          rw [← hother (x :: reported)]
          exact known_cons
        · rw [missingReads, if_neg hknown]
          simp
  | param | name | function => cases hinner
  | echo | integer | mark =>
      exact ⟨reported, found, h.congr (known_append_other (by simp) (by simp)), rfl⟩

variable {p : Program} (hfile : IsFileOf ctx.file p)
include hfile

/-- **The body:** after it what was missing has been found. -/
theorem IsFileOf.scanFrom_body {rest : List Word} {k : Nat} {w : Word} {reported : List Identifier}
    {found : List Defect} {st : ScanState} (hwords : p.words.drop k = w :: (rest ++ [.mark .braceClose]))
    (hchain : List.IsChain Adjacent (w :: (rest ++ [.mark .braceClose]))) (hinner : ∀ v ∈ rest, v.isInner)
    (h : InBody (2 * p.bodyEnd + 1 : Nat) (Known (p.words.take (k + 1)) reported) found st) :
    ∃ known st', ctx.scanFrom (2 * (k + 1)) st = ctx.scanFrom (2 * p.bodyEnd) st'
      ∧ InBody (2 * p.bodyEnd + 1 : Nat) known
        ((missingReads (p.words.take (k + 1)) reported (rest ++ [.mark .braceClose])).reverse ++ found) st' := by
  have hlength := congrArg List.length hwords
  rw [List.length_drop, p.length_words] at hlength
  -- by induction on the words that are left
  induction rest generalizing k w reported found st with
  | nil =>
      have hend : k + 1 = p.bodyEnd := by
        simp at hlength
        omega
      exact ⟨_, st, by rw [hend], h⟩
  | cons v rest ih =>
      obtain ⟨hw, hdrop⟩ := getElem?_of_drop hwords
      obtain ⟨hv, hrest⟩ := getElem?_of_drop hdrop
      obtain ⟨c, tail, htail⟩ : ∃ c tail, rest ++ [.mark .braceClose] = c :: tail := by
        cases rest <;> exact ⟨_, _, rfl⟩
      have hc : p.words[k + 2]? = some c := (getElem?_of_drop (hrest.trans htail)).1
      obtain ⟨hwv, hrestChain⟩ := List.isChain_cons_cons.mp hchain
      have hvc : Adjacent v c := by
        rw [List.append_eq, htail] at hrestChain
        exact (List.isChain_cons_cons.mp hrestChain).1
      have hinner_v := hinner v (List.mem_cons_self ..)
      have hinner_rest : ∀ u ∈ rest, u.isInner := fun u hu => hinner u (List.mem_cons_of_mem v hu)
      have htake : p.words.take (k + 1 + 1) = p.words.take (k + 1) ++ [v] := by
        rw [List.take_add_one, hv]
        rfl
      have htake_length : (p.words.take (k + 1)).length = k + 1 := by
        rw [List.length_take, p.length_words]
        simp at hlength
        omega
      have hend : ((2 * (k + 1) + 1 : Nat) : Int) < (2 * p.bodyEnd + 1 : Nat) := by
        simp at hlength
        omega
      obtain ⟨reported', found', hstep, hmissing⟩ := h.word hlevel hscope hinner_v (rest ++ [.mark .braceClose])
      rw [htake_length, ← htake] at hstep
      rw [← htake] at hmissing
      obtain ⟨known, st', hscan, hfinal⟩ := ih hdrop hrestChain hinner_rest hstep
        (by simp at hlength ⊢; omega)
      refine ⟨known, st', ?_, ?_⟩
      · rw [hfile.scanFrom_word h hend hw hv hc hwv hvc hinner_v]
        exact hscan
      · rw [List.cons_append, hmissing]
        exact hfinal

/-- **The scan of a program** finds what is expected of it. -/
theorem IsFileOf.defects : ctx.defects = .ok p.expected := by
  have hf := hfile.stream
  have hsize := hf.holds.size
  have hlength := p.length_words
  obtain ⟨st, hheader, hparams⟩ := hfile.scanFrom_header
  have hknown : InBody (2 * p.bodyEnd + 1 : Nat) (Known (p.words.take (p.bodyStart + 1)) []) [] st :=
    hparams.congr fun name => by rw [p.take_bodyStart, p.known_header]
  obtain ⟨known, st', hbody, hend⟩ := hfile.scanFrom_body hlevel hscope p.drop_bodyStart
    (isChain_body p.body (.inr rfl)) p.isInner_bodyWords hknown
  rw [p.take_bodyStart, ← p.expected_eq, List.append_nil] at hend
  -- at the closing brace the scope is dropped, and nothing else happens
  have hstart : 0 < p.bodyEnd := by
    rw [Program.bodyEnd]
    omega
  obtain ⟨k, hk⟩ : ∃ k, p.bodyEnd = k + 1 := ⟨p.bodyEnd - 1, by omega⟩
  have hblank : ctx.scanFrom (2 * p.bodyEnd) st' = ctx.scanFrom (2 * p.bodyEnd + 1) st' := by
    have hseparator := hfile.scanFrom_separator (k := k) hend
    rw [← hk] at hseparator
    exact hseparator (by omega) (by omega)
  have hbrace : ∀ types, ctx.dispatch types (2 * p.bodyEnd + 1) = .stay [] (2 * p.bodyEnd + 1) := by
    intro types
    have hkind : ctx.file.kind (2 * p.bodyEnd + 1) = .char '\x7d' :=
      hf.holds.kind (getElem?_of_drop p.drop_bodyEnd).1
    rw [ScanContext.dispatch, hkind]
    rfl
  have hlast : ctx.scanFrom 0 {} = .ok (ctx.arrive (2 * p.bodyEnd + 1) st') := by
    rw [hheader, hbody, hblank, ctx.scanFrom_of_dispatch (by omega) (hbrace _), ctx.scanFrom_of_le _ (by omega)]
    rfl
  have hleft : _ ∧ (ctx.arrive (2 * p.bodyEnd + 1) st').defects = p.expected.reverse := hend.leave (Int.le_refl _)
  obtain ⟨hscopes, hdefects⟩ := hleft
  -- the file scope has no variables, so the end of the scan reports nothing
  have hfinish : ctx.finish (ctx.arrive (2 * p.bodyEnd + 1) st') = .ok (ctx.arrive (2 * p.bodyEnd + 1) st') := by
    generalize ctx.arrive (2 * p.bodyEnd + 1) st' = final at hscopes
    obtain ⟨scopes, defects, consumed, annotations, annotationsEnd⟩ := final
    obtain rfl : scopes = {} := hscopes
    rfl
  have hscan : ctx.scan = .ok (ctx.arrive (2 * p.bodyEnd + 1) st') := ctx.scan_eq_ok.mpr ⟨_, hlast, hfinish⟩
  rw [ScanContext.defects, hscan, Except.map, hdefects, List.reverse_reverse]

end Body

/-! ## The report -/

/-- Every defect of a program is an error about a variable that is not defined. -/
theorem missingReads_undefined (before : List Word) (reported : List Identifier) (ws : List Word) :
    ∀ d ∈ missingReads before reported ws, d.severity = .error ∧ d.finding = .undefined := by
  fun_induction missingReads before reported ws with
  | case1 => simp
  | case2 before reported x rest hknown ih => exact ih
  | case3 before reported x rest hunknown ih =>
      intro d hd
      rcases List.mem_cons.mp hd with rfl | hd
      · exact ⟨rfl, rfl⟩
      · exact ih d hd
  | case4 before reported w rest hread ih => exact ih

/-- **Exactness on straight-line functions:** with the default settings every program has a report, and it
    consists of the reads that are missing a definition, each once, in the order of the text. -/
theorem Program.lintSource_text (p : Program) (name : String) :
    ∃ linter, Linter.ofSettings {} [] = .ok linter ∧ linter.lintSource name p.text = .ok p.expected
      ∧ ∀ d ∈ p.expected, d.severity = .error ∧ d.message = "Use of non-defined variable" := by
  let linter : Linter :=
    { level := .notice, checkFileScope := true, knownGlobals := defaultGlobals, configured := [] }
  have hlinter : Linter.ofSettings {} [] = .ok linter := by
    have hlevel : Severity.ofName? "notice" = some .notice := by decide +kernel
    rw [Linter.ofSettings, hlevel]
    rfl
  refine ⟨linter, hlinter, ?_, ?_⟩
  · obtain ⟨file, hparse, hfile⟩ := p.exists_file name
    have hcontext : IsFileOf (linter.context file).file p := hfile
    have hdefects : linter.defects file = .ok p.expected := hcontext.defects rfl rfl
    rw [Linter.lintSource, hparse]
    show (linter.defects file).mapError _ = _
    rw [hdefects]
    rfl
  · intro d hd
    obtain ⟨hseverity, hfinding⟩ := missingReads_undefined _ _ _ d hd
    exact ⟨hseverity, by rw [Defect.message, hfinding]; rfl⟩

-- In `function f ( $a ) { $b = $a + $b + $c ; echo $c ; }` only the first `$c` is to be reported, token 25.
example :
    let f : Identifier := ⟨['f'], by decide, List.all_eq_true.mp (by decide)⟩
    let a : Identifier := ⟨['a'], by decide, List.all_eq_true.mp (by decide)⟩
    let b : Identifier := ⟨['b'], by decide, List.all_eq_true.mp (by decide)⟩
    let c : Identifier := ⟨['c'], by decide, List.all_eq_true.mp (by decide)⟩
    let p : Program := ⟨f, [a], [.assign b ⟨.var a, [(.plus, .var b), (.plus, .var c)]⟩, .echo ⟨.var c, []⟩]⟩
    p.expected = [⟨⟨.var, "$c", 1, 25⟩, .error, .undefined⟩] := by
  decide +kernel

end StraightLine

end Unassigned
