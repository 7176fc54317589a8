import Mathlib.Data.List.Forall2
import Unassigned.Token.Lexer

/-!
# `Proofs.Scanning` — what the scanners of code and strings do

`CodeReads` and `StringReads` say that a scanner succeeds, with which lexemes and which text left. What one
call can do is said once, by `CodeReads.step` and `StringReads.step`, with one case for each way in which
code or a string goes on. A step is said over any two relations `C` and `S` that hold of the calls it makes, so that
`scanners_induction` can hand each case what is known of them.
-/

namespace Unassigned

variable {ε α β : Type} {stop : CodeEnd} {read' : List Lexeme} {s rest : List Char}

/-- The computation before succeeded, and the rest of it too. -/
theorem exists_of_bind_eq_ok {x : Except ε α} {next : α → Except ε β} {b : β} (h : x >>= next = .ok b) :
    ∃ a, x = .ok a ∧ next a = .ok b := by
  cases x with
  | error e => cases h
  | ok a => exact ⟨a, rfl, h⟩

theorem exists_of_map_eq_ok {x : Except ε α} {f : α → β} {b : β} (h : x.map f = .ok b) :
    ∃ a, x = .ok a ∧ f a = b := by
  cases x with
  | error e => cases h
  | ok a => exact ⟨a, rfl, Except.ok.inj h⟩

/-- A list of computations succeeds if each of them does, with their results in order. -/
theorem mapM_eq_ok {act : α → Except ε β} {xs : List α} {ys : List β} :
    xs.mapM act = .ok ys ↔ List.Forall₂ (fun x y => act x = .ok y) xs ys := by
  induction xs generalizing ys with
  | nil =>
      rw [List.mapM_nil, List.forall₂_nil_left_iff]
      exact ⟨fun h => (Except.ok.inj h).symm, fun h => congrArg Except.ok h.symm⟩
  | cons x xs ih =>
      rw [List.mapM_cons, List.forall₂_cons_left_iff]
      constructor
      · intro h
        obtain ⟨y, hy, h⟩ := exists_of_bind_eq_ok h
        obtain ⟨zs, hzs, h⟩ := exists_of_bind_eq_ok h
        exact ⟨y, zs, hy, ih.mp hzs, (Except.ok.inj h).symm⟩
      · rintro ⟨y, zs, hy, hzs, rfl⟩
        rw [hy, ih.mpr hzs]
        rfl

theorem mapM_eq {act : α → Except ε β} {xs : List α} {value : α → β} (h : ∀ x ∈ xs, act x = .ok (value x)) :
    xs.mapM act = .ok (xs.map value) := by
  rw [mapM_eq_ok, List.forall₂_map_right_iff, List.forall₂_same]
  exact h

theorem exists_right_of_forall₂ {R : α → β → Prop} {xs : List α} {ys : List β} (h : List.Forall₂ R xs ys) {x : α}
    (hx : x ∈ xs) : ∃ y ∈ ys, R x y := by
  induction h with
  | nil => cases hx
  | @cons a b _ bs hab _ ih =>
      rcases List.mem_cons.mp hx with rfl | hx
      · exact ⟨b, List.mem_cons_self, hab⟩
      · obtain ⟨y, hy, hxy⟩ := ih hx
        exact ⟨y, List.mem_cons_of_mem b hy, hxy⟩

theorem exists_left_of_forall₂ {R : α → β → Prop} {xs : List α} {ys : List β} (h : List.Forall₂ R xs ys) {y : β}
    (hy : y ∈ ys) : ∃ x ∈ xs, R x y :=
  exists_right_of_forall₂ h.flip hy

/-- A list of computations fails as one of them does. -/
theorem exists_error_of_mapM {act : α → Except ε β} {xs : List α} {e : ε} (h : xs.mapM act = .error e) :
    ∃ x ∈ xs, act x = .error e := by
  induction xs with
  | nil => cases h
  | cons x xs ih =>
      rw [List.mapM_cons] at h
      cases hx : act x with
      | error e' =>
          rw [hx] at h
          obtain rfl : e' = e := Except.error.inj h
          exact ⟨x, List.mem_cons_self, hx⟩
      | ok y =>
          cases hxs : xs.mapM act with
          | ok ys =>
              rw [hx, hxs] at h
              cases h
          | error e' =>
              rw [hx, hxs] at h
              obtain rfl : e' = e := Except.error.inj h
              obtain ⟨z, hz, hfails⟩ := ih hxs
              exact ⟨z, List.mem_cons_of_mem x hz, hfails⟩

/-! ## More room -/

/-- Where one computation succeeds, the other does, with the same result. -/
def Extends (x y : Except ε α) : Prop :=
  ∀ a, x = .ok a → y = .ok a

namespace Extends

variable {x y : Except ε α}

theorem refl : Extends x x :=
  fun _ => id

theorem map (h : Extends x y) (g : α → β) : Extends (x.map g) (y.map g) := by
  intro b hb
  obtain ⟨a, ha, rfl⟩ := exists_of_map_eq_ok hb
  rw [h a ha]
  rfl

theorem bind {next next' : α → Except ε β} (h : Extends x y) (hnext : ∀ a, Extends (next a) (next' a)) :
    Extends (x >>= next) (y >>= next') := by
  intro b hb
  obtain ⟨a, ha, hb⟩ := exists_of_bind_eq_ok hb
  rw [h a ha]
  exact hnext a b hb

/-- A limit that is passed is passed if it is raised. -/
theorem limit {room room' : Nat} {e : ε} (hroom : room ≤ room') (h : Extends x y) :
    Extends (if room = 0 then .error e else x) (if room' = 0 then .error e else y) := by
  intro a ha
  split at ha
  · cases ha
  · next hpos =>
      rw [if_neg (by omega)]
      exact h a ha

end Extends

/-- Code on which the scanner succeeds with some room is read in the same way with more. -/
def CodeExtends (room room' : Nat) (s : List Char) : Prop :=
  ∀ stop read, Extends (scanCode room stop read s) (scanCode room' stop read s)

def StringExtends (room room' : Nat) (s : List Char) : Prop :=
  ∀ stop read text, Extends (scanString room stop read text s) (scanString room' stop read text s)

theorem codeExtends_of_shorter {room room' : Nat}
    (hshorter : ∀ t : List Char, t.length < s.length → CodeExtends room room' t ∧ StringExtends room room' t) :
    CodeExtends room room' s := by
  intro stop read
  cases s with
  | nil =>
      cases stop with
      | file | brace =>
          rw [scanCode, scanCode]
          exact .refl
  | cons c s =>
      have hdrop : ∀ k, (s.drop k).length < (c :: s).length := fun k => Nat.lt_succ_of_le (length_drop_le k s)
      rw [scanCode, scanCode]
      cases Item.read c s with
      | lexeme shape more =>
          dsimp only
          cases stop.after shape with
          | none => exact .refl
          | some stop' => exact ((hshorter _ (hdrop more)).1 _ _).map _
      | closeTag | openComment | openString => exact .refl
      | quote =>
          refine ((hshorter s (Nat.lt_succ_self _)).2 _ _ _).bind ?_
          rintro ⟨mid, body, hle⟩
          cases body with
          | nil => exact .refl
          | cons d after => exact ((hshorter after (Nat.lt_succ_of_lt hle)).1 _ _).map _
      | heredoc more label isNowdoc =>
          dsimp only
          cases heredocBody? label true (s.drop more) with
          | none => exact .refl
          | some found =>
              obtain ⟨length, closing⟩ := found
              have hbehind := (hshorter ((s.drop more).drop (length + closing))
                (Nat.lt_of_le_of_lt (length_drop_le _ _) (hdrop more))).1
              dsimp only
              by_cases hliteral : isNowdoc || !hasInterpolation ((s.drop more).take length)
              · rw [if_pos hliteral, if_pos hliteral]
                exact (hbehind _ _).map _
              · rw [if_neg hliteral, if_neg hliteral]
                exact ((hshorter _ (hdrop more)).2 _ _ _).bind fun _ => (hbehind _ _).map _

/-- An interpolated expression has one place less than the string around it. -/
theorem stringExtends_of_shorter {room room' : Nat} (hroom : room ≤ room')
    (hshorter : ∀ t : List Char, t.length < s.length → StringExtends room room' t)
    (hinside : ∀ t : List Char, t.length < s.length → CodeExtends (room - 1) (room' - 1) t) :
    StringExtends room room' s := by
  intro stop read text
  rw [scanString.eq_def, scanString.eq_def room']
  split
  · exact .refl
  · exact .refl
  · exact .refl
  · next c s hstop =>
      have hdrop : ∀ k, (s.drop k).length < (c :: s).length := fun k => Nat.lt_succ_of_le (length_drop_le k s)
      split
      · exact .refl
      split
      · exact (hshorter _ (hdrop 1) _ _ _).map _
      split
      · exact (hshorter _ (hdrop _) _ _ _).map _
      split
      · refine .limit hroom ((hinside s (Nat.lt_succ_self _) _ _).bind ?_)
        rintro ⟨mid, after, hle⟩
        exact (hshorter after (Nat.lt_succ_of_le hle) _ _ _).map _
      split
      · dsimp only
        split
        · exact (hshorter _ (Nat.lt_of_le_of_lt (length_drop_le _ _) (hdrop 1)) _ _ _).map _
        · refine .limit hroom ((hinside _ (hdrop 1) _ _).bind ?_)
          rintro ⟨mid, after, hle⟩
          exact (hshorter after (Nat.lt_of_le_of_lt hle (hdrop 1)) _ _ _).map _
      · exact (hshorter s (Nat.lt_succ_self _) _ _ _).map _

/-- **A scanner that succeeds does so with more room**, and in the same way. -/
theorem scanners_extend (s : List Char) :
    ∀ room room', room ≤ room' → CodeExtends room room' s ∧ StringExtends room room' s := by
  induction hn : s.length using Nat.strongRecOn generalizing s with
  | ind n ih =>
      subst hn
      intro room room' hroom
      have hshorter : ∀ t : List Char, t.length < s.length → CodeExtends room room' t ∧ StringExtends room room' t :=
        fun t ht => ih _ ht t rfl room room' hroom
      have hinside : ∀ t : List Char, t.length < s.length → CodeExtends (room - 1) (room' - 1) t :=
        fun t ht => (ih _ ht t rfl _ _ (Nat.sub_le_sub_right hroom 1)).1
      exact ⟨codeExtends_of_shorter hshorter, stringExtends_of_shorter hroom (fun t ht => (hshorter t ht).2) hinside⟩

/-! ## The scanners as relations -/

/-- The scanner of code succeeds on `s` with the lexemes `read'` and leaves `rest`. -/
def CodeReads (stop : CodeEnd) (read : List Lexeme) (s : List Char) (read' : List Lexeme)
    (rest : List Char) : Prop :=
  ∃ r, scanCode maxNesting stop read s = .ok r ∧ r.1 = read' ∧ r.2.1 = rest

/-- The scanner of strings succeeds on `s` with the lexemes `read'` and leaves `rest`. -/
def StringReads (stop : StringEnd) (read : List Lexeme) (text s : List Char) (read' : List Lexeme)
    (rest : List Char) : Prop :=
  ∃ r, scanString maxNesting stop read text s = .ok r ∧ r.1 = read' ∧ r.2.1 = rest

theorem CodeReads.length_le {read : List Lexeme} (h : CodeReads stop read s read' rest) : rest.length ≤ s.length := by
  obtain ⟨r, _, _, rfl⟩ := h
  exact r.2.2

theorem StringReads.length_le {stop : StringEnd} {read : List Lexeme} {text : List Char}
    (h : StringReads stop read text s read' rest) : rest.length ≤ s.length := by
  obtain ⟨r, _, _, rfl⟩ := h
  exact r.2.2

/-- What is left when a part of the text was scanned is what was left of the part. -/
theorem CodeReads.of_within {read : List Lexeme} {t : List Char} {hle : t.length ≤ s.length} {r : Scanned s}
    (h : (scanCode maxNesting stop read t).map (Scanned.within hle) = .ok r) (hread : r.1 = read')
    (hrest : r.2.1 = rest) : CodeReads stop read t read' rest := by
  obtain ⟨inner, hinner, rfl⟩ := exists_of_map_eq_ok h
  exact ⟨inner, hinner, hread, hrest⟩

theorem StringReads.of_within {stop : StringEnd} {read : List Lexeme} {text t : List Char} {hle : t.length ≤ s.length}
    {r : Scanned s} (h : (scanString maxNesting stop read text t).map (Scanned.within hle) = .ok r)
    (hread : r.1 = read') (hrest : r.2.1 = rest) : StringReads stop read text t read' rest := by
  obtain ⟨inner, hinner, rfl⟩ := exists_of_map_eq_ok h
  exact ⟨inner, hinner, hread, hrest⟩

/-- A call with less room that succeeds does so with all of it. -/
theorem CodeReads.of_less {room : Nat} {read : List Lexeme} {r : Scanned s}
    (h : scanCode (maxNesting - room) stop read s = .ok r) : CodeReads stop read s r.1 r.2.1 :=
  ⟨r, (scanners_extend s _ _ (Nat.sub_le maxNesting room)).1 stop read r h, rfl, rfl⟩

/-- Something said of a call of the scanner of code: where it stops, what it is given and what it returns. -/
abbrev CodeRelation : Type :=
  CodeEnd → List Lexeme → List Char → List Lexeme → List Char → Prop

/-- Something said of a call of the scanner of strings. -/
abbrev StringRelation : Type :=
  StringEnd → List Lexeme → List Char → List Char → List Lexeme → List Char → Prop

/-- The call succeeds, and `P` holds of it. -/
def CodeReads.And (P : CodeRelation) : CodeRelation := fun stop read s read' rest =>
  CodeReads stop read s read' rest ∧ P stop read s read' rest

/-- The call succeeds, and `Q` holds of it. -/
def StringReads.And (Q : StringRelation) : StringRelation := fun stop read text s read' rest =>
  StringReads stop read text s read' rest ∧ Q stop read text s read' rest

/-! ## Code -/

/-- The lexemes of the body of a heredoc, which is the first `length` characters of `body`. -/
inductive HeredocReads (S : StringRelation) (isNowdoc : Bool) (length : Nat) (read : List Lexeme) (body : List Char) :
    List Lexeme → Prop where
  /-- The body is one piece of text. -/
  | literal : isNowdoc || !hasInterpolation (body.take length) →
      HeredocReads S isNowdoc length read body (flushText read (body.take length).reverse)
  /-- The body is scanned like a string. -/
  | interpolated {read' : List Lexeme} {rest : List Char} : S (.after length) read [] body read' rest →
      ¬ (isNowdoc || !hasInterpolation (body.take length)) → HeredocReads S isNowdoc length read body read'

theorem HeredocReads.mono {S S' : StringRelation} {isNowdoc : Bool} {length : Nat} {read mid : List Lexeme}
    {body : List Char} (h : HeredocReads S isNowdoc length read body mid)
    (hS : ∀ {stop read text s read' rest}, S stop read text s read' rest → S' stop read text s read' rest) :
    HeredocReads S' isNowdoc length read body mid := by
  cases h with
  | literal hliteral => exact .literal hliteral
  | interpolated hstring hparts => exact .interpolated (hS hstring) hparts

/-- **How code goes on** at `s`, with the lexemes `read'` at its end and `rest` behind it. -/
inductive CodeStep (C : CodeRelation) (S : StringRelation) : CodeRelation where
  /-- The file is over. -/
  | done {read : List Lexeme} : CodeStep C S .file read [] read []
  /-- A lexeme that ends the code. -/
  | last {stop : CodeEnd} {read : List Lexeme} {c : Char} {s : List Char} {shape : Shape} {more : Nat} :
      Item.read c s = .lexeme shape more → stop.after shape = none →
      CodeStep C S stop read (c :: s) (⟨shape, c :: s.take more⟩ :: read) (s.drop more)
  | lexeme {stop stop' : CodeEnd} {read read' : List Lexeme} {c : Char} {s rest : List Char} {shape : Shape}
      {more : Nat} :
      Item.read c s = .lexeme shape more → stop.after shape = some stop' →
      C stop' (⟨shape, c :: s.take more⟩ :: read) (s.drop more) read' rest → CodeStep C S stop read (c :: s) read' rest
  | closeTag {stop : CodeEnd} {read : List Lexeme} {c : Char} {s : List Char} {more : Nat} :
      Item.read c s = .closeTag more →
      CodeStep C S stop read (c :: s) (⟨.of .closeTag, c :: s.take more⟩ :: read) (s.drop more)
  | quote {stop : CodeEnd} {read mid read' : List Lexeme} {c d : Char} {s after rest : List Char} :
      Item.read c s = .quote → S (.quote c) (⟨.of (.char c), [c]⟩ :: read) [] s mid (d :: after) →
      C stop (⟨.of (.char c), [c]⟩ :: mid) after read' rest → CodeStep C S stop read (c :: s) read' rest
  | heredoc {stop : CodeEnd} {read mid read' : List Lexeme} {c : Char} {s rest label : List Char}
      {more length closing : Nat} {isNowdoc : Bool} :
      Item.read c s = .heredoc more label isNowdoc →
      heredocBody? label true (s.drop more) = some (length, closing) →
      HeredocReads S isNowdoc length (⟨.of .heredocStart, c :: s.take more⟩ :: read) (s.drop more) mid →
      C stop (⟨.of .heredocEnd, ((s.drop more).drop length).take closing⟩ :: mid)
        ((s.drop more).drop (length + closing)) read' rest → CodeStep C S stop read (c :: s) read' rest

theorem CodeReads.step {read : List Lexeme} (h : CodeReads stop read s read' rest) :
    CodeStep CodeReads StringReads stop read s read' rest := by
  obtain ⟨r, hr, hread, hrest⟩ := h
  cases s with
  | nil =>
      cases stop with
      | brace depth =>
          rw [scanCode] at hr
          cases hr
      | file =>
          rw [scanCode] at hr
          cases hr
          subst hread hrest
          exact .done
  | cons c s =>
      rw [scanCode] at hr
      cases hitem : Item.read c s with
      | lexeme shape more =>
          simp only [hitem] at hr
          cases hstop : stop.after shape with
          | none =>
              simp only [hstop] at hr
              cases hr
              subst hread hrest
              exact .last hitem hstop
          | some stop' =>
              simp only [hstop] at hr
              exact .lexeme hitem hstop (.of_within hr hread hrest)
      | closeTag more =>
          simp only [hitem] at hr
          cases hr
          subst hread hrest
          exact .closeTag hitem
      | quote =>
          simp only [hitem] at hr
          obtain ⟨⟨mid, body⟩, hbody, hr⟩ := exists_of_bind_eq_ok hr
          dsimp only at hr
          split at hr
          · cases hr
          · next d after hafter =>
              exact .quote hitem ⟨_, hbody, rfl, hafter⟩ (.of_within hr hread hrest)
      | heredoc more label isNowdoc =>
          simp only [hitem] at hr
          split at hr
          · cases hr
          · next length closing hlength =>
              split at hr
              · next hliteral => exact .heredoc hitem hlength (.literal hliteral) (.of_within hr hread hrest)
              · next hparts =>
                  obtain ⟨inner, hinner, hr⟩ := exists_of_bind_eq_ok hr
                  exact .heredoc hitem hlength (.interpolated ⟨inner, hinner, rfl, rfl⟩ hparts)
                    (.of_within hr hread hrest)
      | openComment | openString =>
          simp only [hitem] at hr
          cases hr

/-- A lexeme that does not end the code is read, and then what follows it. -/
theorem CodeReads.of_lexeme {stop' : CodeEnd} {read : List Lexeme} {c : Char} {shape : Shape} {more : Nat}
    (hitem : Item.read c s = .lexeme shape more) (hstop : stop.after shape = some stop')
    (h : CodeReads stop' (⟨shape, c :: s.take more⟩ :: read) (s.drop more) read' rest) :
    CodeReads stop read (c :: s) read' rest := by
  obtain ⟨r, hr, hread, hrest⟩ := h
  refine ⟨r.within (length_drop_le_cons more c s), ?_, hread, hrest⟩
  rw [scanCode]
  simp only [hitem, hstop, hr]
  rfl

/-! ## Files -/

theorem scanFile_nil (read : List Lexeme) : scanFile read [] = .ok read := by
  rw [scanFile]
  rfl

theorem openTagMore_php (s : List Char) : openTagMore ('p' :: 'h' :: 'p' :: ' ' :: s) = 4 := by
  have hlength : "php".length = 3 := by decide
  simp [openTagMore, startsWithWord, startsIn, isIndent, hlength]

theorem htmlLength_php (s : List Char) : htmlLength ('<' :: '?' :: 'p' :: s) = 0 := by
  have hlength : "xml".length = 3 := by decide
  rw [htmlLength, if_pos]
  simp [startsIn, startsWithWord, hlength]

/-- A file that starts with the opening tag and goes on in code to its end. -/
theorem scanFile_php {read : List Lexeme}
    (hcode : CodeReads .file (⟨.of .openTag, ['<', '?', 'p', 'h', 'p', ' ']⟩ :: read) s read' []) :
    scanFile read ('<' :: '?' :: 'p' :: 'h' :: 'p' :: ' ' :: s) = .ok read' := by
  have hdrop : s = ('p' :: 'h' :: 'p' :: ' ' :: s).drop (openTagMore ('p' :: 'h' :: 'p' :: ' ' :: s)) := by
    rw [openTagMore_php]
    rfl
  rw [hdrop] at hcode
  obtain ⟨r, hr, hread, hrest⟩ := hcode
  rw [scanFile]
  dsimp only
  split
  · next rest htag =>
      rw [htmlLength_php] at htag
      cases htag
      simp only [openTagMore_php, List.take_succ_cons, List.take_zero, htmlLength_php, if_true]
      rw [if_neg (by decide), hr]
      show scanFile r.1 r.2.1 = _
      rw [hread, hrest, scanFile_nil]
  · next hother =>
      rw [htmlLength_php] at hother
      exact absurd rfl (hother _)

/-! ## Strings -/

/-- What stands at a place inside a string. -/
inductive Piece where
  /-- The end of the string. -/
  | done
  /-- The end of the text, where a closing quote is missing. -/
  | unclosed
  /-- A backslash takes the next character with it. -/
  | escape
  /-- A variable. -/
  | simple
  /-- An expression in braces. -/
  | braces
  /-- A name in braces behind the dollar sign. -/
  | named (name : Nat)
  /-- An expression in braces behind the dollar sign. -/
  | dollarBraces
  /-- A character of the text. -/
  | char
  deriving DecidableEq

/-- What the inside of a string is at `c`, followed by `s`. -/
def Piece.ofChar (stop : StringEnd) (c : Char) (s : List Char) : Piece :=
  if stop.isAt c then .done
  else if c = '\\' then .escape
  else if c = '$' ∧ startsIn isNameStart s then .simple
  else if c = '\x7b' ∧ startsIn (· == '$') s then .braces
  else if c = '$' ∧ startsIn (· == '\x7b') s then
    match braceName? (s.drop 1) with
    | some name => .named name
    | none => .dollarBraces
  else .char

/-- What the inside of a string is at `s`. -/
def Piece.read : StringEnd → List Char → Piece
  | .after 0, _ => .done
  | .after _, [] => .done
  | .quote _, [] => .unclosed
  | stop, c :: s => .ofChar stop c s

theorem Piece.read_cons {stop : StringEnd} (h : stop ≠ .after 0) (c : Char) (s : List Char) :
    Piece.read stop (c :: s) = .ofChar stop c s := by
  cases stop with
  | quote q => rfl
  | after count =>
      cases count with
      | zero => exact absurd rfl h
      | succ count => rfl

theorem Piece.read_of_over {count : Nat} (h : count = 0 ∨ s = []) : Piece.read (.after count) s = .done := by
  rcases h with rfl | rfl
  · rfl
  · cases count <;> rfl

theorem Piece.read_of_close (q : Char) (s : List Char) : Piece.read (.quote q) (q :: s) = .done := by
  rw [Piece.read_cons (by simp), Piece.ofChar, if_pos (by simp [StringEnd.isAt])]

/-- **How the inside of a string goes on** at `s`. -/
inductive StringStep (C : CodeRelation) (S : StringRelation) : StringRelation where
  /-- The given number of characters was read, or there are none left. -/
  | done {count : Nat} {read : List Lexeme} {text s : List Char} (h : count = 0 ∨ s = []) :
      StringStep C S (.after count) read text s (flushText read text) s
  /-- The closing quote. -/
  | close {q : Char} {read : List Lexeme} {text s : List Char} :
      StringStep C S (.quote q) read text (q :: s) (flushText read text) (q :: s)
  | escape {stop : StringEnd} {read read' : List Lexeme} {text s rest : List Char} :
      stop ≠ .after 0 → S (stop.advance 2) read (s.take 1 ++ '\\' :: text) (s.drop 1) read' rest →
      Piece.read stop ('\\' :: s) = .escape → StringStep C S stop read text ('\\' :: s) read' rest
  | simple {stop : StringEnd} {read read' : List Lexeme} {text s rest : List Char} :
      startsIn isNameStart s →
      S (stop.advance (1 + (simpleInterpolation s).2)) ((simpleInterpolation s).1.reverse ++ flushText read text) []
        (s.drop (simpleInterpolation s).2) read' rest →
      Piece.read stop ('$' :: s) = .simple → StringStep C S stop read text ('$' :: s) read' rest
  | braces {stop stop' : StringEnd} {read mid read' : List Lexeme} {text s after rest : List Char} :
      C (.brace 0) (⟨.of .curlyOpen, ['\x7b']⟩ :: flushText read text) s mid after →
      stop' = stop.advance (1 + (s.length - after.length)) → S stop' mid [] after read' rest →
      Piece.read stop ('\x7b' :: s) = .braces → StringStep C S stop read text ('\x7b' :: s) read' rest
  | named {stop : StringEnd} {read read' : List Lexeme} {text inside rest : List Char} {name : Nat} :
      braceName? inside = some name →
      S (stop.advance (name + 3)) (⟨.of (.char '\x7d'), ['\x7d']⟩
        :: ⟨.of .stringVarName, inside.take name⟩ :: ⟨.of .dollarCurlyOpen, ['$', '\x7b']⟩
        :: flushText read text) [] (inside.drop (name + 1)) read' rest →
      Piece.read stop ('$' :: '\x7b' :: inside) = .named name →
      StringStep C S stop read text ('$' :: '\x7b' :: inside) read' rest
  | dollarBraces {stop stop' : StringEnd} {read mid read' : List Lexeme} {text inside after rest : List Char} :
      C (.brace 0) (⟨.of .dollarCurlyOpen, ['$', '\x7b']⟩ :: flushText read text) inside mid after →
      stop' = stop.advance (2 + (inside.length - after.length)) → S stop' mid [] after read' rest →
      Piece.read stop ('$' :: '\x7b' :: inside) = .dollarBraces →
      StringStep C S stop read text ('$' :: '\x7b' :: inside) read' rest
  | char {stop : StringEnd} {read read' : List Lexeme} {c : Char} {text s rest : List Char} :
      stop ≠ .after 0 → c ≠ '\\' → S (stop.advance 1) read (c :: text) s read' rest →
      Piece.read stop (c :: s) = .char → StringStep C S stop read text (c :: s) read' rest

theorem StringReads.step {stop : StringEnd} {read : List Lexeme} {text : List Char}
    (h : StringReads stop read text s read' rest) :
    StringStep CodeReads StringReads stop read text s read' rest := by
  obtain ⟨r, hr, hread, hrest⟩ := h
  rw [scanString.eq_def] at hr
  split at hr
  · cases hr
    subst hread hrest
    exact .done (.inl rfl)
  · cases hr
    subst hread hrest
    exact .done (.inr rfl)
  · cases hr
  · next c s hstop =>
      have hpiece := Piece.read_cons hstop c s
      unfold Piece.ofChar at hpiece
      split at hr
      · next hat =>
          cases hr
          subst hread hrest
          cases stop with
          | quote q =>
              obtain rfl : c = q := by simpa [StringEnd.isAt] using hat
              exact .close
          | after count => cases hat
      next hat =>
      rw [if_neg hat] at hpiece
      split at hr
      · next hc =>
          rw [if_pos hc] at hpiece
          subst hc
          exact .escape hstop (.of_within hr hread hrest) hpiece
      next hc =>
      rw [if_neg hc] at hpiece
      split at hr
      · next hvar =>
          rw [if_pos hvar] at hpiece
          obtain ⟨rfl, hname⟩ := hvar
          exact .simple hname (.of_within hr hread hrest) hpiece
      next hvar =>
      rw [if_neg hvar] at hpiece
      split at hr
      · next hopen =>
          rw [if_pos hopen] at hpiece
          obtain ⟨rfl, _⟩ := hopen
          obtain ⟨inner, hinner, hr⟩ := exists_of_bind_eq_ok hr
          exact .braces (.of_less hinner) rfl (.of_within hr hread hrest) hpiece
      next hopen =>
      rw [if_neg hopen] at hpiece
      split at hr
      · next hopen =>
          rw [if_pos hopen] at hpiece
          obtain ⟨rfl, hbrace⟩ := hopen
          obtain ⟨inside, rfl⟩ : ∃ inside, s = '\x7b' :: inside := by
            cases s with
            | nil => cases hbrace
            | cons d inside =>
                obtain rfl : d = '\x7b' := by simpa [startsIn] using hbrace
                exact ⟨inside, rfl⟩
          dsimp only [List.drop_one, List.tail_cons] at hr hpiece
          split at hr
          · next name hname =>
              rw [hname] at hpiece
              exact .named hname (.of_within hr hread hrest) hpiece
          · next hname =>
              rw [hname] at hpiece
              obtain ⟨inner, hinner, hr⟩ := exists_of_bind_eq_ok hr
              exact .dollarBraces (.of_less hinner) rfl (.of_within hr hread hrest) hpiece
      · next hbrace =>
          rw [if_neg hbrace] at hpiece
          exact .char hstop hc (.of_within hr hread hrest) hpiece

/-! ## Induction -/

/-- **Induction over the scanners**: what holds of a call as soon as it holds of the calls that it makes holds of every
    call that succeeds. -/
theorem scanners_induction {P : CodeRelation} {Q : StringRelation}
    (code : ∀ {stop read s read' rest},
      CodeStep (CodeReads.And P) (StringReads.And Q) stop read s read' rest → P stop read s read' rest)
    (string : ∀ {stop read text s read' rest},
      StringStep (CodeReads.And P) (StringReads.And Q) stop read text s read' rest → Q stop read text s read' rest) :
    (∀ {stop read s read' rest}, CodeReads stop read s read' rest → P stop read s read' rest)
      ∧ ∀ {stop read text s read' rest}, StringReads stop read text s read' rest → Q stop read text s read' rest := by
  -- a step hands each scanner a shorter text, so both go by one induction on the length
  suffices hall : ∀ s : List Char,
      (∀ {stop read read' rest}, CodeReads stop read s read' rest → P stop read s read' rest)
        ∧ ∀ {stop read text read' rest}, StringReads stop read text s read' rest → Q stop read text s read' rest from
    ⟨(hall _).1, (hall _).2⟩
  intro s
  induction hn : s.length using Nat.strongRecOn generalizing s with
  | ind n ih =>
    subst hn
    have hcode : ∀ {t stop read read' rest}, t.length < s.length → CodeReads stop read t read' rest →
        (CodeReads.And P) stop read t read' rest := fun ht h => ⟨h, (ih _ ht _ rfl).1 h⟩
    have hstring : ∀ {t stop read text read' rest}, t.length < s.length → StringReads stop read text t read' rest →
        (StringReads.And Q) stop read text t read' rest := fun ht h => ⟨h, (ih _ ht _ rfl).2 h⟩
    constructor
    · intro stop read read' rest h
      refine code ?_
      cases h.step with
      | done => exact .done
      | last hitem hstop => exact .last hitem hstop
      | lexeme hitem hstop hrest =>
          exact .lexeme hitem hstop (hcode (Nat.lt_succ_of_le (length_drop_le _ _)) hrest)
      | closeTag hitem => exact .closeTag hitem
      | quote hitem hinside hrest =>
          exact .quote hitem (hstring (Nat.lt_succ_self _) hinside)
            (hcode (Nat.lt_succ_of_lt hinside.length_le) hrest)
      | @heredoc _ _ _ _ c s _ _ more _ _ _ hitem hbody hmid hrest =>
          have hshort : (s.drop more).length < (c :: s).length := Nat.lt_succ_of_le (length_drop_le more s)
          refine .heredoc hitem hbody ?_ (hcode (Nat.lt_of_le_of_lt (length_drop_le _ _) hshort) hrest)
          cases hmid with
          | literal hliteral => exact .literal hliteral
          | interpolated hinside hparts => exact .interpolated (hstring hshort hinside) hparts
    · intro stop read text read' rest h
      refine string ?_
      cases h.step with
      | done hover => exact .done hover
      | close => exact .close
      | escape hleft hrest hpiece =>
          exact .escape hleft (hstring (Nat.lt_succ_of_le (length_drop_le _ _)) hrest) hpiece
      | simple hname hrest hpiece =>
          exact .simple hname (hstring (Nat.lt_succ_of_le (length_drop_le _ _)) hrest) hpiece
      | braces hinside hstop hrest hpiece =>
          exact .braces (hcode (Nat.lt_succ_self _) hinside) hstop
            (hstring (Nat.lt_succ_of_le hinside.length_le) hrest) hpiece
      | named hname hrest hpiece =>
          exact .named hname
            (hstring (Nat.lt_succ_of_le (Nat.le_succ_of_le (length_drop_le _ _))) hrest) hpiece
      | dollarBraces hinside hstop hrest hpiece =>
          exact .dollarBraces (hcode (Nat.lt_succ_of_lt (Nat.lt_succ_self _)) hinside) hstop
            (hstring (Nat.lt_succ_of_le (Nat.le_succ_of_le hinside.length_le)) hrest) hpiece
      | char hleft hc hrest hpiece => exact .char hleft hc (hstring (Nat.lt_succ_self _) hrest) hpiece

end Unassigned
