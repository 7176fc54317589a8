import Mathlib.Algebra.GroupWithZero.Nat
import Unassigned.Proofs.ItemForms
import Unassigned.Proofs.Nesting
import Unassigned.Proofs.Scanning

/-!
# `Proofs.Lossless` — a source is the texts of its tokens

The scanners cut the source into lexemes and lose nothing of it, with one exception: the body of a heredoc
with interpolated parts, since scanning goes on from the closing label wherever the last part ended. So the
texts of the lexemes spell the source as long as every heredoc is plain (`PlainHeredocs`).

What a scanner adds to the lexemes is a `Spelling` of what it read. Spellings are put together one behind the
other, so each way in which code or a string goes on (`CodeStep`, `StringStep`) is a few lines.
-/

namespace Unassigned

/-! ## Plain heredocs -/

/-- Every heredoc in a sequence of kinds has an empty body, or one of a single piece of text. -/
def PlainHeredocs (kinds : List Kind) : Prop :=
  ∀ i < kinds.length, kinds[i]? = some .heredocStart →
    kinds[i + 1]? = some .heredocEnd ∨ kinds[i + 1]? = some .stringText ∧ kinds[i + 2]? = some .heredocEnd

instance (kinds : List Kind) : Decidable (PlainHeredocs kinds) :=
  inferInstanceAs (Decidable (∀ i < kinds.length, _ → _))

theorem PlainHeredocs.of_append {before after : List Kind} (h : PlainHeredocs (before ++ after)) :
    PlainHeredocs after := by
  intro i hi hstart
  have hshift : ∀ k, (before ++ after)[before.length + k]? = after[k]? := by
    intro k
    rw [List.getElem?_append_right (by omega), Nat.add_sub_cancel_left]
  have hnext := h (before.length + i) (by simp; omega) (by rw [hshift]; exact hstart)
  rw [Nat.add_assoc, Nat.add_assoc, hshift, hshift] at hnext
  exact hnext

variable {kind : Kind} {new read read' : List Lexeme} {s mid rest text label : List Char} {length closing : Nat}
  {stop : StringEnd}

theorem PlainHeredocs.tail {kinds : List Kind} (h : PlainHeredocs (kind :: kinds)) : PlainHeredocs kinds :=
  of_append (show PlainHeredocs ([kind] ++ kinds) from h)

/-- The kind of a lexeme; that of a word is settled by its place only. -/
def Lexeme.rawKind (lexeme : Lexeme) : Kind :=
  match lexeme.shape with
  | .word => .name
  | .of kind => kind

/-! ## Spellings -/

/-- The lexemes `new` spell the text `s` up to `rest`, if all heredocs in them are plain. -/
structure Spelling (new : List Lexeme) (s rest : List Char) : Prop where
  ne_nil : ∀ lexeme ∈ new, lexeme.text ≠ []
  spells : ∀ tail, PlainHeredocs (new.map Lexeme.rawKind ++ tail) → new.flatMap Lexeme.text ++ rest = s

namespace Spelling

variable {new more : List Lexeme} {s mid rest : List Char}

theorem nil : Spelling [] s s :=
  ⟨by simp, fun _ _ => rfl⟩

theorem single {lexeme : Lexeme} (hne : lexeme.text ≠ []) (hs : lexeme.text ++ rest = s) :
    Spelling [lexeme] s rest :=
  ⟨by simpa using hne, fun _ _ => by simpa using hs⟩

theorem append (hnew : Spelling new s mid) (hmore : Spelling more mid rest) :
    Spelling (new ++ more) s rest := by
  refine ⟨fun lexeme hmem => ?_, fun tail hplain => ?_⟩
  · rcases List.mem_append.mp hmem with hmem | hmem
    · exact hnew.ne_nil lexeme hmem
    · exact hmore.ne_nil lexeme hmem
  · rw [List.map_append, List.append_assoc] at hplain
    have hrest := hmore.spells tail hplain.of_append
    have hfront := hnew.spells _ hplain
    rw [List.flatMap_append, List.append_assoc, hrest, hfront]

/-- A lexeme in front. -/
theorem cons {lexeme : Lexeme} (hne : lexeme.text ≠ []) (hs : lexeme.text ++ mid = s)
    (hmore : Spelling more mid rest) : Spelling (lexeme :: more) s rest :=
  (single hne hs).append hmore

/-- A lexeme of a character and some that follow it. -/
theorem cons_take {shape : Shape} {c : Char} {n : Nat} (hmore : Spelling more (s.drop n) rest) :
    Spelling (⟨shape, c :: s.take n⟩ :: more) (c :: s) rest :=
  cons (by simp) (by simp) hmore

end Spelling

/-- What a scanner adds to the lexemes before it spells what it has read. -/
def Adds (read read' : List Lexeme) (s rest : List Char) : Prop :=
  ∃ new, read' = new.reverse ++ read ∧ Spelling new s rest

theorem Adds.of_spelling (hnew : Spelling new s mid) (h : Adds (new.reverse ++ read) read' mid rest) :
    Adds read read' s rest := by
  obtain ⟨more, rfl, hmore⟩ := h
  exact ⟨new ++ more, by simp, hnew.append hmore⟩

/-- A lexeme and what follows it. -/
theorem Adds.of_lexeme (lexeme : Lexeme) (hne : lexeme.text ≠ []) (h : Adds (lexeme :: read) read' mid rest) :
    Adds read read' (lexeme.text ++ mid) rest :=
  .of_spelling (.single hne rfl) h

theorem Adds.refl : Adds read read s s :=
  ⟨[], rfl, .nil⟩

theorem Adds.trans {mid : List Lexeme} {after : List Char} (hmid : Adds read mid s after)
    (h : Adds mid read' after rest) : Adds read read' s rest := by
  obtain ⟨new, rfl, hnew⟩ := hmid
  exact .of_spelling hnew h

/-- A piece of text, if there is any. -/
def textPiece (text : List Char) : List Lexeme :=
  if text.isEmpty then [] else [⟨.of .stringText, text⟩]

theorem flushText_eq (read : List Lexeme) (text : List Char) :
    flushText read text = (textPiece text.reverse).reverse ++ read := by
  unfold flushText textPiece
  cases text <;> simp

theorem textPiece_spelling (h : text ++ rest = s) : Spelling (textPiece text) s rest := by
  unfold textPiece
  cases text with
  | nil =>
      obtain rfl : rest = s := h
      exact .nil
  | cons c text => exact .single (by simp) h

theorem adds_flushText : Adds read (flushText read text) (text.reverse ++ s) s :=
  ⟨textPiece text.reverse, flushText_eq read text, textPiece_spelling rfl⟩

/-- The text before an interpolated part, and the part. -/
theorem Adds.of_flushText (hnew : Spelling new s mid) (h : Adds (new.reverse ++ flushText read text) read' mid rest) :
    Adds read read' (text.reverse ++ s) rest :=
  adds_flushText.trans (.of_spelling hnew h)

/-! ## Interpolated variables -/

/-- A name has a character. -/
theorem take_name_ne_nil (h : startsIn isNameStart s) : s.take (runLength isNameChar s) ≠ [] := by
  obtain ⟨c, rest, rfl, hc⟩ := exists_of_startsIn h
  simp [runLength, isNameChar_of_isNameStart hc]

/-- A simple index is a bracket, the index and a bracket. -/
theorem simpleIndex?_spelling (h : simpleIndex? s = some (kind, length)) :
    Spelling [⟨.of (.char '['), ['[']⟩, ⟨.of kind, (s.drop 1).take length⟩, ⟨.of (.char ']'), [']']⟩] s
      (s.drop (length + 2)) := by
  obtain ⟨index, after, rfl, rfl, hform⟩ := simpleIndex?_form h
  have hafter : ('[' :: (index ++ ']' :: after)).drop (index.length + 2) = after := by simp
  rw [hafter, List.drop_one, List.tail_cons, List.take_left]
  exact .cons (by simp) rfl (.cons hform.ne_nil rfl (.single (by simp) rfl))

/-- The operator of a simple property access, and the name behind it. -/
theorem simpleProperty?_spelling (h : simpleProperty? s = some (kind, length)) :
    Spelling [⟨.of kind, s.take length⟩,
      ⟨.of .name, (s.drop length).take (runLength isNameChar (s.drop length))⟩] s
      (s.drop (length + runLength isNameChar (s.drop length))) := by
  obtain ⟨_, hoperator⟩ := simpleProperty?_form h
  refine .cons hoperator.1 (List.take_append_drop length s) (.single (take_name_ne_nil hoperator.2) ?_)
  rw [← List.drop_drop]
  exact List.take_append_drop _ _

/-- An interpolated variable, with its index or property. -/
theorem simpleInterpolation_spelling (s : List Char) :
    Spelling (simpleInterpolation s).1 ('$' :: s) (s.drop (simpleInterpolation s).2) := by
  have hname : '$' :: s.take (runLength isNameChar s) ++ s.drop (runLength isNameChar s) = '$' :: s := by
    simp
  unfold simpleInterpolation
  dsimp only
  cases hindex : simpleIndex? (s.drop (runLength isNameChar s)) with
  | some index =>
      show Spelling _ _ (s.drop (runLength isNameChar s + index.2 + 2))
      rw [Nat.add_assoc, ← List.drop_drop]
      exact .cons (by simp) hname (simpleIndex?_spelling hindex)
  | none =>
      cases hproperty : simpleProperty? (s.drop (runLength isNameChar s)) with
      | some property =>
          show Spelling _ _ (s.drop (runLength isNameChar s + property.2 + _))
          rw [Nat.add_assoc, ← List.drop_drop]
          exact .cons (by simp) hname (simpleProperty?_spelling hproperty)
      | none => exact .single (by simp) hname

/-- A name in braces. -/
theorem braceName?_spelling {inside : List Char} {name : Nat} (h : braceName? inside = some name) :
    Spelling [⟨.of .dollarCurlyOpen, ['$', '\x7b']⟩, ⟨.of .stringVarName, inside.take name⟩,
      ⟨.of (.char '\x7d'), ['\x7d']⟩] ('$' :: '\x7b' :: inside) (inside.drop (name + 1)) := by
  unfold braceName? at h
  dsimp only at h
  split at h
  · next hbrace =>
      cases h
      obtain ⟨c, tail, htail, hc⟩ := exists_of_startsIn hbrace.2
      obtain rfl : c = '\x7d' := by simpa using hc
      refine .cons (by simp) rfl (.cons (take_name_ne_nil hbrace.1) (List.take_append_drop _ inside) ?_)
      rw [← List.drop_drop, htail]
      exact .single (by simp) rfl
  · cases h

/-! ## Heredocs -/

/-- A closing label is a part of the text, with at least one character. -/
theorem closingLabelLength?_take_ne_nil (hlabel : label ≠ []) (h : closingLabelLength? label s = some closing) :
    s.take closing ≠ [] := by
  unfold closingLabelLength? at h
  dsimp only at h
  split at h
  · next rest hprefix =>
      split at h
      · cases h
      · cases h
        intro hnil
        rcases List.take_eq_nil_iff.mp hnil with hzero | rfl
        · exact hlabel (List.length_eq_zero_iff.mp (by omega))
        · cases label with
          | nil => exact hlabel rfl
          | cons c label => simp [List.isPrefixOf?] at hprefix
  · cases h

/-- A text that is empty or ends with a line feed. -/
def EndsLine (text : List Char) : Prop :=
  text = [] ∨ text.getLast? = some '\n'

theorem EndsLine.of_cons {c : Char} (h : EndsLine (c :: text)) : EndsLine text := by
  rcases h with h | h
  · cases h
  · cases text with
    | nil => exact .inl rfl
    | cons d text => exact .inr (by simpa [List.getLast?_cons_cons] using h)

/-- The body of a heredoc ends where a line ends, and its label stands behind it. -/
theorem heredocBody?_eq_some {atStart : Bool} (h : heredocBody? label atStart s = some (length, closing)) :
    closingLabelLength? label (s.drop length) = some closing
      ∧ length ≤ s.length ∧ (length = 0 → atStart) ∧ EndsLine (s.take length) := by
  induction s generalizing atStart length with
  | nil =>
      unfold heredocBody? at h
      split at h
      · next hclosing =>
          cases h
          cases atStart with
          | false => cases hclosing
          | true => exact ⟨hclosing, Nat.zero_le _, fun _ => rfl, .inl rfl⟩
      · cases h
  | cons c rest ih =>
      unfold heredocBody? at h
      split at h
      · next hclosing =>
          cases h
          cases atStart with
          | false => cases hclosing
          | true => exact ⟨hclosing, Nat.zero_le _, fun _ => rfl, .inl rfl⟩
      · obtain ⟨⟨body, _⟩, hbody, heq⟩ := Option.map_eq_some_iff.mp h
        cases heq
        obtain ⟨hclosing, hle, hstart, hends⟩ := ih hbody
        refine ⟨hclosing, Nat.succ_le_succ hle, fun hzero => by omega, .inr ?_⟩
        rw [List.take_succ_cons]
        rcases hends with hempty | hlast
        · -- the line starts right behind `c`
          have hzero : body = 0 := by
            have hlength := congrArg List.length hempty
            rw [List.length_take, Nat.min_eq_left hle] at hlength
            exact hlength
          rw [hempty, eq_of_beq (hstart hzero)]
          rfl
        · rw [List.getLast?_cons, hlast]
          rfl

/-- The label of a heredoc has a character. -/
theorem heredocOpening?_label_ne_nil {opening : HeredocOpening} (h : heredocOpening? s = some opening) :
    opening.label ≠ [] := by
  simp only [heredocOpening?] at h
  generalize (if startsIn (fun c => c == '\x22' || c == '\x27') (s.drop (runLength isIndent s)) then
    (s.drop (runLength isIndent s)).take 1 else []) = quote at h
  split at h
  · next hlabel =>
      split at h
      · cases h
      · cases h
        obtain ⟨c, rest, hcons, _⟩ := exists_of_startsIn hlabel.1
        exact hcons ▸ List.cons_ne_nil c rest
  · cases h

namespace Item

/-- A heredoc has a label. -/
def Labelled : Item → Prop
  | .heredoc _ label _ => label ≠ []
  | _ => True

theorem read_labelled (c : Char) (s : List Char) : (Item.read c s).Labelled := by
  have hform := read_form c s
  generalize Item.read c s = item at hform ⊢
  cases hform with
  | heredoc hopening => exact heredocOpening?_label_ne_nil hopening
  | _ => trivial

end Item

/-! ## The body of a heredoc -/

/-- The first lexeme that is no piece of text starts an interpolated part. -/
def Interpolated (new : List Lexeme) : Prop :=
  ∃ text part more, new = textPiece text ++ part :: more
    ∧ part.rawKind ∈ [Kind.var, .curlyOpen, .dollarCurlyOpen]

theorem Interpolated.not_plain (h : Interpolated new) {tail : List Kind} :
    ¬ PlainHeredocs (.heredocStart :: new.map Lexeme.rawKind ++ tail) := by
  obtain ⟨text, part, more, rfl, hpart⟩ := h
  intro hplain
  have hnext := hplain 0 (by simp) rfl
  cases text with
  | nil =>
      have hkind : some part.rawKind = some .heredocEnd ∨ some part.rawKind = some .stringText ∧ _ := hnext
      rcases hkind with hkind | ⟨hkind, _⟩
      · exact absurd (Option.some.inj hkind ▸ hpart) (by decide)
      · exact absurd (Option.some.inj hkind ▸ hpart) (by decide)
  | cons c text =>
      have hkind : some Kind.stringText = some .heredocEnd ∨ _ ∧ some part.rawKind = some .heredocEnd := hnext
      rcases hkind with hkind | ⟨_, hkind⟩
      · cases hkind
      · exact absurd (Option.some.inj hkind ▸ hpart) (by decide)

/-- The lexemes of a heredoc with this body: the text of it, or lexemes with an interpolated part. -/
def HeredocAdds (read read' : List Lexeme) (body : List Char) : Prop :=
  ∃ new, read' = new.reverse ++ read ∧ (new = textPiece body ∨ Interpolated new)

/-- A part right behind the text collected so far. -/
theorem HeredocAdds.of_part {more : List Lexeme} {part : Lexeme} {body : List Char} (text : List Char)
    (hpart : part.rawKind ∈ [Kind.var, .curlyOpen, .dollarCurlyOpen])
    (h : read' = more.reverse ++ part :: flushText read text) : HeredocAdds read read' body := by
  refine ⟨textPiece text.reverse ++ part :: more, ?_, .inr ⟨text.reverse, part, more, rfl, hpart⟩⟩
  rw [h, flushText_eq]
  simp

theorem simpleInterpolation_head (s : List Char) :
    ∃ more, (simpleInterpolation s).1 = ⟨.of .var, '$' :: s.take (runLength isNameChar s)⟩ :: more := by
  unfold simpleInterpolation
  dsimp only
  split
  · exact ⟨_, rfl⟩
  · split <;> exact ⟨_, rfl⟩

/-! ## What the scanners add -/

/-- The scanner of code spells what it reads. -/
def CodeAdds : CodeRelation := fun _ read s read' rest =>
  Adds read read' s rest

/-- The piece is an interpolated part. -/
def Piece.isPart : Piece → Bool
  | .simple | .braces | .named _ | .dollarBraces => true
  | _ => false

/-- **What the scanner of strings adds.** -/
structure StringAdds (stop : StringEnd) (read : List Lexeme) (text s : List Char) (read' : List Lexeme)
    (rest : List Char) : Prop where
  /-- It spells what it reads. -/
  adds : Adds read read' (text.reverse ++ s) rest
  /-- It stops before a closing quote. -/
  closes (q : Char) : stop = .quote q → ∃ after, rest = q :: after
  /-- The lexeme that starts an interpolated part stands right behind the text collected so far. -/
  starts : (Piece.read stop s).isPart → ∃ (part : Lexeme) (more : List Lexeme),
    part.rawKind ∈ [Kind.var, .curlyOpen, .dollarCurlyOpen] ∧ read' = more.reverse ++ part :: flushText read text
  /-- The body of a heredoc, where a line ends, so that no backslash takes a character behind it. -/
  inHeredoc (n : Nat) : stop = .after n → EndsLine (s.take n) → HeredocAdds read read' (text.reverse ++ s.take n)

/-- How much of a string was read does not change the quote at which it ends. -/
theorem StringEnd.closes_of_advance {n : Nat} (h : ∀ q, stop.advance n = .quote q → ∃ after, rest = q :: after)
    (q : Char) (hstop : stop = .quote q) : ∃ after, rest = q :: after :=
  h q (by rw [hstop]; rfl)

/-- An interpolated part. -/
theorem StringAdds.of_part {n : Nat} (part : Lexeme) (more : List Lexeme)
    (hkind : part.rawKind ∈ [Kind.var, .curlyOpen, .dollarCurlyOpen])
    (hread : read' = more.reverse ++ part :: flushText read text) (hadds : Adds read read' (text.reverse ++ s) rest)
    (hcloses : ∀ q, stop.advance n = .quote q → ∃ after, rest = q :: after) :
    StringAdds stop read text s read' rest :=
  ⟨hadds, stop.closes_of_advance hcloses, fun _ => ⟨part, more, hkind, hread⟩, fun _ _ _ => .of_part text hkind hread⟩

/-- An expression in braces; `part` is what opens it. -/
theorem StringAdds.of_braces {mid : List Lexeme} {body after : List Char} {n : Nat} (part : Lexeme)
    (hkind : part.rawKind ∈ [Kind.var, .curlyOpen, .dollarCurlyOpen]) (hne : part.text ≠ [])
    (hinside : Adds (part :: flushText read text) mid body after)
    (hrest : StringAdds (stop.advance n) mid [] after read' rest) :
    StringAdds stop read text (part.text ++ body) read' rest := by
  have hadds := hinside.trans hrest.adds
  have hspelled := adds_flushText.trans (Adds.of_lexeme part hne hadds)
  obtain ⟨more, hread, _⟩ := hadds
  exact .of_part part more hkind hread hspelled hrest.closes

/-- No interpolated part stands where the piece is none. -/
theorem Piece.not_isPart {piece : Piece} (h : Piece.read stop s = piece) (hpart : piece.isPart = false) {p : Prop}
    (hread : (Piece.read stop s).isPart) : p := by
  rw [h, hpart] at hread
  cases hread

/-- **A string is spelled by its lexemes,** if its parts are. -/
theorem StringStep.adds
    (h : StringStep (CodeReads.And CodeAdds) (StringReads.And StringAdds) stop read text s read' rest) :
    StringAdds stop read text s read' rest := by
  cases h with
  | done hover =>
      refine ⟨adds_flushText, by simp, Piece.not_isPart (Piece.read_of_over hover) rfl, ?_⟩
      rintro n ⟨⟩ _
      rw [List.take_eq_nil_iff.mpr hover, List.append_nil]
      exact ⟨textPiece text.reverse, flushText_eq read text, .inl rfl⟩
  | close =>
      refine ⟨adds_flushText, ?_, Piece.not_isPart (Piece.read_of_close _ _) rfl, by simp⟩
      rintro q ⟨⟩
      exact ⟨_, rfl⟩
  | @escape _ _ _ _ s _ hleft hrest hpiece =>
      obtain ⟨_, hmore, hcloses, _, hheredoc⟩ := hrest
      refine ⟨?_, stop.closes_of_advance hcloses, Piece.not_isPart hpiece rfl, ?_⟩
      · -- the two characters are the last ones of the text collected
        have htext : (s.take 1 ++ '\\' :: text).reverse ++ s.drop 1 = text.reverse ++ '\\' :: s := by
          cases s <;> simp
        rwa [htext] at hmore
      · rintro n rfl hends
        obtain ⟨m, rfl⟩ : ∃ m, n = m + 1 := Nat.exists_eq_succ_of_ne_zero fun hzero => hleft (by rw [hzero])
        rw [List.take_succ_cons] at hends ⊢
        -- the backslash is not the last character, so the next one belongs to the body
        obtain ⟨k, d, t, rfl, rfl⟩ : ∃ k d t, m = k + 1 ∧ s = d :: t := by
          rcases hends with hnil | hlast
          · cases hnil
          · cases m with
            | zero => simp at hlast
            | succ k =>
                cases s with
                | nil => simp at hlast
                | cons d t => exact ⟨k, d, t, rfl, rfl⟩
        rw [List.take_succ_cons] at hends ⊢
        simpa using hheredoc k rfl hends.of_cons.of_cons
  | @simple _ _ _ _ s _ _ hrest =>
      obtain ⟨_, hmore, hcloses, _⟩ := hrest
      obtain ⟨parts, hparts⟩ := simpleInterpolation_head s
      have hadds := Adds.of_flushText (simpleInterpolation_spelling s) hmore
      obtain ⟨more, hread, _⟩ := hmore
      rw [hparts, List.reverse_cons, List.append_assoc, ← List.append_assoc, ← List.reverse_append] at hread
      exact .of_part _ _ (List.mem_cons_self ..) hread hadds hcloses
  | braces hcode hstop hrest =>
      subst hstop
      exact .of_braces ⟨.of .curlyOpen, ['\x7b']⟩ (by decide) (by simp) hcode.2 hrest.2
  | @named _ _ _ _ inside _ name hname hrest =>
      obtain ⟨_, hmore, hcloses, _⟩ := hrest
      have hadds := Adds.of_flushText (braceName?_spelling hname) hmore
      obtain ⟨more, hread, _⟩ := hmore
      exact .of_part ⟨.of .dollarCurlyOpen, ['$', '\x7b']⟩ (⟨.of .stringVarName, inside.take name⟩
        :: ⟨.of (.char '\x7d'), ['\x7d']⟩ :: more) (by decide) (by rw [hread]; simp) hadds hcloses
  | dollarBraces hcode hstop hrest =>
      subst hstop
      exact .of_braces ⟨.of .dollarCurlyOpen, ['$', '\x7b']⟩ (by decide) (by simp) hcode.2 hrest.2
  | char hleft _ hrest hpiece =>
      obtain ⟨_, hmore, hcloses, _, hheredoc⟩ := hrest
      refine ⟨by simpa using hmore, stop.closes_of_advance hcloses, Piece.not_isPart hpiece rfl, ?_⟩
      rintro n rfl hends
      obtain ⟨m, rfl⟩ : ∃ m, n = m + 1 := Nat.exists_eq_succ_of_ne_zero fun hzero => hleft (by rw [hzero])
      rw [List.take_succ_cons] at hends ⊢
      simpa using hheredoc m rfl hends.of_cons

theorem textPiece_text (text : List Char) : (textPiece text).flatMap Lexeme.text = text := by
  unfold textPiece
  cases text <;> simp

theorem HeredocReads.adds {mid : List Lexeme} {body : List Char} {isNowdoc : Bool}
    (h : HeredocReads (StringReads.And StringAdds) isNowdoc length read body mid)
    (hends : EndsLine (body.take length)) :
    ∃ new, mid = new.reverse ++ read ∧ (∀ lexeme ∈ new, lexeme.text ≠ [])
      ∧ (new = textPiece (body.take length) ∨ Interpolated new) := by
  cases h with
  | literal =>
      refine ⟨textPiece (body.take length), ?_, (textPiece_spelling (List.append_nil _)).ne_nil, .inl rfl⟩
      rw [flushText_eq, List.reverse_reverse]
  | interpolated hstring =>
      obtain ⟨new, hmid, hspelling⟩ := hstring.2.adds
      obtain ⟨new', hmid', hcases⟩ := hstring.2.inHeredoc _ rfl hends
      have heq : new = new' := List.reverse_inj.mp (List.append_cancel_right (hmid.symm.trans hmid'))
      subst heq
      exact ⟨new, hmid, hspelling.ne_nil, hcases⟩

/-- A heredoc, from its opening to its closing label. -/
theorem Adds.of_heredoc {c : Char} {more : Nat} {mid : List Lexeme} {isNowdoc : Bool}
    (hitem : Item.read c s = .heredoc more label isNowdoc)
    (hbody : heredocBody? label true (s.drop more) = some (length, closing))
    (hmid : HeredocReads (StringReads.And StringAdds) isNowdoc length (⟨.of .heredocStart, c :: s.take more⟩ :: read)
      (s.drop more) mid)
    (hrest : Adds (⟨.of .heredocEnd, ((s.drop more).drop length).take closing⟩ :: mid) read'
      ((s.drop more).drop (length + closing)) rest) : Adds read read' (c :: s) rest := by
  have hsplit : s.take more ++ s.drop more = s := List.take_append_drop more s
  generalize s.drop more = body at *
  obtain ⟨hclosing, _, _, hends⟩ := heredocBody?_eq_some hbody
  have hlabel : label ≠ [] := by
    have hlabelled := Item.read_labelled c s
    rw [hitem] at hlabelled
    exact hlabelled
  have hend := closingLabelLength?_take_ne_nil hlabel hclosing
  obtain ⟨new, rfl, hnew, hcases⟩ := hmid.adds hends
  obtain ⟨after, rfl, hafter⟩ := hrest
  refine ⟨⟨.of .heredocStart, c :: s.take more⟩
    :: (new ++ ⟨.of .heredocEnd, (body.drop length).take closing⟩ :: after), by simp, ?_, ?_⟩
  · intro lexeme hmem
    simp only [List.mem_cons, List.mem_append] at hmem
    rcases hmem with rfl | hmem | rfl | hmem
    · simp
    · exact hnew lexeme hmem
    · exact hend
    · exact hafter.ne_nil lexeme hmem
  · intro tail hplain
    simp only [List.map_cons, List.map_append, List.cons_append, List.append_assoc] at hplain
    rcases hcases with rfl | hpart
    · have hrest := hafter.spells tail hplain.tail.of_append.tail
      simp only [List.flatMap_cons, List.flatMap_append, textPiece_text, List.append_assoc, hrest]
      rw [← List.drop_drop, List.take_append_drop, List.take_append_drop, List.cons_append, hsplit]
    · exact absurd hplain hpart.not_plain

/-- **Code is spelled by its lexemes,** if its parts are. -/
theorem CodeStep.adds {stop : CodeEnd}
    (h : CodeStep (CodeReads.And CodeAdds) (StringReads.And StringAdds) stop read s read' rest) :
    CodeAdds stop read s read' rest := by
  cases h with
  | done => exact .refl
  | last _ _ => exact ⟨[_], rfl, .cons_take .nil⟩
  | lexeme _ _ hrest => exact .of_spelling (.cons_take .nil) hrest.2
  | closeTag _ => exact ⟨[_], rfl, .cons_take .nil⟩
  | @quote _ _ _ _ c d s after _ _ hstring hrest =>
      obtain ⟨_, hd⟩ := hstring.2.closes c rfl
      obtain ⟨rfl, rfl⟩ := List.cons.inj hd
      exact .of_lexeme ⟨.of (.char d), [d]⟩ (by simp)
        (hstring.2.adds.trans (.of_lexeme ⟨.of (.char d), [d]⟩ (by simp) hrest.2))
  | heredoc hitem hbody hmid hrest => exact .of_heredoc hitem hbody hmid hrest.2

theorem scanners_add : (∀ {stop read s read' rest}, CodeReads stop read s read' rest → Adds read read' s rest)
    ∧ ∀ {stop read text s read' rest}, StringReads stop read text s read' rest →
      StringAdds stop read text s read' rest :=
  scanners_induction CodeStep.adds StringStep.adds

/-! ## Files -/

/-- Text outside the code tags goes up to an opening tag or to the end. -/
theorem drop_htmlLength (s : List Char) :
    s.drop (htmlLength s) = [] ∨ ∃ rest, s.drop (htmlLength s) = '<' :: '?' :: rest := by
  induction s with
  | nil => exact .inl rfl
  | cons c s ih =>
      unfold htmlLength
      split
      · next htag =>
          obtain ⟨rfl, hquestion, _⟩ := htag
          obtain ⟨d, rest, rfl, hd⟩ := exists_of_startsIn hquestion
          obtain rfl : d = '?' := by simpa using hd
          exact .inr ⟨rest, rfl⟩
      · exact ih

/-- The lexemes before the opening tag: the text outside the code tags, if there is any. -/
def readHtml (read : List Lexeme) (s : List Char) : List Lexeme :=
  if htmlLength s = 0 then read else ⟨.of .inlineHtml, s.take (htmlLength s)⟩ :: read

/-- The opening tag of code; `s` is the text behind `<?`. -/
def openTag (s : List Char) : Lexeme :=
  let text := '<' :: '?' :: s.take (openTagMore s)
  ⟨.of (if text = ['<', '?', '='] then .openTagEcho else .openTag), text⟩

/-- How the scan of a file goes on. -/
theorem scanFile_step (h : scanFile read s = .ok read') :
    (s.drop (htmlLength s) = [] ∧ read' = readHtml read s)
      ∨ ∃ rest mid after, s.drop (htmlLength s) = '<' :: '?' :: rest
        ∧ CodeReads .file (openTag rest :: readHtml read s) (rest.drop (openTagMore rest)) mid after
        ∧ scanFile mid after = .ok read' ∧ after.length < s.length := by
  rw [scanFile] at h
  dsimp only at h
  split at h
  · next rest htag =>
      obtain ⟨⟨mid, after⟩, hcode, hrest⟩ := exists_of_bind_eq_ok h
      refine .inr ⟨rest, mid, after.1, htag, ⟨_, hcode, rfl, rfl⟩, hrest, ?_⟩
      have hlength := congrArg List.length htag
      have hafter := after.2
      simp only [List.length_drop, List.length_cons] at hlength hafter
      omega
  · next hother =>
      cases h
      rcases drop_htmlLength s with hempty | ⟨rest, htag⟩
      · exact .inl ⟨hempty, rfl⟩
      · exact absurd htag (hother rest)

theorem html_adds (read : List Lexeme) (s : List Char) : Adds read (readHtml read s) s (s.drop (htmlLength s)) := by
  unfold readHtml
  split
  · next hzero =>
      rw [hzero]
      exact .refl
  · next hne =>
      refine ⟨[_], rfl, .single (fun hnil => ?_) (List.take_append_drop _ s)⟩
      rcases List.take_eq_nil_iff.mp hnil with hzero | rfl
      · exact hne hzero
      · exact hne rfl

/-- **A file is spelled by its lexemes.** -/
theorem scanFile_adds (h : scanFile read s = .ok read') : Adds read read' s [] := by
  induction hn : s.length using Nat.strongRecOn generalizing read s with
  | ind n ih =>
      subst hn
      refine (html_adds read s).trans ?_
      rcases scanFile_step h with ⟨hempty, rfl⟩ | ⟨inside, mid, after, htag, hcode, hfile, hshort⟩
      · rw [hempty]
        exact .refl
      · have hrest := Adds.of_lexeme (openTag inside) (by simp [openTag])
          ((scanners_add.1 hcode).trans (ih _ hshort hfile rfl))
        rw [htag]
        simpa [openTag] using hrest

/-! ## Tokens -/

/-- Only the kinds of words depend on their place. -/
theorem Lexeme.kind_eq_iff {before : Preceding} {lexeme : Lexeme} (hname : kind ≠ .name)
    (hkeyword : ∀ word, kind ≠ .keyword word) : lexeme.kind before = kind ↔ lexeme.rawKind = kind := by
  unfold Lexeme.kind Lexeme.rawKind
  cases lexeme.shape with
  | of kind => rfl
  | word =>
      refine iff_of_false ?_ (fun h => hname h.symm)
      dsimp only
      split
      · next word _ =>
          split
          · exact fun h => hname h.symm
          · exact fun h => hkeyword word h.symm
      · exact fun h => hname h.symm

namespace Token

theorem kind_ofLexemes {kind : Kind} (hname : kind ≠ .name) (hkeyword : ∀ word, kind ≠ .keyword word)
    (lexemes : List Lexeme) (before : Preceding) (line index i : Nat) :
    ((ofLexemes before line index lexemes).map Token.kind)[i]? = some kind
      ↔ (lexemes.map Lexeme.rawKind)[i]? = some kind := by
  induction lexemes generalizing before line index i with
  | nil => rfl
  | cons lexeme lexemes ih =>
      cases i with
      | zero =>
          show some (lexeme.kind before) = some kind ↔ some lexeme.rawKind = some kind
          rw [Option.some_inj, Option.some_inj]
          exact Lexeme.kind_eq_iff hname hkeyword
      | succ i => exact ih _ _ _ i

theorem plainHeredocs_ofLexemes {lexemes : List Lexeme} {before : Preceding} {line index : Nat}
    (h : PlainHeredocs ((ofLexemes before line index lexemes).map Token.kind)) :
    PlainHeredocs (lexemes.map Lexeme.rawKind) := by
  intro i _ hstart
  have hkinds : ∀ {kind : Kind} {k : Nat}, kind ∈ [Kind.heredocStart, .heredocEnd, .stringText] →
      (((ofLexemes before line index lexemes).map Token.kind)[k]? = some kind
        ↔ (lexemes.map Lexeme.rawKind)[k]? = some kind) := by
    intro kind k hkind
    apply kind_ofLexemes
    · rintro rfl
      simp at hkind
    · rintro word rfl
      simp at hkind
  have htokens := (hkinds (by simp)).mpr hstart
  have hnext := h i (List.getElem?_eq_some_iff.mp htokens).1 htokens
  rwa [hkinds (by simp), hkinds (by simp), hkinds (by simp)] at hnext

theorem text_ofLexemes (lexemes : List Lexeme) (before : Preceding) (line index : Nat) :
    (ofLexemes before line index lexemes).map Token.text
      = lexemes.map fun lexeme => String.ofList lexeme.text := by
  induction lexemes generalizing before line index with
  | nil => rfl
  | cons lexeme lexemes ih => exact congrArg _ (ih _ _ _)

/-- A token stands on the line after the line feeds before it. -/
theorem line_ofLexemes {lexemes : List Lexeme} {before : Preceding} {line index i : Nat} {t : Token}
    (h : (ofLexemes before line index lexemes)[i]? = some t) :
    t.line = line + (((ofLexemes before line index lexemes).take i).map
      fun u => lineFeeds u.text.toList).sum := by
  induction lexemes generalizing before line index i with
  | nil => cases h
  | cons lexeme lexemes ih =>
      cases i with
      | zero =>
          cases h
          rfl
      | succ i =>
          rw [ih h]
          simp [ofLexemes, Nat.add_assoc]

end Token

/-- **Tokenizing is lossless.** If every heredoc is plain, the texts of the tokens spell the source. No text is
    empty, and every token knows its place in the list and in the source. -/
theorem tokenize_lossless {source : String} {tokens : List Token} (h : tokenize source = .ok tokens) :
    (PlainHeredocs (tokens.map Token.kind) → String.join (tokens.map Token.text) = source)
    ∧ (∀ t ∈ tokens, t.text ≠ "")
    ∧ ∀ i t, tokens[i]? = some t →
        t.index = i ∧ t.line = 1 + ((tokens.take i).map fun u => u.text.toList.count '\n').sum := by
  have hnumbered := tokenize_numbered h
  obtain ⟨lexemes, hlexemes, rfl⟩ := exists_of_map_eq_ok h
  obtain ⟨read, hread, rfl⟩ := exists_of_map_eq_ok hlexemes
  obtain ⟨new, hnew, hspelling⟩ := scanFile_adds hread
  obtain rfl : new = read.reverse := by simp [hnew]
  refine ⟨fun hplain => ?_, fun t ht => ?_, fun i t ht => ⟨?_, Token.line_ofLexemes ht⟩⟩
  · have htext := hspelling.spells [] (by simpa using Token.plainHeredocs_ofLexemes hplain)
    rw [List.append_nil] at htext
    rw [Token.text_ofLexemes, ← String.toList_inj, ← htext, String.toList_join, List.flatMap_map]
    simp only [String.toList_ofList]
  · have hmem := List.mem_map_of_mem (f := Token.text) ht
    rw [Token.text_ofLexemes] at hmem
    obtain ⟨lexeme, hlexeme, htext⟩ := List.mem_map.mp hmem
    rw [← htext]
    intro hempty
    exact hspelling.ne_nil lexeme hlexeme (by simpa using hempty)
  · have := hnumbered i t ht
    omega

/-- A source with a heredoc in which every dollar sign is escaped. -/
def escapedHeredoc : String := "<html><?php $a = <<<X\n  \\$b \\\n  X;\n"

theorem escapedHeredoc_tokens : ∃ tokens, tokenize escapedHeredoc = .ok tokens
    ∧ tokens.any (·.kind == .heredocStart) ∧ PlainHeredocs (tokens.map Token.kind) :=
  exists_ok_of_decide (by decide +kernel)

theorem tokenize_escapedHeredoc : ∃ tokens, tokenize escapedHeredoc = .ok tokens
    ∧ tokens.any (·.kind == .heredocStart) ∧ PlainHeredocs (tokens.map Token.kind)
    ∧ String.join (tokens.map Token.text) = escapedHeredoc := by
  obtain ⟨tokens, htokens, hheredoc, hplain⟩ := escapedHeredoc_tokens
  exact ⟨tokens, htokens, hheredoc, hplain, (tokenize_lossless htokens).1 hplain⟩

end Unassigned
