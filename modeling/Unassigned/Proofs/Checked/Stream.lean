import Unassigned.Proofs.Checked.Lexer
import Unassigned.Proofs.Scanning
import Unassigned.Proofs.StepEnd
import Unassigned.Proofs.Trigger

/-!
# `Proofs.Checked.Stream` — moving through a file with look-ups that can fail

The moves through a file are total: the end of a group that is none is its start, a token beyond the end of
the file is an empty one. Here they are made again with look-ups that fail (`Fault`). Where a construct
relies on a bracket, on a token or on an entry of a table, the look-up is made without asking first.

In a file whose brackets are well nested no look-up fails, and the checked moves lead to the same places
(`parameterFrom_eq`, `functionAtKeyword_eq`, `signatures_eq`): before each of them stands a test that
finds an opening bracket.
-/

namespace Unassigned

namespace TokenStream

/-- The token at a place opens a group. -/
def opens (f : TokenStream) (i : Nat) : Bool :=
  (f.kind i).closer?.isSome

variable {f : TokenStream}
variable {i : Nat}

theorem opens_of_isChar {c : Char} (h : f.isChar i c) (hc : (Kind.char c).closer?.isSome) : f.opens i := by
  rw [opens, isChar_iff.mp h]
  exact hc

theorem opens_of_isCharOf {cs : List Char} (h : f.isCharOf i cs) (hcs : cs.all fun c => (Kind.char c).closer?.isSome) :
    f.opens i := by
  obtain ⟨c, hc, hkind⟩ := isCharOf_iff.mp h
  rw [opens, hkind]
  exact List.all_eq_true.mp hcs c hc

theorem WellNested.exists_closer (hf : f.WellNested) (h : f.opens i) : ∃ k, f.closer? i = some k :=
  hf.closes h

/-- A group ends in the file, after its start. -/
theorem WellNested.skipGroup_bounds (hf : f.WellNested) (h : f.opens i) :
    i < f.skipGroup i ∧ f.skipGroup i < f.size := by
  obtain ⟨k, hk⟩ := hf.exists_closer h
  rw [skipGroup_of_closer hk]
  exact ⟨(closer?_eq_some.mp hk).2, hf.closer_lt hk⟩

end TokenStream

namespace Checked

variable (f : TokenStream)
variable {i : Nat} {source : String} {file : SourceFile}

/-! ## Look-ups -/

/-- The token at a place. -/
def token (i : Nat) : Except Fault Token :=
  match f.tokens[i]? with
  | some t => .ok t
  | none => .error (.noToken i)

/-- The closing bracket of the group that opens at a place. -/
def close (i : Nat) : Except Fault Nat :=
  match f.closer? i with
  | some k => .ok k
  | none => .error (.notBracket (f.token i))

/-- The closing bracket of an opening one is found. -/
theorem close_eq {f : TokenStream} (hf : f.WellNested) (h : f.opens i) : close f i = .ok (f.skipGroup i) := by
  obtain ⟨k, hk⟩ := hf.exists_closer h
  rw [close, hk, TokenStream.skipGroup_of_closer hk]

theorem le_of_close {f : TokenStream} {k : Nat} (h : close f i = .ok k) : i ≤ k := by
  unfold close at h
  split at h
  · next k' hk =>
      obtain rfl : k' = k := Except.ok.inj h
      exact Nat.le_of_lt (TokenStream.closer?_eq_some.mp hk).2
  · cases h

/-- The end of the group that has to open at a place, or the place itself if none has to. -/
def closeIf (isGroup : Bool) (i : Nat) : Except Fault { k : Nat // i ≤ k } :=
  if isGroup then
    match h : close f i with
    | .ok k => .ok ⟨k, le_of_close h⟩
    | .error fault => .error fault
  else .ok ⟨i, Nat.le_refl i⟩

theorem le_skipGroup_if {f : TokenStream} (isGroup : Bool) (i : Nat) :
    i ≤ if isGroup then f.skipGroup i else i := by
  split
  · exact f.le_skipGroup i
  · exact Nat.le_refl i

theorem closeIf_eq {f : TokenStream} (hf : f.WellNested) {isGroup : Bool} (h : isGroup → f.opens i) :
    closeIf f isGroup i = .ok ⟨if isGroup then f.skipGroup i else i, le_skipGroup_if isGroup i⟩ := by
  cases isGroup with
  | false => rfl
  | true =>
      have hclose := close_eq hf (h rfl)
      rw [closeIf, if_pos rfl]
      split
      · next k hk =>
          obtain rfl : k = f.skipGroup i := Except.ok.inj (hk.symm.trans hclose)
          rfl
      · next fault hfault => cases hfault.symm.trans hclose

theorem token_eq {f : TokenStream} (hi : i < f.size) : token f i = .ok (f.token i) := by
  have hsome : f.tokens[i]? = some f.tokens[i] := Array.getElem?_eq_getElem hi
  simp [token, hsome, TokenStream.token]

/-! ## Moves -/

/-- As `TokenStream.search?`; every token that satisfies `jumps` has to open a group. -/
def search (jumps found : Nat → Bool) (i : Nat) : Except Fault (Option Nat) :=
  match _h : f.next? i with
  | none => .ok none
  | some j =>
    if found j then .ok (some j)
    else do
      let ⟨k, _hk⟩ ← closeIf f (jumps j) j
      search jumps found k
termination_by f.size - i
decreasing_by
  have hnext := f.next?_bounds _h
  omega

/-- As `TokenStream.arguments`; the opening parenthesis is not the last token. -/
def arguments (paren : Nat) : Except Fault (List Nat) := do
  let _ ← token f (paren + 1)
  return f.arguments paren

/-- As `TokenStream.parameterFrom`. -/
def parameterFrom (isRef isVariadic : Bool) (i : Nat) : Except Fault Parameter :=
  let isGroup := f.kind i == .attributeOpen || f.isChar i '('
  let isAmpersand := f.isChar i '&'
  let isEllipsis := f.kind i == .ellipsis
  if isGroup || TokenStream.isParameterPart (f.kind i) || f.isCharOf i ['?', '|'] || isAmpersand
      || isEllipsis then do
    let ⟨k, _hk⟩ ← closeIf f isGroup i
    match _h : f.next? k with
    | none => return ⟨none, isRef, isVariadic || isEllipsis⟩
    | some j =>
      let marksRef := isAmpersand && (f.kind j == .var || f.kind j == .ellipsis)
      parameterFrom (isRef || marksRef) (isVariadic || isEllipsis) j
  else return ⟨if f.kind i == .var then some i else none, isRef, isVariadic⟩
termination_by f.size - i
decreasing_by
  have hnext := f.next?_bounds _h
  omega

/-- As `TokenStream.afterReturnType?`. -/
def afterReturnType (i : Nat) : Except Fault (Option Nat) :=
  search f (fun j => f.isChar j '(') (fun j => f.isCharOf j ['\x7b', ';']) i

/-- The brace or semicolon after a header, over the return type that starts at a place. -/
def bodyOrSemicolon (n : Nat) : Except Fault (Option Nat) := do
  let stop ← if f.isChar n ':' then afterReturnType f n else pure (some n)
  return stop.filter fun n => f.isCharOf n ['\x7b', ';']

/-- As `TokenStream.headerEnd?`. -/
def headerEnd (paramsStart : Nat) : Except Fault (Option Nat) := do
  let k ← close f paramsStart
  match f.next? k with
  | none => return none
  | some n =>
    if f.kind n == .keyword .useWord then
      match f.next? n with
      | none => return none
      | some paren =>
        if f.isChar paren '(' then do
          let k ← close f paren
          match f.next? k with
          | none => return none
          | some n => bodyOrSemicolon f n
        else return none
    else bodyOrSemicolon f n

/-- As `TokenStream.classAtKeyword`; the body ends in the file. -/
def classAtKeyword (i : Nat) : Except Fault (Except ParseError ClassDecl) := do
  let name := (f.next? i).bind fun j => if f.kind j == .name then some (f.text j) else none
  match ← search f (fun j => f.isChar j '(') (fun j => f.isCharOf j ['\x7b', ';']) i with
  | none => return .error (.classWithoutBody (f.token i))
  | some body =>
    if f.isChar body ';' then return .error (.classWithoutBody (f.token i))
    else
      let k ← close f body
      let _ ← token f k
      return .ok ⟨name, i, body, k⟩

/-- As `TokenStream.functionAtKeyword`; the function ends in the file. -/
def functionAtKeyword (classes : List ClassDecl) (i : Nat) : Except Fault (Except ParseError FunctionDecl) :=
  match f.functionParen? i with
  | none => return .error (.parametersExpected (f.token i))
  | some paren =>
    if f.isChar paren '(' then do
      match ← headerEnd f paren with
      | none => return .error (.bodyExpected (f.token i))
      | some body =>
        let nameIndex := f.functionName? i
        let owner := nameIndex.bind fun _ =>
          innermost? (fun c : ClassDecl => (c.bodyStart, c.bodyEnd)) i classes
        let hasBody := f.isChar body '\x7b'
        let ⟨k, _⟩ ← closeIf f hasBody body
        let _ ← token f k
        return .ok {
          name := nameIndex.map f.text
          className := owner.bind ClassDecl.name
          keywordIndex := i
          nameIndex := nameIndex
          paramsStart := paren
          bodyStart := if hasBody then some body else none
          endIndex := k }
    else return .error (.parametersExpected (f.token paren))

/-- As `TokenStream.classes`. -/
def classes : Except Fault (Except ParseError (List ClassDecl)) := do
  let found ← ((List.range f.size).filter fun i =>
    TokenStream.isClassKeyword (f.kind i) && !f.prevIs i .doubleColon).mapM (classAtKeyword f)
  return found.mapM id

/-- As `TokenStream.functions`. -/
def functions (classes : List ClassDecl) : Except Fault (Except ParseError (List FunctionDecl)) := do
  let found ← ((List.range f.size).filter f.declaresFunction).mapM (functionAtKeyword f classes)
  return found.mapM id

/-- As `SourceFile.ofSource`. -/
def ofSource (name source : String) : Except Fault (Except ParseError SourceFile) := do
  match (← (tokenize source).run) >>= TokenStream.ofTokens with
  | .error e => return .error e
  | .ok stream =>
    match ← classes stream with
    | .error e => return .error e
    | .ok classes =>
      match ← functions stream classes with
      | .error e => return .error e
      | .ok functions => return .ok { stream with name, classes, functions }

/-- As `SourceFile.referencePositions`. -/
def referencePositions (paren : Nat) : Except Fault (List Int) := do
  let parameters ← (← arguments f paren).mapM (parameterFrom f false false)
  return positionSet <| parameters.zipIdx.flatMap fun (parameter, position) =>
    if parameter.isRef then refPositions position parameter.isVariadic else []

/-- As `SourceFile.signatures`. -/
def signatures (file : SourceFile) : Except Fault (List (String × Signature)) := do
  let named := file.functions.filterMap fun function =>
    (file.signatureKey? function).map fun key => (key, function.paramsStart)
  let entries ← named.mapM fun (key, paren) => do
    let refs ← referencePositions file.toTokenStream paren
    return (key, { name := key, refs : Signature })
  return Ordered.ofList entries

/-! ## The checked moves are the moves -/

/-- What ends a search for a body opens one, if it is no semicolon. -/
theorem opens_of_body {f : TokenStream} {body : Nat} (hbody : f.isCharOf body ['\x7b', ';'])
    (hsemicolon : ¬ f.isChar body ';') : f.opens body := by
  obtain ⟨c, hc, hkind⟩ := TokenStream.isCharOf_iff.mp hbody
  obtain rfl | rfl : c = '\x7b' ∨ c = ';' := by simpa using hc
  · exact TokenStream.opens_of_isChar (TokenStream.isChar_iff.mpr hkind) rfl
  · exact absurd (TokenStream.isChar_iff.mpr hkind) hsemicolon

theorem lt_size_of_isCharOf {f : TokenStream} {cs : List Char} (h : f.isCharOf i cs) : i < f.size := by
  obtain ⟨c, _, hkind⟩ := TokenStream.isCharOf_iff.mp h
  exact TokenStream.lt_size_of_kind (by simp [hkind])

/-- The end of a header is a token of the file. -/
theorem headerEnd?_lt {f : TokenStream} {paren body : Nat} (h : f.headerEnd? paren = some body) : body < f.size :=
  lt_size_of_isCharOf (TokenStream.headerEnd?_eq_some h).1

section Equal

variable {f} (hf : f.WellNested)
include hf

theorem search_eq {jumps found : Nat → Bool} (hjumps : ∀ j, jumps j → f.opens j) (i : Nat) :
    search f jumps found i = .ok (f.search? jumps found i) := by
  fun_induction TokenStream.search? f jumps found i with
  | case1 i hnext =>
      rw [search]
      split <;> simp_all
  | case2 i j hnext hfound =>
      rw [search]
      split <;> simp_all
  | case3 i j hnext hfound ih =>
      rw [search]
      split
      · simp_all
      · next j' hnext' =>
          obtain rfl : j' = j := Option.some.inj (hnext'.symm.trans hnext)
          rw [if_neg hfound, closeIf_eq hf (hjumps j')]
          exact ih

theorem arguments_eq {paren : Nat} (h : f.opens paren) : arguments f paren = .ok (f.arguments paren) := by
  have hbounds := hf.skipGroup_bounds h
  rw [arguments, token_eq (by omega)]
  rfl

theorem parameterFrom_eq (isRef isVariadic : Bool) (i : Nat) :
    parameterFrom f isRef isVariadic i = .ok (f.parameterFrom isRef isVariadic i) := by
  have hgroup : ∀ i, (f.kind i == .attributeOpen || f.isChar i '(') → f.opens i := by
    intro i h
    rcases Bool.or_eq_true_iff.mp h with hattribute | hparen
    · rw [TokenStream.opens, eq_of_beq hattribute]
      rfl
    · exact TokenStream.opens_of_isChar hparen rfl
  fun_induction TokenStream.parameterFrom f isRef isVariadic i with
  | case1 isRef isVariadic i isGroup isAmpersand isEllipsis hpart hnext =>
      rw [parameterFrom]
      dsimp only
      rw [if_pos hpart, closeIf_eq hf (hgroup i)]
      rw [ok_bind]
      dsimp only
      split
      · rfl
      · next j hj => cases hnext.symm.trans hj
  | case2 isRef isVariadic i isGroup isAmpersand isEllipsis hpart j hnext marksRef ih =>
      rw [parameterFrom]
      dsimp only
      rw [if_pos hpart, closeIf_eq hf (hgroup i)]
      rw [ok_bind]
      dsimp only
      split
      · next hnone => cases hnext.symm.trans hnone
      · next j' hnext' =>
          obtain rfl : j' = j := Option.some.inj (hnext'.symm.trans hnext)
          exact ih
  | case3 isRef isVariadic i isGroup isAmpersand isEllipsis hpart =>
      rw [parameterFrom]
      dsimp only
      rw [if_neg hpart]
      rfl

theorem afterReturnType_eq (i : Nat) : afterReturnType f i = .ok (f.afterReturnType? i) :=
  search_eq hf (fun _ hj => TokenStream.opens_of_isChar hj rfl) i

theorem bodyOrSemicolon_eq (n : Nat) : bodyOrSemicolon f n = .ok
    ((if f.isChar n ':' then f.afterReturnType? n else some n).filter fun n => f.isCharOf n ['\x7b', ';']) := by
  rw [bodyOrSemicolon]
  split
  · rw [afterReturnType_eq hf]
    rfl
  · rfl

theorem headerEnd_eq {paren : Nat} (h : f.opens paren) : headerEnd f paren = .ok (f.headerEnd? paren) := by
  have hstop : ∀ n, bodyOrSemicolon f n = .ok (do
      let n ← if f.isChar n ':' then f.afterReturnType? n else some n
      if f.isCharOf n ['\x7b', ';'] then some n else none) := by
    intro n
    rw [bodyOrSemicolon_eq hf]
    split
    · cases f.afterReturnType? n <;> rfl
    · rfl
  rw [headerEnd, close_eq hf h, ok_bind, TokenStream.headerEnd?]
  cases f.next? (f.skipGroup paren) with
  | none => rfl
  | some n =>
      refine ite_eq (fun _ => ?_) fun _ => hstop n
      cases f.next? n with
      | none => rfl
      | some paren =>
          refine ite_eq (fun hparen => ?_) fun _ => rfl
          rw [close_eq hf (TokenStream.opens_of_isChar hparen rfl), ok_bind]
          cases f.next? (f.skipGroup paren) with
          | none => rfl
          | some n => exact hstop n

theorem classAtKeyword_eq (i : Nat) : classAtKeyword f i = .ok (f.classAtKeyword i) := by
  have hsearch : search f (fun j => f.isChar j '(') (fun j => f.isCharOf j ['\x7b', ';']) i
      = .ok (f.search? (fun j => f.isChar j '(') (fun j => f.isCharOf j ['\x7b', ';']) i) :=
    search_eq hf (fun j hj => TokenStream.opens_of_isChar hj rfl) i
  rw [classAtKeyword, hsearch, ok_bind, TokenStream.classAtKeyword]
  cases hbody : f.search? (fun j => f.isChar j '(') (fun j => f.isCharOf j ['\x7b', ';']) i with
  | none => rfl
  | some body =>
      refine ite_eq (fun _ => rfl) fun hsemicolon => ?_
      have hopens : f.opens body := opens_of_body (TokenStream.search?_found hbody).1 hsemicolon
      have hbounds := hf.skipGroup_bounds hopens
      rw [close_eq hf hopens, ok_bind, token_eq hbounds.2]
      rfl

theorem functionAtKeyword_eq (classes : List ClassDecl) (i : Nat) :
    functionAtKeyword f classes i = .ok (f.functionAtKeyword classes i) := by
  rw [functionAtKeyword, TokenStream.functionAtKeyword]
  cases f.functionParen? i with
  | none => rfl
  | some paren =>
      refine ite_eq (fun hparen => ?_) fun _ => rfl
      rw [headerEnd_eq hf (TokenStream.opens_of_isChar hparen rfl), ok_bind]
      cases hbody : f.headerEnd? paren with
      | none => rfl
      | some body =>
          have hopens : f.isChar body '\x7b' → f.opens body := fun h => TokenStream.opens_of_isChar h rfl
          -- a body ends with its brace, a declaration without body with the semicolon
          have hend : (if f.isChar body '\x7b' then f.skipGroup body else body) < f.size := by
            split
            · next hbrace => exact (hf.skipGroup_bounds (hopens hbrace)).2
            · exact headerEnd?_lt hbody
          dsimp only
          rw [closeIf_eq hf hopens, ok_bind]
          dsimp only
          rw [token_eq hend]
          rfl

theorem classes_eq : classes f = .ok f.classes := by
  rw [classes, mapM_eq fun i _ => classAtKeyword_eq hf i, ok_bind, List.mapM_map]
  rfl

theorem functions_eq (classes : List ClassDecl) : functions f classes = .ok (f.functions classes) := by
  rw [functions, mapM_eq fun i _ => functionAtKeyword_eq hf classes i, ok_bind, List.mapM_map]
  rfl

end Equal

/-- A text that can be cut into tokens with paired brackets is well nested. -/
theorem wellNested_of_stream {f : TokenStream} (h : (Unassigned.tokenize source >>= TokenStream.ofTokens) = .ok f) :
    f.WellNested := by
  obtain ⟨tokens, htokens, hf⟩ := exists_of_bind_eq_ok h
  exact TokenStream.wellNested_of_ofTokens (tokenize_numbered htokens) hf

/-- **No look-up fails in the construction of a file.** -/
theorem ofSource_eq (name source : String) : ofSource name source = .ok (SourceFile.ofSource name source) := by
  have hparse : SourceFile.ofSource name source
      = (Unassigned.tokenize source >>= TokenStream.ofTokens) >>= fun stream => do
      let classes ← stream.classes
      let functions ← stream.functions classes
      return { stream with name, classes, functions } := by
    rw [SourceFile.ofSource, bind_assoc]
    rfl
  have htokens : (tokenize source).run = .ok (Unassigned.tokenize source) := tokenize_meets source
  rw [ofSource, hparse, htokens, ok_bind]
  cases hstream : Unassigned.tokenize source >>= TokenStream.ofTokens with
  | error e => rfl
  | ok stream =>
      have hnested := wellNested_of_stream hstream
      dsimp only
      rw [classes_eq hnested, ok_bind]
      show _ = Except.ok (stream.classes >>= _)
      cases stream.classes with
      | error e => rfl
      | ok classes =>
          dsimp only
          rw [functions_eq hnested, ok_bind]
          show _ = Except.ok (stream.functions classes >>= _)
          cases stream.functions classes <;> rfl

/-- The parameters of a function open at a parenthesis. -/
theorem opens_paramsStart {name : String} (h : SourceFile.ofSource name source = .ok file) {d : FunctionDecl}
    (hd : d ∈ file.functions) : file.opens d.paramsStart := by
  obtain ⟨tokens, _, hfile⟩ := SourceFile.ofSource_eq_ok h
  obtain ⟨_, _, hfunctions, _⟩ := SourceFile.ofTokens_eq_ok hfile
  obtain ⟨i, _, hi⟩ := exists_left_of_forall₂ (mapM_eq_ok.mp hfunctions) hd
  unfold TokenStream.functionAtKeyword at hi
  split at hi
  · cases hi
  · next paren hparen =>
      split at hi
      · next hchar =>
          split at hi
          · cases hi
          · obtain rfl := Except.ok.inj hi
            exact TokenStream.opens_of_isChar hchar rfl
      · cases hi

theorem referencePositions_eq (hfile : file.WellNested) {paren : Nat} (h : file.opens paren) :
    referencePositions file.toTokenStream paren = .ok (file.referencePositions paren) := by
  rw [referencePositions, arguments_eq hfile h, ok_bind, mapM_eq fun i _ => parameterFrom_eq hfile false false i,
    ok_bind, List.zipIdx_map, List.flatMap_map]
  rfl

/-- **No look-up fails when the signatures of a file are collected.** -/
theorem signatures_eq {name : String} (h : SourceFile.ofSource name source = .ok file) :
    signatures file = .ok file.signatures := by
  have hfile := SourceFile.wellNested_of_ofSource h
  let named := file.functions.filterMap fun function =>
    (file.signatureKey? function).map fun key => (key, function.paramsStart)
  have hentry : ∀ entry ∈ named, (do
      let refs ← referencePositions file.toTokenStream entry.2
      return (entry.1, { name := entry.1, refs : Signature }))
        = .ok (entry.1, { name := entry.1, refs := file.referencePositions entry.2 : Signature }) := by
    intro entry hentry
    obtain ⟨d, hd, hkey⟩ := List.mem_filterMap.mp hentry
    obtain ⟨key, _, rfl⟩ := Option.map_eq_some_iff.mp hkey
    rw [referencePositions_eq hfile (opens_paramsStart h hd)]
    rfl
  have hsame : named.map (fun entry =>
        (entry.1, { name := entry.1, refs := file.referencePositions entry.2 : Signature }))
      = file.functions.filterMap fun function => (file.signatureKey? function).map fun key =>
        (key, { name := key, refs := file.referencePositions function.paramsStart }) := by
    rw [List.map_filterMap]
    simp only [Option.map_map]
    rfl
  rw [signatures, mapM_eq hentry, ok_bind, hsame]
  rfl

end Checked

end Unassigned
