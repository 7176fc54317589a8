import Unassigned.Proofs.FunctionHeader
import Unassigned.Proofs.Positions
import Unassigned.Proofs.Wording

/-!
# `Proofs.CallKeys` — calls and declarations meet on the same keys

The key of a declared function is its name, that of a method is `Class::name`; a call asks for its own name, or for
names with `::` if it is the call of a member. Names have no colon in them, so the two sorts of keys cannot be
confused: a call of a member never finds a function, neither one of the file nor one of the runtime, and a plain call
never finds a method. A call on the own class asks for `Class::name` first, and the declarations of the file come
before everything else, so it finds the last declaration of that method.

A method is a function whose keyword stands in the body of a class, an interface or a trait.
-/

namespace Unassigned

/-! ## The last declaration counts -/

namespace SourceFile

/-- The function is the last one in the file that is declared under the key. -/
def LastDeclares (f : SourceFile) (key : String) (d : FunctionDecl) : Prop :=
  ∃ before after, f.functions = before ++ d :: after ∧ f.signatureKey? d = some key
    ∧ ∀ e ∈ after, f.signatureKey? e ≠ some key

variable {f : SourceFile} {key : String}
variable {d : FunctionDecl}

theorem LastDeclares.mem (h : f.LastDeclares key d) : d ∈ f.functions := by
  obtain ⟨before, after, hfunctions, _⟩ := h
  rw [hfunctions]
  exact List.mem_append_right before List.mem_cons_self

theorem LastDeclares.key_eq (h : f.LastDeclares key d) : f.signatureKey? d = some key := by
  obtain ⟨_, _, _, hkey, _⟩ := h
  exact hkey

/-- What a declared function enters in the table of signatures. -/
def entry? (f : SourceFile) (d : FunctionDecl) : Option (String × Signature) :=
  (f.signatureKey? d).map fun key => (key, { name := key, refs := f.referencePositions d.paramsStart })

theorem entry?_eq_some {signature : Signature} : f.entry? d = some (key, signature)
    ↔ f.signatureKey? d = some key ∧ signature = { name := key, refs := f.referencePositions d.paramsStart } := by
  unfold entry?
  rw [Option.map_eq_some_iff]
  constructor
  · rintro ⟨_, hkey, heq⟩
    cases heq
    exact ⟨hkey, rfl⟩
  · rintro ⟨hkey, rfl⟩
    exact ⟨key, hkey, rfl⟩

/-- **The declared signature of a key** is that of its last declaration. -/
theorem lookup_signatures {signature : Signature} : f.signatures.lookup key = some signature
    ↔ ∃ d, f.LastDeclares key d ∧ signature = { name := key, refs := f.referencePositions d.paramsStart } := by
  have htable : f.signatures.lookup key = (f.functions.filterMap f.entry?).reverse.lookup key :=
    Ordered.lookup_ofList _ key
  rw [htable, List.lookup_eq_some_iff]
  constructor
  · rintro ⟨later, earlier, hentries, hlater⟩
    rw [List.reverse_eq_iff, List.reverse_append, List.reverse_cons, List.append_assoc, List.singleton_append,
      List.filterMap_eq_append_iff] at hentries
    obtain ⟨first, second, hfunctions, _, hsecond⟩ := hentries
    obtain ⟨between, d, after, rfl, _, hd, hafter⟩ := List.filterMap_eq_cons_iff.mp hsecond
    obtain ⟨hkey, hsignature⟩ := entry?_eq_some.mp hd
    refine ⟨d, ⟨first ++ between, after, by rw [hfunctions, List.append_assoc], hkey, fun e he hsame => ?_⟩, hsignature⟩
    -- a later declaration would have a later entry
    have hentry : (key, _) ∈ after.filterMap f.entry? := List.mem_filterMap.mpr ⟨e, he, entry?_eq_some.mpr ⟨hsame, rfl⟩⟩
    rw [hafter, List.mem_reverse] at hentry
    simpa using hlater _ hentry
  · rintro ⟨d, ⟨before, after, hfunctions, hkey, hafter⟩, hsignature⟩
    refine ⟨(after.filterMap f.entry?).reverse, (before.filterMap f.entry?).reverse, ?_, ?_⟩
    · rw [hfunctions, List.filterMap_append, List.filterMap_cons_some (entry?_eq_some.mpr ⟨hkey, hsignature⟩),
        List.reverse_append, List.reverse_cons, List.append_assoc]
      rfl
    · rintro ⟨other, _⟩ hentry
      obtain ⟨e, he, heq⟩ := List.mem_filterMap.mp (List.mem_reverse.mp hentry)
      have hother := hafter e he
      rw [(entry?_eq_some.mp heq).1] at hother
      exact bne_iff_ne.mpr fun hsame => hother (congrArg some hsame.symm)

end SourceFile

/-! ## Keys with and without a class -/

/-- The key names a class or any class: it holds a double colon. -/
def Qualified (key : String) : Prop :=
  [':', ':'] <:+: key.toList

theorem qualified_append (className name : String) : Qualified (className ++ "::" ++ name) := by
  refine ⟨className.toList, name.toList, ?_⟩
  simp [String.toList_append]

/-- What is written in the characters of identifiers has no double colon. -/
theorem not_qualified_of_word {name : String} (h : ∀ c ∈ name.toList, isNameChar c) : ¬ Qualified name := by
  intro hqualified
  have hcolon : ':' ∈ name.toList := hqualified.subset List.mem_cons_self
  cases h ':' hcolon

/-- The byte of a colon is found in what holds a colon; the bytes of a name are faster to look through than its
    characters. -/
theorem colon_mem_bytes {name : String} (h : ':' ∈ name.toList) : 58 ∈ name.toByteArray.data.toList := by
  have hbytes : name.toByteArray.data.toList = name.toList.flatMap String.utf8EncodeChar := by
    rw [← String.ofList_toList (s := name), String.toByteArray_ofList, List.utf8Encode, List.data_toByteArray,
      String.ofList_toList]
  rw [hbytes]
  exact List.mem_flatMap.mpr ⟨':', h, by decide⟩

/-- The functions of the runtime have no class. -/
theorem builtinSignature?_of_qualified {key : String} (h : Qualified key) : builtinSignature? key = none := by
  have htables : (builtinReferences.map Prod.fst ++ builtinsWithoutReferences).all fun name =>
      !name.toByteArray.data.toList.contains 58 := by decide +kernel
  have hcolon := colon_mem_bytes (h.subset List.mem_cons_self)
  have hmissing : key ∉ builtinReferences.map Prod.fst ++ builtinsWithoutReferences := by
    intro hmem
    have hnone := List.all_eq_true.mp htables key hmem
    rw [List.contains_iff_mem.mpr hcolon] at hnone
    cases hnone
  rw [List.mem_append, not_or] at hmissing
  have hnone : builtinReferences.lookup key = none := by
    rw [List.lookup_eq_none_iff]
    rintro ⟨other, refs⟩ hentry
    refine bne_iff_ne.mpr fun hsame => hmissing.1 ?_
    exact List.mem_map.mpr ⟨(other, refs), hentry, hsame.symm⟩
  unfold builtinSignature?
  simp only [hnone]
  rw [if_neg (by simpa using hmissing.2)]

theorem TokenStream.name_of_functionAtKeyword {f : TokenStream} {classes : List ClassDecl} {i : Nat} {d : FunctionDecl}
    (h : f.functionAtKeyword classes i = .ok d) : d.keywordIndex = i ∧ d.name = (f.functionName? i).map f.text
      ∧ d.className = ((f.functionName? i).bind fun _ =>
          innermost? (fun c : ClassDecl => (c.bodyStart, c.bodyEnd)) i classes).bind ClassDecl.name := by
  unfold functionAtKeyword at h
  split at h
  · cases h
  · split at h
    · split at h
      · cases h
      · obtain rfl := Except.ok.inj h
        exact ⟨rfl, rfl, rfl⟩
    · cases h

namespace SourceFile

variable {fileName source : String} {f : SourceFile} {key : String} {d : FunctionDecl}

/-- The function is declared in the body of a class. -/
def IsMethod (f : SourceFile) (d : FunctionDecl) : Prop :=
  (f.classAt? d.keywordIndex).isSome

/-- The name of a declared function is a name, and its class is the one around its keyword. -/
theorem name_of_mem (hf : ofSource fileName source = .ok f) (hd : d ∈ f.functions) {name : String}
    (hname : d.name = some name) :
    (∀ c ∈ name.toList, isNameChar c) ∧ d.className = f.classNameAt? d.keywordIndex := by
  obtain ⟨tokens, _, hfile⟩ := ofSource_eq_ok hf
  obtain ⟨_, _, hfunctions, _⟩ := ofTokens_eq_ok hfile
  obtain ⟨i, _, hdecl⟩ := exists_left_of_forall₂ (mapM_eq_ok.mp hfunctions) hd
  obtain ⟨rfl, hdname, hclass⟩ := TokenStream.name_of_functionAtKeyword hdecl
  rw [hdname] at hname
  obtain ⟨j, hj, rfl⟩ := Option.map_eq_some_iff.mp hname
  obtain ⟨_, hkind⟩ := Option.filter_eq_some_iff.mp hj
  refine ⟨fun c hc => isNameChar_of_name hf (by simpa using hkind) hc, ?_⟩
  rw [hclass, hj]
  rfl

/-- **The keys of declarations**: the name of a function, the name of a method with its class in front. -/
theorem signatureKey?_cases (hf : ofSource fileName source = .ok f) (hd : d ∈ f.functions)
    (hkey : f.signatureKey? d = some key) : ∃ name, d.name = some name ∧ (∀ c ∈ name.toList, isNameChar c)
      ∧ (f.classAt? d.keywordIndex = none ∧ key = name
        ∨ ∃ className, f.classNameAt? d.keywordIndex = some className ∧ key = className ++ "::" ++ name) := by
  unfold signatureKey? at hkey
  split at hkey
  · cases hkey
  · next name hname =>
      obtain ⟨hword, hclass⟩ := name_of_mem hf hd hname
      refine ⟨name, hname, hword, ?_⟩
      rw [hclass, classNameAt?] at hkey
      unfold classNameAt?
      split at hkey
      · cases hkey
      · cases hat : f.classAt? d.keywordIndex with
        | none =>
            rw [hat] at hkey
            exact .inl ⟨rfl, (Option.some.inj hkey).symm⟩
        | some c =>
            obtain ⟨className, keywordIndex, bodyStart, bodyEnd⟩ := c
            cases className with
            | none =>
                -- nothing is looked up in an anonymous class
                rw [hat] at hkey
                cases hkey
            | some className =>
                rw [hat] at hkey
                exact .inr ⟨className, rfl, (Option.some.inj hkey).symm⟩

/-- **A key tells a method from a function.** -/
theorem isMethod_iff_qualified (hf : ofSource fileName source = .ok f) (hd : d ∈ f.functions)
    (hkey : f.signatureKey? d = some key) : f.IsMethod d ↔ Qualified key := by
  obtain ⟨name, _, hword, ⟨hnone, rfl⟩ | ⟨className, hclass, rfl⟩⟩ := signatureKey?_cases hf hd hkey
  · refine iff_of_false ?_ (not_qualified_of_word hword)
    simp [IsMethod, hnone]
  · refine iff_of_true ?_ (qualified_append className name)
    obtain ⟨c, hc, _⟩ := Option.bind_eq_some_iff.mp hclass
    simp [IsMethod, hc]

/-! ## The names of a call -/

variable {types : List (String × String)} {i : Nat}

theorem qualified_of_mem_methodNames {className : Option String} {method : String}
    (h : key ∈ methodNames className method) : Qualified key := by
  have hany : Qualified ("?::" ++ method) := qualified_append "?" method
  cases className with
  | none =>
      obtain rfl := List.mem_singleton.mp h
      exact hany
  | some className =>
      rcases List.mem_cons.mp h with rfl | h
      · exact qualified_append className method
      · obtain rfl := List.mem_singleton.mp h
        exact hany

/-- A call of a member asks for keys with a class only. -/
theorem qualified_of_mem_callNames {operator : Nat} (hprev : f.prev? i = some operator)
    (hmember : (f.kind operator).isMemberAccess) (h : key ∈ f.callNames types i) : Qualified key := by
  unfold callNames at h
  rw [hprev] at h
  dsimp only at h
  split at h
  · exact qualified_of_mem_methodNames h
  · next harrow =>
      have hcolon : f.kind operator = .doubleColon := by
        unfold Kind.isMemberAccess at hmember
        split at hmember
        · next hkind => simp [hkind, Kind.isObjectOperator] at harrow
        · next hkind => simp [hkind, Kind.isObjectOperator] at harrow
        · assumption
        · cases hmember
      rw [if_pos hcolon] at h
      exact qualified_of_mem_methodNames h

/-- Any other call asks for its own name only. -/
theorem callNames_of_plain (h : ¬ (f.prev? i).any fun operator => (f.kind operator).isMemberAccess) :
    f.callNames types i = [f.text i] := by
  unfold callNames
  cases hprev : f.prev? i with
  | none => rfl
  | some operator =>
      have hplain : ¬ (f.kind operator).isMemberAccess := by simpa [hprev] using h
      have harrow : ¬ (f.kind operator).isObjectOperator := by
        intro harrow
        apply hplain
        unfold Kind.isObjectOperator at harrow
        split at harrow
        · next hkind => rw [hkind]; rfl
        · next hkind => rw [hkind]; rfl
        · cases harrow
      have hcolon : f.kind operator ≠ .doubleColon := by
        intro hcolon
        apply hplain
        rw [hcolon]
        rfl
      dsimp only
      rw [if_neg harrow, if_neg hcolon]

/-- **A call on the own class**: `$this->m`, `$this?->m` with a variable that is no member itself, `self::m` or
    `static::m`. -/
inductive CallsOwnClass (f : SourceFile) (i : Nat) : Prop where
  | object {operator receiver : Nat} (operator_eq : f.prev? i = some operator)
      (isArrow : (f.kind operator).isObjectOperator) (receiver_eq : f.prev? operator = some receiver)
      (isVar : f.kind receiver = .var) (isThis : f.text receiver = "$this")
      (notMember : ¬ (f.prev? receiver).any fun before => (f.kind before).isMemberAccess)
  | qualified {operator qualifier : Nat} (operator_eq : f.prev? i = some operator)
      (isColon : f.kind operator = .doubleColon) (qualifier_eq : f.prev? operator = some qualifier)
      (isWord : f.kind qualifier = .name ∨ f.kind qualifier = .keyword .staticWord)
      (isOwn : Text.lower (f.text qualifier) = "self" ∨ Text.lower (f.text qualifier) = "static")

/-- A call on the own class asks for the method of the class first. -/
theorem CallsOwnClass.callNames_eq (h : f.CallsOwnClass i) {className : String}
    (hclass : f.classNameAt? i = some className) (types : List (String × String)) :
    f.callNames types i = [className ++ "::" ++ f.text i, "?::" ++ f.text i] := by
  unfold callNames
  cases h with
  | @object operator receiver hoperator harrow hreceiver hvar hthis hmember =>
      have htold : f.receiverClass? types i operator = some className := by
        unfold receiverClass?
        rw [hreceiver]
        simp only [Option.bind_eq_bind, Option.bind_some]
        rw [if_neg (by simp [hvar]), if_neg hmember, if_pos hthis, hclass]
      rw [hoperator]
      dsimp only
      rw [if_pos harrow, htold]
      rfl
  | @qualified operator qualifier hoperator hcolon hqualifier hword hown =>
      have htold : f.qualifierClass? i operator = some className := by
        unfold qualifierClass?
        rw [hqualifier]
        simp only [Option.bind_eq_bind, Option.bind_some]
        rw [if_pos hword, if_pos hown, hclass]
      rw [hoperator]
      dsimp only
      rw [if_neg (by simp [hcolon, Kind.isObjectOperator]), if_pos hcolon, htold]
      rfl

end SourceFile

/-! ## What a call finds -/

namespace SignatureTable

/-- What is declared comes before everything else. -/
theorem lookup?_of_declared {table : SignatureTable} {key : String} {signature : Signature}
    (h : table.declared.lookup key = some signature) (others : List String) :
    table.lookup? (key :: others) = some signature := by
  have hfind : table.find? key = some signature := by
    rw [find?, h]
    rfl
  rw [lookup?, List.findSome?_cons, hfind]

end SignatureTable

namespace SourceFile

/-- **Calls and declarations meet on the same keys.** For every file that can be parsed, all annotations and every
    table of configured signatures: a call of a member asks for keys with a class, and what it finds is configured or
    is declared by a method of the file. Any other call asks for its own name, and what it finds is configured, is
    declared by a function of the file that is no method, or belongs to the runtime. A call on the own class finds
    the last declaration of the method in the file, if there is one. -/
theorem callNames_meet_signatures {fileName source : String} {f : SourceFile} (hf : ofSource fileName source = .ok f)
    (types : List (String × String)) (configured : List (String × Signature)) {i : Nat} (hi : f.kind i = .name) :
    let table : SignatureTable := { declared := f.signatures, configured }
    -- a call of a member
    ((f.prev? i).any (fun operator => (f.kind operator).isMemberAccess) →
      (∀ key ∈ f.callNames types i, Qualified key ∧ builtinSignature? key = none
        ∧ ∀ d ∈ f.functions, f.signatureKey? d = some key → f.IsMethod d)
      ∧ ∀ signature, table.lookup? (f.callNames types i) = some signature → ∃ key ∈ f.callNames types i,
          configured.lookup key = some signature ∨ ∃ d ∈ f.functions, f.IsMethod d ∧ f.signatureKey? d = some key
            ∧ signature = { name := key, refs := f.referencePositions d.paramsStart })
    -- any other call
    ∧ (¬ (f.prev? i).any (fun operator => (f.kind operator).isMemberAccess) →
      f.callNames types i = [f.text i] ∧ ¬ Qualified (f.text i)
      ∧ (∀ d ∈ f.functions, f.signatureKey? d = some (f.text i) → ¬ f.IsMethod d)
      ∧ ∀ signature, table.lookup? (f.callNames types i) = some signature →
          configured.lookup (f.text i) = some signature ∨ builtinSignature? (f.text i) = some signature
          ∨ ∃ d ∈ f.functions, ¬ f.IsMethod d ∧ f.signatureKey? d = some (f.text i)
            ∧ signature = { name := f.text i, refs := f.referencePositions d.paramsStart })
    -- a call on the own class
    ∧ ∀ className, f.CallsOwnClass i → f.classNameAt? i = some className →
      let key := className ++ "::" ++ f.text i
      (f.signatures.lookup key).isSome → ∃ d, f.LastDeclares key d
        ∧ table.lookup? (f.callNames types i)
          = some { name := key, refs := f.referencePositions d.paramsStart } := by
  intro table
  refine ⟨fun hmember => ?_, fun hplain => ?_, ?_⟩
  · obtain ⟨operator, hprev, hoperator⟩ := (Option.any_eq_true _ _).mp hmember
    have hqualified : ∀ key ∈ f.callNames types i, Qualified key :=
      fun key hkey => qualified_of_mem_callNames hprev hoperator hkey
    refine ⟨fun key hkey => ⟨hqualified key hkey, builtinSignature?_of_qualified (hqualified key hkey), ?_⟩, ?_⟩
    · intro d hd hdkey
      exact (isMethod_iff_qualified hf hd hdkey).mpr (hqualified key hkey)
    · intro signature hlookup
      obtain ⟨key, hkey, hfind⟩ := List.exists_of_findSome?_eq_some hlookup
      refine ⟨key, hkey, ?_⟩
      rcases SignatureTable.find?_cases hfind with hdeclared | hconfigured | hbuiltin
      · obtain ⟨d, hlast, hsignature⟩ := lookup_signatures.mp hdeclared
        refine .inr ⟨d, hlast.mem, ?_, hlast.key_eq, hsignature⟩
        exact (isMethod_iff_qualified hf hlast.mem hlast.key_eq).mpr (hqualified key hkey)
      · exact .inl hconfigured
      · cases (builtinSignature?_of_qualified (hqualified key hkey)).symm.trans hbuiltin
  · have hnames : f.callNames types i = [f.text i] := callNames_of_plain hplain
    have hword : ¬ Qualified (f.text i) := not_qualified_of_word fun c hc => isNameChar_of_name hf hi hc
    refine ⟨hnames, hword, fun d hd hdkey => (isMethod_iff_qualified hf hd hdkey).not.mpr hword, ?_⟩
    intro signature hlookup
    rw [hnames] at hlookup
    obtain ⟨key, hkey, hfind⟩ := List.exists_of_findSome?_eq_some hlookup
    obtain rfl := List.mem_singleton.mp hkey
    rcases SignatureTable.find?_cases hfind with hdeclared | hconfigured | hbuiltin
    · obtain ⟨d, hlast, hsignature⟩ := lookup_signatures.mp hdeclared
      refine .inr (.inr ⟨d, hlast.mem, ?_, hlast.key_eq, hsignature⟩)
      exact (isMethod_iff_qualified hf hlast.mem hlast.key_eq).not.mpr hword
    · exact .inl hconfigured
    · exact .inr (.inl hbuiltin)
  · intro className hown hclass key hkey
    obtain ⟨signature, hsignature⟩ := Option.isSome_iff_exists.mp hkey
    obtain ⟨d, hlast, rfl⟩ := lookup_signatures.mp hsignature
    refine ⟨d, hlast, ?_⟩
    rw [hown.callNames_eq hclass]
    exact SignatureTable.lookup?_of_declared hsignature _

/-- A method that is declared twice, and a call of it on the own class. -/
def declaredTwice : String :=
  "<?php class C \x7b function m($a) \x7b\x7d function m(&$a) \x7b\x7d function g($x) \x7b $this?->m($x); \x7d \x7d"

theorem declaredTwice_run : ∃ f, ofSource "f.php" declaredTwice = .ok f
    ∧ f.kind 39 = .name ∧ f.text 39 = "m" ∧ f.prev? 39 = some 38 ∧ f.kind 38 = .nullsafeArrow
    ∧ f.prev? 38 = some 37 ∧ f.kind 37 = .var ∧ f.text 37 = "$this"
    ∧ ¬ ((f.prev? 37).any fun before => (f.kind before).isMemberAccess)
    ∧ f.classNameAt? 39 = some "C" ∧ (f.signatures.lookup "C::m").isSome :=
  exists_ok_of_decide (by decide +kernel)

/-- The call finds the last declaration, although the configuration has a signature of this name too. -/
theorem declaredTwice_found : ∃ f, ofSource "f.php" declaredTwice = .ok f ∧ f.kind 39 = .name ∧ f.CallsOwnClass 39
    ∧ f.classNameAt? 39 = some "C" ∧ ∃ d, f.LastDeclares "C::m" d
      ∧ ({ declared := f.signatures, configured := [("C::m", ⟨"C::m", [4], false⟩)] } : SignatureTable).lookup?
          (f.callNames [] 39)
        = some { name := "C::m", refs := f.referencePositions d.paramsStart } := by
  obtain ⟨f, hf, hname, htext, hoperator, harrow, hreceiver, hvar, hthis, hmember, hclass, hkey⟩ := declaredTwice_run
  have hown : f.CallsOwnClass 39 := .object hoperator (by rw [harrow]; rfl) hreceiver hvar hthis hmember
  obtain ⟨_, _, hfound⟩ := callNames_meet_signatures hf [] [("C::m", ⟨"C::m", [4], false⟩)] hname
  have hlookup := hfound "C" hown hclass
  rw [htext] at hlookup
  exact ⟨f, hf, hname, hown, hclass, hlookup hkey⟩

end SourceFile

end Unassigned
