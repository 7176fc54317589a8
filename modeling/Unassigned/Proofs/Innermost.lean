import Mathlib.Data.List.Induction
import Unassigned.Proofs.FunctionHeader

/-!
# `Proofs.Innermost` — the innermost class and function around a place

`innermost?` goes once through a list of spans and keeps, of those that hold a place, the last one with the latest
start. For the declarations of a file this is what the name says. The bodies of classes are groups of brackets, so of
two bodies around a place one lies in the other, and the later start belongs to the smaller body; two classes can have
the same body, and then the later keyword counts. The span of a function starts at its keyword, so the latest start is
the latest keyword, whether or not the spans are nested.

* `innermost?_eq_none_iff`, `innermost?_eq_some_iff` — what is kept of a list of spans
* `getElem?_ownerTable` — painting the spans over each other in the order of their starts leaves the same
* `SourceFile.bodies_nested` — of two class bodies around a place, the one that starts later is the smaller one
* `SourceFile.innermost_declarations` — the innermost class and function of a place, and the places directly in the body
  of a class
-/

namespace Unassigned

/-! ## The last span with the latest start -/

/-- A span holds a place. -/
def SpanHolds (span : Nat × Nat) (i : Nat) : Prop :=
  span.1 ≤ i ∧ i ≤ span.2

instance (span : Nat × Nat) (i : Nat) : Decidable (SpanHolds span i) :=
  inferInstanceAs (Decidable (_ ∧ _))

section

variable {α : Type} {span : α → Nat × Nat} {i : Nat} {items : List α} {x : α}

/-- One more item takes the place of the one that was kept, unless it starts before that. -/
theorem innermost?_concat : innermost? span i (items ++ [x])
    = if SpanHolds (span x) i ∧ ∀ y ∈ innermost? span i items, (span y).1 ≤ (span x).1 then some x
      else innermost? span i items := by
  unfold innermost?
  rw [List.foldl_append, List.foldl_cons, List.foldl_nil]
  generalize items.foldl _ none = best
  refine if_congr ?_ rfl rfl
  cases best <;> simp [SpanHolds, and_assoc]

theorem innermost?_eq_none_iff : innermost? span i items = none ↔ ∀ x ∈ items, ¬ SpanHolds (span x) i := by
  induction items using List.reverseRecOn with
  | nil => exact iff_of_true rfl (by simp)
  | append_singleton items x ih =>
      rw [innermost?_concat]
      constructor
      · intro h y hy
        split at h
        · cases h
        · next hother =>
            rcases List.mem_append.mp hy with hy | hy
            · exact ih.mp h y hy
            · obtain rfl := List.mem_singleton.mp hy
              intro hholds
              exact hother ⟨hholds, by rw [h]; simp⟩
      · intro h
        have hbefore := ih.mpr fun y hy => h y (List.mem_append_left _ hy)
        rw [if_neg fun hx => h x (by simp) hx.1, hbefore]

/-- **What is kept** starts latest of all that hold the place, and comes last of those: `place` tells where an item
    stands in the list. -/
structure KeptOf (span : α → Nat × Nat) (place : α → Nat) (i : Nat) (items : List α) (x : α) : Prop where
  mem : x ∈ items
  holds : SpanHolds (span x) i
  latest : ∀ y ∈ items, SpanHolds (span y) i →
    (span y).1 < (span x).1 ∨ (span y).1 = (span x).1 ∧ place y ≤ place x

theorem keptOf_innermost? {place : α → Nat} (horder : items.Pairwise fun a b => place a < place b)
    (h : innermost? span i items = some x) : KeptOf span place i items x := by
  induction items using List.reverseRecOn generalizing x with
  | nil => cases h
  | append_singleton items last ih =>
      obtain ⟨hitems, _, hlast⟩ := List.pairwise_append.mp horder
      rw [innermost?_concat] at h
      split at h
      · next hkept =>
          obtain rfl := Option.some.inj h
          refine ⟨by simp, hkept.1, fun y hy hholds => ?_⟩
          rcases List.mem_append.mp hy with hy | hy
          · -- what was kept before starts no later than the last item, and what it beat starts no later than it
            have hplace := hlast y hy last (by simp)
            cases hbest : innermost? span i items with
            | none => exact absurd hholds (innermost?_eq_none_iff.mp hbest y hy)
            | some best =>
                have hle := hkept.2 best hbest
                have hbeat := (ih hitems hbest).latest y hy hholds
                omega
          · obtain rfl := List.mem_singleton.mp hy
            exact .inr ⟨rfl, Nat.le_refl _⟩
      · next hother =>
          obtain ⟨hmem, hholds, hlatest⟩ := ih hitems h
          refine ⟨List.mem_append_left _ hmem, hholds, fun y hy hy' => ?_⟩
          rcases List.mem_append.mp hy with hy | hy
          · exact hlatest y hy hy'
          · obtain rfl := List.mem_singleton.mp hy
            refine .inl (Nat.lt_of_not_le fun hle => hother ⟨hy', fun best hbest => ?_⟩)
            obtain rfl : x = best := Option.some.inj (h.symm.trans hbest)
            exact hle

theorem innermost?_eq_some_iff {place : α → Nat} (horder : items.Pairwise fun a b => place a < place b) :
    innermost? span i items = some x ↔ KeptOf span place i items x := by
  refine ⟨keptOf_innermost? horder, fun hx => ?_⟩
  cases hbest : innermost? span i items with
  | none => exact absurd hx.holds (innermost?_eq_none_iff.mp hbest x hx.mem)
  | some best =>
      -- each of the two beats the other, so they stand at the same place of the list
      have hbest := keptOf_innermost? horder hbest
      have hleft := hx.latest best hbest.mem hbest.holds
      have hright := hbest.latest x hx.mem hx.holds
      have hplace : place best = place x := by omega
      obtain ⟨a, ha, rfl⟩ := List.getElem_of_mem hbest.mem
      obtain ⟨b, hb, rfl⟩ := List.getElem_of_mem hx.mem
      have hsame : a = b := by
        rcases Nat.lt_trichotomy a b with hab | rfl | hba
        · have := List.pairwise_iff_getElem.mp horder a b ha hb hab
          omega
        · rfl
        · have := List.pairwise_iff_getElem.mp horder b a hb ha hba
          omega
      subst hsame
      rfl

/-! ## The table of owners -/

/-- The order of the starts. -/
def startsNoLater (span : α → Nat × Nat) (a b : α) : Bool :=
  (span a).1 ≤ (span b).1

/-- Marks the places of a span with its item. -/
def paint (span : α → Nat × Nat) (owners : List (Option α)) (x : α) : List (Option α) :=
  owners.mapIdx fun i owner => if SpanHolds (span x) i then some x else owner

/-- **The table of owners**: the items are painted over each other in the order of their starts. -/
def ownerTable (span : α → Nat × Nat) (size : Nat) (items : List α) : List (Option α) :=
  (items.mergeSort (startsNoLater span)).foldl (paint span) (List.replicate size none)

/-- The last item whose span holds a place. -/
def lastHolder? (span : α → Nat × Nat) (i : Nat) (items : List α) : Option α :=
  (items.filter fun x => SpanHolds (span x) i).getLast?

theorem lastHolder?_append (before after : List α) :
    lastHolder? span i (before ++ after) = (lastHolder? span i after).or (lastHolder? span i before) := by
  rw [lastHolder?, List.filter_append, List.getLast?_append]
  rfl

theorem lastHolder?_cons : lastHolder? span i (x :: items)
    = (lastHolder? span i items).or (if SpanHolds (span x) i then some x else none) := by
  rw [← List.singleton_append, lastHolder?_append]
  by_cases hx : SpanHolds (span x) i <;> simp [lastHolder?, hx]

theorem mem_of_lastHolder? (h : x ∈ lastHolder? span i items) : x ∈ items :=
  List.mem_of_mem_filter (List.mem_of_getLast? h)

/-- What is painted last stays. -/
theorem getElem?_foldl_paint (owners : List (Option α)) :
    (items.foldl (paint span) owners)[i]? = owners[i]?.map fun owner => (lastHolder? span i items).or owner := by
  induction items generalizing owners with
  | nil => simp [lastHolder?]
  | cons x items ih =>
      rw [List.foldl_cons, ih, paint, List.getElem?_mapIdx, Option.map_map]
      congr 1
      funext owner
      rw [lastHolder?_cons, Option.or_assoc, Function.comp_apply]
      split <;> rfl

/-- The first item is kept if all others that hold the place start before it. -/
theorem innermost?_cons : innermost? span i (x :: items)
    = if SpanHolds (span x) i ∧ ∀ y ∈ innermost? span i items, (span y).1 < (span x).1 then some x
      else innermost? span i items := by
  induction items using List.reverseRecOn with
  | nil =>
      have hconcat := @innermost?_concat α span i [] x
      simpa [innermost?] using hconcat
  | append_singleton items last ih =>
      rw [← List.cons_append, innermost?_concat, innermost?_concat, ih]
      grind

/-- The item that is painted last is the innermost one. By induction on the items: the sorted list has the first of
    them before all that start with it or later, so only items that start before it stand in front of it. -/
theorem lastHolder?_mergeSort (items : List α) :
    lastHolder? span i (items.mergeSort (startsNoLater span)) = innermost? span i items := by
  have htrans : ∀ a b c : α, startsNoLater span a b → startsNoLater span b c → startsNoLater span a c := by
    simp only [startsNoLater, decide_eq_true_eq]
    omega
  have htotal : ∀ a b : α, startsNoLater span a b || startsNoLater span b a := by
    simp only [startsNoLater, Bool.or_eq_true, decide_eq_true_eq]
    omega
  induction items with
  | nil =>
      rw [List.mergeSort_nil]
      rfl
  | cons x items ih =>
      have hsorted := List.pairwise_mergeSort htrans htotal (x :: items)
      obtain ⟨before, after, hsort, hrest, hbefore⟩ := List.mergeSort_cons htrans htotal x items
      rw [hsort] at hsorted
      have hafter := (List.pairwise_cons.mp (List.pairwise_append.mp hsorted).2.1).1
      simp only [startsNoLater, Bool.not_eq_true', decide_eq_false_iff_not, decide_eq_true_eq] at hbefore hafter
      rw [hrest, lastHolder?_append] at ih
      rw [hsort, lastHolder?_append, lastHolder?_cons, innermost?_cons, ← ih]
      cases hlast : lastHolder? span i after with
      | some y =>
          have hle := hafter y (mem_of_lastHolder? hlast)
          have hlater : ¬ ∀ z ∈ (some y).or (lastHolder? span i before), (span z).1 < (span x).1 :=
            fun h => Nat.not_lt.mpr hle (h y rfl)
          exact (if_neg fun h => hlater h.2).symm
      | none =>
          have hstart : ∀ y ∈ lastHolder? span i before, (span y).1 < (span x).1 :=
            fun y hy => Nat.lt_of_not_le (hbefore y (mem_of_lastHolder? hy))
          by_cases hx : SpanHolds (span x) i
          · rw [if_pos hx, if_pos ⟨hx, hstart⟩]
            rfl
          · rw [if_neg hx, if_neg fun h => hx h.1]
            rfl

/-- **The table of owners has the innermost item of every place.** -/
theorem getElem?_ownerTable {size : Nat} (hi : i < size) (items : List α) :
    (ownerTable span size items)[i]? = some (innermost? span i items) := by
  rw [ownerTable, getElem?_foldl_paint, lastHolder?_mergeSort, List.getElem?_replicate_of_lt hi]
  simp

end

/-! ## Declarations in the order of their keywords -/

/-- What is declared at growing places is in the order of these places. -/
theorem pairwise_of_mapM {ε β : Type} {act : Nat → Except ε β} {place : β → Nat} {xs : List Nat} {ys : List β}
    (hplace : ∀ x y, act x = .ok y → place y = x) (hxs : xs.Pairwise (· < ·)) (h : xs.mapM act = .ok ys) :
    ys.Pairwise fun a b => place a < place b := by
  have hmap : ys.map place = xs := by
    have hforall := (mapM_eq_ok.mp h).imp fun x y => hplace x y
    clear h hxs
    induction hforall with
    | nil => rfl
    | cons hxy _ ih => rw [List.map_cons, hxy, ih]
  rw [← hmap] at hxs
  exact List.pairwise_map.mp hxs

namespace TokenStream

variable {f : TokenStream}

/-- A declared class comes from its keyword, and its body is a group of brackets. -/
theorem group_of_classAtKeyword (hf : f.WellNested) {i : Nat} {c : ClassDecl} (h : f.classAtKeyword i = .ok c) :
    c.keywordIndex = i ∧ f.closer? c.bodyStart = some c.bodyEnd := by
  unfold classAtKeyword at h
  dsimp only at h
  split at h
  · cases h
  · next body hbody =>
      split at h
      · cases h
      · next hsemi =>
          obtain rfl := Except.ok.inj h
          refine ⟨rfl, ?_⟩
          -- the search stops at a brace or a semicolon, and this is no semicolon
          obtain ⟨ch, hch, hkind⟩ := isCharOf_iff.mp (search?_found hbody).1
          obtain rfl : ch = '\x7b' := by
            rcases List.mem_pair.mp hch with rfl | rfl
            · rfl
            · exact absurd (isChar_iff.mpr hkind) hsemi
          obtain ⟨k, hk⟩ := hf.closes (i := body) (by rw [hkind]; rfl)
          exact hk.trans (congrArg some (skipGroup_of_closer hk).symm)

/-- Of two groups around a place, the one that opens later closes earlier. -/
theorem WellNested.closer_lt_closer (hf : f.WellNested) {o o' k k' i : Nat} (h : f.closer? o = some k)
    (h' : f.closer? o' = some k') (hlt : o < o') (hinner : o' ≤ i) (houter : i ≤ k) : k' < k := by
  have hne : o' ≠ k := by
    rintro rfl
    cases (hf.closer_none h).symm.trans h'
  have hnested := hf.nested h hlt (by omega)
  rwa [skipGroup_of_closer h'] at hnested

end TokenStream

/-! ## Classes and functions of a file -/

/-- The places of a class body, from brace to brace. -/
def ClassDecl.body (c : ClassDecl) : Nat × Nat :=
  (c.bodyStart, c.bodyEnd)

/-- How many tokens the body of a class has. -/
def ClassDecl.bodySize (c : ClassDecl) : Nat :=
  c.bodyEnd + 1 - c.bodyStart

/-- The places of a function, from its keyword to its closing brace or semicolon. -/
def FunctionDecl.extent (d : FunctionDecl) : Nat × Nat :=
  (d.keywordIndex, d.endIndex)

namespace SourceFile

/-- **The class with the smallest body around a place**; the later one of two that share a body. -/
structure InnermostClass (f : SourceFile) (i : Nat) (c : ClassDecl) : Prop where
  mem : c ∈ f.classes
  holds : SpanHolds c.body i
  smallest : ∀ d ∈ f.classes, SpanHolds d.body i →
    c.bodySize < d.bodySize ∨ d.body = c.body ∧ d.keywordIndex ≤ c.keywordIndex

/-- **The function with the latest keyword** of those around a place. -/
structure InnermostFunction (f : SourceFile) (i : Nat) (d : FunctionDecl) : Prop where
  mem : d ∈ f.functions
  holds : SpanHolds d.extent i
  latest : ∀ e ∈ f.functions, SpanHolds e.extent i → e.keywordIndex ≤ d.keywordIndex

variable {name source : String} {f : SourceFile} {i : Nat}
variable {c : ClassDecl}

/-- The body of a class is a group of brackets. -/
theorem group_of_mem_classes (h : ofSource name source = .ok f) (hc : c ∈ f.classes) :
    f.closer? c.bodyStart = some c.bodyEnd := by
  obtain ⟨tokens, _, hfile⟩ := ofSource_eq_ok h
  obtain ⟨_, hclasses, _, _⟩ := ofTokens_eq_ok hfile
  obtain ⟨_, _, hdecl⟩ := exists_left_of_forall₂ (mapM_eq_ok.mp hclasses) hc
  exact (TokenStream.group_of_classAtKeyword (wellNested_of_ofSource h) hdecl).2

theorem classes_pairwise (h : ofSource name source = .ok f) :
    f.classes.Pairwise fun c d => c.keywordIndex < d.keywordIndex := by
  obtain ⟨tokens, _, hfile⟩ := ofSource_eq_ok h
  obtain ⟨_, hclasses, _, _⟩ := ofTokens_eq_ok hfile
  exact pairwise_of_mapM
    (fun _ _ hdecl => (TokenStream.group_of_classAtKeyword (wellNested_of_ofSource h) hdecl).1)
    (List.pairwise_lt_range.filter _) hclasses

theorem functions_pairwise (h : ofSource name source = .ok f) :
    f.functions.Pairwise fun d e => d.keywordIndex < e.keywordIndex := by
  obtain ⟨tokens, _, hfile⟩ := ofSource_eq_ok h
  obtain ⟨_, _, hfunctions, _⟩ := ofTokens_eq_ok hfile
  exact pairwise_of_mapM (fun _ _ hdecl => (TokenStream.declares_of_functionAtKeyword hdecl).1)
    (List.pairwise_lt_range.filter _) hfunctions

/-- **Class bodies are nested**: of two around a place, the one that starts later is the smaller one, and two that
    start together are the same. -/
theorem bodies_nested (h : ofSource name source = .ok f) {d : ClassDecl} (hc : c ∈ f.classes) (hd : d ∈ f.classes)
    (hci : SpanHolds c.body i) (hdi : SpanHolds d.body i) :
    (d.bodyStart < c.bodyStart ∧ c.bodySize < d.bodySize) ∨ (c.bodyStart < d.bodyStart ∧ d.bodySize < c.bodySize)
      ∨ d.body = c.body := by
  have hcgroup := group_of_mem_classes h hc
  have hdgroup := group_of_mem_classes h hd
  have hclt := (TokenStream.closer?_eq_some.mp hcgroup).2
  have hdlt := (TokenStream.closer?_eq_some.mp hdgroup).2
  have hf := wellNested_of_ofSource h
  unfold ClassDecl.bodySize
  rcases Nat.lt_trichotomy d.bodyStart c.bodyStart with hlt | heq | hlt
  · have hends := hf.closer_lt_closer hdgroup hcgroup hlt hci.1 hdi.2
    exact .inl ⟨hlt, by omega⟩
  · rw [heq, hcgroup] at hdgroup
    exact .inr (.inr (Prod.ext heq (Option.some.inj hdgroup).symm))
  · have hends := hf.closer_lt_closer hcgroup hdgroup hlt hdi.1 hci.2
    exact .inr (.inl ⟨hlt, by omega⟩)

theorem innermostClass_iff_kept (h : ofSource name source = .ok f) :
    f.InnermostClass i c ↔ KeptOf ClassDecl.body ClassDecl.keywordIndex i f.classes c := by
  constructor
  · rintro ⟨hmem, hholds, hsmallest⟩
    refine ⟨hmem, hholds, fun d hd hdi => ?_⟩
    have hd' := hsmallest d hd hdi
    rcases bodies_nested h hmem hd hholds hdi with ⟨hlt, _⟩ | ⟨_, hsize⟩ | hsame
    · exact .inl hlt
    · rcases hd' with hd' | ⟨hbody, _⟩
      · omega
      · rw [ClassDecl.bodySize, ClassDecl.bodySize, (Prod.mk.inj hbody).1, (Prod.mk.inj hbody).2] at hsize
        omega
    · rcases hd' with hd' | ⟨_, hkeyword⟩
      · rw [ClassDecl.bodySize, ClassDecl.bodySize, (Prod.mk.inj hsame).1, (Prod.mk.inj hsame).2] at hd'
        omega
      · exact .inr ⟨(Prod.mk.inj hsame).1, hkeyword⟩
  · rintro ⟨hmem, hholds, hlatest⟩
    refine ⟨hmem, hholds, fun d hd hdi => ?_⟩
    have hd' : d.bodyStart < c.bodyStart ∨ d.bodyStart = c.bodyStart ∧ d.keywordIndex ≤ c.keywordIndex :=
      hlatest d hd hdi
    rcases bodies_nested h hmem hd hholds hdi with ⟨_, hsize⟩ | ⟨hlt, _⟩ | hsame
    · exact .inl hsize
    · omega
    · refine .inr ⟨hsame, ?_⟩
      have hstart := (Prod.mk.inj hsame).1
      omega

theorem classAt?_eq_some_iff (h : ofSource name source = .ok f) : f.classAt? i = some c ↔ f.InnermostClass i c := by
  rw [innermostClass_iff_kept h]
  exact innermost?_eq_some_iff (classes_pairwise h)

theorem functionAt?_eq_some_iff (h : ofSource name source = .ok f) {d : FunctionDecl} :
    f.functionAt? i = some d ↔ f.InnermostFunction i d := by
  have hkept : f.functionAt? i = some d ↔ KeptOf FunctionDecl.extent FunctionDecl.keywordIndex i f.functions d :=
    innermost?_eq_some_iff (functions_pairwise h)
  rw [hkept]
  constructor
  · rintro ⟨hmem, hholds, hlatest⟩
    refine ⟨hmem, hholds, fun e he hei => ?_⟩
    rcases hlatest e he hei with hlt | ⟨_, hle⟩
    · exact Nat.le_of_lt hlt
    · exact hle
  · rintro ⟨hmem, hholds, hlatest⟩
    refine ⟨hmem, hholds, fun e he hei => ?_⟩
    rcases Nat.lt_or_eq_of_le (hlatest e he hei) with hlt | heq
    · exact .inl hlt
    · exact .inr ⟨heq, Nat.le_of_eq heq⟩

/-- A place directly in a class body is one in no function that is declared in the body. -/
theorem inClassBody_iff (h : ofSource name source = .ok f) : f.inClassBody i
    ↔ ∃ c, f.InnermostClass i c ∧ ∀ d ∈ f.functions, SpanHolds c.body d.keywordIndex → ¬ SpanHolds d.extent i := by
  unfold inClassBody
  cases hclass : f.classAt? i with
  | none =>
      refine iff_of_false (by simp) ?_
      rintro ⟨c, hc, _⟩
      cases hclass.symm.trans ((classAt?_eq_some_iff h).mpr hc)
  | some c =>
      have hc := (classAt?_eq_some_iff h).mp hclass
      dsimp only
      constructor
      · intro hall
        refine ⟨c, hc, fun d hd hinside hholds => ?_⟩
        cases hfunction : f.functionAt? i with
        | none => exact innermost?_eq_none_iff.mp hfunction d hd hholds
        | some e =>
            -- the innermost function is declared before the body, and `d` comes no later than it
            have hlatest := ((functionAt?_eq_some_iff h).mp hfunction).latest d hd hholds
            rw [hfunction] at hall
            have hbefore : e.keywordIndex < c.bodyStart := by simpa using hall
            have hstart : c.bodyStart ≤ d.keywordIndex := hinside.1
            omega
      · rintro ⟨c', hc', hnone⟩
        obtain rfl : c = c' := Option.some.inj (hclass.symm.trans ((classAt?_eq_some_iff h).mpr hc'))
        cases hfunction : f.functionAt? i with
        | none => rfl
        | some e =>
            have he := (functionAt?_eq_some_iff h).mp hfunction
            have hbefore : e.keywordIndex < c.bodyStart := by
              by_contra hinside
              have hend : i ≤ c.bodyEnd := hc.holds.2
              have hkeyword : e.keywordIndex ≤ i := he.holds.1
              exact hnone e he.mem ⟨Nat.le_of_not_lt hinside, Nat.le_trans hkeyword hend⟩ he.holds
            simpa using hbefore

/-- **The innermost declarations around a place.** A place is in a class, or in a function, exactly if a class body or a
    declaration holds it. The class is then the one with the smallest body, and of two with the same body the later one;
    the function is the one with the latest keyword. A place is directly in a class body exactly if it is in one and
    no function that is declared in the innermost one holds it. The tables of owners have these classes and
    functions. -/
theorem innermost_declarations (h : ofSource name source = .ok f) (i : Nat) :
    (f.classAt? i = none ↔ ∀ c ∈ f.classes, ¬ SpanHolds c.body i)
    ∧ (∀ c, f.classAt? i = some c ↔ f.InnermostClass i c)
    ∧ (f.functionAt? i = none ↔ ∀ d ∈ f.functions, ¬ SpanHolds d.extent i)
    ∧ (∀ d, f.functionAt? i = some d ↔ f.InnermostFunction i d)
    ∧ (f.inClassBody i ↔ ∃ c, f.InnermostClass i c
        ∧ ∀ d ∈ f.functions, SpanHolds c.body d.keywordIndex → ¬ SpanHolds d.extent i)
    ∧ (i < f.size → (ownerTable ClassDecl.body f.size f.classes)[i]? = some (f.classAt? i)
        ∧ (ownerTable FunctionDecl.extent f.size f.functions)[i]? = some (f.functionAt? i)) :=
  ⟨innermost?_eq_none_iff, fun _ => classAt?_eq_some_iff h, innermost?_eq_none_iff,
    fun _ => functionAt?_eq_some_iff h, inClassBody_iff h,
    fun hi => ⟨getElem?_ownerTable hi f.classes, getElem?_ownerTable hi f.functions⟩⟩

/-- Two classes with one body, a method in it, a class without name in the method, and a method of that class. -/
def nestedClasses : String :=
  "<?php class A class B \x7b public $p; function m($q) \x7b return new class \x7b public $r; "
    ++ "function n() \x7b $s; \x7d \x7d; \x7d \x7d $t;"

theorem nestedClasses_run : ∃ file, ofSource "a.php" nestedClasses = .ok file
    ∧ file.classes.map ClassDecl.body = [(9, 56), (9, 56), (31, 51)]
    ∧ file.functions.map FunctionDecl.extent = [(16, 54), (38, 49)]
    ∧ file.classes[1]?.isSome ∧ file.classAt? 13 = file.classes[1]?
    ∧ file.classes[2]?.isSome ∧ file.classAt? 46 = file.classes[2]?
    ∧ file.functions[0]?.isSome ∧ file.functionAt? 35 = file.functions[0]?
    ∧ file.functions[1]?.isSome ∧ file.functionAt? 46 = file.functions[1]?
    ∧ file.inClassBody 35 ∧ ¬ file.inClassBody 46 ∧ file.classAt? 58 = none :=
  exists_ok_of_decide (by decide +kernel)

theorem nestedClasses_innermost : ∃ file, ofSource "a.php" nestedClasses = .ok file
    ∧ file.classes.map ClassDecl.body = [(9, 56), (9, 56), (31, 51)]
    ∧ file.functions.map FunctionDecl.extent = [(16, 54), (38, 49)]
    ∧ (∃ c, file.classes[1]? = some c ∧ file.InnermostClass 13 c)
    ∧ (∃ c, file.classes[2]? = some c ∧ file.InnermostClass 46 c
        ∧ ∃ d ∈ file.functions, SpanHolds c.body d.keywordIndex ∧ SpanHolds d.extent 46)
    ∧ (∃ d, file.functions[0]? = some d ∧ file.InnermostFunction 35 d)
    ∧ (∃ d, file.functions[1]? = some d ∧ file.InnermostFunction 46 d)
    ∧ (∃ c, file.InnermostClass 35 c
        ∧ ∀ d ∈ file.functions, SpanHolds c.body d.keywordIndex → ¬ SpanHolds d.extent 35)
    ∧ ∀ c ∈ file.classes, ¬ SpanHolds c.body 58 := by
  obtain ⟨file, hfile, hbodies, hextents, hb, hat13, hanon, hat46, hm, hin35, hn, hin46, hdirect, hinside,
    houtside⟩ := nestedClasses_run
  obtain ⟨b, hb⟩ := Option.isSome_iff_exists.mp hb
  obtain ⟨anon, hanon⟩ := Option.isSome_iff_exists.mp hanon
  obtain ⟨m, hm⟩ := Option.isSome_iff_exists.mp hm
  obtain ⟨n, hn⟩ := Option.isSome_iff_exists.mp hn
  have hinner := ((innermost_declarations hfile 46).2.1 anon).mp (hat46.trans hanon)
  refine ⟨file, hfile, hbodies, hextents, ⟨b, hb, ?_⟩, ⟨anon, hanon, hinner, ?_⟩, ⟨m, hm, ?_⟩, ⟨n, hn, ?_⟩, ?_, ?_⟩
  · exact ((innermost_declarations hfile 13).2.1 b).mp (hat13.trans hb)
  · by_contra hnone
    exact hinside ((innermost_declarations hfile 46).2.2.2.2.1.mpr
      ⟨anon, hinner, fun d hd hkeyword hholds => hnone ⟨d, hd, hkeyword, hholds⟩⟩)
  · exact ((innermost_declarations hfile 35).2.2.2.1 m).mp (hin35.trans hm)
  · exact ((innermost_declarations hfile 46).2.2.2.1 n).mp (hin46.trans hn)
  · exact (innermost_declarations hfile 35).2.2.2.2.1.mp hdirect
  · exact (innermost_declarations hfile 58).1.mp houtside

end SourceFile

end Unassigned
