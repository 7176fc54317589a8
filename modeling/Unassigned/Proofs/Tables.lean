import Mathlib.Data.List.Induction
import Unassigned.Ordered

/-!
# `Proofs.Tables` — a table told by the entries that were set

A table is built by setting one entry after the other. Its keys are those of the entries, each at its **first**
occurrence (`keys_ofList`), and its values are those of the **last** entry of each key (`lookup_ofList`). The two
together tell the whole table (`ofList_eq_map`).
-/

namespace Unassigned.Ordered

variable {κ α : Type} [DecidableEq κ]

/-! ## Entries -/

theorem mem_insert {table : List (κ × α)} {key : κ} {value : α} {entry : κ × α}
    (h : entry ∈ insert key value table) : entry = (key, value) ∨ entry ∈ table := by
  induction table with
  | nil => simpa [insert] using h
  | cons first rest ih =>
      unfold insert at h
      split at h
      · exact (List.mem_cons.mp h).imp_right (List.mem_cons_of_mem _)
      · rcases List.mem_cons.mp h with rfl | h
        · exact .inr (List.mem_cons_self ..)
        · exact (ih h).imp_right (List.mem_cons_of_mem _)

theorem mem_ofList {entries : List (κ × α)} {entry : κ × α} (h : entry ∈ ofList entries) : entry ∈ entries := by
  revert h
  apply List.foldlRecOn (motive := fun table => entry ∈ table → entry ∈ entries) entries
  · intro h
    cases h
  · intro table htable added hadded h
    rcases mem_insert h with rfl | h
    · exact hadded
    · exact htable h

/-! ## Values: the last entry counts -/

theorem lookup_insertAll (table entries : List (κ × α)) (key : κ) :
    (insertAll table entries).lookup key = (entries.reverse.lookup key).or (table.lookup key) := by
  induction entries generalizing table with
  | nil => rfl
  | cons entry entries ih =>
      obtain ⟨name, value⟩ := entry
      show (insertAll (insert name value table) entries).lookup key = _
      rw [ih, List.reverse_cons, List.lookup_append, Option.or_assoc]
      congr 1
      by_cases hkey : key = name
      · rw [hkey, lookup_insert_self, List.lookup_cons_self]
        rfl
      · have hne : (key == name) = false := by simpa using hkey
        rw [lookup_insert_of_ne hkey, List.lookup_cons, hne]
        rfl

theorem lookup_ofList (entries : List (κ × α)) (key : κ) :
    (ofList entries).lookup key = entries.reverse.lookup key := by
  rw [ofList, lookup_insertAll]
  exact Option.or_none

/-! ## Keys: the first entry counts -/

theorem nodup_eraseDups (keys : List κ) : keys.eraseDups.Nodup := by
  cases keys with
  | nil => exact List.Pairwise.nil
  | cons key keys =>
      rw [List.eraseDups_cons, List.nodup_cons]
      refine ⟨?_, nodup_eraseDups _⟩
      intro hmem
      have hne := (List.mem_filter.mp (List.mem_eraseDups.mp hmem)).2
      simp at hne
termination_by keys.length
decreasing_by
  have hle := List.length_filter_le (fun other => !other == key) keys
  rw [List.length_cons]
  omega

/-- One more key changes nothing if it occurs before, and goes to the end if it does not. -/
theorem eraseDups_concat (keys : List κ) (key : κ) :
    (keys ++ [key]).eraseDups = if key ∈ keys then keys.eraseDups else keys.eraseDups ++ [key] := by
  rw [List.eraseDups_append]
  by_cases hkey : key ∈ keys
  · simp [List.removeAll, hkey]
  · simp [List.removeAll, hkey, List.eraseDups_cons]

theorem keys_ofList (entries : List (κ × α)) : keys (ofList entries) = (keys entries).eraseDups := by
  -- the last entry is set last
  induction entries using List.reverseRecOn with
  | nil => rfl
  | append_singleton before entry ih =>
      have hset : ofList (before ++ [entry]) = insert entry.1 entry.2 (ofList before) := by
        simp [ofList, insertAll]
      have hkeys : keys (before ++ [entry]) = keys before ++ [entry.1] := by
        simp [keys]
      rw [hset, hkeys, keys_insert, ih, eraseDups_concat]
      simp only [List.mem_eraseDups]

/-! ## The whole table -/

theorem lookup_of_mem {table : List (κ × α)} (hkeys : (keys table).Nodup) {key : κ} {value : α}
    (h : (key, value) ∈ table) : table.lookup key = some value := by
  induction table with
  | nil => cases h
  | cons entry rest ih =>
      obtain ⟨k, v⟩ := entry
      obtain ⟨hfresh, hrest⟩ := List.nodup_cons.mp hkeys
      rcases List.mem_cons.mp h with heq | hmem
      · cases heq
        exact List.lookup_cons_self
      · have hne : (key == k) = false := by
          refine beq_false_of_ne ?_
          rintro rfl
          exact hfresh (List.mem_map.mpr ⟨_, hmem, rfl⟩)
        rw [List.lookup_cons, hne]
        exact ih hrest hmem

/-- A table has each key where the key occurs first, with the value of the entry where it occurs last. -/
theorem ofList_eq_map {entries : List (κ × α)} (value : κ → α)
    (hvalue : ∀ key v, entries.reverse.lookup key = some v → v = value key) :
    ofList entries = (keys entries).eraseDups.map fun key => (key, value key) := by
  have hnodup : (keys (ofList entries)).Nodup := by
    rw [keys_ofList]
    exact nodup_eraseDups _
  have hentry : ∀ entry ∈ ofList entries, (entry.1, value entry.1) = entry := by
    rintro ⟨key, v⟩ hmem
    have hlookup := lookup_of_mem hnodup hmem
    rw [lookup_ofList] at hlookup
    rw [hvalue key v hlookup]
  calc ofList entries = (ofList entries).map id := (List.map_id _).symm
    _ = (ofList entries).map fun entry => (entry.1, value entry.1) :=
        List.map_congr_left fun entry hmem => (hentry entry hmem).symm
    _ = (keys entries).eraseDups.map fun key => (key, value key) := by
        rw [← keys_ofList, keys, List.map_map]
        rfl

end Unassigned.Ordered
