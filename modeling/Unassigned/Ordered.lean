/-!
# `Ordered` — look-up tables that remember insertion order

A table is a list of keys and values in which every key has one place. Setting the value of a key that is
there keeps its place; a new key goes to the end. `List.lookup` reads a table.
-/

namespace Unassigned.Ordered

variable {κ α : Type} [DecidableEq κ]

/-- Sets the value of a key: in its place if the key is there, else at the end. -/
def insert (key : κ) (value : α) : List (κ × α) → List (κ × α)
  | [] => [(key, value)]
  | (k, v) :: rest =>
    if k = key then (key, value) :: rest else (k, v) :: insert key value rest

/-- Sets all the entries of a second table in a first one. -/
def insertAll (table entries : List (κ × α)) : List (κ × α) :=
  entries.foldl (fun table entry => insert entry.1 entry.2 table) table

/-- The table of a sequence of keys and values, of which later ones replace earlier ones in place. -/
def ofList (entries : List (κ × α)) : List (κ × α) :=
  insertAll [] entries

/-- The key has a place in the table. -/
def hasKey (key : κ) (table : List (κ × α)) : Bool :=
  table.any fun entry => entry.1 = key

/-- The keys of a table, in order. -/
def keys (table : List (κ × α)) : List κ :=
  table.map Prod.fst

theorem keys_insert (key : κ) (value : α) (table : List (κ × α)) :
    keys (insert key value table) =
      if key ∈ keys table then keys table else keys table ++ [key] := by
  induction table with
  | nil => simp [insert, keys]
  | cons entry rest ih =>
    obtain ⟨k, v⟩ := entry
    by_cases h : k = key
    · subst h; simp [insert, keys]
    · have h' : ¬ key = k := fun e => h e.symm
      simp only [keys] at ih
      by_cases hm : key ∈ rest.map Prod.fst <;> simp [insert, h, h', keys, ih, hm]

theorem lookup_insert_self (key : κ) (value : α) (table : List (κ × α)) :
    (insert key value table).lookup key = some value := by
  induction table with
  | nil => simp [insert]
  | cons entry rest ih =>
    obtain ⟨k, v⟩ := entry
    by_cases h : k = key
    · simp [insert, h]
    · have h' : (key == k) = false := by simpa using fun e : key = k => h e.symm
      simp [insert, h, List.lookup_cons, h', ih]

theorem lookup_insert_of_ne {key other : κ} (h : other ≠ key) (value : α)
    (table : List (κ × α)) : (insert key value table).lookup other = table.lookup other := by
  induction table with
  | nil =>
    have h' : (other == key) = false := by simpa using h
    simp [insert, List.lookup_cons, h']
  | cons entry rest ih =>
    obtain ⟨k, v⟩ := entry
    by_cases hk : k = key
    · subst hk
      have h' : (other == k) = false := by simpa using h
      simp [insert, List.lookup_cons, h']
    · simp [insert, hk, List.lookup_cons, ih]

theorem mem_of_lookup {table : List (κ × α)} {key : κ} {value : α} (h : table.lookup key = some value) :
    (key, value) ∈ table := by
  obtain ⟨before, after, rfl, _⟩ := List.lookup_eq_some_iff.mp h
  simp

end Unassigned.Ordered
