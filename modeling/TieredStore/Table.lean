/-!
# Tables

A table is a finite map, kept as a list of entries with the entry written last in front. The order
of the entries carries no meaning of its own.

Main statements: `find?_insert` and `find?_erase` say what a table holds after a change, and
`contains_iff` that a key is contained exactly if it is found.
-/

namespace TieredStore

/-- A finite map from keys to values. -/
structure Table (κ α : Type) where
  /-- The entries, the one written last in front. -/
  entries : List (κ × α)

namespace Table

variable {κ α : Type} [DecidableEq κ]

/-- The table without entries. -/
def empty : Table κ α := ⟨[]⟩

/-- The value stored under `key`. -/
def find? (t : Table κ α) (key : κ) : Option α :=
  (t.entries.find? (fun e => e.1 = key)).map Prod.snd

/-- Whether a value is stored under `key`. -/
def contains (t : Table κ α) (key : κ) : Bool := (t.find? key).isSome

/-- The table without the value under `key`. -/
def erase (t : Table κ α) (key : κ) : Table κ α :=
  ⟨t.entries.filter (fun e => e.1 ≠ key)⟩

/-- The table with `value` under `key`, in place of what was there. -/
def insert (t : Table κ α) (key : κ) (value : α) : Table κ α :=
  ⟨(key, value) :: (t.erase key).entries⟩

omit [DecidableEq κ] in
/-- The keys, in the order of the entries. -/
def keys (t : Table κ α) : List κ := t.entries.map Prod.fst

omit [DecidableEq κ] in
/-- The values, in the order of the entries. -/
def values (t : Table κ α) : List α := t.entries.map Prod.snd

omit [DecidableEq κ] in
/-- The number of entries. -/
def size (t : Table κ α) : Nat := t.entries.length

omit [DecidableEq κ] in
/-- Whether there is no entry. -/
def isEmpty (t : Table κ α) : Bool := t.entries.isEmpty

@[simp]
theorem find?_empty (key : κ) : (empty : Table κ α).find? key = none := rfl

theorem find?_erase (t : Table κ α) (key other : κ) :
    (t.erase key).find? other = if other = key then none else t.find? other := by
  simp only [find?, erase, List.find?_filter]
  split
  next h =>
    subst h
    simp
  next h =>
    congr 2
    funext e
    by_cases he : e.1 = other
    · simp [he, h]
    · simp [he]

theorem find?_insert (t : Table κ α) (key other : κ) (value : α) :
    (t.insert key value).find? other = if other = key then some value else t.find? other := by
  by_cases h : other = key
  · subst h
    simp [find?, insert]
  · have h' : ¬ key = other := fun e => h e.symm
    have := find?_erase t key other
    simp only [h, if_false] at this ⊢
    rw [← this]
    simp [find?, insert, h']

@[simp]
theorem find?_insert_self (t : Table κ α) (key : κ) (value : α) :
    (t.insert key value).find? key = some value := by
  simp [find?_insert]

theorem find?_insert_of_ne (t : Table κ α) {key other : κ} (value : α) (h : other ≠ key) :
    (t.insert key value).find? other = t.find? other := by
  simp [find?_insert, h]

@[simp]
theorem find?_erase_self (t : Table κ α) (key : κ) : (t.erase key).find? key = none := by
  simp [find?_erase]

theorem find?_erase_of_ne (t : Table κ α) {key other : κ} (h : other ≠ key) :
    (t.erase key).find? other = t.find? other := by
  simp [find?_erase, h]

theorem contains_iff (t : Table κ α) (key : κ) :
    t.contains key = true ↔ ∃ value, t.find? key = some value := by
  simp [contains, Option.isSome_iff_exists]

theorem mem_keys_iff (t : Table κ α) (key : κ) : key ∈ t.keys ↔ t.contains key = true := by
  simp only [keys, contains, find?, List.mem_map, Option.isSome_map, List.find?_isSome,
    decide_eq_true_eq]

end Table

end TieredStore
