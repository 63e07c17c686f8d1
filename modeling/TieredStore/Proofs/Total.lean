import Mathlib.Algebra.Order.BigOperators.Group.Finset
import TieredStore.Table

/-!
# Totals of tables

A tally that is kept while a table changes has to agree with the sum over what the table holds at
the end. `Table.total` is that sum, with every key counted once.

* `total_insert` and `total_erase`: what a change of one key does to the total.
* `total_eq_sum`: the total as a sum over any set of keys that is the right one.
-/

namespace TieredStore

namespace Table

variable {κ α : Type} [DecidableEq κ]

/-- What `f` gives for the value under `key`, and nothing if there is none. -/
def weight (t : Table κ α) (f : α → ℕ) (key : κ) : ℕ := ((t.find? key).map f).getD 0

/-- The sum of `f` over the values in a table. -/
def total (t : Table κ α) (f : α → ℕ) : ℕ := ∑ key ∈ t.keys.toFinset, t.weight f key

@[simp]
theorem contains_empty (key : κ) : (empty : Table κ α).contains key = false := rfl

theorem contains_insert (t : Table κ α) (key other : κ) (value : α) :
    (t.insert key value).contains other = (decide (other = key) || t.contains other) := by
  by_cases h : other = key <;> simp [contains, find?_insert, h]

theorem contains_erase (t : Table κ α) (key other : κ) :
    (t.erase key).contains other = (!decide (other = key) && t.contains other) := by
  by_cases h : other = key <;> simp [contains, find?_erase, h]

theorem contains_of_find? {t : Table κ α} {key : κ} {value : α} (h : t.find? key = some value) :
    t.contains key = true := by
  simp [contains, h]

theorem contains_eq_false_iff (t : Table κ α) (key : κ) :
    t.contains key = false ↔ t.find? key = none := by
  simp [contains]

/-- The total as a sum over a set that holds exactly the keys. -/
theorem total_eq_sum (t : Table κ α) (f : α → ℕ) (keys : Finset κ)
    (h : ∀ key, key ∈ keys ↔ t.contains key = true) :
    t.total f = ∑ key ∈ keys, t.weight f key := by
  have hkeys : t.keys.toFinset = keys := by
    ext key
    rw [List.mem_toFinset, mem_keys_iff, h]
  rw [total, hkeys]

theorem weight_insert_of_ne (t : Table κ α) (f : α → ℕ) {key other : κ} (value : α)
    (h : other ≠ key) : (t.insert key value).weight f other = t.weight f other := by
  rw [weight, find?_insert_of_ne t value h, weight]

theorem weight_erase_of_ne (t : Table κ α) (f : α → ℕ) {key other : κ} (h : other ≠ key) :
    (t.erase key).weight f other = t.weight f other := by
  rw [weight, find?_erase_of_ne t h, weight]

/-- Erasing a key takes its weight off the total. -/
theorem total_erase (t : Table κ α) (f : α → ℕ) (key : κ) :
    (t.erase key).total f + t.weight f key = t.total f := by
  -- The other keys keep their weights.
  have hrest : (t.erase key).total f = ∑ other ∈ t.keys.toFinset.erase key, t.weight f other := by
    rw [total_eq_sum _ f (t.keys.toFinset.erase key)]
    · refine Finset.sum_congr rfl fun other hother => ?_
      exact weight_erase_of_ne t f (Finset.ne_of_mem_erase hother)
    · intro other
      rw [contains_erase, Finset.mem_erase, List.mem_toFinset, mem_keys_iff]
      simp
  rw [hrest]
  by_cases hkey : t.contains key = true
  · rw [total, Finset.sum_erase_add]
    rwa [List.mem_toFinset, mem_keys_iff]
  · -- A key that is not there has no weight, and erasing it changes nothing.
    have hnone : t.find? key = none := by simpa [contains] using hkey
    rw [Finset.erase_eq_of_notMem, total, weight, hnone]
    · rfl
    · rwa [List.mem_toFinset, mem_keys_iff]

/-- Writing a key replaces its weight in the total. -/
theorem total_insert (t : Table κ α) (f : α → ℕ) (key : κ) (value : α) :
    (t.insert key value).total f + t.weight f key = t.total f + f value := by
  -- Both tables are the same without the key, so both totals are compared to that of the rest.
  have hrest : ((t.insert key value).erase key).total f = (t.erase key).total f := by
    rw [total_eq_sum _ f (t.erase key).keys.toFinset]
    · refine Finset.sum_congr rfl fun other hother => ?_
      have hne : other ≠ key := by
        rintro rfl
        rw [List.mem_toFinset, mem_keys_iff, contains_erase] at hother
        simp at hother
      rw [weight_erase_of_ne _ f hne, weight_erase_of_ne _ f hne,
        weight_insert_of_ne t f value hne]
    · intro other
      rw [List.mem_toFinset, mem_keys_iff, contains_erase, contains_erase, contains_insert]
      by_cases h : other = key <;> simp [h]
  have hnew : (t.insert key value).weight f key = f value := by simp [weight]
  have herase := total_erase (t.insert key value) f key
  rw [hrest, hnew] at herase
  have hold := total_erase t f key
  omega

/-- Writing a new key adds its weight to the total. -/
theorem total_insert_of_not_contains {t : Table κ α} {key : κ} (h : t.contains key = false)
    (f : α → ℕ) (value : α) : (t.insert key value).total f = t.total f + f value := by
  have hnone : t.find? key = none := (contains_eq_false_iff t key).1 h
  simpa [weight, hnone] using total_insert t f key value

/-- Writing a key over a value of the same weight leaves the total as it is. -/
theorem total_insert_of_weight_eq {t : Table κ α} {key : κ} {f : α → ℕ} {value : α}
    (h : t.weight f key = f value) : (t.insert key value).total f = t.total f := by
  have := total_insert t f key value
  omega

end Table

end TieredStore
