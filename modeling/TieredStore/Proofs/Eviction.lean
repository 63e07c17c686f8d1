import Mathlib.Algebra.Order.BigOperators.Group.List
import Mathlib.Algebra.Order.Ring.Nat
import TieredStore.Eviction

/-!
# What an eviction leaves

A plan takes units from the front of their order until they cover what is asked for, or until there
are none left. So the units that are not taken have no more bytes than all units had without the
bytes that were asked for.

* `takeUntil_isPrefix`, `le_sum_takeUntil`, `le_sum_chosen`: how many units are taken.
* `sum_sizes_add_chosen_le`, `sum_sizes_le_of_not_chosen`: the bytes of the units that are not.
-/

namespace TieredStore

namespace EvictionUnit

theorem takeUntil_isPrefix (nbytes : ℕ) (units : List EvictionUnit) :
    takeUntil nbytes units <+: units := by
  induction units generalizing nbytes with
  | nil => exact List.prefix_refl _
  | cons u units ih =>
    rw [takeUntil]
    split
    · exact ⟨units, rfl⟩
    · exact (List.prefix_cons_inj u).2 (ih _)

/-- Units are taken until they cover what is asked for, or until none is left. -/
theorem le_sum_takeUntil (nbytes : ℕ) (units : List EvictionUnit) :
    nbytes ≤ ((takeUntil nbytes units).map size).sum ∨ takeUntil nbytes units = units := by
  induction units generalizing nbytes with
  | nil => exact .inr rfl
  | cons u units ih =>
    rw [takeUntil]
    split
    next hfirst =>
      left
      simpa using hfirst
    next hmore =>
      -- The units after the first one cover what it leaves open.
      rcases ih (nbytes - u.size) with hcovered | hall
      · left
        rw [List.map_cons, List.sum_cons]
        omega
      · right
        rw [hall]

/-- Units that are not taken, each at most as often as it was offered, and the ones that are taken
have no more bytes than all units. -/
theorem sum_sizes_add_chosen_le {nbytes : ℕ} {left units : List EvictionUnit}
    (hsublist : left.Sublist units) (hleft : ∀ u ∈ left, u ∉ chosen units nbytes) :
    (left.map size).sum + ((chosen units nbytes).map size).sum ≤ (units.map size).sum := by
  obtain ⟨rest, hrest⟩ := takeUntil_isPrefix nbytes (inOrder units)
  have hperm : (inOrder units).Perm units := List.mergeSort_perm _ _
  have hsum : ((chosen units nbytes).map size).sum + (rest.map size).sum =
      (units.map size).sum := by
    rw [← (hperm.map size).sum_eq, ← hrest, List.map_append, List.sum_append]
    rfl
  -- A unit that was not taken is one of the rest, wherever it stands among equal ones.
  have hsublist' : left.Sublist (units.filter fun u => u ∉ chosen units nbytes) := by
    have hsame : left.filter (fun u => u ∉ chosen units nbytes) = left :=
      List.filter_eq_self.2 fun u hu => decide_eq_true (hleft u hu)
    rw [← hsame]
    exact hsublist.filter _
  -- In the order of the plan these are all behind the ones that were taken.
  have hperm' : (units.filter fun u => u ∉ chosen units nbytes).Perm
      (rest.filter fun u => u ∉ chosen units nbytes) := by
    have hnone : (chosen units nbytes).filter (fun u => u ∉ chosen units nbytes) = [] :=
      List.filter_eq_nil_iff.2 fun u hu => by simpa using hu
    have happend := hperm.filter fun u => u ∉ chosen units nbytes
    rw [← hrest, List.filter_append] at happend
    exact happend.symm.trans (by rw [show takeUntil nbytes (inOrder units) = chosen units nbytes
      from rfl, hnone, List.nil_append])
  have hle : (left.map size).sum ≤ (rest.map size).sum :=
    calc (left.map size).sum
        ≤ ((units.filter fun u => u ∉ chosen units nbytes).map size).sum :=
          (hsublist'.map size).sum_le_sum fun _ _ => Nat.zero_le _
      _ = ((rest.filter fun u => u ∉ chosen units nbytes).map size).sum := (hperm'.map size).sum_eq
      _ ≤ (rest.map size).sum := (List.filter_sublist.map size).sum_le_sum fun _ _ => Nat.zero_le _
  omega

/-- The units that are taken cover what is asked for, or they are all units. -/
theorem le_sum_chosen (units : List EvictionUnit) (nbytes : ℕ) :
    nbytes ≤ ((chosen units nbytes).map size).sum ∨
      ((chosen units nbytes).map size).sum = (units.map size).sum := by
  refine (le_sum_takeUntil nbytes (inOrder units)).imp_right fun hall => ?_
  rw [chosen, hall]
  exact ((List.mergeSort_perm units _).map size).sum_eq

/-- Units that are not taken have no more bytes than all units without those that were asked
for. -/
theorem sum_sizes_le_of_not_chosen {nbytes : ℕ} {left units : List EvictionUnit}
    (hsublist : left.Sublist units) (hleft : ∀ u ∈ left, u ∉ chosen units nbytes) :
    (left.map size).sum ≤ (units.map size).sum - nbytes := by
  have hle := sum_sizes_add_chosen_le hsublist hleft
  -- If all units were taken, nothing is left at all.
  have hcovered := le_sum_chosen units nbytes
  omega

end EvictionUnit

end TieredStore
