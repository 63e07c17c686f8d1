import TieredStore.Proofs.Memory.Units

/-!
# Which units an eviction takes

The units are sorted by the time of their latest access, then by size, and where both agree they
stay in the order they came in. A plan takes a prefix of the sorted units that is as short as it can
be, and lists the proxies of this prefix without repetitions.

* `pairwise_idxOf_eraseDups`, `pairwise_mergeSort_stable`: lists without repetitions, sorted lists.
* `EvictionUnit.Precedes`: the order, which is strict since positions are part of it.
* `EvictionUnit.ranked`: the units in this order, with their positions.
* `EvictionUnit.sum_dropLast_takeUntil_lt`: a shorter prefix would not do.
* `EvictionPlan.IsShortest`, `EvictionPlan.exists_isShortest`: what a plan takes.
-/

namespace TieredStore

/-! ### Lists without repetitions -/

section

variable {α : Type} [DecidableEq α]

theorem idxOf_append_of_mem {items : List α} {x : α} (h : x ∈ items) (more : List α) :
    (items ++ more).idxOf x = items.idxOf x := by
  rw [List.idxOf_append, if_pos h]

/-- Without its repetitions, a list is in the order of the first occurrences. -/
theorem pairwise_idxOf_eraseDups (items : List α) :
    items.eraseDups.Pairwise fun x y => items.idxOf x < items.idxOf y := by
  -- Where the list is read from its end, a later element is dropped or goes behind all others.
  induction items using List.reverseRecOn with
  | nil => exact List.Pairwise.nil
  | append_singleton items z ih =>
    rw [List.eraseDups_append, List.pairwise_append]
    refine ⟨?_, ?_, ?_⟩
    · apply ih.imp_of_mem
      intro x y hx hy hlt
      rw [List.mem_eraseDups] at hx hy
      rwa [idxOf_append_of_mem hx, idxOf_append_of_mem hy]
    · -- At most one element is left of a list that has one.
      by_cases hz : z ∈ items
      · simp [List.removeAll, hz]
      · simp [List.removeAll, hz, List.eraseDups_cons]
    · intro x hx y hy
      rw [List.mem_eraseDups] at hx
      simp only [List.mem_eraseDups, List.removeAll, List.mem_filter, List.mem_singleton] at hy
      obtain ⟨rfl, hnew⟩ := hy
      have hnew : y ∉ items := by simpa using hnew
      rw [idxOf_append_of_mem hx, List.idxOf_append, if_neg hnew]
      exact Nat.lt_add_left _ (List.idxOf_lt_length_of_mem hx)

end

/-- A sort that keeps the order of elements that tie: where two elements may stand in either order,
they are related as they were before. -/
theorem pairwise_mergeSort_stable {α : Type} {le : α → α → Bool}
    (htrans : ∀ a b c, le a b = true → le b c = true → le a c = true)
    (htotal : ∀ a b, (le a b || le b a) = true) {R : α → α → Prop} {items : List α}
    (h : items.Pairwise R) :
    (items.mergeSort le).Pairwise fun a b => le a b = true ∧ (le b a = true → R a b) := by
  -- Sorting elements together with their positions decides the ties.
  have hsorted := List.pairwise_mergeSort (List.zipIdxLE_trans htrans)
    (List.zipIdxLE_total htotal) items.zipIdx
  have hpositions : ((items.zipIdx.mergeSort (List.zipIdxLE le)).map Prod.snd).Nodup := by
    rw [((List.mergeSort_perm _ _).map Prod.snd).nodup_iff, List.zipIdx_map_snd]
    exact List.nodup_range'
  rw [List.Nodup, List.pairwise_map] at hpositions
  rw [← List.mergeSort_zipIdx, List.pairwise_map]
  apply (hsorted.and hpositions).imp_of_mem
  rintro ⟨a, i⟩ ⟨b, j⟩ ha hb ⟨hle, hne⟩
  rw [List.mem_mergeSort, List.mem_zipIdx_iff_getElem?] at ha hb
  obtain ⟨hi, hai⟩ : ∃ hi : i < items.length, items[i] = a := List.getElem?_eq_some_iff.1 ha
  obtain ⟨hj, hbj⟩ : ∃ hj : j < items.length, items[j] = b := List.getElem?_eq_some_iff.1 hb
  subst hai hbj
  rw [List.zipIdxLE] at hle
  split at hle
  next hforth =>
    refine ⟨hforth, fun hback => ?_⟩
    rw [if_pos hback, decide_eq_true_eq] at hle
    exact List.pairwise_iff_getElem.1 h i j hi hj (Nat.lt_of_le_of_ne hle hne)
  next => cases hle

namespace EvictionUnit

/-! ### The order -/

/-- A unit goes before another one, each with its position among what is offered: it was used
earlier, or at the same time and is larger, or both agree and it was offered earlier. -/
def Precedes (u v : EvictionUnit × ℕ) : Prop :=
  u.1.lastAccess < v.1.lastAccess ∨
    u.1.lastAccess = v.1.lastAccess ∧
      (v.1.size < u.1.size ∨ u.1.size = v.1.size ∧ u.2 < v.2)

theorem goesBefore_iff (u v : EvictionUnit) : u.goesBefore v = true ↔
    u.lastAccess < v.lastAccess ∨ u.lastAccess = v.lastAccess ∧ v.size ≤ u.size := by
  simp [goesBefore]

theorem goesBefore_trans (u v w : EvictionUnit) (huv : u.goesBefore v = true)
    (hvw : v.goesBefore w = true) : u.goesBefore w = true := by
  rw [goesBefore_iff] at huv hvw ⊢
  omega

theorem goesBefore_total (u v : EvictionUnit) : (u.goesBefore v || v.goesBefore u) = true := by
  rw [Bool.or_eq_true, goesBefore_iff, goesBefore_iff]
  omega

theorem Precedes.asymm {u v : EvictionUnit × ℕ} (h : Precedes u v) : ¬ Precedes v u := by
  unfold Precedes at *
  omega

/-- Units that are sorted, and that are still as they were offered where they tie, are in the strict
order. -/
theorem precedes_of_goesBefore {u v : EvictionUnit × ℕ} (h : u.1.goesBefore v.1 = true)
    (hties : v.1.goesBefore u.1 = true → u.2 < v.2) : Precedes u v := by
  rw [goesBefore_iff] at h hties
  unfold Precedes
  omega

/-- The units in the order of eviction, each with its position among what is offered. -/
def ranked (units : List EvictionUnit) : List (EvictionUnit × ℕ) :=
  units.zipIdx.mergeSort fun u v => u.1.goesBefore v.1

theorem ranked_perm (units : List EvictionUnit) : (ranked units).Perm units.zipIdx :=
  List.mergeSort_perm _ _

theorem map_fst_ranked (units : List EvictionUnit) :
    (ranked units).map Prod.fst = inOrder units := by
  rw [ranked, List.map_mergeSort (s := goesBefore) fun _ _ _ _ => rfl, List.zipIdx_map_fst, inOrder]

theorem ranked_pairwise (units : List EvictionUnit) : (ranked units).Pairwise Precedes := by
  have hoffered : units.zipIdx.Pairwise fun u v => u.2 < v.2 := by
    rw [← List.pairwise_map, List.zipIdx_map_snd]
    exact List.pairwise_lt_range'
  refine (pairwise_mergeSort_stable (fun u v w => goesBefore_trans u.1 v.1 w.1)
    (fun u v => goesBefore_total u.1 v.1) hoffered).imp fun h => ?_
  exact precedes_of_goesBefore h.1 h.2

/-! ### How many units are taken -/

/-- All units that are taken but the last one are not enough. -/
theorem sum_dropLast_takeUntil_lt {nbytes : ℕ} {units : List EvictionUnit}
    (hseveral : 1 < (takeUntil nbytes units).length) :
    ((takeUntil nbytes units).dropLast.map size).sum < nbytes := by
  induction units generalizing nbytes with
  | nil => simp [takeUntil] at hseveral
  | cons u units ih =>
    rw [takeUntil] at hseveral ⊢
    split at hseveral
    next => simp at hseveral
    next hmore =>
      rw [if_neg hmore]
      cases hrest : takeUntil (nbytes - u.size) units with
      | nil => simp [hrest] at hseveral
      | cons v rest =>
        rw [List.dropLast_cons_cons, List.map_cons, List.sum_cons]
        cases rest with
        | nil =>
          -- Only the first unit stands before the last one, and it was not enough.
          simpa using hmore
        | cons w rest =>
          have hlt := @ih (nbytes - u.size) (by simp [hrest])
          rw [hrest] at hlt
          omega

theorem takeUntil_eq_nil_iff {nbytes : ℕ} {units : List EvictionUnit} :
    takeUntil nbytes units = [] ↔ units = [] := by
  cases units with
  | nil => simp [takeUntil]
  | cons u units =>
    rw [takeUntil]
    split <;> simp

end EvictionUnit

namespace EvictionPlan

open EvictionUnit

/-- A plan takes a shortest prefix of the sorted units that covers what is asked for. -/
structure IsShortest (units : List EvictionUnit) (nbytes : ℕ) (plan : EvictionPlan)
    (taken left : List (EvictionUnit × ℕ)) : Prop where
  /-- The units that are taken and those that are left are what was offered. -/
  perm : (taken ++ left).Perm units.zipIdx
  /-- Those that are taken are in the order of eviction, and so are those that are left. -/
  sorted : (taken ++ left).Pairwise Precedes
  /-- No unit that is left precedes one that is taken. -/
  not_precedes : ∀ u ∈ taken, ∀ v ∈ left, ¬ Precedes v u
  /-- Something is taken if there is something. -/
  taken_ne_nil : units ≠ [] → taken ≠ []
  /-- The plan counts the sizes of what is taken. -/
  freed_eq : plan.freed = (taken.map fun u => u.1.size).sum
  /-- It covers what is asked for unless everything is taken. -/
  covers : nbytes ≤ plan.freed ∨ left = []
  /-- Nothing that is taken could be left out at the end. -/
  least : 1 < taken.length → (taken.dropLast.map fun u => u.1.size).sum < nbytes
  /-- No proxy is listed twice. -/
  nodup : plan.victims.Nodup
  /-- The proxies that are listed are those of what is taken. -/
  mem_victims : ∀ id, id ∈ plan.victims ↔ ∃ u ∈ taken, id ∈ u.1.proxies
  /-- They are in the order in which the sorted units mention them first. -/
  victims_sorted : plan.victims.Pairwise fun a b =>
    ((taken ++ left).flatMap fun u => u.1.proxies).idxOf a <
      ((taken ++ left).flatMap fun u => u.1.proxies).idxOf b

/-- Whatever is offered and asked for, the plan takes the least recently used units, as few of them
as cover what is asked for. -/
theorem exists_isShortest (units : List EvictionUnit) (nbytes : ℕ) :
    ∃ taken left, taken.map Prod.fst = EvictionUnit.chosen units nbytes ∧
      (make units nbytes).IsShortest units nbytes taken left := by
  -- What is chosen is a prefix of the sorted units; we cut the ranked units at the same place.
  obtain ⟨rest, hrest⟩ := takeUntil_isPrefix nbytes (inOrder units)
  obtain ⟨taken, left, hranked, htaken, hleft⟩ :=
    List.map_eq_append_iff.1 ((map_fst_ranked units).trans hrest.symm)
  have hchosen : EvictionUnit.chosen units nbytes = taken.map Prod.fst := htaken.symm
  have hsorted : (taken ++ left).Pairwise Precedes := hranked ▸ ranked_pairwise units
  have hfreed : (make units nbytes).freed = (taken.map fun u => u.1.size).sum := by
    rw [make, hchosen, List.map_map]
    rfl
  have hvictims : (make units nbytes).victims =
      (taken.flatMap fun u => u.1.proxies).eraseDups := by
    rw [make, hchosen, List.flatMap_map]
  refine ⟨taken, left, htaken, ?_⟩
  refine ⟨hranked ▸ ranked_perm units, hsorted, ?not_precedes, ?taken_ne_nil, hfreed, ?covers,
    ?least, nodup_victims units nbytes, ?mem_victims, ?victims_sorted⟩
  case not_precedes =>
    intro u hu v hv
    exact ((List.pairwise_append.1 hsorted).2.2 u hu v hv).asymm
  case taken_ne_nil =>
    rintro hunits rfl
    have hnone := takeUntil_eq_nil_iff.1 htaken.symm
    exact hunits (List.perm_nil.1 (hnone ▸ (List.mergeSort_perm units goesBefore).symm))
  case covers =>
    rcases le_sum_takeUntil nbytes (inOrder units) with hcovered | hall
    · left
      exact hcovered
    · -- Everything is taken, so there is no rest.
      right
      have hlength := congrArg List.length hrest
      rw [hall, List.length_append, Nat.add_eq_left, List.length_eq_zero_iff] at hlength
      exact List.map_eq_nil_iff.1 (hleft.trans hlength)
  case least =>
    intro hseveral
    have hlt := @sum_dropLast_takeUntil_lt nbytes (inOrder units)
      (by rwa [← htaken, List.length_map])
    rwa [← htaken, ← List.map_dropLast, List.map_map] at hlt
  case mem_victims =>
    intro id
    rw [hvictims, List.mem_eraseDups, List.mem_flatMap]
  case victims_sorted =>
    rw [hvictims, List.flatMap_append]
    apply (pairwise_idxOf_eraseDups _).imp_of_mem
    intro a b ha hb hlt
    rw [List.mem_eraseDups] at ha hb
    rwa [idxOf_append_of_mem ha, idxOf_append_of_mem hb]

end EvictionPlan

end TieredStore
