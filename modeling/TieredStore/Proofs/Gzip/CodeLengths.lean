import Mathlib.Algebra.BigOperators.Group.List.Lemmas
import Mathlib.Algebra.Order.BigOperators.Group.List
import Mathlib.Algebra.Order.Ring.Rat
import Mathlib.Data.List.Nodup
import Mathlib.Tactic.FieldSimp
import Mathlib.Tactic.Linarith
import Mathlib.Tactic.Positivity
import TieredStore.Proofs.Gzip.PrefixCode

/-!
# Code lengths fill the space

The depths in a tree fill the space of all bit sequences exactly. Where depths beyond the limit are
cut to it, the words take up too much space, and each step of `lengthen` frees the space of one
longest word without changing the number of words. As many steps as are needed are possible: words
of the greatest length are left, since each of them was counted for less than one before the cut,
and so is a shorter one, since words of the greatest length alone have room.

## Main definitions

* `Gzip.spaceOf`: the space that words of given lengths take up.
* `Gzip.tally`: a sum over counted words.
* `Gzip.volume`: the part of all bit sequences that a tree takes up.
* `Gzip.Excess`: counted words that take up too much, no more than can be freed.
* `Gzip.usedSymbols`, `Gzip.sortedLengths`: the symbols that get words, and the lengths of these.

## Main results

* `Gzip.depthsOfAll_spec`: a tree fills the space.
* `Gzip.Excess.lengthen`: lengthening frees what is too much.
* `Gzip.spaceOf_codeLengths`: the lengths for two or more symbols fill the space.
* `Gzip.codeLengths_eq_some`, `Gzip.codeLengths_le`: exactly the symbols that occur have words, and
  no word is longer than the limit.
* `Gzip.reads_codeLengths`: the code that is made for symbols reads the words of those that occur.
-/

namespace TieredStore

namespace Gzip

/-- The number of sequences of `limit` bits that start with a word, where the words have the given
lengths, and zero is for no word. -/
def spaceOf (limit : ℕ) (lengths : List ℕ) : ℕ :=
  (lengths.map fun l => if l = 0 then 0 else 2 ^ (limit - l)).sum

@[simp]
theorem spaceOf_cons (limit l : ℕ) (lengths : List ℕ) : spaceOf limit (l :: lengths) =
    (if l = 0 then 0 else 2 ^ (limit - l)) + spaceOf limit lengths := by
  rw [spaceOf, List.map_cons, List.sum_cons, spaceOf]

/-- The space that words take up is counted in longer sequences. -/
theorem spaceOf_add {limit : ℕ} {lengths : List ℕ} (k : ℕ) (h : ∀ l ∈ lengths, l ≤ limit) :
    spaceOf (limit + k) lengths = 2 ^ k * spaceOf limit lengths := by
  induction lengths with
  | nil => rfl
  | cons l lengths ih =>
    obtain ⟨hl, h⟩ := List.forall_mem_cons.1 h
    rw [spaceOf_cons, spaceOf_cons, ih h, Nat.mul_add, mul_ite, Nat.mul_zero, ← Nat.pow_add,
      show k + (limit - l) = limit + k - l by omega]

/-- What the words of one to `limit` bits come to, where `f` is for a word of some length. -/
def tally (limit : ℕ) (f : ℕ → ℕ) (counts : Array ℕ) : ℕ :=
  ∑ k ∈ Finset.range limit, counts.getD (k + 1) 0 * f (k + 1)

theorem share_eq_tally (limit : ℕ) (counts : Array ℕ) :
    share limit counts = tally limit (fun l => 2 ^ (limit - l)) counts := rfl

/-- Words are summed up one by one or length by length. -/
theorem sum_count_mul {limit : ℕ} (f : ℕ → ℕ) {lengths : List ℕ} (h : ∀ l ∈ lengths, l ≤ limit) :
    ∑ k ∈ Finset.range limit, lengths.count (k + 1) * f (k + 1) =
      (lengths.map fun l => if l = 0 then 0 else f l).sum := by
  induction lengths with
  | nil => simp
  | cons l lengths ih =>
    rw [List.forall_mem_cons] at h
    have hone : ∑ k ∈ Finset.range limit, (if l = k + 1 then f (k + 1) else 0) =
        if l = 0 then 0 else f l := by
      obtain rfl | hl := Nat.eq_zero_or_pos l
      · simp
      · obtain ⟨k, rfl⟩ : ∃ k, l = k + 1 := ⟨l - 1, by omega⟩
        have hk : k < limit := h.1
        simp [Finset.sum_ite_eq, hk]
    rw [List.map_cons, List.sum_cons, ← ih h.2, ← hone, ← Finset.sum_add_distrib]
    refine Finset.sum_congr rfl fun k _ => ?_
    rw [List.count_cons, Nat.add_mul, Nat.add_comm]
    simp [beq_iff_eq, ite_mul]

/-- The words of a code take up the space of its lengths. -/
theorem PrefixCode.space_ofLengths {lengths : List ℕ} (h : ∀ l ∈ lengths, l ≤ maxLength) :
    space (ofLengths lengths).counts = spaceOf maxLength lengths := by
  rw [counts_ofLengths, space_map_range, spaceOf, ← sum_count_mul _ h]
  refine Finset.sum_congr rfl fun k _ => ?_
  rw [Nat.sub_sub, Nat.add_comm 1 k]

/-- A code is complete if its words fill the space. -/
theorem PrefixCode.isComplete_ofLengths {lengths : List ℕ} (h : ∀ l ∈ lengths, l ≤ maxLength) :
    (ofLengths lengths).isComplete ↔ spaceOf maxLength lengths = 2 ^ maxLength := by
  rw [← space_ofLengths h, isComplete, beq_iff_eq]
  suffices ((ofLengths lengths).counts.zipIdx.map
      (fun e => e.1 * 2 ^ (maxLength - 1 - e.2))).sum = space (ofLengths lengths).counts by
    rw [this]
  have hindexed : (ofLengths lengths).counts.zipIdx =
      (List.range maxLength).map (fun k => (lengths.count (k + 1), k)) := by
    rw [counts_ofLengths]
    refine List.ext_getElem (by simp) fun k hk _ => ?_
    simp
  rw [hindexed, List.map_map, counts_ofLengths, space_map_range]
  rfl

section Trees

/-- The part of all bit sequences that a tree takes up. -/
def volume (depths : List ℕ) : ℚ := (depths.map fun d => (1 / 2 : ℚ) ^ d).sum

@[simp]
theorem volume_cons (d : ℕ) (depths : List ℕ) :
    volume (d :: depths) = (1 / 2) ^ d + volume depths := by
  rw [volume, List.map_cons, List.sum_cons, volume]

theorem volume_nonneg (depths : List ℕ) : 0 ≤ volume depths := by
  induction depths with
  | nil => exact le_rfl
  | cons d depths ih =>
    rw [volume_cons]
    positivity

theorem volume_join (s t : CodeTree) :
    volume (s.join t).depths = (volume s.depths + volume t.depths) / 2 := by
  have hhalf : ∀ depths : List ℕ, volume (depths.map (· + 1)) = volume depths / 2 := by
    intro depths
    induction depths with
    | nil => simp [volume]
    | cons d depths ih =>
      rw [List.map_cons, volume_cons, volume_cons, ih, pow_succ]
      ring
  rw [CodeTree.join, hhalf, volume, List.map_append, List.sum_append]
  rfl

theorem perm_insert (t : CodeTree) (ts : List CodeTree) : (t.insert ts).Perm (t :: ts) := by
  induction ts with
  | nil => exact .refl _
  | cons u ts ih =>
    unfold CodeTree.insert
    split
    · exact (ih.cons u).trans (.swap t u ts)
    · exact .refl _

/-- Joining trees that fill the space gives one that does, with all their leaves. -/
theorem depthsOfAll_spec {ts : List CodeTree} (hts : ts ≠ [])
    (hvolume : ∀ t ∈ ts, volume t.depths = 1) :
    volume (CodeTree.depthsOfAll ts) = 1 ∧
      (CodeTree.depthsOfAll ts).length = (ts.map fun t => t.depths.length).sum := by
  induction ts using CodeTree.depthsOfAll.induct with
  | case1 => exact (hts rfl).elim
  | case2 t => simpa [CodeTree.depthsOfAll] using hvolume
  | case3 s t us ih =>
    have hperm := perm_insert (s.join t) us
    have hjoin : volume (s.join t).depths = 1 := by
      rw [volume_join, hvolume s (by simp), hvolume t (by simp)]
      norm_num
    have hne : (s.join t).insert us ≠ [] := fun hnil => by
      rw [hnil] at hperm
      exact List.cons_ne_nil _ _ hperm.symm.eq_nil
    obtain ⟨hfilled, hlength⟩ := ih hne fun u hu => by
      obtain rfl | hu := List.mem_cons.1 (hperm.mem_iff.1 hu)
      · exact hjoin
      · exact hvolume u (by simp [hu])
    rw [CodeTree.depthsOfAll]
    refine ⟨hfilled, ?_⟩
    rw [hlength, (hperm.map _).sum_eq]
    simp [CodeTree.join, Nat.add_assoc]

/-- In a tree with two leaves or more, no leaf is the root. -/
theorem zero_notMem_of_volume {depths : List ℕ} (hvolume : volume depths = 1)
    (htwo : 2 ≤ depths.length) : 0 ∉ depths := by
  intro hmem
  have hperm := List.perm_cons_erase hmem
  obtain ⟨d, rest, hrest⟩ : ∃ d rest, depths.erase 0 = d :: rest := by
    have hlength := hperm.length_eq
    rw [List.length_cons] at hlength
    exact List.exists_cons_of_length_pos (by omega)
  have hsame : volume depths = volume (0 :: d :: rest) := by
    rw [volume, (hperm.map _).sum_eq, hrest, volume]
  rw [hvolume, volume_cons, volume_cons, pow_zero] at hsame
  have hd : (0 : ℚ) < (1 / 2) ^ d := by positivity
  have := volume_nonneg rest
  linarith

/-- A word whose depth is cut takes up at least its part of the sequences, and at most one sequence
more. -/
theorem spaceOf_capped_bounds (limit : ℕ) {depths : List ℕ} (hlimit : 0 < limit)
    (hroot : 0 ∉ depths) :
    2 ^ limit * volume depths ≤ spaceOf limit (depths.map (min · limit)) ∧
      (spaceOf limit (depths.map (min · limit)) : ℚ) ≤
        2 ^ limit * volume depths + (depths.map (min · limit)).count limit := by
  induction depths with
  | nil => simp [spaceOf, volume]
  | cons d depths ih =>
    obtain ⟨hd, hroot⟩ : 0 ≠ d ∧ 0 ∉ depths := by simpa using hroot
    obtain ⟨hlow, hhigh⟩ := ih hroot
    have hpos : (0 : ℚ) < 2 ^ limit * (1 / 2) ^ d := by positivity
    simp only [List.map_cons, spaceOf_cons, volume_cons, List.count_cons, beq_iff_eq,
      if_neg (show min d limit ≠ 0 by omega), Nat.cast_add]
    by_cases hle : d < limit
    · -- A word within the limit takes up its part.
      have hpart : ((2 ^ (limit - min d limit) : ℕ) : ℚ) = 2 ^ limit * (1 / 2) ^ d := by
        rw [Nat.min_eq_left hle.le]
        push_cast
        rw [one_div, inv_pow, ← div_eq_mul_inv, pow_sub₀ _ two_ne_zero hle.le, div_eq_mul_inv]
      rw [if_neg (by omega)]
      push_cast at hpart ⊢
      constructor <;> linarith
    · -- A word that is cut takes up one sequence, and its part is no more than that.
      have hpart : (2 : ℚ) ^ limit * (1 / 2) ^ d ≤ 1 := by
        rw [one_div, inv_pow, ← div_eq_mul_inv]
        exact (div_le_one (by positivity)).2 (pow_le_pow_right₀ one_le_two (by omega))
      rw [if_pos (by omega), Nat.min_eq_right (by omega), Nat.sub_self, pow_zero]
      push_cast
      constructor <;> linarith

/-- Cutting depths to a limit makes the words take up too much, but by no more than one longest word
for each word of the greatest length. -/
theorem spaceOf_capped {limit : ℕ} {depths : List ℕ} (hlimit : 0 < limit)
    (hvolume : volume depths = 1) (hroot : 0 ∉ depths) :
    2 ^ limit ≤ spaceOf limit (depths.map (min · limit)) ∧
      spaceOf limit (depths.map (min · limit)) ≤
        2 ^ limit + (depths.map (min · limit)).count limit := by
  obtain ⟨hlow, hhigh⟩ := spaceOf_capped_bounds limit hlimit hroot
  rw [hvolume, mul_one] at hlow hhigh
  exact ⟨by exact_mod_cast hlow, by exact_mod_cast hhigh⟩

end Trees

section Lengthening

/-- A change at one length changes a sum over counted words by what the change comes to. -/
theorem tally_modify {limit : ℕ} (f : ℕ → ℕ) {counts : Array ℕ} {l : ℕ} (g : ℕ → ℕ) (hpos : 0 < l)
    (hle : l ≤ limit) (hsize : counts.size = limit + 1) :
    tally limit f (counts.modify l g) + counts.getD l 0 * f l =
      tally limit f counts + g (counts.getD l 0) * f l := by
  obtain ⟨k, rfl⟩ : ∃ k, l = k + 1 := ⟨l - 1, by omega⟩
  have hmem : k ∈ Finset.range limit := Finset.mem_range.2 hle
  have hothers : ∀ j ∈ (Finset.range limit).erase k,
      (counts.modify (k + 1) g).getD (j + 1) 0 * f (j + 1) = counts.getD (j + 1) 0 * f (j + 1) := by
    intro j hj
    have hne : k + 1 ≠ j + 1 := by
      have := (Finset.mem_erase.1 hj).1
      omega
    simp only [Array.getD_eq_getD_getElem?, Array.getElem?_modify, if_neg hne]
  have hat : (counts.modify (k + 1) g).getD (k + 1) 0 = g (counts.getD (k + 1) 0) := by
    have hk : k + 1 < counts.size := by omega
    simp [Array.getD_eq_getD_getElem?, Array.getElem_modify, hk]
  rw [tally, tally, ← Finset.add_sum_erase _ _ hmem, ← Finset.add_sum_erase _ _ hmem,
    Finset.sum_congr rfl hothers, hat]
  ring

/-- Counted words that take up `excess` sequences too much, no more than there are longest words. -/
structure Excess (limit words excess : ℕ) (counts : Array ℕ) : Prop where
  /-- Every length up to the limit has a count. -/
  size : counts.size = limit + 1
  /-- This many words are counted. -/
  total : tally limit (fun _ => 1) counts = words
  /-- The words take up so much more than there is. -/
  share : share limit counts = 2 ^ limit + excess
  /-- There is a longest word for each step of lengthening. -/
  le_longest : excess ≤ counts.getD limit 0

/-- The longest words alone have room, so that there is a shorter one where words take up too
much. -/
theorem Excess.exists_shorter {limit words excess : ℕ} {counts : Array ℕ}
    (h : Excess limit words (excess + 1) counts) (hroom : words ≤ 2 ^ limit) :
    ∃ k < limit, 0 < k ∧ 0 < counts.getD k 0 ∧
      lengthenOne limit counts =
        ((counts.modify limit (· - 1)).modify k (· - 1)).modify (k + 1) (· + 2) := by
  obtain ⟨k, hk⟩ : ∃ k, (List.range limit).reverse.find?
      (fun k => k != 0 && counts.getD k 0 != 0) = some k := by
    by_contra! hnone
    have hzero : ∀ k < limit, k ≠ 0 → counts.getD k 0 = 0 := by
      have hfind := List.find?_eq_none.1 (Option.eq_none_iff_forall_ne_some.2 hnone)
      intro k hk hpos
      simpa [hpos] using hfind k (by simpa using hk)
    -- Each word would take up one sequence then, and there are not that many words.
    have hsame : Gzip.share limit counts = tally limit (fun _ => 1) counts := by
      rw [share_eq_tally]
      refine Finset.sum_congr rfl fun k hk => ?_
      obtain hlt | heq : k + 1 < limit ∨ k + 1 = limit := by
        have := Finset.mem_range.1 hk
        omega
      · rw [hzero (k + 1) hlt (Nat.succ_ne_zero k), Nat.zero_mul, Nat.zero_mul]
      · simp only [heq, Nat.sub_self, pow_zero]
    have := h.share
    rw [hsame, h.total] at this
    omega
  obtain ⟨hpos, hused⟩ : k ≠ 0 ∧ counts.getD k 0 ≠ 0 := by simpa using List.find?_some hk
  have hlt : k < limit := by simpa using List.mem_of_find?_eq_some hk
  exact ⟨k, hlt, Nat.pos_of_ne_zero hpos, Nat.pos_of_ne_zero hused, by
    simp only [Gzip.lengthenOne, hk]⟩

/-- A longest word and a word of `k` bits are taken away, and two words of `k + 1` bits are added.
-/
theorem tally_lengthened {limit k : ℕ} {counts : Array ℕ} (f : ℕ → ℕ)
    (hsize : counts.size = limit + 1) (hlt : k < limit) (hpos : 0 < k)
    (hlongest : 0 < counts.getD limit 0) (hused : 0 < counts.getD k 0) :
    tally limit f (((counts.modify limit (· - 1)).modify k (· - 1)).modify (k + 1) (· + 2)) +
      f limit + f k = tally limit f counts + 2 * f (k + 1) := by
  have hfound : (counts.modify limit (· - 1)).getD k 0 = counts.getD k 0 := by
    simp only [Array.getD_eq_getD_getElem?, Array.getElem?_modify, if_neg (Nat.ne_of_gt hlt)]
  have hsize₁ : (counts.modify limit (· - 1)).size = limit + 1 := by
    rw [Array.size_modify, hsize]
  have hsize₂ : ((counts.modify limit (· - 1)).modify k (· - 1)).size = limit + 1 := by
    rw [Array.size_modify, hsize₁]
  have h₁ := tally_modify f (· - 1) (hpos.trans hlt) le_rfl hsize
  have h₂ := tally_modify f (· - 1) hpos hlt.le hsize₁
  have h₃ := tally_modify f (· + 2) (Nat.add_one_pos k) hlt hsize₂
  obtain ⟨a, ha⟩ := Nat.exists_eq_add_one_of_ne_zero hlongest.ne'
  obtain ⟨b, hb⟩ := Nat.exists_eq_add_one_of_ne_zero hused.ne'
  rw [ha, Nat.add_sub_cancel, Nat.add_mul, Nat.one_mul] at h₁
  rw [hfound, hb, Nat.add_sub_cancel, Nat.add_mul, Nat.one_mul] at h₂
  rw [Nat.add_mul] at h₃
  omega

/-- One step frees the space of one longest word. -/
theorem Excess.lengthenOne {limit words excess : ℕ} {counts : Array ℕ}
    (h : Excess limit words (excess + 1) counts) (hroom : words ≤ 2 ^ limit) :
    Excess limit words excess (lengthenOne limit counts) := by
  have hlongest : 0 < counts.getD limit 0 := (Nat.zero_lt_succ excess).trans_le h.le_longest
  obtain ⟨k, hlt, hpos, hused, hstep⟩ := h.exists_shorter hroom
  have hsum := fun f => tally_lengthened f h.size hlt hpos hlongest hused
  rw [hstep]
  refine ⟨by simp only [Array.size_modify, h.size], ?_, ?_, ?_⟩
  · -- Two words go and two come.
    have := hsum fun _ => 1
    rw [← h.total]
    omega
  · -- The two that come take up as much as the shorter one that goes.
    have hshare := hsum fun l => 2 ^ (limit - l)
    have hdouble : 2 ^ (limit - k) = 2 * 2 ^ (limit - (k + 1)) := by
      rw [← Nat.pow_succ', show (limit - (k + 1)).succ = limit - k by omega]
    have hbefore := h.share
    rw [share_eq_tally] at hbefore ⊢
    simp only [Nat.sub_self, pow_zero] at hshare
    omega
  · -- One longest word goes, and the two that come may be longest words themselves.
    have hleft : counts.getD limit 0 - 1 ≤ (((counts.modify limit (· - 1)).modify k
        (· - 1)).modify (k + 1) (· + 2)).getD limit 0 := by
      have hlimit : limit < counts.size := h.size ▸ Nat.lt_succ_self limit
      simp only [Array.getD_eq_getD_getElem?, Array.getElem?_modify, if_neg hlt.ne]
      split <;> simp [hlimit]
    have := h.le_longest
    omega

/-- Lengthening frees what is too much. -/
theorem Excess.lengthen {limit words excess : ℕ} {counts : Array ℕ}
    (h : Excess limit words excess counts) (hroom : words ≤ 2 ^ limit) :
    Excess limit words 0 (lengthen limit excess counts) := by
  induction excess generalizing counts with
  | zero => exact h
  | succ excess ih => exact ih (h.lengthenOne hroom)

theorem getD_cappedCounts {limit : ℕ} (depths : List ℕ) {k : ℕ} (hk : k ≤ limit) :
    (cappedCounts limit depths).getD k 0 = (depths.map (min · limit)).count k := by
  have hlt : k < limit + 1 := Nat.lt_succ_of_le hk
  simp [cappedCounts, Array.getD_eq_getD_getElem?, hlt, List.count, List.countP_map,
    Function.comp_def]

/-- A sum over the counted words is one over the depths as they were cut. -/
theorem tally_cappedCounts {limit : ℕ} (f : ℕ → ℕ) (depths : List ℕ) :
    tally limit f (cappedCounts limit depths) =
      ((depths.map (min · limit)).map fun l => if l = 0 then 0 else f l).sum := by
  have hcapped : ∀ l ∈ depths.map (min · limit), l ≤ limit := fun l hl => by
    obtain ⟨d, -, rfl⟩ := List.mem_map.1 hl
    exact Nat.min_le_right d limit
  rw [← sum_count_mul f hcapped]
  refine Finset.sum_congr rfl fun k hk => ?_
  rw [getD_cappedCounts depths (Finset.mem_range.1 hk)]

/-- The cut depths of a tree, counted: they take up too much, but not more than lengthening can
free. -/
theorem excess_cappedCounts {limit : ℕ} {depths : List ℕ} (hlimit : 0 < limit)
    (hvolume : volume depths = 1) (hroot : 0 ∉ depths) :
    Excess limit depths.length (share limit (cappedCounts limit depths) - 2 ^ limit)
      (cappedCounts limit depths) := by
  have hpos : ∀ l ∈ depths.map (min · limit), l ≠ 0 := fun l hl => by
    obtain ⟨d, hd, rfl⟩ := List.mem_map.1 hl
    have : d ≠ 0 := fun h => hroot (h ▸ hd)
    omega
  have hshare : share limit (cappedCounts limit depths) =
      spaceOf limit (depths.map (min · limit)) := by
    rw [share_eq_tally, tally_cappedCounts, spaceOf]
  have htotal : tally limit (fun _ => 1) (cappedCounts limit depths) = depths.length := by
    rw [tally_cappedCounts, List.map_congr_left fun l hl => if_neg (hpos l hl)]
    simp [Function.comp_def]
  obtain ⟨hlow, hhigh⟩ := spaceOf_capped hlimit hvolume hroot
  rw [hshare]
  refine ⟨by simp [cappedCounts], htotal, by omega, ?_⟩
  rw [getD_cappedCounts depths le_rfl]
  omega

end Lengthening

section Assignment

theorem lookup_eq_none {given : List (ℕ × ℕ)} {s : ℕ} (h : s ∉ given.map Prod.fst) :
    given.lookup s = none := by
  refine List.lookup_eq_none_iff.2 fun e he => ?_
  rw [bne_iff_ne]
  rintro rfl
  exact h (List.mem_map_of_mem he)

/-- Numbers that are found under distinct keys, summed up by key. -/
theorem sum_lookup {given : List (ℕ × ℕ)} {n : ℕ} {f : ℕ → ℕ} (hf : f 0 = 0)
    (hnodup : (given.map Prod.fst).Nodup) (hlt : ∀ e ∈ given, e.1 < n) :
    ((List.range n).map fun s => f ((given.lookup s).getD 0)).sum =
      (given.map fun e => f e.2).sum := by
  induction given with
  | nil => simp [hf]
  | cons e given ih =>
    obtain ⟨key, l⟩ := e
    obtain ⟨hfresh, hnodup⟩ := List.nodup_cons.1 hnodup
    rw [List.forall_mem_cons] at hlt
    have hsplit : ∀ s, f ((((key, l) :: given).lookup s).getD 0) =
        (if s = key then f l else 0) + f ((given.lookup s).getD 0) := by
      intro s
      by_cases hs : s = key
      · simp [hs, lookup_eq_none hfresh, hf]
      · simp [hs, List.lookup_cons, beq_eq_false_iff_ne.2 hs]
    have hsingle : ((List.range n).map fun s => if s = key then f l else 0).sum = f l :=
      (Finset.sum_ite_eq' (Finset.range n) key fun _ => f l).trans
        (if_pos (Finset.mem_range.2 hlt.1))
    rw [List.map_congr_left fun s _ => hsplit s, List.sum_map_add, ih hnodup hlt.2, hsingle,
      List.map_cons, List.sum_cons]

/-- A key among those that are given is found, with a number that is given. -/
theorem exists_lookup_eq {given : List (ℕ × ℕ)} {s : ℕ} (h : s ∈ given.map Prod.fst) :
    ∃ l, (s, l) ∈ given ∧ given.lookup s = some l := by
  induction given with
  | nil => cases h
  | cons e given ih =>
    obtain ⟨key, l⟩ := e
    by_cases hs : s = key
    · exact ⟨l, hs ▸ List.mem_cons_self, by simp [hs]⟩
    · obtain ⟨m, hm, hlookup⟩ := ih (by simpa [hs] using h)
      exact ⟨m, List.mem_cons_of_mem _ hm,
        by simpa [List.lookup_cons, beq_eq_false_iff_ne.2 hs] using hlookup⟩

/-- Numbers that are given by a function are found in any order. -/
theorem getD_lookup_reverse_map (f : ℕ → ℕ) (symbols : List ℕ) (s : ℕ) :
    ((symbols.map fun s => (s, f s)).reverse.lookup s).getD 0 = if s ∈ symbols then f s else 0 := by
  have hkeys : s ∈ (symbols.map fun s => (s, f s)).reverse.map Prod.fst ↔ s ∈ symbols := by
    simp
  split
  next hs =>
    obtain ⟨l, hl, hlookup⟩ := exists_lookup_eq (hkeys.2 hs)
    obtain ⟨_, -, heq⟩ := List.mem_map.1 (List.mem_reverse.1 hl)
    rw [Prod.mk.injEq] at heq
    rw [hlookup, Option.getD_some, ← heq.2, heq.1]
  next hs => rw [lookup_eq_none fun h => hs (hkeys.1 h), Option.getD_none]

/-- The lengths of counted words, the shortest first. -/
def sortedLengths (limit : ℕ) (counts : Array ℕ) : List ℕ :=
  (List.range limit).flatMap (fun k => List.replicate (counts.getD (k + 1) 0) (k + 1))

/-- The lengths that words were counted with come to what the counts come to. -/
theorem sum_sortedLengths (limit : ℕ) (f : ℕ → ℕ) (counts : Array ℕ) :
    ((sortedLengths limit counts).map f).sum = tally limit f counts := by
  rw [sortedLengths, List.map_flatMap, List.flatMap, List.sum_flatten, List.map_map]
  exact congrArg List.sum (List.map_congr_left fun k _ => by simp)

theorem length_sortedLengths (limit : ℕ) (counts : Array ℕ) :
    (sortedLengths limit counts).length = tally limit (fun _ => 1) counts := by
  simp [← sum_sortedLengths]

/-- No counted word is empty, and none is longer than the limit. -/
theorem mem_sortedLengths {limit l : ℕ} {counts : Array ℕ} (h : l ∈ sortedLengths limit counts) :
    0 < l ∧ l ≤ limit := by
  obtain ⟨k, hk, hreplicate⟩ := List.mem_flatMap.1 h
  rw [(List.mem_replicate.1 hreplicate).2]
  exact ⟨Nat.succ_pos k, List.mem_range.1 hk⟩

/-- The symbols that occur, each behind how often it does, the rarest first. -/
def usedSymbols (occurrences : List ℕ) : List (ℕ × ℕ) :=
  (occurrences.zipIdx.filter (fun e => e.1 != 0)).mergeSort (fun a b => a.1 ≤ b.1)

variable {limit : ℕ} {occurrences : List ℕ}

theorem mem_usedSymbols {n s : ℕ} :
    (n, s) ∈ usedSymbols occurrences ↔ occurrences[s]? = some n ∧ n ≠ 0 := by
  rw [usedSymbols, List.mem_mergeSort, List.mem_filter, List.mem_zipIdx_iff_getElem?, bne_iff_ne]

/-- No symbol is listed twice. -/
theorem nodup_usedSymbols (occurrences : List ℕ) :
    ((usedSymbols occurrences).map Prod.snd).Nodup := by
  refine ((List.mergeSort_perm _ _).map Prod.snd).nodup_iff.2 ?_
  refine List.Nodup.sublist (List.filter_sublist.map _) ?_
  rw [List.zipIdx_map_snd]
  exact List.nodup_range'

/-- How many symbols occur. -/
theorem length_usedSymbols (occurrences : List ℕ) :
    (usedSymbols occurrences).length = occurrences.countP (· != 0) := by
  have hcount : (occurrences.zipIdx.map Prod.fst).countP (· != 0) =
      occurrences.countP (· != 0) := by
    rw [List.zipIdx_map_fst]
  rw [usedSymbols, List.length_mergeSort, ← hcount, List.countP_map, List.countP_eq_length_filter]
  rfl

/-- At most one symbol gets a word of one bit. -/
theorem codeLengths_of_countP_le (h : occurrences.countP (· != 0) ≤ 1) :
    codeLengths limit occurrences = occurrences.map (fun n => if n = 0 then 0 else 1) := by
  rw [← length_usedSymbols] at h
  exact if_pos h

/-- The depths of as many leaves as there are words, two or more, are cut and lengthened until the
words fill the space. -/
theorem excess_lengthen_depthsOfAll (weights : List ℕ) (hlimit : 0 < limit)
    (htwo : 2 ≤ weights.length) (hroom : weights.length ≤ 2 ^ limit) :
    let counts := cappedCounts limit (CodeTree.depthsOfAll (weights.map fun n => ⟨n, [0]⟩))
    Excess limit weights.length 0 (lengthen limit (share limit counts - 2 ^ limit) counts) := by
  intro counts
  have hne : weights.map (fun n => (⟨n, [0]⟩ : CodeTree)) ≠ [] := fun hnil => by
    rw [List.map_eq_nil_iff] at hnil
    simp [hnil] at htwo
  obtain ⟨hvolume, hdepths⟩ := depthsOfAll_spec hne fun t ht => by
    obtain ⟨n, -, rfl⟩ := List.mem_map.1 ht
    simp [volume]
  have hlength : (CodeTree.depthsOfAll (weights.map fun n => ⟨n, [0]⟩)).length =
      weights.length := by
    simpa [Function.comp_def] using hdepths
  have hexcess := excess_cappedCounts hlimit hvolume
    (zero_notMem_of_volume hvolume (hlength ▸ htwo))
  rw [hlength] at hexcess
  exact hexcess.lengthen hroom

/-- The rarest symbols get the longest of the words that were counted, which fill the space. -/
theorem exists_counts (hlimit : 0 < limit) (hroom : occurrences.length ≤ 2 ^ limit)
    (htwo : 2 ≤ occurrences.countP (· != 0)) :
    ∃ counts, Excess limit (usedSymbols occurrences).length 0 counts ∧
      codeLengths limit occurrences = (List.range occurrences.length).map fun s =>
        ((((usedSymbols occurrences).reverse.map Prod.snd).zip
          (sortedLengths limit counts)).lookup s).getD 0 := by
  have hlength := length_usedSymbols occurrences
  have hwords : (usedSymbols occurrences).length ≤ 2 ^ limit := by
    rw [hlength]
    exact List.countP_le_length.trans hroom
  have hcounts := excess_lengthen_depthsOfAll ((usedSymbols occurrences).map Prod.fst) hlimit
    (by rwa [List.length_map, hlength]) (by rwa [List.length_map])
  rw [List.length_map, List.map_map] at hcounts
  have hmany : ¬ (usedSymbols occurrences).length ≤ 1 := by omega
  exact ⟨_, hcounts, if_neg hmany⟩

/-- How two or more symbols get their words: each symbol that occurs is given the length of a word
of its own, and the words fill the space. -/
theorem exists_given (hlimit : 0 < limit) (hroom : occurrences.length ≤ 2 ^ limit)
    (htwo : 2 ≤ occurrences.countP (· != 0)) :
    ∃ given : List (ℕ × ℕ),
      codeLengths limit occurrences =
        (List.range occurrences.length).map (fun s => (given.lookup s).getD 0) ∧
      (given.map Prod.fst).Nodup ∧
      (∀ s, s ∈ given.map Prod.fst ↔ ∃ n, occurrences[s]? = some n ∧ n ≠ 0) ∧
      (∀ e ∈ given, 0 < e.2 ∧ e.2 ≤ limit) ∧
      (given.map fun e => 2 ^ (limit - e.2)).sum = 2 ^ limit := by
  obtain ⟨counts, hcounts, hlengths⟩ := exists_counts hlimit hroom htwo
  -- There are as many words as symbols, so that none of either is left over.
  have hsame : ((usedSymbols occurrences).reverse.map Prod.snd).length =
      (sortedLengths limit counts).length := by
    rw [length_sortedLengths, hcounts.total, List.length_map, List.length_reverse]
  refine ⟨_, hlengths, ?_, fun s => ?_, fun e he => mem_sortedLengths (List.of_mem_zip he).2, ?_⟩
  · rw [List.map_fst_zip hsame.le, List.map_reverse, List.nodup_reverse]
    exact nodup_usedSymbols occurrences
  · rw [List.map_fst_zip hsame.le]
    simp only [List.map_reverse, List.mem_reverse, List.mem_map, Prod.exists, mem_usedSymbols]
    constructor
    · rintro ⟨n, _, h, rfl⟩
      exact ⟨n, h⟩
    · rintro ⟨n, h⟩
      exact ⟨n, s, h, rfl⟩
  · have hsum := sum_sortedLengths limit (fun l => 2 ^ (limit - l)) counts
    rw [← List.map_snd_zip hsame.ge, List.map_map, ← share_eq_tally, hcounts.share,
      Nat.add_zero] at hsum
    exact hsum

/-- The words for two or more symbols fill the space. -/
theorem spaceOf_codeLengths (hlimit : 0 < limit) (hroom : occurrences.length ≤ 2 ^ limit)
    (htwo : 2 ≤ occurrences.countP (· != 0)) :
    spaceOf limit (codeLengths limit occurrences) = 2 ^ limit := by
  obtain ⟨given, hgiven, hnodup, hkeys, hbounds, hfilled⟩ := exists_given hlimit hroom htwo
  have hlt : ∀ e ∈ given, e.1 < occurrences.length := fun e he => by
    obtain ⟨n, hn, -⟩ := (hkeys e.1).1 (List.mem_map_of_mem he)
    exact (List.getElem?_eq_some_iff.1 hn).1
  rw [hgiven, spaceOf, List.map_map, ← hfilled]
  refine (sum_lookup (f := fun l => if l = 0 then 0 else 2 ^ (limit - l)) (if_pos rfl) hnodup
    hlt).trans ?_
  exact congrArg List.sum (List.map_congr_left fun e he => if_neg (hbounds e he).1.ne')

/-- No word is longer than the limit. -/
theorem codeLengths_le (hlimit : 0 < limit) (hroom : occurrences.length ≤ 2 ^ limit) :
    ∀ l ∈ codeLengths limit occurrences, l ≤ limit := by
  intro l hl
  obtain hone | htwo := Nat.lt_or_ge (occurrences.countP (· != 0)) 2
  · rw [codeLengths_of_countP_le (Nat.le_of_lt_succ hone)] at hl
    obtain ⟨n, -, rfl⟩ := List.mem_map.1 hl
    split <;> omega
  · obtain ⟨given, hgiven, -, -, hbounds, -⟩ := exists_given hlimit hroom htwo
    rw [hgiven] at hl
    obtain ⟨s, -, rfl⟩ := List.mem_map.1 hl
    by_cases hs : s ∈ given.map Prod.fst
    · obtain ⟨l, hl, hlookup⟩ := exists_lookup_eq hs
      rw [hlookup]
      exact (hbounds (s, l) hl).2
    · rw [lookup_eq_none hs]
      exact Nat.zero_le limit

/-- Exactly the symbols that occur have words. -/
theorem codeLengths_eq_some (hlimit : 0 < limit) (hroom : occurrences.length ≤ 2 ^ limit) {n s : ℕ}
    (hs : occurrences[s]? = some n) :
    ∃ l, (codeLengths limit occurrences)[s]? = some l ∧ (l = 0 ↔ n = 0) := by
  have hlt : s < occurrences.length := (List.getElem?_eq_some_iff.1 hs).1
  obtain hone | htwo := Nat.lt_or_ge (occurrences.countP (· != 0)) 2
  · rw [codeLengths_of_countP_le (Nat.le_of_lt_succ hone)]
    exact ⟨if n = 0 then 0 else 1, by rw [List.getElem?_map, hs, Option.map_some], by simp⟩
  · obtain ⟨given, hgiven, -, hkeys, hbounds, -⟩ := exists_given hlimit hroom htwo
    refine ⟨(given.lookup s).getD 0,
      by rw [hgiven, List.getElem?_map, List.getElem?_range hlt, Option.map_some], ?_⟩
    by_cases hn : n = 0
    · have hunused : s ∉ given.map Prod.fst := fun hmem => by
        obtain ⟨m, hm, hpos⟩ := (hkeys s).1 hmem
        rw [hs] at hm
        exact hpos (Option.some.inj hm ▸ hn)
      simp [lookup_eq_none hunused, hn]
    · obtain ⟨l, hl, hlookup⟩ := exists_lookup_eq ((hkeys s).2 ⟨n, hs, hn⟩)
      simp [hlookup, hn, (hbounds (s, l) hl).1.ne']

/-- The space of words of one bit. -/
theorem spaceOf_map_one (limit : ℕ) (occurrences : List ℕ) :
    spaceOf limit (occurrences.map fun n => if n = 0 then 0 else 1) =
      occurrences.countP (· != 0) * 2 ^ (limit - 1) := by
  induction occurrences with
  | nil => simp [spaceOf]
  | cons n occurrences ih =>
    rw [List.map_cons, spaceOf_cons, ih, List.countP_cons]
    by_cases hn : n = 0
    · simp [hn]
    · simp [hn, Nat.add_mul, Nat.add_comm]

/-- The words of a code that is made for symbols have room. -/
theorem spaceOf_codeLengths_le (hlimit : 0 < limit) (hroom : occurrences.length ≤ 2 ^ limit) :
    spaceOf limit (codeLengths limit occurrences) ≤ 2 ^ limit := by
  obtain hone | htwo := Nat.lt_or_ge (occurrences.countP (· != 0)) 2
  · rw [codeLengths_of_countP_le (Nat.le_of_lt_succ hone), spaceOf_map_one]
    calc occurrences.countP (· != 0) * 2 ^ (limit - 1)
        ≤ 1 * 2 ^ (limit - 1) := Nat.mul_le_mul_right _ (Nat.le_of_lt_succ hone)
      _ ≤ 2 ^ limit := by
        rw [Nat.one_mul]
        exact Nat.pow_le_pow_right Nat.two_pos (Nat.sub_le limit 1)
  · exact (spaceOf_codeLengths hlimit hroom htwo).le

/-- The code that is made for symbols reads the words of those that occur. -/
theorem reads_codeLengths (hlimit : 0 < limit) (hle : limit ≤ PrefixCode.maxLength)
    (hroom : occurrences.length ≤ 2 ^ limit) {n s : ℕ} (hs : occurrences[s]? = some n)
    (hn : n ≠ 0) : (PrefixCode.ofLengths (codeLengths limit occurrences)).Reads
      (wordsOf (codeLengths limit occurrences)) s := by
  obtain ⟨l, hl, hzero⟩ := codeLengths_eq_some hlimit hroom hs
  have hshort : ∀ l ∈ codeLengths limit occurrences, l ≤ limit := codeLengths_le hlimit hroom
  refine PrefixCode.reads_wordsOf _ ?_ hl (Nat.pos_of_ne_zero fun h => hn (hzero.1 h))
    ((hshort l (List.mem_of_getElem? hl)).trans hle)
  rw [PrefixCode.space_ofLengths fun l hl => (hshort l hl).trans hle]
  obtain ⟨k, hk⟩ := Nat.exists_eq_add_of_le hle
  rw [hk, spaceOf_add k hshort, Nat.pow_add, Nat.mul_comm (2 ^ limit)]
  exact Nat.mul_le_mul_left _ (spaceOf_codeLengths_le hlimit hroom)

end Assignment

end Gzip

end TieredStore
