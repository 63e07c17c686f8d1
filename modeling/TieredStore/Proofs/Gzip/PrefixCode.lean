import Mathlib.Algebra.BigOperators.Ring.Finset
import Mathlib.Tactic.Ring
import TieredStore.Gzip.Deflate
import TieredStore.Proofs.Gzip.Bits

/-!
# Code words are read back

The words of a canonical code are consecutive numbers, length by length, and the reader compares
what it has read with the first number that is not a word. If the words do not take up more than
all bit sequences, the reader finds the symbol of each word, whatever follows the word.

## Main definitions

* `Gzip.PrefixCode.space`: the bit sequences that start with a word, counted in longest words.
* `Gzip.PrefixCode.Reads`: a code reads the word of a symbol in a table.

## Main results

* `Gzip.PrefixCode.exists_decodeFrom`: what the reader does with a word, one length at a time.
* `Gzip.PrefixCode.reads_wordsOf`: the code with given lengths reads the word of each symbol that
  has one.
-/

namespace TieredStore

namespace Gzip

/-- What is set once, under a place of its own, is found there. -/
theorem getD_foldl_setIfInBounds {α : Type} {entries : List (ℕ × α)} {table : Array α} {s : ℕ}
    {a default : α} (hnodup : (entries.map Prod.fst).Nodup) (hs : s < table.size)
    (h : (s, a) ∈ entries ∨ table.getD s default = a ∧ s ∉ entries.map Prod.fst) :
    (entries.foldl (fun table e => table.setIfInBounds e.1 e.2) table).getD s default = a := by
  induction entries generalizing table with
  | nil => simpa using h
  | cons e entries ih =>
    obtain ⟨hfresh, hnodup⟩ := List.nodup_cons.1 hnodup
    refine ih hnodup (by simpa using hs) ?_
    obtain hmem | ⟨hfound, hs'⟩ := h
    · obtain rfl | hmem := List.mem_cons.1 hmem
      · exact .inr ⟨by simp [Array.getD_eq_getD_getElem?, hs], hfresh⟩
      · exact .inl hmem
    · obtain ⟨hne, hs'⟩ : s ≠ e.1 ∧ s ∉ entries.map Prod.fst := by simpa using hs'
      refine .inr ⟨?_, hs'⟩
      rw [Array.getD_eq_getD_getElem?, Array.getElem?_setIfInBounds_ne (Ne.symm hne),
        ← Array.getD_eq_getD_getElem?, hfound]

namespace PrefixCode

open words (wordsFrom)

/-- The number of bit sequences as long as there are lengths that start with one of the words,
where the lengths have so many words each. -/
def space : List ℕ → ℕ
  | [] => 0
  | count :: counts => count * 2 ^ counts.length + space counts

theorem space_concat (counts : List ℕ) (count : ℕ) :
    space (counts ++ [count]) = 2 * space counts + count := by
  induction counts with
  | nil => simp [space]
  | cons head counts ih =>
    rw [List.cons_append, space, space, ih, List.length_append, List.length_singleton,
      Nat.pow_succ]
    ring

theorem space_map_range (f : ℕ → ℕ) (n : ℕ) :
    space ((List.range n).map f) = ∑ k ∈ Finset.range n, f k * 2 ^ (n - 1 - k) := by
  induction n with
  | zero => rfl
  | succ n ih =>
    rw [List.range_succ, List.map_append, List.map_singleton, space_concat, ih,
      Finset.sum_range_succ, Finset.mul_sum, Nat.add_sub_cancel, Nat.sub_self, Nat.pow_zero,
      Nat.mul_one]
    congr 1
    refine Finset.sum_congr rfl fun k hk => ?_
    have hsucc : n - k = n - 1 - k + 1 := by
      have := Finset.mem_range.1 hk
      omega
    rw [hsucc, Nat.pow_succ]
    ring

/-- The words of one length and the number behind them take up what the number of the length before
did, with the words that are left. -/
theorem space_behind (first count : ℕ) (counts : List ℕ) :
    (2 * first + count) * 2 ^ counts.length + space counts =
      first * 2 ^ (count :: counts).length + space (count :: counts) := by
  rw [space, List.length_cons, Nat.pow_succ]
  ring

theorem length_wordsFrom (length first : ℕ) (counts : List ℕ) :
    (wordsFrom length first counts).length = counts.sum := by
  induction counts generalizing length first with
  | nil => rfl
  | cons count counts ih => simp [wordsFrom, ih]

/-- How a word is read: its front is a number not below the first one that is left for it, and from
there on the reader arrives at the symbol in the place of the word. -/
theorem exists_decodeFrom (symbols : Array ℕ) (counts : List ℕ) (length first index : ℕ) {j : ℕ}
    {word : List Bool}
    (hspace : first * 2 ^ counts.length + space counts ≤ 2 ^ (length + counts.length))
    (hword : (wordsFrom (length + 1) (2 * first) counts)[j]? = some word) :
    ∃ value rest, first ≤ value ∧ value < 2 ^ length ∧ rest ≠ [] ∧
      word = (bitsOfNat length value).reverse ++ rest ∧
      ∀ bits, decodeFrom symbols counts value first index (rest ++ bits) =
        symbols[index + j]?.map (·, bits) := by
  induction counts generalizing length first index j with
  | nil => simp [wordsFrom] at hword
  | cons count counts ih =>
    have hstep : (2 * first + count) * 2 ^ counts.length + space counts ≤
        2 ^ (length + 1 + counts.length) := by
      rw [space_behind, Nat.add_right_comm]
      exact hspace
    rw [wordsFrom, List.getElem?_append] at hword
    split at hword
    next hj =>
      -- The word is one of this length, and only its last bit is still to be read.
      simp only [List.length_map, List.length_range] at hj
      obtain rfl : (bitsOfNat (length + 1) (2 * first + j)).reverse = word := by
        simpa [List.getElem?_range hj] using hword
      -- The words of this length have room by themselves.
      have hlt : 2 * first + j < 2 ^ (length + 1) := by
        have hspare : (2 * first + count) * 2 ^ counts.length ≤
            2 ^ (length + 1) * 2 ^ counts.length := by
          rw [← Nat.pow_add]
          omega
        have := Nat.le_of_mul_le_mul_right hspare (Nat.two_pow_pos _)
        omega
      refine ⟨(2 * first + j) / 2, [(2 * first + j) % 2 == 1], by omega, ?_, List.cons_ne_nil _ _,
        reverse_bitsOfNat_succ .., fun bits => ?_⟩
      · rw [Nat.pow_succ] at hlt
        omega
      · have hvalue : 2 * ((2 * first + j) / 2) + ((2 * first + j) % 2 == 1).toNat =
            2 * first + j := by
          rw [Nat.add_comm, toNat_beq_add_div]
        simp only [List.cons_append, List.nil_append, decodeFrom, hvalue]
        rw [if_pos (by omega), Nat.add_sub_cancel_left]
        cases symbols[index + j]? <;> rfl
    next hj =>
      -- The word is longer, so that its front is not among the words of this length.
      simp only [List.length_map, List.length_range] at hj hword
      obtain ⟨value, rest, hfirst, hvalue, -, rfl, hread⟩ := ih (length + 1) (2 * first + count)
        (index + count) hstep hword
      refine ⟨value / 2, (value % 2 == 1) :: rest, by omega, ?_, List.cons_ne_nil _ _, ?_,
        fun bits => ?_⟩
      · rw [Nat.pow_succ] at hvalue
        omega
      · rw [reverse_bitsOfNat_succ, List.append_assoc, List.singleton_append]
      · have hsame : 2 * (value / 2) + (value % 2 == 1).toNat = value := by
          rw [Nat.add_comm, toNat_beq_add_div]
        have hplace : index + count + (j - count) = index + j := by omega
        simp only [List.cons_append, decodeFrom, hsame]
        rw [if_neg (by omega), hread bits, hplace]

/-- Whether a code reads the word of a symbol in a table, whatever follows the word. -/
def Reads (code : PrefixCode) (words : Array (List Bool)) (s : ℕ) : Prop :=
  ∀ bits, code.decode? (words.getD s [] ++ bits) = some (s, bits)

theorem decode?_nil (code : PrefixCode) : code.decode? [] = none := by
  unfold decode?
  cases code.counts <;> rfl

/-- A word that is read is not empty. -/
theorem Reads.length_pos {code : PrefixCode} {words : Array (List Bool)} {s : ℕ}
    (h : code.Reads words s) : 0 < (words.getD s []).length := by
  refine List.length_pos_iff.2 fun hnil => ?_
  have hread := h []
  rw [hnil, List.append_nil, decode?_nil] at hread
  cases hread

section Lengths

variable (lengths : List ℕ)

/-- The symbols whose words have so many bits. -/
theorem mem_symbolsOfLength {k s : ℕ} :
    s ∈ (lengths.zipIdx.filter (fun e => e.1 = k)).map Prod.snd ↔ lengths[s]? = some k := by
  simp only [List.mem_map, List.mem_filter, decide_eq_true_eq, Prod.exists,
    List.mem_zipIdx_iff_getElem?]
  exact ⟨by rintro ⟨_, _, ⟨h, rfl⟩, rfl⟩; exact h, fun h => ⟨k, s, ⟨h, rfl⟩, rfl⟩⟩

theorem mem_symbols {s : ℕ} :
    s ∈ (ofLengths lengths).symbols.toList ↔ ∃ k < maxLength, lengths[s]? = some (k + 1) := by
  simp only [ofLengths, List.mem_flatten, List.mem_map, List.mem_range]
  constructor
  · rintro ⟨_, ⟨k, hk, rfl⟩, hs⟩
    exact ⟨k, hk, (mem_symbolsOfLength lengths).1 hs⟩
  · rintro ⟨k, hk, hs⟩
    exact ⟨_, ⟨k, hk, rfl⟩, (mem_symbolsOfLength lengths).2 hs⟩

theorem nodup_symbols : (ofLengths lengths).symbols.toList.Nodup := by
  refine List.nodup_flatten.2 ⟨?_, ?_⟩
  · -- Each symbol has one place among the lengths.
    intro symbols hsymbols
    obtain ⟨k, -, rfl⟩ := List.mem_map.1 hsymbols
    refine List.Nodup.sublist (List.filter_sublist.map _) ?_
    rw [List.zipIdx_map_snd]
    exact List.nodup_range'
  · -- The length of a symbol tells the symbols of different lengths apart.
    refine List.pairwise_map.2 (List.nodup_range.imp fun {k l} hne s hk hl => hne ?_)
    have hk' := (mem_symbolsOfLength lengths).1 hk
    have hl' := (mem_symbolsOfLength lengths).1 hl
    simpa using hk'.symm.trans hl'

/-- There are as many words of a length as there are symbols with that length. -/
theorem counts_ofLengths :
    (ofLengths lengths).counts = (List.range maxLength).map (fun k => lengths.count (k + 1)) := by
  simp only [ofLengths, List.map_map]
  refine List.map_congr_left fun k _ => ?_
  have hcount : (lengths.zipIdx.map Prod.fst).count (k + 1) = lengths.count (k + 1) := by
    rw [List.zipIdx_map_fst]
  rw [← hcount, List.count, List.countP_map, Function.comp_apply, List.length_map,
    List.countP_eq_length_filter]
  refine congrArg List.length (List.filter_congr fun e _ => ?_)
  exact (beq_eq_decide ..).symm

/-- There are as many symbols as words. -/
theorem size_ofLengths : (ofLengths lengths).size = (ofLengths lengths).counts.sum := by
  simp [size, ofLengths, List.length_flatten]

/-- The code with given lengths reads the word of each symbol that has one, unless the words take
up more space than there is. -/
theorem reads_wordsOf {s l : ℕ} (hspace : space (ofLengths lengths).counts ≤ 2 ^ maxLength)
    (hlength : lengths[s]? = some l) (hpos : 0 < l) (hle : l ≤ maxLength) :
    (ofLengths lengths).Reads (wordsOf lengths) s := by
  have hmem : s ∈ (ofLengths lengths).symbols.toList :=
    (mem_symbols lengths).2 ⟨l - 1, by omega, by rw [hlength, Nat.sub_add_cancel hpos]⟩
  obtain ⟨j, hj, hsymbol⟩ := List.getElem_of_mem hmem
  have hsize : (ofLengths lengths).symbols.toList.length = (ofLengths lengths).counts.sum :=
    size_ofLengths lengths
  have hcount : (ofLengths lengths).counts.length = maxLength := by
    simp [ofLengths]
  have hword : j < (wordsFrom 1 (2 * 0) (ofLengths lengths).counts).length := by
    rw [length_wordsFrom, ← hsize]
    exact hj
  obtain ⟨value, rest, -, hvalue, -, hrest, hread⟩ :=
    exists_decodeFrom (ofLengths lengths).symbols (ofLengths lengths).counts 0 0 0
      (by rw [hcount]; simpa using hspace) (List.getElem?_eq_getElem hword)
  obtain rfl : value = 0 := by simpa using hvalue
  have htable : (wordsOf lengths).getD s [] =
      (wordsFrom 1 (2 * 0) (ofLengths lengths).counts)[j] := by
    have hs : s < lengths.length := (List.getElem?_eq_some_iff.1 hlength).1
    refine getD_foldl_setIfInBounds ?_ (by simpa using hs) (.inl ?_)
    · rw [List.map_fst_zip (by rw [length_wordsFrom, ← hsize])]
      exact nodup_symbols lengths
    · have hzip : j < ((ofLengths lengths).symbols.toList.zip
          (wordsFrom 1 (2 * 0) (ofLengths lengths).counts)).length := by
        rw [List.length_zip]
        exact lt_min hj hword
      rw [← hsymbol, ← List.getElem_zip]
      exact List.getElem_mem hzip
  intro bits
  rw [htable, hrest]
  have hfound : (ofLengths lengths).symbols[0 + j]? = some s := by
    rw [Nat.zero_add, ← Array.getElem?_toList, List.getElem?_eq_getElem hj, hsymbol]
  exact (hread bits).trans (by rw [hfound, Option.map_some])

end Lengths

end PrefixCode

end Gzip

end TieredStore
