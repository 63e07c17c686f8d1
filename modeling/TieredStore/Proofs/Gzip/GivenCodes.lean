import Mathlib.Data.List.SplitBy
import Mathlib.Data.List.TakeWhile
import TieredStore.Proofs.Gzip.CodeLengths

/-!
# Codes at the start of a block are read back

The lengths of two codes are spelled as runs, and the symbols of that spelling are written under a
code of their own, whose lengths come first, three bits each. Reading takes these steps back one by
one. The code for the spelling is always complete: it is made for two symbols or more, since some
length that is spelled is not zero and there are enough lengths for a repetition.

## Main definitions

* `Gzip.Spells`: what symbols for code lengths spell.

## Main results

* `Gzip.spells_spellLengths`: lengths are spelled as they are.
* `Gzip.readLengths?_of_spells`: what is spelled is read back.
* `Gzip.readCodes?_givenCodes`: both codes are read back.
* `Gzip.isUsable_codeLengths`: the codes that are made for symbols are accepted.
-/

namespace TieredStore

namespace Gzip

section Spelling

/-- What symbols for code lengths spell, when the given length was the last one before them: each of
them is read as some length, several times. -/
inductive Spells : Option ℕ → List LengthSymbol → List ℕ → Prop
  | nil {last : Option ℕ} : Spells last [] []
  | run {last : Option ℕ} {symbol l times : ℕ} {extra : List Bool} {es : List LengthSymbol}
      {ls : List ℕ} (hsymbol : symbol < 19) (hpos : 0 < times)
      (hread : ∀ before rest, before.head? = last →
        readRun? before symbol (extra ++ rest) = some (l, times, rest))
      (h : Spells (some l) es ls) :
      Spells last ((symbol, extra) :: es) (List.replicate times l ++ ls)

namespace Spells

variable {last : Option ℕ} {es es' : List LengthSymbol} {ls ls' : List ℕ}

theorem append (h : Spells last es ls) (h' : ∀ last, Spells last es' ls') :
    Spells last (es ++ es') (ls ++ ls') := by
  induction h with
  | nil => exact h' _
  | run hsymbol hpos hread _ ih => exact List.append_assoc _ _ _ ▸ .run hsymbol hpos hread ih

/-- There are nineteen symbols. -/
theorem symbol_lt (h : Spells last es ls) : ∀ e ∈ es, e.1 < 19 := by
  induction h with
  | nil => exact fun e he => nomatch he
  | run hsymbol _ _ _ ih => exact List.forall_mem_cons.2 ⟨hsymbol, ih⟩

/-- A length that is written out. -/
theorem one {l : ℕ} (hl : l < 16) (h : Spells (some l) es ls) :
    Spells last ((l, []) :: es) (l :: ls) :=
  .run (by omega) Nat.one_pos (fun _ _ _ => if_pos hl) h

/-- Three to six times the length before. -/
theorem repeated {l n : ℕ} (hn : n < 4) (h : Spells (some l) es ls) :
    Spells (some l) ((16, bitsOfNat 2 n) :: es) (List.replicate (3 + n) l ++ ls) := by
  refine .run (by decide) (by omega) (fun before rest hlast => ?_) h
  obtain ⟨before, rfl⟩ := List.head?_eq_some_iff.1 hlast
  simp [readRun?, splitBits?_bitsOfNat_append (show n < 2 ^ 2 from hn)]

/-- Three to ten zeros. -/
theorem zeros (last : Option ℕ) {n : ℕ} (hn : n < 8) (h : Spells (some 0) es ls) :
    Spells last ((17, bitsOfNat 3 n) :: es) (List.replicate (3 + n) 0 ++ ls) := by
  refine .run (by decide) (by omega) (fun before rest _ => ?_) h
  simp [readRun?, splitBits?_bitsOfNat_append (show n < 2 ^ 3 from hn)]

/-- Eleven zeros or more. -/
theorem manyZeros (last : Option ℕ) {n : ℕ} (hn : n < 128) (h : Spells (some 0) es ls) :
    Spells last ((18, bitsOfNat 7 n) :: es) (List.replicate (11 + n) 0 ++ ls) := by
  refine .run (by decide) (by omega) (fun before rest _ => ?_) h
  simp [readRun?, splitBits?_bitsOfNat_append (show n < 2 ^ 7 from hn)]

theorem replicate {l : ℕ} (hl : l < 16) (n : ℕ) (last : Option ℕ) :
    Spells last (List.replicate n (l, [])) (List.replicate n l) := by
  induction n generalizing last with
  | zero => exact .nil
  | succ n ih => exact .one hl (ih (some l))

end Spells

theorem spells_spellZeros (n : ℕ) (last : Option ℕ) :
    Spells last (spellZeros n) (List.replicate n 0) := by
  fun_induction spellZeros n generalizing last with
  | case1 n hfew => exact .replicate (Nat.zero_lt_succ 15) n last
  | case2 n hfew hmore =>
    have hn : n = 3 + (n - 3) := by omega
    have hspelled := Spells.zeros last (n := n - 3) (by omega) .nil
    rwa [List.append_nil, ← hn] at hspelled
  | case3 n hfew hmore k ih =>
    have hk : k = 11 + (k - 11) := by omega
    have hn : n = k + (n - k) := by omega
    have hspelled := Spells.manyZeros last (n := k - 11) (by omega) (ih (some 0))
    rwa [← hk, ← List.replicate_add, ← hn] at hspelled

theorem spells_spellRepeats {l : ℕ} (hl : l < 16) (n : ℕ) :
    Spells (some l) (spellRepeats l n) (List.replicate n l) := by
  fun_induction spellRepeats l n with
  | case1 n hfew => exact .replicate hl n (some l)
  | case2 n hfew k ih =>
    have hk : k = 3 + (k - 3) := by omega
    have hn : n = k + (n - k) := by omega
    have hspelled := Spells.repeated (l := l) (n := k - 3) (by omega) ih
    rwa [← hk, ← List.replicate_add, ← hn] at hspelled

/-- A run is spelled whatever comes before it, since its first symbol repeats nothing. -/
theorem spells_spellRun {l : ℕ} (hl : l < 16) (n : ℕ) (last : Option ℕ) :
    Spells last (spellRun (List.replicate (n + 1) l)) (List.replicate (n + 1) l) := by
  cases l with
  | zero =>
    have hspelled := spells_spellZeros (n + 1) last
    rwa [List.replicate_succ, spellRun, List.length_replicate]
  | succ l =>
    have hspelled := spells_spellRepeats hl n
    rw [List.replicate_succ, spellRun, List.length_replicate]
    · exact .one hl hspelled
    · exact fun h => Nat.succ_ne_zero l h

/-- The runs of a list are made of equal elements. -/
theorem exists_run {lengths run : List ℕ} (h : run ∈ lengths.splitBy (· == ·)) :
    ∃ l n, run = List.replicate (n + 1) l := by
  have hchain := List.isChain_of_mem_splitBy h
  cases run with
  | nil => exact (List.nil_notMem_splitBy _ _ h).elim
  | cons l run =>
    refine ⟨l, run.length, ?_⟩
    rw [List.replicate_succ, List.cons.injEq]
    refine ⟨rfl, List.eq_replicate_of_mem fun m hm => ?_⟩
    have htrans : List.Pairwise (fun a b => (a == b) = true) (l :: run) :=
      List.isChain_iff_pairwise.1 hchain
    exact (beq_iff_eq.1 ((List.pairwise_cons.1 htrans).1 m hm)).symm

/-- Lengths are spelled as they are. -/
theorem spells_spellLengths {lengths : List ℕ} (h : ∀ l ∈ lengths, l < 16) (last : Option ℕ) :
    Spells last (spellLengths lengths) lengths := by
  have hruns : ∀ runs : List (List ℕ),
      (∀ run ∈ runs, ∃ l n, l < 16 ∧ run = List.replicate (n + 1) l) →
      ∀ last, Spells last (runs.flatMap spellRun) runs.flatten := by
    intro runs hrun
    induction runs with
    | nil => exact fun last => .nil
    | cons run runs ih =>
      obtain ⟨⟨l, n, hl, rfl⟩, hrun⟩ := List.forall_mem_cons.1 hrun
      exact fun last => (spells_spellRun hl n last).append (ih ‹_›)
  have hspelled := hruns (lengths.splitBy (· == ·)) (fun run hrun => ?_) last
  · rwa [List.flatten_splitBy] at hspelled
  · obtain ⟨l, n, rfl⟩ := exists_run hrun
    refine ⟨l, n, h l ?_, rfl⟩
    rw [← List.flatten_splitBy (· == ·) lengths]
    exact List.mem_flatten_of_mem hrun (by simp)

/-- Each length has a symbol in the spelling that tells whether it is zero, and which it is if it
is not. -/
theorem exists_mem_spellLengths {lengths : List ℕ} {l : ℕ} (hmem : l ∈ lengths) :
    ∃ e ∈ spellLengths lengths, e.1 = l ∨ l = 0 ∧ 16 < e.1 := by
  rw [← List.flatten_splitBy (· == ·) lengths] at hmem
  obtain ⟨run, hrun, hl⟩ := List.mem_flatten.1 hmem
  obtain ⟨m, n, rfl⟩ := exists_run hrun
  obtain rfl : l = m := List.eq_of_mem_replicate hl
  suffices ∃ e ∈ spellRun (List.replicate (n + 1) l), e.1 = l ∨ l = 0 ∧ 16 < e.1 by
    obtain ⟨e, he, heq⟩ := this
    exact ⟨e, List.mem_flatMap_of_mem hrun he, heq⟩
  cases l with
  | zero =>
    rw [List.replicate_succ, spellRun, List.length_replicate, spellZeros]
    split
    · exact ⟨(0, []), by simp, .inl rfl⟩
    · split
      · exact ⟨_, List.mem_singleton_self _, .inr ⟨rfl, Nat.lt_add_one 16⟩⟩
      · exact ⟨_, List.mem_cons_self, .inr ⟨rfl, Nat.lt_add_of_pos_right Nat.two_pos⟩⟩
  | succ l =>
    rw [List.replicate_succ, spellRun]
    · exact ⟨_, List.mem_cons_self, .inl rfl⟩
    · exact fun h => Nat.succ_ne_zero l h

/-- Lengths that are not all zero, and more than a few, are spelled with two symbols or more. -/
theorem exists_ne_of_spellLengths {lengths : List ℕ} {l : ℕ} (hmem : l ∈ lengths) (hpos : l ≠ 0)
    (hmax : ∀ l ∈ lengths, l < 16) (hmany : 4 ≤ lengths.length) :
    ∃ a ∈ spellLengths lengths, ∃ b ∈ spellLengths lengths, a.1 ≠ b.1 := by
  obtain ⟨a, ha, haeq⟩ := exists_mem_spellLengths hmem
  have haeq : a.1 = l := haeq.resolve_right fun h => hpos h.1
  by_cases hsame : ∀ m ∈ lengths, m = l
  · -- All are the same, and the first one is repeated.
    obtain ⟨n, hn⟩ : ∃ n, lengths.length = n + 4 := ⟨_, (Nat.sub_add_cancel hmany).symm⟩
    obtain rfl : lengths = List.replicate (n + 4) l := by
      rw [← hn]
      exact List.eq_replicate_of_mem hsame
    refine ⟨a, ha, (16, bitsOfNat 2 (min (n + 3) 6 - 3)), ?_, ?_⟩
    · have hsplit : (List.replicate (n + 4) l).splitBy (· == ·) = [List.replicate (n + 4) l] :=
        List.splitBy_of_isChain (by simp) (List.isChain_replicate_of_rel _ (beq_self_eq_true l))
      obtain ⟨l, rfl⟩ := Nat.exists_eq_succ_of_ne_zero hpos
      rw [spellLengths, hsplit, List.flatMap_singleton, List.replicate_succ, spellRun,
        List.length_replicate, spellRepeats, if_neg (by omega)]
      · simp
      · exact fun h => Nat.succ_ne_zero l h
    · have := hmax l hmem
      rw [haeq]
      exact this.ne
  · obtain ⟨m, hm, hne⟩ : ∃ m ∈ lengths, m ≠ l := by simpa using hsame
    obtain ⟨b, hb, hbeq⟩ := exists_mem_spellLengths hm
    refine ⟨a, ha, b, hb, ?_⟩
    have := hmax l hmem
    obtain hbeq | ⟨-, hbeq⟩ := hbeq <;> omega

/-- What is spelled is read back under a code that reads the symbols of the spelling. -/
theorem readLengths?_of_spells {code : PrefixCode} {words : Array (List Bool)} {last : Option ℕ}
    {es : List LengthSymbol} {lengths : List ℕ} (h : Spells last es lengths)
    (hreads : ∀ e ∈ es, code.Reads words e.1) {bound : ℕ} (hbound : lengths.length < bound)
    (before : List ℕ) (hlast : before.head? = last) (rest : List Bool) :
    readLengths? code bound lengths.length before
        (es.flatMap (fun e => words.getD e.1 [] ++ e.2) ++ rest) =
      some (before.reverse ++ lengths, rest) := by
  -- A symbol may repeat the length before it, which is the first of those that were read.
  induction h generalizing bound before with
  | nil =>
    obtain ⟨bound, rfl⟩ := Nat.exists_eq_add_one_of_ne_zero (Nat.ne_zero_of_lt hbound)
    simp [readLengths?]
  | @run last symbol l times extra es ls _ hpos hread _ ih =>
    obtain ⟨bound, rfl⟩ := Nat.exists_eq_add_one_of_ne_zero (Nat.ne_zero_of_lt hbound)
    obtain ⟨hword, hreads⟩ := List.forall_mem_cons.1 hreads
    rw [List.length_append, List.length_replicate] at hbound ⊢
    have hlast' : (List.replicate times l ++ before).head? = some l := by
      rw [List.head?_append, List.head?_replicate, if_neg hpos.ne', Option.some_or]
    rw [List.flatMap_cons, List.append_assoc, List.append_assoc, readLengths?, if_neg (by omega),
      hword]
    simp only [hread before _ hlast]
    rw [if_neg (by omega), Nat.add_sub_cancel_left, ih hreads (by omega) _ hlast',
      List.reverse_append, List.reverse_replicate, List.append_assoc]

end Spelling

section Header

/-- What is trimmed are zeros at the end, and enough lengths are kept. -/
theorem exists_trim (least : ℕ) (lengths : List ℕ) :
    ∃ zeros, lengths = trim least lengths ++ List.replicate zeros 0 ∧
      (least ≤ lengths.length → least ≤ (trim least lengths).length) := by
  set front := lengths.reverse.dropWhile (· == 0) with hfront
  have hsplit : lengths =
      front.reverse ++ List.replicate (lengths.reverse.takeWhile (· == 0)).length 0 := by
    have hzeros : lengths.reverse.takeWhile (· == 0) =
        List.replicate (lengths.reverse.takeWhile (· == 0)).length 0 :=
      List.eq_replicate_of_mem fun l hl => by simpa using List.mem_takeWhile_imp hl
    rw [← List.reverse_replicate, ← hzeros, ← List.reverse_append,
      List.takeWhile_append_dropWhile, List.reverse_reverse]
  refine ⟨(lengths.reverse.takeWhile (· == 0)).length - (max least front.length - front.length),
    ?_, fun hleast => ?_⟩
  · have hdropped : lengths.drop (max least front.length) = List.replicate
        ((lengths.reverse.takeWhile (· == 0)).length - (max least front.length - front.length))
        0 := by
      conv_lhs => rw [hsplit]
      rw [List.drop_append, List.drop_eq_nil_of_le (by simp), List.nil_append, List.drop_replicate,
        List.length_reverse]
    rw [trim, ← hfront, ← hdropped, List.take_append_drop]
  · rw [trim, List.length_take]
    omega

/-- Zeros at the end make no difference to a code. -/
theorem PrefixCode.ofLengths_append_replicate (lengths : List ℕ) (zeros : ℕ) :
    ofLengths (lengths ++ List.replicate zeros 0) = ofLengths lengths := by
  have hfilter : ∀ k, ((lengths ++ List.replicate zeros 0).zipIdx.filter (fun e => e.1 = k + 1)) =
      lengths.zipIdx.filter (fun e => e.1 = k + 1) := by
    intro k
    rw [List.zipIdx_append, List.filter_append, List.append_right_eq_self]
    refine List.filter_eq_nil_iff.2 fun e he => ?_
    have hzero := List.eq_of_mem_replicate (List.fst_mem_of_mem_zipIdx he)
    simp [hzero]
  simp only [ofLengths, hfilter]

/-- The lengths of the code for the spelling are read back, three bits each. -/
theorem foldlM_splitBits? {f : ℕ → ℕ} (hf : ∀ s, f s < 8) (symbols : List ℕ)
    (given : List (ℕ × ℕ)) (rest : List Bool) :
    symbols.foldlM (fun (given, bits) symbol =>
        (splitBits? 3 bits).map (fun (length, bits) => ((symbol, length) :: given, bits)))
        (given, (symbols.map f).flatMap (bitsOfNat 3) ++ rest) =
      some ((symbols.map fun s => (s, f s)).reverse ++ given, rest) := by
  induction symbols generalizing given with
  | nil => rfl
  | cons s symbols ih =>
    simp only [List.foldlM_cons, List.map_cons, List.flatMap_cons, List.append_assoc,
      splitBits?_bitsOfNat_append (show f s < 2 ^ 3 from hf s), Option.map_some, bind,
      Option.bind_some, ih, List.reverse_cons, List.singleton_append]

/-- The symbols whose lengths are written for the code of a spelling, in their order. -/
def writtenSymbols (lengths : List ℕ) : List ℕ :=
  codeLengthOrder.take (trim 4 (codeLengthOrder.map fun s => lengths.getD s 0)).length

theorem trim_codeLengthOrder (lengths : List ℕ) :
    trim 4 (codeLengthOrder.map fun s => lengths.getD s 0) =
      (writtenSymbols lengths).map fun s => lengths.getD s 0 := by
  rw [writtenSymbols, List.map_take]
  simp [trim]

/-- A symbol that is not written has no word. -/
theorem getD_eq_zero_of_notMem {lengths : List ℕ} {s : ℕ} (hs : s ∈ codeLengthOrder)
    (hmem : s ∉ writtenSymbols lengths) : lengths.getD s 0 = 0 := by
  obtain ⟨zeros, hzeros, -⟩ := exists_trim 4 (codeLengthOrder.map fun s => lengths.getD s 0)
  rw [trim_codeLengthOrder] at hzeros
  have hdrop : (codeLengthOrder.drop (writtenSymbols lengths).length).map
      (fun s => lengths.getD s 0) = List.replicate zeros 0 := by
    rw [List.map_drop, hzeros, List.drop_left' (List.length_map _)]
  -- What is not among the first ones is among those that were trimmed.
  have hlast : s ∈ codeLengthOrder.drop (writtenSymbols lengths).length := by
    have hfront : writtenSymbols lengths = codeLengthOrder.take (writtenSymbols lengths).length :=
      List.prefix_iff_eq_take.1 (List.take_prefix _ codeLengthOrder)
    rw [← List.take_append_drop (writtenSymbols lengths).length codeLengthOrder, ← hfront,
      List.mem_append] at hs
    exact hs.resolve_left hmem
  exact List.eq_of_mem_replicate (hdrop ▸ List.mem_map_of_mem hlast)

/-- With zeros for the symbols that are not written, all lengths are there again. -/
theorem map_lookup_writtenSymbols {lengths : List ℕ} (hlength : lengths.length = 19) :
    (List.range 19).map (fun s => (((writtenSymbols lengths).map fun s =>
      (s, lengths.getD s 0)).reverse.lookup s).getD 0) = lengths := by
  refine List.ext_getElem (by simp [hlength]) fun s hs _ => ?_
  have hs : s < 19 := by simpa using hs
  have hall : ∀ s < 19, s ∈ codeLengthOrder := by decide
  rw [List.getElem_map, List.getElem_range, getD_lookup_reverse_map]
  have hat : lengths.getD s 0 = lengths[s] := (List.getElem_eq_getD 0).symm
  split
  next => exact hat
  next hmem => rw [← hat, getD_eq_zero_of_notMem (hall s hs) hmem]

/-- The code for the spelling is read back if it is complete. -/
theorem readCodeLengthCode?_trim {lengths : List ℕ} (hlength : lengths.length = 19)
    (hmax : ∀ l ∈ lengths, l ≤ 7) (hfilled : spaceOf 7 lengths = 2 ^ 7) (rest : List Bool) :
    readCodeLengthCode? (trim 4 (codeLengthOrder.map fun s => lengths.getD s 0)).length
        ((trim 4 (codeLengthOrder.map fun s => lengths.getD s 0)).flatMap (bitsOfNat 3) ++ rest) =
      some (.ofLengths lengths, rest) := by
  have hbound : ∀ s, lengths.getD s 0 < 8 := fun s => by
    rw [List.getD_eq_getElem?_getD]
    cases hs : lengths[s]? with
    | none => exact Nat.zero_lt_succ 7
    | some l => exact Nat.lt_succ_of_le (hmax l (List.mem_of_getElem? hs))
  have hcomplete : (PrefixCode.ofLengths lengths).isComplete := by
    have hmax' : ∀ l ∈ lengths, l ≤ PrefixCode.maxLength := fun l hl =>
      (hmax l hl).trans (by decide)
    rw [PrefixCode.isComplete_ofLengths hmax', show PrefixCode.maxLength = 7 + 8 from rfl,
      spaceOf_add 8 hmax, hfilled]
    rfl
  have htaken : codeLengthOrder.take
      (trim 4 (codeLengthOrder.map fun s => lengths.getD s 0)).length =
        writtenSymbols lengths := rfl
  rw [readCodeLengthCode?, htaken, trim_codeLengthOrder, foldlM_splitBits? hbound]
  simp only [List.append_nil, map_lookup_writtenSymbols hlength, hcomplete, if_true]

/-- Two symbols that are counted. -/
theorem two_le_countP {f : ℕ → ℕ} {n a b : ℕ} (ha : a < n) (hb : b < n) (hne : a ≠ b)
    (hfa : f a ≠ 0) (hfb : f b ≠ 0) : 2 ≤ ((List.range n).map f).countP (· != 0) := by
  rw [List.countP_map, List.countP_eq_length_filter]
  have hsub : [a, b] ⊆ (List.range n).filter ((· != 0) ∘ f) := by
    simp [ha, hb, hfa, hfb]
  exact (List.subperm_of_subset (by simpa using hne) hsub).length_le

/-- The lengths of the code that a spelling is written under. -/
def spellingLengths (lengths : List ℕ) : List ℕ :=
  codeLengths 7 ((List.range 19).map fun symbol =>
    (spellLengths lengths).countP (fun e => e.1 == symbol))

/-- The code for a spelling is complete, and it reads the symbols of the spelling. -/
theorem spellingLengths_spec {lengths : List ℕ} (hused : ∃ l ∈ lengths, l ≠ 0)
    (hmax : ∀ l ∈ lengths, l < 16) (hmany : 4 ≤ lengths.length) :
    (spellingLengths lengths).length = 19 ∧ (∀ l ∈ spellingLengths lengths, l ≤ 7) ∧
      spaceOf 7 (spellingLengths lengths) = 2 ^ 7 ∧
      ∀ e ∈ spellLengths lengths, (PrefixCode.ofLengths (spellingLengths lengths)).Reads
        (wordsOf (spellingLengths lengths)) e.1 := by
  obtain ⟨l, hl, hpos⟩ := hused
  have hsymbol := (spells_spellLengths hmax none).symbol_lt
  have hcount : ∀ e ∈ spellLengths lengths,
      (spellLengths lengths).countP (fun e' => e'.1 == e.1) ≠ 0 := fun e he =>
    (List.countP_pos_iff.2 ⟨e, he, beq_self_eq_true e.1⟩).ne'
  set counts := (List.range 19).map fun symbol =>
    (spellLengths lengths).countP (fun e => e.1 == symbol) with hcounts
  have hroom : counts.length ≤ 2 ^ 7 := by simp [hcounts]
  have htwo : 2 ≤ counts.countP (· != 0) := by
    obtain ⟨a, ha, b, hb, hne⟩ := exists_ne_of_spellLengths hl hpos hmax hmany
    exact two_le_countP (hsymbol a ha) (hsymbol b hb) hne (hcount a ha) (hcount b hb)
  have hfilled : spaceOf 7 (spellingLengths lengths) = 2 ^ 7 :=
    spaceOf_codeLengths (by decide) hroom htwo
  have hshort : ∀ l ∈ spellingLengths lengths, l ≤ 7 := codeLengths_le (by decide) hroom
  refine ⟨by rw [spellingLengths, length_codeLengths]; simp, hshort, hfilled, fun e he => ?_⟩
  have hat : counts[e.1]? = some ((spellLengths lengths).countP fun e' => e'.1 == e.1) := by
    rw [hcounts, List.getElem?_map, List.getElem?_range (hsymbol e he), Option.map_some]
  exact reads_codeLengths (by decide) (by decide) hroom hat (hcount e he)

/-- The codes at the start of a block are read back, whatever follows them. -/
theorem readCodes?_givenCodes {literals distances : List ℕ}
    (hliterals : 257 ≤ literals.length ∧ literals.length ≤ 286)
    (hdistances : 1 ≤ distances.length ∧ distances.length ≤ 30)
    (hmax : ∀ l ∈ literals ++ distances, l ≤ PrefixCode.maxLength)
    (hused : ∃ l ∈ literals, l ≠ 0) (husable : isUsable (.ofLengths literals))
    (husable' : isUsable (.ofLengths distances)) (rest : List Bool) :
    readCodes? (givenCodes literals distances ++ rest) =
      some (.ofLengths literals, .ofLengths distances, rest) := by
  -- The lengths of both codes are spelled together, so a run may go from one to the other.
  obtain ⟨l, hl, hpos⟩ := hused
  have hmax' : ∀ l ∈ literals ++ distances, l < 16 := fun l hl => Nat.lt_succ_of_le (hmax l hl)
  obtain ⟨hsize, hshort, hfilled, hreads⟩ := spellingLengths_spec
    ⟨l, List.mem_append_left distances hl, hpos⟩ hmax' (by rw [List.length_append]; omega)
  have hcode := readCodeLengthCode?_trim hsize hshort hfilled
  have hspelling := fun bits => readLengths?_of_spells (spells_spellLengths hmax' none) hreads
    (Nat.lt_succ_self (literals ++ distances).length) [] rfl bits
  obtain ⟨zeros, hzeros, hleast⟩ := exists_trim 4
    (codeLengthOrder.map fun s => (spellingLengths (literals ++ distances)).getD s 0)
  have hnineteen := congrArg List.length hzeros
  have hfour := hleast (by simp [codeLengthOrder])
  rw [List.length_map, List.length_append, show codeLengthOrder.length = 19 from rfl] at hnineteen
  have hgiven : givenCodes literals distances =
      bitsOfNat 5 (literals.length - 257) ++ bitsOfNat 5 (distances.length - 1)
        ++ bitsOfNat 4 ((trim 4 (codeLengthOrder.map fun s =>
          (spellingLengths (literals ++ distances)).getD s 0)).length - 4)
        ++ (trim 4 (codeLengthOrder.map fun s =>
          (spellingLengths (literals ++ distances)).getD s 0)).flatMap (bitsOfNat 3)
        ++ (spellLengths (literals ++ distances)).flatMap (fun e =>
          (wordsOf (spellingLengths (literals ++ distances))).getD e.1 [] ++ e.2) := rfl
  generalize trim 4 (codeLengthOrder.map fun s =>
    (spellingLengths (literals ++ distances)).getD s 0) = ordered at *
  rw [List.reverse_nil, List.nil_append, List.length_append] at hspelling
  simp only [hgiven, readCodes?, List.append_assoc,
    splitBits?_bitsOfNat_append (show literals.length - 257 < 2 ^ 5 by omega),
    splitBits?_bitsOfNat_append (show distances.length - 1 < 2 ^ 5 by omega),
    splitBits?_bitsOfNat_append (show ordered.length - 4 < 2 ^ 4 by omega), bind, Option.bind_some]
  rw [show literals.length - 257 + 257 = literals.length by omega,
    show distances.length - 1 + 1 = distances.length by omega,
    show ordered.length - 4 + 4 = ordered.length by omega, if_neg (by omega)]
  simp only [hcode, hspelling, Option.bind_some, List.take_left, List.drop_left, husable, husable',
    Bool.and_self, if_true]

/-- The codes that are made for symbols are accepted. -/
theorem isUsable_codeLengths {occurrences : List ℕ}
    (hroom : occurrences.length ≤ 2 ^ PrefixCode.maxLength) :
    isUsable (.ofLengths (codeLengths PrefixCode.maxLength occurrences)) := by
  -- With one symbol or none the code is not complete, but such codes are accepted.
  obtain hone | htwo := Nat.lt_or_ge (occurrences.countP (· != 0)) 2
  · have hcounts : (PrefixCode.ofLengths (codeLengths PrefixCode.maxLength occurrences)).counts =
        occurrences.countP (· != 0) :: List.replicate 14 0 := by
      have hone' : ∀ k, (occurrences.map fun n => if n = 0 then 0 else 1).count (k + 1) =
          if k = 0 then occurrences.countP (· != 0) else 0 := by
        intro k
        rw [List.count, List.countP_map]
        split
        next hk => exact List.countP_congr fun n _ => by by_cases hn : n = 0 <;> simp [hk, hn]
        next hk =>
          refine List.countP_eq_zero.2 fun n _ => ?_
          by_cases hn : n = 0 <;> simp [hn, hk]
      rw [codeLengths_of_countP_le (Nat.le_of_lt_succ hone), PrefixCode.counts_ofLengths,
        List.map_congr_left fun k _ => hone' k]
      rfl
    have hsize : (PrefixCode.ofLengths (codeLengths PrefixCode.maxLength occurrences)).size =
        occurrences.countP (· != 0) := by
      rw [PrefixCode.size_ofLengths, hcounts]
      simp
    obtain hnone | hsingle : occurrences.countP (· != 0) = 0 ∨ occurrences.countP (· != 0) = 1 := by
      omega
    · simp [isUsable, hsize, hnone]
    · simp [isUsable, hsize, hcounts, hsingle]
  · have hcomplete : (PrefixCode.ofLengths
        (codeLengths PrefixCode.maxLength occurrences)).isComplete :=
      (PrefixCode.isComplete_ofLengths (codeLengths_le (by decide) hroom)).2
        (spaceOf_codeLengths (by decide) hroom htwo)
    simp [isUsable, hcomplete]

end Header

end Gzip

end TieredStore
