import TieredStore.Proofs.Gzip.GivenCodes
import TieredStore.Proofs.Gzip.Repetition

/-!
# Blocks are inflated to what they stand for

However a block is written, as it is, under the fixed codes or under codes made for it, inflating it
adds the octets that its parts stand for, and leaves what follows the block.

## Main definitions

* `Gzip.IsContiguous`: a table has a place for every number from its first least value on.
* `Gzip.BlockCode.Suits`: codes read what a table of words writes for the parts of a block.

## Main results

* `Gzip.readExtra?_extraOf`: a length or a distance is read back from its place and added bits.
* `Gzip.inflateCoded_content`: the parts of a block are read back under codes that suit them.
* `Gzip.suits_codeLengths`: the codes that are made for a block suit its parts.
* `Gzip.readCodes?_madeCodes`: these codes are read back at the start of the block.
* `Gzip.exists_block`: a block is inflated, however it is written.
-/

namespace TieredStore

namespace Gzip

section Tables

/-- Whether a table reaches from each of its least values to the next one, and from the last one to
`stop`. -/
def IsContiguous (table : Array (ℕ × ℕ)) (stop : ℕ) : Prop :=
  ∀ k < table.size, (table.getD (k + 1) (stop, 0)).1 ≤
    (table.getD k (0, 0)).1 + 2 ^ (table.getD k (0, 0)).2

instance (table : Array (ℕ × ℕ)) (stop : ℕ) : Decidable (IsContiguous table stop) :=
  inferInstanceAs (Decidable (∀ k < table.size, _ ≤ _))

theorem isContiguous_lengthTable : IsContiguous lengthTable (maxCopy + 1) := by
  decide +kernel

theorem isContiguous_distanceTable : IsContiguous distanceTable (maxReach + 1) := by
  decide +kernel

/-- The entries of a table whose least values are not too large, up to the first one that is. -/
theorem getD_takeWhile (table : Array (ℕ × ℕ)) (n : ℕ) (default : ℕ × ℕ) :
    (∀ k < (table.toList.takeWhile (fun e => e.1 ≤ n)).length, (table.getD k default).1 ≤ n) ∧
      ((table.toList.takeWhile (fun e => e.1 ≤ n)).length < table.size →
        n < (table.getD (table.toList.takeWhile (fun e => e.1 ≤ n)).length default).1) := by
  have hlength : (table.toList.takeWhile (fun e => e.1 ≤ n)).length =
      table.toList.findIdx (fun e => !decide (e.1 ≤ n)) := by
    rw [List.takeWhile_eq_take_findIdx_not, List.length_take,
      Nat.min_eq_left List.findIdx_le_length]
  rw [hlength]
  refine ⟨fun k hk => ?_, fun hlt => ?_⟩
  · have hsize : k < table.size := hk.trans_le List.findIdx_le_length
    have hfound := List.not_of_lt_findIdx hk
    simpa [← Array.getElem_eq_getD (h := hsize)] using hfound
  · have hfound := List.findIdx_getElem (w := hlt)
    simpa [← Array.getElem_eq_getD (h := hlt)] using hfound

/-- A number is read back from its place in a table and the bits that are added. -/
theorem readExtra?_extraOf {table : Array (ℕ × ℕ)} {stop n : ℕ} (htable : IsContiguous table stop)
    (hfirst : (table.getD 0 (stop, 0)).1 ≤ n) (hn : n < stop) (rest : List Bool) :
    (extraOf table n).1 < table.size ∧
      readExtra? table (extraOf table n).1 ((extraOf table n).2 ++ rest) = some (n, rest) := by
  obtain ⟨hpassed, -⟩ := getD_takeWhile table n (0, 0)
  obtain ⟨-, hstopped⟩ := getD_takeWhile table n (stop, 0)
  have hle : (table.toList.takeWhile (fun e => e.1 ≤ n)).length ≤ table.size :=
    (List.takeWhile_prefix _).length_le
  have hextra : extraOf table n = ((table.toList.takeWhile (fun e => e.1 ≤ n)).length - 1,
      bitsOfNat (table.getD ((table.toList.takeWhile (fun e => e.1 ≤ n)).length - 1) (0, 0)).2
        (n - (table.getD ((table.toList.takeWhile (fun e => e.1 ≤ n)).length - 1) (0, 0)).1)) := rfl
  generalize (table.toList.takeWhile (fun e => e.1 ≤ n)).length = passed at *
  -- The place is the last one with a least value that is not too large.
  obtain ⟨place, rfl⟩ : ∃ place, passed = place + 1 := by
    refine Nat.exists_eq_add_one_of_ne_zero ?_
    rintro rfl
    obtain hempty | hsize := Nat.eq_zero_or_pos table.size
    · rw [Array.getD_eq_getD_getElem?, Array.getElem?_eq_none hempty.le] at hfirst
      exact Nat.not_lt.2 hfirst hn
    · exact Nat.not_lt.2 hfirst (hstopped hsize)
  rw [Nat.add_sub_cancel] at hextra
  have hnext : n < (table.getD (place + 1) (stop, 0)).1 := by
    obtain hlt | hlast := hle.lt_or_eq
    · exact hstopped hlt
    · rwa [Array.getD_eq_getD_getElem?, Array.getElem?_eq_none hlast.ge]
  have hleast := hpassed place (Nat.lt_succ_self place)
  have hwidth := htable place hle
  have hat : table[place]? = some (table.getD place (0, 0)) := by
    rw [Array.getD_eq_getD_getElem?, Array.getElem?_eq_getElem hle, Option.getD_some]
  generalize table.getD place (0, 0) = entry at *
  rw [hextra]
  refine ⟨hle, ?_⟩
  simp only [readExtra?, hat]
  rw [splitBits?_bitsOfNat_append (by omega)]
  simp only [Nat.add_sub_cancel' hleast]

end Tables

section Content

/-- Whether codes read what a table of words writes for the parts of a block and for its end. -/
structure BlockCode.Suits (code : BlockCode) (literals distances : PrefixCode)
    (tokens : List Token) : Prop where
  /-- The end of the block is read. -/
  endOfBlock : literals.Reads code.literals endOfBlock
  /-- The octets that stand for themselves are read. -/
  literal : ∀ b, .literal b ∈ tokens → literals.Reads code.literals b.toNat
  /-- The lengths of the copies are read. -/
  length : ∀ l d, .copy l d ∈ tokens →
    literals.Reads code.literals (Gzip.endOfBlock + 1 + (extraOf lengthTable l).1)
  /-- Their distances are read. -/
  distance : ∀ l d, .copy l d ∈ tokens → distances.Reads code.distances (extraOf distanceTable d).1

theorem BlockCode.Suits.tail {code : BlockCode} {literals distances : PrefixCode} {token : Token}
    {tokens : List Token} (h : code.Suits literals distances (token :: tokens)) :
    code.Suits literals distances tokens where
  endOfBlock := h.endOfBlock
  literal b hb := h.literal b (List.mem_cons_of_mem _ hb)
  length l d hcopy := h.length l d (List.mem_cons_of_mem _ hcopy)
  distance l d hcopy := h.distance l d (List.mem_cons_of_mem _ hcopy)

variable {code : BlockCode} {literals distances : PrefixCode} {data : Array UInt8}
  {tokens : List Token}

/-- The length and the distance of a copy have places among the symbols. -/
theorem Token.StandsAt.places {i length distance : ℕ}
    (h : (Token.copy length distance).StandsAt data i) :
    (extraOf lengthTable length).1 < 29 ∧ (extraOf distanceTable distance).1 < 30 := by
  obtain ⟨hlengths, hdistances, -⟩ := h
  exact ⟨(readExtra?_extraOf isContiguous_lengthTable (show 3 ≤ length from hlengths.1)
      (Nat.lt_succ_of_le hlengths.2) []).1,
    (readExtra?_extraOf isContiguous_distanceTable (show 1 ≤ distance from hdistances.1)
      (Nat.lt_succ_of_le hdistances.2) []).1⟩

/-- A part is read back under codes that suit it. -/
theorem readToken?_token {i : ℕ} {token : Token} (htoken : token.StandsAt data i)
    (hcode : code.Suits literals distances (token :: tokens)) (rest : List Bool) :
    readToken? literals distances (code.token token ++ rest) = some (some token, rest) := by
  cases token with
  | literal b =>
    have hread := hcode.literal b List.mem_cons_self rest
    simp only [BlockCode.token, readToken?, hread]
    rw [if_pos (show b.toNat < endOfBlock from b.toNat_lt), UInt8.ofNat_toNat]
  | copy length distance =>
    obtain ⟨hlengths, hdistances, -⟩ := htoken
    have hlength := hcode.length length distance List.mem_cons_self
    have hdistance := hcode.distance length distance List.mem_cons_self
    have hextra := fun bits => (readExtra?_extraOf isContiguous_lengthTable
      (show 3 ≤ length from hlengths.1) (Nat.lt_succ_of_le hlengths.2) bits).2
    have hmore := fun bits => (readExtra?_extraOf isContiguous_distanceTable
      (show 1 ≤ distance from hdistances.1) (Nat.lt_succ_of_le hdistances.2) bits).2
    have hplace : endOfBlock + 1 + (extraOf lengthTable length).1 - (endOfBlock + 1) =
        (extraOf lengthTable length).1 := Nat.add_sub_cancel_left ..
    have hcopy : readCopy? distances (extraOf lengthTable length).1
        ((extraOf lengthTable length).2 ++
          (code.distances.getD (extraOf distanceTable distance).1 [] ++
            ((extraOf distanceTable distance).2 ++ rest))) =
        some (.copy length distance, rest) := by
      simp only [readCopy?, hextra (_ ++ _), hdistance (_ ++ _), hmore rest, Option.map_some]
    simp only [BlockCode.token, readToken?, List.append_assoc, hlength (_ ++ _)]
    rw [if_neg (by omega), if_neg (by omega), hplace, hcopy, Option.map_some]

/-- The parts of a block are read back under codes that suit them. -/
theorem inflateCoded_content {i stop : ℕ} (hcover : Cover data i tokens stop)
    (hcode : code.Suits literals distances tokens) {bound : ℕ} (hbound : tokens.length < bound)
    (rest : List Bool) :
    inflateCoded literals distances bound ⟨data.extract 0 i, code.content tokens ++ rest⟩ =
      some ⟨data.extract 0 stop, rest⟩ := by
  -- What was inflated so far is the data up to the place where the next part stands.
  induction hcover generalizing bound with
  | nil =>
    obtain ⟨bound, rfl⟩ := Nat.exists_eq_add_one_of_ne_zero (Nat.ne_zero_of_lt hbound)
    have hread : readToken? literals distances (code.content [] ++ rest) = some (none, rest) := by
      simp only [BlockCode.content, List.flatMap_nil, List.nil_append, readToken?,
        hcode.endOfBlock rest, Nat.lt_irrefl, if_false, if_true]
    simp only [inflateCoded, hread]
  | @cons i stop token tokens htoken _ ih =>
    obtain ⟨bound, rfl⟩ := Nat.exists_eq_add_one_of_ne_zero (Nat.ne_zero_of_lt hbound)
    have hsplit : code.content (token :: tokens) = code.token token ++ code.content tokens := by
      rw [BlockCode.content, List.flatMap_cons, List.append_assoc, BlockCode.content]
    simp only [hsplit, List.append_assoc, inflateCoded, readToken?_token htoken hcode,
      htoken.expand]
    exact ih hcode.tail (Nat.lt_of_succ_lt_succ hbound)

/-- Each part is written in some bits, so that the number of bits bounds the number of parts. -/
theorem length_le_length_content {i stop : ℕ} (hcover : Cover data i tokens stop)
    (hcode : code.Suits literals distances tokens) :
    tokens.length ≤ (code.content tokens).length := by
  induction hcover with
  | nil => exact Nat.zero_le _
  | @cons i stop token tokens htoken _ ih =>
    have hpos : 0 < (code.token token).length := by
      cases token with
      | literal b => exact (hcode.literal b List.mem_cons_self).length_pos
      | copy length distance =>
        have := (hcode.length length distance List.mem_cons_self).length_pos
        simp only [BlockCode.token, List.length_append]
        omega
    have hrest := ih hcode.tail
    rw [BlockCode.content, List.length_append] at hrest ⊢
    rw [List.flatMap_cons, List.length_append, List.length_cons]
    omega

end Content

section MadeCodes

/-- Whether the symbols of a part are counted. -/
def Token.IsCounted (counts : Array ℕ × Array ℕ) : Token → Prop
  | .literal b => 0 < counts.1.getD b.toNat 0
  | .copy length distance =>
    0 < counts.1.getD (endOfBlock + 1 + (extraOf lengthTable length).1) 0 ∧
      0 < counts.2.getD (extraOf distanceTable distance).1 0

theorem getD_modify_succ (counts : Array ℕ) (i j : ℕ) :
    (counts.modify i (· + 1)).getD j 0 =
      counts.getD j 0 + if i = j ∧ j < counts.size then 1 else 0 := by
  by_cases hj : j < counts.size
  · by_cases hi : i = j <;> simp [Array.getD_eq_getD_getElem?, Array.getElem_modify, hj, hi]
  · simp [Array.getD_eq_getD_getElem?, hj]

theorem size_countToken (counts : Array ℕ × Array ℕ) (token : Token) :
    (countToken counts token).1.size = counts.1.size ∧
      (countToken counts token).2.size = counts.2.size := by
  cases token <;> simp [countToken]

/-- Counts only grow. -/
theorem le_countToken (counts : Array ℕ × Array ℕ) (token : Token) (s : ℕ) :
    counts.1.getD s 0 ≤ (countToken counts token).1.getD s 0 ∧
      counts.2.getD s 0 ≤ (countToken counts token).2.getD s 0 := by
  cases token <;> simp only [countToken, getD_modify_succ, Nat.le_add_right, Nat.le_refl, and_self]

theorem Token.IsCounted.countToken {counts : Array ℕ × Array ℕ} {token : Token}
    (h : token.IsCounted counts) (other : Token) : token.IsCounted (countToken counts other) := by
  cases token with
  | literal b => exact Nat.lt_of_lt_of_le h (le_countToken counts other _).1
  | copy length distance =>
    exact ⟨Nat.lt_of_lt_of_le h.1 (le_countToken counts other _).1,
      Nat.lt_of_lt_of_le h.2 (le_countToken counts other _).2⟩

/-- A part that stands somewhere is counted: its symbols have places among the counts. -/
theorem Token.StandsAt.isCounted {data : Array UInt8} {i : ℕ} {token : Token}
    (h : token.StandsAt data i) {counts : Array ℕ × Array ℕ} (hliterals : counts.1.size = 286)
    (hdistances : counts.2.size = 30) : token.IsCounted (Gzip.countToken counts token) := by
  cases token with
  | literal b =>
    have hb : b.toNat < 256 := b.toNat_lt
    simp only [IsCounted, Gzip.countToken, getD_modify_succ, true_and]
    rw [if_pos (by omega)]
    exact Nat.succ_pos _
  | copy length distance =>
    obtain ⟨hlength, hdistance⟩ := h.places
    simp only [IsCounted, Gzip.countToken, getD_modify_succ, true_and]
    rw [if_pos (by rw [endOfBlock]; omega), if_pos (by omega)]
    exact ⟨Nat.succ_pos _, Nat.succ_pos _⟩

/-- Counting the parts of a block counts all of them. -/
theorem foldl_countToken {data : Array UInt8} {i stop : ℕ} {tokens : List Token}
    (hcover : Cover data i tokens stop) (counts : Array ℕ × Array ℕ)
    (hliterals : counts.1.size = 286) (hdistances : counts.2.size = 30) :
    (tokens.foldl countToken counts).1.size = 286 ∧
      (tokens.foldl countToken counts).2.size = 30 ∧
      (∀ s, counts.1.getD s 0 ≤ (tokens.foldl countToken counts).1.getD s 0) ∧
      (∀ token, token.IsCounted counts ∨ token ∈ tokens →
        token.IsCounted (tokens.foldl countToken counts)) := by
  -- A part that was counted stays counted, as the counts only grow.
  induction hcover generalizing counts with
  | nil => exact ⟨hliterals, hdistances, fun _ => le_rfl, fun token h => h.elim id nofun⟩
  | @cons i stop token tokens htoken _ ih =>
    obtain ⟨hliterals', hdistances', hle, hall⟩ := ih (countToken counts token)
      ((size_countToken counts token).1.trans hliterals)
      ((size_countToken counts token).2.trans hdistances)
    refine ⟨hliterals', hdistances', fun s => (le_countToken counts token s).1.trans (hle s),
      fun other hother => hall other ?_⟩
    obtain hcounted | hmem := hother
    · exact .inl (hcounted.countToken token)
    · obtain rfl | hmem := List.mem_cons.1 hmem
      · exact .inl (htoken.isCounted hliterals hdistances)
      · exact .inr hmem

/-- There are counts for all symbols, the end of the block is counted, and so are the parts. -/
theorem occurrences_spec {data : Array UInt8} {i stop : ℕ} {tokens : List Token}
    (hcover : Cover data i tokens stop) :
    ∃ literals distances : Array ℕ, occurrences tokens = (literals.toList, distances.toList) ∧
      literals.size = 286 ∧ distances.size = 30 ∧ 0 < literals.getD endOfBlock 0 ∧
      ∀ token ∈ tokens, token.IsCounted (literals, distances) := by
  obtain ⟨hliterals, hdistances, hle, hall⟩ := foldl_countToken hcover
    ((Array.replicate literalSymbols 0).setIfInBounds endOfBlock 1,
      Array.replicate distanceSymbols 0) (by simp [literalSymbols]) (by simp [distanceSymbols])
  refine ⟨_, _, rfl, hliterals, hdistances, Nat.lt_of_lt_of_le ?_ (hle endOfBlock),
    fun token htoken => hall token (.inr htoken)⟩
  simp [Array.getD_eq_getD_getElem?, literalSymbols, endOfBlock]

theorem exists_getElem?_toList {counts : Array ℕ} {s : ℕ} (h : 0 < counts.getD s 0) :
    ∃ n, counts.toList[s]? = some n ∧ n ≠ 0 := by
  rw [Array.getD_eq_getD_getElem?] at h
  cases hs : counts[s]? with
  | none => simp [hs] at h
  | some n =>
    rw [hs, Option.getD_some] at h
    exact ⟨n, by rw [Array.getElem?_toList, hs], h.ne'⟩

/-- The codes that are made for the parts of a block suit them. -/
theorem suits_codeLengths {data : Array UInt8} {i stop : ℕ} {tokens : List Token}
    (hcover : Cover data i tokens stop) :
    BlockCode.Suits
      ⟨wordsOf (codeLengths PrefixCode.maxLength (occurrences tokens).1),
        wordsOf (codeLengths PrefixCode.maxLength (occurrences tokens).2)⟩
      (.ofLengths (codeLengths PrefixCode.maxLength (occurrences tokens).1))
      (.ofLengths (codeLengths PrefixCode.maxLength (occurrences tokens).2)) tokens := by
  obtain ⟨literals, distances, heq, hliterals, hdistances, hend, hall⟩ := occurrences_spec hcover
  have hreads : ∀ counts : Array ℕ, counts.size ≤ 2 ^ PrefixCode.maxLength →
      ∀ s, 0 < counts.getD s 0 →
        (PrefixCode.ofLengths (codeLengths PrefixCode.maxLength counts.toList)).Reads
          (wordsOf (codeLengths PrefixCode.maxLength counts.toList)) s := by
    intro counts hroom s hs
    obtain ⟨n, hn, hpos⟩ := exists_getElem?_toList hs
    exact reads_codeLengths (by decide) le_rfl hroom hn hpos
  have hroom : literals.size ≤ 2 ^ PrefixCode.maxLength := hliterals ▸ by decide
  have hroom' : distances.size ≤ 2 ^ PrefixCode.maxLength := hdistances ▸ by decide
  rw [heq]
  exact {
    endOfBlock := hreads literals hroom _ hend
    literal := fun b hb => hreads literals hroom _ (hall _ hb)
    length := fun l d hcopy => hreads literals hroom _ (hall _ hcopy).1
    distance := fun l d hcopy => hreads distances hroom' _ (hall _ hcopy).2 }

/-- The lengths of a code without the zeros at their end give the same code. -/
theorem ofLengths_trim (least : ℕ) (lengths : List ℕ) :
    PrefixCode.ofLengths (trim least lengths) = .ofLengths lengths := by
  obtain ⟨zeros, hzeros, -⟩ := exists_trim least lengths
  conv_rhs => rw [hzeros, PrefixCode.ofLengths_append_replicate]

/-- The number of lengths that are left is within the bounds that a block has for it. -/
theorem length_trim (least : ℕ) (lengths : List ℕ) (h : least ≤ lengths.length) :
    least ≤ (trim least lengths).length ∧ (trim least lengths).length ≤ lengths.length := by
  obtain ⟨-, -, hleast⟩ := exists_trim least lengths
  exact ⟨hleast h, List.length_take_le' _ _⟩

/-- The lengths that are kept are not all zero if some symbol occurs. -/
theorem exists_ne_zero_of_trim {limit least n s : ℕ} {occurrences : List ℕ} (hlimit : 0 < limit)
    (hroom : occurrences.length ≤ 2 ^ limit) (hs : occurrences[s]? = some n) (hn : n ≠ 0) :
    ∃ l ∈ trim least (codeLengths limit occurrences), l ≠ 0 := by
  obtain ⟨l, hl, hzero⟩ := codeLengths_eq_some hlimit hroom hs
  obtain ⟨zeros, hzeros, -⟩ := exists_trim least (codeLengths limit occurrences)
  have hmem := List.mem_of_getElem? hl
  rw [hzeros, List.mem_append] at hmem
  exact ⟨l, hmem.resolve_right fun h => hn (hzero.1 (List.eq_of_mem_replicate h)),
    fun h => hn (hzero.1 h)⟩

/-- The codes that are made for the parts of a block are read back at its start. -/
theorem readCodes?_madeCodes {data : Array UInt8} {i stop : ℕ} {tokens : List Token}
    (hcover : Cover data i tokens stop) (rest : List Bool) :
    readCodes? (givenCodes
        (trim 257 (codeLengths PrefixCode.maxLength (occurrences tokens).1))
        (trim 1 (codeLengths PrefixCode.maxLength (occurrences tokens).2)) ++ rest) =
      some (.ofLengths (codeLengths PrefixCode.maxLength (occurrences tokens).1),
        .ofLengths (codeLengths PrefixCode.maxLength (occurrences tokens).2), rest) := by
  obtain ⟨literals, distances, heq, hliterals, hdistances, hend, -⟩ := occurrences_spec hcover
  rw [heq]
  dsimp only
  have hroom : literals.toList.length ≤ 2 ^ PrefixCode.maxLength := by
    rw [Array.length_toList, hliterals]
    decide
  have hroom' : distances.toList.length ≤ 2 ^ PrefixCode.maxLength := by
    rw [Array.length_toList, hdistances]
    decide
  have hlengths := length_trim 257 (codeLengths PrefixCode.maxLength literals.toList)
    (by rw [length_codeLengths, Array.length_toList]; omega)
  have hlengths' := length_trim 1 (codeLengths PrefixCode.maxLength distances.toList)
    (by rw [length_codeLengths, Array.length_toList]; omega)
  rw [length_codeLengths, Array.length_toList] at hlengths hlengths'
  have hmax : ∀ l ∈ trim 257 (codeLengths PrefixCode.maxLength literals.toList) ++
      trim 1 (codeLengths PrefixCode.maxLength distances.toList), l ≤ PrefixCode.maxLength := by
    intro l hl
    obtain hl | hl := List.mem_append.1 hl
    · exact codeLengths_le (by decide) hroom l (List.mem_of_mem_take hl)
    · exact codeLengths_le (by decide) hroom' l (List.mem_of_mem_take hl)
  -- The end of the block occurs in every block.
  obtain ⟨n, hn, hpos⟩ := exists_getElem?_toList hend
  have hcodes := readCodes?_givenCodes (hliterals ▸ hlengths) (hdistances ▸ hlengths') hmax
    (exists_ne_zero_of_trim (by decide) hroom hn hpos)
    (by rw [ofLengths_trim]; exact isUsable_codeLengths hroom)
    (by rw [ofLengths_trim]; exact isUsable_codeLengths hroom') rest
  rwa [ofLengths_trim, ofLengths_trim] at hcodes

/-- A block under codes that are made for it is read back. -/
theorem inflateBlock_madeCoded {data : Array UInt8} {i stop : ℕ} {tokens : List Token}
    (hcover : Cover data i tokens stop) (rest : List Bool) :
    inflateBlock ⟨data.extract 0 i, madeCoded tokens ++ rest⟩ =
      some ⟨data.extract 0 stop, rest⟩ := by
  have hcode := suits_codeLengths hcover
  have hbound := length_le_length_content hcover hcode
  simp only [madeCoded, List.cons_append, List.append_assoc, inflateBlock, splitBits?,
    Bool.toNat_false, Bool.toNat_true, readCodes?_madeCodes hcover]
  refine inflateCoded_content hcover hcode (Nat.lt_succ_of_le (hbound.trans ?_)) rest
  rw [List.length_append]
  exact Nat.le_add_right _ _

end MadeCodes

section FixedCodes

theorem spaceOf_append (limit : ℕ) (lengths more : List ℕ) :
    spaceOf limit (lengths ++ more) = spaceOf limit lengths + spaceOf limit more := by
  rw [spaceOf, List.map_append, List.sum_append, spaceOf, spaceOf]

theorem spaceOf_replicate (limit n l : ℕ) :
    spaceOf limit (List.replicate n l) = n * if l = 0 then 0 else 2 ^ (limit - l) := by
  induction n with
  | zero => simp [spaceOf]
  | succ n ih => rw [List.replicate_succ, spaceOf_cons, ih, Nat.succ_mul, Nat.add_comm]

theorem mem_fixedLiteralLengths {l : ℕ} (h : l ∈ fixedLiteralLengths) : 7 ≤ l ∧ l ≤ 9 := by
  simp only [fixedLiteralLengths, List.mem_append, List.mem_replicate] at h
  omega

/-- The fixed code for literals and lengths reads all of its words. -/
theorem reads_fixedLiterals {s : ℕ} (hs : s < 288) :
    fixedLiteralCode.Reads BlockCode.fixed.literals s := by
  simp only [fixedLiteralCode, BlockCode.fixed]
  have hsize : s < fixedLiteralLengths.length := by
    simpa only [fixedLiteralLengths, List.length_append, List.length_replicate] using hs
  obtain ⟨hlow, hhigh⟩ := mem_fixedLiteralLengths (List.getElem_mem hsize)
  refine PrefixCode.reads_wordsOf _ ?_ (List.getElem?_eq_getElem hsize) (by omega)
    (hhigh.trans (by decide))
  rw [PrefixCode.space_ofLengths fun l hl => (mem_fixedLiteralLengths hl).2.trans (by decide),
    fixedLiteralLengths]
  simp only [spaceOf_append, spaceOf_replicate]
  decide

/-- The fixed code for distances reads all of its words. -/
theorem reads_fixedDistances {s : ℕ} (hs : s < 32) :
    fixedDistanceCode.Reads BlockCode.fixed.distances s := by
  simp only [fixedDistanceCode, BlockCode.fixed]
  refine PrefixCode.reads_wordsOf _ ?_ (List.getElem?_replicate_of_lt hs) (by decide) (by decide)
  rw [PrefixCode.space_ofLengths fun l hl => List.eq_of_mem_replicate hl ▸ by decide,
    spaceOf_replicate]
  decide

/-- The fixed codes suit all parts. -/
theorem suits_fixed {data : Array UInt8} {i stop : ℕ} {tokens : List Token}
    (hcover : Cover data i tokens stop) :
    BlockCode.fixed.Suits fixedLiteralCode fixedDistanceCode tokens := by
  constructor
  · exact reads_fixedLiterals (by decide)
  · intro b _
    exact reads_fixedLiterals (Nat.lt_trans b.toNat_lt (by decide))
  · intro l d hcopy
    refine reads_fixedLiterals ?_
    obtain ⟨j, hcopy⟩ := hcover.exists_standsAt _ hcopy
    have := hcopy.places.1
    rw [endOfBlock]
    omega
  · intro l d hcopy
    obtain ⟨j, hcopy⟩ := hcover.exists_standsAt _ hcopy
    exact reads_fixedDistances (Nat.lt_trans hcopy.places.2 (by decide))

/-- A block under the fixed codes is read back. -/
theorem inflateBlock_fixedCoded {data : Array UInt8} {i stop : ℕ} {tokens : List Token}
    (hcover : Cover data i tokens stop) (rest : List Bool) :
    inflateBlock ⟨data.extract 0 i, fixedCoded tokens ++ rest⟩ =
      some ⟨data.extract 0 stop, rest⟩ := by
  have hbound := length_le_length_content hcover (suits_fixed hcover)
  simp only [fixedCoded, List.cons_append, inflateBlock, splitBits?, Bool.toNat_false,
    Bool.toNat_true]
  refine inflateCoded_content hcover (suits_fixed hcover) (Nat.lt_succ_of_le (hbound.trans ?_)) rest
  rw [List.length_append]
  exact Nat.le_add_right _ _

end FixedCodes

section Stored

/-- Octets that are stored as they are are read back, where whole octets follow. -/
theorem inflateBlock_stored {output : Array UInt8} {offset : ℕ} {octets : Bytes} {rest : List Bool}
    (hlength : octets.length ≤ 65535)
    (hwhole : (offset + (stored offset octets ++ rest).length) % 8 = 0) :
    inflateBlock ⟨output, stored offset octets ++ rest⟩ =
      some ⟨output ++ octets.toArray, rest⟩ := by
  -- The padding goes up to a whole octet, behind the two bits that tell the kind of the block.
  set padding := (8 - (offset + 2) % 8) % 8 with hpadding
  have hstored : stored offset octets ++ rest = false :: false :: (List.replicate padding false ++
      (bitsOfNat 16 octets.length ++ (bitsOfNat 16 (65535 - octets.length)
        ++ (bitsOf octets ++ rest)))) := by
    simp [stored, ← hpadding, Nat.add_comm 2 padding, List.replicate_succ]
  have halign : align (List.replicate padding false ++ (bitsOfNat 16 octets.length
      ++ (bitsOfNat 16 (65535 - octets.length) ++ (bitsOf octets ++ rest)))) =
      bitsOfNat 16 octets.length ++ (bitsOfNat 16 (65535 - octets.length)
        ++ (bitsOf octets ++ rest)) := by
    refine align_append (by rw [List.length_replicate]; omega) ?_
    rw [hstored] at hwhole
    simp only [List.length_cons, List.length_append, List.length_replicate] at hwhole ⊢
    omega
  have hcontent : (bitsOf octets ++ rest).take (8 * octets.length) = bitsOf octets :=
    List.take_left' (length_bitsOf octets)
  have hrest : (bitsOf octets ++ rest).drop (8 * octets.length) = rest :=
    List.drop_left' (length_bitsOf octets)
  rw [hstored]
  simp only [inflateBlock, splitBits?, Bool.toNat_false, inflateStored, halign,
    splitBits?_bitsOfNat_append (show octets.length < 2 ^ 16 by omega),
    splitBits?_bitsOfNat_append (show 65535 - octets.length < 2 ^ 16 by omega), hcontent, hrest,
    length_bitsOf, bytesOfBits_bitsOf, and_true]
  rw [if_pos (by omega)]

/-- However it is written, a block is inflated to what its parts stand for, where whole octets
follow it and the octets of a block that may be stored are not too many. -/
theorem exists_block {data : Array UInt8} {i stop : ℕ} {tokens : List Token}
    (hcover : Cover data i tokens stop) (isFinal isAtHand : Bool) (offset : ℕ)
    (hathand : isAtHand → (data.extract i stop).size ≤ 65535) :
    ∃ bits, block isFinal isAtHand offset (data.extract i stop).toList tokens = isFinal :: bits ∧
      ∀ rest, (offset + (isFinal :: (bits ++ rest)).length) % 8 = 0 →
        inflateBlock ⟨data.extract 0 i, bits ++ rest⟩ = some ⟨data.extract 0 stop, rest⟩ := by
  have hcoded : ∀ rest, inflateBlock ⟨data.extract 0 i,
      (if (data.extract i stop).toList.length < 48 then fixedCoded tokens else madeCoded tokens)
        ++ rest⟩ = some ⟨data.extract 0 stop, rest⟩ := by
    intro rest
    split
    · exact inflateBlock_fixedCoded hcover rest
    · exact inflateBlock_madeCoded hcover rest
  simp only [block]
  -- The octets are stored only where that is shorter than the code, whichever code it is.
  generalize (if (data.extract i stop).toList.length < 48 then fixedCoded tokens
    else madeCoded tokens) = coded at hcoded
  refine ⟨_, rfl, fun rest hwhole => ?_⟩
  split at hwhole
  next hstored =>
    have hjoined : data.extract 0 i ++ data.extract i stop = data.extract 0 stop := by
      rw [Array.extract_append_extract, Nat.min_eq_left (Nat.zero_le i), Nat.max_eq_right hcover.le]
    have hfew : (data.extract i stop).toList.length ≤ 65535 := by
      rw [Array.length_toList]
      exact hathand hstored.2.1
    have hwhole' : (offset + 1 +
        (stored (offset + 1) (data.extract i stop).toList ++ rest).length) % 8 = 0 := by
      rwa [Nat.add_assoc, Nat.add_comm 1]
    rw [if_pos hstored, inflateBlock_stored hfew hwhole', Array.toArray_toList, hjoined]
  next hlonger =>
    rw [if_neg hlonger]
    exact hcoded rest

end Stored

end Gzip

end TieredStore
