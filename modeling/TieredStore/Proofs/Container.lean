import Mathlib.Data.Nat.Notation
import TieredStore.Container.Positions

/-!
# Containers are read exactly

The readers of a container accept a byte string exactly when it starts with packed frames, and they
give these frames. Each reader of a part (a word, a table of words, pieces) has an equivalence that
says which data it accepts and what it leaves; the equivalence for containers is put together from
them.

* `Bytes.splitWords?_eq_some_iff`, `Container.cut?_eq_some_iff`, `Container.unpack?_eq_some_iff`:
  what is read was written that way.
* `Container.unpackAt_eq`: reading by positions runs into no fault and agrees with taking apart from
  the front.
* `Container.unpackAt_exact`: the container format is read exactly.
-/

namespace TieredStore

namespace Bytes

/-- Octets are the digits of the number that they stand for. -/
theorem littleEndian_toNat (octets : Bytes) :
    littleEndian octets.length (toNat octets) = octets := by
  induction octets with
  | nil => rfl
  | cons b octets ih =>
    have hb : b.toNat < 256 := b.toNat_lt
    have hlow : UInt8.ofNat (b.toNat + 256 * toNat octets) = b := by
      apply UInt8.toNat_inj.1
      rw [UInt8.toNat_ofNat']
      omega
    have hhigh : (b.toNat + 256 * toNat octets) / 256 = toNat octets := by omega
    rw [List.length_cons, toNat, littleEndian, hlow, hhigh, ih]

theorem toNat_lt (octets : Bytes) : toNat octets < 256 ^ octets.length := by
  induction octets with
  | nil => simp [toNat]
  | cons b octets ih =>
    have hb : b.toNat < 256 := b.toNat_lt
    rw [toNat, List.length_cons, Nat.pow_succ]
    omega

/-- A word is split off exactly from data that starts with it. -/
theorem splitWord?_eq_some_iff {data rest : Bytes} {n : ℕ} :
    splitWord? data = some (n, rest) ↔ n < 2 ^ 64 ∧ data = word n ++ rest := by
  constructor
  · intro h
    simp only [splitWord?, Option.ite_none_right_eq_some, Option.some.injEq, Prod.mk.injEq] at h
    obtain ⟨hlength, rfl, rfl⟩ := h
    have hlt := toNat_lt (data.take 8)
    have hword := littleEndian_toNat (data.take 8)
    rw [hlength] at hlt hword
    exact ⟨by simpa using hlt, by rw [word, hword, List.take_append_drop]⟩
  · rintro ⟨hn, rfl⟩
    exact splitWord?_word_append n rest hn

/-- Words are split off exactly from data that starts with them. -/
theorem splitWords?_eq_some_iff {count : ℕ} {data rest : Bytes} {ns : List ℕ} :
    splitWords? count data = some (ns, rest) ↔
      ns.length = count ∧ (∀ n ∈ ns, n < 2 ^ 64) ∧ data = ofWords ns ++ rest := by
  constructor
  · intro h
    induction count generalizing data ns with
    | zero =>
      simp only [splitWords?, Option.some.injEq, Prod.mk.injEq] at h
      obtain ⟨rfl, rfl⟩ := h
      simp [ofWords]
    | succ count ih =>
      rw [splitWords?] at h
      split at h
      · cases h
      next first tail hfirst =>
        split at h
        · cases h
        next others rest' hothers =>
          simp only [Option.some.injEq, Prod.mk.injEq] at h
          obtain ⟨rfl, rfl⟩ := h
          obtain ⟨hlt, rfl⟩ := splitWord?_eq_some_iff.1 hfirst
          obtain ⟨hlength, hall, rfl⟩ := ih hothers
          exact ⟨by simp [hlength], by simpa using ⟨hlt, hall⟩, by simp [ofWords]⟩
  · rintro ⟨rfl, hall, rfl⟩
    exact splitWords?_ofWords_append ns rest hall

end Bytes

namespace Container

/-- Pieces are cut off exactly from data that starts with them. -/
theorem cut?_eq_some_iff {lengths : List ℕ} {data : Bytes} {frames : List Bytes} :
    cut? lengths data = some frames ↔
      frames.map List.length = lengths ∧ ∃ rest, data = frames.flatten ++ rest := by
  constructor
  · intro h
    induction lengths generalizing data frames with
    | nil =>
      simp only [cut?, Option.some.injEq] at h
      subst h
      simp
    | cons n lengths ih =>
      simp only [cut?, Option.ite_none_right_eq_some, Option.map_eq_some_iff] at h
      obtain ⟨hlength, frames, hframes, rfl⟩ := h
      obtain ⟨hlengths, rest, hrest⟩ := ih hframes
      refine ⟨by rw [List.map_cons, hlength, hlengths], rest, ?_⟩
      rw [List.flatten_cons, List.append_assoc, ← hrest, List.take_append_drop]
  · rintro ⟨rfl, rest, rfl⟩
    exact cut?_flatten_append frames rest

/-- The number of frames and their lengths can be stored in words. -/
def Fits (frames : List Bytes) : Prop :=
  frames.length < 2 ^ 64 ∧ ∀ f ∈ frames, f.length < 2 ^ 64

theorem unpack_pack {frames : List Bytes} (h : Fits frames) :
    unpack (pack frames) = .ok frames := by
  simpa using unpack_pack_append frames [] h.1 h.2

/-- Frames are found exactly in data that starts with them, packed. -/
theorem unpack?_eq_some_iff {data : Bytes} {frames : List Bytes} :
    unpack? data = some frames ↔ Fits frames ∧ ∃ rest, data = pack frames ++ rest := by
  constructor
  · intro h
    rw [unpack?] at h
    split at h
    · cases h
    next count tail hcount =>
      split at h
      · cases h
      next lengths body hlengths =>
        obtain ⟨hlt, rfl⟩ := Bytes.splitWord?_eq_some_iff.1 hcount
        obtain ⟨rfl, hall, rfl⟩ := Bytes.splitWords?_eq_some_iff.1 hlengths
        obtain ⟨rfl, rest, rfl⟩ := cut?_eq_some_iff.1 h
        exact ⟨⟨by simpa using hlt, by simpa using hall⟩, rest, by simp [pack, Bytes.ofWords]⟩
  · rintro ⟨⟨hcount, hlengths⟩, rest, rfl⟩
    have hunpack := unpack_pack_append frames rest hcount hlengths
    rw [unpack] at hunpack
    split at hunpack
    · cases hunpack
    next hsome => rw [hsome, Except.ok.inj hunpack]

theorem unpack_eq_ok_iff {data : Bytes} {frames : List Bytes} :
    unpack data = .ok frames ↔ Fits frames ∧ ∃ rest, data = pack frames ++ rest := by
  rw [← unpack?_eq_some_iff, unpack]
  split <;> simp [*]

/-- A container that ends early is refused. -/
theorem unpack_take_pack {frames : List Bytes} (h : Fits frames) {n : ℕ}
    (hn : n < (pack frames).length) : unpack ((pack frames).take n) = .error truncated := by
  rw [unpack]
  split
  · rfl
  next others hothers =>
    -- Frames at the front of a prefix are at the front of the whole, so they are the frames, and
    -- these do not fit in the prefix.
    obtain ⟨hfits, rest, hprefix⟩ := unpack?_eq_some_iff.1 hothers
    have hwhole : unpack (pack frames) = .ok others := by
      refine unpack_eq_ok_iff.2 ⟨hfits, rest ++ (pack frames).drop n, ?_⟩
      rw [← List.append_assoc, ← hprefix, List.take_append_drop]
    rw [unpack_pack h] at hwhole
    cases hwhole
    have hlength := congrArg List.length hprefix
    rw [List.length_take, List.length_append] at hlength
    omega

/-- Packed frames fit in the data that holds them, so their lengths fit in words. -/
theorem fits_of_length_lt {frames : List Bytes} (h : (pack frames).length < 2 ^ 64) :
    Fits frames := by
  rw [length_pack] at h
  refine ⟨by omega, fun f hf => ?_⟩
  have hle := (List.sublist_flatten_of_mem hf).length_le
  rw [List.length_flatten] at hle
  omega

/-- Data starts with one list of packed frames at most. -/
theorem eq_of_pack_append {frames others : List Bytes} {rest rest' : Bytes}
    (hlength : (pack frames ++ rest).length < 2 ^ 64)
    (h : pack frames ++ rest = pack others ++ rest') : frames = others := by
  have hlength' := hlength
  rw [h, List.length_append] at hlength'
  rw [List.length_append] at hlength
  have hframes : unpack (pack frames ++ rest) = .ok frames :=
    unpack_eq_ok_iff.2 ⟨fits_of_length_lt (by omega), rest, rfl⟩
  have hothers : unpack (pack others ++ rest') = .ok others :=
    unpack_eq_ok_iff.2 ⟨fits_of_length_lt (by omega), rest', rfl⟩
  rw [h, hothers, Except.ok.injEq] at hframes
  exact hframes.symm

/-! ### Reading by positions -/

/-- A part of a container, or the refusal of data that ends before it. -/
def orTruncated {α : Type} : Option α → Except Error α
  | none => .error truncated
  | some a => .ok a

theorem unpack_eq (data : Bytes) : unpack data = orTruncated (unpack? data) := by
  rw [unpack]
  split <;> simp [orTruncated, *]

/-- A computation that has found a part goes on with it, or refuses the data. -/
theorem orTruncated_bind {α β : Type} (part : Option α) (f : α → Positional β) :
    (show Positional α from .ok (orTruncated part)) >>= f =
      match part with
      | none => .ok (.error truncated)
      | some a => f a := by
  cases part <;> rfl

/-- A position within the range of machine words is computed. -/
theorem position_bind {β : Type} {n : ℕ} (hn : n < 2 ^ 64) (f : ℕ → Positional β) :
    position n >>= f = f n := by
  rw [position, if_pos hn]
  rfl

/-- What is behind a part of the data starts where the part ends. -/
theorem drop_add_length {data part rest : Bytes} {offset : ℕ}
    (h : data.drop offset = part ++ rest) :
    data.drop (offset + part.length) = rest := by
  rw [← List.drop_drop, h, List.drop_left]

/-- The word at a position is the one at the front of what follows the position. -/
theorem wordAt_eq (data : Bytes) {offset : ℕ} (h : offset + 8 < 2 ^ 64) :
    wordAt data offset =
      .ok (orTruncated ((Bytes.splitWord? (data.drop offset)).map Prod.fst)) := by
  rw [wordAt, position_bind h, piece?, Bytes.splitWord?]
  have hstop : offset + 8 - offset = 8 := by omega
  by_cases hlength : offset + 8 ≤ data.length
  · have hfront : ((data.drop offset).take 8).length = 8 := by simp; omega
    rw [if_pos ⟨by omega, hlength⟩, hstop]
    simp only [hfront, if_true]
    rfl
  · have hfront : ((data.drop offset).take 8).length ≠ 8 := by simp; omega
    rw [if_neg (by omega)]
    simp only [hfront, if_false]
    rfl

/-- Entries of the table are the words that follow it, as long as it starts within the data. It is
refused at the first entry beyond the data, so positions stay in their range for any number of
entries. -/
theorem lengthsFrom_eq {data : Bytes} (hdata : data.length < 2 ^ 63) (n : ℕ) {i : ℕ}
    (hi : 8 * (i + 1) ≤ data.length) :
    lengthsFrom data i n =
      .ok (orTruncated ((Bytes.splitWords? n (data.drop (8 * (i + 1)))).map Prod.fst)) := by
  induction n generalizing i with
  | zero => rfl
  | succ n ih =>
    -- This entry starts within the data, so its position and the next one are in range.
    rw [lengthsFrom, position_bind (by omega), position_bind (by omega),
      wordAt_eq data (by omega), orTruncated_bind, Bytes.splitWords?]
    cases hfirst : Bytes.splitWord? (data.drop (8 * (i + 1))) with
    | none => rfl
    | some split =>
      obtain ⟨first, tail⟩ := split
      have hsplit := (Bytes.splitWord?_eq_some_iff.1 hfirst).2
      have hword := congrArg List.length hsplit
      simp only [List.length_drop, List.length_append, Bytes.length_word] at hword
      have htail : data.drop (8 * (i + 1 + 1)) = tail := by
        rw [← drop_add_length hsplit, Bytes.length_word]
        rfl
      simp only [Option.map_some]
      rw [ih (by omega), orTruncated_bind, htail]
      cases Bytes.splitWords? n tail <;> rfl

/-- Frames from a position on are pieces of what follows the position. -/
theorem framesFrom_eq {data : Bytes} (hdata : data.length < 2 ^ 63) (lengths : List ℕ) {offset : ℕ}
    (hoffset : offset ≤ data.length) :
    framesFrom data offset lengths = .ok (orTruncated (cut? lengths (data.drop offset))) := by
  induction lengths generalizing offset with
  | nil => rfl
  | cons n lengths ih =>
    rw [framesFrom, cut?]
    by_cases hlength : offset + n ≤ data.length
    · have hfront : ((data.drop offset).take n).length = n := by simp; omega
      have hpiece : piece? data offset (offset + n) = some ((data.drop offset).take n) := by
        rw [piece?, if_pos ⟨by omega, hlength⟩, Nat.add_sub_cancel_left]
      rw [if_pos hfront, if_neg (by omega), if_neg (by omega)]
      simp only [hpiece]
      rw [ih hlength, orTruncated_bind, List.drop_drop]
      cases cut? lengths (data.drop (offset + n)) <;> rfl
    · have hfront : ((data.drop offset).take n).length ≠ n := by simp; omega
      rw [if_neg hfront]
      -- The sum of the position and the length may be too large for a word, or just for the data.
      by_cases hstop : offset + n ≥ 2 ^ 64
      · rw [if_pos hstop]
        rfl
      · rw [if_neg hstop, if_pos (by omega)]
        rfl

/-- Reading by positions runs into no fault, whatever count and lengths the data gives, and has the
same answer as taking the data apart from its front. -/
theorem unpackAt_eq {data : Bytes} (hdata : data.length < 2 ^ 63) :
    unpackAt data = .ok (unpack data) := by
  rw [unpackAt, wordAt_eq data (by omega), orTruncated_bind, unpack_eq, unpack?, List.drop_zero]
  cases hcount : Bytes.splitWord? data with
  | none => rfl
  | some split =>
    obtain ⟨count, table⟩ := split
    have hsplit := (Bytes.splitWord?_eq_some_iff.1 hcount).2
    have hlength := congrArg List.length hsplit
    simp only [List.length_append, Bytes.length_word] at hlength
    have htable : data.drop 8 = table := by
      rw [hsplit, List.drop_left' (Bytes.length_word count)]
    simp only [Option.map_some]
    rw [lengthsFrom_eq hdata count (by omega), orTruncated_bind, htable]
    cases hlengths : Bytes.splitWords? count table with
    | none => rfl
    | some split =>
      obtain ⟨lengths, body⟩ := split
      obtain ⟨hcounted, -, hbody⟩ := Bytes.splitWords?_eq_some_iff.1 hlengths
      have hread := congrArg List.length hbody
      simp only [List.length_append, Bytes.length_ofWords, hcounted] at hread
      -- The table was in the data, so the position behind it is, too.
      have hdrop : data.drop (8 * (count + 1)) = body := by
        rw [← drop_add_length (htable.trans hbody), Bytes.length_ofWords, hcounted]
        congr 1
        omega
      simp only [Option.map_some]
      rw [position_bind (by omega), position_bind (by omega),
        framesFrom_eq hdata lengths (by omega), hdrop]

theorem unpackAt_eq_ok_iff {data : Bytes} (hdata : data.length < 2 ^ 63) {frames : List Bytes} :
    unpackAt data = .ok (.ok frames) ↔ ∃ rest, data = pack frames ++ rest := by
  rw [unpackAt_eq hdata, Except.ok.injEq, unpack_eq_ok_iff]
  refine and_iff_right_of_imp ?_
  rintro ⟨rest, rfl⟩
  rw [List.length_append] at hdata
  exact fits_of_length_lt (by omega)

theorem unpackAt_eq_error {data : Bytes} (hdata : data.length < 2 ^ 63)
    (hother : ∀ frames rest, data ≠ pack frames ++ rest) :
    unpackAt data = .ok (.error (.deserialization "truncated spill file")) := by
  rw [unpackAt_eq hdata, unpack]
  split
  · rfl
  next frames hframes =>
    obtain ⟨-, rest, hrest⟩ := unpack?_eq_some_iff.1 hframes
    exact absurd hrest (hother frames rest)

/-- The container format is read exactly. Data that starts with packed frames is read as these
frames, all other data is refused, and no data makes the reader form a position that is no machine
word or ask for a piece beyond the end. So packed frames are read back, no others are packed in the
same way, and no part of a container that ends early is accepted. -/
theorem unpackAt_exact (data : Bytes) (hdata : data.length < 2 ^ 63) :
    unpackAt data = .ok (unpack data) ∧
    (∀ frames, unpackAt data = .ok (.ok frames) ↔ ∃ rest, data = pack frames ++ rest) ∧
    ((∀ frames rest, data ≠ pack frames ++ rest) →
      unpackAt data = .ok (.error (.deserialization "truncated spill file"))) ∧
    ∀ frames, data = pack frames →
      unpackAt data = .ok (.ok frames) ∧
      (∀ others, pack others = data → others = frames) ∧
      ∀ n < data.length,
        unpackAt (data.take n) = .ok (.error (.deserialization "truncated spill file")) := by
  refine ⟨unpackAt_eq hdata, fun frames => unpackAt_eq_ok_iff hdata,
    fun hother => unpackAt_eq_error hdata hother, ?_⟩
  rintro frames rfl
  refine ⟨(unpackAt_eq_ok_iff hdata).2 ⟨[], by simp⟩, fun others hothers => ?_, fun n hn => ?_⟩
  · refine eq_of_pack_append ?_ (congrArg (· ++ []) hothers)
    rw [List.append_nil, hothers]
    omega
  · refine unpackAt_eq_error (by rw [List.length_take]; omega) fun others rest hprefix => ?_
    -- Frames at the front of a prefix are at the front of the whole, so they are the frames, and
    -- these do not fit in the prefix.
    have hwhole : pack frames ++ [] = pack others ++ (rest ++ (pack frames).drop n) := by
      rw [List.append_nil, ← List.append_assoc, ← hprefix, List.take_append_drop]
    have hframes := eq_of_pack_append (by rw [List.append_nil]; omega) hwhole
    have hlength := congrArg List.length hprefix
    rw [← hframes, List.length_take, List.length_append] at hlength
    omega

/-- A container with an empty frame, and an octet behind it. -/
theorem unpackAt_exact_trailing :
    let data := pack [[7], []] ++ [9]
    data.length < 2 ^ 63 ∧ unpackAt data = .ok (.ok [[7], []]) ∧
      unpackAt data = .ok (unpack data) := by
  intro data
  have hdata : data.length < 2 ^ 63 := by decide
  obtain ⟨hagree, hread, -⟩ := unpackAt_exact data hdata
  exact ⟨hdata, (hread _).2 ⟨[9], rfl⟩, hagree⟩

/-- The largest count is refused at the first missing length. -/
example : unpackAt (List.replicate 8 255) = .ok (.error truncated) := by rfl

end Container

end TieredStore
