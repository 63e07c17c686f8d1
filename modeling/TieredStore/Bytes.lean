import TieredStore.Numerals

/-!
# Byte strings

A byte string is a list of octets. Counts and lengths are stored as words of eight octets, the
least significant octet first.

Main statements: a word has eight octets (`length_word`), and what is split off the front of a
text that starts with words is the numbers that were written (`splitWord?_word_append`,
`splitWords?_ofWords_append`).
-/

namespace TieredStore

/-- A string of octets. -/
abbrev Bytes := List UInt8

namespace Bytes

/-- The `k` least significant octets of `n`, the least significant one first. -/
def littleEndian : Nat → Nat → Bytes
  | 0, _ => []
  | k + 1, n => UInt8.ofNat n :: littleEndian k (n / 256)

/-- The number with the given octets, the least significant one first. -/
def toNat : Bytes → Nat
  | [] => 0
  | b :: bs => b.toNat + 256 * toNat bs

/-- A number as a word of eight octets. Numbers from `2 ^ 64` on lose their high digits. -/
def word (n : Nat) : Bytes := littleEndian 8 n

/-- The word at the front of `data` and what follows it, `none` if fewer than eight octets are
left. -/
def splitWord? (data : Bytes) : Option (Nat × Bytes) :=
  let front := data.take 8
  if front.length = 8 then some (toNat front, data.drop 8) else none

/-- The first `n` words of `data` and what follows them, `none` if fewer are there. The words are
read one by one, so a count that `data` cannot hold is refused as soon as `data` ends. -/
def splitWords? : Nat → Bytes → Option (List Nat × Bytes)
  | 0, data => some ([], data)
  | n + 1, data =>
    match splitWord? data with
    | none => none
    | some (first, data) =>
      match splitWords? n data with
      | none => none
      | some (others, rest) => some (first :: others, rest)

/-- The words that make up `data`, `none` if its length is not a multiple of eight. -/
def words? (data : Bytes) : Option (List Nat) :=
  if data.length % 8 = 0 then (splitWords? (data.length / 8) data).map Prod.fst else none

/-- Words one after the other. -/
def ofWords (ns : List Nat) : Bytes := (ns.map word).flatten

@[simp]
theorem length_littleEndian (k n : Nat) : (littleEndian k n).length = k := by
  induction k generalizing n with
  | zero => rfl
  | succ k ih => simp [littleEndian, ih]

@[simp]
theorem length_word (n : Nat) : (word n).length = 8 := length_littleEndian 8 n

/-- Octets that are enough for a number read back as that number. -/
theorem toNat_littleEndian (k n : Nat) (h : n < 256 ^ k) : toNat (littleEndian k n) = n := by
  induction k generalizing n with
  | zero => simp [littleEndian, toNat] at h ⊢; omega
  | succ k ih =>
    have hd : n / 256 < 256 ^ k := by
      rw [Nat.div_lt_iff_lt_mul (by decide)]
      simpa [Nat.pow_succ] using h
    simp only [littleEndian, toNat, ih _ hd, UInt8.toNat_ofNat']
    omega

/-- A word reads back as the number it was written from. -/
theorem toNat_word (n : Nat) (h : n < 2 ^ 64) : toNat (word n) = n :=
  toNat_littleEndian 8 n (by simpa using h)

/-- A word is split off the front of whatever follows it. -/
theorem splitWord?_word_append (n : Nat) (rest : Bytes) (h : n < 2 ^ 64) :
    splitWord? (word n ++ rest) = some (n, rest) := by
  have hl := length_word n
  simp [splitWord?, hl, toNat_word n h]

@[simp]
theorem length_ofWords (ns : List Nat) : (ofWords ns).length = 8 * ns.length := by
  induction ns with
  | nil => rfl
  | cons n ns ih =>
    simp only [ofWords, List.map_cons, List.flatten_cons, List.length_append, length_word,
      List.length_cons] at ih ⊢
    omega

/-- Words are split off the front of whatever follows them. -/
theorem splitWords?_ofWords_append (ns : List Nat) (rest : Bytes) (h : ∀ n ∈ ns, n < 2 ^ 64) :
    splitWords? ns.length (ofWords ns ++ rest) = some (ns, rest) := by
  induction ns with
  | nil => rfl
  | cons n ns ih =>
    have hn := h n (by simp)
    have hns := ih (fun m hm => h m (by simp [hm]))
    simp only [ofWords, List.map_cons, List.flatten_cons, List.append_assoc, List.length_cons,
      splitWords?] at hns ⊢
    simp [splitWord?_word_append n _ hn, hns]

end Bytes

end TieredStore
