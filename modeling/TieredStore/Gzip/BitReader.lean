import TieredStore.Bytes

/-!
# Reading bits

Compressed data is read bit by bit, the least significant bit of an octet first. What is still to
be read is a list of bits whose length tells where octets begin, since the data ends with one.

Main statement: the octets are recovered from their bits (`bytesOfBits_bitsOf`).
-/

namespace TieredStore

namespace Gzip

/-- The bits of a number, the least significant one first. -/
def bitsOfNat : Nat → Nat → List Bool
  | 0, _ => []
  | k + 1, n => (n % 2 == 1) :: bitsOfNat k (n / 2)

/-- The number with the given bits, the least significant one first. -/
def natOfBits : List Bool → Nat
  | [] => 0
  | b :: bits => b.toNat + 2 * natOfBits bits

/-- The bits of a byte string. -/
def bitsOf (data : Bytes) : List Bool := data.flatMap (fun b => bitsOfNat 8 b.toNat)

/-- The octets that bits make up; what is left over at the end is dropped. -/
def bytesOfBits : List Bool → Bytes
  | a :: b :: c :: d :: e :: f :: g :: h :: bits =>
    UInt8.ofNat (natOfBits [a, b, c, d, e, f, g, h]) :: bytesOfBits bits
  | _ => []

/-- A number of `width` bits from the front, and what follows it. -/
def splitBits? : Nat → List Bool → Option (Nat × List Bool)
  | 0, bits => some (0, bits)
  | _ + 1, [] => none
  | width + 1, b :: bits =>
    match splitBits? width bits with
    | some (n, rest) => some (b.toNat + 2 * n, rest)
    | none => none

/-- The bits from the next boundary of octets on. -/
def align (bits : List Bool) : List Bool := bits.drop (bits.length % 8)

theorem natOfBits_bitsOfNat (k n : Nat) (h : n < 2 ^ k) : natOfBits (bitsOfNat k n) = n := by
  induction k generalizing n with
  | zero => simp at h; simp [bitsOfNat, natOfBits, h]
  | succ k ih =>
    have hn : n / 2 < 2 ^ k := by
      rw [Nat.pow_succ] at h
      omega
    simp only [bitsOfNat, natOfBits, ih _ hn]
    rcases Nat.mod_two_eq_zero_or_one n with h2 | h2 <;> simp [h2] <;> omega

/-- Octets are recovered from their bits. -/
theorem bytesOfBits_bitsOf (data : Bytes) : bytesOfBits (bitsOf data) = data := by
  induction data with
  | nil => rfl
  | cons b data ih =>
    have hb := natOfBits_bitsOfNat 8 b.toNat b.toNat_lt
    simp only [bitsOfNat] at hb
    simp only [bitsOf, List.flatMap_cons, bitsOfNat, List.cons_append, List.nil_append, bytesOfBits]
      at ih ⊢
    rw [hb, ih, UInt8.ofNat_toNat]

end Gzip

end TieredStore
