import Mathlib.Data.Nat.Notation
import TieredStore.Gzip.BitReader

/-!
# Bits are read back

What was written bit by bit is read back: numbers of a given width, and whole octets.

* `Gzip.splitBits?_bitsOfNat_append`: a number at the front of some bits is read back.
* `Gzip.bitsOf_bytesOfBits`: bits are recovered from the octets that they make up.
* `Gzip.align_append`: fewer than eight bits in front of whole octets are skipped.
-/

namespace TieredStore

namespace Gzip

@[simp]
theorem length_bitsOfNat (k n : ℕ) : (bitsOfNat k n).length = k := by
  induction k generalizing n with
  | zero => rfl
  | succ k ih => rw [bitsOfNat, List.length_cons, ih]

/-- The bit in front is the last binary digit. -/
theorem toNat_beq_add_div (n : ℕ) : (n % 2 == 1).toNat + 2 * (n / 2) = n := by
  rcases Nat.mod_two_eq_zero_or_one n with h | h <;> simp [h] <;> omega

/-- A number at the front of some bits is read back. -/
theorem splitBits?_bitsOfNat_append {k n : ℕ} (h : n < 2 ^ k) (rest : List Bool) :
    splitBits? k (bitsOfNat k n ++ rest) = some (n, rest) := by
  induction k generalizing n with
  | zero =>
    obtain rfl : n = 0 := by simpa using h
    rfl
  | succ k ih =>
    have hhigh : n / 2 < 2 ^ k := by
      rw [Nat.pow_succ] at h
      omega
    simp only [bitsOfNat, List.cons_append, splitBits?, ih hhigh, toNat_beq_add_div]

/-- The bits of a number in the order of its binary digits, the highest one first: the last bit
follows the bits of the half. -/
theorem reverse_bitsOfNat_succ (k n : ℕ) :
    (bitsOfNat (k + 1) n).reverse = (bitsOfNat k (n / 2)).reverse ++ [n % 2 == 1] := by
  rw [bitsOfNat, List.reverse_cons]

@[simp]
theorem length_bitsOf (data : Bytes) : (bitsOf data).length = 8 * data.length := by
  induction data with
  | nil => rfl
  | cons b data ih =>
    rw [bitsOf] at ih ⊢
    rw [List.flatMap_cons, List.length_append, length_bitsOfNat, ih, List.length_cons]
    omega

@[simp]
theorem bitsOf_append (data more : Bytes) : bitsOf (data ++ more) = bitsOf data ++ bitsOf more :=
  List.flatMap_append

theorem natOfBits_lt (bits : List Bool) : natOfBits bits < 2 ^ bits.length := by
  induction bits with
  | nil => simp [natOfBits]
  | cons b bits ih =>
    have hb : b.toNat ≤ 1 := Bool.toNat_le b
    rw [natOfBits, List.length_cons, Nat.pow_succ]
    omega

/-- Bits are recovered from the number that they make up. -/
theorem bitsOfNat_natOfBits (bits : List Bool) : bitsOfNat bits.length (natOfBits bits) = bits := by
  induction bits with
  | nil => rfl
  | cons b bits ih =>
    have hlow : ((b.toNat + 2 * natOfBits bits) % 2 == 1) = b := by
      cases b <;> simp
    have hhigh : (b.toNat + 2 * natOfBits bits) / 2 = natOfBits bits := by
      have hb : b.toNat ≤ 1 := Bool.toNat_le b
      omega
    rw [List.length_cons, natOfBits, bitsOfNat, hlow, hhigh, ih]

/-- Bits are recovered from the octets that they make up. -/
theorem bitsOf_bytesOfBits {bits : List Bool} (h : bits.length % 8 = 0) :
    bitsOf (bytesOfBits bits) = bits := by
  induction bits using bytesOfBits.induct with
  | case1 b₀ b₁ b₂ b₃ b₄ b₅ b₆ b₇ bits ih =>
    have hrest : bits.length % 8 = 0 := by
      simp only [List.length_cons] at h
      omega
    have hoctet := bitsOfNat_natOfBits [b₀, b₁, b₂, b₃, b₄, b₅, b₆, b₇]
    have hlt : natOfBits [b₀, b₁, b₂, b₃, b₄, b₅, b₆, b₇] < 2 ^ 8 := natOfBits_lt _
    have hsame : (UInt8.ofNat (natOfBits [b₀, b₁, b₂, b₃, b₄, b₅, b₆, b₇])).toNat =
        natOfBits [b₀, b₁, b₂, b₃, b₄, b₅, b₆, b₇] := by
      rw [UInt8.toNat_ofNat', Nat.mod_eq_of_lt hlt]
    have ih' := ih hrest
    rw [bitsOf] at ih'
    rw [bytesOfBits, bitsOf, List.flatMap_cons, hsame, ih']
    exact congrArg (· ++ bits) hoctet
  | case2 bits hshort =>
    -- Fewer than eight bits, and a multiple of eight of them.
    rcases bits with _ | ⟨b₀, _ | ⟨b₁, _ | ⟨b₂, _ | ⟨b₃, _ | ⟨b₄, _ | ⟨b₅, _ | ⟨b₆, _ |
      ⟨b₇, bits⟩⟩⟩⟩⟩⟩⟩⟩
    · rfl
    rotate_left 7
    · exact (hshort b₀ b₁ b₂ b₃ b₄ b₅ b₆ b₇ bits rfl).elim
    all_goals simp at h

/-- Fewer than eight bits in front of whole octets are skipped. -/
theorem align_append {front rest : List Bool} (hfront : front.length < 8)
    (hrest : rest.length % 8 = 0) : align (front ++ rest) = rest := by
  have hskipped : (front ++ rest).length % 8 = front.length := by
    rw [List.length_append]
    omega
  rw [align, hskipped, List.drop_left]

end Gzip

end TieredStore
