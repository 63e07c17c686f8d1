import Mathlib.Data.Nat.Notation
import TieredStore.Gzip.Repetition

/-!
# Parts stand for the data

What is gathered for a block stands for a stretch of the data: written out part by part behind what
comes before the stretch, the parts give the data up to its end. Each copy is within the bounds of
the format, since a window is within the data and remembers no more than a copy may reach.

## Main definitions

* `Gzip.Token.StandsAt`: a part stands for the octets at a place.
* `Gzip.Cover`: parts stand for a stretch.
* `Gzip.Window.InData`, `Gzip.Scan.Sound`: what holds while the data is looked at.

## Main results

* `Gzip.Token.StandsAt.expand`: a part is written out as the octets that it stands for.
* `Gzip.Scan.Sound.tokenize`: the search for repetitions is sound up to the end of a window.
-/

namespace TieredStore

namespace Gzip

/-- A part stands for the octets at a place: it is the octet there, or the copy of as many octets
before. -/
def Token.StandsAt (data : Array UInt8) (i : ℕ) : Token → Prop
  | .literal b => i < data.size ∧ b = data.getD i 0
  | .copy length distance =>
      (3 ≤ length ∧ length ≤ maxCopy) ∧ (0 < distance ∧ distance ≤ maxReach) ∧
      distance ≤ i ∧ i + length ≤ data.size ∧
      ∀ k < length, data.getD (i - distance + k) 0 = data.getD (i + k) 0

/-- One octet more. -/
theorem push_getD {data : Array UInt8} {i : ℕ} (h : i < data.size) :
    (data.extract 0 i).push (data.getD i 0) = data.extract 0 (i + 1) := by
  rw [← Array.getElem_eq_getD (h := h), Array.push_extract_getElem, Nat.min_eq_left (Nat.zero_le i)]

/-- Octets are copied as they are, also when the copy overlaps what is copied. -/
theorem copyBack_extract {data : Array UInt8} {i distance length : ℕ} (hpos : 0 < distance)
    (hreach : distance ≤ i) (hsize : i + length ≤ data.size)
    (hsame : ∀ k < length, data.getD (i - distance + k) 0 = data.getD (i + k) 0) :
    copyBack distance length (data.extract 0 i) = data.extract 0 (i + length) := by
  induction length generalizing i with
  | zero => rfl
  | succ length ih =>
    have hago : octetAgo distance (data.extract 0 i) = data.getD i 0 := by
      have hstart := hsame 0 (Nat.zero_lt_succ length)
      rw [Nat.add_zero, Nat.add_zero] at hstart
      have hbound : min i data.size - 0 = i := by omega
      rw [octetAgo, Array.size_extract, hbound, if_neg (by omega), ← hstart,
        Array.getD_eq_getD_getElem?, Array.getD_eq_getD_getElem?, Array.getElem?_extract, hbound,
        if_pos (by omega), Nat.zero_add]
    rw [copyBack, hago, push_getD (by omega), ih (by omega) (by omega) fun k hk => ?_]
    · rw [Nat.add_right_comm, Nat.add_assoc]
    · have := hsame (k + 1) (by omega)
      rwa [show i + 1 - distance + k = i - distance + (k + 1) by omega,
        show i + 1 + k = i + (k + 1) by omega]

/-- A part is written out as the octets that it stands for. -/
theorem Token.StandsAt.expand {data : Array UInt8} {i : ℕ} {token : Token}
    (h : token.StandsAt data i) :
    token.expand (data.extract 0 i) = data.extract 0 (i + token.span) := by
  cases token with
  | literal b =>
    obtain ⟨hi, rfl⟩ := h
    exact push_getD hi
  | copy length distance =>
    obtain ⟨-, ⟨hpos, -⟩, hreach, hsize, hsame⟩ := h
    exact copyBack_extract hpos hreach hsize hsame

/-- Parts stand for the stretch of the data from one place to another. -/
inductive Cover (data : Array UInt8) : ℕ → List Token → ℕ → Prop
  | nil {i : ℕ} : Cover data i [] i
  | cons {i stop : ℕ} {token : Token} {tokens : List Token} (htoken : token.StandsAt data i)
      (h : Cover data (i + token.span) tokens stop) : Cover data i (token :: tokens) stop

theorem Cover.concat {data : Array UInt8} {i stop : ℕ} {tokens : List Token} {token : Token}
    (h : Cover data i tokens stop) (htoken : token.StandsAt data stop) :
    Cover data i (tokens ++ [token]) (stop + token.span) := by
  induction h with
  | nil => exact .cons htoken .nil
  | cons hfirst _ ih => exact .cons hfirst (ih htoken)

theorem Cover.exists_standsAt {data : Array UInt8} {i stop : ℕ} {tokens : List Token}
    (h : Cover data i tokens stop) : ∀ token ∈ tokens, ∃ j, token.StandsAt data j := by
  induction h with
  | nil => exact nofun
  | @cons i stop token tokens htoken _ ih => exact List.forall_mem_cons.2 ⟨⟨i, htoken⟩, ih⟩

theorem Cover.le {data : Array UInt8} {i stop : ℕ} {tokens : List Token}
    (h : Cover data i tokens stop) : i ≤ stop := by
  induction h with
  | nil => exact Nat.le_refl _
  | cons _ _ ih => omega

namespace Window

/-- A window is within the data, and what it remembers is before it and can be reached from
everywhere in it. -/
structure InData (size : ℕ) (w : Window) : Prop where
  /-- What is remembered is in the data. -/
  memory_le : w.memory ≤ w.start
  /-- The window does not end before it starts. -/
  start_le : w.start ≤ w.stop
  /-- The window ends in the data. -/
  stop_le : w.stop ≤ size
  /-- The end of the window reaches back to all that is remembered. -/
  within : w.memory + (w.stop - w.start) ≤ maxReach

theorem inData_ofStart {size i remembered : ℕ} (hi : i ≤ size) (hremembered : remembered ≤ i) :
    (ofStart size i remembered).InData size where
  memory_le := Nat.le_trans (Nat.min_le_left _ _) hremembered
  start_le := by
    simp only [ofStart]
    omega
  stop_le := Nat.min_le_left _ _
  within := by
    simp only [ofStart, maxReach, windowSize]
    omega

/-- The next window starts where the data was passed. -/
theorem InData.next {size : ℕ} {w : Window} (h : w.InData size) {i : ℕ} (hstart : w.start ≤ i)
    (hi : i ≤ size) : (w.next size i).InData size := by
  refine inData_ofStart hi ?_
  have := h.memory_le
  rw [reach]
  omega

end Window

/-- The octets that two places have in common are the same. -/
theorem getD_of_lt_commonLength {data : Array UInt8} {i j most k : ℕ}
    (h : k < commonLength data i j most) : data.getD (i + k) 0 = data.getD (j + k) 0 := by
  induction most generalizing i j k with
  | zero => exact (Nat.not_lt_zero k h).elim
  | succ most ih =>
    unfold commonLength at h
    split at h
    next hsame =>
      cases k with
      | zero => exact eq_of_beq hsame
      | succ k =>
        have hrest := ih (Nat.lt_of_succ_lt_succ h)
        rwa [Nat.add_right_comm i, Nat.add_right_comm j] at hrest
    next => exact (Nat.not_lt_zero k h).elim

/-- The part that is chosen stands for the octets at its place. -/
theorem standsAt_tokenAt {data : Array UInt8} {w : Window} {i : ℕ} (earlier : ℕ)
    (hw : w.InData data.size) (hstart : w.start ≤ i) (hi : i < w.stop) :
    (tokenAt data w i earlier).StandsAt data i ∧ i + (tokenAt data w i earlier).span ≤ w.stop := by
  have hstop := hw.stop_le
  simp only [tokenAt]
  -- The table may be wrong about where the octets were seen, so this holds at any distance.
  generalize (i - earlier) % 65536 = distance
  rw [tokenOf]
  split
  next hworth =>
    -- Nothing is copied from a distance that is out of reach.
    have hlength : 3 ≤ repeatedLength data w i distance := by omega
    rw [repeatedLength] at hlength ⊢
    split at hlength
    next hreach =>
      rw [if_pos hreach]
      have hle := commonLength_le data (i - distance) i (min maxCopy (w.stop - i))
      have hreach' : distance ≤ w.memory + (i - w.start) := hreach.2
      have := hw.memory_le
      have := hw.within
      refine ⟨⟨⟨hlength, by omega⟩, ⟨hreach.1, by omega⟩, by omega, by omega,
        fun k hk => getD_of_lt_commonLength hk⟩, ?_⟩
      simp only [Token.span]
      omega
    next => omega
  next => exact ⟨⟨by omega, rfl⟩, hi⟩

namespace Scan

/-- While a window is looked at, the place is in the window, and what is gathered stands for the
data up to that place. -/
structure Sound (data : Array UInt8) (w : Window) (s : Scan) : Prop where
  /-- The place is not before the window. -/
  start_le : w.start ≤ s.position
  /-- The place is not after the window. -/
  le_stop : s.position ≤ w.stop
  /-- No more is gathered than was passed. -/
  span_le : s.block.span ≤ s.position
  /-- What is gathered, the last part first, stands for the data it was gathered from. -/
  cover : Cover data (s.position - s.block.span) s.block.tokens.reverse s.position

/-- A part more. -/
theorem Sound.push {data : Array UInt8} {w : Window} {s : Scan} (h : s.Sound data w)
    (token : Token) (htoken : token.StandsAt data s.position)
    (hstop : s.position + token.span ≤ w.stop) (table : Array ℕ) :
    Sound data w ⟨s.position + token.span, table, s.block.push token⟩ where
  start_le := Nat.le_add_right_of_le h.start_le
  le_stop := hstop
  span_le := by
    have := h.span_le
    simp only [Gathered.span_push]
    omega
  cover := by
    have hfirst : s.position + token.span - (token.span + s.block.span) =
        s.position - s.block.span := by omega
    simp only [Gathered.span_push, hfirst]
    rw [Gathered.push, List.reverse_cons]
    exact h.cover.concat htoken

theorem Sound.step {data : Array UInt8} {w : Window} {s : Scan} (hw : w.InData data.size)
    (h : s.Sound data w) (hlt : s.position < w.stop) : (s.step data w).Sound data w := by
  have hstop := hw.stop_le
  unfold Scan.step
  split
  · exact h.push (.literal _) ⟨by omega, rfl⟩ hlt s.table
  · have htoken := standsAt_tokenAt (s.table.getD (tablePlace data s.position) 0) hw
      h.start_le hlt
    exact h.push _ htoken.1 htoken.2 _

/-- The search goes on to the end of the window, or until the block is full. -/
theorem Sound.tokenize {data : Array UInt8} {w : Window} {s : Scan} (hw : w.InData data.size)
    (h : s.Sound data w) : (s.tokenize data w).Sound data w ∧
      (w.stop ≤ (s.tokenize data w).position ∨ (s.tokenize data w).block.isFull) := by
  fun_induction Scan.tokenize data w s with
  | case1 s hdone => exact ⟨h, hdone⟩
  | case2 s hmore ih => exact ih (h.step hw (by omega))

/-- The search does not go back. -/
theorem position_le_tokenize (data : Array UInt8) (w : Window) (s : Scan) :
    s.position ≤ (s.tokenize data w).position := by
  fun_induction Scan.tokenize data w s with
  | case1 => exact Nat.le_refl _
  | case2 s _ ih => exact Nat.le_trans (Nat.le_of_lt (s.position_lt_step data w)) ih

end Scan

end Gzip

end TieredStore
