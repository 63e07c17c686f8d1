import TieredStore.Gzip.Token

/-!
# Finding repetitions

Data is cut into literals and copies of earlier data. A table holds, for each group of three
octets, the last place at which it was seen, and only that place is tried. The data is looked at
through one window after another, and no copy crosses the end of a window. What is found is
gathered in a block until there is no more room in it.

Main statement: what is gathered stands for as many octets as were passed (`span_tokenize`).
-/

namespace TieredStore

namespace Gzip

/-- The number of octets in a window, the last one apart. -/
def windowSize : Nat := 4096

/-- No copy reaches back further than this. -/
def maxReach : Nat := 32768

/-- No copy is longer than this. -/
def maxCopy : Nat := 258

/-- The number of places in the table. -/
def tableSize : Nat := 4096

/-- A stretch of the data that is looked at in one go. -/
structure Window where
  /-- Where it starts. -/
  start : Nat
  /-- Where it ends. -/
  stop : Nat
  /-- The number of octets before it that are remembered. -/
  memory : Nat

namespace Window

/-- How far a copy at `i` may reach back. -/
def reach (w : Window) (i : Nat) : Nat := w.memory + (i - w.start)

/-- The window at `i` in data of a given size, when `remembered` octets before it are known so far.
The window itself takes away from what can be remembered. -/
def ofStart (size i remembered : Nat) : Window :=
  let stop := min size (i + windowSize)
  ⟨i, stop, min remembered (maxReach - (stop - i))⟩

/-- The window that follows when the data before `i` was passed. -/
def next (size : Nat) (w : Window) (i : Nat) : Window := ofStart size i (w.reach i)

end Window

/-- The place in the table for the three octets at `i`. -/
def tablePlace (data : Array UInt8) (i : Nat) : Nat :=
  let octet (k : Nat) : Nat := (data.getD (i + k) 0).toNat
  let group := octet 0 + 256 * octet 1 + 65536 * octet 2
  (group ^^^ (group >>> 17)) % tableSize

/-- For how many octets, at most `most`, the data at `i` and at `j` is the same. -/
def commonLength (data : Array UInt8) (i j : Nat) : Nat → Nat
  | 0 => 0
  | most + 1 =>
    if data.getD i 0 == data.getD j 0 then commonLength data (i + 1) (j + 1) most + 1 else 0

theorem commonLength_le (data : Array UInt8) (i j most : Nat) :
    commonLength data i j most ≤ most := by
  induction most generalizing i j with
  | zero => exact Nat.le_refl 0
  | succ most ih =>
    unfold commonLength
    split
    · exact Nat.succ_le_succ (ih ..)
    · exact Nat.zero_le _

/-- For how many octets the data at `i` repeats what was `distance` octets earlier. -/
def repeatedLength (data : Array UInt8) (w : Window) (i distance : Nat) : Nat :=
  if 0 < distance ∧ distance ≤ w.reach i then
    commonLength data (i - distance) i (min maxCopy (w.stop - i))
  else 0

/-- A copy if it is worth it, otherwise a literal. Copies of three octets are not worth a far
reach. -/
def tokenOf (length distance : Nat) (octet : UInt8) : Token :=
  if 3 < length ∨ (length = 3 ∧ distance < 8192) then .copy length distance else .literal octet

theorem span_tokenOf_pos (length distance : Nat) (octet : UInt8) :
    0 < (tokenOf length distance octet).span := by
  unfold tokenOf
  split <;> simp only [Token.span] <;> omega

/-- The part at `i` when the same three octets may have been seen at `earlier`, which counts only up
to a multiple of 65536. -/
def tokenAt (data : Array UInt8) (w : Window) (i earlier : Nat) : Token :=
  let distance := (i - earlier) % 65536
  tokenOf (repeatedLength data w i distance) distance (data.getD i 0)

/-- The room that the parts of one block may take while they are gathered. -/
def blockRoom : Nat := 65528

/-- The room that a part takes while it is gathered. -/
def Token.room : Token → Nat
  | .literal _ => 1
  | .copy .. => 3

/-- The parts of a block that is not written yet. -/
structure Gathered where
  /-- The parts, the last one in front. -/
  tokens : List Token
  /-- Their number. -/
  count : Nat
  /-- The room that they take. -/
  room : Nat

namespace Gathered

/-- A block without parts. -/
def empty : Gathered := ⟨[], 0, 1⟩

/-- A block with one more part. Each eight parts take one octet more. -/
def push (g : Gathered) (token : Token) : Gathered where
  tokens := token :: g.tokens
  count := g.count + 1
  room := g.room + token.room + (if (g.count + 1) % 8 = 0 then 1 else 0)

/-- Whether the block must be written now. -/
def isFull (g : Gathered) : Bool := blockRoom < g.room

/-- The number of octets that the parts stand for. -/
def span (g : Gathered) : Nat := (g.tokens.map Token.span).sum

@[simp] theorem span_push (g : Gathered) (token : Token) :
    (g.push token).span = token.span + g.span := by
  simp [span, push]

end Gathered

/-- How far the data was looked at. -/
structure Scan where
  /-- The first octet that is still to come. -/
  position : Nat
  /-- The last places of groups of three octets. -/
  table : Array Nat
  /-- What is gathered. -/
  block : Gathered

namespace Scan

/-- A look at the start of the data. -/
def start : Scan := ⟨0, Array.replicate tableSize 0, .empty⟩

/-- One more part. The last three octets of a window are never looked up. -/
def step (data : Array UInt8) (w : Window) (s : Scan) : Scan :=
  if w.stop < s.position + 4 then
    { s with
      position := s.position + 1
      block := s.block.push (.literal (data.getD s.position 0)) }
  else
    let place := tablePlace data s.position
    let token := tokenAt data w s.position (s.table.getD place 0)
    { position := s.position + token.span
      table := s.table.setIfInBounds place s.position
      block := s.block.push token }

theorem position_lt_step (data : Array UInt8) (w : Window) (s : Scan) :
    s.position < (s.step data w).position := by
  unfold step
  split
  · exact Nat.lt_succ_self _
  · exact Nat.lt_add_of_pos_right (span_tokenOf_pos ..)

/-- A step passes as many octets as it adds to the block. -/
theorem span_step (data : Array UInt8) (w : Window) (s : Scan) :
    (s.step data w).block.span + s.position = s.block.span + (s.step data w).position := by
  unfold step
  split <;> simp only [Gathered.span_push, Token.span] <;> omega

/-- The parts up to the end of a window, or until the block is full. -/
def tokenize (data : Array UInt8) (w : Window) (s : Scan) : Scan :=
  if w.stop ≤ s.position ∨ s.block.isFull then s else tokenize data w (s.step data w)
termination_by w.stop - s.position
decreasing_by
  have := s.position_lt_step data w
  omega

/-- What is gathered stands for as many octets as were passed. -/
theorem span_tokenize (data : Array UInt8) (w : Window) (s : Scan) :
    (s.tokenize data w).block.span + s.position = s.block.span + (s.tokenize data w).position := by
  fun_induction tokenize data w s with
  | case1 => rfl
  | case2 s _ ih =>
    have := s.span_step data w
    omega

end Scan

end Gzip

end TieredStore
