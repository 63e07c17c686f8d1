import TieredStore.Gzip.PrefixCode

/-!
# Lengths of code words

How long each code word should be, from how often each symbol occurs. The two lightest trees are
joined until one is left, which gives a code of least total length; where that code has words
that are too long, some shorter words are made longer until the code fits.

Lengths are then written as runs, since many neighbours are equal.
-/

namespace TieredStore

namespace Gzip

/-- What matters about a tree of symbols while a code is built. -/
structure CodeTree where
  /-- How often the symbols of the tree occur. -/
  weight : Nat
  /-- How far each symbol is from the root. -/
  depths : List Nat

namespace CodeTree

/-- Two trees under one root. -/
def join (s t : CodeTree) : CodeTree where
  weight := s.weight + t.weight
  depths := (s.depths ++ t.depths).map (· + 1)

/-- Puts a tree into a list in the order of weights, behind those of its own weight. -/
def insert (t : CodeTree) : List CodeTree → List CodeTree
  | [] => [t]
  | u :: us => if u.weight ≤ t.weight then u :: insert t us else t :: u :: us

theorem length_insert (t : CodeTree) (us : List CodeTree) :
    (insert t us).length = us.length + 1 := by
  induction us with
  | nil => rfl
  | cons u us ih =>
    unfold insert
    split <;> simp [ih]

/-- The depths of all symbols once the trees, which come in the order of weights, are joined. -/
def depthsOfAll : List CodeTree → List Nat
  | [] => []
  | [t] => t.depths
  | s :: t :: us => depthsOfAll (insert (s.join t) us)
termination_by ts => ts.length
decreasing_by simp [length_insert]

end CodeTree

/-- How many code words have each length up to `limit`, where longer ones are counted at it. -/
def cappedCounts (limit : Nat) (depths : List Nat) : Array Nat :=
  ((List.range (limit + 1)).map (fun k => depths.countP (fun d => min d limit == k))).toArray

/-- The share of all bit sequences that start with one of the code words, counted in sequences of
`limit` bits. -/
def share (limit : Nat) (counts : Array Nat) : Nat :=
  ((List.range limit).map (fun k => counts.getD (k + 1) 0 * 2 ^ (limit - (k + 1)))).sum

/-- Frees the share of one longest code word: the longest of the others is made one bit longer, and
a longest one becomes its sibling. -/
def lengthenOne (limit : Nat) (counts : Array Nat) : Array Nat :=
  let isUsed (k : Nat) : Bool := k != 0 && counts.getD k 0 != 0
  let counts := counts.modify limit (· - 1)
  match (List.range limit).reverse.find? isUsed with
  | some k => (counts.modify k (· - 1)).modify (k + 1) (· + 2)
  | none => counts

/-- Frees the share of `excess` longest code words. -/
def lengthen (limit : Nat) : Nat → Array Nat → Array Nat
  | 0, counts => counts
  | excess + 1, counts => lengthen limit excess (lengthenOne limit counts)

/-- The length of each symbol's code word, at most `limit`, from how often the symbols occur. A
symbol that does not occur has no code word, and one that occurs alone has one of one bit. The
more often a symbol occurs, the shorter its word; of two that occur equally often, the later one
comes first. -/
def codeLengths (limit : Nat) (occurrences : List Nat) : List Nat :=
  let used := (occurrences.zipIdx.filter (fun e => e.1 != 0)).mergeSort (fun a b => a.1 ≤ b.1)
  if used.length ≤ 1 then occurrences.map (fun n => if n = 0 then 0 else 1)
  else
    let counts := cappedCounts limit (CodeTree.depthsOfAll (used.map (fun e => ⟨e.1, [0]⟩)))
    let counts := lengthen limit (share limit counts - 2 ^ limit) counts
    let lengths :=
      (List.range limit).flatMap (fun k => List.replicate (counts.getD (k + 1) 0) (k + 1))
    let given := (used.reverse.map Prod.snd).zip lengths
    (List.range occurrences.length).map (fun symbol => (given.lookup symbol).getD 0)

/-- There is one length for each symbol. -/
theorem length_codeLengths (limit : Nat) (occurrences : List Nat) :
    (codeLengths limit occurrences).length = occurrences.length := by
  simp only [codeLengths]
  split <;> simp

/-- A symbol for code lengths with the bits that follow its code word. -/
abbrev LengthSymbol := Nat × List Bool

/-- Zeros, `n` of them. -/
def spellZeros (n : Nat) : List LengthSymbol :=
  if n < 3 then List.replicate n (0, [])
  else if n ≤ 10 then [(17, bitsOfNat 3 (n - 3))]
  else
    let k := min n 138
    (18, bitsOfNat 7 (k - 11)) :: spellZeros (n - k)
termination_by n

/-- The length before, `n` times more. -/
def spellRepeats (length n : Nat) : List LengthSymbol :=
  if n < 3 then List.replicate n (length, [])
  else
    let k := min n 6
    (16, bitsOfNat 2 (k - 3)) :: spellRepeats length (n - k)
termination_by n

/-- A run of equal lengths. -/
def spellRun : List Nat → List LengthSymbol
  | [] => []
  | 0 :: rest => spellZeros (rest.length + 1)
  | length :: rest => (length, []) :: spellRepeats length rest.length

/-- Lengths, run by run. -/
def spellLengths (lengths : List Nat) : List LengthSymbol :=
  (lengths.splitBy (· == ·)).flatMap spellRun

end Gzip

end TieredStore
