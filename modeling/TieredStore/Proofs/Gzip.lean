import TieredStore.Compression
import TieredStore.Proofs.Gzip.Blocks

/-!
# Compressed data is read back

The blocks that data is written in are inflated one by one, each to the octets that were passed
while it was gathered. The writer comes to the end of the data within its bound of steps: each step
passes an octet or leaves a window that was already at its end, and the next window is not.

## Main definitions

* `Gzip.Progress.Sound`: what holds between two steps of the writer.

## Main results

* `Gzip.inflateBlocks_blocksFrom`: the blocks from some point on are inflated to the rest of the
  data.
* `Gzip.inflate_deflate`: what is deflated is inflated.
* `Gzip.decompress?_compress`: a member stands for what it was made of.
* `Compression.restore_shrink`: a frame is recovered from what compression made of it.
-/

namespace TieredStore

namespace Gzip

namespace Progress

variable {data : Array UInt8} {p : Progress}

/-- Between two steps, the window is within the data, what is gathered is sound, and there is room
for more. -/
structure Sound (data : Array UInt8) (p : Progress) : Prop where
  window : p.window.InData data.size
  scan : p.scan.Sound data p.window
  room : p.scan.block.isFull = false

/-- A bound on the steps that are left. -/
def steps (size : ℕ) (p : Progress) : ℕ :=
  2 * (size - p.scan.position) + if p.window.stop ≤ p.scan.position then 1 else 0

/-- Where the block that is gathered starts. -/
def blockStart (p : Progress) : ℕ := p.scan.position - p.scan.block.span

theorem sound_start (data : Array UInt8) : (start data.size).Sound data where
  window := Window.inData_ofStart (Nat.zero_le _) le_rfl
  scan := ⟨le_rfl, Nat.zero_le _, le_rfl, .nil⟩
  room := rfl

/-- A search is sound up to the end of the window, or until the block is full, and the block starts
where it did before. -/
theorem Sound.search (h : p.Sound data) :
    (p.search data).scan.Sound data (p.search data).window ∧
      (p.search data).blockStart = p.blockStart ∧
      ((p.search data).window.stop ≤ (p.search data).scan.position ∨
        (p.search data).scan.block.isFull) := by
  obtain ⟨hscan, hdone⟩ := h.scan.tokenize h.window
  refine ⟨hscan, ?_, hdone⟩
  have hspan := Scan.span_tokenize data p.window p.scan
  have hgathered := h.scan.span_le
  simp only [blockStart, Progress.search]
  omega

/-- A search that fills the block passes an octet. -/
theorem position_lt_search (h : p.Sound data) (hfull : (p.search data).scan.block.isFull) :
    p.scan.position < (p.search data).scan.position := by
  simp only [search] at hfull ⊢
  rw [Scan.tokenize] at hfull ⊢
  split at hfull
  · rw [h.room] at hfull
    cases hfull
  next hmore =>
    rw [if_neg hmore]
    exact (p.scan.position_lt_step data p.window).trans_le (Scan.position_le_tokenize ..)

/-- The search is sound in the next window too, and goes on there unless the data is at its end. -/
theorem sound_advance (room : ℕ) (hwindow : p.window.InData data.size)
    (hscan : p.scan.Sound data p.window) (hroom : p.scan.block.isFull = false) :
    (p.advance data.size room).Sound data ∧
      (p.scan.position < data.size → p.scan.position < (p.advance data.size room).window.stop) := by
  have hposition := hscan.le_stop.trans hwindow.stop_le
  refine ⟨⟨hwindow.next hscan.start_le hposition, ⟨le_rfl, ?_, hscan.span_le, hscan.cover⟩, hroom⟩,
    fun hlt => ?_⟩ <;>
  simp only [advance, Window.next, Window.ofStart, windowSize] <;> omega

/-- After a block was written, nothing is gathered, and no octet was passed. -/
theorem sound_afterBlock (width : ℕ) (hwindow : p.window.InData data.size)
    (hscan : p.scan.Sound data p.window) :
    (p.afterBlock data.size width).Sound data ∧
      (p.afterBlock data.size width).scan.position = p.scan.position ∧
      (p.afterBlock data.size width).blockStart = p.scan.position ∧
      (p.afterBlock data.size width).offset = p.offset + width := by
  have hempty : Scan.Sound data p.window { p.scan with block := .empty } :=
    ⟨hscan.start_le, hscan.le_stop, Nat.zero_le _, .nil⟩
  unfold afterBlock
  simp only
  split
  · exact ⟨⟨hwindow, hempty, rfl⟩, rfl, rfl, rfl⟩
  · exact ⟨(sound_advance (p := { p with
      scan := { p.scan with block := .empty }, offset := p.offset + width }) _ hwindow hempty
      rfl).1, rfl, rfl, rfl⟩

/-- The block that was gathered is inflated to the octets that were passed. Unless it is the last
one, the blocks behind it are inflated after that. -/
theorem inflateBlocks_blockBits (hwindow : p.window.InData data.size)
    (hscan : p.scan.Sound data p.window) (isFinal : Bool) {rest : List Bool}
    (hwhole : (p.offset + (p.blockBits data isFinal ++ rest).length) % 8 = 0) {fuel : ℕ}
    (hfuel : (p.blockBits data isFinal).length ≤ fuel) :
    ∃ left, fuel ≤ left + (p.blockBits data isFinal).length ∧
      inflateBlocks fuel ⟨data.extract 0 p.blockStart, p.blockBits data isFinal ++ rest⟩ =
        if isFinal then some ⟨data.extract 0 p.scan.position, rest⟩
        else inflateBlocks left ⟨data.extract 0 p.scan.position, rest⟩ := by
  obtain ⟨bits, hbits, hinflated⟩ := exists_block hscan.cover isFinal
    (p.scan.block.span ≤ p.window.reach p.scan.position) p.offset fun hathand => by
      -- What is remembered is no more than a copy may reach.
      have hreach := of_decide_eq_true hathand
      have hwithin : p.window.memory + (p.window.stop - p.window.start) ≤ 32768 := hwindow.within
      have := hscan.le_stop
      rw [Window.reach] at hreach
      rw [Array.size_extract]
      omega
  have hbits : p.blockBits data isFinal = isFinal :: bits := hbits
  rw [hbits] at hwhole hfuel ⊢
  -- The first bit of a block pays for the step that reads it.
  obtain ⟨left, rfl⟩ : ∃ left, fuel = left + 1 := by
    rw [List.length_cons] at hfuel
    exact Nat.exists_eq_add_one_of_ne_zero (by omega)
  have hblock : inflateBlock ⟨data.extract 0 p.blockStart, bits ++ rest⟩ =
      some ⟨data.extract 0 p.scan.position, rest⟩ := hinflated rest hwhole
  refine ⟨left, by rw [List.length_cons]; omega, ?_⟩
  rw [List.cons_append, inflateBlocks]
  simp only [hblock]

end Progress

/-- The blocks from some point on are inflated to the rest of the data, whatever follows them in
whole octets. The induction is on the steps of the writer: a step writes a block or goes on to the
next window. -/
theorem inflateBlocks_blocksFrom {data : Array UInt8} {bound : ℕ} {p : Progress}
    (h : p.Sound data) (hbound : p.steps data.size < bound) (rest : List Bool)
    (hwhole : (p.offset + (blocksFrom data bound p ++ rest).length) % 8 = 0) (fuel : ℕ)
    (hfuel : (blocksFrom data bound p).length ≤ fuel) :
    inflateBlocks fuel ⟨data.extract 0 p.blockStart, blocksFrom data bound p ++ rest⟩ =
      some ⟨data, rest⟩ := by
  induction bound generalizing p fuel with
  | zero => exact (Nat.not_lt_zero _ hbound).elim
  | succ bound ih =>
    obtain ⟨hscan, hstart, hdone⟩ := h.search
    have hmoved : p.scan.position ≤ (p.search data).scan.position :=
      Scan.position_le_tokenize data p.window p.scan
    have hfilled := Progress.position_lt_search h
    have hwindow : (p.search data).window.InData data.size := h.window
    have hposition := hscan.le_stop.trans hwindow.stop_le
    have hoffset : (p.search data).offset = p.offset := rfl
    have hstop : (p.search data).window.stop = p.window.stop := rfl
    rw [← hoffset] at hwhole
    rw [Progress.steps, ← hstop] at hbound
    rw [← hstart]
    rw [blocksFrom] at hwhole hfuel ⊢
    -- Only what was found out about the search matters from here on.
    generalize p.search data = q at *
    simp only at hwhole hfuel ⊢
    split at hwhole
    next hfull =>
      -- A block is written, and the rest is inflated behind it.
      rw [if_pos hfull, List.length_append] at hfuel
      rw [List.append_assoc] at hwhole
      rw [if_pos hfull, List.append_assoc]
      obtain ⟨hsound, hat, hnext, hafter⟩ :=
        q.sound_afterBlock (q.blockBits data false).length hwindow hscan
      obtain ⟨left, hleft, hblock⟩ := q.inflateBlocks_blockBits hwindow hscan false hwhole
        (Nat.le_of_add_right_le hfuel)
      rw [hblock, if_neg Bool.false_ne_true, ← hnext]
      refine ih hsound ?_ ?_ left (by omega)
      · have := hfilled hfull
        rw [Progress.steps, hat]
        split <;> omega
      · rwa [hafter, Nat.add_assoc, ← List.length_append]
    next hroom =>
      rw [if_neg hroom] at hfuel ⊢
      have hended := hdone.resolve_right hroom
      split at hwhole
      next hlt =>
        -- The search goes on in the next window.
        rw [if_pos hlt] at hfuel ⊢
        obtain ⟨hsound, hahead⟩ := q.sound_advance q.room hwindow hscan
          (Bool.eq_false_of_not_eq_true hroom)
        refine ih hsound ?_ hwhole fuel hfuel
        have := hahead hlt
        have hat : (q.advance data.size q.room).scan.position = q.scan.position := rfl
        rw [Progress.steps, hat, if_neg (Nat.not_le.2 this)]
        split at hbound <;> omega
      next hend =>
        -- The last block reaches to the end of the data.
        rw [if_neg hend] at hfuel ⊢
        obtain ⟨_, -, hblock⟩ := q.inflateBlocks_blockBits hwindow hscan true hwhole hfuel
        rw [hblock, if_pos rfl, show q.scan.position = data.size by omega, Array.extract_size]

/-- What is deflated is inflated, whatever octets follow. Fewer than eight bits are left over. -/
theorem inflate_deflate (data more : Bytes) :
    ∃ padding : List Bool, padding.length < 8 ∧
      inflate (bitsOf (deflate data ++ more)) = some ⟨data.toArray, padding ++ bitsOf more⟩ := by
  obtain ⟨bits, hbits⟩ : ∃ bits, bits =
      blocksFrom data.toArray (2 * data.toArray.size + 3) (.start data.toArray.size) := ⟨_, rfl⟩
  obtain ⟨padding, hpadding⟩ : ∃ padding, padding =
      List.replicate ((8 - bits.length % 8) % 8) false := ⟨_, rfl⟩
  have hwhole : (bits ++ padding).length % 8 = 0 := by
    rw [List.length_append, hpadding, List.length_replicate]
    omega
  have hdeflated : bitsOf (deflate data ++ more) = bits ++ (padding ++ bitsOf more) := by
    have hoctets : deflate data = bytesOfBits (bits ++ padding) := by rw [hpadding, hbits, deflate]
    rw [bitsOf_append, hoctets, bitsOf_bytesOfBits hwhole, List.append_assoc]
  refine ⟨padding, by rw [hpadding, List.length_replicate]; omega, ?_⟩
  have hsteps : (Progress.start data.toArray.size).steps data.toArray.size <
      2 * data.toArray.size + 3 := by
    rw [Progress.steps]
    split <;> omega
  have hinflated := inflateBlocks_blocksFrom (Progress.sound_start data.toArray) hsteps
    (padding ++ bitsOf more)
  rw [← hbits] at hinflated
  have hnothing : data.toArray.extract 0 (Progress.start data.toArray.size).blockStart = #[] := by
    simp [Progress.blockStart, Progress.start, Scan.start]
  rw [hdeflated, inflate, ← hnothing]
  refine hinflated ?_ _ (by rw [List.length_append]; omega)
  rw [← List.append_assoc, List.length_append, length_bitsOf]
  change (0 + ((bits ++ padding).length + 8 * more.length)) % 8 = 0
  omega

/-- What follows the header of a member that was made of data. -/
theorem skipHeader?_compress (rest : Bytes) :
    skipHeader? ([0x1f, 0x8b, 8, 0, 0, 0, 0, 0, 4, 255] ++ rest) = some rest :=
  rfl

/-- A member stands for what it was made of. -/
theorem decompress?_compress (data : Bytes) : decompress? (compress data) = some data := by
  set trailer := Bytes.littleEndian 4 (checksum data).toNat
    ++ Bytes.littleEndian 4 (data.length % 2 ^ 32) with htrailer
  have hmember : compress data =
      [0x1f, 0x8b, 8, 0, 0, 0, 0, 0, 4, 255] ++ (deflate data ++ trailer) := by
    rw [compress, List.append_assoc, List.append_assoc]
  obtain ⟨padding, hpadding, hinflated⟩ := inflate_deflate data trailer
  have hlength : trailer.length = 8 := by simp [htrailer]
  have halign : align (padding ++ bitsOf trailer) = bitsOf trailer :=
    align_append hpadding (by rw [length_bitsOf]; omega)
  have htake : (bitsOf trailer).take 64 = bitsOf trailer :=
    List.take_of_length_le (by rw [length_bitsOf]; omega)
  rw [decompress?, hmember, skipHeader?_compress]
  simp only [bind, Option.bind_some, hinflated, halign, htake, bytesOfBits_bitsOf]
  rw [if_pos htrailer]

end Gzip

namespace Compression

/-- A frame is recovered from what compression made of it. -/
theorem restore_shrink (frame : Bytes) :
    restore (shrink frame).1 (shrink frame).2 = .ok frame := by
  unfold shrink
  split
  · rfl
  · simp only
    split
    · simp only [restore, Gzip.decompress?_compress]
    · rfl

end Compression

end TieredStore
