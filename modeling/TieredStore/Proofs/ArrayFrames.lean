import TieredStore.DeviceObject
import TieredStore.Proofs.Container

/-!
# Frames of arrays are read exactly

An array is read from its own frames, and from no others. The metadata is taken apart into words by
the equivalence for words, and the frames behind it are matched with the words by their number.

A second reader, `DeviceArray.ofFramesAt`, stays with positions in the metadata and indices into its
words, so it could ask for a piece that is not there. It never does, and it agrees with the first
one.

* `Bytes.words?_eq_some_iff`, `Bytes.words?_eq_none_iff`: what is made of words.
* `DeviceArray.ofFrames_eq_ok_iff`: which frames are those of an array.
* `DeviceArray.ofFramesAt_eq`: reading by positions runs into no fault.
* `DeviceArray.frames_bijective`: arrays and the lists of frames that are accepted go with each
  other.
-/

namespace TieredStore

namespace Bytes

/-- Data is made of words exactly if these words give the data. -/
theorem words?_eq_some_iff {data : Bytes} {ns : List ℕ} :
    words? data = some ns ↔ (∀ n ∈ ns, n < 2 ^ 64) ∧ data = ofWords ns := by
  constructor
  · intro h
    simp only [words?, Option.ite_none_right_eq_some, Option.map_eq_some_iff] at h
    obtain ⟨hmod, ⟨ns', rest⟩, hsplit, rfl⟩ := h
    obtain ⟨hcount, hall, hdata⟩ := splitWords?_eq_some_iff.1 hsplit
    have hlength := congrArg List.length hdata
    rw [List.length_append, length_ofWords, hcount] at hlength
    -- The words take all octets, so nothing follows them.
    have hrest : rest = [] := List.eq_nil_of_length_eq_zero (by omega)
    rw [hrest, List.append_nil] at hdata
    exact ⟨hall, hdata⟩
  · rintro ⟨hall, rfl⟩
    have hlength := length_ofWords ns
    have hsplit := splitWords?_ofWords_append ns [] hall
    rw [List.append_nil] at hsplit
    rw [words?, hlength, if_pos (Nat.mul_mod_right 8 _), Nat.mul_div_cancel_left _ (by decide),
      hsplit]
    rfl

/-- Words are split off as long as there are octets for them. -/
theorem exists_splitWords? (count : ℕ) (data : Bytes) (hlength : 8 * count ≤ data.length) :
    ∃ ns rest, splitWords? count data = some (ns, rest) := by
  induction count generalizing data with
  | zero => exact ⟨[], data, rfl⟩
  | succ count ih =>
    have hfront : (data.take 8).length = 8 := by
      rw [List.length_take]
      omega
    obtain ⟨ns, rest, hsplit⟩ := ih (data.drop 8) (by rw [List.length_drop]; omega)
    refine ⟨toNat (data.take 8) :: ns, rest, ?_⟩
    simp only [splitWords?, splitWord?, hfront, if_true, hsplit]

/-- Only the length of the data matters for whether it is made of words. -/
theorem words?_eq_none_iff {data : Bytes} : words? data = none ↔ data.length % 8 ≠ 0 := by
  rw [words?]
  split
  next hmod =>
    obtain ⟨ns, rest, hsplit⟩ := exists_splitWords? (data.length / 8) data (by omega)
    simp [hsplit, hmod]
  next hmod => simp [hmod]

end Bytes

namespace DeviceArray

/-! ### Frames of arrays -/

/-- The words of the metadata, which are identities. -/
def words (a : DeviceArray) : List ℕ := a.objectId.toNat :: a.buffers.map fun b => b.1.raw.toNat

theorem frames_eq (a : DeviceArray) :
    a.frames = Bytes.ofWords a.words :: a.buffers.map Prod.snd := rfl

/-- An array is made of the words of its metadata and the contents of its allocations. -/
theorem exists_of_words {object : ℕ} {ids : List ℕ} {contents : List Bytes}
    (hwords : ∀ n ∈ object :: ids, n < 2 ^ 64) (hcount : contents.length = ids.length) :
    let a : DeviceArray :=
      ⟨UInt64.ofNat object, (ids.map fun id => ⟨UInt64.ofNat id⟩).zip contents⟩
    a.words = object :: ids ∧ a.buffers.map Prod.snd = contents := by
  intro a
  have hback : ∀ n ∈ object :: ids, (UInt64.ofNat n).toNat = n := fun n hn =>
    UInt64.toNat_ofNat_of_lt' (hwords n hn)
  have hids : a.buffers.map (fun b => b.1.raw.toNat) =
      (a.buffers.map Prod.fst).map fun id => id.raw.toNat := by
    rw [List.map_map]
    rfl
  constructor
  · rw [words, hids, List.map_fst_zip (by simp [hcount]), List.map_map,
      hback object List.mem_cons_self]
    congr 1
    exact (List.map_congr_left fun n hn => hback n (List.mem_cons_of_mem _ hn)).trans
      (List.map_id _)
  · exact List.map_snd_zip (by simp [hcount])

/-- Frames are accepted exactly if they are those of the array that is given. -/
theorem ofFrames_eq_ok_iff {fs : List Bytes} {a : DeviceArray} :
    ofFrames fs = .ok a ↔ fs = a.frames := by
  refine ⟨fun h => ?_, fun h => h ▸ ofFrames_frames a⟩
  unfold ofFrames at h
  split at h
  · cases h
  next metadata contents =>
    split at h
    next object ids hwords =>
      split at h
      next hcount =>
        cases h
        obtain ⟨hall, rfl⟩ := Bytes.words?_eq_some_iff.1 hwords
        obtain ⟨hmade, hcontents⟩ := exists_of_words hall hcount
        rw [frames_eq, hmade, hcontents]
      · cases h
    · cases h

/-- All that matters is that the metadata has a word for the array and one for each frame behind it.
-/
theorem exists_ofFrames_iff {fs : List Bytes} :
    (∃ a, ofFrames fs = .ok a) ↔
      ∃ metadata contents, fs = metadata :: contents ∧
        metadata.length = 8 * (contents.length + 1) := by
  constructor
  · rintro ⟨a, ha⟩
    refine ⟨_, _, (ofFrames_eq_ok_iff.1 ha).trans a.frames_eq, ?_⟩
    rw [Bytes.length_ofWords, words, List.length_cons, List.length_map, List.length_map]
  · rintro ⟨metadata, contents, rfl, hlength⟩
    rw [ofFrames]
    cases hwords : Bytes.words? metadata with
    | none => exact absurd (Bytes.words?_eq_none_iff.1 hwords) (by omega)
    | some ns =>
      have hsize := congrArg List.length (Bytes.words?_eq_some_iff.1 hwords).2
      rw [Bytes.length_ofWords] at hsize
      cases ns with
      | nil =>
        rw [List.length_nil] at hsize
        omega
      | cons object ids =>
        rw [List.length_cons] at hsize
        exact ⟨_, if_pos (by omega)⟩

/-- Frames that are not accepted are refused for their form. -/
theorem exists_ofFrames_eq_error {fs : List Bytes} (h : ∀ a, ofFrames fs ≠ .ok a) :
    ∃ message, ofFrames fs = .error (.deserialization message) := by
  unfold ofFrames at h ⊢
  split
  · exact ⟨_, rfl⟩
  next metadata contents =>
    split
    next object ids hwords =>
      split
      next hcount => simp [hwords, hcount] at h
      · exact ⟨_, rfl⟩
    · exact ⟨_, rfl⟩

/-! ### Reading by positions -/

open Container (Positional piece?)

/-- `n` words of the metadata, from the `i`-th on. A word is made of eight octets, no more and no
fewer. -/
def wordsFrom (metadata : Bytes) : (i n : ℕ) → Positional (List ℕ)
  | _, 0 => return []
  | i, n + 1 =>
    match piece? metadata (8 * i) (8 * i + 8) with
    | none => throwThe Fault .outOfRange
    | some octets => do
      if octets.length ≠ 8 then throwThe Fault .outOfRange
      let others ← wordsFrom metadata (i + 1) n
      return Bytes.toNat octets :: others

/-- One less than a number. There is nothing below zero. -/
def oneLess : ℕ → Positional ℕ
  | 0 => throwThe Fault .overflow
  | n + 1 => return n

/-- The array of some words of metadata and the frames behind it. What frames to expect and what
they are for is looked up in the words. -/
def assembled (words : List ℕ) (contents : List Bytes) : Positional DeviceArray := do
  let expected ← oneLess words.length
  if contents.length ≠ expected then throw (wrongFrameCount expected contents.length)
  match words[0]? with
  | none => throwThe Fault .outOfRange
  | some object =>
    if words.length < 1 then throwThe Fault .outOfRange
    return ⟨UInt64.ofNat object,
      ((words.drop 1).map fun id => ⟨UInt64.ofNat id⟩).zip contents⟩

/-- The array whose frames are given. -/
def ofFramesAt : List Bytes → Positional DeviceArray
  | [] => throw missingMetadata
  | metadata :: contents => do
    if metadata.length < 8 ∨ metadata.length % 8 ≠ 0 then throw (badMetadata metadata.length)
    let words ← wordsFrom metadata 0 (metadata.length / 8)
    assembled words contents

/-- The words at some positions are those that are split off there. -/
theorem wordsFrom_eq {metadata rest : Bytes} {n i : ℕ} {ns : List ℕ}
    (h : Bytes.splitWords? n (metadata.drop (8 * i)) = some (ns, rest)) :
    wordsFrom metadata i n = .ok (.ok ns) := by
  induction n generalizing i ns with
  | zero =>
    cases h
    rfl
  | succ n ih =>
    rw [Bytes.splitWords?] at h
    split at h
    · cases h
    next first tail hfirst =>
      split at h
      · cases h
      next others rest' hothers =>
        cases h
        simp only [Bytes.splitWord?, Option.ite_none_right_eq_some, Option.some.injEq,
          Prod.mk.injEq] at hfirst
        obtain ⟨hfront, rfl, rfl⟩ := hfirst
        have hwithin := hfront
        rw [List.length_take, List.length_drop] at hwithin
        have hpiece : piece? metadata (8 * i) (8 * i + 8) =
            some ((metadata.drop (8 * i)).take 8) := by
          rw [piece?, if_pos ⟨by omega, by omega⟩, Nat.add_sub_cancel_left]
        have hread : wordsFrom metadata (i + 1) n = .ok (.ok others) := by
          apply ih
          rw [Nat.mul_add, ← List.drop_drop]
          exact hothers
        simp only [wordsFrom, hpiece, hfront, ne_eq, not_true, if_false, hread]
        rfl

/-- Where there is a word for the array, the number of the other words decides. -/
theorem assembled_cons (object : ℕ) (ids : List ℕ) (contents : List Bytes) :
    assembled (object :: ids) contents =
      .ok (if contents.length = ids.length then
        .ok ⟨UInt64.ofNat object, (ids.map fun id => ⟨UInt64.ofNat id⟩).zip contents⟩
      else .error (wrongFrameCount ids.length contents.length)) := by
  rw [assembled, List.length_cons, oneLess]
  by_cases hcount : contents.length = ids.length
  · simp only [hcount, pure_bind, ne_eq, not_true, if_false, if_true]
    rfl
  · simp only [hcount, pure_bind, ne_eq, not_false_eq_true, if_true, if_false]
    rfl

/-- Reading by positions runs into no fault, whatever the frames, and has the same answer. -/
theorem ofFramesAt_eq (fs : List Bytes) : ofFramesAt fs = .ok (ofFrames fs) := by
  cases fs with
  | nil => rfl
  | cons metadata contents =>
    rw [ofFramesAt, ofFrames]
    by_cases hmod : metadata.length % 8 = 0
    · obtain ⟨ns, rest, hsplit⟩ :=
        Bytes.exists_splitWords? (metadata.length / 8) metadata (by omega)
      have hread : wordsFrom metadata 0 (metadata.length / 8) = .ok (.ok ns) := wordsFrom_eq hsplit
      have hcount := (Bytes.splitWords?_eq_some_iff.1 hsplit).1
      have hwords : Bytes.words? metadata = some ns := by
        rw [Bytes.words?, if_pos hmod, hsplit]
        rfl
      rw [hwords]
      cases ns with
      | nil =>
        -- There is not even a word for the array.
        rw [List.length_nil] at hcount
        rw [if_pos (.inl (by omega))]
        rfl
      | cons object ids =>
        rw [List.length_cons] at hcount
        rw [if_neg (by omega), hread]
        show assembled (object :: ids) contents = _
        rw [assembled_cons]
    · rw [if_pos (.inr hmod), Bytes.words?_eq_none_iff.2 hmod]
      rfl

/-- Arrays and the lists of frames that are accepted go with each other one to one: a list is read
as an array exactly if the array has these frames. Whether a list is accepted depends on nothing but
the length of its metadata and the number of frames behind it, every other list is refused for its
form, and no list makes the reader ask for a piece or a word that is not there. -/
theorem frames_bijective (fs : List Bytes) :
    ofFramesAt fs = .ok (ofFrames fs) ∧
    (∀ a, ofFrames fs = .ok a ↔ fs = a.frames) ∧
    ((∃ a, ofFrames fs = .ok a) ↔
      ∃ metadata contents, fs = metadata :: contents ∧
        metadata.length = 8 * (contents.length + 1)) ∧
    ((∃ a : DeviceArray, fs = a.frames) ∨
      ∃ message, ofFrames fs = .error (.deserialization message)) := by
  refine ⟨ofFramesAt_eq fs, fun a => ofFrames_eq_ok_iff, exists_ofFrames_iff, ?_⟩
  by_cases haccepted : ∃ a, ofFrames fs = .ok a
  · exact .inl (haccepted.imp fun a => ofFrames_eq_ok_iff.1)
  · exact .inr (exists_ofFrames_eq_error (not_exists.1 haccepted))

/-- Metadata without a word has none for the array, whatever the number of frames behind it. -/
example : ofFrames [[], [7]] = .error (badMetadata 0) := rfl

end DeviceArray

end TieredStore
