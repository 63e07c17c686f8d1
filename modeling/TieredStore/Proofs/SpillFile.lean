import Mathlib.Data.List.Forall2
import TieredStore.Proofs.Container
import TieredStore.Proofs.Gzip
import TieredStore.Proofs.Outcome
import TieredStore.Proofs.Total
import TieredStore.SpillDirectory

/-!
# Spill files are read back

What is written to a spill file is read back as it was, whether or not frames were compressed on
the way. Frames have to be short enough for their lengths to be stored in words.

* `filePath_injective`: different numbers are different files.
* `decode_prepare`: the content of a file stands for the frames that it was made from.
* `dump_ends`: a file is written under a new number, unless the directory refuses it.
* `load_of_find?`: a file is decoded as its header says, and removed.
* `load_dump`: what is written can be loaded again, once, with each frame as it was before any
  compression.
* `load_frames`: which of the stored frames are loaded, whatever the file and the header say.
-/

namespace TieredStore

namespace Compression

/-- Frames as they were before compression. A list of compressions that is empty goes with raw
frames. -/
def restoreAll (codecs : List (Option Codec)) (frames : List Bytes) : Except Error (List Bytes) :=
  if codecs.isEmpty then .ok frames
  else (codecs.zip frames).mapM (fun (codec, frame) => restore codec frame)

/-- Frames are recovered one by one from what was made of each. -/
theorem restoreAll_map {codecs : List (Option Codec)} {packed frames : List Bytes}
    (h : List.Forall₂ (fun p frame => restore p.1 p.2 = .ok frame) (codecs.zip packed) frames)
    (hlength : codecs.length = packed.length) : restoreAll codecs packed = .ok frames := by
  rw [restoreAll]
  split
  next hempty =>
    -- Without codecs there are no frames either.
    have hcodecs : codecs = [] := by simpa using hempty
    subst hcodecs
    have hpacked : packed = [] := by simpa using hlength.symm
    subst hpacked
    cases h
    rfl
  next =>
    generalize codecs.zip packed = pairs at h ⊢
    induction h with
    | nil => rfl
    | cons hfirst _ ih => simp [List.mapM_cons, hfirst, ih, bind, Except.bind, pure, Except.pure]

/-- Frames without a codec stand for themselves. -/
theorem restoreAll_none (frames : List Bytes) :
    restoreAll (frames.map fun _ => none) frames = .ok frames := by
  refine restoreAll_map ?_ (List.length_map _)
  rw [← List.map_prod_right_eq_zip, List.forall₂_map_left_iff]
  exact List.forall₂_same.2 fun _ _ => rfl

/-- A frame that is not recovered is corrupt. -/
theorem eq_corrupt_of_restore {codec : Option Codec} {frame : Bytes} {e : Error}
    (h : restore codec frame = .error e) : e = corrupt := by
  unfold restore at h
  split at h
  · cases h
  · split at h <;> cases h
    rfl

/-- Either every frame is recovered with its own entry, or some frame is corrupt. -/
theorem restoreAll_cases {codecs : List (Option Codec)} {packed : List Bytes}
    (hlength : codecs.length = packed.length) :
    (∃ frames, restoreAll codecs packed = .ok frames ∧
      List.Forall₂ (fun p frame => restore p.1 p.2 = .ok frame) (codecs.zip packed) frames) ∨
    restoreAll codecs packed = .error corrupt ∧
      ∃ p ∈ codecs.zip packed, restore p.1 p.2 = .error corrupt := by
  rcases codecs with _ | ⟨codec, codecs⟩
  · rw [List.eq_nil_of_length_eq_zero hlength.symm]
    exact .inl ⟨[], rfl, .nil⟩
  · rw [restoreAll, List.isEmpty_cons, if_neg Bool.false_ne_true]
    -- The first frame that is corrupt ends the reading.
    generalize (codec :: codecs).zip packed = pairs
    induction pairs with
    | nil => exact .inl ⟨[], rfl, .nil⟩
    | cons p pairs ih =>
      simp only [List.mapM_cons, bind, Except.bind, pure, Except.pure]
      cases hfirst : restore p.1 p.2 with
      | error e =>
        cases eq_corrupt_of_restore hfirst
        exact .inr ⟨rfl, p, List.mem_cons_self, hfirst⟩
      | ok frame =>
        rcases ih with ⟨frames, hrest, hframes⟩ | ⟨hrest, q, hq, hcorrupt⟩
        · exact .inl ⟨frame :: frames, by rw [hrest], .cons hfirst hframes⟩
        · exact .inr ⟨by rw [hrest], q, List.mem_cons_of_mem p hq, hcorrupt⟩

/-- Frames that were recovered one by one were recovered each by itself. -/
theorem forall₂_of_mapM {pairs : List (Option Codec × Bytes)} {frames : List Bytes}
    (h : pairs.mapM (fun (codec, frame) => restore codec frame) = .ok frames) :
    List.Forall₂ (fun p frame => restore p.1 p.2 = .ok frame) pairs frames := by
  induction pairs generalizing frames with
  | nil =>
    cases h
    exact .nil
  | cons p pairs ih =>
    simp only [List.mapM_cons, bind, Except.bind, pure, Except.pure] at h
    cases hfirst : restore p.1 p.2 with
    | error e => simp [hfirst] at h
    | ok frame =>
      cases hrest : pairs.mapM (fun (codec, frame) => restore codec frame) with
      | error e => simp [hfirst, hrest] at h
      | ok others =>
        simp only [hfirst, hrest, Except.ok.injEq] at h
        subst h
        exact .cons hfirst (ih hrest)

/-- Each frame that is recovered was recovered with the entry at its place, or taken as it is if
there is none. Only frames with an entry are recovered, unless there are no entries at all. -/
theorem restoreAll_spec {codecs : List (Option Codec)} {packed frames : List Bytes}
    (h : restoreAll codecs packed = .ok frames) :
    frames.length = (if codecs = [] then packed.length else min codecs.length packed.length) ∧
      ∀ i frame, frames[i]? = some frame →
        ∃ raw, packed[i]? = some raw ∧ restore (codecs.getD i none) raw = .ok frame := by
  rw [restoreAll] at h
  split at h
  next hempty =>
    have hcodecs : codecs = [] := by simpa using hempty
    cases h
    exact ⟨by rw [if_pos hcodecs], fun i frame hframe =>
      ⟨frame, hframe, by simp [hcodecs, restore]⟩⟩
  next hempty =>
    have hcodecs : codecs ≠ [] := by simpa using hempty
    have hframes := forall₂_of_mapM h
    have hlength := hframes.length_eq
    rw [List.length_zip] at hlength
    refine ⟨by rw [if_neg hcodecs, hlength], fun i frame hframe => ?_⟩
    obtain ⟨hi, rfl⟩ := List.getElem?_eq_some_iff.1 hframe
    have hcodec : i < codecs.length := by omega
    have hpacked : i < packed.length := by omega
    have hrestore := hframes.get (by rw [List.length_zip]; omega) hi
    simp only [List.get_eq_getElem, List.getElem_zip] at hrestore
    have hentry : codecs.getD i none = codecs[i] := by simp [List.getD, hcodec]
    exact ⟨packed[i], List.getElem?_eq_getElem hpacked, by rw [hentry, hrestore]⟩

end Compression

/-- Raw frames are listed without a codec each. -/
theorem FrameHeader.compression_of_raw {header : FrameHeader} (hraw : header.isCompressed = false) :
    header.compression = List.replicate header.compression.length none := by
  rw [isCompressed, List.any_eq_false] at hraw
  exact List.eq_replicate_of_mem fun codec hcodec => by simpa using hraw codec hcodec

namespace SpillDirectory

variable (d : SpillDirectory)

theorem filePath_injective {n m : ℕ} (h : d.filePath n = d.filePath m) : n = m := by
  -- The names differ in their digits only, and these are read back as the numbers.
  have htext : d.stem.text ++ "-" ++ toString n = d.stem.text ++ "-" ++ toString m :=
    congrArg Path.text h
  have hdigits : Nat.toDigits 10 n = Nat.toDigits 10 m :=
    String.ofList_injective ((String.append_right_inj _).1 htext)
  have hread := congrArg (fun digits => Nat.ofDigitChars 10 digits 0) hdigits
  simpa [Nat.ofDigitChars_toDigits] using hread

/-- The header of the frames as they are written differs in what it says of the frames only. -/
theorem prepare_header (header : FrameHeader) (frames : List Bytes) (compress : Bool) :
    (d.prepare header frames compress).1 =
      { header with
        compression := (d.prepare header frames compress).1.compression
        count := frames.length } := by
  unfold prepare
  split
  · rfl
  · split <;> rfl

/-- Every frame has an entry among the compressions and is written as a frame of its own, which is
no longer than the frame. -/
theorem prepare_lengths (header : FrameHeader) (frames : List Bytes) (compress : Bool) :
    (d.prepare header frames compress).1.compression.length = frames.length ∧
      List.Forall₂ (fun written frame => written.length ≤ frame.length)
        (d.prepare header frames compress).2 frames := by
  have hrefl : List.Forall₂ (fun written frame : Bytes => written.length ≤ frame.length)
      frames frames := List.forall₂_same.2 fun _ _ => le_rfl
  unfold prepare
  split
  · simp only [List.map_map, List.length_map, true_and, List.forall₂_map_left_iff]
    refine List.forall₂_same.2 fun frame _ => ?_
    by_cases hshrunk : (Compression.shrink frame).1.isSome
    · exact (Compression.length_shrink frame hshrunk).le
    · -- A frame that is not compressed is written as it is.
      have hrestore := Compression.restore_shrink frame
      rw [Bool.not_eq_true, Option.isSome_eq_false_iff, Option.isNone_iff_eq_none] at hshrunk
      rw [hshrunk, Compression.restore, Except.ok.injEq] at hrestore
      exact (congrArg List.length hrestore).le
  · split
    next hlength => exact ⟨hlength, hrefl⟩
    next => exact ⟨by simp, hrefl⟩

/-- Raw frames are written as they are, and listed as such, unless compression is enabled. -/
theorem prepare_of_disabled {header : FrameHeader} (frames : List Bytes) (compress : Bool)
    (hdisabled : d.compression = false) (hraw : header.isCompressed = false) :
    (d.prepare header frames compress).1.compression = List.replicate frames.length none := by
  rw [prepare, hdisabled, Bool.and_false, Bool.false_and, if_neg Bool.false_ne_true]
  split
  next hlength =>
    rw [← hlength]
    exact header.compression_of_raw hraw
  next => exact List.map_const'

/-- Raw frames are recovered from what is written of them. -/
theorem restoreAll_prepare {header : FrameHeader} (frames : List Bytes) (compress : Bool)
    (hraw : header.isCompressed = false) :
    Compression.restoreAll (d.prepare header frames compress).1.compression
      (d.prepare header frames compress).2 = .ok frames := by
  unfold prepare
  split
  · -- Each frame is compressed with a codec of its own, and that codec restores it.
    refine Compression.restoreAll_map ?_ (by simp)
    simp only [List.map_map, List.zip_map', List.forall₂_map_left_iff]
    exact List.forall₂_same.2 fun frame _ => Compression.restore_shrink frame
  · split
    next hlength =>
      have hcodecs : header.compression = frames.map fun _ => none := by
        rw [List.map_const', ← hlength]
        exact header.compression_of_raw hraw
      rw [hcodecs]
      exact Compression.restoreAll_none frames
    next => exact Compression.restoreAll_none frames

/-- The frames in a file are decoded as its header says. -/
theorem decode_of_unpack {header : DiskHeader} {data : Bytes} {stored : List Bytes}
    (hunpack : Container.unpack data = .ok stored)
    (hcount : stored.length = header.subHeader.count) :
    decode header data =
      (Compression.restoreAll header.subHeader.compression stored).map (fun frames =>
        ({ header.subHeader with compression := frames.map (fun _ => none) }, frames)) := by
  simp only [decode, hunpack, hcount, Compression.restoreAll, bind, Except.bind, pure, Except.pure,
    ne_eq, not_true_eq_false, if_false]
  split
  · rfl
  · cases (header.subHeader.compression.zip stored).mapM
      (fun (codec, frame) => Compression.restore codec frame) <;> rfl

/-- The content of a file is decoded as its header says. -/
theorem decode_pack {header : DiskHeader} {frames : List Bytes} (hfits : Container.Fits frames)
    (hcount : frames.length = header.subHeader.count) :
    decode header (Container.pack frames) =
      (Compression.restoreAll header.subHeader.compression frames).map (fun frames =>
        ({ header.subHeader with compression := frames.map (fun _ => none) }, frames)) :=
  decode_of_unpack (Container.unpack_pack hfits) hcount

/-- Content that is decoded holds as many frames as the header says. -/
theorem decode_eq_ok {header : DiskHeader} {data : Bytes} {sub : FrameHeader} {frames : List Bytes}
    (h : decode header data = .ok (sub, frames)) :
    ∃ stored, Container.unpack data = .ok stored ∧ stored.length = header.subHeader.count ∧
      sub = { header.subHeader with compression := List.replicate frames.length none } ∧
      Compression.restoreAll header.subHeader.compression stored = .ok frames := by
  cases hunpack : Container.unpack data with
  | error e => simp [decode, hunpack, bind, Except.bind] at h
  | ok stored =>
    by_cases hcount : stored.length = header.subHeader.count
    · rw [decode_of_unpack hunpack hcount] at h
      cases hrestore : Compression.restoreAll header.subHeader.compression stored with
      | error e => simp [hrestore, Except.map] at h
      | ok restored =>
        simp only [hrestore, Except.map, Except.ok.injEq, Prod.mk.injEq] at h
        obtain ⟨rfl, rfl⟩ := h
        exact ⟨stored, rfl, hcount, by simp, hrestore⟩
    · simp [decode, hunpack, hcount, bind, Except.bind] at h

/-- The frames that a header stands for: each frame as its entry says, if some are compressed. -/
def recovered (header : FrameHeader) (frames : List Bytes) : Except Error (List Bytes) :=
  if header.isCompressed then Compression.restoreAll header.compression frames else .ok frames

/-- What is written of frames is decoded as the frames that their header stands for. -/
theorem decode_prepare_eq {header : FrameHeader} {frames : List Bytes} (compress : Bool)
    (hheader : header.compression.length = frames.length ∨ header.isCompressed = false)
    (hfits : Container.Fits frames) {disk : DiskHeader}
    (hdisk : disk.subHeader = (d.prepare header frames compress).1) :
    decode disk (Container.pack (d.prepare header frames compress).2) =
      (recovered header frames).map fun restored =>
        ({ header with compression := restored.map (fun _ => none), count := frames.length },
          restored) := by
  have hlengths := d.prepare_lengths header frames compress
  -- Compression makes no frame longer, so the frames as written fit if the frames do.
  have hwritten : Container.Fits (d.prepare header frames compress).2 := by
    refine ⟨hlengths.2.length_eq ▸ hfits.1, fun written hmem => ?_⟩
    obtain ⟨k, hk, rfl⟩ := List.mem_iff_getElem.1 hmem
    have hk' : k < frames.length := hlengths.2.length_eq ▸ hk
    exact (hlengths.2.get hk hk').trans_lt (hfits.2 _ (List.getElem_mem hk'))
  have hrestore : Compression.restoreAll (d.prepare header frames compress).1.compression
      (d.prepare header frames compress).2 = recovered header frames := by
    unfold recovered
    split
    next hcompressed =>
      -- What is compressed already is written as it is, with its own entries.
      have hlength := hheader.resolve_right (by simp [hcompressed])
      simp [prepare, hcompressed, hlength]
    next hraw => exact d.restoreAll_prepare frames compress (by simpa using hraw)
  rw [decode_pack hwritten, hdisk, hrestore]
  · rw [d.prepare_header]
  · rw [hdisk, d.prepare_header]
    exact hlengths.2.length_eq

/-- What is written of raw frames is decoded as these frames. -/
theorem decode_prepare {header : FrameHeader} {frames : List Bytes} (compress : Bool)
    (hraw : header.isCompressed = false) (hfits : Container.Fits frames) {disk : DiskHeader}
    (hdisk : disk.subHeader = (d.prepare header frames compress).1) :
    decode disk (Container.pack (d.prepare header frames compress).2) =
      .ok ({ header with compression := frames.map (fun _ => none), count := frames.length },
        frames) := by
  rw [d.decode_prepare_eq compress (.inr hraw) hfits hdisk, recovered, hraw]
  rfl

/-! ### Writing and reading files -/

/-- Every file can be written. -/
def Writable : Prop := d.volume.isPresent = true ∧ d.volume.refused = []

/-- The header of the next file. -/
def nextHeader (header : FrameHeader) (frames : List Bytes) (compress : Bool) : DiskHeader where
  serializer := .disk
  path := d.filePath (d.counter + 1)
  sharedFilesystem := d.sharedFilesystem
  subHeader := (d.prepare header frames compress).1
  size := (Container.pack (d.prepare header frames compress).2).length

/-- The directory with the next file. -/
def addFile (data : Bytes) : SpillDirectory :=
  { d with
    counter := d.counter + 1
    volume := { d.volume with
      files := d.volume.files.insert (d.filePath (d.counter + 1)) data } }

/-- An action on the files ends as it does on the files alone. -/
theorem onVolume_iff {d : SpillDirectory} {α : Type} {action : EStateM Error Volume α}
    {ok : α → SpillDirectory → Prop} {bad : Error → SpillDirectory → Prop} :
    Ends (onVolume action) d ok bad ↔
      Ends action d.volume (fun x volume => ok x { d with volume })
        (fun e volume => bad e { d with volume }) := by
  simp only [Ends, onVolume]
  cases action d.volume <;> rfl

/-- A file is written under the next number. If it cannot be written its number is used up, and
nothing else has changed. -/
theorem dump_ends (header : FrameHeader) (frames : List Bytes) (compress : Bool) :
    Ends (dump header frames compress) d
      (fun disk d' => disk = d.nextHeader header frames compress ∧
        d' = d.addFile (Container.pack (d.prepare header frames compress).2))
      (fun _ d' => d' = { d with counter := d.counter + 1 } ∧ ¬ d.Writable) := by
  simp only [dump, Ends.bind_iff, Ends.get_iff, Ends.modifyGet_iff, nextPath]
  simp only [Ends, onVolume, Volume.write]
  -- The number is drawn before the write, and both ways out leave it drawn.
  by_cases hwrite : (d.volume.isPresent && !d.volume.refused.contains (d.filePath (d.counter + 1)))
  · rw [show SpillDirectory.filePath { d with counter := d.counter + 1 } (d.counter + 1) =
      d.filePath (d.counter + 1) from rfl, if_pos hwrite]
    exact ⟨rfl, rfl⟩
  · rw [show SpillDirectory.filePath { d with counter := d.counter + 1 } (d.counter + 1) =
      d.filePath (d.counter + 1) from rfl, if_neg hwrite]
    refine ⟨rfl, fun hwritable => hwrite ?_⟩
    simp [hwritable.1, hwritable.2]

/-- A file is decoded as its header says, and it is gone whatever is in it. -/
theorem load_of_find? {header : DiskHeader} {v : Volume} {data : Bytes}
    (hfile : v.files.find? header.path = some data) :
    load header v = match decode header data with
      | .ok result => .ok result (v.discard header.path)
      | .error e => .error e (v.discard header.path) := by
  have hread : Volume.read header.path v = .ok data v := by simp [Volume.read, hfile]
  have hremove : Volume.remove header.path v = .ok () (v.discard header.path) :=
    Volume.remove_of_contains (Table.contains_of_find? hfile)
  simp only [load, bind, EStateM.bind, hread, hremove]
  cases decode header data <;> rfl

/-- A file that can be read is read, and it is gone after that. -/
theorem load_of_decode {header : DiskHeader} {v : Volume} {data : Bytes}
    {result : FrameHeader × List Bytes} (hfile : v.files.find? header.path = some data)
    (hdecode : decode header data = .ok result) :
    load header v = .ok result (v.discard header.path) := by
  rw [load_of_find? hfile, hdecode]

/-- A file that is not there cannot be read. -/
theorem load_of_missing {header : DiskHeader} {v : Volume}
    (hfile : v.files.find? header.path = none) :
    load header v = .error (.missingFile header.path.text) v := by
  have hread : Volume.read header.path v = .error (.missingFile header.path.text) v := by
    simp [Volume.read, hfile]
  simp only [load, bind, EStateM.bind, hread]

/-- What is loaded is raw, and listed as such. -/
theorem isCompressed_of_load {header : DiskHeader} {v w : Volume} {sub : FrameHeader}
    {frames : List Bytes} (hload : load header v = .ok (sub, frames) w) :
    sub.isCompressed = false := by
  cases hfile : v.files.find? header.path with
  | none =>
    rw [load_of_missing hfile] at hload
    cases hload
  | some data =>
    rw [load_of_find? hfile] at hload
    cases hdecode : decode header data with
    | error e =>
      rw [hdecode] at hload
      cases hload
    | ok result =>
      rw [hdecode] at hload
      cases hload
      obtain ⟨-, -, -, rfl, -⟩ := decode_eq_ok hdecode
      simp [FrameHeader.isCompressed]

/-- Frames that are written can be loaded again, once. The file has the size that its header says
until then and is gone after that, and no other file changes. Raw frames come back as they were,
whether or not they were compressed on the way. Frames that were compressed already come back as
their own entries say, unless one of them is corrupt. -/
theorem load_dump (header : FrameHeader) (frames : List Bytes) (compress : Bool)
    (hwritable : d.Writable) (hfits : Container.Fits frames)
    (hheader : header.compression.length = frames.length ∨ header.isCompressed = false) :
    ∃ disk d' written v,
      dump header frames compress d = .ok disk d' ∧
      d'.volume.files.find? disk.path = some written ∧ written.length = disk.size ∧
      v.files.find? disk.path = none ∧
      (∀ path, path ≠ disk.path →
        d'.volume.files.find? path = d.volume.files.find? path ∧
        v.files.find? path = d.volume.files.find? path) ∧
      Ends (load disk) d'.volume
        (fun result u => u = v ∧
          result.1 = { header with
            compression := List.replicate frames.length none
            count := frames.length } ∧
          if header.isCompressed then
            List.Forall₂ (fun p frame => Compression.restore p.1 p.2 = .ok frame)
              (header.compression.zip frames) result.2
          else result.2 = frames)
        (fun e u => u = v ∧ e = Compression.corrupt ∧ header.isCompressed = true ∧
          ∃ p ∈ header.compression.zip frames,
            Compression.restore p.1 p.2 = .error Compression.corrupt) ∧
      load disk v = .error (.missingFile disk.path.text) v := by
  obtain ⟨disk, d', hdump, hdisk, hd'⟩ := (d.dump_ends header frames compress).exists_ok
    fun _ _ hbad => hbad.2 hwritable
  have hpath : disk.path = d.filePath (d.counter + 1) := by rw [hdisk, nextHeader]
  have hfile : d'.volume.files.find? disk.path =
      some (Container.pack (d.prepare header frames compress).2) := by
    rw [hd', hpath, addFile, Table.find?_insert_self]
  have hgone : (d'.volume.discard disk.path).files.find? disk.path = none :=
    Table.find?_erase_self _ _
  refine ⟨disk, d', _, d'.volume.discard disk.path, hdump, hfile, by rw [hdisk, nextHeader], hgone,
    fun path hne => ?_, ?_, load_of_missing hgone⟩
  · have hkept : d'.volume.files.find? path = d.volume.files.find? path := by
      rw [hd', addFile]
      exact Table.find?_insert_of_ne _ _ (hpath ▸ hne)
    exact ⟨hkept, (Table.find?_erase_of_ne _ hne).trans hkept⟩
  · -- The file goes before its frames are decoded, so it is gone if they are corrupt, too.
    rw [Ends, load_of_find? hfile, d.decode_prepare_eq compress hheader hfits (by rw [hdisk]; rfl),
      recovered]
    cases hcompressed : header.isCompressed
    case false =>
      rw [if_neg Bool.false_ne_true]
      exact ⟨rfl, by simp, by simp⟩
    case true =>
      rw [if_pos rfl]
      have hlength := hheader.resolve_right (by simp [hcompressed])
      rcases Compression.restoreAll_cases hlength with ⟨restored, hok, hframes⟩ | ⟨herror, hcorrupt⟩
      · rw [hok]
        refine ⟨rfl, ?_, by simpa using hframes⟩
        have hcount : restored.length = frames.length := by
          rw [← hframes.length_eq, List.length_zip, hlength, Nat.min_self]
        simp [hcount]
      · rw [herror]
        exact ⟨rfl, rfl, rfl, hcorrupt⟩

/-- A header may say more of raw frames than there are. -/
theorem load_dump_one_frame :
    let d : SpillDirectory := ⟨⟨"/spill"⟩, "run", 0, false, true, .empty⟩
    let header : FrameHeader := ⟨.dask, 3, [none, none], 2⟩
    let frames : List Bytes := [[1, 2, 3]]
    d.Writable ∧ Container.Fits frames ∧ header.isCompressed = false ∧
      ∃ disk d' v, dump header frames true d = .ok disk d' ∧
        load disk d'.volume = .ok (⟨.dask, 3, [none], 1⟩, frames) v := by
  intro d header frames
  have hwritable : d.Writable := ⟨rfl, rfl⟩
  have hfits : Container.Fits frames := by
    unfold Container.Fits
    decide
  have hraw : header.isCompressed = false := rfl
  obtain ⟨disk, d', _, v, hdump, -, -, -, -, hload, -⟩ :=
    d.load_dump header frames true hwritable hfits (.inr hraw)
  -- Raw frames are not corrupt.
  obtain ⟨⟨sub, read⟩, u, hok, -, hsub, hread⟩ := hload.exists_ok
    fun _ _ hbad => Bool.false_ne_true (hraw.symm.trans hbad.2.2.1)
  rw [if_neg (by simp [hraw])] at hread
  dsimp only at hsub hread
  exact ⟨hwritable, hfits, hraw, disk, d', u, hdump, by rw [hok, hsub, hread]; rfl⟩

/-- What is loaded from a file that may hold anything, with a header that may say anything. The
frames in the file are as many as the count of the header, and each frame that is returned is the
stored one, read with the entry at its place among the compressions of the header. The number of
entries is not checked. Frames beyond the last entry are dropped, unless there is no entry at all,
and the count of the header that is returned is still the number of stored frames. -/
theorem load_frames {header : DiskHeader} {v u : Volume} {sub : FrameHeader} {frames : List Bytes}
    (hload : load header v = .ok (sub, frames) u) :
    ∃ data stored,
      v.files.find? header.path = some data ∧ u = v.discard header.path ∧
      Container.unpack data = .ok stored ∧ stored.length = sub.count ∧
      sub = { header.subHeader with compression := List.replicate frames.length none } ∧
      (∀ i frame, frames[i]? = some frame →
        ∃ raw, stored[i]? = some raw ∧
          Compression.restore (header.subHeader.compression.getD i none) raw = .ok frame) ∧
      frames.length = (if header.subHeader.compression = [] then stored.length
        else min header.subHeader.compression.length stored.length) ∧
      (frames.length = stored.length ↔
        header.subHeader.compression = [] ∨
          stored.length ≤ header.subHeader.compression.length) := by
  cases hfile : v.files.find? header.path with
  | none =>
    rw [load_of_missing hfile] at hload
    cases hload
  | some data =>
    rw [load_of_find? hfile] at hload
    split at hload
    next result hdecode =>
      cases hload
      -- The count is checked against the stored frames, but not against the entries.
      obtain ⟨stored, hunpack, hcount, hsub, hframes⟩ := decode_eq_ok hdecode
      have hspec := Compression.restoreAll_spec hframes
      refine ⟨data, stored, rfl, rfl, hunpack, by rw [hsub, hcount], hsub, hspec.2, hspec.1, ?_⟩
      rw [hspec.1]
      split
      next hempty => simp [hempty]
      next hempty => simp [hempty]
    next => cases hload

/-- A header with one entry for two stored frames: the second frame is dropped. -/
theorem load_frames_one_entry :
    let header : DiskHeader := ⟨.disk, ⟨"/spill/a"⟩, false, ⟨.dask, 0, [none], 2⟩, 26⟩
    let v : Volume := ⟨true, Table.empty.insert header.path (Container.pack [[1], [2]]), []⟩
    load header v = .ok (⟨.dask, 0, [none], 2⟩, [[1]]) (v.discard header.path) ∧
      ∃ stored : List Bytes, stored.length = 2 ∧ ([[1]] : List Bytes).length ≠ stored.length := by
  intro header v
  have hload : load header v = .ok (⟨.dask, 0, [none], 2⟩, [[1]]) (v.discard header.path) := rfl
  obtain ⟨_, stored, -, -, -, hcount, -, -, -, hall⟩ := load_frames hload
  refine ⟨hload, stored, hcount, fun hlength => ?_⟩
  rcases hall.1 hlength with hempty | hle
  · cases hempty
  · rw [hcount] at hle
    exact absurd hle (by decide)

end SpillDirectory

end TieredStore
