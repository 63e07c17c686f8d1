import TieredStore.Proofs.SpillFile
import TieredStore.Proxy

/-!
# What a form holds

A proxy holds an array live, as frames in memory, or as frames in a spill file. `Holds` says of
each form that it stands for a given array: frames are those of the array, and a file is decoded
into them.

* `framesFor_of_holds`, `objectOf_of_holds`: what a form holds is taken out of it whole, and the
  file is gone if there was one.
* `serialize_ends`, `revive_ends`: what becomes of a proxy that is serialized or asked for its
  object.
* `Holds.nextHeader`: the next spill file holds the array whose frames are written to it.
* `Holds.mono`: a form keeps what it holds while its file stays.
-/

namespace TieredStore

namespace DeviceArray

/-- All frames have lengths that a word can store, as everything in memory has. -/
def IsAddressable (a : DeviceArray) : Prop := ∀ f ∈ a.frames, f.length < 2 ^ 64

/-- The bytes of all frames of an array. -/
def footprint (a : DeviceArray) : ℕ := (a.frames.map List.length).sum

/-- The allocations of an array have the sizes that `size` gives. -/
def SizedBy (size : BufferId → ℕ) (a : DeviceArray) : Prop :=
  ∀ b ∈ a.deviceBuffers, b.size = size b.id

variable {a : DeviceArray}

/-- The frames of an array can be packed, since the words of the first one count the others. -/
theorem fits_frames (h : a.IsAddressable) : Container.Fits a.frames := by
  refine ⟨?_, h⟩
  -- The first frame has a word for the object and one for each allocation.
  have hmetadata := h _ List.mem_cons_self
  rw [Bytes.length_ofWords] at hmetadata
  simp only [List.length_cons, List.length_map] at hmetadata
  rw [frames, List.length_cons, List.length_map]
  omega

/-- Frames hold at least the bytes of the allocations. -/
theorem nbytes_le_footprint (a : DeviceArray) : a.nbytes ≤ a.footprint := by
  simp [nbytes, footprint, frames, List.map_map, Function.comp_def]

end DeviceArray

namespace Form

variable {T : Type}

/-- The spill file of a form. -/
def file? : Form T → Option Path
  | .serialized (.disk header) => some header.path
  | _ => none

/-- The tier that goes with a form. -/
def tier : Form T → Tier
  | .live _ => .device
  | .serialized payload => Tier.ofSerializer (some payload.serializer)

theorem tier_frames {tag : Serializer} (hhost : tag.isHost = true) (nbytes : ℕ)
    (frames content : List Bytes) :
    (serialized (.frames (.ofFrames tag nbytes frames) content) : Form T).tier = .host := by
  cases tag with
  | dask | pickle => rfl
  | cuda | disk => cases hhost

theorem tier_disk {header : DiskHeader} (h : header.serializer = .disk) :
    (serialized (.disk header) : Form T).tier = .disk := by
  rw [tier, Payload.serializer, h]
  rfl

end Form

namespace Volume

/-- The volume without a file, if one is given. -/
def without (v : Volume) : Option Path → Volume
  | some path => v.discard path
  | none => v

theorem find?_without (v : Volume) (path? : Option Path) (path : Path) :
    (v.without path?).files.find? path =
      if path? = some path then none else v.files.find? path := by
  cases path? with
  | none => simp [without]
  | some other => simp [without, discard, Table.find?_erase, eq_comm]

@[simp]
theorem isPresent_without (v : Volume) (path? : Option Path) :
    (v.without path?).isPresent = v.isPresent := by
  cases path? <;> rfl

@[simp]
theorem refused_without (v : Volume) (path? : Option Path) :
    (v.without path?).refused = v.refused := by
  cases path? <;> rfl

end Volume

/-- A form stands for an array, with the files of a directory. -/
inductive Holds (d : SpillDirectory) (a : DeviceArray) : Form DeviceArray → Prop
  /-- The array is live. -/
  | live : Holds d a (.live a)
  /-- The frames of the array are in memory. -/
  | frames (tag : Serializer) (hhost : tag.isHost = true) :
    Holds d a (.serialized (.frames (.ofFrames tag a.nbytes a.frames) a.frames))
  /-- The frames of the array are in a file that the directory has named. -/
  | disk (header : DiskHeader) (data : Bytes) (tag : Serializer) (hhost : tag.isHost = true)
    (hserializer : header.serializer = .disk)
    (hpath : ∃ n ≤ d.counter, header.path = d.filePath n)
    (hfile : d.volume.files.find? header.path = some data) (hsize : header.size = data.length)
    (hnbytes : header.subHeader.nbytes = a.nbytes)
    (hdecode : SpillDirectory.decode header data =
      .ok (.ofFrames tag a.nbytes a.frames, a.frames)) :
    Holds d a (.serialized (.disk header))

namespace Holds

variable {d d' : SpillDirectory} {a : DeviceArray} {form : Form DeviceArray}

/-- Only what is live is on the device. -/
theorem tier_eq_device_iff (h : Holds d a form) : form.tier = .device ↔ form = .live a := by
  cases h with
  | live => exact iff_of_true rfl rfl
  | frames tag hhost => simp [Form.tier_frames hhost]
  | disk header data tag _ hserializer => simp [Form.tier_disk hserializer]

/-- Only files are on disk. -/
theorem tier_eq_disk_iff (h : Holds d a form) :
    form.tier = .disk ↔ ∃ header, form = .serialized (.disk header) := by
  cases h with
  | live => simp [Form.tier]
  | frames tag hhost => simp [Form.tier_frames hhost]
  | disk header data tag _ hserializer => simp [Form.tier_disk hserializer]

/-- Only frames in memory are on the host. -/
theorem tier_eq_host_iff (h : Holds d a form) :
    form.tier = .host ↔ ∃ tag, tag.isHost = true ∧
      form = .serialized (.frames (.ofFrames tag a.nbytes a.frames) a.frames) := by
  cases h with
  | live => simp [Form.tier]
  | frames tag hhost => exact iff_of_true (Form.tier_frames hhost _ _ _) ⟨tag, hhost, rfl⟩
  | disk header data tag _ hserializer => simp [Form.tier_disk hserializer]

/-- What a form holds stays while the directory keeps its name and the file. -/
theorem mono (h : Holds d a form) (hroot : d'.root = d.root) (hrunName : d'.runName = d.runName)
    (hcounter : d.counter ≤ d'.counter)
    (hfile : ∀ path, form.file? = some path →
      d'.volume.files.find? path = d.volume.files.find? path) : Holds d' a form := by
  cases h with
  | live => exact live
  | frames tag hhost => exact frames tag hhost
  | disk header data tag hhost hserializer hpath hfound hsize hnbytes hdecode =>
    -- The file keeps its name, which is made of what stays.
    obtain ⟨n, hn, hpath⟩ := hpath
    refine disk header data tag hhost hserializer ⟨n, hn.trans hcounter, ?_⟩
      ((hfile _ rfl).trans hfound) hsize hnbytes hdecode
    rw [hpath, SpillDirectory.filePath, SpillDirectory.filePath, SpillDirectory.stem,
      SpillDirectory.stem, hroot, hrunName]

/-- The file of a form is there, under a name that the directory has given out. -/
theorem exists_file (h : Holds d a form) {path : Path} (hpath : form.file? = some path) :
    (∃ n ≤ d.counter, path = d.filePath n) ∧ ∃ data, d.volume.files.find? path = some data := by
  cases h with
  | live => cases hpath
  | frames => cases hpath
  | disk header data _ _ _ hnumber hfile =>
    cases hpath
    exact ⟨hnumber, data, hfile⟩

/-- The next file holds an array if the frames of the array are written to it. -/
theorem nextHeader (d : SpillDirectory) {a : DeviceArray} (haddressable : a.IsAddressable)
    {tag : Serializer} (hhost : tag.isHost = true) (compress : Bool) :
    Holds
      (d.addFile
        (Container.pack (d.prepare (.ofFrames tag a.nbytes a.frames) a.frames compress).2)) a
      (.serialized (.disk
        (d.nextHeader (.ofFrames tag a.nbytes a.frames) a.frames compress))) := by
  -- Frames that come from an object are raw, so the file is decoded into the same frames.
  have hraw : (FrameHeader.ofFrames tag a.nbytes a.frames).isCompressed = false := by
    simp [FrameHeader.isCompressed, FrameHeader.ofFrames]
  refine disk _ _ tag hhost rfl ⟨d.counter + 1, Nat.le_refl _, rfl⟩ ?_ rfl ?_ ?_
  · simp [SpillDirectory.addFile, SpillDirectory.nextHeader]
  · rw [SpillDirectory.nextHeader, SpillDirectory.prepare_header]
    rfl
  · exact d.decode_prepare compress hraw (DeviceArray.fits_frames haddressable) rfl

end Holds

namespace ObjectProxy

variable {d : SpillDirectory} {a : DeviceArray}

/-- What a form holds is turned into frames, whatever form it is, and its file is gone. -/
theorem framesFor_of_holds {form : Form DeviceArray} (h : Holds d a form) (target : Serializer) :
    framesFor target form d.volume =
      .ok (.ofFrames target a.nbytes a.frames, a.frames) (d.volume.without form.file?) := by
  cases h with
  | live => rfl
  | frames => rfl
  | disk header data _ _ _ _ hfile _ _ hdecode =>
    have hload := SpillDirectory.load_of_decode hfile hdecode
    simp [framesFor, bind, EStateM.bind, hload, pure, EStateM.pure, Form.file?, Volume.without,
      FrameHeader.ofFrames]

/-- What a form holds is read back, whatever form it is, and its file is gone. -/
theorem objectOf_of_holds {form : Form DeviceArray} (h : Holds d a form) :
    objectOf form d.volume = .ok a (d.volume.without form.file?) := by
  have hread : DeviceObject.ofFrames a.frames = .ok a := DeviceArray.ofFrames_frames a
  cases h with
  | live => rfl
  | frames => simp [objectOf, hread, pure, EStateM.pure, Form.file?, Volume.without]
  | disk header data _ _ _ _ hfile _ _ hdecode =>
    have hload := SpillDirectory.load_of_decode hfile hdecode
    simp [objectOf, bind, EStateM.bind, hload, hread, pure, EStateM.pure, Form.file?,
      Volume.without]

theorem form_of_payload? {T : Type} {p : ObjectProxy T} {payload : Payload}
    (h : p.payload? = some payload) : p.form = .serialized payload := by
  rw [ObjectProxy.payload?] at h
  split at h
  next => cases h
  next form hform =>
    cases h
    exact hform

section

variable {P α : Type} {p : P} {v : Volume} {ok : α → P × Volume → Prop}
  {bad : Error → P × Volume → Prop}

@[simp]
theorem onVolume_iff {action : EStateM Error Volume α} :
    Ends (onVolume action) (p, v) ok bad ↔
      Ends action v (fun x w => ok x (p, w)) (fun e w => bad e (p, w)) := by
  simp only [Ends, onVolume]
  cases action v <;> rfl

end

variable {p : ObjectProxy DeviceArray}

/-- Serializing puts the frames of the array in the place of another form, unless the form is one
of those that are asked for. It fails only if no family is asked for that can be had. -/
theorem serialize_ends (h : Holds d a p.form) (tags : List Serializer) :
    Ends (serialize tags) (p, d.volume)
      (fun _ r => r = (p, d.volume) ∧ p.serializer.any (fun tag => tags.contains tag) = true ∨
        ∃ target, target.isHost = true ∧ r = (p.setForm (.serialized
          (.frames (.ofFrames target a.nbytes a.frames) a.frames)), d.volume.without p.form.file?))
      (fun _ r => r = (p, d.volume) ∧ tags.find? Serializer.isHost = none) := by
  unfold serialize
  split
  next hnone => exact ⟨rfl, hnone⟩
  next target htarget =>
    simp only [Ends.bind_iff, Ends.get_iff]
    split
    next hheld => exact .inl ⟨rfl, hheld⟩
    next =>
      simp only [Ends.bind_iff, onVolume_iff, install, Ends.modify_iff]
      rw [Ends, framesFor_of_holds h target]
      exact .inr ⟨target, List.find?_some htarget, rfl⟩

/-- Asking for the object gives the array that the form stands for, and makes it live. -/
theorem revive_ends (h : Holds d a p.form) :
    Ends revive (p, d.volume)
      (fun b r => b = a ∧ r = (p.setForm (.live a), d.volume.without p.form.file?)) Never := by
  simp only [revive, Ends.bind_iff, Ends.get_iff, onVolume_iff, install, Ends.modify_iff,
    Ends.pure_iff]
  rw [Ends, objectOf_of_holds h]
  exact ⟨rfl, rfl⟩

/-- A proxy has the size of its array, whatever form it is in. -/
theorem nbytes_of_holds (h : Holds d a p.form) : p.nbytes = a.nbytes := by
  rw [nbytes]
  generalize p.form = form at h
  cases h with
  | live => rfl
  | frames => rfl
  | disk _ _ _ _ _ _ _ _ hnbytes => exact hnbytes

/-- On the device a proxy refers to the allocations of its array. -/
theorem deviceBuffers_of_device (h : Holds d a p.form) (htier : p.form.tier = .device) :
    p.deviceBuffers = a.deviceBuffers := by
  rw [deviceBuffers, h.tier_eq_device_iff.1 htier]
  rfl

/-- Elsewhere a proxy refers to no allocations. -/
theorem deviceBuffers_of_not_device (h : Holds d a p.form) (htier : p.form.tier ≠ .device) :
    p.deviceBuffers = [] := by
  rw [deviceBuffers]
  generalize p.form = form at h htier
  cases h with
  | live => exact absurd rfl htier
  | frames => rfl
  | disk => rfl

/-- On the host a proxy occupies the bytes of the frames of its array. -/
theorem size_of_host (h : Holds d a p.form) (htier : p.form.tier = .host) :
    p.size = a.footprint := by
  obtain ⟨tag, -, hform⟩ := h.tier_eq_host_iff.1 htier
  rw [size, hform]
  rfl

end ObjectProxy

namespace Proxy

section

variable {T P α : Type} {p : P} {old : Proxy T} {v : Volume} {ok : α → Proxy T × Volume → Prop}
  {bad : Error → Proxy T × Volume → Prop}

@[simp]
theorem lift_iff {inject : P → Proxy T} {action : EStateM Error (P × Volume) α} :
    Ends (lift inject p action) (old, v) ok bad ↔
      Ends action (p, v) (fun x r => ok x (inject r.1, r.2))
        (fun e r => bad e (inject r.1, r.2)) := by
  simp only [Ends, lift]
  cases action (p, v) <;> rfl

end

variable {T : Type} [DeviceObject T] (p : ObjectProxy T)

theorem tier_object : Spillable.tier (object p) = p.form.tier := by
  obtain ⟨_, form, _, _, _⟩ := p
  cases form <;> rfl

/-- A payload is installed in a proxy that is still at the version that is given. -/
theorem replace_of_version (payload : Payload) :
    Spillable.replace p.version payload (object p) =
      (true, object (p.setForm (.serialized payload))) := by
  show replace _ _ _ = _
  rw [replace, ObjectProxy.replace, if_pos rfl]

/-- A proxy that has gone on to another version refuses a payload. -/
theorem replace_of_ne_version {version : ℕ} (hversion : p.version ≠ version) (payload : Payload) :
    Spillable.replace version payload (object p) = (false, object p) := by
  show replace _ _ _ = _
  rw [replace, ObjectProxy.replace, if_neg hversion]

theorem ownedFile?_object : Spillable.ownedFile? (object p) = p.form.file? := by
  obtain ⟨_, form, _, _, _⟩ := p
  rcases form with _ | (_ | _) <;> rfl

end Proxy

end TieredStore
