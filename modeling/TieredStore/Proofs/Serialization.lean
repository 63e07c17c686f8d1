import TieredStore.Proofs.Content

/-!
# The contract of serializing

A proxy that is to be serialized is told which families will do. It chooses the first of them that
keeps its data in host memory, and only then looks whether one of them holds the data already. So a
list without a host family is refused even where nothing would have to be done, as for a spilled
proxy that is asked for the family of spill files.

* `Form.content`: the frames that a form stands for, wherever they are.
* `ObjectProxy.framesFor_ends`: taking the frames out of a form.
* `ObjectProxy.serialize_contract`: what becomes of the proxy and its file in every case.
-/

namespace TieredStore

/-- The host families are those that data may take when it leaves the device. -/
theorem Serializer.mem_hostFamilies_iff {tag : Serializer} :
    tag ∈ hostFamilies ↔ tag.isHost = true := by
  cases tag <;> decide

variable {T : Type} [DeviceObject T]

/-- The frames that a form stands for: those that its object is put into, those that are in memory,
or those that its spill file is decoded into. -/
def Form.content (form : Form T) (v : Volume) : Except Error (List Bytes) :=
  match form with
  | .live object => DeviceObject.toFrames object
  | .serialized (.frames _ content) => .ok content
  | .serialized (.disk header) =>
    match v.files.find? header.path with
    | none => .error (.missingFile header.path.text)
    | some data => (SpillDirectory.decode header data).map Prod.snd

namespace ObjectProxy

variable {p : ObjectProxy T} {v : Volume} {tags : List Serializer} {target : Serializer}

/-- The data of a proxy is held by one of some families. -/
def IsHeldBy (p : ObjectProxy T) (tags : List Serializer) : Prop :=
  ∃ tag ∈ tags, p.serializer = some tag

omit [DeviceObject T] in
theorem any_contains_iff :
    p.serializer.any (fun tag => tags.contains tag) = true ↔ p.IsHeldBy tags := by
  rw [Option.any_eq_true, IsHeldBy]
  constructor
  · rintro ⟨tag, hserializer, htag⟩
    exact ⟨tag, List.contains_iff_mem.1 htag, hserializer⟩
  · rintro ⟨tag, htag, hserializer⟩
    exact ⟨tag, hserializer, List.contains_iff_mem.2 htag⟩

omit [DeviceObject T] in
/-- The host families hold what one of them has serialized. -/
theorem isHeldBy_hostFamilies_iff {payload : Payload} (hform : p.form = .serialized payload) :
    p.IsHeldBy Serializer.hostFamilies ↔ payload.serializer.isHost = true := by
  simp [IsHeldBy, serializer, payload?, hform, Serializer.mem_hostFamilies_iff]

/-- The object of a proxy whose frames are in memory is read from them. -/
theorem objectOf_frames (header : FrameHeader) (content : List Bytes) (v : Volume) (a : T) :
    objectOf (.serialized (.frames header content)) v = .ok a v ↔
      DeviceObject.ofFrames content = .ok a := by
  rw [objectOf]
  cases DeviceObject.ofFrames (T := T) content with
  | ok b => exact ⟨fun heq => by cases heq; rfl, fun heq => by cases heq; rfl⟩
  | error e => exact iff_of_false (fun heq => by cases heq) fun heq => by cases heq

/-- The object of a spilled proxy is read from the frames that its file is decoded into. -/
theorem objectOf_of_decode {header : DiskHeader} {data : Bytes} {result : FrameHeader × List Bytes}
    (hfile : v.files.find? header.path = some data)
    (hdecode : SpillDirectory.decode header data = .ok result) (a : T) :
    objectOf (.serialized (.disk header)) v = .ok a (v.discard header.path) ↔
      DeviceObject.ofFrames result.2 = .ok a := by
  simp only [objectOf, bind, EStateM.bind, SpillDirectory.load_of_decode hfile hdecode]
  cases DeviceObject.ofFrames (T := T) result.2 with
  | ok b => exact ⟨fun heq => by cases heq; rfl, fun heq => by cases heq; rfl⟩
  | error e => exact iff_of_false (fun heq => by cases heq) fun heq => by cases heq

/-- Frames are taken out of a form under the family that is asked for. They are those that the form
stands for, and a spill file is gone after that. The object is read from them as it was from the
form, if objects are read back from the frames that they are put into. -/
theorem framesFor_ends (p : ObjectProxy T) (target : Serializer) (v : Volume) :
    Ends (framesFor target p.form) v
      (fun r w => r.1.serializer = target ∧ r.1.nbytes = p.nbytes ∧
        p.form.content v = .ok r.2 ∧ w = v.without p.form.file? ∧
        (∀ path, p.form.file? = some path → v.contains path = true) ∧
        ((∀ (a : T) frames, DeviceObject.toFrames a = .ok frames →
            DeviceObject.ofFrames frames = .ok a) →
          ∀ a, DeviceObject.ofFrames r.2 = .ok a ↔ objectOf p.form v = .ok a w))
      fun _ _ => True := by
  rcases hform : p.form with object | (⟨header, content⟩ | header)
  · rw [Ends, framesFor]
    cases hframes : DeviceObject.toFrames object with
    | error e => trivial
    | ok frames =>
      refine ⟨rfl, by rw [nbytes, hform]; rfl, hframes, rfl, fun _ hpath => (by cases hpath),
        fun hread a => ?_⟩
      rw [hread object frames hframes]
      exact ⟨fun heq => by cases heq; rfl, fun heq => by cases heq; rfl⟩
  · refine ⟨rfl, by rw [nbytes, hform]; rfl, rfl, rfl, fun _ hpath => (by cases hpath),
      fun _ a => (objectOf_frames header content v a).symm⟩
  · -- The file is read as a whole, or not at all.
    rw [framesFor, Ends.bind_iff, Ends]
    cases hfile : v.files.find? header.path with
    | none =>
      rw [SpillDirectory.load_of_missing hfile]
      trivial
    | some data =>
      rw [SpillDirectory.load_of_find? hfile]
      cases hdecode : SpillDirectory.decode header data with
      | error e => trivial
      | ok result =>
        obtain ⟨-, -, -, hsub, -⟩ := SpillDirectory.decode_eq_ok hdecode
        refine ⟨rfl, ?_, ?_, rfl, fun path hpath => ?_, fun _ a => ?_⟩
        · rw [nbytes, hform]
          show result.1.nbytes = header.subHeader.nbytes
          rw [hsub]
        · simp only [Form.content, hfile, hdecode]
          rfl
        · cases hpath
          exact Table.contains_of_find? hfile
        · exact (objectOf_of_decode hfile hdecode a).symm

/-- A list without a host family is refused, and nothing is done. -/
theorem serialize_of_noHost (hnone : tags.find? Serializer.isHost = none) (p : ObjectProxy T)
    (v : Volume) : serialize tags (p, v) = .error (noHostFamily tags) (p, v) := by
  rw [serialize, hnone]
  rfl

/-- Nothing is done if a family of the list holds the data, as long as some family of the list could
have been chosen. -/
theorem serialize_of_held (htarget : tags.find? Serializer.isHost = some target)
    (hheld : p.IsHeldBy tags) (v : Volume) : serialize tags (p, v) = .ok () (p, v) := by
  refine Ends.eq_ok ?_
  rw [serialize, htarget]
  simp only [Ends.bind_iff, Ends.get_iff, if_pos (any_contains_iff.2 hheld), Ends.pure_iff,
    and_self]

/-- A proxy that no family of the list holds gets the frames that its form gives. -/
theorem serialize_of_not_held (htarget : tags.find? Serializer.isHost = some target)
    (hheld : ¬ p.IsHeldBy tags) (v : Volume) :
    Ends (serialize tags) (p, v)
      (fun _ r => ∃ header content, framesFor target p.form v = .ok (header, content) r.2 ∧
        r.1 = p.setForm (.serialized (.frames header content)))
      (fun e r => r.1 = p ∧ framesFor target p.form v = .error e r.2) := by
  rw [serialize, htarget]
  simp only [Ends.bind_iff, Ends.get_iff, if_neg (any_contains_iff.not.2 hheld), onVolume_iff,
    install, Ends.modify_iff]
  exact Ends.of_forall (fun r w hframes => ⟨r.1, r.2, hframes, rfl⟩)
    fun e w hframes => ⟨trivial, hframes⟩

/-- What serializing does, for every form of a proxy and every list of families.

If some family of the list is a host family, a proxy that is held by one of the list is left as it
is. Any other proxy has frames of the first host family of the list after that, with the content and
the size that it had. Its spill file is consumed, and serializing it once more changes nothing. If
its frames cannot be had, the proxy is left as it is.

If no family of the list is a host family, the list is refused, and the proxy and all files are left
as they are. This is so even if a family of the list holds the proxy already. -/
theorem serialize_contract (p : ObjectProxy T) (v : Volume) (tags : List Serializer) :
    (∀ target, tags.find? Serializer.isHost = some target →
      (p.IsHeldBy tags → serialize tags (p, v) = .ok () (p, v)) ∧
      (¬ p.IsHeldBy tags → Ends (serialize tags) (p, v)
        (fun _ r => (∃ header content,
            r.1 = p.setForm (.serialized (.frames header content)) ∧
            header.serializer = target ∧ p.form.content v = .ok content) ∧
          r.1.nbytes = p.nbytes ∧
          ((∀ (a : T) frames, DeviceObject.toFrames a = .ok frames →
              DeviceObject.ofFrames frames = .ok a) →
            ∀ a, objectOf r.1.form r.2 = .ok a r.2 ↔ objectOf p.form v = .ok a r.2) ∧
          r.2 = v.without p.form.file? ∧
          (∀ path, p.form.file? = some path → v.contains path = true) ∧
          serialize tags r = .ok () r)
        (fun _ r => r.1 = p))) ∧
    (tags.find? Serializer.isHost = none →
      serialize tags (p, v) = .error (noHostFamily tags) (p, v)) := by
  refine ⟨fun target htarget => ⟨fun hheld => serialize_of_held htarget hheld v, fun hheld => ?_⟩,
    fun hnone => serialize_of_noHost hnone p v⟩
  refine (serialize_of_not_held htarget hheld v).mono ?_ fun _ _ hfail => hfail.1
  rintro - ⟨q, w⟩ ⟨header, content, hframes, rfl⟩
  obtain ⟨hserializer, hnbytes, hcontent, hvolume, hfile, hread⟩ :=
    (framesFor_ends p target v).of_ok hframes
  refine ⟨⟨header, content, rfl, hserializer, hcontent⟩, hnbytes, fun hback a => ?_, hvolume, hfile,
    ?_⟩
  · exact (objectOf_frames header content w a).trans (hread hback a)
  · -- The family that was chosen is in the list, so it holds the proxy now.
    refine serialize_of_held htarget ⟨target, List.mem_of_find?_eq_some htarget, ?_⟩ w
    exact congrArg some hserializer

/-- A spilled proxy is not serialized for the family that holds it, though nothing would have to be
done. With a host family in the list nothing is done indeed. -/
theorem serialize_contract_spilled :
    let header : DiskHeader := ⟨.disk, ⟨"/spill/a"⟩, false, ⟨.dask, 4, [none], 1⟩, 17⟩
    let p : ObjectProxy DeviceArray := ⟨false, .serialized (.disk header), 2, 0, true⟩
    let v : Volume := ⟨true, Table.empty.insert header.path (Container.pack [[7]]), []⟩
    p.IsHeldBy [.disk] ∧
      serialize [.disk] (p, v) = .error (noHostFamily [.disk]) (p, v) ∧
      serialize [.disk, .pickle] (p, v) = .ok () (p, v) ∧
      ∃ q w, serialize [.cuda, .pickle, .dask] (p, v) = .ok () (q, w) ∧
        q.form = .serialized (.frames ⟨.pickle, 4, [none], 1⟩ [[7]]) ∧
        w.contains header.path = false := by
  intro header p v
  have hheld : ∀ tags, Serializer.disk ∈ tags → p.IsHeldBy tags := fun tags htag =>
    ⟨.disk, htag, rfl⟩
  refine ⟨hheld _ (by decide), (serialize_contract p v [.disk]).2 rfl,
    ((serialize_contract p v [.disk, .pickle]).1 .pickle rfl).1 (hheld _ (by decide)), ?_⟩
  exact ⟨_, _, rfl, rfl, rfl⟩

end ObjectProxy

end TieredStore
