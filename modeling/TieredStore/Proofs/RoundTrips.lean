import TieredStore.Proofs.Acceptance
import TieredStore.Proofs.Accounting
import TieredStore.Proofs.Memory.Compression
import TieredStore.Proofs.Memory.Transfer
import TieredStore.Proofs.Serialization

/-!
# Round trips between host and disk

A proxy goes to disk in one of two ways. Frames that are in host memory are written as they are,
while a live proxy is serialized first, and its fresh frames may be compressed. What is read back is
the same in both cases, however often the proxy has gone to disk and come back in between.

* `FrameHeader.IsPlain`: the header of raw frames in host memory.
* `Form.Gives`: the frames that a form gives, under their header.
* `Memory.demoteToDisk_gives`, `Memory.demoteToHost_gives`: a single demotion.
* `Memory.Demotion`, `Memory.demotions_give`: any demotions, with any setting for compression.
* `Memory.roundTrips_restore`: rounds from host to disk and back.
* `Memory.paths_agree`: both ways to disk, and frames as they occur in host memory.
-/

namespace TieredStore

/-- The header goes with raw frames in host memory. -/
structure FrameHeader.IsPlain (header : FrameHeader) (frames : List Bytes) : Prop where
  /-- A host family has produced the frames. -/
  isHost : header.serializer.isHost = true
  /-- No frame is compressed, and each is listed. -/
  compression_eq : header.compression = frames.map fun _ => none
  /-- The frames are counted. -/
  count_eq : header.count = frames.length

namespace FrameHeader

variable {header : FrameHeader} {frames : List Bytes}

theorem IsPlain.isCompressed_eq (h : header.IsPlain frames) : header.isCompressed = false := by
  simp [isCompressed, h.compression_eq]

/-- A header of plain frames is what reading a file makes of it. -/
theorem IsPlain.eq_restored (h : header.IsPlain frames) :
    { header with compression := frames.map fun _ => none, count := frames.length } = header := by
  rw [← h.compression_eq, ← h.count_eq]

theorem isPlain_ofFrames {tag : Serializer} (hhost : tag.isHost = true) (nbytes : ℕ)
    (frames : List Bytes) : (ofFrames tag nbytes frames).IsPlain frames :=
  ⟨hhost, rfl, rfl⟩

/-- Another host family may take over the frames. -/
theorem IsPlain.retag (h : header.IsPlain frames) {tag : Serializer} (hhost : tag.isHost = true) :
    { header with serializer := tag }.IsPlain frames :=
  ⟨hhost, h.compression_eq, h.count_eq⟩

end FrameHeader

variable {T : Type} [DeviceObject T]

/-- A form gives frames under a header: those that its object is put into, those that are in memory,
or those that are read from its file, which is gone after that. -/
inductive Form.Gives (v : Volume) (header : FrameHeader) (frames : List Bytes) : Form T → Prop
  /-- The object is live. -/
  | live (a : T) (hframes : DeviceObject.toFrames a = .ok frames)
    (hheader : header = .ofFrames .dask (DeviceObject.nbytes a) frames) :
    Gives v header frames (.live a)
  /-- The frames are in memory. -/
  | frames : Gives v header frames (.serialized (.frames header frames))
  /-- The frames are in a file. -/
  | disk (disk : DiskHeader) (hserializer : disk.serializer = .disk)
    (hload : SpillDirectory.load disk v = .ok (header, frames) (v.discard disk.path)) :
    Gives v header frames (.serialized (.disk disk))

namespace ObjectProxy

variable {p : ObjectProxy T} {header : FrameHeader} {frames : List Bytes}

/-- Serializing a proxy for the host leaves it with the frames that it gives. What was not there
already is of the default family then. No file stops being writable. -/
theorem serialize_gives {d : SpillDirectory} (hwritable : d.Writable)
    (hgives : p.form.Gives d.volume header frames) (hplain : header.IsPlain frames) :
    ∃ q w, serialize Serializer.hostFamilies (p, d.volume) = .ok () (q, w) ∧
      ({ d with volume := w } : SpillDirectory).Writable ∧
      (p.form = .serialized (.frames header frames) ∧ q.form = p.form ∨
        q.form = .serialized (.frames { header with serializer := .dask } frames)) := by
  generalize hform : p.form = form at hgives
  cases hgives with
  | live a hframes hheader =>
    subst hheader
    have hrun := serialize_live d.volume hform hframes
    exact ⟨_, _, hrun, hwritable, .inr rfl⟩
  | frames =>
    have hheld : p.IsHeldBy Serializer.hostFamilies :=
      (isHeldBy_hostFamilies_iff hform).2 hplain.isHost
    exact ⟨p, _, serialize_of_held rfl hheld _, hwritable, .inl ⟨rfl, hform⟩⟩
  | disk disk hserializer hload =>
    have hnot : ¬ p.IsHeldBy Serializer.hostFamilies := by
      rw [isHeldBy_hostFamilies_iff hform, Payload.serializer, hserializer]
      exact Bool.false_ne_true
    -- Frames that are read from a file are taken over by the default family.
    have hframes : framesFor .dask p.form d.volume =
        .ok ({ header with serializer := .dask }, frames) (d.volume.discard disk.path) := by
      rw [hform]
      simp [framesFor, bind, EStateM.bind, hload, pure, EStateM.pure]
    obtain ⟨_, ⟨q, w⟩, hrun, restored, content, hread, rfl⟩ :=
      (serialize_of_not_held rfl hnot d.volume).exists_ok fun e r hfail => by
        rw [hframes] at hfail
        cases hfail.2
    rw [hframes] at hread
    cases hread
    exact ⟨_, _, hrun, hwritable, .inr rfl⟩

end ObjectProxy

/-- A proxy of an object is serialized as such. -/
theorem Proxy.serialize_object {p q : ObjectProxy T} {v w : Volume} {tags : List Serializer}
    (h : ObjectProxy.serialize tags (p, v) = .ok () (q, w)) :
    Spillable.serialize tags (Proxy.object p, v) = .ok () (.object q, w) := by
  apply Ends.eq_ok
  show Ends (Proxy.serialize tags) _ _ _
  rw [Proxy.serialize, Ends.bind_iff, Ends.get_iff, Proxy.lift_iff, Ends, h]
  exact ⟨rfl, rfl⟩

namespace Memory

variable {m m' : Memory (Proxy T)} {id : ProxyId} {p q : ObjectProxy T} {header : FrameHeader}
  {frames : List Bytes}

/-- A proxy can be moved: it is tracked in one tier at most, and files can be written. -/
structure Movable (m : Memory (Proxy T)) (id : ProxyId) : Prop where
  /-- The proxy is not tracked twice. -/
  unique : ∀ t other, m.manager.Tracks t id → m.manager.Tracks other id → t = other
  /-- Files can be written. -/
  writable : m.spill.Writable

omit [DeviceObject T] in
/-- A proxy that has come to one tier is tracked there only. -/
theorem Movable.of_tracks {tier : Tier}
    (htracks : ∀ t other, m'.manager.Tracks t other ↔
      if other = id then t = tier else m.manager.Tracks t other)
    (hwritable : m'.spill.Writable) : m'.Movable id where
  unique t other ht hother := by
    rw [htracks, if_pos rfl] at ht hother
    rw [ht, hother]
  writable := hwritable

/-- A proxy that gives plain frames offers them for a file, unless it is on disk already. The frames
of a live proxy are fresh, and are there once it has been serialized. -/
theorem offers_of_gives (hgives : p.form.Gives m.spill.volume header frames)
    (hplain : header.IsPlain frames) :
    (∃ disk, p.form = .serialized (.disk disk)) ∨
      Leaves (Spillable.serialize Serializer.hostFamilies) (Proxy.object p, m.spill.volume)
        (fun r => r.2 = m.spill.volume) ∧
      ∃ (o : Offer (Proxy T)) (q : ObjectProxy T), Offers (.object p) m.spill.volume o ∧
        o.proxy = .object q ∧ o.version = q.version ∧ o.header = header ∧ o.content = frames := by
  generalize hform : p.form = form at hgives
  cases hgives with
  | live a hframes hheader =>
    have hnone : Spillable.snapshot? (Proxy.object p) = none := by
      rw [snapshot?_object, ObjectProxy.payload?, hform]
      rfl
    have hrun := Proxy.serialize_object (ObjectProxy.serialize_live m.spill.volume hform hframes)
    refine .inr ⟨?_, _, p.framed a frames,
      .fresh _ _ _ _ _ (by simp [hnone]) (by simp [hnone]) hrun rfl, rfl, rfl, hheader.symm, rfl⟩
    rw [Leaves, Ends, hrun]
  | frames =>
    have hshown : Spillable.snapshot? (Proxy.object p) =
        some (p.version, .frames header frames) := by
      rw [snapshot?_object, ObjectProxy.payload?, hform]
      rfl
    have hheld : p.IsHeldBy Serializer.hostFamilies :=
      (ObjectProxy.isHeldBy_hostFamilies_iff hform).2 hplain.isHost
    have hrun := Proxy.serialize_object (ObjectProxy.serialize_of_held rfl hheld m.spill.volume)
    refine .inr ⟨?_, _, p, .held _ _ _ hshown hplain.isHost, rfl, rfl, rfl, rfl⟩
    rw [Leaves, Ends, hrun]
  | disk disk => exact .inl ⟨disk, rfl⟩

/-- Plain frames that a proxy has written to a file are read back from the file under their header.
-/
theorem Answered.gives {o : Offer (Proxy T)} (h : Answered m m' id o) (hwritable : m.spill.Writable)
    (hproxy : o.proxy = .object p) (hversion : o.version = p.version)
    (hplain : o.header.IsPlain o.content) (hfits : Container.Fits o.content) :
    m'.Movable id ∧ ∃ disk, m'.proxies.find? id =
        some (.object (p.setForm (.serialized (.disk disk)))) ∧
      (Form.serialized (.disk disk) : Form T).Gives m'.spill.volume o.header o.content := by
  -- The file is offered at the version that the proxy is at, so it is accepted.
  have hanswer : o.answer m.spill =
      (true, .object (p.setForm (.serialized (.disk (o.file m.spill))))) := by
    rw [Offer.answer, hproxy, hversion, Proxy.replace_of_version]
  have haccepted : (o.answer m.spill).1 = true := congrArg Prod.fst hanswer
  have hspill := h.spill_of_accepted haccepted
  refine ⟨.of_tracks (h.tracks_of_accepted haccepted) ?_, o.file m.spill, ?_, .disk _ rfl ?_⟩
  · rw [hspill]
    exact hwritable
  · rw [h.find?_eq, if_pos rfl, hanswer]
  · rw [hspill]
    apply SpillDirectory.load_of_decode (Table.find?_insert_self _ _ _)
    have hdecode : SpillDirectory.decode (o.file m.spill) _ = _ :=
      m.spill.decode_prepare o.isFresh hplain.isCompressed_eq hfits rfl
    rwa [hplain.eq_restored] at hdecode

/-- A proxy that gives plain frames goes to disk, and its file gives the same frames. Fresh frames
may be compressed on the way, and frames that were in host memory are not. -/
theorem demoteToDisk_gives (h : m.Movable id) (hfind : m.proxies.find? id = some (.object p))
    (hgives : p.form.Gives m.spill.volume header frames) (hplain : header.IsPlain frames)
    (hfits : Container.Fits frames) :
    Ends (demoteToDisk id) m
      (fun _ m' => m'.Movable id ∧ ∃ q disk, m'.proxies.find? id = some (.object q) ∧
        q.form = .serialized (.disk disk) ∧ q.form.Gives m'.spill.volume header frames) Never := by
  -- Both ways to disk are one offer, and differ only in who offers it and whether it may be
  -- compressed.
  rcases offers_of_gives hgives hplain with
    ⟨disk, hform⟩ | ⟨hfiles, o, q, ho, hproxy, hversion, rfl, rfl⟩
  · -- It is on disk already, so no file is written.
    have hshown : Spillable.snapshot? (Proxy.object p) = some (p.version, .disk disk) := by
      rw [snapshot?_object, ObjectProxy.payload?, hform]
      rfl
    refine (demoteToDisk_of_spilled hfind h.unique hshown).mono_ok ?_
    rintro - m' ⟨hproxies, hspill, htracks⟩
    refine ⟨.of_tracks htracks (hspill ▸ h.writable), p, disk, hproxies ▸ hfind, hform, ?_⟩
    rwa [hspill]
  · refine (demoteToDisk_of_offer hfind h.unique h.writable hfiles ho).mono_ok ?_
    intro _ m' hanswered
    obtain ⟨hmovable, disk, hq, hdisk⟩ :=
      hanswered.gives h.writable hproxy hversion hplain hfits
    exact ⟨hmovable, _, disk, hq, rfl, hdisk⟩

/-- A proxy that gives plain frames comes to the host with these frames. What was not there already
is of the default family now. -/
theorem demoteToHost_gives (h : m.Movable id) (hfind : m.proxies.find? id = some (.object p))
    (hgives : p.form.Gives m.spill.volume header frames) (hplain : header.IsPlain frames) :
    Ends (demoteToHost id) m
      (fun _ m' => m'.Movable id ∧ ∃ q, m'.proxies.find? id = some (.object q) ∧
        (p.form = .serialized (.frames header frames) ∧ q.form = p.form ∨
          q.form = .serialized (.frames { header with serializer := .dask } frames))) Never := by
  obtain ⟨q, w, hrun, hwritable, hq⟩ := ObjectProxy.serialize_gives h.writable hgives hplain
  rw [demoteToHost, Ends.bind_iff, serialize_iff hfind, Ends, hrun]
  have hself : ({ m with
      proxies := m.proxies.insert id (.object q)
      spill := { m.spill with volume := w } } : Memory (Proxy T)).proxies.find? id =
        some (.object q) := Table.find?_insert_self _ _ _
  obtain ⟨new, hnew, htracks⟩ := Manager.exists_addToTier h.unique
    (Spillable.report (Proxy.object q)) (Tier.ofSerializer (Spillable.serializer (Proxy.object q)))
  show Ends (track id) _ _ _
  rw [track, Ends.bind_iff, proxy_iff hself, add, addToTier, Ends.bind_iff, proxy_iff hself,
    onManager_iff_of_ok hnew]
  exact ⟨.of_tracks htracks hwritable, q, hself, hq⟩

/-- A demotion, with the setting for compression that it finds. -/
inductive Demotion where
  /-- To host memory. -/
  | toHost
  /-- To a spill file. -/
  | toDisk (compression : Bool)

/-- What a demotion does. -/
def Demotion.run (id : ProxyId) : Demotion → Action (Proxy T) Unit
  | toHost => demoteToHost id
  | toDisk compression => do
    modify (withCompression compression)
    demoteToDisk id

/-- A proxy to disk, and back to host memory. -/
def roundTrip (id : ProxyId) (compression : Bool) : Action (Proxy T) Unit := do
  Demotion.run id (.toDisk compression)
  Demotion.run id .toHost

theorem runToDisk_gives (h : m.Movable id) (hfind : m.proxies.find? id = some (.object p))
    (hgives : p.form.Gives m.spill.volume header frames) (hplain : header.IsPlain frames)
    (hfits : Container.Fits frames) (compression : Bool) :
    Ends (Demotion.run id (.toDisk compression)) m
      (fun _ m' => m'.Movable id ∧ ∃ q disk, m'.proxies.find? id = some (.object q) ∧
        q.form = .serialized (.disk disk) ∧ q.form.Gives m'.spill.volume header frames) Never := by
  rw [Demotion.run, Ends.bind_iff, Ends.modify_iff]
  have hmovable : (m.withCompression compression).Movable id := ⟨h.unique, h.writable⟩
  exact demoteToDisk_gives hmovable hfind hgives hplain hfits

/-- A proxy gives the same frames wherever it is taken, under the same header if that is of the
default family. -/
theorem demotions_give (h : m.Movable id) (hfind : m.proxies.find? id = some (.object p))
    (hgives : p.form.Gives m.spill.volume header frames) (hplain : header.IsPlain frames)
    (hdask : header.serializer = .dask) (hfits : Container.Fits frames)
    (demotions : List Demotion) :
    Ends (demotions.forM (Demotion.run id)) m
      (fun _ m' => m'.Movable id ∧ ∃ q, m'.proxies.find? id = some (.object q) ∧
        q.form.Gives m'.spill.volume header frames) Never := by
  refine Ends.forM (fun (_ : List Demotion) (t : Memory (Proxy T)) => t.Movable id ∧
    ∃ q, t.proxies.find? id = some (.object q) ∧ q.form.Gives t.spill.volume header frames)
    demotions (fun _ demotion _ t ht => ?_) ⟨h, p, hfind, hgives⟩
  obtain ⟨hmovable, q, hq, hqgives⟩ := ht
  cases demotion with
  | toHost =>
    refine (demoteToHost_gives hmovable hq hqgives hplain).mono_ok ?_
    rintro - u ⟨hmovable', r, hr, hform⟩
    refine ⟨hmovable', r, hr, ?_⟩
    -- The default family was that of the frames before, so the header stays as it is.
    have hsame : ({ header with serializer := .dask } : FrameHeader) = header := by rw [← hdask]
    rcases hform with ⟨hform, hkept⟩ | hform
    · rw [hkept, hform]
      exact .frames
    · rw [hform, hsame]
      exact .frames
  | toDisk compression =>
    refine (runToDisk_gives hmovable hq hqgives hplain hfits compression).mono_ok ?_
    rintro - u ⟨hmovable', r, disk, hr, -, hrgives⟩
    exact ⟨hmovable', r, hr, hrgives⟩

/-- Frames in host memory are as they were after a round trip, and of the default family. -/
theorem roundTrip_restores (h : m.Movable id) (hfind : m.proxies.find? id = some (.object p))
    (hform : p.form = .serialized (.frames header frames)) (hplain : header.IsPlain frames)
    (hfits : Container.Fits frames) (compression : Bool) :
    Ends (roundTrip id compression) m
      (fun _ m' => m'.Movable id ∧ ∃ q, m'.proxies.find? id = some (.object q) ∧
        q.form = .serialized (.frames { header with serializer := .dask } frames)) Never := by
  have hgives : p.form.Gives m.spill.volume header frames := hform ▸ .frames
  rw [roundTrip, Ends.bind_iff]
  refine (runToDisk_gives h hfind hgives hplain hfits compression).of_never ?_
  rintro - t ⟨hmovable, q, disk, hq, hdisk, hqgives⟩
  refine (demoteToHost_gives hmovable hq hqgives hplain).mono_ok ?_
  rintro - u ⟨hmovable', r, hr, ⟨hframes, -⟩ | hrform⟩
  · rw [hdisk] at hframes
    cases hframes
  · exact ⟨hmovable', r, hr, hrform⟩

/-- Nothing accumulates over any number of round trips. -/
theorem roundTrips_restore (h : m.Movable id) (hfind : m.proxies.find? id = some (.object p))
    (hform : p.form = .serialized (.frames header frames)) (hplain : header.IsPlain frames)
    (hfits : Container.Fits frames) (compressions : List Bool) :
    Ends (compressions.forM (roundTrip id)) m
      (fun _ m' => m'.Movable id ∧ ∃ q, m'.proxies.find? id = some (.object q) ∧
        q.form = .serialized (.frames
          (if compressions = [] then header else { header with serializer := .dask }) frames))
      Never := by
  refine Ends.forM (fun (done : List Bool) (t : Memory (Proxy T)) => t.Movable id ∧
    ∃ q, t.proxies.find? id = some (.object q) ∧ q.form = .serialized (.frames
      (if done = [] then header else { header with serializer := .dask }) frames))
    compressions (fun done compression _ t ht => ?_) ⟨h, p, hfind, hform⟩
  obtain ⟨hmovable, q, hq, hqform⟩ := ht
  have hplain' :
      (if done = [] then header else { header with serializer := .dask }).IsPlain frames := by
    split
    · exact hplain
    · exact hplain.retag rfl
  refine (roundTrip_restores hmovable hq hqform hplain' hfits compression).mono_ok ?_
  rintro - u ⟨hmovable', r, hr, hrform⟩
  refine ⟨hmovable', r, hr, hrform.trans ?_⟩
  -- From the second round on the family is the default one already.
  rw [if_neg (List.append_ne_nil_of_right_ne_nil done (List.cons_ne_nil compression []))]
  split <;> rfl

end Memory

namespace Store

/-- Every proxy can be moved while files can be written. -/
theorem Run.movable {settings : Settings} {log : List DeviceArray} {s : Store DeviceArray}
    (h : Run settings Op.KeepsWritable log s) (id : ProxyId) : s.memory.Movable id :=
  ⟨fun _ _ ht hother => h.spares.settled.exact.unique ht hother, h.writable⟩

/-- Frames that a proxy may have in host memory, with their header: some operations of a store have
brought them there. -/
def InHost (header : FrameHeader) (frames : List Bytes) : Prop :=
  ∃ settings log s id p, Run settings (fun _ _ => True) log s ∧
    s.memory.proxies.find? id = some (.object p) ∧ p.form = .serialized (.frames header frames)

/-- Frames in host memory are never compressed, and their headers list and count them, wherever they
come from. -/
theorem InHost.isPlain {header : FrameHeader} {frames : List Bytes} (h : InHost header frames) :
    header.IsPlain frames ∧ Container.Fits frames := by
  obtain ⟨settings, log, s, id, p, hrun, hfind, hform⟩ := h
  obtain ⟨a, horigin, hholds⟩ := hrun.coherent.memory.exists_origin hfind
  have haddressable := hrun.coherent.memory.addressable a (mem_of_origin? horigin)
  rw [hform] at hholds
  cases hholds with
  | frames tag hhost =>
    exact ⟨FrameHeader.isPlain_ofFrames hhost _ _, DeviceArray.fits_frames haddressable⟩

end Store

namespace Memory

/-- The ways to disk agree. A live proxy that goes to disk, at once or after it has gone to the host
and back to disk any number of times, ends with a file that is read back into the frames of its
array, under the header that the array would get in host memory. Frames that a proxy has in host
memory are there unchanged after any number of round trips, and so is their header, but for the
family. Neither depends on the setting for compression at each write. -/
theorem paths_agree {m : Memory (Proxy DeviceArray)} {id : ProxyId} {p : ObjectProxy DeviceArray}
    (h : m.Movable id) (hfind : m.proxies.find? id = some (.object p)) :
    (∀ a, p.form = .live a → a.IsAddressable → ∀ (earlier : List Demotion) (compression : Bool),
      ∃ m' q disk, (earlier ++ [Demotion.toDisk compression]).forM (Demotion.run id) m = .ok () m' ∧
        m'.proxies.find? id = some (.object q) ∧ q.form = .serialized (.disk disk) ∧
        SpillDirectory.load disk m'.spill.volume =
          .ok (.ofFrames .dask a.nbytes a.frames, a.frames) (m'.spill.volume.discard disk.path)) ∧
    (∀ header frames, p.form = .serialized (.frames header frames) → Store.InHost header frames →
      ∀ compressions, compressions ≠ [] → ∃ m' q, compressions.forM (roundTrip id) m = .ok () m' ∧
        m'.proxies.find? id = some (.object q) ∧
        q.form = .serialized (.frames { header with serializer := .dask } frames)) := by
  refine ⟨fun a hlive haddressable earlier compression => ?_,
    fun header frames hform hhost compressions hne => ?_⟩
  · have hplain : (FrameHeader.ofFrames .dask a.nbytes a.frames).IsPlain a.frames :=
      FrameHeader.isPlain_ofFrames rfl a.nbytes a.frames
    have hfits := DeviceArray.fits_frames haddressable
    have hgives : p.form.Gives m.spill.volume (.ofFrames .dask a.nbytes a.frames) a.frames :=
      hlive ▸ .live a rfl rfl
    -- Wherever the earlier demotions have left the proxy, the last one takes its frames to disk.
    have hrun : Ends ((earlier ++ [Demotion.toDisk compression]).forM (Demotion.run id)) m
        (fun _ m' => m'.Movable id ∧ ∃ q disk, m'.proxies.find? id = some (.object q) ∧
          q.form = .serialized (.disk disk) ∧ q.form.Gives m'.spill.volume
            (.ofFrames .dask a.nbytes a.frames) a.frames) Never := by
      rw [List.forM_eq_forM, List.forM_append, Ends.bind_iff]
      refine (demotions_give h hfind hgives hplain rfl hfits earlier).of_never ?_
      rintro - t ⟨hmovable, r, hr, hrgives⟩
      rw [List.forM_cons, Ends.bind_iff]
      exact runToDisk_gives hmovable hr hrgives hplain hfits compression
    obtain ⟨_, m', hrun, -, q, disk, hq, hdisk, hqgives⟩ := hrun.exists_ok fun _ _ hbad => hbad
    rw [hdisk] at hqgives
    cases hqgives with
    | disk _ _ hload => exact ⟨m', q, disk, hrun, hq, hdisk, hload⟩
  · obtain ⟨hplain, hfits⟩ := hhost.isPlain
    obtain ⟨_, m', hrun, -, q, hq, hqform⟩ :=
      (roundTrips_restore h hfind hform hplain hfits compressions).exists_ok fun _ _ hbad => hbad
    rw [if_neg hne] at hqform
    exact ⟨m', q, hrun, hq, hqform⟩

/-- A live array goes to disk at once and compressed, or by way of the host, and is read back alike.
Once it is in host memory it comes back from disk as it was, twice. -/
theorem paths_agree_smallArray :
    (∀ demotions ∈ [[Demotion.toDisk true], [.toHost, .toDisk false]], ∃ m' q disk,
      demotions.forM (Demotion.run ⟨1⟩) Store.liveStore.memory = .ok () m' ∧
        m'.proxies.find? ⟨1⟩ = some (.object q) ∧ q.form = .serialized (.disk disk) ∧
        SpillDirectory.load disk m'.spill.volume = .ok
          (.ofFrames .dask Store.smallArray.nbytes Store.smallArray.frames, Store.smallArray.frames)
          (m'.spill.volume.discard disk.path)) ∧
    ∃ m' q, [true, false].forM (roundTrip ⟨1⟩) Store.hostStore.memory = .ok () m' ∧
      m'.proxies.find? ⟨1⟩ = some (.object q) ∧ q.form = .serialized (.frames
        (.ofFrames .dask Store.smallArray.nbytes Store.smallArray.frames)
        Store.smallArray.frames) := by
  have hlive := Store.run_liveStore.movable ⟨1⟩
  have hhost := Store.run_hostStore.movable ⟨1⟩
  have hin : Store.InHost (.ofFrames .dask Store.smallArray.nbytes Store.smallArray.frames)
      Store.smallArray.frames :=
    ⟨_, _, _, ⟨1⟩, _, Store.run_hostStore.mono fun _ _ _ => trivial, rfl, rfl⟩
  have hgo := (paths_agree hlive rfl).1 _ rfl Store.isAddressable_smallArray
  refine ⟨fun demotions hmem => ?_,
    (paths_agree hhost rfl).2 _ _ rfl hin [true, false] (List.cons_ne_nil true [false])⟩
  rcases List.mem_pair.1 hmem with rfl | rfl
  · exact hgo [] true
  · exact hgo [.toHost] false

end Memory

end TieredStore
