import TieredStore.Proofs.Memory.Steps

/-!
# Spill files and the proxies that accept them

A demotion to disk looks at a proxy, writes its frames to a file, and only then offers the file to
the proxy. In between anything may have happened to the payload, and a proxy need not do what is
expected of it in the first place. All that counts is whether it accepts the file in the end: a file
that is refused is removed.

* `Memory.Offer`: what a proxy has to be written.
* `Memory.Answered`: what becomes of a file, as the proxy accepts it or not.
* `Memory.demoteToDisk_of_offer`, `Memory.demoteToDisk_of_spilled`,
  `Memory.demoteToDisk_of_not_offers`: a demotion, by what the proxy shows.
* `Memory.demoteToDisk_leaves_accepted`: a demotion leaves a new file if and only if it was
  accepted.
-/

namespace TieredStore

namespace Memory

variable {P : Type} [Spillable P] {m : Memory P} {id : ProxyId} {p q : P} {v : Volume}

/-- Frames that a proxy has to be written to a spill file. -/
structure Offer (P : Type) where
  /-- The proxy when it showed them. -/
  proxy : P
  /-- The version that it showed. -/
  version : ℕ
  /-- The header of the frames. -/
  header : FrameHeader
  /-- The frames. -/
  content : List Bytes
  /-- Whether the proxy had to be serialized for them. -/
  isFresh : Bool

/-- What a proxy shows first, or once it has been serialized. Frames of the host are taken as they
are, and a proxy that shows a spill file is not asked for more. -/
inductive Offers (p : P) (v : Volume) : Offer P → Prop
  /-- The frames are in host memory. -/
  | held (version : ℕ) (header : FrameHeader) (content : List Bytes)
    (hshown : Spillable.snapshot? p = some (version, .frames header content))
    (hhost : header.serializer.isHost = true) : Offers p v ⟨p, version, header, content, false⟩
  /-- The frames are there once the proxy has been serialized. -/
  | fresh (q : P) (w : Volume) (version : ℕ) (header : FrameHeader) (content : List Bytes)
    (hspilled : ∀ version disk, Spillable.snapshot? p ≠ some (version, .disk disk))
    (hhost : ∀ version header content,
      Spillable.snapshot? p = some (version, .frames header content) →
        header.serializer.isHost = false)
    (hserialize : Spillable.serialize Serializer.hostFamilies (p, v) = .ok () (q, w))
    (hshown : Spillable.snapshot? q = some (version, .frames header content)) :
    Offers p v ⟨q, version, header, content, true⟩

namespace Offer

variable (o : Offer P) (d : SpillDirectory)

/-- The header of the file that the frames are written to. -/
def file : DiskHeader := d.nextHeader o.header o.content o.isFresh

/-- The directory with the file. -/
def written : SpillDirectory :=
  d.addFile (Container.pack (d.prepare o.header o.content o.isFresh).2)

/-- What the proxy makes of the file: whether it accepts it, and what it is after that. -/
def answer : Bool × P := Spillable.replace o.version (.disk (o.file d)) o.proxy

end Offer

/-- A proxy has one offer at most. -/
theorem Offers.unique {o o' : Offer P} (h : Offers p v o) (h' : Offers p v o') : o = o' := by
  cases h with
  | held version header content hshown hhost =>
    cases h' with
    | held version' header' content' hshown' =>
      rw [hshown] at hshown'
      cases hshown'
      rfl
    | fresh _ _ _ _ _ _ hhost' =>
      rw [hhost' version header content hshown] at hhost
      cases hhost
  | fresh q w version header content hspilled hhost hserialize hshown =>
    cases h' with
    | held version' header' content' hshown' hhost' =>
      rw [hhost version' header' content' hshown'] at hhost'
      cases hhost'
    | fresh _ _ _ _ _ _ _ hserialize' hshown' =>
      rw [hserialize] at hserialize'
      cases hserialize'
      rw [hshown] at hshown'
      cases hshown'
      rfl

/-- A file has been offered to a proxy. It is there if the proxy has accepted it, which is tracked
on disk and nowhere else then. It is gone otherwise, and nothing has changed in the books. -/
structure Answered (m m' : Memory P) (id : ProxyId) (o : Offer P) : Prop where
  /-- The proxy is what it has made of the file, and the others are as they were. -/
  find?_eq : ∀ other,
    m'.proxies.find? other = if other = id then some (o.answer m.spill).2 else m.proxies.find? other
  /-- A file that is accepted stays. -/
  spill_of_accepted : (o.answer m.spill).1 = true → m'.spill = o.written m.spill
  /-- The proxy is tracked on disk, and the others where they were. -/
  tracks_of_accepted : (o.answer m.spill).1 = true → ∀ t other,
    m'.manager.Tracks t other ↔ if other = id then t = .disk else m.manager.Tracks t other
  /-- A file that is refused is removed. -/
  volume_of_refused : (o.answer m.spill).1 = false →
    m'.spill.volume = (o.written m.spill).volume.discard (o.file m.spill).path
  /-- The books stay as they were. -/
  manager_of_refused : (o.answer m.spill).1 = false → m'.manager = m.manager

/-- Frames that are written to a file are offered to the proxy. -/
theorem spillFrames_answered (o : Offer P) (hfind : m.proxies.find? id = some o.proxy)
    (hunique : ∀ t other, m.manager.Tracks t id → m.manager.Tracks other id → t = other)
    (hwritable : m.spill.Writable) :
    Ends (spillFrames id o.version o.header o.content o.isFresh) m
      (fun _ m' => Answered m m' id o) Never := by
  rw [spillFrames, Ends.bind_iff, onSpill_iff]
  refine (m.spill.dump_ends o.header o.content o.isFresh).mono ?_ fun _ _ hfail =>
    hfail.2 hwritable
  rintro disk spill ⟨rfl, rfl⟩
  rw [Ends.bind_iff]
  refine (replace_iff (p := o.proxy) ?_ _ _).2 ?_
  · exact hfind
  show Ends (if (o.answer m.spill).1 = true then _ else _) _ _ _
  have hfind' : ∀ other, (m.proxies.insert id (o.answer m.spill).2).find? other =
      if other = id then some (o.answer m.spill).2 else m.proxies.find? other := fun other =>
    Table.find?_insert _ _ _ _
  split
  next haccepted =>
    -- Only the books have to follow, which they can whatever the proxy reports now.
    obtain ⟨new, hnew, htracks⟩ := Manager.exists_addToTier hunique
      (Spillable.report (o.answer m.spill).2) .disk
    rw [add, addToTier, Ends.bind_iff, proxy_iff (Table.find?_insert_self _ _ _)]
    refine (onManager_iff_of_ok hnew).2 ⟨hfind', fun _ => rfl, fun _ => htracks, ?_, ?_⟩ <;>
      exact fun hrefused => absurd haccepted (by simp [hrefused])
  next hrefused =>
    -- The file is there to be removed, since it has just been written.
    have hremove : Volume.remove (o.file m.spill).path (o.written m.spill).volume =
        .ok () ((o.written m.spill).volume.discard (o.file m.spill).path) :=
      Volume.remove_of_contains (Table.contains_of_find? (Table.find?_insert_self _ _ _))
    rw [onSpill_iff, SpillDirectory.onVolume_iff]
    show Ends (Volume.remove (o.file m.spill).path) (o.written m.spill).volume _ _
    rw [Ends, hremove]
    exact ⟨hfind', fun haccepted => absurd haccepted hrefused, fun haccepted =>
      absurd haccepted hrefused, fun _ => rfl, fun _ => rfl⟩

/-- The memory with another proxy and other files, and otherwise as it was. -/
def served (m : Memory P) (id : ProxyId) (r : P × Volume) : Memory P :=
  { m with proxies := m.proxies.insert id r.1, spill := { m.spill with volume := r.2 } }

/-- A proxy is serialized, and the frames that it shows then are written. -/
theorem serializeAndSpill_iff (hfind : m.proxies.find? id = some p) {ok : Unit → Memory P → Prop}
    {bad : Failure → Memory P → Prop} :
    Ends (do
        serialize id Serializer.hostFamilies
        match Spillable.snapshot? (← proxy id) with
        | some (version, .frames header content) => spillFrames id version header content true
        | _ => fail (noHostFrames id)) m ok bad ↔
      Ends (Spillable.serialize Serializer.hostFamilies) (p, m.spill.volume)
        (fun _ r => Ends (match Spillable.snapshot? r.1 with
          | some (version, .frames header content) => spillFrames id version header content true
          | _ => fail (noHostFrames id)) (m.served id r) ok bad)
        (fun e r => bad (.error e) (m.served id r)) := by
  have hnext : ∀ (r : P × Volume) {f : P → Action P Unit},
      Ends (proxy id >>= f) (m.served id r) ok bad ↔ Ends (f r.1) (m.served id r) ok bad := by
    intro r f
    rw [Ends.bind_iff, proxy_iff (Table.find?_insert_self _ _ _)]
  rw [Ends.bind_iff, serialize, onProxy_iff hfind]
  exact iff_of_eq (congrArg (Ends _ _ · _) (funext fun _ => funext fun r => propext (hnext r)))

/-- A proxy that shows neither a file nor frames of the host is serialized first. -/
theorem demoteToDisk_fresh_iff (hfind : m.proxies.find? id = some p)
    (hspilled : ∀ version disk, Spillable.snapshot? p ≠ some (version, .disk disk))
    (hhost : ∀ version header content,
      Spillable.snapshot? p = some (version, .frames header content) →
        header.serializer.isHost = false)
    {ok : Unit → Memory P → Prop} {bad : Failure → Memory P → Prop} :
    Ends (demoteToDisk id) m ok bad ↔
      Ends (Spillable.serialize Serializer.hostFamilies) (p, m.spill.volume)
        (fun _ r => Ends (match Spillable.snapshot? r.1 with
          | some (version, .frames header content) => spillFrames id version header content true
          | _ => fail (noHostFrames id)) (m.served id r) ok bad)
        (fun e r => bad (.error e) (m.served id r)) := by
  rw [demoteToDisk, Ends.bind_iff, proxy_iff hfind]
  rcases hshown : Spillable.snapshot? p with _ | ⟨version, ⟨header, content⟩ | disk⟩
  · exact serializeAndSpill_iff hfind
  · simp only [hhost version header content hshown, Bool.false_eq_true, if_false]
    exact serializeAndSpill_iff hfind
  · exact absurd hshown (hspilled version disk)

section

variable {o : Offer P} (hfind : m.proxies.find? id = some p)

include hfind

/-- A proxy that has frames to offer is asked whether it accepts their file. -/
theorem demoteToDisk_of_offer
    (hunique : ∀ t other, m.manager.Tracks t id → m.manager.Tracks other id → t = other)
    (hwritable : m.spill.Writable)
    (hfiles : Leaves (Spillable.serialize Serializer.hostFamilies) (p, m.spill.volume)
      fun r => r.2 = m.spill.volume)
    (ho : Offers p m.spill.volume o) :
    Ends (demoteToDisk id) m (fun _ m' => Answered m m' id o) Never := by
  cases ho with
  | held version header content hshown hhost =>
    rw [demoteToDisk, Ends.bind_iff, proxy_iff hfind]
    simp only [hshown, hhost, if_true]
    exact spillFrames_answered ⟨p, version, header, content, false⟩ hfind hunique hwritable
  | fresh q w version header content hspilled hhost hserialize hshown =>
    obtain rfl : w = m.spill.volume := hfiles.of_ok hserialize
    rw [demoteToDisk_fresh_iff hfind hspilled hhost, Ends, hserialize]
    simp only [hshown]
    -- The proxy has changed before it is asked, and nothing else has.
    have hself : (m.served id (q, m.spill.volume)).proxies.find? id = some q :=
      Table.find?_insert_self _ _ _
    refine (spillFrames_answered ⟨q, version, header, content, true⟩ hself hunique
      hwritable).mono_ok
      fun _ m' hanswered => { hanswered with find?_eq := fun other => ?_ }
    rw [hanswered.find?_eq]
    split
    · rfl
    next hother => exact Table.find?_insert_of_ne _ _ hother

/-- A proxy that shows a spill file is tracked on disk, and no file is written. -/
theorem demoteToDisk_of_spilled
    (hunique : ∀ t other, m.manager.Tracks t id → m.manager.Tracks other id → t = other)
    {version : ℕ} {disk : DiskHeader}
    (hshown : Spillable.snapshot? p = some (version, .disk disk)) :
    Ends (demoteToDisk id) m
      (fun _ m' => m'.proxies = m.proxies ∧ m'.spill = m.spill ∧
        ∀ t other, m'.manager.Tracks t other ↔
          if other = id then t = .disk else m.manager.Tracks t other) Never := by
  obtain ⟨new, hnew, htracks⟩ := Manager.exists_addToTier hunique (Spillable.report p) .disk
  rw [demoteToDisk, Ends.bind_iff, proxy_iff hfind]
  simp only [hshown]
  rw [addToTier, Ends.bind_iff, proxy_iff hfind, onManager_iff_of_ok hnew]
  exact ⟨rfl, rfl, htracks⟩

/-- A demotion fails if the proxy shows neither a file nor frames. -/
theorem demoteToDisk_of_not_offers
    (hfiles : Leaves (Spillable.serialize Serializer.hostFamilies) (p, m.spill.volume)
      fun r => r.2 = m.spill.volume)
    (hspilled : ∀ version disk, Spillable.snapshot? p ≠ some (version, .disk disk))
    (hnone : ∀ o, ¬ Offers p m.spill.volume o) :
    Ends (demoteToDisk id) m (fun _ _ => False)
      (fun _ m' => m'.spill = m.spill ∧ m'.manager = m.manager ∧
        ∀ other, other ≠ id → m'.proxies.find? other = m.proxies.find? other) := by
  have hhost : ∀ version header content,
      Spillable.snapshot? p = some (version, .frames header content) →
        header.serializer.isHost = false := by
    intro version header content hshown
    rw [← Bool.not_eq_true]
    exact fun hhost => hnone _ (.held version header content hshown hhost)
  have hothers : ∀ {q : P} {v : Volume} {other : ProxyId}, other ≠ id →
      (m.served id (q, v)).proxies.find? other = m.proxies.find? other := fun hother =>
    Table.find?_insert_of_ne _ _ hother
  rw [demoteToDisk_fresh_iff hfind hspilled hhost]
  refine Ends.of_forall (fun _ r hserialize => ?_) fun e r hserialize => ?_
  · obtain ⟨q, w⟩ := r
    obtain rfl : w = m.spill.volume := hfiles.of_ok hserialize
    rcases hshown : Spillable.snapshot? q with _ | ⟨version, ⟨header, content⟩ | disk⟩
    · exact ⟨rfl, rfl, fun _ => hothers⟩
    · exact (hnone _ (.fresh q _ version header content hspilled hhost hserialize hshown)).elim
    · exact ⟨rfl, rfl, fun _ => hothers⟩
  · obtain ⟨q, w⟩ := r
    obtain rfl : w = m.spill.volume := hfiles.of_error hserialize
    exact ⟨rfl, rfl, fun _ => hothers⟩

end

/-- The file of an offer is there after the answer if and only if it was accepted, and the other
files are as they were. -/
theorem Answered.files {m' : Memory P} {o : Offer P} (h : Answered m m' id o) :
    (m'.spill.volume.contains (o.file m.spill).path = true ↔ (o.answer m.spill).1 = true) ∧
      ∀ path, path ≠ (o.file m.spill).path →
        m'.spill.volume.files.find? path = m.spill.volume.files.find? path := by
  have hothers : ∀ path, path ≠ (o.file m.spill).path →
      (o.written m.spill).volume.files.find? path = m.spill.volume.files.find? path :=
    fun path hpath => Table.find?_insert_of_ne _ _ hpath
  cases haccepted : (o.answer m.spill).1 with
  | true =>
    rw [h.spill_of_accepted haccepted]
    exact ⟨iff_of_true (Table.contains_of_find? (Table.find?_insert_self _ _ _)) rfl, hothers⟩
  | false =>
    rw [h.volume_of_refused haccepted]
    refine ⟨iff_of_false ?_ Bool.false_ne_true, fun path hpath => ?_⟩
    · rw [Volume.contains, Volume.discard, Table.contains, Table.find?_erase_self]
      exact Bool.false_ne_true
    · exact (Table.find?_erase_of_ne _ hpath).trans (hothers path hpath)

/-- A demotion to disk leaves a new file if and only if the proxy has accepted it. This holds of any
proxy that does not touch the files, whatever it shows, whatever serializing makes of it, and
whether or not it takes the file in the end. The books need not agree with the proxies, as long as
the proxy is tracked in one tier at most.

There is one name that the file may have. A proxy that has frames to offer is asked once, and the
demotion succeeds whatever the answer: if the file is accepted the proxy is tracked on disk and
nowhere else, and if it is refused the file is gone and the books are as they were. A proxy that
shows a spill file is tracked on disk, and no file is written. A proxy that comes up with no frames
makes the demotion fail, and neither files nor books have changed then. -/
theorem demoteToDisk_leaves_accepted (hfind : m.proxies.find? id = some p)
    (hunique : ∀ t other, m.manager.Tracks t id → m.manager.Tracks other id → t = other)
    (hwritable : m.spill.Writable)
    (hfiles : Leaves (Spillable.serialize Serializer.hostFamilies) (p, m.spill.volume)
      fun r => r.2 = m.spill.volume) :
    Leaves (demoteToDisk id) m (fun m' =>
      (∀ other, other ≠ id → m'.proxies.find? other = m.proxies.find? other) ∧
      (∀ path, path ≠ m.spill.filePath (m.spill.counter + 1) →
        m'.spill.volume.files.find? path = m.spill.volume.files.find? path) ∧
      (m.spill.volume.contains (m.spill.filePath (m.spill.counter + 1)) = false →
        (m'.spill.volume.contains (m.spill.filePath (m.spill.counter + 1)) = true ↔
          ∃ o, Offers p m.spill.volume o ∧ (o.answer m.spill).1 = true))) ∧
    (∀ o, Offers p m.spill.volume o →
      Ends (demoteToDisk id) m (fun _ m' => Answered m m' id o) Never) ∧
    (∀ version disk, Spillable.snapshot? p = some (version, .disk disk) →
      Ends (demoteToDisk id) m
        (fun _ m' => m'.proxies = m.proxies ∧ m'.spill = m.spill ∧
          ∀ t other, m'.manager.Tracks t other ↔
            if other = id then t = .disk else m.manager.Tracks t other) Never) ∧
    ((∀ version disk, Spillable.snapshot? p ≠ some (version, .disk disk)) →
      (∀ o, ¬ Offers p m.spill.volume o) →
      Ends (demoteToDisk id) m (fun _ _ => False)
        (fun _ m' => m'.spill = m.spill ∧ m'.manager = m.manager ∧
          ∀ other, other ≠ id → m'.proxies.find? other = m.proxies.find? other)) := by
  have hoffer := fun {o} => demoteToDisk_of_offer (o := o) hfind hunique hwritable hfiles
  have hshown := fun {version disk} (hdisk : Spillable.snapshot? p = some (version, .disk disk)) =>
    demoteToDisk_of_spilled hfind hunique hdisk
  have hnone := demoteToDisk_of_not_offers hfind hfiles
  refine ⟨?_, fun o ho => hoffer ho, fun version disk hdisk => hshown hdisk, hnone⟩
  -- What no offer leads to is a memory with the same files, whether the demotion succeeds or not.
  have hsame : (∀ o, ¬ Offers p m.spill.volume o) → ∀ m' : Memory P, m'.spill = m.spill →
      (m.spill.volume.contains (m.spill.filePath (m.spill.counter + 1)) = false →
        (m'.spill.volume.contains (m.spill.filePath (m.spill.counter + 1)) = true ↔
          ∃ o, Offers p m.spill.volume o ∧ (o.answer m.spill).1 = true)) := by
    rintro hno m' hspill hfree
    rw [hspill, hfree]
    exact iff_of_false Bool.false_ne_true fun ⟨o, ho, _⟩ => hno o ho
  by_cases ho : ∃ o, Offers p m.spill.volume o
  · obtain ⟨o, ho⟩ := ho
    refine (hoffer ho).of_never fun _ m' hanswered => ?_
    obtain ⟨hfile, hothers⟩ := hanswered.files
    refine ⟨fun other hother => by rw [hanswered.find?_eq, if_neg hother], hothers, fun _ =>
      hfile.trans ⟨fun haccepted => ⟨o, ho, haccepted⟩, ?_⟩⟩
    rintro ⟨o', ho', haccepted⟩
    rwa [ho.unique ho']
  · rw [not_exists] at ho
    by_cases hdisk : ∃ version disk, Spillable.snapshot? p = some (version, .disk disk)
    · obtain ⟨version, disk, hdisk⟩ := hdisk
      refine (hshown hdisk).of_never fun _ m' ⟨hproxies, hspill, _⟩ => ?_
      exact ⟨fun _ _ => by rw [hproxies], fun _ _ => by rw [hspill], hsame ho m' hspill⟩
    · simp only [not_exists] at hdisk
      refine (hnone hdisk ho).mono (fun _ _ => False.elim) fun _ m' ⟨hspill, _, hothers⟩ => ?_
      exact ⟨hothers, fun _ _ => by rw [hspill], hsame ho m' hspill⟩

/-- Two proxies show the same frames. The one accepts the file that they are written to, and the
other refuses it. -/
theorem demoteToDisk_leaves_accepted_or_refused :
    let shown : Bool → ScriptedProxy := fun acceptsPayload =>
      ⟨some .dask, 1, [], some (.frames ⟨.dask, 1, [none], 1⟩ [[7]]), .ignores, acceptsPayload, 0⟩
    let start : Bool → Memory ScriptedProxy := fun acceptsPayload =>
      { Memory.empty ScriptedProxy 10 10 ⟨⟨"/spill"⟩, "run", 0, false, true, .empty⟩ with
        proxies := Table.empty.insert ⟨1⟩ (shown acceptsPayload) }
    ∃ m m', demoteToDisk ⟨1⟩ (start true) = .ok () m ∧ demoteToDisk ⟨1⟩ (start false) = .ok () m' ∧
      m.spill.volume.contains ((start true).spill.filePath 1) = true ∧ m.manager.Tracks .disk ⟨1⟩ ∧
      m'.spill.volume.contains ((start false).spill.filePath 1) = false ∧
      m'.manager = (start false).manager := by
  intro shown start
  have hfind : ∀ acceptsPayload,
      (start acceptsPayload).proxies.find? ⟨1⟩ = some (shown acceptsPayload) := fun _ =>
    Table.find?_insert_self _ _ _
  have hnone : ∀ acceptsPayload t, ¬ (start acceptsPayload).manager.Tracks t ⟨1⟩ := by
    intro acceptsPayload t
    cases t <;> exact List.not_mem_nil
  have hoffers : ∀ acceptsPayload, Offers (shown acceptsPayload) (start acceptsPayload).spill.volume
      ⟨shown acceptsPayload, 0, ⟨.dask, 1, [none], 1⟩, [[7]], false⟩ := fun _ =>
    .held 0 _ _ rfl rfl
  have hfiles : ∀ acceptsPayload, Leaves (Spillable.serialize Serializer.hostFamilies)
      (shown acceptsPayload, (start acceptsPayload).spill.volume)
      fun r => r.2 = (start acceptsPayload).spill.volume := by
    intro acceptsPayload
    show (start acceptsPayload).spill.volume = _
    rfl
  have hdemote := fun acceptsPayload =>
    (demoteToDisk_leaves_accepted (hfind acceptsPayload)
      (fun t _ htracks => absurd htracks (hnone acceptsPayload t)) ⟨rfl, rfl⟩
      (hfiles acceptsPayload)).2.1 _ (hoffers acceptsPayload)
  obtain ⟨⟨⟩, m, hm, haccepted⟩ := (hdemote true).exists_ok fun _ _ => not_false
  obtain ⟨⟨⟩, m', hm', hrefused⟩ := (hdemote false).exists_ok fun _ _ => not_false
  refine ⟨m, m', hm, hm', haccepted.files.1.2 rfl, (haccepted.tracks_of_accepted rfl _ _).2 rfl, ?_,
    hrefused.manager_of_refused rfl⟩
  rw [← Bool.not_eq_true]
  exact fun hfile => Bool.false_ne_true (hrefused.files.1.1 hfile)

end Memory

end TieredStore
