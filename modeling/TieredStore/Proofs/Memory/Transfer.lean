import TieredStore.Proofs.Memory.Settled

/-!
# Proxies that change tiers

A demotion gives a proxy another form and tracks it in the tier of that form. An eviction does so
with all of its victims, one after the other. What this leaves of the memory is said exactly, for
objects of any kind and wherever the memory comes from.

* `ObjectProxy.ToHost`, `ObjectProxy.ToDisk`: what a demotion makes of a proxy.
* `ObjectProxy.Filed`, `ObjectProxy.InFile`: the file that its frames are written to, and that
  stays.
* `Memory.Transferred`: some proxies have changed tiers, and nothing else has changed in the books.
* `demoteToHost_transfers`, `demoteToDisk_files`, `demoteToDisk_transfers`: a single demotion.
* `forM_transfers`, `forM_demoteToDisk_files`: demotions one after the other.
* `evict_transfers`: the demotions of a plan.
* `Transferred.settled`, `Transferred.sizedBy`: books that agreed with the proxies still do.
* `Transferred.usage_target`, `Transferred.usage_source`: the tallies of the two tiers.
-/

namespace TieredStore

namespace ObjectProxy

variable {T : Type} [DeviceObject T] {p q : ObjectProxy T} {a : T}

/-- The proxy with its object in frames of the host. -/
def framed (p : ObjectProxy T) (a : T) (frames : List Bytes) : ObjectProxy T :=
  p.setForm (.serialized (.frames (.ofFrames .dask (DeviceObject.nbytes a) frames) frames))

/-- A live proxy has its object in frames of the host now. -/
def ToHost (p q : ObjectProxy T) : Prop :=
  ∃ a frames, p.form = .live a ∧ DeviceObject.toFrames a = .ok frames ∧ q = p.framed a frames

/-- A proxy of the host has its frames in a file now, just as they were. One that was in a file all
along is left alone, whatever family its header names. -/
def ToDisk (p q : ObjectProxy T) : Prop :=
  (∃ header content disk, p.form = .serialized (.frames header content) ∧
    disk.serializer = .disk ∧ disk.size = (Container.pack content).length ∧
      q = p.setForm (.serialized (.disk disk))) ∨
    (∃ disk, p.form = .serialized (.disk disk)) ∧ q = p

/-- A proxy of the host has its frames in the next file of the directory now, just as they were. One
that was in a file all along has needed no other. -/
def Filed (d d' : SpillDirectory) (p q : ObjectProxy T) : Prop :=
  (∃ header content, p.form = .serialized (.frames header content) ∧
    q = p.setForm (.serialized (.disk (d.nextHeader header content false))) ∧
      d' = d.addFile (Container.pack content)) ∨
    (∃ disk, p.form = .serialized (.disk disk)) ∧ q = p ∧ d' = d

/-- A proxy of the host has its frames in a file of the directory now, just as they were, and a
header that says how they were written. -/
def Written (d : SpillDirectory) (p q : ObjectProxy T) : Prop :=
  ∃ header content disk, p.form = .serialized (.frames header content) ∧
    q = p.setForm (.serialized (.disk disk)) ∧ disk.serializer = .disk ∧
      disk.subHeader = (d.prepare header content false).1 ∧
      disk.size = (Container.pack content).length ∧
      (∃ n ≤ d.counter, disk.path = d.filePath n) ∧
      d.volume.files.find? disk.path = some (Container.pack content)

/-- A proxy of the host has its frames in a file now, or has been in a file all along. -/
def InFile (d : SpillDirectory) (p q : ObjectProxy T) : Prop :=
  Written d p q ∨ (∃ disk, p.form = .serialized (.disk disk)) ∧ q = p

theorem ToHost.tier_eq (h : ToHost p q) : q.form.tier = .host := by
  obtain ⟨a, frames, -, -, rfl⟩ := h
  rfl

theorem ToHost.isAttached_eq (h : ToHost p q) : q.isAttached = p.isAttached := by
  obtain ⟨a, frames, -, -, rfl⟩ := h
  rfl

omit [DeviceObject T] in
theorem ToDisk.isAttached_eq (h : ToDisk p q) : q.isAttached = p.isAttached := by
  rcases h with ⟨header, content, disk, -, -, -, rfl⟩ | ⟨-, rfl⟩ <;> rfl

/-- A live proxy is serialized unless its object has no frames. -/
theorem serialize_live_ends (hp : p.form = .live a) (v : Volume) :
    Ends (serialize Serializer.hostFamilies) (p, v)
      (fun _ r => ∃ frames, DeviceObject.toFrames a = .ok frames ∧ r = (p.framed a frames, v))
      (fun _ r => r = (p, v) ∧ ∀ frames, DeviceObject.toFrames a ≠ .ok frames) := by
  cases hframes : DeviceObject.toFrames a with
  | ok frames =>
    rw [Ends, show serialize _ (p, v) = _ from serialize_live v hp hframes]
    exact ⟨frames, rfl, rfl⟩
  | error e =>
    have hserializer : p.serializer = none := by
      rw [serializer, payload?, hp]
      rfl
    unfold serialize
    rw [show Serializer.hostFamilies.find? Serializer.isHost = some .dask from rfl]
    simp only [Ends.bind_iff, Ends.get_iff, hserializer, Option.any_none, Bool.false_eq_true,
      if_false, onVolume_iff, hp]
    rw [Ends, framesFor, hframes]
    exact ⟨rfl, fun frames heq => by cases heq⟩

end ObjectProxy

/-- Without a request for compression frames are written as they are. -/
theorem SpillDirectory.prepare_uncompressed (d : SpillDirectory) (header : FrameHeader)
    (frames : List Bytes) : (d.prepare header frames false).2 = frames := by
  rw [prepare, Bool.false_and, Bool.false_and, if_neg Bool.false_ne_true]
  split <;> rfl

namespace ObjectProxy

variable {T : Type} {d d' : SpillDirectory} {p q : ObjectProxy T}

theorem Filed.inFile (h : Filed d d' p q) : InFile d' p q := by
  rcases h with ⟨header, content, hform, rfl, rfl⟩ | ⟨hdisk, rfl, -⟩
  · refine .inl ⟨header, content, _, hform, rfl, rfl, rfl, ?_, ⟨_, Nat.le_refl _, rfl⟩,
      Table.find?_insert_self _ _ _⟩
    rw [SpillDirectory.nextHeader, d.prepare_uncompressed]
  · exact .inr ⟨hdisk, rfl⟩

theorem Filed.writable_iff (h : Filed d d' p q) : d'.Writable ↔ d.Writable := by
  rcases h with ⟨-, -, -, -, rfl⟩ | ⟨-, -, rfl⟩ <;> rfl

/-- A file stays as it is when another proxy goes to disk, since no number is given out twice. -/
theorem InFile.of_filed {r r' : ObjectProxy T} (h : InFile d p q) (hfiled : Filed d d' r r') :
    InFile d' p q := by
  rcases hfiled with ⟨-, content', -, -, rfl⟩ | ⟨-, -, rfl⟩
  · refine h.imp_left ?_
    rintro ⟨header, content, disk, hform, rfl, hserializer, hsub, hsize, ⟨n, hn, hpath⟩, hfile⟩
    refine ⟨header, content, disk, hform, rfl, hserializer, hsub, hsize,
      ⟨n, Nat.le_succ_of_le hn, hpath⟩, (Table.find?_insert_of_ne _ _ ?_).trans hfile⟩
    rw [hpath]
    intro hsame
    have := d.filePath_injective hsame
    omega
  · exact h

theorem InFile.toDisk (h : InFile d p q) : ToDisk p q := by
  rcases h with ⟨header, content, disk, hform, rfl, hserializer, -, hsize, -⟩ | ⟨hdisk, rfl⟩
  · exact .inl ⟨header, content, disk, hform, hserializer, hsize, rfl⟩
  · exact .inr ⟨hdisk, rfl⟩

end ObjectProxy

namespace Memory

variable {T : Type} [DeviceObject T] {R : ObjectProxy T → ObjectProxy T → Prop}
  {m m' m'' : Memory (Proxy T)} {id : ProxyId} {p q : ObjectProxy T} {tier : Tier}
  {ids more : List ProxyId}

/-- Some proxies have changed as `R` says and are tracked in a tier with what they report now. All
others are as they were, in the books, too. -/
structure Transferred (R : ObjectProxy T → ObjectProxy T → Prop) (m m' : Memory (Proxy T))
    (ids : List ProxyId) (tier : Tier) : Prop where
  /-- The books are exact. -/
  exact : m'.manager.Exact
  /-- The others stay as they are. -/
  find?_eq : ∀ id, id ∉ ids → m'.proxies.find? id = m.proxies.find? id
  /-- The proxies have changed, and are recorded as they are now. -/
  changed : ∀ id ∈ ids, ∃ p q, m.proxies.find? id = some (.object p) ∧
    m'.proxies.find? id = some (.object q) ∧ R p q ∧
    (m'.manager.registry tier).ledger.Records id (Spillable.report (Proxy.object q))
  /-- They are tracked in the tier, and the others where they were. -/
  tracks_iff : ∀ t id,
    m'.manager.Tracks t id ↔ if id ∈ ids then t = tier else m.manager.Tracks t id
  /-- The records of the others stay. -/
  records_iff : ∀ t id report, id ∉ ids →
    ((m'.manager.registry t).ledger.Records id report ↔
      (m.manager.registry t).ledger.Records id report)
  /-- What another tier counts it counted before. -/
  counted : ∀ t, t ≠ tier → ∀ b n, (m'.manager.registry t).ledger.counted? b = some n →
    (m.manager.registry t).ledger.counted? b = some n
  /-- A tier that none of the proxies comes from or goes to has the same books. -/
  registry_eq : ∀ t, t ≠ tier → (∀ id ∈ ids, ¬ m.manager.Tracks t id) →
    m'.manager.registry t = m.manager.registry t

theorem Transferred.imp_of_mem {R' : ObjectProxy T → ObjectProxy T → Prop}
    (h : Transferred R m m' ids tier)
    (hR : ∀ id ∈ ids, ∀ p q, m.proxies.find? id = some (.object p) → R p q → R' p q) :
    Transferred R' m m' ids tier where
  exact := h.exact
  find?_eq := h.find?_eq
  changed id hid := by
    obtain ⟨p, q, hp, hq, hchanged, hrecords⟩ := h.changed id hid
    exact ⟨p, q, hp, hq, hR id hid p q hp hchanged, hrecords⟩
  tracks_iff := h.tracks_iff
  records_iff := h.records_iff
  counted := h.counted
  registry_eq := h.registry_eq

theorem Transferred.imp {R' : ObjectProxy T → ObjectProxy T → Prop}
    (h : Transferred R m m' ids tier) (hR : ∀ p q, R p q → R' p q) :
    Transferred R' m m' ids tier :=
  h.imp_of_mem fun _ _ p q _ => hR p q

theorem Transferred.refl (h : m.manager.Exact) (tier : Tier) : Transferred R m m [] tier where
  exact := h
  find?_eq _ _ := rfl
  changed _ hid := by cases hid
  tracks_iff _ _ := by simp
  records_iff _ _ _ _ := Iff.rfl
  counted _ _ _ _ := id
  registry_eq _ _ _ := rfl

theorem Transferred.tracks_iff_of_not_mem (h : Transferred R m m' ids tier) (hid : id ∉ ids)
    (t : Tier) : m'.manager.Tracks t id ↔ m.manager.Tracks t id := by
  rw [h.tracks_iff, if_neg hid]

/-- More proxies follow, which are none of those that have changed tiers already. -/
theorem Transferred.trans (h : Transferred R m m' ids tier) (h' : Transferred R m' m'' more tier)
    (hfresh : ∀ id ∈ more, id ∉ ids) : Transferred R m m'' (ids ++ more) tier where
  exact := h'.exact
  find?_eq id hid := by
    rw [List.mem_append, not_or] at hid
    rw [h'.find?_eq id hid.2, h.find?_eq id hid.1]
  changed id hid := by
    by_cases hmore : id ∈ more
    · -- Nothing has happened to it before the others followed.
      obtain ⟨p, q, hp, hq, hR, hrecords⟩ := h'.changed id hmore
      rw [h.find?_eq id (hfresh id hmore)] at hp
      exact ⟨p, q, hp, hq, hR, hrecords⟩
    · -- It had changed already, and the others have left it alone.
      obtain ⟨p, q, hp, hq, hR, hrecords⟩ :=
        h.changed id ((List.mem_append.1 hid).resolve_right hmore)
      exact ⟨p, q, hp, (h'.find?_eq id hmore).trans hq, hR,
        (h'.records_iff tier id _ hmore).2 hrecords⟩
  tracks_iff t id := by
    rw [h'.tracks_iff]
    by_cases hmore : id ∈ more
    · simp [hmore]
    · simpa [hmore] using h.tracks_iff t id
  records_iff t id report hid := by
    rw [List.mem_append, not_or] at hid
    rw [h'.records_iff t id report hid.2, h.records_iff t id report hid.1]
  counted t ht b n hn := h.counted t ht b n (h'.counted t ht b n hn)
  registry_eq t ht hnone := by
    have hids : ∀ id ∈ ids, ¬ m.manager.Tracks t id := fun id hid =>
      hnone id (List.mem_append_left more hid)
    have hmore : ∀ id ∈ more, ¬ m'.manager.Tracks t id := fun id hid => by
      rw [h.tracks_iff_of_not_mem (hfresh id hid)]
      exact hnone id (List.mem_append_right ids hid)
    rw [h'.registry_eq t ht hmore, h.registry_eq t ht hids]

/-! ### Single demotions -/

/-- The memory with another form of a proxy. -/
def put (m : Memory (Proxy T)) (id : ProxyId) (q : ObjectProxy T) : Memory (Proxy T) :=
  { m with proxies := m.proxies.insert id (.object q) }

omit [DeviceObject T] in
theorem find?_put_self (m : Memory (Proxy T)) (id : ProxyId) (q : ObjectProxy T) :
    (m.put id q).proxies.find? id = some (.object q) :=
  Table.find?_insert_self _ _ _

omit [DeviceObject T] in
theorem find?_put_of_ne (m : Memory (Proxy T)) {id other : ProxyId} (q : ObjectProxy T)
    (hother : other ≠ id) : (m.put id q).proxies.find? other = m.proxies.find? other :=
  Table.find?_insert_of_ne _ _ hother

omit [DeviceObject T] in
/-- A proxy that is put back as it was has not changed. -/
theorem find?_put_same (hfind : m.proxies.find? id = some (.object p)) (other : ProxyId) :
    (m.put id p).proxies.find? other = m.proxies.find? other := by
  by_cases hother : other = id
  · rw [hother, find?_put_self, hfind]
  · exact find?_put_of_ne m p hother

/-- A proxy that has changed is transferred once it is tracked in its new tier. -/
theorem addToTier_transfers {n : Memory (Proxy T)} (h : m.manager.Exact)
    (hfind : m.proxies.find? id = some (.object p)) (hR : R p q)
    (hnot : ¬ m.manager.Tracks tier id) (hself : n.proxies.find? id = some (.object q))
    (hothers : ∀ other, other ≠ id → n.proxies.find? other = m.proxies.find? other)
    (hmanager : n.manager = m.manager) :
    Ends (addToTier id tier) n
      (fun _ m' => Transferred R m m' [id] tier ∧ m'.spill = n.spill) Never := by
  obtain ⟨new, hnew, hexact, hplaced⟩ :=
    Manager.exact_addToTier h id (Spillable.report (Proxy.object q)) tier
  rw [← hmanager] at hnew
  rw [addToTier, Ends.bind_iff, proxy_iff hself, onManager_iff_of_ok hnew]
  rw [hmanager] at hnew
  have hne : ∀ {other : ProxyId}, other ∉ [id] → other ≠ id := List.mem_singleton.not.1
  refine ⟨⟨hexact, fun other hother => hothers other (hne hother), fun other hother => ?_,
    fun t other => ?_, fun t other report hother => hplaced.records_iff t other report (hne hother),
    fun t ht b n hn => ?_, fun t ht hnone => ?_⟩, rfl⟩
  · rw [List.mem_singleton.1 hother]
    exact ⟨p, q, hfind, hself, hR, hplaced.records hnot⟩
  · rw [hplaced.tracks_iff]
    simp only [List.mem_singleton]
  · exact (hplaced.counted t b n hn).resolve_right fun hcame => ht hcame.1
  · exact Manager.registry_of_addToTier h hnew ht (hnone id List.mem_cons_self)

/-- A proxy has a live object that can be put into frames. -/
def HasFrames (m : Memory (Proxy T)) (id : ProxyId) : Prop :=
  ∃ p a frames, m.proxies.find? id = some (.object p) ∧ p.form = .live a ∧
    DeviceObject.toFrames a = .ok frames

/-- A live proxy is serialized and goes to the host, unless its object has no frames. No file is
touched. -/
theorem demoteToHost_transfers (h : m.manager.Exact) {a : T}
    (hfind : m.proxies.find? id = some (.object p)) (hlive : p.form = .live a)
    (hnot : ¬ m.manager.Tracks .host id) :
    Ends (demoteToHost id) m
      (fun _ m' => Transferred ObjectProxy.ToHost m m' [id] .host ∧ m'.spill = m.spill)
      (fun _ m' => m' = m.put id p ∧ ∀ frames, DeviceObject.toFrames a ≠ .ok frames) := by
  rw [demoteToHost, Ends.bind_iff, serialize_iff hfind]
  refine (ObjectProxy.serialize_live_ends hlive m.spill.volume).mono ?_ ?_
  · rintro - r ⟨frames, hframes, rfl⟩
    show Ends (track id) (m.put id (p.framed a frames)) _ _
    have hself := find?_put_self m id (p.framed a frames)
    rw [track, Ends.bind_iff, proxy_iff hself]
    refine (addToTier_transfers h hfind ⟨a, frames, hlive, hframes, rfl⟩ hnot hself
      (fun other => find?_put_of_ne m _) rfl).of_never fun _ _ htransferred => htransferred
  · rintro e r ⟨rfl, hnone⟩
    exact ⟨rfl, hnone⟩

/-- The memory once a file was refused: the number of the file has been used up. -/
def passOver (m : Memory (Proxy T)) : Memory (Proxy T) :=
  { m with spill := { m.spill with counter := m.spill.counter + 1 } }

theorem snapshot?_object (p : ObjectProxy T) :
    Spillable.snapshot? (Proxy.object p) = p.payload?.map fun payload => (p.version, payload) :=
  rfl

/-- Frames are written to a file and the proxy goes to disk, unless the file is refused. -/
theorem spillFrames_transfers (h : m.manager.Exact)
    (hfind : m.proxies.find? id = some (.object p)) (hnot : ¬ m.manager.Tracks .disk id)
    (header : FrameHeader) (content : List Bytes) (compress : Bool)
    (hR : R p (p.setForm (.serialized (.disk (m.spill.nextHeader header content compress))))) :
    Ends (spillFrames id p.version header content compress) m
      (fun _ m' => Transferred R m m' [id] .disk ∧
        m'.spill = m.spill.addFile (Container.pack (m.spill.prepare header content compress).2))
      (fun _ m' => m' = m.passOver ∧ ¬ m.spill.Writable) := by
  rw [spillFrames, Ends.bind_iff, onSpill_iff]
  refine (m.spill.dump_ends header content compress).mono ?_ ?_
  · rintro disk spill ⟨rfl, rfl⟩
    -- Nothing has touched the proxy since its version was read, so the header is accepted.
    rw [Ends.bind_iff, replace_iff (p := .object p) hfind, Proxy.replace_of_version, if_pos rfl]
    refine Ends.of_never (addToTier_transfers h hfind hR hnot ?_ ?_ ?_) fun _ _ htransferred =>
      htransferred
    · exact Table.find?_insert_self _ _ _
    · exact fun other hother => Table.find?_insert_of_ne _ _ hother
    · rfl
  · rintro e spill ⟨rfl, hwritable⟩
    exact ⟨rfl, hwritable⟩

/-- A proxy of the host goes to disk with its frames as they are, which are in the next file then,
unless the file is refused. -/
theorem demoteToDisk_files (h : m.manager.Exact)
    (hfind : m.proxies.find? id = some (.object p)) (hhost : p.form.tier = .host)
    (hnot : ¬ m.manager.Tracks .disk id) :
    Ends (demoteToDisk id) m
      (fun _ m' => Transferred (ObjectProxy.Filed m.spill m'.spill) m m' [id] .disk)
      (fun _ m' => m' = m.passOver ∧ ¬ m.spill.Writable) := by
  simp only [demoteToDisk, Ends.bind_iff, proxy_iff hfind, snapshot?_object, ObjectProxy.payload?]
  rcases hform : p.form with a | (⟨header, content⟩ | disk)
  · -- A live proxy is not of the host.
    rw [hform] at hhost
    cases hhost
  · have hisHost : header.serializer.isHost = true := by
      rw [hform] at hhost
      revert hhost
      show Tier.ofSerializer (some header.serializer) = .host → _
      cases header.serializer <;> decide
    simp only [Option.map_some, hisHost, if_true]
    refine (spillFrames_transfers (R := fun r q => r = p ∧ q = p.setForm (.serialized (.disk
      (m.spill.nextHeader header content false)))) h hfind hnot header content false
      ⟨rfl, rfl⟩).mono_ok ?_
    rintro - m' ⟨htransferred, hspill⟩
    rw [m.spill.prepare_uncompressed] at hspill
    refine htransferred.imp ?_
    rintro r q ⟨rfl, rfl⟩
    exact .inl ⟨header, content, hform, rfl, hspill⟩
  · simp only [Option.map_some]
    refine (addToTier_transfers (R := fun r q => r = p ∧ q = p) h hfind ⟨rfl, rfl⟩ hnot hfind
      (fun _ _ => rfl) rfl).of_never ?_
    rintro - m' ⟨htransferred, hspill⟩
    refine htransferred.imp ?_
    rintro r q ⟨rfl, rfl⟩
    exact .inr ⟨⟨disk, hform⟩, rfl, hspill⟩

theorem demoteToDisk_transfers (h : m.manager.Exact)
    (hfind : m.proxies.find? id = some (.object p)) (hhost : p.form.tier = .host)
    (hnot : ¬ m.manager.Tracks .disk id) :
    Ends (demoteToDisk id) m (fun _ m' => Transferred ObjectProxy.ToDisk m m' [id] .disk)
      (fun _ m' => m' = m.passOver ∧ ¬ m.spill.Writable) :=
  (demoteToDisk_files h hfind hhost hnot).mono_ok fun _ _ htransferred =>
    htransferred.imp fun _ _ hfiled => hfiled.inFile.toDisk

/-- A proxy that exists can be tracked in any tier. -/
theorem addToTier_succeeds (h : m.manager.Exact) {r : Proxy T} (hfind : m.proxies.find? id = some r)
    (tier : Tier) : Ends (addToTier id tier) m (fun _ _ => True) Never := by
  obtain ⟨new, hnew, -, -⟩ := Manager.exact_addToTier h id (Spillable.report r) tier
  rw [addToTier, Ends.bind_iff, proxy_iff hfind, onManager_iff_of_ok hnew]
  trivial

/-- A proxy that is in a file already can always be tracked on disk. -/
theorem demoteToDisk_spilled_ends (h : m.manager.Exact) {disk : DiskHeader}
    (hfind : m.proxies.find? id = some (.object p))
    (hspilled : p.form = .serialized (.disk disk)) :
    Ends (demoteToDisk id) m (fun _ _ => True) Never := by
  simp only [demoteToDisk, Ends.bind_iff, proxy_iff hfind, snapshot?_object, ObjectProxy.payload?,
    hspilled, Option.map_some]
  exact addToTier_succeeds h hfind .disk

/-- A live proxy that does not go to disk has no frames, or its file was refused. In the second case
it is left with its object in frames, while the books stay as they were. -/
theorem demoteToDisk_live_ends (h : m.manager.Exact) {a : T}
    (hfind : m.proxies.find? id = some (.object p)) (hlive : p.form = .live a)
    (hnot : ¬ m.manager.Tracks .disk id) :
    Ends (demoteToDisk id) m (fun _ _ => True)
      (fun _ m' => m' = m.put id p ∧ (∀ frames, DeviceObject.toFrames a ≠ .ok frames) ∨
        ∃ frames, DeviceObject.toFrames a = .ok frames ∧
          m' = (m.put id (p.framed a frames)).passOver ∧ ¬ m.spill.Writable) := by
  simp only [demoteToDisk, Ends.bind_iff, proxy_iff hfind, snapshot?_object, ObjectProxy.payload?,
    hlive, Option.map_none]
  rw [serialize_iff hfind]
  refine (ObjectProxy.serialize_live_ends hlive m.spill.volume).mono ?_ ?_
  · rintro - r ⟨frames, hframes, rfl⟩
    have hself := find?_put_self m id (p.framed a frames)
    -- From here on it is a proxy with frames like any other.
    refine (proxy_iff hself).2 ?_
    simp only [snapshot?_object, ObjectProxy.payload?, ObjectProxy.framed, ObjectProxy.setForm,
      Option.map_some]
    refine (spillFrames_transfers (R := fun _ _ => True) (m := m.put id (p.framed a frames)) h hself
      hnot _ _ true trivial).mono (fun _ _ _ => trivial) ?_
    rintro e m' ⟨rfl, hwritable⟩
    exact .inr ⟨frames, hframes, rfl, hwritable⟩
  · rintro e r ⟨rfl, hnone⟩
    exact .inl ⟨rfl, hnone⟩

/-! ### Evictions -/

section

variable {demote : ProxyId → Action (Proxy T) Unit} {P : ObjectProxy T → Prop}
  {bad : Failure → Memory (Proxy T) → Prop}

/-- Proxies change tiers one after the other, each of them once. What has been made of them may
depend on the memory, as long as later steps leave it so. -/
theorem forM_transfers (made : Memory (Proxy T) → ObjectProxy T → ObjectProxy T → Prop)
    (inv : Memory (Proxy T) → Prop) (h : m.manager.Exact) (hinv : inv m) (hnodup : ids.Nodup)
    (hids : ∀ id ∈ ids,
      (∃ p, m.proxies.find? id = some (.object p) ∧ P p) ∧ ¬ m.manager.Tracks tier id)
    (hdemote : ∀ {t : Memory (Proxy T)} {id p}, t.manager.Exact → inv t →
      t.proxies.find? id = some (.object p) → P p → ¬ t.manager.Tracks tier id →
        Ends (demote id) t (fun _ t' => inv t' ∧ Transferred (made t') t t' [id] tier ∧
          ∀ p q, made t p q → made t' p q) bad) :
    Ends (ids.forM demote) m (fun _ m' => inv m' ∧ Transferred (made m') m m' ids tier) bad := by
  -- The ones that are done have changed tiers, and the next one is none of them.
  refine Ends.forM_prefix (fun done t => inv t ∧ Transferred (made t) m t done tier) _
    (fun done id rest hlist t ht => ?_) ⟨hinv, .refl h tier⟩
  obtain ⟨ht, hdone⟩ := ht
  have hfresh : id ∉ done := by
    rw [hlist, List.nodup_append] at hnodup
    exact fun hmem => hnodup.2.2 id hmem id List.mem_cons_self rfl
  have hmem : id ∈ ids := by
    rw [hlist]
    exact List.mem_append_right done List.mem_cons_self
  obtain ⟨⟨p, hfind, hfit⟩, hnot⟩ := hids id hmem
  rw [← hdone.find?_eq id hfresh] at hfind
  rw [← hdone.tracks_iff_of_not_mem hfresh] at hnot
  refine (hdemote hdone.exact ht hfind hfit hnot).mono_ok fun _ t' ⟨ht', hmoved, hstays⟩ => ?_
  refine ⟨ht', (hdone.imp hstays).trans hmoved fun other hother => ?_⟩
  rwa [List.mem_singleton.1 hother]

/-- The victims of a plan change tiers one after the other. -/
theorem evict_transfers (h : m.manager.Exact) {units : List EvictionUnit} {nbytes : ℕ}
    (hvictims : ∀ id ∈ (EvictionPlan.make units nbytes).victims,
      (∃ p, m.proxies.find? id = some (.object p) ∧ P p) ∧ ¬ m.manager.Tracks tier id)
    (hdemote : ∀ {t : Memory (Proxy T)} {id p}, t.manager.Exact →
      t.proxies.find? id = some (.object p) → P p → ¬ t.manager.Tracks tier id →
        Ends (demote id) t (fun _ t' => Transferred R t t' [id] tier) bad) :
    Ends (evict nbytes units demote) m
      (fun freed m' => freed = (EvictionPlan.make units nbytes).freed ∧
        Transferred R m m' (EvictionPlan.make units nbytes).victims tier) bad := by
  rw [evict, Ends.bind_iff]
  refine (forM_transfers (fun _ => R) (fun _ => True) h trivial
    (EvictionPlan.nodup_victims units nbytes) hvictims fun ht _ hfind hfit hnot => ?_).mono_ok
      fun _ _ hmoved => ⟨rfl, hmoved.2⟩
  exact (hdemote ht hfind hfit hnot).mono_ok fun _ _ hmoved => ⟨trivial, hmoved, fun _ _ => id⟩

end

/-- Only live proxies are offered by the device, since what is serialized refers to no allocation.
-/
theorem exists_live_of_mem_units {u : EvictionUnit} (hu : u ∈ m.units .device)
    (hid : id ∈ u.proxies)
    (hfind : m.proxies.find? id = some (.object p)) : ∃ a, p.form = .live a := by
  obtain ⟨b, -, rfl⟩ := List.mem_map.1 (show u ∈ m.deviceBufferIds.map m.deviceUnit from hu)
  obtain ⟨-, r, hr, hb⟩ := (mem_proxies_deviceUnit_iff m b id).1 hid
  rw [hfind] at hr
  cases hr
  change b ∈ p.deviceBuffers.map DeviceBuffer.id at hb
  rw [ObjectProxy.deviceBuffers] at hb
  rcases hform : p.form with a | payload
  · exact ⟨a, rfl⟩
  · rw [hform] at hb
    cases hb

/-- The device offers live proxies, which are not tracked on the host. -/
theorem Settled.evictable_device (h : m.Settled) {u : EvictionUnit} (hu : u ∈ m.units .device)
    (hid : id ∈ u.proxies) :
    (∃ p, m.proxies.find? id = some (.object p) ∧ ∃ a, p.form = .live a) ∧
      ¬ m.manager.Tracks .host id := by
  obtain ⟨htracks, -⟩ := tracks_of_mem_units hu hid
  obtain ⟨p, hfind, -⟩ := (h.settledIn .device).exists_object htracks
  exact ⟨⟨p, hfind, exists_live_of_mem_units hu hid hfind⟩,
    h.exact.not_tracks htracks (by decide)⟩

/-- The host offers proxies in a form of the host, which are not tracked on disk. -/
theorem SettledIn.evictable_host (h : m.SettledIn .host) (hexact : m.manager.Exact)
    {u : EvictionUnit} (hu : u ∈ m.units .host) (hid : id ∈ u.proxies) :
    (∃ p, m.proxies.find? id = some (.object p) ∧ p.form.tier = .host) ∧
      ¬ m.manager.Tracks .disk id := by
  obtain ⟨htracks, -⟩ := tracks_of_mem_units hu hid
  obtain ⟨p, hfind, -, htier, -⟩ := h.exists_object htracks
  exact ⟨⟨p, hfind, htier⟩, hexact.not_tracks htracks (by decide)⟩

/-- Victims from the device are serialized and arrive on the host. -/
theorem Settled.evictToHost_transfers (h : m.Settled) (nbytes : ℕ) :
    Ends (evict nbytes (m.units .device) demoteToHost) m
      (fun freed m' => freed = (EvictionPlan.make (m.units .device) nbytes).freed ∧
        Transferred ObjectProxy.ToHost m m'
          (EvictionPlan.make (m.units .device) nbytes).victims .host)
      (fun _ _ => True) := by
  refine evict_transfers (P := fun p => ∃ a, p.form = .live a) h.exact (fun id hid => ?_) ?_
  · obtain ⟨u, hu, hmem⟩ := EvictionPlan.exists_of_mem_victims hid
    exact h.evictable_device hu hmem
  · rintro t id p ht hfind ⟨a, hlive⟩ hnot
    exact (demoteToHost_transfers ht hfind hlive hnot).mono (fun _ _ => And.left)
      fun _ _ _ => trivial

/-- An eviction from the device succeeds if its victims can be put into frames, and touches no
file. -/
theorem Settled.evictToHost_files (h : m.Settled) {nbytes : ℕ}
    (hframes : ∀ id ∈ (EvictionPlan.make (m.units .device) nbytes).victims, m.HasFrames id) :
    ∃ m', evict nbytes (m.units .device) demoteToHost m =
        .ok (EvictionPlan.make (m.units .device) nbytes).freed m' ∧
      Transferred ObjectProxy.ToHost m m'
        (EvictionPlan.make (m.units .device) nbytes).victims .host ∧ m'.spill = m.spill := by
  have hends : Ends (evict nbytes (m.units .device) demoteToHost) m
      (fun freed m' => freed = (EvictionPlan.make (m.units .device) nbytes).freed ∧
        m'.spill = m.spill ∧ Transferred ObjectProxy.ToHost m m'
          (EvictionPlan.make (m.units .device) nbytes).victims .host) Never := by
    rw [evict, Ends.bind_iff]
    refine (forM_transfers (fun _ => ObjectProxy.ToHost) (fun t => t.spill = m.spill)
      (P := fun p => ∃ a frames, p.form = .live a ∧ DeviceObject.toFrames a = .ok frames)
      h.exact rfl (EvictionPlan.nodup_victims _ _) (fun id hid => ?_) ?_).mono_ok
        fun _ _ hmoved => ⟨rfl, hmoved⟩
    · obtain ⟨p, a, frames, hfind, hlive, hsome⟩ := hframes id hid
      have htracks : m.manager.Tracks .device id := tracks_of_mem_victims hid
      exact ⟨⟨p, hfind, a, frames, hlive, hsome⟩, h.exact.not_tracks htracks (by decide)⟩
    · rintro t id p ht hspill hfind ⟨a, frames, hlive, hsome⟩ hnot
      refine (demoteToHost_transfers ht hfind hlive hnot).mono ?_ fun _ _ hnone =>
        hnone.2 frames hsome
      rintro - t' ⟨hmoved, hkept⟩
      exact ⟨hkept.trans hspill, hmoved, fun _ _ hmade => hmade⟩
  obtain ⟨freed, m', hrun, rfl, hspill, htransferred⟩ := hends.exists_ok fun _ _ => id
  exact ⟨m', hrun, htransferred, hspill⟩

/-- Proxies of the host that go to disk one after the other have a file each, unless one is refused.
-/
theorem forM_demoteToDisk_files (h : m.manager.Exact) (hnodup : ids.Nodup)
    (hids : ∀ id ∈ ids, (∃ p, m.proxies.find? id = some (.object p) ∧ p.form.tier = .host) ∧
      ¬ m.manager.Tracks .disk id) :
    Ends (ids.forM demoteToDisk) m
      (fun _ m' => (m'.spill.Writable ↔ m.spill.Writable) ∧
        Transferred (ObjectProxy.InFile m'.spill) m m' ids .disk)
      (fun _ _ => ¬ m.spill.Writable) := by
  refine forM_transfers (fun t => ObjectProxy.InFile t.spill)
    (fun t => t.spill.Writable ↔ m.spill.Writable) h Iff.rfl hnodup hids ?_
  intro t id p ht hwritable hfind hhost hnot
  refine (demoteToDisk_files ht hfind hhost hnot).mono (fun _ t' hmoved => ?_) ?_
  · obtain ⟨r, q, -, -, hfiled, -⟩ := hmoved.changed id List.mem_cons_self
    exact ⟨hfiled.writable_iff.trans hwritable, hmoved.imp fun _ _ => ObjectProxy.Filed.inFile,
      fun _ _ hkept => hkept.of_filed hfiled⟩
  · rintro e t' ⟨-, hrefused⟩
    rwa [hwritable] at hrefused

/-- Victims from the host are written to files and arrive on disk, unless a file is refused. -/
theorem SettledIn.evictToDisk_files (h : m.SettledIn .host) (hexact : m.manager.Exact)
    (nbytes : ℕ) :
    Ends (evict nbytes (m.units .host) demoteToDisk) m
      (fun freed m' => freed = (EvictionPlan.make (m.units .host) nbytes).freed ∧
        Transferred (ObjectProxy.InFile m'.spill) m m'
          (EvictionPlan.make (m.units .host) nbytes).victims .disk)
      (fun _ _ => ¬ m.spill.Writable) := by
  rw [evict, Ends.bind_iff]
  refine (forM_demoteToDisk_files hexact (EvictionPlan.nodup_victims _ _) fun id hid => ?_).mono_ok
    fun _ _ hmoved => ⟨rfl, hmoved.2⟩
  obtain ⟨u, hu, hmem⟩ := EvictionPlan.exists_of_mem_victims hid
  exact h.evictable_host hexact hu hmem

theorem SettledIn.evictToDisk_transfers (h : m.SettledIn .host) (hexact : m.manager.Exact)
    (nbytes : ℕ) :
    Ends (evict nbytes (m.units .host) demoteToDisk) m
      (fun freed m' => freed = (EvictionPlan.make (m.units .host) nbytes).freed ∧
        Transferred ObjectProxy.ToDisk m m'
          (EvictionPlan.make (m.units .host) nbytes).victims .disk)
      (fun _ _ => True) :=
  (h.evictToDisk_files hexact nbytes).mono
    (fun _ _ hmoved => ⟨hmoved.1, hmoved.2.imp fun _ _ => ObjectProxy.InFile.toDisk⟩)
    fun _ _ _ => trivial

/-! ### The books after a transfer -/

section

variable {t : Tier} {size : BufferId → ℕ} {b : BufferId}

/-- Records that were up to date still are. -/
theorem Transferred.recorded (h : Transferred R m m' ids tier) (hm : m.Recorded t) :
    m'.Recorded t := by
  intro id htracks
  by_cases hid : id ∈ ids
  · rw [h.tracks_iff, if_pos hid] at htracks
    obtain ⟨p, q, -, hq, -, hrecords⟩ := h.changed id hid
    rw [htracks, hq]
    exact hrecords
  · rw [h.tracks_iff_of_not_mem hid] at htracks
    rw [h.records_iff t id _ hid, h.find?_eq id hid]
    exact hm id htracks

/-- A tier that proxies leave is settled if it was. -/
theorem Transferred.settledIn (h : Transferred R m m' ids tier) (hm : m.SettledIn t)
    (ht : t ≠ tier) : m'.SettledIn t := by
  intro id htracks
  rw [h.tracks_iff] at htracks
  split at htracks
  next => exact absurd htracks ht
  next hid =>
    obtain ⟨p, hfind, hattached, htier, hrecords⟩ := hm id htracks
    exact ⟨p, (h.find?_eq id hid).trans hfind, hattached, htier,
      (h.records_iff t id _ hid).2 hrecords⟩

/-- The memory is settled if it was, and if the proxies are attached and in forms that go with the
tier. -/
theorem Transferred.settled_of_attached (h : Transferred R m m' ids tier) (hm : m.Settled)
    (hR : ∀ id ∈ ids, ∀ p q, m.proxies.find? id = some (.object p) → R p q →
      q.form.tier = tier ∧ q.isAttached = true) : m'.Settled where
  exact := h.exact
  settledIn t := by
    by_cases ht : t = tier
    · subst ht
      intro id htracks
      by_cases hid : id ∈ ids
      · obtain ⟨p, q, hp, hq, hchanged, hrecords⟩ := h.changed id hid
        obtain ⟨htier, hattached⟩ := hR id hid p q hp hchanged
        exact ⟨.object q, hq, hattached, (Proxy.tier_object q).trans htier, hrecords⟩
      · rw [h.tracks_iff_of_not_mem hid] at htracks
        obtain ⟨p, hfind, hattached, htier, hrecords⟩ := hm.settledIn t id htracks
        exact ⟨p, (h.find?_eq id hid).trans hfind, hattached, htier,
          (h.records_iff t id _ hid).2 hrecords⟩
    · exact h.settledIn (hm.settledIn t) ht

/-- So it is if the proxies were tracked before, and stay attached. -/
theorem Transferred.settled (h : Transferred R m m' ids tier) (hm : m.Settled)
    (htracked : ∀ id ∈ ids, ∃ t, m.manager.Tracks t id)
    (hR : ∀ p q, R p q → q.form.tier = tier ∧ q.isAttached = p.isAttached) : m'.Settled := by
  refine h.settled_of_attached hm fun id hid p q hp hchanged => ?_
  -- It was tracked somewhere, so it was attached, and it still is.
  obtain ⟨old, hold⟩ := htracked id hid
  obtain ⟨r, hr, hattached, -, -⟩ := (hm.settledIn old).exists_object hold
  rw [hp] at hr
  cases hr
  obtain ⟨htier, hkept⟩ := hR p q hchanged
  exact ⟨htier, hkept.trans hattached⟩

/-- A settled memory is settled when an eviction has moved proxies from the device to the host. -/
theorem Transferred.settled_of_toHost {nbytes : ℕ}
    (h : Transferred ObjectProxy.ToHost m m'
      (EvictionPlan.make (m.units .device) nbytes).victims .host)
    (hm : m.Settled) : m'.Settled :=
  h.settled hm (fun _ hid => ⟨.device, tracks_of_mem_victims hid⟩) fun _ _ hmoved =>
    ⟨hmoved.tier_eq, hmoved.isAttached_eq⟩

theorem Transferred.refers (h : Transferred R m m' ids tier) (htier : tier ≠ .device)
    (hrefers : m'.Refers id b) : m.Refers id b ∧ id ∉ ids :=
  hrefers.of_moved h.find?_eq h.tracks_iff htier

/-- Allocations have the sizes that they had, if none comes to the device. -/
theorem Transferred.sizedBy (h : Transferred R m m' ids tier) (htier : tier ≠ .device)
    (hm : m.SizedBy size) : m'.SizedBy size where
  counted b n hn := hm.counted b n (h.counted .device htier.symm b n hn)
  reports := by
    intro id p htracks hfind
    rw [h.tracks_iff] at htracks
    split at htracks
    next => exact absurd htracks htier.symm
    next hid => exact hm.reports id p htracks ((h.find?_eq id hid).symm.trans hfind)

/-- The tier that proxies leave has the bytes less that they had there. -/
theorem Transferred.usage_source (h : Transferred R m m' ids tier) (hexact : m.manager.Exact)
    (hm : m.Recorded t) (hdevice : t ≠ .device) (ht : t ≠ tier)
    (hids : ∀ id ∈ ids, m.manager.Tracks t id) :
    m'.manager.usage t + ∑ id ∈ ids.toFinset, (m.proxies.find? id).elim 0 Spillable.size =
      m.manager.usage t := by
  -- The proxies that stay are as they were, so they have their sizes.
  have hentries : (m'.manager.registry t).entries.toFinset =
      (m.manager.registry t).entries.toFinset \ ids.toFinset := by
    ext id
    rw [Finset.mem_sdiff, List.mem_toFinset, List.mem_toFinset, List.mem_toFinset]
    show m'.manager.Tracks t id ↔ m.manager.Tracks t id ∧ id ∉ ids
    rw [h.tracks_iff]
    by_cases hid : id ∈ ids <;> simp [hid, ht]
  have hsubset : ids.toFinset ⊆ (m.manager.registry t).entries.toFinset := fun id hid =>
    List.mem_toFinset.2 (hids id (List.mem_toFinset.1 hid))
  rw [(h.recorded hm).usage_eq_sum h.exact hdevice, hm.usage_eq_sum hexact hdevice, hentries,
    ← Finset.sum_sdiff hsubset]
  refine congrArg (· + _) (Finset.sum_congr rfl fun id hid => ?_)
  rw [h.find?_eq id fun hmem => (Finset.mem_sdiff.1 hid).2 (List.mem_toFinset.2 hmem)]

/-- The tier that proxies come to has the bytes more that they have there. -/
theorem Transferred.usage_target (h : Transferred R m m' ids tier) (hexact : m.manager.Exact)
    (hm : m.Recorded tier) (hdevice : tier ≠ .device)
    (hids : ∀ id ∈ ids, ¬ m.manager.Tracks tier id) :
    m'.manager.usage tier =
      m.manager.usage tier +
        ∑ id ∈ ids.toFinset, (m'.proxies.find? id).elim 0 Spillable.size := by
  have hentries : (m'.manager.registry tier).entries.toFinset =
      (m.manager.registry tier).entries.toFinset ∪ ids.toFinset := by
    ext id
    rw [Finset.mem_union, List.mem_toFinset, List.mem_toFinset, List.mem_toFinset]
    show m'.manager.Tracks tier id ↔ m.manager.Tracks tier id ∨ id ∈ ids
    rw [h.tracks_iff]
    by_cases hid : id ∈ ids <;> simp [hid]
  have hdisjoint : Disjoint (m.manager.registry tier).entries.toFinset ids.toFinset := by
    rw [Finset.disjoint_left]
    exact fun id hold hid => hids id (List.mem_toFinset.1 hid) (List.mem_toFinset.1 hold)
  rw [(h.recorded hm).usage_eq_sum h.exact hdevice, hm.usage_eq_sum hexact hdevice, hentries,
    Finset.sum_union hdisjoint]
  refine congrArg (· + _) (Finset.sum_congr rfl fun id hid => ?_)
  rw [h.find?_eq id (Finset.disjoint_left.1 hdisjoint hid ∘ List.mem_toFinset.2)]

end

end Memory

end TieredStore
