import TieredStore.Proofs.Accounting
import TieredStore.Proofs.Memory.Transfer

/-!
# Evictions that fail midway

An eviction demotes its victims one after the other, and gives up at the first that cannot be moved:
its object has no frames, or its file is refused. The victims before it have moved with all that
belongs to that, and neither it nor the ones after it have been touched. So the books still agree
with the proxies.

* `evict_eq_error_iff`: an eviction fails where one of its demotions does.
* `Memory.NamesFiles`: what the headers of spill files say of themselves.
* `Memory.Stopped`: what an eviction leaves when it gives up.
* `evict_stopped`: evictions from the device and from the host.
-/

namespace TieredStore

/-- An eviction fails where the demotion of a victim does, once those before it have succeeded. -/
theorem evict_eq_error_iff {ε σ : Type} {nbytes : ℕ} {units : List EvictionUnit}
    {demote : ProxyId → EStateM ε σ Unit} {s s' : σ} {e : ε} :
    evict nbytes units demote s = .error e s' ↔
      ∃ done id rest t, (EvictionPlan.make units nbytes).victims = done ++ id :: rest ∧
        done.forM demote s = .ok () t ∧ demote id t = .error e s' := by
  rw [← forM_eq_error_iff]
  show EStateM.bind ((EvictionPlan.make units nbytes).victims.forM demote) _ s = _ ↔ _
  rw [EStateM.bind]
  -- Nothing can fail once all victims have moved.
  cases (EvictionPlan.make units nbytes).victims.forM demote s with
  | ok a t => exact iff_of_false (fun h => by cases h) fun h => by cases h
  | error e' t => simp only [EStateM.Result.error.injEq]

/-- Of two steps that do not both succeed the second one fails if the first one does not. -/
theorem exists_error_of_pair {ε σ ι : Type} {step : ι → EStateM ε σ PUnit} {i j : ι} {s : σ}
    (hfirst : ((step i).run' s).isSome = true)
    (hboth : (EStateM.run' ([i, j].forM step) s).isNone = true) :
    ∃ t e u, [i].forM step s = .ok ⟨⟩ t ∧ step j t = .error e u := by
  obtain ⟨_, t, hdone⟩ := exists_ok_of_isSome hfirst
  obtain ⟨e, u, hfail⟩ := exists_error_of_isNone hboth
  refine ⟨t, e, u, ?_, ?_⟩
  · rw [forM_cons_apply, hdone]
    rfl
  · rw [forM_cons_apply, hdone] at hfail
    dsimp only at hfail
    rw [forM_cons_apply] at hfail
    cases hsecond : step j t with
    | ok a v =>
      rw [hsecond] at hfail
      cases hfail
    | error e' v =>
      rw [hsecond] at hfail
      exact hfail

namespace Store

/-- A store with two arrays on the host, where the next file can be written and the one after it
cannot. -/
def crampedStore : Store DeviceArray :=
  (Op.setDirectory true [⟨"/tmp/spilled-data-0-2"⟩] false true).after loweredStore

theorem run_crampedStore : Run narrowSettings Op.Spares [smallArray, otherArray] crampedStore :=
  run_loweredStore.spares.step (.setDirectory true [⟨"/tmp/spilled-data-0-2"⟩] false true) trivial
    trivial

end Store

namespace ObjectProxy

variable {T : Type} {d : SpillDirectory} {p q : ObjectProxy T}

theorem Written.tier_eq (h : Written d p q) : q.form.tier = .disk := by
  obtain ⟨header, content, disk, -, rfl, hserializer, -⟩ := h
  exact Form.tier_disk hserializer

theorem Written.isAttached_eq (h : Written d p q) : q.isAttached = p.isAttached := by
  obtain ⟨header, content, disk, -, rfl, -⟩ := h
  rfl

/-- A number that is passed over makes no difference to the files that are there. -/
theorem Written.passOver (h : Written d p q) :
    Written { d with counter := d.counter + 1 } p q := by
  obtain ⟨header, content, disk, hform, hq, hserializer, hsub, hsize, ⟨n, hn, hpath⟩, hfile⟩ := h
  exact ⟨header, content, disk, hform, hq, hserializer, hsub, hsize,
    ⟨n, Nat.le_succ_of_le hn, hpath⟩, hfile⟩

end ObjectProxy

namespace Memory

section

variable {T : Type} [DeviceObject T] {m m' t : Memory (Proxy T)} {id : ProxyId}
  {source target : Tier} {done rest : List ProxyId} {nbytes : ℕ} {e : Failure}
  {made : ObjectProxy T → ObjectProxy T → Prop}

/-- The header of every spill file names the family of spill files. -/
def NamesFiles (m : Memory (Proxy T)) : Prop :=
  ∀ id p disk, m.proxies.find? id = some (.object p) → p.form = .serialized (.disk disk) →
    disk.serializer = .disk

/-- What is left when some victims have moved from one tier to another and the next one could not.
-/
structure Stopped (made : ObjectProxy T → ObjectProxy T → Prop) (m m' : Memory (Proxy T))
    (source target : Tier) (done rest : List ProxyId) : Prop where
  /-- Those that are done are in the other tier and have changed as they should. -/
  moved : ∀ id ∈ done, m'.manager.Tracks target id ∧ ∃ p q,
    m.proxies.find? id = some (.object p) ∧ m'.proxies.find? id = some (.object q) ∧ made p q
  /-- The others are where they were, as they were. -/
  waiting : ∀ id ∈ rest, m'.manager.Tracks source id ∧
    m'.proxies.find? id = m.proxies.find? id
  /-- No proxy has changed that is not one of those that are done. -/
  find?_eq : ∀ id, id ∉ done → m'.proxies.find? id = m.proxies.find? id
  /-- All but these are where they were. -/
  tracks_iff : ∀ id, id ∉ done → ∀ tier, m'.manager.Tracks tier id ↔ m.manager.Tracks tier id
  /-- The books agree with the proxies. -/
  settled : m'.Settled
  /-- A check of the books finds nothing. -/
  validate_eq : validate m' = .ok () m'
  /-- The tallies are what comes out of the proxies. On the device this takes allocations with sizes
  that all agree on. -/
  usage_eq : ∀ size tier, (tier = .device → m.SizedBy size) →
    m'.manager.usage tier = m'.reckoned size tier

/-- A demotion that changes neither proxies nor books stops an eviction cleanly. -/
theorem Transferred.stopped (htransferred : Transferred made m t done target) (hm : m.Settled)
    (htarget : target ≠ .device) (hnodup : (done ++ rest).Nodup)
    (hsource : ∀ id ∈ done ++ rest, m.manager.Tracks source id)
    (hmade : ∀ p q, made p q → q.form.tier = target ∧ q.isAttached = p.isAttached)
    (hmanager : m'.manager = t.manager)
    (hfind : ∀ id, m'.proxies.find? id = t.proxies.find? id) :
    Stopped made m m' source target done rest := by
  have hsettled : m'.Settled := by
    refine Settled.congr (htransferred.settled hm (fun id hid => ?_) hmade) hmanager hfind
    exact ⟨source, hsource id (List.mem_append_left rest hid)⟩
  have hwaiting : ∀ id ∈ rest, id ∉ done := fun id hrest hdone =>
    (List.nodup_append.1 hnodup).2.2 id hdone id hrest rfl
  refine ⟨fun id hid => ⟨?_, ?_⟩, fun id hid => ⟨?_, ?_⟩, fun id hid => ?_, fun id hid tier => ?_,
    hsettled, hsettled.validate_eq, fun size tier hsize => ?_⟩
  · rw [hmanager, htransferred.tracks_iff, if_pos hid]
  · obtain ⟨p, q, hp, hq, hchanged, -⟩ := htransferred.changed id hid
    exact ⟨p, q, hp, (hfind id).trans hq, hchanged⟩
  · rw [hmanager, htransferred.tracks_iff_of_not_mem (hwaiting id hid)]
    exact hsource id (List.mem_append_right done hid)
  · rw [hfind, htransferred.find?_eq id (hwaiting id hid)]
  · rw [hfind, htransferred.find?_eq id hid]
  · rw [hmanager, htransferred.tracks_iff_of_not_mem hid]
  · refine (hsettled.settledIn tier).usage_eq_of_sized hsettled.exact fun hdevice => ?_
    -- None of the victims comes to the device, so the sizes there are those of before.
    rw [hmanager]
    exact (htransferred.sizedBy htarget (hsize hdevice)).counted

/-! ### Evictions from the device -/

/-- Victims that have been demoted from the device are on the host. -/
theorem Settled.forM_demoteToHost (h : m.Settled)
    (hvictims : (EvictionPlan.make (m.units .device) nbytes).victims = done ++ rest) :
    Ends (done.forM demoteToHost) m
      (fun _ t => Transferred ObjectProxy.ToHost m t done .host) fun _ _ => True := by
  have hnodup := EvictionPlan.nodup_victims (m.units .device) nbytes
  rw [hvictims] at hnodup
  refine (forM_transfers (P := fun p => ∃ a, p.form = .live a) (fun _ => ObjectProxy.ToHost)
    (fun _ => True) h.exact trivial hnodup.of_append_left (fun id hid => ?_) ?_).mono_ok
      fun _ _ hmoved => hmoved.2
  · have hid : id ∈ (EvictionPlan.make (m.units .device) nbytes).victims := by
      rw [hvictims]
      exact List.mem_append_left rest hid
    obtain ⟨u, hu, hmem⟩ := EvictionPlan.exists_of_mem_victims hid
    exact h.evictable_device hu hmem
  · rintro t id p ht - hfind ⟨a, hlive⟩ hnot
    exact (demoteToHost_transfers ht hfind hlive hnot).mono
      (fun _ _ hmoved => ⟨trivial, hmoved.1, fun _ _ hkept => hkept⟩) fun _ _ _ => trivial

/-- A victim that cannot be put into frames stops an eviction from the device. -/
theorem Settled.stopped_device (h : m.Settled)
    (hvictims : (EvictionPlan.make (m.units .device) nbytes).victims = done ++ id :: rest)
    (hdone : done.forM demoteToHost m = .ok () t) (hfail : demoteToHost id t = .error e m') :
    ¬ m.HasFrames id ∧ Stopped ObjectProxy.ToHost m m' .device .host done (id :: rest) := by
  have htransferred := (h.forM_demoteToHost hvictims).of_ok hdone
  have hnodup := EvictionPlan.nodup_victims (m.units .device) nbytes
  have htracks : ∀ v ∈ done ++ id :: rest, m.manager.Tracks .device v := by
    rw [← hvictims]
    exact fun v => tracks_of_mem_victims
  have hmem : id ∈ (EvictionPlan.make (m.units .device) nbytes).victims := by
    rw [hvictims]
    exact List.mem_append_right done List.mem_cons_self
  rw [hvictims] at hnodup
  have hfresh : id ∉ done := fun hid =>
    (List.nodup_append.1 hnodup).2.2 id hid id List.mem_cons_self rfl
  -- The victim is as it was when the eviction started.
  obtain ⟨u, hu, hid⟩ := EvictionPlan.exists_of_mem_victims hmem
  obtain ⟨⟨p, hfind, a, hlive⟩, hnot⟩ := h.evictable_device hu hid
  have hfind' := (htransferred.find?_eq id hfresh).trans hfind
  rw [← htransferred.tracks_iff_of_not_mem hfresh] at hnot
  obtain ⟨rfl, hnone⟩ :=
    (demoteToHost_transfers htransferred.exact hfind' hlive hnot).of_error hfail
  refine ⟨?_, htransferred.stopped h (by decide) hnodup htracks
    (fun p q hmade => ⟨hmade.tier_eq, hmade.isAttached_eq⟩) rfl (find?_put_same hfind')⟩
  rintro ⟨q, b, frames, hq, hb, hframes⟩
  rw [hfind] at hq
  cases hq
  rw [hlive] at hb
  cases hb
  exact hnone frames hframes

/-! ### Evictions from the host -/

/-- What is tracked on the host has frames in memory, if headers of files name their family. -/
theorem SettledIn.exists_frames (h : m.SettledIn .host) (hfiles : m.NamesFiles)
    (htracks : m.manager.Tracks .host id) {p : ObjectProxy T}
    (hfind : m.proxies.find? id = some (.object p)) :
    ∃ header content, p.form = .serialized (.frames header content) := by
  have htier := h.tier_eq htracks hfind
  rcases hform : p.form with a | (⟨header, content⟩ | disk)
  · rw [hform] at htier
    cases htier
  · exact ⟨header, content, rfl⟩
  · rw [hform, Form.tier_disk (hfiles id p disk hfind hform)] at htier
    cases htier

/-- What comes from the host was not in a file before, so it has been written to one. -/
theorem Transferred.written {d : SpillDirectory} {ids : List ProxyId}
    (h : Transferred (ObjectProxy.InFile d) m m' ids .disk) (hm : m.Settled) (hfiles : m.NamesFiles)
    (hids : ∀ id ∈ ids, m.manager.Tracks .host id) :
    Transferred (ObjectProxy.Written d) m m' ids .disk := by
  refine h.imp_of_mem fun id hid p q hp hmade => hmade.resolve_right ?_
  rintro ⟨⟨disk, hdisk⟩, -⟩
  obtain ⟨header, content, hform⟩ := (hm.settledIn .host).exists_frames hfiles (hids id hid) hp
  rw [hform] at hdisk
  cases hdisk

/-- A victim whose file is refused stops an eviction from the host. -/
theorem Settled.stopped_host (h : m.Settled) (hfiles : m.NamesFiles)
    (hvictims : (EvictionPlan.make (m.units .host) nbytes).victims = done ++ id :: rest)
    (hdone : done.forM demoteToDisk m = .ok () t) (hfail : demoteToDisk id t = .error e m') :
    ¬ m.spill.Writable ∧
      Stopped (ObjectProxy.Written m'.spill) m m' .host .disk done (id :: rest) := by
  have hnodup := EvictionPlan.nodup_victims (m.units .host) nbytes
  have htracks : ∀ v ∈ done ++ id :: rest, m.manager.Tracks .host v := by
    rw [← hvictims]
    exact fun v => tracks_of_mem_victims
  have hevictable : ∀ v ∈ done ++ id :: rest,
      (∃ p, m.proxies.find? v = some (.object p) ∧ p.form.tier = .host) ∧
        ¬ m.manager.Tracks .disk v := by
    intro v hv
    rw [← hvictims] at hv
    obtain ⟨u, hu, hmem⟩ := EvictionPlan.exists_of_mem_victims hv
    exact (h.settledIn .host).evictable_host h.exact hu hmem
  rw [hvictims] at hnodup
  obtain ⟨hwritable, htransferred⟩ := (forM_demoteToDisk_files h.exact hnodup.of_append_left
    fun v hv => hevictable v (List.mem_append_left _ hv)).of_ok hdone
  have hfresh : id ∉ done := fun hid =>
    (List.nodup_append.1 hnodup).2.2 id hid id List.mem_cons_self rfl
  -- The victim is as it was when the eviction started.
  obtain ⟨⟨p, hfind, hhost⟩, hnot⟩ :=
    hevictable id (List.mem_append_right done List.mem_cons_self)
  rw [← htransferred.find?_eq id hfresh] at hfind
  rw [← htransferred.tracks_iff_of_not_mem hfresh] at hnot
  obtain ⟨rfl, hrefused⟩ :=
    (demoteToDisk_files htransferred.exact hfind hhost hnot).of_error hfail
  have hwritten : Transferred (ObjectProxy.Written t.passOver.spill) m t done .disk :=
    (htransferred.written h hfiles fun v hv => htracks v (List.mem_append_left _ hv)).imp
      fun _ _ hmade => hmade.passOver
  exact ⟨fun hall => hrefused (hwritable.2 hall), hwritten.stopped h (by decide) hnodup htracks
    (fun p q hmade => ⟨hmade.tier_eq, hmade.isAttached_eq⟩) rfl fun _ => rfl⟩

/-- An eviction that fails midway leaves a clean prefix. It fails exactly where the demotion of one
of its victims does, with the error of that demotion: on the device this is a victim whose object
has no frames, on the host one whose file is refused. The victims before it have moved, with their
new payloads: frames of their objects on the host, or a file with their frames on disk. It and the
victims after it have their payloads, versions and tiers still, and so have all other proxies. A
check of the books finds nothing, and the tallies are those that come out of the proxies. -/
theorem evict_stopped (h : m.Settled) (nbytes : ℕ) :
    (∀ e m', evict nbytes (m.units .device) demoteToHost m = .error e m' ↔
        ∃ done id rest t,
          (EvictionPlan.make (m.units .device) nbytes).victims = done ++ id :: rest ∧
          done.forM demoteToHost m = .ok () t ∧ demoteToHost id t = .error e m') ∧
      (∀ done id rest t e m',
        (EvictionPlan.make (m.units .device) nbytes).victims = done ++ id :: rest →
        done.forM demoteToHost m = .ok () t → demoteToHost id t = .error e m' →
          ¬ m.HasFrames id ∧ Stopped ObjectProxy.ToHost m m' .device .host done (id :: rest)) ∧
      (∀ e m', evict nbytes (m.units .host) demoteToDisk m = .error e m' ↔
        ∃ done id rest t,
          (EvictionPlan.make (m.units .host) nbytes).victims = done ++ id :: rest ∧
          done.forM demoteToDisk m = .ok () t ∧ demoteToDisk id t = .error e m') ∧
      (m.NamesFiles → ∀ done id rest t e m',
        (EvictionPlan.make (m.units .host) nbytes).victims = done ++ id :: rest →
        done.forM demoteToDisk m = .ok () t → demoteToDisk id t = .error e m' →
          ¬ m.spill.Writable ∧
            Stopped (ObjectProxy.Written m'.spill) m m' .host .disk done (id :: rest)) :=
  ⟨fun _ _ => evict_eq_error_iff, fun _ _ _ _ _ _ => h.stopped_device,
    fun _ _ => evict_eq_error_iff, fun hfiles _ _ _ _ _ _ => h.stopped_host hfiles⟩

end

/-- The directory writes no other headers. -/
theorem Sound.namesFiles {log : List DeviceArray} {m : Memory (Proxy DeviceArray)}
    (h : Sound log m) : m.NamesFiles := by
  intro id p disk hfind hform
  obtain ⟨a, -, hholds⟩ := h.exists_origin hfind
  rw [hform] at hholds
  cases hholds with
  | disk _ _ _ _ hserializer => exact hserializer

/-! ### Two evictions that stop -/

/-- An array that may be locked, and then it cannot be put into frames. -/
structure LockableArray where
  /-- The array. -/
  array : DeviceArray
  /-- Whether it is locked. -/
  isLocked : Bool

instance : DeviceObject LockableArray where
  deviceBuffers a := a.array.deviceBuffers
  nbytes a := a.array.nbytes
  toFrames a := if a.isLocked then .error (.serialization "locked") else .ok a.array.frames
  ofFrames frames := (DeviceArray.ofFrames frames).map (⟨·, false⟩)
  identity a := a.array.objectId

/-- A memory with two arrays of which nothing is tracked yet. The second one is locked. -/
def looseMemory : Memory (Proxy LockableArray) :=
  { Memory.empty (Proxy LockableArray) 50 100 Store.narrowStore.memory.spill with
    clock := 2
    nextId := 3
    proxies := (Table.empty.insert ⟨1⟩
      (.object ⟨false, .live ⟨Store.smallArray, false⟩, 0, 1, true⟩)).insert
      ⟨2⟩ (.object ⟨false, .live ⟨Store.otherArray, true⟩, 0, 2, true⟩) }

/-- The same memory once both are tracked on the device. -/
def lockedMemory : Memory (Proxy LockableArray) :=
  stateAfter ([⟨1⟩, ⟨2⟩].forM fun id => addToTier id .device) looseMemory

theorem settled_looseMemory : looseMemory.Settled where
  exact := Manager.exact_empty 50 100
  settledIn tier id htracks := by cases tier <;> cases htracks

/-- A proxy that is attached and not yet tracked can be tracked in the tier of its form. -/
theorem Settled.addToTier_ends {T : Type} [DeviceObject T] {m : Memory (Proxy T)}
    {p : ObjectProxy T} (h : m.Settled) (id : ProxyId)
    (hfind : m.proxies.find? id = some (.object p))
    (hattached : p.isAttached = true) (hnot : ¬ m.manager.Tracks p.form.tier id) :
    Ends (addToTier id p.form.tier) m
      (fun _ t => t.Settled ∧ Transferred Eq m t [id] p.form.tier) Never := by
  refine (addToTier_transfers h.exact hfind rfl hnot hfind (fun _ _ => rfl) rfl).mono_ok ?_
  rintro - t ⟨htransferred, -⟩
  refine ⟨htransferred.settled_of_attached h fun other hmem q r hq hsame => ?_, htransferred⟩
  rw [List.mem_singleton.1 hmem, hfind] at hq
  cases hq
  cases hsame
  exact ⟨rfl, hattached⟩

theorem settled_lockedMemory : lockedMemory.Settled := by
  have hfirst := settled_looseMemory.addToTier_ends ⟨1⟩ rfl rfl fun h => by cases h
  have hends : Ends ([(⟨1⟩ : ProxyId), ⟨2⟩].forM fun id => addToTier id .device) looseMemory
      (fun _ t => t.Settled) Never := by
    show Ends (addToTier ⟨1⟩ .device >>= fun _ =>
      addToTier ⟨2⟩ .device >>= fun _ => pure PUnit.unit) _ _ _
    rw [Ends.bind_iff]
    refine hfirst.mono_ok ?_
    rintro - t ⟨hsettled, htransferred⟩
    have hsecond : t.proxies.find? ⟨2⟩ = looseMemory.proxies.find? ⟨2⟩ :=
      htransferred.find?_eq ⟨2⟩ (by decide)
    have hnot : ¬ t.manager.Tracks .device ⟨2⟩ := by
      rw [htransferred.tracks_iff, if_neg (by decide)]
      exact fun h => by cases h
    rw [Ends.bind_iff]
    exact (hsettled.addToTier_ends ⟨2⟩ (hsecond.trans rfl) rfl hnot).mono_ok fun _ _ h => h.1
  obtain ⟨_, t, hrun, hsettled⟩ := hends.exists_ok fun _ _ => id
  rw [lockedMemory, stateAfter, hrun]
  exact hsettled

/-- Where the second of two arrays is locked, the first one is on the host and the second one stays
on the device. Where the second of two files is refused, the first array is on disk and the second
one stays on the host. -/
theorem evict_stopped_at_second :
    (∃ e m', evict 8 (lockedMemory.units .device) demoteToHost lockedMemory = .error e m' ∧
      m'.manager.Tracks .host ⟨1⟩ ∧ m'.manager.Tracks .device ⟨2⟩ ∧
      m'.proxies.find? ⟨2⟩ = lockedMemory.proxies.find? ⟨2⟩ ∧ validate m' = .ok () m') ∧
    ∃ e m', evict 40 (Store.crampedStore.memory.units .host) demoteToDisk
      Store.crampedStore.memory =
        .error e m' ∧
      m'.manager.Tracks .disk ⟨1⟩ ∧ m'.manager.Tracks .host ⟨2⟩ ∧
      m'.proxies.find? ⟨2⟩ = Store.crampedStore.memory.proxies.find? ⟨2⟩ ∧
      validate m' = .ok () m' := by
  have hlocked : (EvictionPlan.make (lockedMemory.units .device) 8).victims =
      [⟨1⟩] ++ ⟨2⟩ :: [] := by
    have hunits : lockedMemory.units .device = [⟨1, 4, [⟨1⟩]⟩, ⟨2, 4, [⟨2⟩]⟩] := by
      rw [show lockedMemory.units .device = _ from deviceUnits_eq_map _, deviceBufferIds,
        List.mergeSort_of_pairwise (by decide +kernel)]
      decide +kernel
    rw [hunits, EvictionPlan.make, EvictionUnit.chosen, EvictionUnit.inOrder,
      List.mergeSort_of_pairwise (by decide)]
    decide
  have hcramped : (EvictionPlan.make (Store.crampedStore.memory.units .host) 40).victims =
      [⟨1⟩] ++ ⟨2⟩ :: [] := by
    have hunits : Store.crampedStore.memory.units .host = [⟨3, 20, [⟨1⟩]⟩, ⟨3, 20, [⟨2⟩]⟩] := by
      decide +kernel
    rw [hunits, EvictionPlan.make, EvictionUnit.chosen, EvictionUnit.inOrder,
      List.mergeSort_of_pairwise (by decide)]
    decide
  constructor
  · obtain ⟨t, e, m', hdone, hfail⟩ : ∃ t e m',
        [(⟨1⟩ : ProxyId)].forM demoteToHost lockedMemory = .ok () t ∧
          demoteToHost ⟨2⟩ t = .error e m' :=
      exists_error_of_pair (by decide +kernel) (by decide +kernel)
    obtain ⟨hiff, hstopped, -⟩ := evict_stopped settled_lockedMemory 8
    obtain ⟨-, hclean⟩ := hstopped [⟨1⟩] ⟨2⟩ [] t e m' hlocked hdone hfail
    exact ⟨e, m', (hiff e m').2 ⟨_, _, _, t, hlocked, hdone, hfail⟩,
      (hclean.moved ⟨1⟩ List.mem_cons_self).1, (hclean.waiting ⟨2⟩ List.mem_cons_self).1,
      (hclean.waiting ⟨2⟩ List.mem_cons_self).2, hclean.validate_eq⟩
  · obtain ⟨t, e, m', hdone, hfail⟩ : ∃ t e m',
        [(⟨1⟩ : ProxyId)].forM demoteToDisk Store.crampedStore.memory = .ok () t ∧
          demoteToDisk ⟨2⟩ t = .error e m' :=
      exists_error_of_pair (by decide +kernel) (by decide +kernel)
    obtain ⟨-, -, hiff, hstopped⟩ := evict_stopped Store.run_crampedStore.settled 40
    have hfiles := Store.run_crampedStore.coherent.memory.toSound.namesFiles
    obtain ⟨-, hclean⟩ := hstopped hfiles [⟨1⟩] ⟨2⟩ [] t e m' hcramped hdone hfail
    exact ⟨e, m', (hiff e m').2 ⟨_, _, _, t, hcramped, hdone, hfail⟩,
      (hclean.moved ⟨1⟩ List.mem_cons_self).1, (hclean.waiting ⟨2⟩ List.mem_cons_self).1,
      (hclean.waiting ⟨2⟩ List.mem_cons_self).2, hclean.validate_eq⟩

end Memory

end TieredStore
