import TieredStore.Proofs.PartialEviction
import TieredStore.Proofs.Versions

/-!
# Making room

Room is made on the device and then on the host, by evictions that may fail midway. Whatever they
come to, proxies that are on disk are none of the victims, and books that agreed with the proxies
still do.

* `Memory.Spared`: what evictions leave of the proxies on disk, and of the books.
* `Transferred.spared`, `Stopped.spared`: an eviction that is done, and one that has failed.
* `enforceLimits_spares`: both limits.
* `Settled.put`, `Settled.accessed`: what is not in the books, recorded accesses among it.
-/

namespace TieredStore

/-- What is recorded of a proxy depends on its form alone. -/
theorem ObjectProxy.report_congr {T : Type} [DeviceObject T] {p q : ObjectProxy T}
    (hform : q.form = p.form) :
    Spillable.report (Proxy.object q) = Spillable.report (Proxy.object p) := by
  obtain ⟨_, form, _, _, _⟩ := p
  subst hform
  rfl

namespace Memory

variable {T : Type} [DeviceObject T] {m m' m'' : Memory (Proxy T)} {id : ProxyId}
  {p : ObjectProxy T}

/-- The proxies on disk are as they were, where they were, and the books agree with all proxies. -/
structure Spared (m m' : Memory (Proxy T)) : Prop where
  /-- The books agree with the proxies. -/
  settled : m'.Settled
  /-- The device tallies the allocations that proxies there refer to, if their sizes agreed before.
  -/
  usage_device_eq : ∀ size, m.SizedBy size → m'.manager.usage .device = m'.reckoned size .device
  /-- Proxies on disk stay as they are. -/
  find?_eq : ∀ id, m.manager.Tracks .disk id → m'.proxies.find? id = m.proxies.find? id
  /-- They stay there. -/
  tracks : ∀ id, m.manager.Tracks .disk id → m'.manager.Tracks .disk id

/-- Besides, more room can be made. -/
structure Ready (m m' : Memory (Proxy T)) : Prop extends Spared m m' where
  /-- Allocations have the sizes that they had. -/
  sizedBy : ∀ size, m.SizedBy size → m'.SizedBy size
  /-- Headers of files name their family. -/
  namesFiles : m'.NamesFiles

theorem Ready.refl (h : m.Settled) (hfiles : m.NamesFiles) : Ready m m where
  settled := h
  usage_device_eq _ hsize := h.usage_eq hsize .device
  find?_eq _ _ := rfl
  tracks _ htracks := htracks
  sizedBy _ hsize := hsize
  namesFiles := hfiles

/-- What is spared of a memory that is ready is spared of the first one. -/
theorem Ready.spared (h : Ready m m') (h' : Spared m' m'') : Spared m m'' where
  settled := h'.settled
  usage_device_eq size hsize := h'.usage_device_eq size (h.sizedBy size hsize)
  find?_eq id htracks := (h'.find?_eq id (h.tracks id htracks)).trans (h.find?_eq id htracks)
  tracks id htracks := h'.tracks id (h.tracks id htracks)

section

variable {R : ObjectProxy T → ObjectProxy T → Prop} {ids rest : List ProxyId} {source target : Tier}

/-- Proxies that move between other tiers leave those on disk alone. -/
theorem Transferred.spared (h : Transferred R m m' ids target) (hm : m.Settled)
    (htarget : target ≠ .device) (hsource : source ≠ .disk)
    (hids : ∀ id ∈ ids, m.manager.Tracks source id)
    (hR : ∀ p q, R p q → q.form.tier = target ∧ q.isAttached = p.isAttached) : Spared m m' := by
  have hsettled := h.settled hm (fun id hid => ⟨source, hids id hid⟩) hR
  have hfresh : ∀ id, m.manager.Tracks .disk id → id ∉ ids := fun id htracks hid =>
    hm.exact.not_tracks htracks hsource (hids id hid)
  exact {
    settled := hsettled
    usage_device_eq := fun size hsize => hsettled.usage_eq (h.sizedBy htarget hsize) .device
    find?_eq := fun id htracks => h.find?_eq id (hfresh id htracks)
    tracks := fun id htracks => (h.tracks_iff_of_not_mem (hfresh id htracks) _).2 htracks }

/-- So do those that have moved when an eviction fails. -/
theorem Stopped.spared (h : Stopped R m m' source target ids rest) (hm : m.Settled)
    (hsource : source ≠ .disk) (hids : ∀ id ∈ ids, m.manager.Tracks source id) : Spared m m' := by
  have hfresh : ∀ id, m.manager.Tracks .disk id → id ∉ ids := fun id htracks hid =>
    hm.exact.not_tracks htracks hsource (hids id hid)
  exact {
    settled := h.settled
    usage_device_eq := fun size hsize => h.usage_eq size .device fun _ => hsize
    find?_eq := fun id htracks => h.find?_eq id (hfresh id htracks)
    tracks := fun id htracks => (h.tracks_iff id (hfresh id htracks) _).2 htracks }

/-- Proxies that go to the host have no files. -/
theorem Transferred.namesFiles (h : Transferred ObjectProxy.ToHost m m' ids target)
    (hfiles : m.NamesFiles) : m'.NamesFiles := by
  intro id q disk hq hform
  by_cases hid : id ∈ ids
  · obtain ⟨p, r, -, hr, ⟨a, frames, -, -, rfl⟩, -⟩ := h.changed id hid
    rw [hq] at hr
    cases hr
    cases hform
  · exact hfiles id q disk ((h.find?_eq id hid).symm.trans hq) hform

end

/-- Evictions from the device spare the proxies on disk. -/
theorem enforceDeviceLimit_spares (h : m.Settled) (hfiles : m.NamesFiles) (extra : ℕ) :
    Ends (enforceDeviceLimit extra) m (fun _ => Ready m) fun _ => Spared m := by
  rw [enforceDeviceLimit, Ends.bind_iff, Ends.get_iff]
  generalize excess (m.manager.usage .device) extra m.manager.deviceLimit = surplus
  split
  next => exact .refl h hfiles
  next =>
    have hvictim : ∀ id ∈ (EvictionPlan.make (m.units .device) surplus).victims,
        m.manager.Tracks .device id := fun _ => tracks_of_mem_victims
    refine Ends.of_forall (fun freed t hdone => ?_) fun e t hfail => ?_
    · obtain ⟨-, htransferred⟩ := (h.evictToHost_transfers surplus).of_ok hdone
      exact {
        htransferred.spared h (by decide) (by decide) hvictim
          fun _ _ hmade => ⟨hmade.tier_eq, hmade.isAttached_eq⟩ with
        sizedBy := fun size hsize => htransferred.sizedBy (by decide) hsize
        namesFiles := htransferred.namesFiles hfiles }
    · obtain ⟨done, victim, rest, n, hvictims, hdone, hfail⟩ := evict_eq_error_iff.1 hfail
      obtain ⟨-, hstopped⟩ := h.stopped_device hvictims hdone hfail
      refine hstopped.spared h (by decide) fun id hid => hvictim id ?_
      rw [hvictims]
      exact List.mem_append_left _ hid

/-- Evictions from the host spare the proxies that are on disk already. -/
theorem enforceHostLimit_spares (h : m.Settled) (hfiles : m.NamesFiles) (extra : ℕ) :
    Leaves (enforceHostLimit extra) m (Spared m) := by
  rw [enforceHostLimit, Leaves, Ends.bind_iff, Ends.get_iff]
  generalize excess (m.manager.usage .host) extra m.manager.hostLimit = surplus
  split
  next => exact (Ready.refl h hfiles).toSpared
  next =>
    have hvictim : ∀ id ∈ (EvictionPlan.make (m.units .host) surplus).victims,
        m.manager.Tracks .host id := fun _ => tracks_of_mem_victims
    refine Ends.of_forall (fun freed t hdone => ?_) fun e t hfail => ?_
    · obtain ⟨-, htransferred⟩ :=
        ((h.settledIn .host).evictToDisk_files h.exact surplus).of_ok hdone
      exact (htransferred.written h hfiles hvictim).spared h (by decide) (by decide) hvictim
        fun _ _ hmade => ⟨hmade.tier_eq, hmade.isAttached_eq⟩
    · obtain ⟨done, victim, rest, n, hvictims, hdone, hfail⟩ := evict_eq_error_iff.1 hfail
      obtain ⟨-, hstopped⟩ := h.stopped_host hfiles hvictims hdone hfail
      refine hstopped.spared h (by decide) fun id hid => hvictim id ?_
      rw [hvictims]
      exact List.mem_append_left _ hid

/-- Room is made without any harm to the proxies on disk, even if there is not enough in the end. -/
theorem enforceLimits_spares (h : m.Settled) (hfiles : m.NamesFiles) (extra : ℕ) :
    Leaves (enforceLimits extra) m (Spared m) := by
  rw [enforceLimits, Leaves, Ends.bind_iff]
  refine (enforceDeviceLimit_spares h hfiles extra).mono_ok fun _ t hready => ?_
  exact Leaves.map ((enforceHostLimit_spares hready.settled hready.namesFiles 0).imp fun _ =>
    hready.spared)

/-! ### A recorded access -/

/-- Nothing but its form is in the books, if the proxy stays attached. -/
theorem Settled.put {q : ObjectProxy T} (h : m.Settled)
    (hfind : m.proxies.find? id = some (.object p)) (hform : q.form = p.form)
    (hattached : p.isAttached = true → q.isAttached = true) : (m.put id q).Settled where
  exact := h.exact
  settledIn tier := by
    intro other htracks
    by_cases hother : other = id
    · subst hother
      obtain ⟨r, hr, hkept, htier, hrecords⟩ := (h.settledIn tier).exists_object htracks
      rw [hfind] at hr
      cases hr
      rw [← ObjectProxy.report_congr hform] at hrecords
      rw [← hform, ← Proxy.tier_object] at htier
      exact ⟨.object q, find?_put_self m other q, hattached hkept, htier, hrecords⟩
    · obtain ⟨r, hr, hkept, htier, hrecords⟩ := h.settledIn tier other htracks
      exact ⟨r, (find?_put_of_ne m q hother).trans hr, hkept, htier, hrecords⟩

/-- The time of an access is not in the books. -/
theorem Settled.accessed (h : m.Settled) (hfind : m.proxies.find? id = some (.object p)) :
    (m.accessed id p).Settled := by
  have htick : ({ m with clock := m.clock + 1 } : Memory (Proxy T)).Settled :=
    h.congr rfl fun _ => rfl
  exact htick.put hfind rfl fun hattached => hattached

/-- A proxy on disk has no allocations, whenever it was used. -/
theorem SizedBy.accessed {size : BufferId → ℕ} (h : m.SizedBy size) {disk : DiskHeader}
    (hform : p.form = .serialized (.disk disk)) : (m.accessed id p).SizedBy size := by
  refine h.congr rfl fun other r hr => ?_
  by_cases hother : other = id
  · subst hother
    cases (find?_put_self _ _ _).symm.trans hr
    refine .inr ?_
    show ObjectProxy.deviceBuffers _ = []
    rw [ObjectProxy.deviceBuffers, hform]
  · exact .inl ((find?_put_of_ne _ _ hother).symm.trans hr)

omit [DeviceObject T] in
theorem NamesFiles.accessed (h : m.NamesFiles) (hfind : m.proxies.find? id = some (.object p)) :
    (m.accessed id p).NamesFiles := by
  intro other q disk hq hform
  by_cases hother : other = id
  · subst hother
    cases (find?_put_self _ _ _).symm.trans hq
    exact h other p disk hfind hform
  · exact h other q disk ((find?_put_of_ne _ _ hother).symm.trans hq) hform

end Memory

end TieredStore
