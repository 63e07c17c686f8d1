import TieredStore.Proofs.Accounting
import TieredStore.Proofs.Memory.Transfer

/-!
# Demotions that are broken off

A demotion to disk has steps: a live object is put into frames first, then a file is written, and
only then do the books follow. A proxy whose frames are in host memory loses nothing when its file
is refused, and one that is in a file already cannot fail at all. A live proxy is left between the
steps: its object is in frames while the device still has it on record. Its content is safe, but a
check of the books finds it, and the device goes on counting allocations that nothing refers to any
more.

* `Settled.demoteToDisk_fails`: the states that a demotion can be left in.
* `Displaced`: one proxy is out of place, with what a check of the books says of it
  (`Displaced.validate_eq`) and what the tallies make of it (`Displaced.usage_device_eq`).
* `demoteToDisk_interrupted`: what every failed demotion leaves.
-/

namespace TieredStore

namespace ObjectProxy

variable {T : Type} [DeviceObject T] {p : ObjectProxy T} {a : T} {frames : List Bytes}

/-- Frames give the object back that they were made of. -/
theorem objectOf_framed
    (hread : ∀ (a : T) frames, DeviceObject.toFrames a = .ok frames →
      DeviceObject.ofFrames frames = .ok a)
    (hlive : p.form = .live a) (hframes : DeviceObject.toFrames a = .ok frames) (v : Volume) :
    objectOf (p.framed a frames).form v = objectOf p.form v := by
  simp [framed, setForm, objectOf, hlive, hread a frames hframes]

end ObjectProxy

namespace Store

/-- A store with a live array, where no more files can be written. -/
def lockedStore : Store DeviceArray := (Op.setDirectory false [] false true).after liveStore

theorem run_lockedStore : Run narrowSettings Op.Spares [smallArray] lockedStore :=
  run_liveStore.spares.step (.setDirectory false [] false true) (by trivial) trivial

end Store

namespace Memory

section

variable {T : Type} [DeviceObject T] {m m' : Memory (Proxy T)} {id : ProxyId} {tier : Tier}
  {p q : ObjectProxy T} {size : BufferId → ℕ} {e : Failure}

/-- A demotion to disk fails in one of three states: nothing has been done to frames of the host,
nothing has been done to a live object that has no frames, or the object is in frames by now. -/
theorem Settled.demoteToDisk_fails (h : m.Settled)
    (hfind : m.proxies.find? id = some (.object p)) (htracks : m.manager.Tracks tier id)
    (hframes : ∀ header content, p.form = .serialized (.frames header content) →
      p.form.tier = .host)
    (hfail : demoteToDisk id m = .error e m') :
    m' = m.passOver ∧ p.form.tier = .host ∧ ¬ m.spill.Writable ∨
      (∃ a, m' = m.put id p ∧ p.form = .live a ∧
        ∀ frames, DeviceObject.toFrames a ≠ .ok frames) ∨
      ∃ a frames, m' = (m.put id (p.framed a frames)).passOver ∧ p.form = .live a ∧
        DeviceObject.toFrames a = .ok frames ∧ ¬ m.spill.Writable := by
  have htier := (h.settledIn tier).tier_eq htracks hfind
  subst htier
  rcases hform : p.form with a | (⟨header, content⟩ | disk)
  · have hdevice : p.form.tier = .device := by rw [hform]; rfl
    have hnot : ¬ m.manager.Tracks .disk id :=
      h.exact.not_tracks htracks (by rw [hdevice]; decide)
    rcases (demoteToDisk_live_ends h.exact hfind hform hnot).of_error hfail with
      ⟨rfl, hnone⟩ | ⟨frames, hsome, rfl, hwritable⟩
    · exact .inr (.inl ⟨a, rfl, rfl, hnone⟩)
    · exact .inr (.inr ⟨a, frames, rfl, rfl, hsome, hwritable⟩)
  · have hhost := hframes header content hform
    have hnot : ¬ m.manager.Tracks .disk id :=
      h.exact.not_tracks htracks (by rw [hhost]; decide)
    obtain ⟨rfl, hwritable⟩ := (demoteToDisk_transfers h.exact hfind hhost hnot).of_error hfail
    exact .inl ⟨rfl, hform ▸ hhost, hwritable⟩
  · -- Only the books have to follow, which they always can.
    exact ((demoteToDisk_spilled_ends h.exact hfind hform).of_error hfail).elim

/-! ### One proxy out of place -/

/-- A proxy that is tracked in a tier has another form now, and the books have not followed. -/
structure Displaced (m m' : Memory (Proxy T)) (id : ProxyId) (p q : ObjectProxy T)
    (tier : Tier) : Prop where
  /-- The books stay. -/
  manager_eq : m'.manager = m.manager
  /-- The other proxies stay as they are. -/
  find?_eq : ∀ other, other ≠ id → m'.proxies.find? other = m.proxies.find? other
  /-- The proxy had one form. -/
  find?_old : m.proxies.find? id = some (.object p)
  /-- It has another one now. -/
  find?_new : m'.proxies.find? id = some (.object q)
  /-- It is tracked in the tier. -/
  tracks : m.manager.Tracks tier id

/-- A check of the books reports the one proxy that is not in the tier of its form. -/
theorem Displaced.validate_eq (hd : Displaced m m' id p q tier) (h : m.Settled)
    (hplace : q.form.tier ≠ tier) :
    validate m' = .error (.error (wrongTier id q.serializer tier)) m' := by
  have hobjects : ∀ t other, m'.manager.Tracks t other →
      ∃ r, m'.proxies.find? other = some (.object r) := fun t other ht => by
    by_cases hother : other = id
    · exact hother ▸ ⟨q, hd.find?_new⟩
    · rw [hd.find?_eq other hother]
      rw [hd.manager_eq] at ht
      exact ((h.settledIn t).exists_object ht).imp fun _ => And.left
  have hends := validate_ends_of_objects (hd.manager_eq ▸ h.exact) hobjects
  rcases hrun : validate m' with ⟨⟨⟩, n⟩ | ⟨e, n⟩
  · -- A check that finds nothing has seen the proxy in its place.
    obtain ⟨-, hplaced⟩ := hends.of_ok hrun
    exact absurd (hplaced tier id q (hd.manager_eq ▸ hd.tracks) hd.find?_new) hplace
  · obtain ⟨rfl, t, other, r, ht, hr, hmisplaced, rfl⟩ := hends.of_error hrun
    rw [hd.manager_eq] at ht
    -- All the others are where they were, and in the forms that they had.
    have hother : other = id := by
      by_contra hother
      rw [hd.find?_eq other hother] at hr
      exact hmisplaced ((h.settledIn t).tier_eq ht hr)
    subst hother
    rw [hd.find?_new] at hr
    cases hr
    rw [h.exact.unique ht hd.tracks]

/-- What some proxy refers to was referred to before, and the displaced one had references too. -/
theorem Displaced.refers_iff (hd : Displaced m m' id p q .device) (hnone : q.deviceBuffers = [])
    (b : BufferId) :
    (∃ other, m.Refers other b) ↔
      (∃ other, m'.Refers other b) ∨ b ∈ p.deviceBuffers.map DeviceBuffer.id := by
  constructor
  · rintro ⟨other, htracks, r, hr, hb⟩
    by_cases hother : other = id
    · rw [hother, hd.find?_old] at hr
      cases hr
      exact .inr hb
    · exact .inl ⟨other, hd.manager_eq ▸ htracks, r, (hd.find?_eq other hother).trans hr, hb⟩
  · rintro (⟨other, htracks, r, hr, hb⟩ | hb)
    · have hother : other ≠ id := by
        rintro rfl
        rw [hd.find?_new] at hr
        cases hr
        change b ∈ q.deviceBuffers.map DeviceBuffer.id at hb
        rw [hnone] at hb
        cases hb
      exact ⟨other, hd.manager_eq ▸ htracks, r, (hd.find?_eq other hother).symm.trans hr, hb⟩
    · exact ⟨id, hd.tracks, .object p, hd.find?_old, hb⟩

/-- The device goes on counting the allocations of a proxy that has left it in all but the books,
apart from those that others refer to. -/
theorem Displaced.usage_device_eq (hd : Displaced m m' id p q .device) (h : m.Settled)
    (hsize : m.SizedBy size) (hnone : q.deviceBuffers = []) :
    m'.manager.usage .device = m'.reckoned size .device +
      ∑ b ∈ (p.deviceBuffers.map DeviceBuffer.id).toFinset \ m'.deviceBufferIds.toFinset,
        size b := by
  have hids : m.deviceBufferIds.toFinset =
      m'.deviceBufferIds.toFinset ∪ (p.deviceBuffers.map DeviceBuffer.id).toFinset := by
    ext b
    rw [Finset.mem_union, List.mem_toFinset, List.mem_toFinset, List.mem_toFinset,
      mem_deviceBufferIds_iff, mem_deviceBufferIds_iff]
    exact hd.refers_iff hnone b
  -- The books are those of before, so they still count what was referred to then.
  calc m'.manager.usage .device
      = ∑ b ∈ m.deviceBufferIds.toFinset, size b := by
        rw [hd.manager_eq]
        exact h.usage_eq hsize .device
    _ = _ := by
        rw [hids, ← Finset.union_sdiff_self_eq_union, Finset.sum_union Finset.disjoint_sdiff]
        rfl

/-- The other tiers have nothing to do with a displaced proxy. -/
theorem Displaced.usage_eq (hd : Displaced m m' id p q tier) (h : m.Settled)
    (hsize : m.SizedBy size) (hnone : q.deviceBuffers = []) {t : Tier} (ht : t ≠ tier) :
    m'.manager.usage t = m'.reckoned size t := by
  -- What is tracked there is another proxy, which is as it was.
  have hsettled : m'.SettledIn t := by
    refine (h.settledIn t).congr hd.manager_eq fun other hother => hd.find?_eq other ?_
    rintro rfl
    exact h.exact.not_tracks hd.tracks ht hother
  have hsizes : m'.SizedBy size := by
    refine hsize.congr hd.manager_eq fun other r hr => ?_
    by_cases hother : other = id
    · rw [hother, hd.find?_new] at hr
      cases hr
      exact .inr hnone
    · exact .inl ((hd.find?_eq other hother).symm.trans hr)
  exact hsettled.usage_eq (hd.manager_eq ▸ h.exact) hsizes

/-! ### Failed demotions -/

/-- The books agree with the proxies as long as neither of them changes. -/
theorem Settled.unchanged (h : m.Settled) (hsize : m.SizedBy size)
    (hmanager : m'.manager = m.manager)
    (hfind : ∀ id, m'.proxies.find? id = m.proxies.find? id) :
    m'.Settled ∧ validate m' = .ok () m' ∧ ∀ t, m'.manager.usage t = m'.reckoned size t := by
  have hsettled : m'.Settled := h.congr hmanager hfind
  have hsizes : m'.SizedBy size := hsize.congr hmanager fun id r hr => .inl (hfind id ▸ hr)
  exact ⟨hsettled, hsettled.validate_eq, hsettled.usage_eq hsizes⟩

/-- A demotion to disk that fails leaves the books, the files and all other proxies as they were,
and the content of its proxy is unchanged in any form: live, in frames of a host family, or in a
file. Nothing at all has happened to a proxy whose frames were in host memory, or whose object has
no frames. A live object that has frames is in them now, while the books still have the proxy on the
device: the books do not pass a check any more, and the tally of the device is too large by the
bytes of the allocations that no other proxy there refers to. -/
theorem demoteToDisk_interrupted
    (hread : ∀ (a : T) frames, DeviceObject.toFrames a = .ok frames →
      DeviceObject.ofFrames frames = .ok a)
    (h : m.Settled) (hsize : m.SizedBy size)
    (hfind : m.proxies.find? id = some (.object p)) (htracks : m.manager.Tracks tier id)
    (hframes : ∀ header content, p.form = .serialized (.frames header content) →
      p.form.tier = .host)
    (hfail : demoteToDisk id m = .error e m') :
    m'.manager = m.manager ∧ m'.spill.volume = m.spill.volume ∧
      (∀ other, other ≠ id → m'.proxies.find? other = m.proxies.find? other) ∧
      ∃ q, m'.proxies.find? id = some (.object q) ∧
        (∀ v, ObjectProxy.objectOf q.form v = ObjectProxy.objectOf p.form v) ∧
        (q = p ∧ (∀ a frames, p.form = .live a → DeviceObject.toFrames a ≠ .ok frames) ∧
            m'.Settled ∧ validate m' = .ok () m' ∧
            (∀ t, m'.manager.usage t = m'.reckoned size t) ∨
          tier = .device ∧ ¬ m.spill.Writable ∧
            (∃ a frames, p.form = .live a ∧ DeviceObject.toFrames a = .ok frames ∧
              q = p.framed a frames) ∧
            validate m' = .error (.error (wrongTier id (some .dask) .device)) m' ∧
            m'.manager.usage .device = m'.reckoned size .device +
              ∑ b ∈ (p.deviceBuffers.map DeviceBuffer.id).toFinset \ m'.deviceBufferIds.toFinset,
                size b ∧
            ∀ t, t ≠ .device → m'.manager.usage t = m'.reckoned size t) := by
  rcases h.demoteToDisk_fails hfind htracks hframes hfail with
    ⟨rfl, hhost, -⟩ | ⟨a, rfl, hlive, hnone⟩ | ⟨a, frames, rfl, hlive, hsome, hwritable⟩
  · -- The frames are still in host memory, where the proxy is tracked.
    refine ⟨rfl, rfl, fun _ _ => rfl, p, hfind, fun _ => rfl, .inl ⟨rfl, fun a _ hlive => ?_,
      h.unchanged hsize rfl fun _ => rfl⟩⟩
    rw [hlive] at hhost
    cases hhost
  · -- The proxy is the one that it was.
    refine ⟨rfl, rfl, fun other _ => find?_put_same hfind other, p, find?_put_self m id p,
      fun _ => rfl,
      .inl ⟨rfl, fun b frames hb => ?_, h.unchanged hsize rfl (find?_put_same hfind)⟩⟩
    rw [hlive] at hb
    cases hb
    exact hnone frames
  · -- The books have not followed the frames.
    have hdevice : p.form.tier = .device := by rw [hlive]; rfl
    have htier : tier = .device := by
      rw [← hdevice]
      exact ((h.settledIn tier).tier_eq htracks hfind).symm
    subst htier
    have hd : Displaced m (m.put id (p.framed a frames)).passOver id p (p.framed a frames)
        .device :=
      ⟨rfl, fun _ => find?_put_of_ne m _, hfind, find?_put_self m id _, htracks⟩
    refine ⟨rfl, rfl, hd.find?_eq, _, hd.find?_new, ObjectProxy.objectOf_framed hread hlive hsome,
      .inr ⟨rfl, hwritable, ⟨a, frames, hlive, hsome, rfl⟩, ?_, ?_, fun t ht => ?_⟩⟩
    · apply hd.validate_eq h
      intro hplace
      cases hplace
    · exact hd.usage_device_eq h hsize rfl
    · exact hd.usage_eq h hsize rfl ht

/-- A live array cannot be moved to disk while no file can be written. It is in frames of the host
after that, with its four bytes still counted on the device, where nothing has any. -/
theorem demoteToDisk_interrupted_live :
    ∃ e, demoteToDisk ⟨1⟩ Store.lockedStore.memory = .error e Store.strandedStore.memory ∧
      validate Store.strandedStore.memory =
        .error (.error (wrongTier ⟨1⟩ (some .dask) .device)) Store.strandedStore.memory ∧
      Store.strandedStore.memory.manager.usage .device = 4 ∧
      Store.strandedStore.memory.reckoned (fun _ => 4) .device = 0 := by
  obtain ⟨e, hfail⟩ :
      ∃ e, demoteToDisk ⟨1⟩ Store.lockedStore.memory = .error e Store.strandedStore.memory :=
    ⟨_, rfl⟩
  obtain ⟨p, hfind, hlive⟩ : ∃ p, Store.lockedStore.memory.proxies.find? ⟨1⟩ = some (.object p) ∧
      p.form = .live Store.smallArray := ⟨_, rfl, rfl⟩
  have htracks : Store.lockedStore.memory.manager.Tracks .device ⟨1⟩ := List.mem_cons_self
  have hsize := Store.run_lockedStore.coherent.memory.toSound.sizedBy Store.sizedBy_smallArray
  obtain ⟨-, -, -, q, -, -, ⟨-, hnone, -⟩ | ⟨-, -, -, hcheck, -, -⟩⟩ :=
    demoteToDisk_interrupted (fun a frames hframes => by cases hframes; exact a.ofFrames_frames)
      Store.run_lockedStore.settled hsize hfind htracks
      (fun header content hform => by rw [hlive] at hform; cases hform) hfail
  · exact absurd rfl (hnone _ Store.smallArray.frames hlive)
  · exact ⟨e, hfail, hcheck, rfl, by decide +kernel⟩

end

end Memory

end TieredStore
