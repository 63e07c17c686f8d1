import TieredStore.Proofs.Accounting
import TieredStore.Proofs.Memory.Transfer

/-!
# What an eviction brings

An eviction counts the units that it has chosen. On the device a unit is an allocation, and a proxy
that moves takes all its references along, so more may be released than was counted; on the host a
unit is a proxy and the count is exact. Either way the tally drops by what was counted at least,
which covers what was asked for or is all that there is.

* `Settled.usage_device_add_freed_le`, `SettledIn.usage_host_add_freed`: the tally after an
  eviction.
* `evictFromDevice_releases`: all that an eviction from the device changes.
* `Relieved`, `relieved_of_enforced`: what the limits ask for is enough, whatever the numbers.
-/

namespace TieredStore

namespace Memory

section

variable {T : Type} [DeviceObject T] {m m' : Memory (Proxy T)} {id : ProxyId} {tier : Tier}
  {size : BufferId → ℕ} {nbytes freed extra limit : ℕ}

/-- The frames that a proxy has in host memory. -/
def hostFrames (m : Memory (Proxy T)) (id : ProxyId) : List Bytes :=
  match ((m.proxies.find? id).bind Proxy.object?).bind ObjectProxy.payload? with
  | some (.frames _ content) => content
  | _ => []

omit [DeviceObject T] in
theorem hostFrames_eq {p : ObjectProxy T} {header : FrameHeader} {content : List Bytes}
    (hfind : m.proxies.find? id = some (.object p))
    (hform : p.form = .serialized (.frames header content)) : m.hostFrames id = content := by
  simp [hostFrames, hfind, Proxy.object?, ObjectProxy.payload?, hform]

/-! ### The tally after an eviction -/

/-- A plan covers what is asked for, or it counts everything that the tier has. -/
theorem Settled.covered (h : m.Settled) (hsize : m.SizedBy size) (tier : Tier) (nbytes : ℕ) :
    nbytes ≤ (EvictionPlan.make (m.units tier) nbytes).freed ∨
      (EvictionPlan.make (m.units tier) nbytes).freed = m.manager.usage tier := by
  rw [← h.sum_sizes_units hsize tier]
  exact EvictionUnit.le_sum_chosen (m.units tier) nbytes

/-- No allocation that a plan has chosen is referred to once its victims are on the host. -/
theorem Transferred.not_refers_of_chosen {b : BufferId}
    (h : Transferred ObjectProxy.ToHost m m'
      (EvictionPlan.make (m.units .device) nbytes).victims .host)
    (hchosen : m.deviceUnit b ∈ EvictionUnit.chosen (m.units .device) nbytes) (id : ProxyId) :
    ¬ m'.Refers id b := by
  intro hrefers
  obtain ⟨hold, hnot⟩ := h.refers (by decide) hrefers
  -- What refers to the allocation belongs to its unit, and so it was a victim.
  apply hnot
  refine List.mem_eraseDups.2 (List.mem_flatMap.2 ⟨_, hchosen, ?_⟩)
  exact (mem_proxies_deviceUnit_iff m b id).2 hold

/-- The device has released what was counted, at least. -/
theorem Settled.usage_device_add_freed_le (h : m.Settled) (hsize : m.SizedBy size)
    (h' : m'.Settled)
    (htransferred : Transferred ObjectProxy.ToHost m m'
      (EvictionPlan.make (m.units .device) nbytes).victims .host) :
    m'.manager.usage .device + (EvictionPlan.make (m.units .device) nbytes).freed ≤
      m.manager.usage .device := by
  have hsubset : ∀ b ∈ m'.deviceBufferIds, b ∈ m.deviceBufferIds := by
    intro b hb
    obtain ⟨id, hrefers⟩ := (mem_deviceBufferIds_iff m' b).1 hb
    exact (mem_deviceBufferIds_iff m b).2 ⟨id, (htransferred.refers (by decide) hrefers).1⟩
  -- The allocations that are left are units which were not chosen.
  have hsublist : ((m.deviceBufferIds.filter (· ∈ m'.deviceBufferIds)).map m.deviceUnit).Sublist
      (m.units .device) := List.filter_sublist.map _
  have hleft : ∀ u ∈ (m.deviceBufferIds.filter (· ∈ m'.deviceBufferIds)).map m.deviceUnit,
      u ∉ EvictionUnit.chosen (m.units .device) nbytes := by
    intro u hu hchosen
    obtain ⟨b, hb, rfl⟩ := List.mem_map.1 hu
    rw [List.mem_filter, decide_eq_true_eq, mem_deviceBufferIds_iff m'] at hb
    obtain ⟨-, id, hrefers⟩ := hb
    exact htransferred.not_refers_of_chosen hchosen id hrefers
  have hle := EvictionUnit.sum_sizes_add_chosen_le hsublist hleft
  rw [sum_sizes_left hsize.reports hsubset, h.sum_sizes_units hsize] at hle
  rw [h'.usage_eq (htransferred.sizedBy (by decide) hsize)]
  exact hle

/-- What a plan counts on the host is what the host has less. -/
theorem SettledIn.usage_host_add_freed (h : m.SettledIn .host) (hexact : m.manager.Exact)
    (htransferred : Transferred ObjectProxy.ToDisk m m'
      (EvictionPlan.make (m.units .host) nbytes).victims .disk) :
    m'.manager.usage .host + (EvictionPlan.make (m.units .host) nbytes).freed =
      m.manager.usage .host := by
  rw [show m.units .host = m.singleUnits .host from rfl, freed_eq_sum_victims hexact]
  exact htransferred.usage_source hexact h.recorded (by decide) (by decide) fun _ =>
    tracks_of_mem_victims

/-! ### Evictions from the device -/

/-- An eviction from the device never reports more than it has released: the tally drops by the
bytes that were counted, at least. Nothing that is left on the device refers to an allocation that
was chosen. Each victim is tracked on the host with the frames of its object, the host has the bytes
of these frames more and no others, and whatever was not a victim stays as it was and where it was.
-/
theorem evictFromDevice_releases (h : m.Settled) (hsize : m.SizedBy size)
    (hevict : evict nbytes (m.units .device) demoteToHost m = .ok freed m') :
    freed = ((EvictionUnit.chosen (m.units .device) nbytes).map EvictionUnit.size).sum ∧
      m'.manager.usage .device + freed ≤ m.manager.usage .device ∧
      (∀ b ∈ m.deviceBufferIds, m.deviceUnit b ∈ EvictionUnit.chosen (m.units .device) nbytes →
        ∀ id, ¬ m'.Refers id b) ∧
      (∀ id ∈ (EvictionPlan.make (m.units .device) nbytes).victims,
        m'.manager.Tracks .host id ∧
        ∃ p a frames, m.proxies.find? id = some (.object p) ∧ p.form = .live a ∧
          DeviceObject.toFrames a = .ok frames ∧
          m'.proxies.find? id = some (.object (p.framed a frames)) ∧ m'.hostFrames id = frames) ∧
      m'.manager.usage .host = m.manager.usage .host +
        ((EvictionPlan.make (m.units .device) nbytes).victims.map fun id =>
          ((m'.hostFrames id).map List.length).sum).sum ∧
      (∀ id, (∃ t, m'.manager.Tracks t id) ↔ ∃ t, m.manager.Tracks t id) ∧
      (∀ id, id ∉ (EvictionPlan.make (m.units .device) nbytes).victims →
        m'.proxies.find? id = m.proxies.find? id ∧
          ∀ t, m'.manager.Tracks t id ↔ m.manager.Tracks t id) ∧
      m'.Settled := by
  obtain ⟨rfl, htransferred⟩ := (h.evictToHost_transfers nbytes).of_ok hevict
  have hsettled := htransferred.settled_of_toHost h
  -- A victim was live, and the frames of its object are what it has on the host now.
  have hvictim : ∀ id ∈ (EvictionPlan.make (m.units .device) nbytes).victims,
      ∃ p a frames, m.proxies.find? id = some (.object p) ∧ p.form = .live a ∧
        DeviceObject.toFrames a = .ok frames ∧
        m'.proxies.find? id = some (.object (p.framed a frames)) ∧ m'.hostFrames id = frames := by
    intro id hid
    obtain ⟨p, q, hp, hq, ⟨a, frames, hlive, hframes, rfl⟩, -⟩ := htransferred.changed id hid
    exact ⟨p, a, frames, hp, hlive, hframes, hq, hostFrames_eq hq rfl⟩
  refine ⟨rfl, h.usage_device_add_freed_le hsize hsettled htransferred,
    fun b _ hchosen => htransferred.not_refers_of_chosen hchosen,
    fun id hid => ⟨?_, hvictim id hid⟩,
    ?_, fun id => ?_, fun id hid => ⟨htransferred.find?_eq id hid,
      htransferred.tracks_iff_of_not_mem hid⟩, hsettled⟩
  · rw [htransferred.tracks_iff, if_pos hid]
  · have hnot : ∀ id ∈ (EvictionPlan.make (m.units .device) nbytes).victims,
        ¬ m.manager.Tracks .host id := fun id hid =>
      h.exact.not_tracks (tracks_of_mem_victims hid) (by decide)
    rw [htransferred.usage_target h.exact (h.settledIn .host).recorded (by decide) hnot,
      List.sum_toFinset _ (EvictionPlan.nodup_victims _ _)]
    -- Each victim has the size of its frames now.
    refine congrArg (fun sizes => _ + List.sum sizes) (List.map_congr_left fun id hid => ?_)
    obtain ⟨p, a, frames, -, -, -, hfind, hhost⟩ := hvictim id hid
    rw [hfind, hhost]
    rfl
  · by_cases hid : id ∈ (EvictionPlan.make (m.units .device) nbytes).victims
    · refine iff_of_true ⟨.host, ?_⟩ ⟨.device, tracks_of_mem_victims hid⟩
      rw [htransferred.tracks_iff, if_pos hid]
    · exact exists_congr (htransferred.tracks_iff_of_not_mem hid)

/-- A store with a live array can be asked to release its four bytes. -/
theorem evictFromDevice_releases_array :
    ∃ m', evict 4 (Store.liveStore.memory.units .device) demoteToHost Store.liveStore.memory =
        .ok 4 m' ∧
      m'.manager.usage .device + 4 ≤ Store.liveStore.memory.manager.usage .device ∧
      (∀ id, (∃ t, m'.manager.Tracks t id) ↔ ∃ t, Store.liveStore.memory.manager.Tracks t id) ∧
      m'.Settled := by
  have hlive := Store.run_liveStore.coherent.memory
  obtain ⟨freed, m', hevict, hfreed, -⟩ := (evictToHost_ends hlive 4).exists_ok
    fun _ _ hrefused => hrefused.2 Store.run_liveStore.writable
  have hfour : freed = 4 := hfreed.trans (by decide +kernel)
  subst hfour
  obtain ⟨-, hdropped, -, -, -, htracked, -, hsettled⟩ :=
    evictFromDevice_releases Store.run_liveStore.spares.settled
      (hlive.toSound.sizedBy Store.sizedBy_smallArray) hevict
  exact ⟨m', hevict, hdropped, htracked, hsettled⟩

/-! ### Limits -/

/-- What it comes to that a tier makes room for `extra` bytes under a limit. The bytes that it is
over the limit by are reckoned with a sum that stops at the largest word. -/
structure Relieved (m m' : Memory (Proxy T)) (tier : Tier) (extra limit : ℕ) : Prop where
  /-- The tally has dropped by these bytes, or nothing is left. -/
  dropped :
    m'.manager.usage tier + (min (m.manager.usage tier + extra) (2 ^ 64 - 1) - limit) ≤
        m.manager.usage tier ∨
      m'.manager.usage tier = 0
  /-- Nothing happens if there are none. -/
  untouched : min (m.manager.usage tier + extra) (2 ^ 64 - 1) - limit = 0 → m' = m
  /-- Where one of the sums is a word there is room now, or nothing is left. -/
  within : m.manager.usage tier + extra < 2 ^ 64 ∨ m.manager.usage tier + limit < 2 ^ 64 →
    m'.manager.usage tier + extra ≤ limit ∨ m'.manager.usage tier = 0

omit [DeviceObject T] in
/-- An eviction of what a tier has too much is enough. -/
theorem Relieved.of_freed
    (hdropped : m'.manager.usage tier + freed ≤ m.manager.usage tier)
    (hcovered : excess (m.manager.usage tier) extra limit ≤ freed ∨
      freed = m.manager.usage tier)
    (huntouched : excess (m.manager.usage tier) extra limit = 0 → m' = m) :
    Relieved m m' tier extra limit := by
  unfold excess maxBytes at hcovered huntouched
  refine ⟨by omega, huntouched, fun hword => ?_⟩
  -- Without an excess the tally is what it was.
  by_cases hzero : min (m.manager.usage tier + extra) (2 ^ 64 - 1) - limit = 0
  · rw [huntouched hzero]
    omega
  · omega

omit [DeviceObject T] in
/-- Where nothing is too much nothing is done. -/
theorem Relieved.refl (h : excess (m.manager.usage tier) extra limit = 0) :
    Relieved m m tier extra limit := by
  have hnone : m.manager.usage tier + 0 ≤ m.manager.usage tier := Nat.le_refl _
  exact .of_freed hnone (.inl h.le) fun _ => rfl

/-- An eviction that a limit asks for is enough, for any limit and any number of bytes: the tier has
dropped by all that was too much, or it is empty, and where nothing was too much nothing is done. -/
theorem relieved_of_enforced (h : m.Settled) (hsize : m.SizedBy size) :
    (∀ extra freed m', enforceDeviceLimit extra m = .ok freed m' →
      Relieved m m' .device extra m.manager.deviceLimit) ∧
    ∀ extra freed m', enforceHostLimit extra m = .ok freed m' →
      Relieved m m' .host extra m.manager.hostLimit := by
  refine ⟨fun extra freed m' hrun => ?_, fun extra freed m' hrun => ?_⟩
  · -- What leaves the device may be more than was counted, which does no harm here.
    have hends : Ends (enforceDeviceLimit extra) m
        (fun _ m' => Relieved m m' .device extra m.manager.deviceLimit) fun _ _ => True := by
      rw [enforceDeviceLimit, Ends.bind_iff, Ends.get_iff]
      split
      next hzero => exact .refl hzero
      next hsome =>
        refine (h.evictToHost_transfers _).mono_ok ?_
        rintro freed m' ⟨rfl, htransferred⟩
        have hsettled := htransferred.settled_of_toHost h
        exact .of_freed (h.usage_device_add_freed_le hsize hsettled htransferred)
          (h.covered hsize .device _) fun hzero => absurd hzero hsome
    exact hends.of_ok hrun
  · -- Every proxy of the host is a unit of its own, so the count is exact.
    have hends : Ends (enforceHostLimit extra) m
        (fun _ m' => Relieved m m' .host extra m.manager.hostLimit) fun _ _ => True := by
      rw [enforceHostLimit, Ends.bind_iff, Ends.get_iff]
      split
      next hzero => exact .refl hzero
      next hsome =>
        refine ((h.settledIn .host).evictToDisk_transfers h.exact _).mono_ok ?_
        rintro freed m' ⟨rfl, htransferred⟩
        exact .of_freed ((h.settledIn .host).usage_host_add_freed h.exact htransferred).le
          (h.covered hsize .host _) fun hzero => absurd hzero hsome
    exact hends.of_ok hrun

/-- A device with four bytes in use has to make room for forty-seven more under a limit of fifty,
and a host with twenty for ninety more under a limit of a hundred. -/
theorem relieved_of_enforced_for_more :
    (∃ freed m', enforceDeviceLimit 47 Store.liveStore.memory = .ok freed m' ∧
      Relieved Store.liveStore.memory m' .device 47 50) ∧
    ∃ freed m', enforceHostLimit 90 Store.hostStore.memory = .ok freed m' ∧
      Relieved Store.hostStore.memory m' .host 90 100 := by
  have hlive := Store.run_liveStore.coherent.memory
  have hhost := Store.run_hostStore.coherent.memory
  refine ⟨?_, ?_⟩
  · obtain ⟨freed, m', hrun, -⟩ := (enforceDeviceLimit_ends hlive 47).exists_ok
      fun _ _ hrefused => hrefused.2 Store.run_liveStore.writable
    exact ⟨freed, m', hrun, (relieved_of_enforced Store.run_liveStore.spares.settled
      (hlive.toSound.sizedBy Store.sizedBy_smallArray)).1 47 freed m' hrun⟩
  · obtain ⟨freed, m', hrun, -⟩ := (enforceHostLimit_ends hhost 90).exists_ok
      fun _ _ hrefused => hrefused.2 Store.run_hostStore.writable
    exact ⟨freed, m', hrun, (relieved_of_enforced Store.run_hostStore.spares.settled
      (hhost.toSound.sizedBy Store.sizedBy_smallArray)).2 90 freed m' hrun⟩

end

end Memory

end TieredStore
