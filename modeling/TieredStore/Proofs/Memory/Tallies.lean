import TieredStore.Proofs.Memory.Settled

/-!
# Tallies and what they are made of

The tallies of host and disk are the sums of the sizes of the proxies there. The tally of the
device is the sum over the allocations that its live proxies refer to, each of them once, and over
the allocations of stranded proxies, which nothing refers to any more.

* `Memory.liveBytes`, `Memory.hiddenBytes`: the two parts of the tally of the device.
* `usage_device_eq`, `usage_eq_sum_residents`: the tallies.
* `sum_sizes_device`: the same sum over the units of the device.
* `forall₂_isUnitOf`: the units of the device, one for each allocation.
* `hiddenBytes_eq_zero`: nothing is hidden unless a proxy is stranded.
* `Coherent.settledIn`, `Coherent.settled`: which tiers are settled.
* `usage_device_le_footprint`, `usage_host_le_footprint`: the tallies are bounded by the bytes that
  all proxies have in frames.
-/

namespace TieredStore

namespace Memory

variable {log : List DeviceArray} {m m' : Memory (Proxy DeviceArray)} {id : ProxyId}
  {p : ObjectProxy DeviceArray} {a : DeviceArray} {tier : Tier} {size : BufferId → ℕ} {b : BufferId}

/-- The allocations of the array that a proxy was made around. -/
def originBuffers (log : List DeviceArray) (id : ProxyId) : List BufferId :=
  ((origin? log id).elim [] DeviceArray.deviceBuffers).map DeviceBuffer.id

/-- The stranded proxies. -/
def strandedIds (m : Memory (Proxy DeviceArray)) : List ProxyId :=
  ((m.residents .device).filter fun r => Spillable.tier r.2 = .host).map Prod.fst

/-- The bytes of the allocations that proxies on the device refer to. -/
def liveBytes (m : Memory (Proxy DeviceArray)) (size : BufferId → ℕ) : ℕ :=
  ∑ b ∈ m.deviceBufferIds.toFinset, size b

/-- The bytes of the other allocations that stranded proxies were made around. -/
def hiddenBytes (m : Memory (Proxy DeviceArray)) (size : BufferId → ℕ) (log : List DeviceArray) :
    ℕ :=
  ∑ b ∈ (m.strandedIds.flatMap (originBuffers log)).toFinset \ m.deviceBufferIds.toFinset, size b

/-- A unit is that of an allocation: it has the size of the allocation, the proxies that refer to
it, and the time of the latest access to one of them. -/
structure IsUnitOf (m : Memory (Proxy DeviceArray)) (size : BufferId → ℕ) (b : BufferId)
    (u : EvictionUnit) : Prop where
  /-- The size is that of the allocation. -/
  size_eq : u.size = size b
  /-- The proxies are those that refer to the allocation. -/
  mem_proxies_iff : ∀ id, id ∈ u.proxies ↔ m.Refers id b
  /-- The time is that of the latest access. -/
  isLatest : m.IsLatest u.proxies u.lastAccess

theorem originBuffers_of_origin? (h : origin? log id = some a) :
    originBuffers log id = a.deviceBuffers.map DeviceBuffer.id := by
  rw [originBuffers, h]
  rfl

theorem mem_strandedIds_iff (h : Sound log m) : id ∈ m.strandedIds ↔ m.Stranded id := by
  simp only [strandedIds, List.mem_map, List.mem_filter, decide_eq_true_eq]
  constructor
  · rintro ⟨⟨other, r⟩, ⟨hresident, htier⟩, rfl⟩
    obtain ⟨htracks, hfind⟩ := (mem_residents_iff m .device other r).1 hresident
    obtain ⟨p, -, rfl, -⟩ := h.stands hfind
    exact ⟨htracks, p, hfind, (Proxy.tier_object p).symm.trans htier⟩
  · rintro ⟨htracks, p, hfind, hhost⟩
    exact ⟨(id, .object p), ⟨(mem_residents_iff m .device id _).2 ⟨htracks, hfind⟩,
      (Proxy.tier_object p).trans hhost⟩, rfl⟩

/-- A proxy on the device refers to the allocations of its array as long as it is live. -/
theorem Sound.refers_iff (h : Sound log m) :
    m.Refers id b ↔ m.manager.Tracks .device id ∧ b ∈ originBuffers log id ∧
      ∃ p, m.proxies.find? id = some (.object p) ∧ p.form.tier = .device := by
  constructor
  · rintro ⟨htracks, r, hfind, hb⟩
    obtain ⟨p, a, rfl, horigin, hholds⟩ := h.stands hfind
    change b ∈ p.deviceBuffers.map DeviceBuffer.id at hb
    -- A proxy with a serialized array refers to nothing, wherever it is tracked.
    by_cases htier : p.form.tier = .device
    · rw [ObjectProxy.deviceBuffers_of_device hholds htier] at hb
      rw [originBuffers_of_origin? horigin]
      exact ⟨htracks, hb, p, hfind, htier⟩
    · rw [ObjectProxy.deviceBuffers_of_not_device hholds htier] at hb
      cases hb
  · rintro ⟨htracks, hb, p, hfind, htier⟩
    obtain ⟨a, horigin, hholds⟩ := h.exists_origin hfind
    refine ⟨htracks, .object p, hfind, ?_⟩
    show b ∈ p.deviceBuffers.map DeviceBuffer.id
    rwa [ObjectProxy.deviceBuffers_of_device hholds htier, ← originBuffers_of_origin? horigin]

/-- An allocation that the device accounts for is referred to by a live proxy, or it is one of a
stranded proxy. -/
theorem Coherent.mem_originBuffers_iff (h : Coherent log m) :
    (∃ id, m.manager.Tracks .device id ∧ b ∈ originBuffers log id) ↔
      b ∈ m.deviceBufferIds ∨ ∃ id ∈ m.strandedIds, b ∈ originBuffers log id := by
  simp only [mem_deviceBufferIds_iff, h.toSound.refers_iff, mem_strandedIds_iff h.toSound]
  constructor
  · -- What is tracked on the device is live or stranded.
    rintro ⟨id, htracks, hb⟩
    obtain ⟨p, hfind, -⟩ := h.attached htracks
    rcases h.tier_eq_or hfind htracks with hlive | ⟨-, hhost⟩
    · exact .inl ⟨id, htracks, hb, p, hfind, hlive.symm⟩
    · exact .inr ⟨id, ⟨htracks, p, hfind, hhost⟩, hb⟩
  · rintro (⟨id, htracks, hb, -⟩ | ⟨id, ⟨htracks, -⟩, hb⟩)
    · exact ⟨id, htracks, hb⟩
    · exact ⟨id, htracks, hb⟩

/-! ### The tally of the device -/

/-- What the ledger of a tier records of a proxy that is tracked there. -/
theorem Coherent.records (h : Coherent log m) (htracks : m.manager.Tracks tier id) :
    (m.manager.registry tier).ledger.Records id
      ⟨(m.proxies.find? id).elim 0 Spillable.size,
        (origin? log id).elim [] DeviceArray.deviceBuffers⟩ := by
  obtain ⟨p, hfind, -⟩ := h.attached htracks
  obtain ⟨a, horigin, -⟩ := h.exists_origin hfind
  have htier : tier = .device ∨ tier = p.form.tier :=
    (h.tier_eq_or hfind htracks).symm.imp_left And.left
  rw [hfind, horigin]
  exact h.recorded htracks hfind horigin htier

/-- The device tallies each allocation of the proxies there once. -/
theorem usage_device_eq_sum (h : Coherent log m) (hsized : m.manager.Sized size) :
    m.manager.usage .device =
      ∑ b ∈ ((m.manager.registry .device).entries.flatMap (originBuffers log)).toFinset,
        size b := by
  have hkind := (countsBuffers_iff h.exact .device).2 rfl
  exact Registry.usage_eq_sum_buffers (h.exact.registries .device) hkind (hsized .device)
    fun id hid => h.records hid

/-- The tally of the device in two parts, with the sizes that allocations count there. -/
theorem usage_device_eq_of_sized (h : Coherent log m) (hsized : m.manager.Sized size) :
    m.manager.usage .device = m.liveBytes size + m.hiddenBytes size log := by
  have hcounted : ((m.manager.registry .device).entries.flatMap (originBuffers log)).toFinset =
      m.deviceBufferIds.toFinset ∪ (m.strandedIds.flatMap (originBuffers log)).toFinset := by
    ext b
    simp only [List.mem_toFinset, Finset.mem_union, List.mem_flatMap]
    exact h.mem_originBuffers_iff
  -- An allocation that a live proxy shares with a stranded one is counted with the live ones.
  rw [usage_device_eq_sum h hsized, hcounted, ← Finset.union_sdiff_self_eq_union,
    Finset.sum_union Finset.disjoint_sdiff]
  rfl

theorem usage_device_eq (h : Coherent log m) (hsize : ∀ a ∈ log, a.SizedBy size) :
    m.manager.usage .device = m.liveBytes size + m.hiddenBytes size log :=
  usage_device_eq_of_sized h (h.sized hsize)

theorem Sound.reportsSizes (h : Sound log m) (hsize : ∀ a ∈ log, a.SizedBy size) :
    m.ReportsSizes size := by
  intro id r _ hfind
  obtain ⟨p, a, rfl, horigin, hholds⟩ := h.stands hfind
  intro buffer hbuffer
  change buffer ∈ p.deviceBuffers at hbuffer
  by_cases htier : p.form.tier = .device
  · rw [ObjectProxy.deviceBuffers_of_device hholds htier] at hbuffer
    exact hsize a (mem_of_origin? horigin) buffer hbuffer
  · rw [ObjectProxy.deviceBuffers_of_not_device hholds htier] at hbuffer
    cases hbuffer

/-- Each allocation that a proxy refers to has one unit, in the same order. -/
theorem forall₂_isUnitOf (h : Sound log m) (hsize : ∀ a ∈ log, a.SizedBy size) :
    List.Forall₂ (m.IsUnitOf size) m.deviceBufferIds (m.units .device) := by
  show List.Forall₂ (m.IsUnitOf size) m.deviceBufferIds (m.deviceBufferIds.map m.deviceUnit)
  rw [List.forall₂_map_right_iff, List.forall₂_same]
  intro b hb
  exact ⟨size_deviceUnit (h.reportsSizes hsize) hb, mem_proxies_deviceUnit_iff m b,
    isLatest_deviceUnit hb⟩

theorem sum_sizes_device (h : Sound log m) (hsize : ∀ a ∈ log, a.SizedBy size) :
    ((m.units .device).map EvictionUnit.size).sum = m.liveBytes size :=
  sum_sizes_deviceUnits (h.reportsSizes hsize)

theorem hiddenBytes_eq_zero (h : Sound log m) (hnone : ∀ id, ¬ m.Stranded id) :
    m.hiddenBytes size log = 0 := by
  have hnil : m.strandedIds = [] := by
    rw [List.eq_nil_iff_forall_not_mem]
    intro id hid
    exact hnone id ((mem_strandedIds_iff h).1 hid)
  simp [hiddenBytes, hnil]

/-! ### The other tallies -/

/-- Host and disk are settled even if some proxies are stranded on the device. -/
theorem Coherent.settledIn (h : Coherent log m) (htier : tier ≠ .device) : m.SettledIn tier := by
  intro id htracks
  obtain ⟨p, hfind, hattached⟩ := h.attached htracks
  obtain ⟨a, horigin, -⟩ := h.exists_origin hfind
  have hplace : tier = p.form.tier :=
    (h.tier_eq_or hfind htracks).resolve_right fun hdevice => htier hdevice.1
  refine ⟨.object p, hfind, hattached, (Proxy.tier_object p).trans hplace.symm, ?_⟩
  exact records_of_size (countsBuffers_eq_false h.exact htier)
    (h.recorded htracks hfind horigin (.inr hplace))

/-- The tiers where proxies count one by one tally the sizes of the proxies there. -/
theorem usage_eq_sum_residents (h : Coherent log m) (htier : tier ≠ .device) :
    m.manager.usage tier = ((m.residents tier).map fun r => Spillable.size r.2).sum := by
  rw [sum_residents h.exact]
  exact (h.settledIn htier).recorded.usage_eq_sum h.exact htier

/-- A coherent memory is settled if no proxy is stranded. -/
theorem Coherent.settled (h : Coherent log m) (hseated : ∀ id, m.Seated id) : m.Settled where
  exact := h.exact
  settledIn tier := by
    by_cases hdevice : tier = .device
    · subst hdevice
      intro id htracks
      obtain ⟨p, hfind, hattached⟩ := h.attached htracks
      obtain ⟨a, horigin, hholds⟩ := h.exists_origin hfind
      have hplace := hseated id .device p htracks hfind
      have hreport : Spillable.report (Proxy.object p) = ⟨p.size, a.deviceBuffers⟩ :=
        congrArg (Report.mk p.size) (ObjectProxy.deviceBuffers_of_device hholds hplace.symm)
      refine ⟨.object p, hfind, hattached, (Proxy.tier_object p).trans hplace.symm, ?_⟩
      rw [hreport]
      exact h.recorded htracks hfind horigin (.inl rfl)
    · exact h.settledIn hdevice

theorem Sound.sizedBy (h : Sound log m) (hsize : ∀ a ∈ log, a.SizedBy size) : m.SizedBy size :=
  ⟨h.reportsSizes hsize, h.sized hsize .device⟩

/-! ### Bounds -/

/-- The bytes that the arrays of all proxies have in frames. -/
def footprint (m : Memory (Proxy DeviceArray)) (log : List DeviceArray) : ℕ :=
  ∑ id ∈ m.proxies.keys.toFinset, (origin? log id).elim 0 DeviceArray.footprint

theorem Kept.footprint_eq (h : Kept m m') (log : List DeviceArray) :
    m'.footprint log = m.footprint log := by
  have hkeys : m'.proxies.keys.toFinset = m.proxies.keys.toFinset := by
    ext id
    rw [List.mem_toFinset, List.mem_toFinset, Table.mem_keys_iff, Table.mem_keys_iff]
    exact (h.isAlive_eq id).congr_left
  rw [footprint, hkeys, footprint]

theorem sum_toFinset_le (items : List BufferId) (size : BufferId → ℕ) :
    ∑ b ∈ items.toFinset, size b ≤ (items.map size).sum := by
  induction items with
  | nil => exact Nat.le_refl 0
  | cons b items ih =>
    rw [List.toFinset_cons, List.map_cons, List.sum_cons]
    by_cases hb : b ∈ items.toFinset
    · rw [Finset.insert_eq_of_mem hb]
      omega
    · rw [Finset.sum_insert hb]
      omega

/-- The allocations of an array have its bytes, those that are repeated as often as they occur. -/
theorem sum_originBuffers (hsize : a.SizedBy size) (horigin : origin? log id = some a) :
    ((originBuffers log id).map size).sum = a.nbytes := by
  rw [originBuffers_of_origin? horigin, DeviceArray.nbytes, List.map_map]
  have hbuffers : a.deviceBuffers.map (size ∘ DeviceBuffer.id) =
      a.deviceBuffers.map DeviceBuffer.size :=
    List.map_congr_left fun buffer hbuffer => (hsize buffer hbuffer).symm
  rw [hbuffers, DeviceArray.deviceBuffers, List.map_map]
  rfl

/-- What is tracked in a tier is bounded by what all proxies have. -/
theorem sum_entries_le_footprint (h : Sound log m) (tier : Tier) {f : ProxyId → ℕ}
    (hf : ∀ id ∈ (m.manager.registry tier).entries,
      f id ≤ (origin? log id).elim 0 DeviceArray.footprint) :
    ∑ id ∈ (m.manager.registry tier).entries.toFinset, f id ≤ m.footprint log := by
  have hsubset : (m.manager.registry tier).entries.toFinset ⊆ m.proxies.keys.toFinset := by
    intro id hid
    rw [List.mem_toFinset] at hid ⊢
    exact (Table.mem_keys_iff _ _).2 (h.isAlive_of_tracks hid)
  calc ∑ id ∈ (m.manager.registry tier).entries.toFinset, f id
      ≤ ∑ id ∈ (m.manager.registry tier).entries.toFinset,
          (origin? log id).elim 0 DeviceArray.footprint :=
        Finset.sum_le_sum fun id hid => hf id (List.mem_toFinset.1 hid)
    _ ≤ m.footprint log := Finset.sum_le_sum_of_subset hsubset

theorem usage_device_le_footprint (h : Coherent log m) (hsize : ∀ a ∈ log, a.SizedBy size) :
    m.manager.usage .device ≤ m.footprint log := by
  -- Allocations are counted for each proxy first, and as often as an array repeats them.
  have hflat : ∀ ids : List ProxyId, ((ids.flatMap (originBuffers log)).map size).sum =
      (ids.map fun id => ((originBuffers log id).map size).sum).sum := by
    intro ids
    induction ids with
    | nil => rfl
    | cons id ids ih =>
      rw [List.flatMap_cons, List.map_append, List.sum_append, ih, List.map_cons, List.sum_cons]
  rw [usage_device_eq_sum h (h.sized hsize)]
  refine (sum_toFinset_le _ size).trans ?_
  rw [hflat, ← List.sum_toFinset _ (h.exact.registries .device).nodup]
  refine sum_entries_le_footprint h.toSound .device fun id htracks => ?_
  obtain ⟨p, hfind, -⟩ := h.attached htracks
  obtain ⟨a, horigin, -⟩ := h.exists_origin hfind
  rw [sum_originBuffers (hsize a (mem_of_origin? horigin)) horigin, horigin]
  exact a.nbytes_le_footprint

theorem usage_host_le_footprint (h : Coherent log m) : m.manager.usage .host ≤ m.footprint log := by
  rw [usage_eq_sum_residents h (by decide), sum_residents h.exact]
  refine sum_entries_le_footprint h.toSound .host fun id htracks => ?_
  obtain ⟨p, hfind, -⟩ := h.attached htracks
  obtain ⟨a, horigin, hholds⟩ := h.exists_origin hfind
  -- What is tracked on the host is not stranded, and so it is in frames.
  have hhost : p.form.tier = .host := by
    rcases h.tier_eq_or hfind htracks with htier | ⟨htier, -⟩
    · exact htier.symm
    · cases htier
  rw [hfind, horigin]
  exact (ObjectProxy.size_of_host hholds hhost).le

end Memory

end TieredStore
