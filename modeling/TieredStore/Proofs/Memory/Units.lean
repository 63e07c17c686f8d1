import TieredStore.Memory.Demotion
import TieredStore.Proofs.Eviction
import TieredStore.Proofs.Tracking

/-!
# What a tier offers for eviction

The units of the device are the allocations that the proxies there refer to, each of them once and
with all of these proxies. On the other tiers every proxy is a unit of its own.

* `Memory.Refers`: a proxy on the device refers to an allocation.
* `deviceUnits_eq_map`, `singleUnits_eq_map`: the units, one by one.
* `mem_deviceBufferIds_iff`, `nodup_deviceBufferIds`: the allocations.
* `mem_proxies_deviceUnit_iff`, `size_deviceUnit`, `isLatest_deviceUnit`: the unit of each.
* `tracks_of_mem_units`, `tracks_of_mem_victims`: what a tier offers, and what is taken of it.
* `sum_sizes_deviceUnits`, `sum_sizes_units`, `sum_sizes_left`: the bytes of the units.
* `freed_eq_sum_victims`: what a plan counts where every proxy is a unit of its own.
* `Refers.of_moved`: what is referred to when some proxies have left the device.
-/

namespace TieredStore

theorem nodup_eraseDups {α : Type} [DecidableEq α] (items : List α) : items.eraseDups.Nodup := by
  induction hlength : items.length using Nat.strong_induction_on generalizing items with
  | _ n ih =>
    subst hlength
    -- Each step erases the first element from what follows, so the length decreases.
    cases items with
    | nil => simp
    | cons item items =>
      rw [List.eraseDups_cons, List.nodup_cons, List.mem_eraseDups]
      refine ⟨by simp, ih _ ?_ _ rfl⟩
      rw [List.length_cons]
      exact Nat.lt_succ_of_le (List.length_filter_le _ _)

/-- No victim is planned twice. -/
theorem EvictionPlan.nodup_victims (units : List EvictionUnit) (nbytes : ℕ) :
    (make units nbytes).victims.Nodup :=
  nodup_eraseDups _

namespace Memory

variable {P : Type} [Spillable P] {m : Memory P} {id : ProxyId} {b : BufferId}

/-- A proxy on the device refers to an allocation. -/
def Refers (m : Memory P) (id : ProxyId) (b : BufferId) : Prop :=
  m.manager.Tracks .device id ∧
    ∃ p, m.proxies.find? id = some p ∧ b ∈ (Spillable.deviceBuffers p).map DeviceBuffer.id

/-- The proxies on the device report the sizes that are expected of allocations. -/
def ReportsSizes (m : Memory P) (size : BufferId → ℕ) : Prop :=
  ∀ id p, m.manager.Tracks .device id → m.proxies.find? id = some p →
    ∀ buffer ∈ Spillable.deviceBuffers p, buffer.size = size buffer.id

/-- A time is that of the latest access to some proxies. -/
def IsLatest (m : Memory P) (ids : List ProxyId) (time : Int) : Prop :=
  (∃ id ∈ ids, ∃ p, m.proxies.find? id = some p ∧ Spillable.lastAccess p = time) ∧
    ∀ id ∈ ids, ∀ p, m.proxies.find? id = some p → Spillable.lastAccess p ≤ time

/-- The allocations that the proxies on the device refer to, in the order of their identities. -/
def deviceBufferIds (m : Memory P) : List BufferId :=
  (m.deviceReferences.map (fun r => r.1.id)).eraseDups.mergeSort (fun a b => a.raw ≤ b.raw)

/-- An allocation as something to evict. -/
def deviceUnit (m : Memory P) (b : BufferId) : EvictionUnit :=
  let mine := m.deviceReferences.filter (fun r => r.1.id = b)
  let proxies := mine.map Prod.snd
  { lastAccess := m.latestAccess proxies
    size := (mine.map (fun r => r.1.size)).headD 0
    proxies }

theorem deviceUnits_eq_map (m : Memory P) : m.deviceUnits = m.deviceBufferIds.map m.deviceUnit :=
  rfl

/-- A proxy as something to evict. -/
def singleUnit (r : ProxyId × P) : EvictionUnit where
  lastAccess := Spillable.lastAccess r.2
  size := Spillable.size r.2
  proxies := [r.1]

theorem singleUnits_eq_map (m : Memory P) (tier : Tier) :
    m.singleUnits tier = (m.residents tier).map singleUnit :=
  rfl

omit [Spillable P] in
/-- The residents of a tier are the proxies that are tracked there and exist. -/
theorem mem_residents_iff (m : Memory P) (tier : Tier) (id : ProxyId) (p : P) :
    (id, p) ∈ m.residents tier ↔ m.manager.Tracks tier id ∧ m.proxies.find? id = some p := by
  simp only [residents, List.mem_filterMap, Option.map_eq_some_iff, Prod.mk.injEq]
  constructor
  · rintro ⟨other, htracks, q, hfind, rfl, rfl⟩
    exact ⟨htracks, hfind⟩
  · rintro ⟨htracks, hfind⟩
    exact ⟨id, htracks, p, hfind, rfl, rfl⟩

theorem mem_deviceReferences_iff (m : Memory P) (buffer : DeviceBuffer) (id : ProxyId) :
    (buffer, id) ∈ m.deviceReferences ↔ m.manager.Tracks .device id ∧
      ∃ p, m.proxies.find? id = some p ∧ buffer ∈ Spillable.deviceBuffers p := by
  simp only [deviceReferences, List.mem_flatMap, List.mem_map, Prod.mk.injEq]
  constructor
  · rintro ⟨⟨other, p⟩, hmem, buffer', hbuffer, rfl, rfl⟩
    obtain ⟨htracks, hfind⟩ := (mem_residents_iff m .device other p).1 hmem
    exact ⟨htracks, p, hfind, hbuffer⟩
  · rintro ⟨htracks, p, hfind, hbuffer⟩
    exact ⟨(id, p), (mem_residents_iff m .device id p).2 ⟨htracks, hfind⟩, buffer, hbuffer, rfl,
      rfl⟩

theorem nodup_deviceBufferIds (m : Memory P) : m.deviceBufferIds.Nodup := by
  rw [deviceBufferIds, (List.mergeSort_perm _ _).nodup_iff]
  exact nodup_eraseDups _

theorem mem_deviceBufferIds_iff (m : Memory P) (b : BufferId) :
    b ∈ m.deviceBufferIds ↔ ∃ id, m.Refers id b := by
  rw [deviceBufferIds, List.mem_mergeSort, List.mem_eraseDups, List.mem_map]
  constructor
  · rintro ⟨⟨buffer, id⟩, hmem, rfl⟩
    obtain ⟨htracks, p, hfind, hbuffer⟩ := (mem_deviceReferences_iff m buffer id).1 hmem
    exact ⟨id, htracks, p, hfind, List.mem_map_of_mem hbuffer⟩
  · rintro ⟨id, htracks, p, hfind, hb⟩
    obtain ⟨buffer, hbuffer, rfl⟩ := List.mem_map.1 hb
    exact ⟨(buffer, id), (mem_deviceReferences_iff m buffer id).2 ⟨htracks, p, hfind, hbuffer⟩, rfl⟩

/-- The proxies of the unit of an allocation are those that refer to it. -/
theorem mem_proxies_deviceUnit_iff (m : Memory P) (b : BufferId) (id : ProxyId) :
    id ∈ (m.deviceUnit b).proxies ↔ m.Refers id b := by
  simp only [deviceUnit, List.mem_map, List.mem_filter, decide_eq_true_eq]
  constructor
  · rintro ⟨⟨buffer, other⟩, ⟨hmem, rfl⟩, rfl⟩
    obtain ⟨htracks, p, hfind, hbuffer⟩ := (mem_deviceReferences_iff m buffer other).1 hmem
    exact ⟨htracks, p, hfind, List.mem_map_of_mem hbuffer⟩
  · rintro ⟨htracks, p, hfind, hb⟩
    obtain ⟨buffer, hbuffer, hid⟩ := List.mem_map.1 hb
    exact ⟨(buffer, id),
      ⟨(mem_deviceReferences_iff m buffer id).2 ⟨htracks, p, hfind, hbuffer⟩, hid⟩, rfl⟩

/-- The unit of an allocation has the size that all proxies agree on. -/
theorem size_deviceUnit {size : BufferId → ℕ} (hsize : m.ReportsSizes size)
    (hb : b ∈ m.deviceBufferIds) : (m.deviceUnit b).size = size b := by
  obtain ⟨id, hrefers⟩ := (mem_deviceBufferIds_iff m b).1 hb
  have hmem := (mem_proxies_deviceUnit_iff m b id).2 hrefers
  simp only [deviceUnit] at hmem ⊢
  -- The size is taken from the first reference, which is that of some proxy on the device.
  rcases hmine : m.deviceReferences.filter (fun r => r.1.id = b) with _ | ⟨⟨buffer, other⟩, mine⟩
  · rw [hmine] at hmem
    cases hmem
  · have hfirst : (buffer, other) ∈ m.deviceReferences.filter (fun r => r.1.id = b) := by
      rw [hmine]
      exact List.mem_cons_self
    rw [List.mem_filter, decide_eq_true_eq] at hfirst
    obtain ⟨htracks, p, hfind, hbuffer⟩ := (mem_deviceReferences_iff m buffer other).1 hfirst.1
    rw [hmine, List.map_cons, List.headD_cons, hsize other p htracks hfind buffer hbuffer,
      hfirst.2]

/-- The latest access is known if one of the proxies exists. -/
theorem isLatest_latestAccess {ids : List ProxyId} {p : P} (hid : id ∈ ids)
    (hfind : m.proxies.find? id = some p) : m.IsLatest ids (m.latestAccess ids) := by
  have hmem : Spillable.lastAccess p ∈ (ids.filterMap m.proxies.find?).map Spillable.lastAccess :=
    List.mem_map_of_mem (List.mem_filterMap.2 ⟨id, hid, hfind⟩)
  rw [latestAccess]
  rcases hmax : ((ids.filterMap m.proxies.find?).map Spillable.lastAccess).max? with _ | time
  · rw [List.max?_eq_none_iff] at hmax
    rw [hmax] at hmem
    cases hmem
  · obtain ⟨htime, hle⟩ := List.max?_eq_some_iff.1 hmax
    rw [Option.getD_some]
    refine ⟨?_, fun other hother q hq => ?_⟩
    · obtain ⟨q, hq, rfl⟩ := List.mem_map.1 htime
      obtain ⟨other, hother, hfind'⟩ := List.mem_filterMap.1 hq
      exact ⟨other, hother, q, hfind', rfl⟩
    · exact hle _ (List.mem_map_of_mem (List.mem_filterMap.2 ⟨other, hother, hq⟩))

/-- The unit of an allocation has the time of the latest access to one of its proxies. -/
theorem isLatest_deviceUnit (hb : b ∈ m.deviceBufferIds) :
    m.IsLatest (m.deviceUnit b).proxies (m.deviceUnit b).lastAccess := by
  obtain ⟨id, hrefers⟩ := (mem_deviceBufferIds_iff m b).1 hb
  obtain ⟨p, hfind, -⟩ := hrefers.2
  exact isLatest_latestAccess ((mem_proxies_deviceUnit_iff m b id).2 hrefers) hfind

/-- What a tier offers for eviction is tracked there, and exists. -/
theorem tracks_of_mem_units {tier : Tier} {u : EvictionUnit} (hu : u ∈ m.units tier)
    (hid : id ∈ u.proxies) :
    m.manager.Tracks tier id ∧ ∃ p, m.proxies.find? id = some p := by
  have hsingle : ∀ tier, u ∈ m.singleUnits tier →
      m.manager.Tracks tier id ∧ ∃ p, m.proxies.find? id = some p := by
    intro tier hu
    obtain ⟨⟨other, p⟩, hmem, rfl⟩ := List.mem_map.1 hu
    rw [List.mem_singleton.1 hid]
    obtain ⟨htracks, hfind⟩ := (mem_residents_iff m tier other p).1 hmem
    exact ⟨htracks, p, hfind⟩
  cases tier with
  | device =>
    obtain ⟨b, -, rfl⟩ := List.mem_map.1 (show u ∈ m.deviceBufferIds.map m.deviceUnit from hu)
    obtain ⟨htracks, p, hfind, -⟩ := (mem_proxies_deviceUnit_iff m b id).1 hid
    exact ⟨htracks, p, hfind⟩
  | host => exact hsingle .host hu
  | disk => exact hsingle .disk hu

/-- What a plan takes from a tier is tracked there. -/
theorem tracks_of_mem_victims {tier : Tier} {nbytes : ℕ}
    (hid : id ∈ (EvictionPlan.make (m.units tier) nbytes).victims) : m.manager.Tracks tier id := by
  obtain ⟨u, hu, hmem⟩ := EvictionPlan.exists_of_mem_victims hid
  exact (tracks_of_mem_units hu hmem).1

/-! ### Sums -/

theorem sum_map_filterMap {α β : Type} (f : α → Option β) (g : β → ℕ) (items : List α) :
    ((items.filterMap f).map g).sum = (items.map fun x => (f x).elim 0 g).sum := by
  induction items with
  | nil => rfl
  | cons x items ih =>
    rw [List.filterMap_cons, List.map_cons, List.sum_cons, ← ih]
    cases f x with
    | none => simp
    | some y => simp

omit [Spillable P] in
/-- A sum over some proxies of a tier is a sum over the identities that are tracked there. -/
theorem sum_filter_residents (h : m.manager.Exact) (f : P → ℕ) (tier : Tier)
    (q : ProxyId → Bool) :
    (((m.residents tier).filter fun r => q r.1).map fun r => f r.2).sum =
      ∑ id ∈ ((m.manager.registry tier).entries.filter q).toFinset,
        (m.proxies.find? id).elim 0 f := by
  have hfilter : (m.residents tier).filter (fun r => q r.1) =
      ((m.manager.registry tier).entries.filter q).filterMap
        fun id => (m.proxies.find? id).map fun p => (id, p) := by
    rw [residents, List.filter_filterMap, List.filterMap_filter]
    refine List.filterMap_congr fun id _ => ?_
    cases m.proxies.find? id with
    | none => simp
    | some p => simp [Option.filter]
  rw [List.sum_toFinset _ ((h.registries tier).nodup.filter _), hfilter, sum_map_filterMap]
  refine congrArg List.sum (List.map_congr_left fun id _ => ?_)
  cases m.proxies.find? id <;> rfl

omit [Spillable P] in
theorem sum_residents (h : m.manager.Exact) (f : P → ℕ) (tier : Tier) :
    ((m.residents tier).map fun r => f r.2).sum =
      ∑ id ∈ (m.manager.registry tier).entries.toFinset, (m.proxies.find? id).elim 0 f := by
  simpa using sum_filter_residents h f tier fun _ => true

omit [Spillable P] in
/-- No proxy is a resident of a tier twice. -/
theorem nodup_residents (h : m.manager.Exact) (tier : Tier) :
    ((m.residents tier).map Prod.fst).Nodup := by
  have hsublist : ((m.residents tier).map Prod.fst).Sublist (m.manager.registry tier).entries := by
    rw [residents]
    generalize (m.manager.registry tier).entries = ids
    induction ids with
    | nil => exact List.Sublist.refl _
    | cons id ids ih =>
      rw [List.filterMap_cons]
      cases m.proxies.find? id with
      | none => exact ih.cons id
      | some p => exact ih.cons_cons id
  exact (h.registries tier).nodup.sublist hsublist

theorem sum_sizes_units (m : Memory P) {tier : Tier} (htier : tier ≠ .device) :
    ((m.units tier).map EvictionUnit.size).sum =
      ((m.residents tier).map fun r => Spillable.size r.2).sum := by
  have hsingle : ∀ tier, ((m.singleUnits tier).map EvictionUnit.size).sum =
      ((m.residents tier).map fun r => Spillable.size r.2).sum := by
    intro tier
    rw [singleUnits_eq_map, List.map_map]
    rfl
  cases tier with
  | device => exact absurd rfl htier
  | host => exact hsingle .host
  | disk => exact hsingle .disk

section

variable {size : BufferId → ℕ} {m' : Memory P}

theorem sum_sizes_deviceUnits (hsize : m.ReportsSizes size) :
    ((m.units .device).map EvictionUnit.size).sum = ∑ b ∈ m.deviceBufferIds.toFinset, size b := by
  rw [List.sum_toFinset _ m.nodup_deviceBufferIds]
  show (m.deviceUnits.map EvictionUnit.size).sum = _
  rw [deviceUnits_eq_map, List.map_map]
  refine congrArg List.sum (List.map_congr_left fun b hb => ?_)
  exact size_deviceUnit hsize hb

/-- The allocations that are still referred to when some references have gone have the bytes of
their units. -/
theorem sum_sizes_left (hsize : m.ReportsSizes size)
    (hsubset : ∀ b ∈ m'.deviceBufferIds, b ∈ m.deviceBufferIds) :
    (((m.deviceBufferIds.filter (· ∈ m'.deviceBufferIds)).map m.deviceUnit).map
      EvictionUnit.size).sum = ∑ b ∈ m'.deviceBufferIds.toFinset, size b := by
  have hkept : m'.deviceBufferIds.toFinset =
      (m.deviceBufferIds.filter (· ∈ m'.deviceBufferIds)).toFinset := by
    ext b
    simp only [List.mem_toFinset, List.mem_filter, decide_eq_true_eq]
    exact ⟨fun hb => ⟨hsubset b hb, hb⟩, And.right⟩
  rw [hkept, List.sum_toFinset _ (m.nodup_deviceBufferIds.filter _), List.map_map]
  refine congrArg List.sum (List.map_congr_left fun b hb => ?_)
  exact size_deviceUnit hsize (List.mem_filter.1 hb).1

end

/-- Where every proxy is a unit of its own, what is chosen are some of the proxies there. -/
theorem exists_residents_of_chosen (m : Memory P) (tier : Tier) (nbytes : ℕ) :
    ∃ chosen : List (ProxyId × P), List.Subperm chosen (m.residents tier) ∧
      EvictionUnit.chosen (m.singleUnits tier) nbytes = chosen.map singleUnit := by
  have hsorted : EvictionUnit.inOrder (m.singleUnits tier) =
      ((m.residents tier).mergeSort fun r s => (singleUnit r).goesBefore (singleUnit s)).map
        singleUnit :=
    (List.map_mergeSort (s := EvictionUnit.goesBefore) (f := singleUnit) fun _ _ _ _ => rfl).symm
  -- What is chosen stands in front, and so do the proxies that it was made of.
  have hprefix := EvictionUnit.takeUntil_isPrefix nbytes (EvictionUnit.inOrder (m.singleUnits tier))
  rw [List.prefix_iff_eq_take, hsorted, ← List.map_take] at hprefix
  refine ⟨_, ?_, (show _ = EvictionUnit.takeUntil _ _ from rfl).trans (hsorted ▸ hprefix)⟩
  exact ((List.take_sublist _ _).subperm).trans (List.mergeSort_perm _ _).subperm

/-- Where every proxy is a unit of its own, a plan counts the sizes of its victims. -/
theorem freed_eq_sum_victims (h : m.manager.Exact) (tier : Tier) (nbytes : ℕ) :
    (EvictionPlan.make (m.singleUnits tier) nbytes).freed =
      ∑ id ∈ (EvictionPlan.make (m.singleUnits tier) nbytes).victims.toFinset,
        (m.proxies.find? id).elim 0 Spillable.size := by
  obtain ⟨chosen, hsubperm, hchosen⟩ := m.exists_residents_of_chosen tier nbytes
  have hnodup : (chosen.map Prod.fst).Nodup := by
    obtain ⟨some, hperm, hsublist⟩ := hsubperm
    rw [← (hperm.map Prod.fst).nodup_iff]
    exact (nodup_residents h tier).sublist (hsublist.map Prod.fst)
  have hvictims : (EvictionPlan.make (m.singleUnits tier) nbytes).victims.toFinset =
      (chosen.map Prod.fst).toFinset := by
    ext id
    simp [EvictionPlan.make, hchosen, singleUnit]
  rw [hvictims, List.sum_toFinset _ hnodup, EvictionPlan.make, hchosen, List.map_map, List.map_map]
  refine congrArg List.sum (List.map_congr_left fun r hr => ?_)
  have hfind := ((mem_residents_iff m tier r.1 r.2).1 (hsubperm.subset hr)).2
  show Spillable.size r.2 = (m.proxies.find? r.1).elim 0 Spillable.size
  rw [hfind]
  rfl

/-- A proxy refers to nothing on the device any more once it has moved elsewhere. -/
theorem Refers.of_moved {m' : Memory P} {ids : List ProxyId} {tier : Tier} (h : m'.Refers id b)
    (hfind : ∀ id, id ∉ ids → m'.proxies.find? id = m.proxies.find? id)
    (htracks : ∀ t id,
      m'.manager.Tracks t id ↔ if id ∈ ids then t = tier else m.manager.Tracks t id)
    (htier : tier ≠ .device) : m.Refers id b ∧ id ∉ ids := by
  obtain ⟨hdevice, p, hp, hb⟩ := h
  rw [htracks] at hdevice
  split at hdevice
  next => exact absurd hdevice.symm htier
  next hid =>
    rw [hfind id hid] at hp
    exact ⟨⟨hdevice, p, hp, hb⟩, hid⟩

end Memory

end TieredStore
