import TieredStore.Proofs.Eviction
import TieredStore.Proofs.Memory.Tallies

/-!
# Limits are met

What is planned covers the excess in bytes that are really released: an allocation goes once all
live proxies that refer to it have moved, and a proxy on the host once it is on disk. The host
comes after the device, so what arrives there in between is covered, too.

* `sum_sizes_le_of_not_planned`: the units that do not move as a whole.
* `liveBytes_le_of_enforced`, `usage_host_le_of_enforced`: one tier after an eviction.
* `Enforced.within`: both tiers after both evictions.
* `liveBytes_le_of_revived`: what a single proxy adds when it comes back to the device.
-/

namespace TieredStore

namespace Memory

variable {log : List DeviceArray} {m m' m'' : Memory (Proxy DeviceArray)} {id : ProxyId}
  {a : DeviceArray} {tier : Tier} {size : BufferId → ℕ} {b : BufferId}

/-- The units of which some proxy stays have no more bytes than all units without the surplus. -/
theorem sum_sizes_le_of_not_planned {surplus : ℕ} {left units : List EvictionUnit}
    (hsublist : left.Sublist units)
    (hleft : ∀ u ∈ left, ∃ id ∈ u.proxies, id ∉ planned units surplus) :
    (left.map EvictionUnit.size).sum ≤ (units.map EvictionUnit.size).sum - surplus := by
  by_cases hzero : surplus = 0
  · -- Nothing is planned then, so all units may be left.
    rw [hzero, Nat.sub_zero]
    exact (hsublist.map _).sum_le_sum fun _ _ => Nat.zero_le _
  · refine EvictionUnit.sum_sizes_le_of_not_chosen hsublist fun u hu hchosen => ?_
    obtain ⟨id, hid, hnot⟩ := hleft u hu
    apply hnot
    rw [planned, if_neg hzero]
    exact List.mem_eraseDups.2 (List.mem_flatMap.2 ⟨u, hchosen, hid⟩)

/-! ### Proxies that move -/

theorem Relocated.refers {ids : List ProxyId} (h : Relocated m m' ids tier)
    (htier : tier ≠ .device) (hrefers : m'.Refers id b) : m.Refers id b ∧ id ∉ ids :=
  hrefers.of_moved h.find?_eq h.tracks_iff htier

theorem Relocated.liveBytes_le {ids : List ProxyId} (h : Relocated m m' ids tier)
    (htier : tier ≠ .device) (size : BufferId → ℕ) : m'.liveBytes size ≤ m.liveBytes size := by
  refine Finset.sum_le_sum_of_subset fun b hb => ?_
  rw [List.mem_toFinset, mem_deviceBufferIds_iff] at hb ⊢
  obtain ⟨id, hrefers⟩ := hb
  exact ⟨id, (h.refers htier hrefers).1⟩

/-- The tally of the host is that of the proxies which were there and have not moved. -/
theorem Relocated.usage_host_eq {ids : List ProxyId} (h : Relocated m m' ids tier)
    (htier : tier ≠ .host) (hcoherent : Coherent log m) (hcoherent' : Coherent log m') :
    m'.manager.usage .host =
      (((m.residents .host).filter fun r => r.1 ∉ ids).map fun r => Spillable.size r.2).sum := by
  have htracks : ∀ id, m'.manager.Tracks .host id ↔ m.manager.Tracks .host id ∧ id ∉ ids := by
    intro id
    rw [h.tracks_iff]
    by_cases hid : id ∈ ids
    · simp [hid, htier.symm]
    · simp [hid]
  have hentries : (m'.manager.registry .host).entries.toFinset =
      ((m.manager.registry .host).entries.filter (· ∉ ids)).toFinset := by
    ext id
    simp only [List.mem_toFinset, List.mem_filter, decide_eq_true_eq]
    exact htracks id
  have hfilter := sum_filter_residents hcoherent.exact Spillable.size .host fun id => id ∉ ids
  rw [usage_eq_sum_residents hcoherent' (by decide), sum_residents hcoherent'.exact, hentries,
    hfilter]
  refine Finset.sum_congr rfl fun id hid => ?_
  rw [List.mem_toFinset, List.mem_filter, decide_eq_true_eq] at hid
  rw [h.find?_eq id hid.2]

theorem Relocated.usage_host_le {ids : List ProxyId} (h : Relocated m m' ids tier)
    (htier : tier ≠ .host) (hcoherent : Coherent log m) (hcoherent' : Coherent log m') :
    m'.manager.usage .host ≤ m.manager.usage .host := by
  rw [h.usage_host_eq htier hcoherent hcoherent', usage_eq_sum_residents hcoherent (by decide)]
  exact (List.filter_sublist.map _).sum_le_sum fun _ _ => Nat.zero_le _

/-! ### A tier after an eviction -/

/-- The live proxies that stay on the device leave room for what is to come. -/
theorem liveBytes_le_of_enforced (h : Coherent log m) (hsize : ∀ a ∈ log, a.SizedBy size)
    {extra : ℕ} (hrelocated : Relocated m m' (m.deviceVictims extra) .host)
    (hfits : m.manager.usage .device + extra ≤ maxBytes) :
    m'.liveBytes size ≤ m.manager.deviceLimit - extra := by
  -- An allocation that is still referred to belongs to a unit of which some proxy has not moved.
  have hsubset : ∀ b ∈ m'.deviceBufferIds, b ∈ m.deviceBufferIds ∧
      ∃ id ∈ (m.deviceUnit b).proxies, id ∉ m.deviceVictims extra := by
    intro b hb
    obtain ⟨id, hrefers⟩ := (mem_deviceBufferIds_iff m' b).1 hb
    obtain ⟨hold, hnot⟩ := hrelocated.refers (by decide) hrefers
    exact ⟨(mem_deviceBufferIds_iff m b).2 ⟨id, hold⟩, id,
      (mem_proxies_deviceUnit_iff m b id).2 hold, hnot⟩
  -- So the live bytes that are left are the sizes of some of the units.
  have hleft := sum_sizes_left (h.toSound.reportsSizes hsize) fun b hb => (hsubset b hb).1
  have hsum : m'.liveBytes size ≤ ((m.units .device).map EvictionUnit.size).sum -
      excess (m.manager.usage .device) extra m.manager.deviceLimit := by
    have hsublist : ((m.deviceBufferIds.filter (· ∈ m'.deviceBufferIds)).map m.deviceUnit).Sublist
        (m.units .device) := List.filter_sublist.map _
    rw [liveBytes, ← hleft]
    refine sum_sizes_le_of_not_planned hsublist fun u hu => ?_
    obtain ⟨b, hb, rfl⟩ := List.mem_map.1 hu
    rw [List.mem_filter, decide_eq_true_eq] at hb
    exact (hsubset b hb.2).2
  have husage := usage_device_eq h hsize
  rw [sum_sizes_device h.toSound hsize, excess] at hsum
  -- The excess is reckoned from the tally, which may have hidden bytes on top of the live ones.
  omega

/-- The proxies that stay on the host are within its limit. -/
theorem usage_host_le_of_enforced (h : Coherent log m) (h' : Coherent log m')
    (hrelocated : Relocated m m' (m.hostVictims 0) .disk)
    (hfits : m.manager.usage .host ≤ maxBytes) :
    m'.manager.usage .host ≤ m.manager.hostLimit := by
  have hleft : m'.manager.usage .host = ((((m.residents .host).filter
      fun r => r.1 ∉ m.hostVictims 0).map singleUnit).map EvictionUnit.size).sum := by
    rw [hrelocated.usage_host_eq (by decide) h h', List.map_map]
    rfl
  have hsum : m'.manager.usage .host ≤ ((m.units .host).map EvictionUnit.size).sum -
      excess (m.manager.usage .host) 0 m.manager.hostLimit := by
    have hsublist : (((m.residents .host).filter fun r => r.1 ∉ m.hostVictims 0).map
        singleUnit).Sublist (m.units .host) := List.filter_sublist.map _
    rw [hleft]
    refine sum_sizes_le_of_not_planned hsublist fun u hu => ?_
    -- A proxy that has not moved is a unit of its own.
    obtain ⟨r, hr, rfl⟩ := List.mem_map.1 hu
    exact ⟨r.1, List.mem_cons_self, of_decide_eq_true (List.mem_filter.1 hr).2⟩
  have husage := usage_eq_sum_residents h (show Tier.host ≠ .device by decide)
  rw [sum_sizes_units m (by decide), ← husage, excess] at hsum
  omega

/-! ### Both tiers -/

/-- Once limits have been enforced both tiers are within them, and the device has the room that was
asked for. -/
theorem Enforced.within {extra : ℕ} (henforced : Enforced log extra m m'') (h : Coherent log m)
    (hsize : ∀ a ∈ log, a.SizedBy size) (hdevice : m.manager.usage .device + extra ≤ maxBytes)
    (hfits : m.footprint log ≤ maxBytes) :
    m''.liveBytes size ≤ m.manager.deviceLimit - extra ∧
      m''.manager.usage .host ≤ m.manager.hostLimit := by
  obtain ⟨m', hsound, hrelocated, hsound', hrelocated'⟩ := henforced
  have hfirst := h.advances hsound hrelocated
  have hsecond := hfirst.coherent.advances hsound' hrelocated'
  refine ⟨?_, ?_⟩
  · exact (hrelocated'.liveBytes_le (by decide) size).trans
      (liveBytes_le_of_enforced h hsize hrelocated hdevice)
  · -- What came from the device is counted on the host, and still fits.
    have hhost : m'.manager.usage .host ≤ maxBytes := by
      refine (usage_host_le_footprint hfirst.coherent).trans ?_
      rwa [hfirst.toKept.footprint_eq]
    rw [← hfirst.hostLimit_eq]
    exact usage_host_le_of_enforced hfirst.coherent hsecond.coherent hrelocated' hhost

/-- A proxy that comes back to the device adds no more than the bytes of its array. -/
theorem liveBytes_le_of_revived (h' : Sound log m') (hrelocated : Relocated m m' [id] .device)
    (horigin : origin? log id = some a) (hsize : a.SizedBy size) :
    m'.liveBytes size ≤ m.liveBytes size + a.nbytes := by
  have hsubset : m'.deviceBufferIds.toFinset ⊆
      m.deviceBufferIds.toFinset ∪ (originBuffers log id).toFinset := by
    intro b hb
    rw [List.mem_toFinset, mem_deviceBufferIds_iff] at hb
    rw [Finset.mem_union, List.mem_toFinset, List.mem_toFinset, mem_deviceBufferIds_iff]
    obtain ⟨other, hrefers⟩ := hb
    -- The other proxies refer to what they referred to before.
    by_cases hother : other = id
    · right
      rw [← hother]
      exact (h'.refers_iff.1 hrefers).2.1
    · left
      obtain ⟨htracks, p, hfind, hmem⟩ := hrefers
      have hnot : other ∉ [id] := List.mem_singleton.not.2 hother
      rw [hrelocated.tracks_iff, if_neg hnot] at htracks
      rw [hrelocated.find?_eq other hnot] at hfind
      exact ⟨other, htracks, p, hfind, hmem⟩
  have hbuffers : ∑ b ∈ (originBuffers log id).toFinset, size b ≤ a.nbytes := by
    rw [← sum_originBuffers hsize horigin]
    exact sum_toFinset_le _ size
  have hunion : ∑ b ∈ m.deviceBufferIds.toFinset ∪ (originBuffers log id).toFinset, size b +
      ∑ b ∈ m.deviceBufferIds.toFinset ∩ (originBuffers log id).toFinset, size b =
        ∑ b ∈ m.deviceBufferIds.toFinset, size b + ∑ b ∈ (originBuffers log id).toFinset, size b :=
    Finset.sum_union_inter
  calc m'.liveBytes size
      ≤ ∑ b ∈ m.deviceBufferIds.toFinset ∪ (originBuffers log id).toFinset, size b :=
        Finset.sum_le_sum_of_subset hsubset
    _ ≤ m.liveBytes size + a.nbytes := by
        rw [liveBytes]
        omega

end Memory

end TieredStore
