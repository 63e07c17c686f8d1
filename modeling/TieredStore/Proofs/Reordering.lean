import TieredStore.Proofs.Relief
import TieredStore.Proofs.Selection

/-!
# Evictions and the order of the books

A registry lists its proxies in no order that matters. The device sorts the allocations by their
identities before anything else, so ties between them are settled in the same way whatever the order
of the books. On the host ties are settled by the order of the books, but proxies that tie have the
same size, so as much is released either way.

* `EvictionUnit.map_key_inOrder_of_perm`, `EvictionPlan.make_eq_of_perm`: plans from reordered
  units.
* `Reordered.settled`, `Reordered.sizedBy`: what holds of a memory however its books are listed.
* `Memory.deviceOrder`, `Reordered.deviceOrder_eq`: the allocations in the order of eviction.
* `Memory.SamePlaces`: two memories that differ in nothing that can be seen of proxies and tiers.
* `evict_reordered`: evictions from reordered memories.
-/

namespace TieredStore

/-! ### Plans from reordered units -/

namespace EvictionUnit

variable {us vs : List EvictionUnit} {nbytes : ℕ}

/-- What the order of eviction depends on. -/
def key (u : EvictionUnit) : Int × ℕ := (u.lastAccess, u.size)

theorem goesBefore_congr {u v u' v' : EvictionUnit} (hu : u.key = u'.key) (hv : v.key = v'.key) :
    u.goesBefore v = u'.goesBefore v' := by
  rw [key, key, Prod.mk.injEq] at hu hv
  rw [goesBefore, goesBefore, hu.1, hu.2, hv.1, hv.2]

/-- How many units are taken depends on their sizes. -/
theorem exists_takeUntil_eq_take (hsizes : us.map size = vs.map size) :
    ∃ n, takeUntil nbytes us = us.take n ∧ takeUntil nbytes vs = vs.take n := by
  induction us generalizing vs nbytes with
  | nil =>
    have hnone : vs = [] := List.map_eq_nil_iff.1 hsizes.symm
    exact ⟨0, rfl, by rw [hnone]; rfl⟩
  | cons u us ih =>
    cases vs with
    | nil => cases hsizes
    | cons v vs =>
      rw [List.map_cons, List.map_cons, List.cons.injEq] at hsizes
      obtain ⟨hfirst, hrest⟩ := hsizes
      rw [takeUntil, takeUntil, hfirst]
      split
      · exact ⟨1, rfl, rfl⟩
      · obtain ⟨n, hus, hvs⟩ := @ih vs (nbytes - v.size) hrest
        exact ⟨n + 1, by rw [hus, List.take_succ_cons], by rw [hvs, List.take_succ_cons]⟩

theorem pairwise_inOrder (us : List EvictionUnit) :
    (inOrder us).Pairwise fun u v => u.goesBefore v = true :=
  List.pairwise_mergeSort goesBefore_trans goesBefore_total us

/-- Times and sizes stand in the same order, whatever the order of the units was. -/
theorem map_key_inOrder_of_perm (h : us.Perm vs) :
    (inOrder us).map key = (inOrder vs).map key := by
  have hsorted : ∀ us, ((inOrder us).map key).Pairwise fun a b =>
      a.1 < b.1 ∨ a.1 = b.1 ∧ b.2 ≤ a.2 := by
    intro us
    rw [List.pairwise_map]
    exact (pairwise_inOrder us).imp fun hle => (goesBefore_iff _ _).1 hle
  have hperm : (inOrder us).Perm (inOrder vs) :=
    (List.mergeSort_perm _ _).trans (h.trans (List.mergeSort_perm _ _).symm)
  refine List.Perm.eq_of_pairwise ?_ (hsorted us) (hsorted vs) (hperm.map key)
  rintro ⟨a, i⟩ ⟨b, j⟩ - - hab hba
  simp only [Prod.mk.injEq]
  omega

/-- Without ties the units themselves do. -/
theorem inOrder_eq_of_perm (h : us.Perm vs)
    (hties : ∀ u ∈ us, ∀ v ∈ us, u.key = v.key → u = v) : inOrder us = inOrder vs := by
  have hperm : (inOrder us).Perm (inOrder vs) :=
    (List.mergeSort_perm _ _).trans (h.trans (List.mergeSort_perm _ _).symm)
  refine List.Perm.eq_of_pairwise ?_ (pairwise_inOrder us) (pairwise_inOrder vs) hperm
  intro u v hu hv huv hvu
  have hv : v ∈ us := h.mem_iff.2 (List.mem_mergeSort.1 hv)
  apply hties u (List.mem_mergeSort.1 hu) v hv
  rw [goesBefore_iff] at huv hvu
  rw [key, key, Prod.mk.injEq]
  omega

end EvictionUnit

namespace EvictionPlan

open EvictionUnit

variable {us vs : List EvictionUnit}

/-- As much is released, whatever the order of the units was. -/
theorem freed_eq_of_perm (h : us.Perm vs) (nbytes : ℕ) :
    (make us nbytes).freed = (make vs nbytes).freed := by
  have hsizes : (inOrder us).map size = (inOrder vs).map size := by
    have hkeys := congrArg (List.map Prod.snd) (map_key_inOrder_of_perm h)
    rwa [List.map_map, List.map_map] at hkeys
  obtain ⟨n, hus, hvs⟩ := @exists_takeUntil_eq_take _ _ nbytes hsizes
  show ((takeUntil nbytes (inOrder us)).map size).sum =
    ((takeUntil nbytes (inOrder vs)).map size).sum
  rw [hus, hvs, List.map_take, List.map_take, hsizes]

/-- Without ties the plan is the same. -/
theorem make_eq_of_perm (h : us.Perm vs) (hties : ∀ u ∈ us, ∀ v ∈ us, u.key = v.key → u = v)
    (nbytes : ℕ) : make us nbytes = make vs nbytes := by
  rw [make, make, EvictionUnit.chosen, EvictionUnit.chosen, inOrder_eq_of_perm h hties]

end EvictionPlan

/-! ### Memories with reordered books -/

namespace Memory

section

variable {P : Type} [Spillable P] {m n : Memory P} {tier : Tier} {id : ProxyId} {b : BufferId}
  {size : BufferId → ℕ}

theorem Reordered.settled (h : m.Reordered n) (hm : m.Settled) : n.Settled where
  exact := h.exact hm.exact
  settledIn tier id htracks := by
    rw [h.tracks_iff] at htracks
    rw [h.find?_eq, (h.registries tier).ledger_eq]
    exact hm.settledIn tier id htracks

theorem Reordered.sizedBy (h : m.Reordered n) (hm : m.SizedBy size) : n.SizedBy size where
  counted := by
    rw [(h.registries .device).ledger_eq]
    exact hm.counted
  reports id p htracks hfind := by
    rw [h.tracks_iff] at htracks
    rw [h.find?_eq] at hfind
    exact hm.reports id p htracks hfind

omit [Spillable P] in
theorem Reordered.residents_perm (h : m.Reordered n) (tier : Tier) :
    (m.residents tier).Perm (n.residents tier) := by
  rw [residents, residents, funext h.find?_eq]
  exact (h.registries tier).entries_perm.filterMap _

theorem Reordered.refers_iff (h : m.Reordered n) (id : ProxyId) (b : BufferId) :
    n.Refers id b ↔ m.Refers id b := by
  rw [Refers, Refers, h.tracks_iff, h.find?_eq]

/-- The memory with the books of every tier listed from the other end. -/
def backwards (m : Memory P) : Memory P where
  clock := m.clock
  nextId := m.nextId
  proxies := m.proxies
  isManaged := m.isManaged
  spill := m.spill
  manager :=
    { m.manager with
      disk := { m.manager.disk with entries := m.manager.disk.entries.reverse }
      host := { m.manager.host with entries := m.manager.host.entries.reverse }
      device := { m.manager.device with entries := m.manager.device.entries.reverse } }

omit [Spillable P] in
theorem reordered_backwards (m : Memory P) : m.Reordered m.backwards where
  find?_eq _ := rfl
  spill_eq := rfl
  registries tier := by
    cases tier <;> exact ⟨rfl, (List.reverse_perm _).symm, rfl, rfl⟩

/-! ### The allocations of the device -/

/-- Allocations are offered in the order of their identities. -/
theorem pairwise_deviceBufferIds (m : Memory P) :
    m.deviceBufferIds.Pairwise fun a b => a.raw < b.raw := by
  have hsorted : m.deviceBufferIds.Pairwise fun a b => decide (a.raw ≤ b.raw) = true := by
    apply List.pairwise_mergeSort
    · intro a b c hab hbc
      rw [decide_eq_true_eq] at *
      exact UInt64.le_trans hab hbc
    · intro a b
      rw [Bool.or_eq_true, decide_eq_true_eq, decide_eq_true_eq]
      exact UInt64.le_total a.raw b.raw
  refine hsorted.imp₂ (fun a b hle hne => ?_) m.nodup_deviceBufferIds
  rw [decide_eq_true_eq] at hle
  apply UInt64.lt_of_le_of_ne hle
  intro hraw
  cases a
  cases b
  exact hne (congrArg BufferId.mk hraw)

theorem Reordered.deviceBufferIds_eq (h : m.Reordered n) :
    n.deviceBufferIds = m.deviceBufferIds := by
  refine List.Perm.eq_of_pairwise (fun a b _ _ hab hba => ?_) n.pairwise_deviceBufferIds
    m.pairwise_deviceBufferIds ?_
  · exact absurd hba (UInt64.lt_asymm hab)
  · rw [List.perm_ext_iff_of_nodup n.nodup_deviceBufferIds m.nodup_deviceBufferIds]
    intro b
    rw [mem_deviceBufferIds_iff, mem_deviceBufferIds_iff]
    exact exists_congr fun id => h.refers_iff id b

/-- A latest access is not earlier than one to some of the same proxies. -/
theorem IsLatest.le {ids more : List ProxyId} {time later : Int} (h : m.IsLatest ids time)
    (h' : n.IsLatest more later) (hfind : ∀ id, n.proxies.find? id = m.proxies.find? id)
    (hsubset : ids ⊆ more) : time ≤ later := by
  obtain ⟨⟨id, hid, p, hp, rfl⟩, -⟩ := h
  exact h'.2 id (hsubset hid) p ((hfind id).trans hp)

/-- The unit of an allocation stands at the same place in the order of eviction. -/
theorem Reordered.key_deviceUnit_eq (h : m.Reordered n) (hm : m.SizedBy size)
    (hb : b ∈ m.deviceBufferIds) : (n.deviceUnit b).key = (m.deviceUnit b).key := by
  have hb' : b ∈ n.deviceBufferIds := by rwa [h.deviceBufferIds_eq]
  have hproxies : ∀ id, id ∈ (n.deviceUnit b).proxies ↔ id ∈ (m.deviceUnit b).proxies := by
    intro id
    rw [mem_proxies_deviceUnit_iff, mem_proxies_deviceUnit_iff, h.refers_iff]
  have htime : (n.deviceUnit b).lastAccess = (m.deviceUnit b).lastAccess := by
    apply Int.le_antisymm
    · exact (isLatest_deviceUnit hb').le (isLatest_deviceUnit hb) (fun id => (h.find?_eq id).symm)
        fun id => (hproxies id).1
    · exact (isLatest_deviceUnit hb).le (isLatest_deviceUnit hb') h.find?_eq fun id =>
        (hproxies id).2
  rw [EvictionUnit.key, EvictionUnit.key, htime, size_deviceUnit hm.reports hb,
    size_deviceUnit (h.sizedBy hm).reports hb']

/-- An allocation goes before another one: its proxies were used earlier, or at the same time and it
is larger, or both agree and it has the smaller identity. -/
def EvictedBefore (m : Memory P) (a b : BufferId) : Prop :=
  (m.deviceUnit a).lastAccess < (m.deviceUnit b).lastAccess ∨
    (m.deviceUnit a).lastAccess = (m.deviceUnit b).lastAccess ∧
      ((m.deviceUnit b).size < (m.deviceUnit a).size ∨
        (m.deviceUnit a).size = (m.deviceUnit b).size ∧ a.raw < b.raw)

/-- The allocations in the order of eviction. -/
def deviceOrder (m : Memory P) : List BufferId :=
  m.deviceBufferIds.mergeSort fun a b => (m.deviceUnit a).goesBefore (m.deviceUnit b)

theorem inOrder_units_device (m : Memory P) :
    EvictionUnit.inOrder (m.units .device) = m.deviceOrder.map m.deviceUnit :=
  (List.map_mergeSort (s := EvictionUnit.goesBefore) fun _ _ _ _ => rfl).symm

theorem pairwise_deviceOrder (m : Memory P) : m.deviceOrder.Pairwise m.EvictedBefore := by
  have hsorted := pairwise_mergeSort_stable
    (fun a b c => EvictionUnit.goesBefore_trans (m.deviceUnit a) (m.deviceUnit b) (m.deviceUnit c))
    (fun a b => EvictionUnit.goesBefore_total (m.deviceUnit a) (m.deviceUnit b))
    m.pairwise_deviceBufferIds
  apply hsorted.imp
  rintro a b ⟨hle, hties⟩
  rw [EvictionUnit.goesBefore_iff] at hle hties
  -- Where neither time nor size decides, the identities do.
  by_cases hback : (m.deviceUnit b).lastAccess < (m.deviceUnit a).lastAccess ∨
      (m.deviceUnit b).lastAccess = (m.deviceUnit a).lastAccess ∧
        (m.deviceUnit a).size ≤ (m.deviceUnit b).size
  · have hraw := hties hback
    refine .inr ⟨by omega, .inr ⟨by omega, hraw⟩⟩
  · unfold EvictedBefore
    omega

theorem Reordered.deviceOrder_eq (h : m.Reordered n) (hm : m.SizedBy size) :
    n.deviceOrder = m.deviceOrder := by
  have hsame : ∀ a ∈ m.deviceBufferIds, ∀ b ∈ m.deviceBufferIds,
      (n.deviceUnit a).goesBefore (n.deviceUnit b) =
        (m.deviceUnit a).goesBefore (m.deviceUnit b) := by
    intro a ha b hb
    exact EvictionUnit.goesBefore_congr (h.key_deviceUnit_eq hm ha) (h.key_deviceUnit_eq hm hb)
  rw [deviceOrder, h.deviceBufferIds_eq, deviceOrder]
  simpa only [List.map_id] using List.map_mergeSort (f := id) hsame

/-- The same allocations are chosen, in the order of eviction, whatever the order of the books. -/
theorem Reordered.exists_chosen (h : m.Reordered n) (hm : m.SizedBy size) (nbytes : ℕ) :
    ∃ taken left, m.deviceOrder = taken ++ left ∧
      EvictionUnit.chosen (m.units .device) nbytes = taken.map m.deviceUnit ∧
      EvictionUnit.chosen (n.units .device) nbytes = taken.map n.deviceUnit := by
  have hsizes : (m.deviceOrder.map m.deviceUnit).map EvictionUnit.size =
      (m.deviceOrder.map n.deviceUnit).map EvictionUnit.size := by
    rw [List.map_map, List.map_map]
    apply List.map_congr_left
    intro b hb
    have hb := List.mem_mergeSort.1 hb
    exact (congrArg Prod.snd (h.key_deviceUnit_eq hm hb)).symm
  obtain ⟨k, hm', hn'⟩ := @EvictionUnit.exists_takeUntil_eq_take _ _ nbytes hsizes
  refine ⟨m.deviceOrder.take k, m.deviceOrder.drop k, (List.take_append_drop _ _).symm, ?_, ?_⟩
  · rw [EvictionUnit.chosen, inOrder_units_device, hm', List.map_take]
  · rw [EvictionUnit.chosen, inOrder_units_device, h.deviceOrder_eq hm, hn', List.map_take]

/-- A plan for the device counts the same. -/
theorem Reordered.freed_device_eq (h : m.Reordered n) (hm : m.SizedBy size) (nbytes : ℕ) :
    (EvictionPlan.make (n.units .device) nbytes).freed =
      (EvictionPlan.make (m.units .device) nbytes).freed := by
  obtain ⟨taken, left, horder, hchosen, hchosen'⟩ := h.exists_chosen hm nbytes
  rw [EvictionPlan.make, EvictionPlan.make, hchosen, hchosen', List.map_map, List.map_map]
  refine congrArg List.sum (List.map_congr_left fun b hb => ?_)
  have hb : b ∈ m.deviceOrder := horder ▸ List.mem_append_left left hb
  exact congrArg Prod.snd (h.key_deviceUnit_eq hm (List.mem_mergeSort.1 hb))

/-- A plan for the device has the same victims. -/
theorem Reordered.mem_victims_device_iff (h : m.Reordered n) (hm : m.SizedBy size) (nbytes : ℕ)
    (id : ProxyId) : id ∈ (EvictionPlan.make (n.units .device) nbytes).victims ↔
      id ∈ (EvictionPlan.make (m.units .device) nbytes).victims := by
  obtain ⟨taken, left, -, hchosen, hchosen'⟩ := h.exists_chosen hm nbytes
  simp only [EvictionPlan.make, hchosen, hchosen', List.mem_eraseDups, List.mem_flatMap,
    List.mem_map, exists_exists_and_eq_and, mem_proxies_deviceUnit_iff, h.refers_iff]

/-! ### What can be seen of a memory -/

/-- Two memories have the same proxies in the same forms, tracked in the same tiers, and the same
tallies. -/
structure SamePlaces (m n : Memory P) : Prop where
  /-- Each proxy is in the same form, with the same version and the same latest access. -/
  find?_eq : ∀ id, n.proxies.find? id = m.proxies.find? id
  /-- Each proxy is in the same tier. -/
  tracks_iff : ∀ tier id, n.manager.Tracks tier id ↔ m.manager.Tracks tier id
  /-- Each tier has the same tally. -/
  usage_eq : ∀ tier, n.manager.usage tier = m.manager.usage tier

/-- Where the books agree with the proxies, the tallies follow. -/
theorem SamePlaces.of_settled (hm : m.Settled) (hn : n.Settled) (hsize : m.SizedBy size)
    (hsize' : n.SizedBy size) (hfind : ∀ id, n.proxies.find? id = m.proxies.find? id)
    (htracks : ∀ tier id, n.manager.Tracks tier id ↔ m.manager.Tracks tier id) :
    SamePlaces m n where
  find?_eq := hfind
  tracks_iff := htracks
  usage_eq tier := by
    rw [hm.usage_eq hsize, hn.usage_eq hsize']
    exact reckoned_congr hm.exact hn.exact hfind htracks size tier

end

/-! ### Evictions -/

section

variable {T : Type} [DeviceObject T] {m n m' n' : Memory (Proxy T)} {id : ProxyId}
  {size : BufferId → ℕ} {ids more : List ProxyId}

/-- There is one way to put an object into frames. -/
theorem ToHost.unique {p q r : ObjectProxy T} (h : ObjectProxy.ToHost p q)
    (h' : ObjectProxy.ToHost p r) : q = r := by
  obtain ⟨a, frames, hlive, hframes, rfl⟩ := h
  obtain ⟨b, frames', hlive', hframes', rfl⟩ := h'
  rw [hlive] at hlive'
  cases hlive'
  rw [hframes] at hframes'
  cases hframes'
  rfl

/-- An eviction from the device succeeds if its victims can be put into frames. -/
theorem Settled.evictToHost_succeeds (h : m.Settled) {nbytes : ℕ}
    (hframes : ∀ id ∈ (EvictionPlan.make (m.units .device) nbytes).victims, m.HasFrames id) :
    ∃ m', evict nbytes (m.units .device) demoteToHost m =
        .ok (EvictionPlan.make (m.units .device) nbytes).freed m' ∧
      Transferred ObjectProxy.ToHost m m'
        (EvictionPlan.make (m.units .device) nbytes).victims .host := by
  obtain ⟨m', hrun, htransferred, -⟩ := h.evictToHost_files hframes
  exact ⟨m', hrun, htransferred⟩

/-- It fails if there is one that cannot. -/
theorem Settled.evictToHost_fails (h : m.Settled) {nbytes : ℕ}
    (hid : id ∈ (EvictionPlan.make (m.units .device) nbytes).victims) (hnone : ¬ m.HasFrames id) :
    ∃ e m', evict nbytes (m.units .device) demoteToHost m = .error e m' := by
  cases hrun : evict nbytes (m.units .device) demoteToHost m with
  | ok freed m' =>
    -- All victims are in frames after an eviction that succeeds.
    obtain ⟨-, htransferred⟩ := (h.evictToHost_transfers nbytes).of_ok hrun
    obtain ⟨p, q, hfind, -, ⟨a, frames, hlive, hframes, -⟩, -⟩ := htransferred.changed id hid
    exact absurd ⟨p, a, frames, hfind, hlive, hframes⟩ hnone
  | error e m' => exact ⟨e, m', rfl⟩

/-- The same victims end in the same forms and places. -/
theorem Reordered.samePlaces (h : m.Reordered n) (hm : m.Settled) (hsize : m.SizedBy size)
    {nbytes : ℕ}
    (htransferred : Transferred ObjectProxy.ToHost m m'
      (EvictionPlan.make (m.units .device) nbytes).victims .host)
    (htransferred' : Transferred ObjectProxy.ToHost n n'
      (EvictionPlan.make (n.units .device) nbytes).victims .host) : SamePlaces m' n' := by
  have hvictims := h.mem_victims_device_iff hsize nbytes
  refine .of_settled (htransferred.settled_of_toHost hm)
    (htransferred'.settled_of_toHost (h.settled hm)) (htransferred.sizedBy (by decide) hsize)
    (htransferred'.sizedBy (by decide) (h.sizedBy hsize)) (fun id => ?_) fun tier id => ?_
  · by_cases hid : id ∈ (EvictionPlan.make (m.units .device) nbytes).victims
    · obtain ⟨p, q, hp, hq, hmoved, -⟩ := htransferred.changed id hid
      obtain ⟨p', q', hp', hq', hmoved', -⟩ := htransferred'.changed id ((hvictims id).2 hid)
      rw [h.find?_eq, hp] at hp'
      cases hp'
      rw [hq, hq', ToHost.unique hmoved hmoved']
    · rw [htransferred.find?_eq id hid, htransferred'.find?_eq id (mt (hvictims id).1 hid),
        h.find?_eq]
  · simp only [htransferred.tracks_iff, htransferred'.tracks_iff, hvictims, h.tracks_iff]

/-- Evictions do not depend on the order in which the books list the proxies of a tier. On the
device the allocations are chosen one after the other in a strict order, in which identities settle
ties; so the same is counted, the same proxies are moved, and all proxies end in the same forms and
tiers, with the same tallies. Both evictions fail where the object of some victim has no frames. On
the host as much is counted and released, and the plan is the same if no two proxies tie. -/
theorem evict_reordered (h : m.Reordered n) (hm : m.Settled) (hsize : m.SizedBy size)
    (nbytes : ℕ) :
    (∃ taken left : List BufferId, (taken ++ left).Perm m.deviceBufferIds ∧
        (taken ++ left).Pairwise m.EvictedBefore ∧
        EvictionUnit.chosen (m.units .device) nbytes = taken.map m.deviceUnit ∧
        EvictionUnit.chosen (n.units .device) nbytes = taken.map n.deviceUnit) ∧
      (∀ id, id ∈ (EvictionPlan.make (n.units .device) nbytes).victims ↔
        id ∈ (EvictionPlan.make (m.units .device) nbytes).victims) ∧
      ((∀ id ∈ (EvictionPlan.make (m.units .device) nbytes).victims, m.HasFrames id) →
        ∃ freed m' n', evict nbytes (m.units .device) demoteToHost m = .ok freed m' ∧
          evict nbytes (n.units .device) demoteToHost n = .ok freed n' ∧ SamePlaces m' n') ∧
      (∀ id ∈ (EvictionPlan.make (m.units .device) nbytes).victims, ¬ m.HasFrames id →
        (∃ e m', evict nbytes (m.units .device) demoteToHost m = .error e m') ∧
          ∃ e n', evict nbytes (n.units .device) demoteToHost n = .error e n') ∧
      (m.spill.Writable →
        ∃ freed m' n', evict nbytes (m.units .host) demoteToDisk m = .ok freed m' ∧
          evict nbytes (n.units .host) demoteToDisk n = .ok freed n' ∧
          n'.manager.usage .host = m'.manager.usage .host) ∧
      ((∀ r ∈ m.residents .host, ∀ s ∈ m.residents .host,
          Spillable.lastAccess r.2 = Spillable.lastAccess s.2 →
          Spillable.size r.2 = Spillable.size s.2 → r = s) →
        (EvictionPlan.make (n.units .host) nbytes).victims =
          (EvictionPlan.make (m.units .host) nbytes).victims) := by
  have hn := h.settled hm
  have hfind := h.find?_eq
  have hvictims := h.mem_victims_device_iff hsize nbytes
  have hunits : (m.units .host).Perm (n.units .host) := (h.residents_perm .host).map singleUnit
  have hframes : ∀ id, n.HasFrames id ↔ m.HasFrames id := by
    intro id
    rw [HasFrames, HasFrames, hfind]
  refine ⟨?_, hvictims, fun hall => ?_, fun id hid hnone => ⟨hm.evictToHost_fails hid hnone,
    hn.evictToHost_fails ((hvictims id).2 hid) (mt (hframes id).1 hnone)⟩, fun hwritable => ?_,
    fun hties => ?_⟩
  · obtain ⟨taken, left, horder, hchosen⟩ := h.exists_chosen hsize nbytes
    refine ⟨taken, left, ?_, ?_, hchosen⟩
    · exact horder ▸ List.mergeSort_perm _ _
    · exact horder ▸ m.pairwise_deviceOrder
  · obtain ⟨m', hrun, htransferred⟩ := hm.evictToHost_succeeds hall
    obtain ⟨n', hrun', htransferred'⟩ := @Settled.evictToHost_succeeds _ _ n hn nbytes
      fun id hid => (hframes id).2 (hall id ((hvictims id).1 hid))
    rw [h.freed_device_eq hsize] at hrun'
    exact ⟨_, m', n', hrun, hrun', h.samePlaces hm hsize htransferred htransferred'⟩
  · have hfreed := EvictionPlan.freed_eq_of_perm hunits nbytes
    obtain ⟨freed, m', hrun, rfl, htransferred⟩ :=
      ((hm.settledIn .host).evictToDisk_files hm.exact nbytes).exists_ok
        fun _ _ hrefused => hrefused hwritable
    obtain ⟨freed', n', hrun', rfl, htransferred'⟩ :=
      ((hn.settledIn .host).evictToDisk_files hn.exact nbytes).exists_ok
        fun _ _ hrefused => hrefused (h.spill_eq ▸ hwritable)
    have husage := (hm.settledIn .host).usage_host_add_freed hm.exact
      (htransferred.imp fun _ _ => ObjectProxy.InFile.toDisk)
    have husage' := (hn.settledIn .host).usage_host_add_freed hn.exact
      (htransferred'.imp fun _ _ => ObjectProxy.InFile.toDisk)
    rw [h.usage_eq] at husage'
    rw [← hfreed] at hrun' husage'
    exact ⟨_, m', n', hrun, hrun', by omega⟩
  · -- Every proxy is a unit of its own, so units tie only if proxies do.
    refine congrArg EvictionPlan.victims (EvictionPlan.make_eq_of_perm hunits ?_ nbytes).symm
    intro u hu v hv hkey
    obtain ⟨r, hr, rfl⟩ := List.mem_map.1 (show u ∈ (m.residents .host).map singleUnit from hu)
    obtain ⟨s, hs, rfl⟩ := List.mem_map.1 (show v ∈ (m.residents .host).map singleUnit from hv)
    rw [EvictionUnit.key, EvictionUnit.key, Prod.mk.injEq] at hkey
    rw [hties r hr s hs hkey.1 hkey.2]

end

/-- Two arrays that came together tie. Whichever of them the books list first, the one with the
smaller allocation has to leave the device where four bytes are asked for. On the host one of them
has to leave, and the host holds the same bytes afterwards. -/
theorem evict_reordered_pair :
    ((EvictionPlan.make (Store.pairStore.memory.units .device) 4).victims = [⟨1⟩] ∧
      (∀ id, id ∈ (EvictionPlan.make (Store.pairStore.memory.backwards.units .device) 4).victims ↔
        id ∈ [(⟨1⟩ : ProxyId)]) ∧
      ∃ freed m' n',
        evict 4 (Store.pairStore.memory.units .device) demoteToHost Store.pairStore.memory =
          .ok freed m' ∧
        evict 4 (Store.pairStore.memory.backwards.units .device) demoteToHost
          Store.pairStore.memory.backwards = .ok freed n' ∧ SamePlaces m' n') ∧
      ∃ freed m' n',
        evict 4 (Store.loweredStore.memory.units .host) demoteToDisk Store.loweredStore.memory =
          .ok freed m' ∧
        evict 4 (Store.loweredStore.memory.backwards.units .host) demoteToDisk
          Store.loweredStore.memory.backwards = .ok freed n' ∧
        n'.manager.usage .host = m'.manager.usage .host := by
  constructor
  · have hunits : Store.pairStore.memory.units .device = [⟨3, 4, [⟨1⟩]⟩, ⟨3, 4, [⟨2⟩]⟩] := by
      rw [show Store.pairStore.memory.units .device = _ from deviceUnits_eq_map _, deviceBufferIds,
        List.mergeSort_of_pairwise (by decide +kernel)]
      decide +kernel
    have hvictims :
        (EvictionPlan.make (Store.pairStore.memory.units .device) 4).victims = [⟨1⟩] := by
      -- Units that come in the order of eviction stay in it.
      rw [hunits, EvictionPlan.make, EvictionUnit.chosen, EvictionUnit.inOrder,
        List.mergeSort_of_pairwise (by decide)]
      decide
    have hsettled := Store.run_pairStore.spares.settled
    have hsize := Store.run_pairStore.coherent.memory.toSound.sizedBy Store.sizedBy_pair
    obtain ⟨-, hsame, hmoved, -⟩ :=
      evict_reordered Store.pairStore.memory.reordered_backwards hsettled hsize 4
    rw [hvictims] at hsame
    refine ⟨hvictims, hsame, hmoved fun id hid => ?_⟩
    obtain ⟨u, hu, hmem⟩ := EvictionPlan.exists_of_mem_victims hid
    obtain ⟨⟨p, hfind, a, hlive⟩, -⟩ := hsettled.evictable_device hu hmem
    exact ⟨p, a, _, hfind, hlive, rfl⟩
  · have hsettled := Store.run_loweredStore.spares.settled
    have hsize := Store.run_loweredStore.coherent.memory.toSound.sizedBy Store.sizedBy_pair
    obtain ⟨-, -, -, -, hspilled, -⟩ :=
      evict_reordered Store.loweredStore.memory.reordered_backwards hsettled hsize 4
    exact hspilled ⟨by decide +kernel, by decide +kernel⟩

end Memory

end TieredStore
