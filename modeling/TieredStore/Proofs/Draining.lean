import TieredStore.Proofs.ArrayFrames
import TieredStore.Proofs.Memory.Vanishing
import TieredStore.Proofs.Spilling

/-!
# Draining the host

Whoever is short of host memory asks for a hundredth of the host's limit again and again. Each call
moves a proxy to disk: what is asked for is never zero, and arrays in frames have bytes, so the plan
of the eviction has victims. The call makes room afterwards, but as long as the device is within its
limit nothing comes from there. So the host has fewer proxies with every call, until it has none,
and from then on nothing happens.

* `Memory.Drainable`, `Memory.Drained`: what the host has to be like, and what a call may change.
* `Drainable.evictToDisk_drains`, `Drainable.enforceLimits_drains`: the two parts of a call.
* `Store.Spilled`, `Store.exists_spilled`: a call on a host that has proxies.
* `Store.spillHundredth_drains`: all calls.
-/

namespace TieredStore

namespace Memory

variable {m m' m'' : Memory (Proxy DeviceArray)} {id : ProxyId} {ids : List ProxyId} {tier : Tier}

/-- The host can be emptied. -/
structure Drainable (m : Memory (Proxy DeviceArray)) : Prop where
  /-- The books agree with the proxies. -/
  settled : m.Settled
  /-- The device is within its limit. -/
  within : m.manager.usage .device ≤ m.manager.deviceLimit
  /-- The host has arrays, in frames. -/
  arrays : ∀ id, m.manager.Tracks .host id → ∃ p header, ∃ a : DeviceArray,
    m.proxies.find? id = some (.object p) ∧ p.form = .serialized (.frames header a.frames)
  /-- Files can be written. -/
  writable : m.spill.Writable

/-- Proxies may have gone from the host to disk, and nothing else has happened. -/
structure Drained (m m' : Memory (Proxy DeviceArray)) : Prop where
  /-- More proxies can go. -/
  drainable : m'.Drainable
  /-- The limit of the host stays. -/
  hostLimit_eq : m'.manager.hostLimit = m.manager.hostLimit
  /-- The same proxies are tracked. -/
  tracked_iff : ∀ id, (∃ tier, m'.manager.Tracks tier id) ↔ ∃ tier, m.manager.Tracks tier id
  /-- The books of the device are the same. -/
  device_eq : m'.manager.registry .device = m.manager.registry .device
  /-- No proxy has come to the host. -/
  tracks_host : ∀ id, m'.manager.Tracks .host id → m.manager.Tracks .host id
  /-- Proxies on disk are still there. -/
  tracks_disk : ∀ id, m.manager.Tracks .disk id → m'.manager.Tracks .disk id
  /-- Proxies that were not on the host, those of the device among them, are as they were. -/
  find?_eq : ∀ id, ¬ m.manager.Tracks .host id → m'.proxies.find? id = m.proxies.find? id

theorem Drained.refl (h : m.Drainable) : Drained m m where
  drainable := h
  hostLimit_eq := rfl
  tracked_iff _ := Iff.rfl
  device_eq := rfl
  tracks_host _ := id
  tracks_disk _ := id
  find?_eq _ _ := rfl

theorem Drained.trans (h : Drained m m') (h' : Drained m' m'') : Drained m m'' where
  drainable := h'.drainable
  hostLimit_eq := h'.hostLimit_eq.trans h.hostLimit_eq
  tracked_iff id := (h'.tracked_iff id).trans (h.tracked_iff id)
  device_eq := h'.device_eq.trans h.device_eq
  tracks_host id hid := h.tracks_host id (h'.tracks_host id hid)
  tracks_disk id hid := h'.tracks_disk id (h.tracks_disk id hid)
  find?_eq id hid := (h'.find?_eq id fun hhost => hid (h.tracks_host id hhost)).trans
    (h.find?_eq id hid)

/-- The host has fewer proxies if one of them is on disk now. -/
theorem Drained.size_lt (hdrained : Drained m m')
    (hid : m.manager.Tracks .host id) (hdisk : m'.manager.Tracks .disk id) :
    m'.manager.host.size < m.manager.host.size := by
  have hexact := hdrained.drainable.settled.exact
  have hnot : ¬ m'.manager.Tracks .host id := hexact.not_tracks hdisk (by decide)
  have hnodup : (id :: m'.manager.host.entries).Nodup :=
    List.nodup_cons.2 ⟨hnot, (hexact.registries .host).nodup⟩
  have hsubset : id :: m'.manager.host.entries ⊆ m.manager.host.entries :=
    List.cons_subset.2 ⟨hid, fun other => hdrained.tracks_host other⟩
  exact (hnodup.subperm hsubset).length_le

/-! ### What an eviction counts -/

/-- Host and disk offer all the bytes that they have. -/
theorem SettledIn.sum_sizes_units (h : m.SettledIn tier) (hexact : m.manager.Exact)
    (htier : tier ≠ .device) :
    ((m.units tier).map EvictionUnit.size).sum = m.manager.usage tier := by
  rw [Memory.sum_sizes_units m htier, h.recorded.usage_eq_sum hexact htier]
  exact sum_residents hexact _ _

/-- An array in frames has bytes: its metadata has a word at least. -/
theorem Drainable.size_pos (h : m.Drainable) (hid : m.manager.Tracks .host id) :
    0 < (m.proxies.find? id).elim 0 Spillable.size := by
  obtain ⟨p, header, a, hfind, hform⟩ := h.arrays id hid
  have hsize : Spillable.size (Proxy.object p) = (a.frames.map List.length).sum := by
    show p.size = _
    rw [ObjectProxy.size, hform]
    rfl
  rw [hfind, Option.elim_some, hsize, a.frames_eq, List.map_cons, List.sum_cons,
    Bytes.length_ofWords, DeviceArray.words, List.length_cons]
  omega

theorem Drainable.usage_pos (h : m.Drainable) (hid : m.manager.Tracks .host id) :
    0 < m.manager.usage .host := by
  rw [(h.settled.settledIn .host).recorded.usage_eq_sum h.settled.exact (by decide)]
  refine Finset.sum_pos' (fun _ _ => Nat.zero_le _) ⟨id, List.mem_toFinset.2 hid, h.size_pos hid⟩

/-- An eviction that asks for something counts that, or all that the host has. -/
theorem Drainable.le_freed (h : m.Drainable) (nbytes : ℕ) :
    min nbytes (m.manager.usage .host) ≤ (EvictionPlan.make (m.units .host) nbytes).freed := by
  have hcovered := EvictionUnit.le_sum_chosen (m.units .host) nbytes
  rw [(h.settled.settledIn .host).sum_sizes_units h.settled.exact (by decide)] at hcovered
  show _ ≤ ((EvictionUnit.chosen (m.units .host) nbytes).map EvictionUnit.size).sum
  omega

/-- Without victims nothing is counted. -/
theorem Drainable.exists_victim (h : m.Drainable) (nbytes : ℕ)
    (hfreed : 0 < (EvictionPlan.make (m.units .host) nbytes).freed) :
    ∃ id, id ∈ (EvictionPlan.make (m.units .host) nbytes).victims := by
  apply List.exists_mem_of_ne_nil
  intro hnone
  rw [show m.units .host = m.singleUnits .host from rfl] at hfreed hnone
  rw [freed_eq_sum_victims h.settled.exact, hnone] at hfreed
  exact Nat.lt_irrefl 0 hfreed

/-! ### What an eviction moves -/

/-- Arrays that have gone from the host to disk leave the rest as it was. -/
theorem Drainable.drained (h : m.Drainable)
    (htransferred : Transferred ObjectProxy.ToDisk m m' ids .disk)
    (hids : ∀ id ∈ ids, m.manager.Tracks .host id)
    (hdevice : m'.manager.deviceLimit = m.manager.deviceLimit)
    (hhost : m'.manager.hostLimit = m.manager.hostLimit) (hwritable : m'.spill.Writable) :
    Drained m m' := by
  have hexact := h.settled.exact
  have hregistry : m'.manager.registry .device = m.manager.registry .device :=
    htransferred.registry_eq .device (by decide) fun id hid =>
      hexact.not_tracks (hids id hid) (by decide)
  have hstays : ∀ id, m'.manager.Tracks .host id → id ∉ ids ∧ m.manager.Tracks .host id := by
    intro id htracks
    rw [htransferred.tracks_iff] at htracks
    split at htracks
    next => cases htracks
    next hid => exact ⟨hid, htracks⟩
  -- An array was in frames, so it has been written to a file and its header names the disk.
  have hmoved : ∀ id ∈ ids, ∀ p q, m.proxies.find? id = some (.object p) →
      ObjectProxy.ToDisk p q → q.form.tier = .disk ∧ q.isAttached = true := by
    intro id hid p q hfind hdisk
    obtain ⟨r, header, a, hr, hform⟩ := h.arrays id (hids id hid)
    obtain ⟨r', hr', hattached, -⟩ := (h.settled.settledIn .host).exists_object (hids id hid)
    rw [hfind] at hr hr'
    cases hr
    cases hr'
    refine ⟨?_, hdisk.isAttached_eq.trans hattached⟩
    rcases hdisk with ⟨_, _, disk, -, hserializer, -, rfl⟩ | ⟨⟨disk, hold⟩, -⟩
    · exact Form.tier_disk hserializer
    · rw [hform] at hold
      cases hold
  exact {
    drainable := {
      settled := htransferred.settled_of_attached h.settled hmoved
      within := by
        rw [Manager.usage, hregistry, hdevice]
        exact h.within
      arrays := fun id htracks => by
        obtain ⟨hid, hbefore⟩ := hstays id htracks
        rw [htransferred.find?_eq id hid]
        exact h.arrays id hbefore
      writable := hwritable }
    hostLimit_eq := hhost
    tracked_iff := fun id => by
      by_cases hid : id ∈ ids
      · refine iff_of_true ⟨.disk, ?_⟩ ⟨.host, hids id hid⟩
        rw [htransferred.tracks_iff, if_pos hid]
      · exact exists_congr (htransferred.tracks_iff_of_not_mem hid)
    device_eq := hregistry
    tracks_host := fun id htracks => (hstays id htracks).2
    tracks_disk := fun id htracks => by
      rw [htransferred.tracks_iff]
      split
      next => rfl
      next => exact htracks
    find?_eq := fun id hnot => htransferred.find?_eq id fun hid => hnot (hids id hid) }

/-- An eviction from the host moves its victims to disk. -/
theorem Drainable.evictToDisk_drains (h : m.Drainable) (nbytes : ℕ) :
    Ends (evict nbytes (m.units .host) demoteToDisk) m
      (fun freed m' => freed = (EvictionPlan.make (m.units .host) nbytes).freed ∧ Drained m m' ∧
        ∀ id ∈ (EvictionPlan.make (m.units .host) nbytes).victims,
          m.manager.Tracks .host id ∧ m'.manager.Tracks .disk id) Never := by
  have hexact := h.settled.exact
  have hvictims : ∀ id ∈ (EvictionPlan.make (m.units .host) nbytes).victims,
      (∃ p, m.proxies.find? id = some (.object p) ∧ p.form.tier = .host) ∧
        ¬ m.manager.Tracks .disk id := by
    intro id hid
    obtain ⟨u, hu, hmem⟩ := EvictionPlan.exists_of_mem_victims hid
    exact (h.settled.settledIn .host).evictable_host hexact hu hmem
  have hlimits := Leaves.forM (EvictionPlan.make (m.units .host) nbytes).victims
    (fun id _ _ ht => (lasting_limits _ _).demoteToDisk id ht) ⟨hexact, rfl, rfl⟩
  rw [evict, Ends.bind_iff]
  refine ((forM_demoteToDisk_files hexact (EvictionPlan.nodup_victims _ _) hvictims).and
    hlimits).mono ?_ fun _ _ hrefused => hrefused.1 h.writable
  rintro - m' ⟨⟨hwritable, hmoved⟩, -, hdevice, hhost⟩
  have htransferred := hmoved.imp fun _ _ => ObjectProxy.InFile.toDisk
  refine ⟨rfl, h.drained htransferred (fun id => tracks_of_mem_victims) hdevice hhost
    (hwritable.2 h.writable), fun id hid => ⟨tracks_of_mem_victims hid, ?_⟩⟩
  rw [htransferred.tracks_iff, if_pos hid]

/-- The limits bring nothing to the host, since the device is within its own. -/
theorem Drainable.enforceLimits_drains (h : m.Drainable) :
    Ends (enforceLimits 0) m (fun _ m' => Drained m m') Never := by
  have hdevice : excess (m.manager.usage .device) 0 m.manager.deviceLimit = 0 := by
    have := h.within
    rw [excess, Nat.add_zero]
    omega
  rw [enforceLimits, Ends.bind_iff, enforceDeviceLimit, Ends.bind_iff, Ends.get_iff, hdevice]
  show Ends (enforceHostLimit 0 >>= _) m _ _
  rw [Ends.bind_iff, enforceHostLimit, Ends.bind_iff, Ends.get_iff]
  split
  next => exact .refl h
  next => exact (h.evictToDisk_drains _).mono_ok fun _ _ hend => hend.2.1

end Memory

namespace Store

variable {s : Store DeviceArray}

/-- A call has moved proxies from the host to disk and has counted `n` bytes. -/
structure Spilled (s s' : Store DeviceArray) (n : ℕ) : Prop where
  /-- The call has succeeded. -/
  run_eq : spillHundredth s = .ok (some n) s'
  /-- Nothing else has happened, and no proxy has come to the host. -/
  drained : s.memory.Drained s'.memory
  /-- It has counted a hundredth of the limit, one byte at least, or all that the host had. -/
  counted :
    min (max 1 (s.memory.manager.hostLimit / 100)) (s.memory.manager.usage .host) ≤ n
  /-- A proxy has moved. -/
  moved : ∃ id, s.memory.manager.Tracks .host id ∧ s'.memory.manager.Tracks .disk id
  /-- The host has fewer proxies now. -/
  size_lt : s'.memory.manager.host.size < s.memory.manager.host.size

/-- A call on a host that has proxies moves one of them, at least. -/
theorem exists_spilled (h : s.memory.Drainable)
    (hsome : s.memory.manager.host.isEmpty = false) : ∃ n s', Spilled s s' n := by
  obtain ⟨id, hid⟩ : ∃ id, s.memory.manager.Tracks .host id := by
    apply List.exists_mem_of_ne_nil
    rintro hnone
    rw [Registry.isEmpty, show s.memory.manager.host.entries = [] from hnone] at hsome
    cases hsome
  have husage := h.usage_pos hid
  have hcounted := h.le_freed (max (s.memory.manager.hostLimit / 100) 1)
  obtain ⟨victim, hvictim⟩ :=
    h.exists_victim (max (s.memory.manager.hostLimit / 100) 1) (by omega)
  have hends : Ends (spillHundredth (T := DeviceArray)) s
      (fun freed? s' => freed? = some (EvictionPlan.make (s.memory.units .host)
          (max (s.memory.manager.hostLimit / 100) 1)).freed ∧
        ∃ m', s' = { s with memory := m' } ∧ s.memory.Drained m' ∧
          m'.manager.Tracks .disk victim) Never := by
    rw [spillHundredth, onMemory_iff, Ends.bind_iff, Ends.get_iff, hsome]
    show Ends (_ >>= _) s.memory _ _
    rw [Ends.bind_iff]
    refine (h.evictToDisk_drains _).mono_ok ?_
    rintro freed m₁ ⟨rfl, hdrained, hvictims⟩
    rw [Ends.bind_iff]
    refine hdrained.drainable.enforceLimits_drains.mono_ok fun _ m₂ hdrained' => ?_
    refine ⟨if_neg (by omega), m₂, rfl, hdrained.trans hdrained', ?_⟩
    exact hdrained'.tracks_disk victim (hvictims victim hvictim).2
  obtain ⟨_, _, hrun, rfl, m', rfl, hdrained, hdisk⟩ := hends.exists_ok fun _ _ h => h
  have hhost := Memory.tracks_of_mem_victims hvictim
  exact ⟨_, _, {
    run_eq := hrun
    drained := hdrained
    counted := by omega
    moved := ⟨victim, hhost, hdisk⟩
    size_lt := hdrained.size_lt hhost hdisk }⟩

/-- A call on an empty host does nothing. -/
theorem spillHundredth_of_isEmpty (hempty : s.memory.manager.host.isEmpty = true) :
    spillHundredth s = .ok none s := by
  apply Ends.eq_ok
  rw [spillHundredth, onMemory_iff, Ends.bind_iff, Ends.get_iff, hempty]
  exact ⟨rfl, rfl⟩

/-- The store after some calls. -/
def afterSpills (s : Store DeviceArray) : ℕ → Store DeviceArray
  | 0 => s
  | k + 1 => stateAfter spillHundredth (afterSpills s k)

theorem afterSpills_succ {k : ℕ} {freed? : Option ℕ} {s' : Store DeviceArray}
    (hrun : spillHundredth (afterSpills s k) = .ok freed? s') : afterSpills s (k + 1) = s' := by
  rw [afterSpills, stateAfter, hrun]

/-- However many calls there are, all they do is that proxies go from the host to disk. -/
theorem drained_afterSpills (h : s.memory.Drainable) (k : ℕ) :
    s.memory.Drained (afterSpills s k).memory := by
  induction k with
  | zero => exact .refl h
  | succ k ih =>
    cases hempty : (afterSpills s k).memory.manager.host.isEmpty with
    | true => rwa [afterSpills_succ (spillHundredth_of_isEmpty hempty)]
    | false =>
      obtain ⟨n, s', hspilled⟩ := exists_spilled ih.drainable hempty
      rw [afterSpills_succ hspilled.run_eq]
      exact ih.trans hspilled.drained

/-- From an empty host on, the store stays as it is. -/
theorem afterSpills_of_isEmpty {k : ℕ}
    (hempty : (afterSpills s k).memory.manager.host.isEmpty = true) {j : ℕ} (hj : k ≤ j) :
    afterSpills s j = afterSpills s k := by
  induction j, hj using Nat.le_induction with
  | base => rfl
  | succ j hj ih =>
    rw [← ih] at hempty
    exact (afterSpills_succ (spillHundredth_of_isEmpty hempty)).trans ih

/-- Asking for a hundredth of the host's limit again and again drains the host, whatever the limit
is. As long as the host has proxies each call counts a hundredth of the limit, or one byte if that
is less, or all that the host has; it moves a proxy to disk, at least, and none to the host. After
as many calls as the host had proxies, or fewer, the host is empty, and from then on calls count
nothing and change nothing. All the while the same proxies are tracked, and the device stays as it
was. -/
theorem spillHundredth_drains (h : s.memory.Drainable) :
    (∀ k, s.memory.Drained (afterSpills s k).memory) ∧
    (∀ k, (afterSpills s k).memory.manager.host.isEmpty = false →
      ∃ n, Spilled (afterSpills s k) (afterSpills s (k + 1)) n) ∧
    ∃ k ≤ s.memory.manager.host.size,
      (∀ j < k, (afterSpills s j).memory.manager.host.isEmpty = false) ∧
      (afterSpills s k).memory.manager.host.isEmpty = true ∧
      ∀ j, k ≤ j → spillHundredth (afterSpills s j) = .ok none (afterSpills s j) ∧
        afterSpills s j = afterSpills s k := by
  have hdrained := drained_afterSpills h
  have hstep : ∀ k, (afterSpills s k).memory.manager.host.isEmpty = false →
      ∃ n, Spilled (afterSpills s k) (afterSpills s (k + 1)) n := by
    intro k hsome
    obtain ⟨n, s', hspilled⟩ := exists_spilled (hdrained k).drainable hsome
    rw [afterSpills_succ hspilled.run_eq]
    exact ⟨n, hspilled⟩
  -- Every call on a host with proxies takes one of them at least, so there are not many such calls.
  have hcount : ∀ k, (∀ j < k, (afterSpills s j).memory.manager.host.isEmpty = false) →
      (afterSpills s k).memory.manager.host.size + k ≤ s.memory.manager.host.size := by
    intro k hsome
    induction k with
    | zero => exact Nat.le_refl _
    | succ k ih =>
      obtain ⟨n, hspilled⟩ := hstep k (hsome k k.lt_succ_self)
      have hlt := hspilled.size_lt
      have hle := ih fun j hj => hsome j (Nat.lt_succ_of_lt hj)
      omega
  have hex : ∃ k, (afterSpills s k).memory.manager.host.isEmpty = true := by
    by_contra hnone
    have hle := hcount (s.memory.manager.host.size + 1) fun j _ =>
      Bool.eq_false_iff.2 (not_exists.1 hnone j)
    omega
  have hsome : ∀ j < Nat.find hex, (afterSpills s j).memory.manager.host.isEmpty = false :=
    fun j hj => Bool.eq_false_iff.2 (Nat.find_min hex hj)
  refine ⟨hdrained, hstep, Nat.find hex, ?_, hsome, Nat.find_spec hex, fun j hj => ?_⟩
  · have hle := hcount _ hsome
    omega
  · have hsame := afterSpills_of_isEmpty (Nat.find_spec hex) hj
    refine ⟨spillHundredth_of_isEmpty ?_, hsame⟩
    rw [hsame]
    exact Nat.find_spec hex

/-- The array of a store is on the host, which is empty after one call. -/
theorem spillHundredth_drains_array : hostStore.memory.Drainable ∧
    (∃ n, Spilled hostStore (afterSpills hostStore 1) n) ∧
    spillHundredth (afterSpills hostStore 1) = .ok none (afterSpills hostStore 1) := by
  have hentries : hostStore.memory.manager.host.entries = [⟨1⟩] := by decide +kernel
  have hdrainable : hostStore.memory.Drainable := {
    settled := run_hostStore.spares.settled
    within := by decide +kernel
    arrays := fun id hid => by
      have hone : id = ⟨1⟩ := List.mem_singleton.1 (hentries ▸ hid)
      subst hone
      exact ⟨_, _, smallArray, rfl, rfl⟩
    writable := run_hostStore.writable }
  obtain ⟨-, hstep, k, hk, -, -, hafter⟩ := spillHundredth_drains hdrainable
  have hsome : (afterSpills hostStore 0).memory.manager.host.isEmpty = false := by decide +kernel
  have hone : k ≤ 1 := hk.trans_eq (congrArg List.length hentries)
  refine ⟨hdrainable, hstep 0 hsome, (hafter 1 hone).1⟩

end Store

end TieredStore
