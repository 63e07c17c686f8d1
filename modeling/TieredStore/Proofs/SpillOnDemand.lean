import TieredStore.Proofs.Relief

/-!
# Room for an allocation that failed

The callback of the allocator evicts from the device and says whether the allocation should be tried
again. Its answer is read off the plan, which counts each chosen allocation once, while victims may
take other allocations along; so the plan may count less than is released, but it counts nothing
only if the device has nothing.

* `Settled.freed_pos_iff`: a plan counts something exactly if the device has something.
* `Settled.nbytes_eq_zero`: what leaves a device without bytes has none.
* `makeRoom_answers`: the answer, and all that changes.
-/

namespace TieredStore

/-- The manager is gone after the end of a store, even if something failed there. -/
theorem Store.close_leaves {T : Type} [DeviceObject T] (s : Store T) :
    Leaves Store.close s fun t => t.memory.isManaged = false := by
  have hleave : ∀ t : Store T, Leaves (modify fun h =>
      { h with memory := { h.memory with isManaged := false } } : Store.Action T Unit) t
        fun t => t.memory.isManaged = false := by
    intro t
    apply (Ends.modify_iff _).2
    rfl
  rw [Leaves, Store.close, Ends.bind_iff, Ends.modify_iff, Ends.bind_iff, Ends.tryCatch_iff]
  apply Ends.of_forall
  · exact fun _ t _ => hleave t
  · intro failure t _
    rw [Ends.bind_iff]
    exact (hleave t).mono_ok fun _ _ hgone => hgone

namespace Memory

variable {m m' : Memory (Proxy DeviceArray)} {id : ProxyId} {size : BufferId → ℕ} {nbytes : ℕ}

/-- Arrays can always be put into frames, so a victim from the device can. -/
theorem Settled.hasFrames_of_mem_victims (h : m.Settled)
    (hid : id ∈ (EvictionPlan.make (m.units .device) nbytes).victims) : m.HasFrames id := by
  obtain ⟨u, hu, hmem⟩ := EvictionPlan.exists_of_mem_victims hid
  obtain ⟨⟨p, hfind, a, hlive⟩, -⟩ := h.evictable_device hu hmem
  exact ⟨p, a, a.frames, hfind, hlive, rfl⟩

/-- A plan counts something exactly if there is something to count. -/
theorem Settled.freed_pos_iff (h : m.Settled) (hsize : m.SizedBy size) (tier : Tier)
    (hpos : 0 < nbytes) :
    0 < (EvictionPlan.make (m.units tier) nbytes).freed ↔ 0 < m.manager.usage tier := by
  have hle : (EvictionPlan.make (m.units tier) nbytes).freed ≤ m.manager.usage tier := by
    have hall := @EvictionUnit.sum_sizes_add_chosen_le nbytes _ _ (List.nil_sublist (m.units tier))
      (by simp)
    rwa [List.map_nil, List.sum_nil, Nat.zero_add, h.sum_sizes_units hsize] at hall
  rcases h.covered hsize tier nbytes with hcovered | heverything <;> omega

/-- A live proxy on a device without bytes has none itself. -/
theorem Settled.nbytes_eq_zero (h : m.Settled) (hsize : m.SizedBy size)
    (hempty : m.manager.usage .device = 0) (htracks : m.manager.Tracks .device id)
    {p : ObjectProxy DeviceArray} {a : DeviceArray} (hfind : m.proxies.find? id = some (.object p))
    (hlive : p.form = .live a) : a.nbytes = 0 := by
  have hbuffers : Spillable.deviceBuffers (Proxy.object p) = a.deviceBuffers := by
    show p.deviceBuffers = a.deviceBuffers
    rw [ObjectProxy.deviceBuffers, hlive]
    rfl
  rw [h.usage_eq hsize, reckoned, Finset.sum_eq_zero_iff] at hempty
  apply List.sum_eq_zero
  intro n hn
  obtain ⟨buffer, hbuffer, rfl⟩ := List.mem_map.1 hn
  -- Each allocation of the array is one that the tally counts.
  have hmem : (⟨buffer.1, buffer.2.length⟩ : DeviceBuffer) ∈
      Spillable.deviceBuffers (Proxy.object p) := by
    rw [hbuffers]
    exact List.mem_map_of_mem hbuffer
  have hrefers : m.Refers id buffer.1 := ⟨htracks, _, hfind, List.mem_map_of_mem hmem⟩
  calc buffer.2.length = size buffer.1 := hsize.reports id _ htracks hfind _ hmem
    _ = 0 := hempty _ (List.mem_toFinset.2 ((m.mem_deviceBufferIds_iff _).2 ⟨id, hrefers⟩))

/-- The callback says whether the device had any bytes in use. If it had, the device has released
what the allocation needs, or all that there was; if it had none, what has moved to the host had no
bytes. The books of the disk, the files, and all proxies that were not on the device stay as they
are. Once the manager is gone, which it is after the end of the store, the callback says no and does
nothing. -/
theorem makeRoom_answers (h : m.Settled) (hsize : m.SizedBy size) (hpos : 0 < nbytes) :
    (m.isManaged = true → ∃ answer m', Store.makeRoom nbytes m = .ok answer m' ∧
      (answer = true ↔ 0 < m.manager.usage .device) ∧
      (answer = true → m'.manager.usage .device + min nbytes (m.manager.usage .device) ≤
        m.manager.usage .device) ∧
      (answer = false → m'.manager.usage .device = m.manager.usage .device ∧
        ∀ id, m.manager.Tracks .device id → ¬ m'.manager.Tracks .device id →
          ∃ p a, m.proxies.find? id = some (.object p) ∧ p.form = .live a ∧ a.nbytes = 0) ∧
      m'.manager.registry .disk = m.manager.registry .disk ∧ m'.spill = m.spill ∧
      (∀ id, ¬ m.manager.Tracks .device id → m'.proxies.find? id = m.proxies.find? id ∧
        ∀ t, m'.manager.Tracks t id ↔ m.manager.Tracks t id) ∧
      m'.Settled) ∧
    (m.isManaged = false → Store.makeRoom nbytes m = .ok false m) ∧
    ∀ s : Store DeviceArray,
      Store.makeRoom nbytes (stateAfter Store.close s).memory =
        .ok false (stateAfter Store.close s).memory := by
  have hgone : ∀ m : Memory (Proxy DeviceArray), m.isManaged = false →
      Store.makeRoom nbytes m = .ok false m := by
    intro m hunmanaged
    apply Ends.eq_ok
    rw [Store.makeRoom, Ends.bind_iff, Ends.get_iff]
    simp [hunmanaged]
  refine ⟨fun hmanaged => ?_, hgone m, fun s => hgone _ (Store.close_leaves s).stateAfter⟩
  obtain ⟨m', hevict, htransferred, hspill⟩ :=
    @Settled.evictToHost_files _ _ m h nbytes fun id => h.hasFrames_of_mem_victims
  have hsettled := htransferred.settled_of_toHost h
  -- The plan counts too little rather than too much: it is positive with the tally, the device
  -- releases what it counts, and it covers what is asked for unless it takes everything.
  have hreleased := h.usage_device_add_freed_le hsize hsettled htransferred
  have hcounted := h.freed_pos_iff hsize .device hpos
  have hcovered := h.covered hsize .device nbytes
  have hrun : Store.makeRoom nbytes m =
      .ok ((EvictionPlan.make (m.units .device) nbytes).freed != 0) m' := by
    apply Ends.eq_ok
    rw [Store.makeRoom, Ends.bind_iff, Ends.get_iff, hmanaged]
    simp [Ends, tryCatch_apply, bind, EStateM.bind, hevict, pure, EStateM.pure]
  refine ⟨_, m', hrun, ?_, fun hyes => ?_, fun hno => ?_, ?_, hspill, fun id hid => ?_, hsettled⟩
  · rw [bne_iff_ne, ← Nat.pos_iff_ne_zero, hcounted]
  · rw [bne_iff_ne] at hyes
    omega
  · rw [bne_eq_false_iff_eq] at hno
    refine ⟨by omega, fun id htracks hleft => ?_⟩
    -- Only victims leave, and these were live.
    have hid : id ∈ (EvictionPlan.make (m.units .device) nbytes).victims := by
      by_contra hid
      exact hleft ((htransferred.tracks_iff_of_not_mem hid .device).2 htracks)
    obtain ⟨p, a, -, hfind, hlive, -⟩ := h.hasFrames_of_mem_victims hid
    exact ⟨p, a, hfind, hlive, h.nbytes_eq_zero hsize (by omega) htracks hfind hlive⟩
  · apply htransferred.registry_eq .disk (by decide)
    exact fun id hid => h.exact.not_tracks (tracks_of_mem_victims hid) (by decide)
  · have hnot : id ∉ (EvictionPlan.make (m.units .device) nbytes).victims :=
      fun hmem => hid (tracks_of_mem_victims hmem)
    exact ⟨htransferred.find?_eq id hnot, htransferred.tracks_iff_of_not_mem hnot⟩

/-- Two arrays of four bytes each are on the device, and six bytes are asked for. -/
theorem makeRoom_answers_pair :
    ∃ m', Store.makeRoom 6 Store.pairStore.memory = .ok true m' ∧
      m'.manager.usage .device + 6 ≤ Store.pairStore.memory.manager.usage .device ∧
      m'.spill = Store.pairStore.memory.spill := by
  have hpair := Store.run_pairStore.coherent.memory
  have hmanaged : Store.pairStore.memory.isManaged = true := by decide +kernel
  obtain ⟨answer, m', hrun, hanswer, hreleased, -, -, hspill, -⟩ :=
    (makeRoom_answers Store.run_pairStore.spares.settled
      (hpair.toSound.sizedBy Store.sizedBy_pair) (show 0 < 6 by decide)).1 hmanaged
  have husage : Store.pairStore.memory.manager.usage .device = 8 := by decide +kernel
  have hyes : answer = true := by
    rw [hanswer, husage]
    decide
  have hroom := hreleased hyes
  rw [husage] at hroom
  subst hyes
  exact ⟨m', hrun, by omega, hspill⟩

end Memory

end TieredStore
