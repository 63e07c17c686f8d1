import TieredStore.Proofs.Coherence
import TieredStore.Proofs.Memory.Budgets

/-!
# Tallies and budgets

What holds after every run, also where files could not be written. A demotion to disk that fails
leaves a live proxy stranded: it holds frames in host memory and is still counted on the device.
These bytes are hidden, since nothing offers them for eviction. Everything else is exact and within
the limits, and nothing is hidden while files can be written.

* `tallies_exact`: the tallies, and the units that are offered for eviction.
* `budgets_kept`: the limits, after operations that enforce them.
-/

namespace TieredStore

namespace Store

variable {log : List DeviceArray} {s s' : Store DeviceArray} {settings : Settings}
  {allowed : Store DeviceArray → Op → Prop} {size : BufferId → ℕ} {id : ProxyId}

/-- A store whose only array was to be moved to disk when no file could be written. -/
def strandedStore : Store DeviceArray :=
  (Op.onMemory (.demoteToDisk ⟨1⟩)).after ((Op.setDirectory false [] false true).after liveStore)

/-- A store with one array, which has been moved to the host. -/
def hostStore : Store DeviceArray := (Op.onMemory (.demoteToHost ⟨1⟩)).after liveStore

theorem sizedBy_smallArray : ∀ a ∈ [smallArray], a.SizedBy fun _ => 4 := by
  unfold DeviceArray.SizedBy
  decide

theorem run_strandedStore : Run narrowSettings (fun _ _ => True) [smallArray] strandedStore := by
  have hlive : Run narrowSettings (fun _ _ => True) [smallArray] liveStore :=
    run_liveStore.mono fun _ _ _ => trivial
  exact (hlive.step (.setDirectory false [] false true) trivial trivial).step
    (.onMemory (.demoteToDisk ⟨1⟩)) trivial ⟨_, rfl, rfl⟩

theorem run_hostStore : Run narrowSettings Op.KeepsWritable [smallArray] hostStore :=
  run_liveStore.step (.onMemory (.demoteToHost ⟨1⟩)) trivial ⟨_, rfl, rfl⟩

/-- Another array, over an allocation of the same size. -/
def otherArray : DeviceArray := .ofBuffers 8 [⟨⟨2⟩, 4⟩]

/-- A store with two arrays, which came together and are live on the device. -/
def pairStore : Store DeviceArray :=
  (Op.insert "key" (.list [.object smallArray, .object otherArray])).after narrowStore

theorem sizedBy_pair : ∀ a ∈ [smallArray, otherArray], a.SizedBy fun _ => 4 := by
  unfold DeviceArray.SizedBy
  decide

theorem run_pairStore :
    Run narrowSettings Op.KeepsWritable [smallArray, otherArray] pairStore := by
  have hempty : Run narrowSettings Op.KeepsWritable [] narrowStore := .start create_narrowStore
  refine hempty.step (.insert "key" (.list [.object smallArray, .object otherArray])) trivial
    ⟨fun a ha => ?_, fun id hid => by cases hid⟩
  have ha : a ∈ [smallArray, otherArray] := ha
  unfold DeviceArray.IsAddressable
  revert a
  decide

/-- A store with two arrays, of which one has been moved to the host. -/
def halvedStore : Store DeviceArray := (Op.onMemory (.demoteToHost ⟨1⟩)).after pairStore

/-- A store with two arrays, which have both been moved to the host. -/
def loweredStore : Store DeviceArray := (Op.onMemory (.demoteToHost ⟨2⟩)).after halvedStore

theorem run_loweredStore :
    Run narrowSettings Op.KeepsWritable [smallArray, otherArray] loweredStore := by
  have hfirst : pairStore.memory.IsAttached ⟨1⟩ := (Option.any_eq_true _ _).1 (by decide +kernel)
  have hsecond : halvedStore.memory.IsAttached ⟨2⟩ := (Option.any_eq_true _ _).1 (by decide +kernel)
  exact (run_pairStore.step (.onMemory (.demoteToHost ⟨1⟩)) trivial hfirst).step
    (.onMemory (.demoteToHost ⟨2⟩)) trivial hsecond

/-- The memory of a store is settled as long as nothing is stranded. -/
theorem Run.settled (h : Run settings Op.Spares log s) : s.memory.Settled :=
  h.coherent.memory.settled h.seated

/-! ### Tallies -/

/-- Each allocation that a proxy on the device refers to has one unit there. The units have the
bytes of these allocations, each counted once, and the tally of the device is the same with the
hidden bytes. The tallies of host and disk are the sizes of the proxies there, as are their units.
Only stranded proxies hide anything, and a proxy is stranded only where a live one is moved from the
device to disk and its file cannot be written. -/
theorem tallies_exact (h : Run settings allowed log s) (hsize : ∀ a ∈ log, a.SizedBy size) :
    (∃ buffers : List BufferId, buffers.Nodup ∧
      (∀ b, b ∈ buffers ↔ ∃ id, s.memory.Refers id b) ∧
      List.Forall₂ (s.memory.IsUnitOf size) buffers (s.memory.units .device) ∧
      ((s.memory.units .device).map EvictionUnit.size).sum = (buffers.map size).sum ∧
      s.memory.manager.usage .device = (buffers.map size).sum + s.memory.hiddenBytes size log) ∧
      (∀ tier, tier ≠ .device →
        s.memory.manager.usage tier =
          ((s.memory.residents tier).map fun r => Spillable.size r.2).sum ∧
        ((s.memory.units tier).map EvictionUnit.size).sum =
          ((s.memory.residents tier).map fun r => Spillable.size r.2).sum) ∧
      ((∀ id, ¬ s.memory.Stranded id) → s.memory.hiddenBytes size log = 0) ∧
      (Run settings Op.Spares log s → ∀ id, ¬ s.memory.Stranded id) ∧
      (∀ id p e m', s.memory.manager.Tracks .device id →
        s.memory.proxies.find? id = some (.object p) → p.form.tier = .device →
        Memory.demoteToDisk id s.memory = .error e m' → m'.Stranded id) := by
  have hmemory := h.coherent.memory
  have hlive : s.memory.liveBytes size = (s.memory.deviceBufferIds.map size).sum :=
    List.sum_toFinset _ s.memory.nodup_deviceBufferIds
  refine ⟨⟨s.memory.deviceBufferIds, s.memory.nodup_deviceBufferIds,
    Memory.mem_deviceBufferIds_iff _, Memory.forall₂_isUnitOf hmemory.toSound hsize, ?_, ?_⟩,
    fun tier htier => ⟨?_, ?_⟩, fun hnone => ?_, fun hspares => hspares.not_stranded,
    fun id p e m' htracks hfind hdevice hdemote => ?_⟩
  · rw [Memory.sum_sizes_device hmemory.toSound hsize, hlive]
  · rw [Memory.usage_device_eq hmemory hsize, hlive]
  · exact Memory.usage_eq_sum_residents hmemory htier
  · exact Memory.sum_sizes_units s.memory htier
  · exact Memory.hiddenBytes_eq_zero hmemory.toSound hnone
  · have hattached : p.isAttached = true := by
      obtain ⟨q, hq, hattached⟩ := hmemory.attached htracks
      rw [hfind] at hq
      cases hq
      exact hattached
    rcases (Memory.demoteToDisk_ends hmemory hfind hattached).of_error hdemote with
      ⟨hnot, -⟩ | ⟨-, hinterrupted⟩
    · exact absurd hdevice hnot
    · exact (hinterrupted.stranded_iff id).2 (.inr ⟨rfl, htracks⟩)

/-- Where the file of a live proxy is refused, its four bytes are tallied on the device, and nothing
there can be evicted. -/
theorem tallies_exact_stranded :
    strandedStore.memory.units .device = [] ∧ strandedStore.memory.manager.usage .device = 4 ∧
      strandedStore.memory.hiddenBytes (fun _ => 4) [smallArray] = 4 := by
  obtain ⟨⟨buffers, -, -, hunits, -, husage⟩, -⟩ :=
    tallies_exact run_strandedStore sizedBy_smallArray
  have hnone : strandedStore.memory.units .device = [] := by decide +kernel
  have htally : strandedStore.memory.manager.usage .device = 4 := rfl
  rw [hnone, List.forall₂_nil_right_iff] at hunits
  rw [hunits, htally, List.map_nil, List.sum_nil, Nat.zero_add] at husage
  exact ⟨hnone, htally, husage.symm⟩

/-! ### Budgets -/

/-- Limits have been enforced since the memory `m`: live proxies on the device have at most `room`
bytes, which is what the tally says if nothing was stranded, and the host is within its limit. -/
structure Within (settings : Settings) (size : BufferId → ℕ) (log : List DeviceArray) (room : ℕ)
    (m m' : Memory (Proxy DeviceArray)) : Prop where
  /-- The tally of the device, with what is hidden. -/
  device_eq : m'.manager.usage .device = m'.liveBytes size + m'.hiddenBytes size log
  /-- Live proxies on the device have room. -/
  live_le : m'.liveBytes size ≤ room
  /-- The tally of the device is within the room if no proxy was stranded. -/
  device_le : (∀ id, ¬ m.Stranded id) → m'.manager.usage .device ≤ room
  /-- The tally of the host is within its limit. -/
  host_le : m'.manager.usage .host ≤ settings.memoryLimit

theorem Within.of_le {m m' : Memory (Proxy DeviceArray)} {room : ℕ} (h : Memory.Coherent log m')
    (hsize : ∀ a ∈ log, a.SizedBy size) (hstranded : ∀ id, m'.Stranded id → m.Stranded id)
    (hlive : m'.liveBytes size ≤ room) (hhost : m'.manager.usage .host ≤ settings.memoryLimit) :
    Within settings size log room m m' := by
  have husage := Memory.usage_device_eq h hsize
  refine ⟨husage, hlive, fun hnone => ?_, hhost⟩
  rw [husage, Memory.hiddenBytes_eq_zero h.toSound fun id hid => hnone id (hstranded id hid)]
  exact hlive

/-- An operation that enforces the limits at its end leaves both tiers within them. -/
theorem Run.within_of_enforced (h : Run settings allowed log s) {all : List DeviceArray}
    {m m' : Memory (Proxy DeviceArray)} (hm : Memory.Coherent all m)
    (hlimits : Memory.SameLimits s.memory m')
    (hstranded : ∀ id, m.Stranded id → s.memory.Stranded id)
    (henforced : Memory.Enforced all 0 m m') (hsize : ∀ a ∈ all, a.SizedBy size)
    (hfits : m'.footprint all ≤ Memory.maxBytes) :
    Within settings size all settings.deviceMemoryLimit s.memory m' := by
  have hadvances := henforced.advances hm
  rw [hadvances.toKept.footprint_eq] at hfits
  have hdevice := (Memory.usage_device_le_footprint hm hsize).trans hfits
  obtain ⟨hlive, hhost⟩ := henforced.within hm hsize hdevice hfits
  rw [← hadvances.deviceLimit_eq, hlimits.deviceLimit_eq, h.limits.1] at hlive
  rw [← hadvances.hostLimit_eq, hlimits.hostLimit_eq, h.limits.2] at hhost
  exact .of_le hadvances.coherent hsize (fun id hid => hstranded id (hadvances.stranded id hid))
    hlive hhost

/-- Asking a serialized proxy for its object makes room first, and the proxy takes that room. -/
theorem Run.within_of_object (h : Run settings allowed log s) (hsize : ∀ a ∈ log, a.SizedBy size)
    {p : ObjectProxy DeviceArray} (hfind : s.memory.proxies.find? id = some (.object p))
    (hattached : p.isAttached = true) (hserialized : p.isSerialized = true) {a : DeviceArray}
    {m' : Memory (Proxy DeviceArray)} (hobject : Memory.object id s.memory = .ok a m')
    (hdevice : s.memory.manager.usage .device + p.nbytes ≤ Memory.maxBytes)
    (hfits : s.memory.footprint log ≤ Memory.maxBytes) :
    Within settings size log (max settings.deviceMemoryLimit p.nbytes) s.memory m' ∧
      m'.manager.Tracks .device id ∧
      ∃ q, m'.proxies.find? id = some (.object q) ∧ q.form = .live a := by
  have hmemory := h.coherent.memory
  obtain ⟨b, horigin, hholds⟩ := hmemory.exists_origin hfind
  have hnbytes := ObjectProxy.nbytes_of_holds hholds
  have htier : p.form.tier ≠ .device := by
    rw [ne_eq, hholds.tier_eq_device_iff]
    intro hlive
    rw [ObjectProxy.isSerialized, ObjectProxy.payload?, hlive] at hserialized
    cases hserialized
  obtain ⟨rfl, hadvances, hroom⟩ := (Memory.object_ends hmemory hfind horigin).of_ok hobject
  obtain ⟨m₁, m₂, hadvances₁, hmanager, henforced, hrelocated⟩ := hroom hattached htier
  have hadvances₂ := hadvances₁.trans (henforced.advances hadvances₁.coherent)
  -- Limits are enforced with room for the array, which then takes up no more than that.
  have hwithin := henforced.within hadvances₁.coherent hsize (by rwa [hmanager, ← hnbytes])
    (by rwa [hadvances₁.toKept.footprint_eq])
  rw [hmanager, h.limits.1, h.limits.2] at hwithin
  have hrevived := Memory.liveBytes_le_of_revived hadvances.coherent.toSound hrelocated horigin
    (hsize a (mem_of_origin? horigin))
  have hhost := hrelocated.usage_host_le (by decide) hadvances₂.coherent hadvances.coherent
  refine ⟨.of_le hadvances.coherent hsize hadvances.stranded ?_ (hhost.trans hwithin.2), ?_, ?_⟩
  · rw [hnbytes]
    omega
  · rw [hrelocated.tracks_iff, if_pos (List.mem_singleton_self id)]
  · obtain ⟨q, hq, -⟩ := henforced.exists_find? (hadvances₁.coherent.exists_object
      ((hadvances₁.isAlive_eq id).trans (Table.contains_of_find? hfind))).choose_spec
    obtain ⟨r, hr, hrdevice, -⟩ := hrelocated.find?_of_mem id (List.mem_singleton_self id) q hq
    have hrholds := hadvances.coherent.holds hr horigin
    exact ⟨r, hr, hrholds.tier_eq_device_iff.1 hrdevice⟩

/-- The limits hold after every operation that enforces them at its end: storing a value, handing
one out with its objects put back, and moving a part of the host to disk. A serialized proxy that is
asked for its object ends live on the device, which may then be over its limit by nothing but this
object. The tally of the device is that of live proxies unless others are stranded.

Sums must not exceed what the evictions reckon with. A value that is stored may take the place of
another one, so what exists after that is what has to fit. -/
theorem budgets_kept (h : Run settings allowed log s) (hsize : ∀ a ∈ log, a.SizedBy size) :
    (∀ key value found s', (Op.insert key value).Admissible s →
      (∀ a ∈ Memory.newArrays value, a.SizedBy size) → insert key value s = .ok found s' →
      s'.memory.footprint (log ++ Memory.newArrays value) ≤ Memory.maxBytes →
      Within settings size (log ++ Memory.newArrays value) settings.deviceMemoryLimit s.memory
        s'.memory) ∧
      (∀ key found s', s.compatibilityMode = true → s.contains key = true →
        get? key s = .ok found s' → s.memory.footprint log ≤ Memory.maxBytes →
        Within settings size log settings.deviceMemoryLimit s.memory s'.memory) ∧
      (∀ freed s', s.memory.manager.host.isEmpty = false → spillHundredth s = .ok freed s' →
        s.memory.footprint log ≤ Memory.maxBytes →
        Within settings size log settings.deviceMemoryLimit s.memory s'.memory) ∧
      (∀ id p a m', s.memory.proxies.find? id = some (.object p) → p.isAttached = true →
        p.isSerialized = true → Memory.object id s.memory = .ok a m' →
        s.memory.manager.usage .device + p.nbytes ≤ Memory.maxBytes →
        s.memory.footprint log ≤ Memory.maxBytes →
        Within settings size log (max settings.deviceMemoryLimit p.nbytes) s.memory m' ∧
          m'.manager.Tracks .device id ∧
          ∃ q, m'.proxies.find? id = some (.object q) ∧ q.form = .live a) ∧
      (Run settings Op.Spares log s → ∀ id, ¬ s.memory.Stranded id) := by
  have hcoherent := h.coherent
  refine ⟨fun key value found s' hadmissible hnew hinsert hfits => ?_,
    fun key found s' hmode hkey hget hfits => ?_, fun freed s' hhost hspill hfits => ?_,
    fun id p a m' hfind hattached hserialized hobject hdevice hfits =>
      h.within_of_object hsize hfind hattached hserialized hobject hdevice hfits,
    fun hspares => hspares.not_stranded⟩
  · obtain ⟨hfollows, -, m, hm, hstranded, henforced⟩ :=
      (insert_ends hcoherent key hadmissible.1 hadmissible.2).of_ok hinsert
    refine h.within_of_enforced hm hfollows.proceeds.toSameLimits hstranded henforced
      (fun a ha => ?_) hfits
    exact (List.mem_append.1 ha).elim (hsize a) (hnew a)
  · obtain ⟨hfollows, -, -, hend⟩ := (get?_ends hcoherent key).of_ok hget
    obtain ⟨m, hadvances, henforced⟩ := hend hmode hkey
    refine h.within_of_enforced hadvances.coherent hfollows.proceeds.toSameLimits
      hadvances.stranded henforced hsize ?_
    rwa [(hadvances.trans (henforced.advances hadvances.coherent)).toKept.footprint_eq]
  · obtain ⟨hfollows, -, hend⟩ := (spillHundredth_ends hcoherent).of_ok hspill
    obtain ⟨m, hadvances, henforced⟩ := hend hhost
    refine h.within_of_enforced hadvances.coherent hfollows.proceeds.toSameLimits
      hadvances.stranded henforced hsize ?_
    rwa [(hadvances.trans (henforced.advances hadvances.coherent)).toKept.footprint_eq]

/-- The limits hold on a store whose array has been moved to the host, whatever is done next. -/
theorem budgets_kept_on_host :
    (∃ found s', insert "other" (.object smallArray) hostStore = .ok found s' ∧
      s'.memory.manager.usage .device ≤ 50 ∧ s'.memory.manager.usage .host ≤ 100) ∧
      (∃ found s', get? "key" hostStore = .ok found s' ∧
        s'.memory.manager.usage .device ≤ 50 ∧ s'.memory.manager.usage .host ≤ 100) ∧
      (∃ freed s', spillHundredth hostStore = .ok freed s' ∧
        s'.memory.manager.usage .device ≤ 50 ∧ s'.memory.manager.usage .host ≤ 100) ∧
      ∃ a m', Memory.object ⟨1⟩ hostStore.memory = .ok a m' ∧
        m'.manager.usage .device ≤ 50 ∧ m'.manager.usage .host ≤ 100 := by
  obtain ⟨hinsert, hget, hspill, hobject, hnone⟩ := budgets_kept run_hostStore sizedBy_smallArray
  have hstranded := hnone run_hostStore.spares
  have hfits : hostStore.memory.footprint [smallArray] ≤ Memory.maxBytes := by decide +kernel
  refine ⟨?_, ?_, ?_, ?_⟩
  · have hend := hinsert "other" (.object smallArray) _ _ (admissible_smallArray _ _)
      sizedBy_smallArray rfl (by decide +kernel)
    exact ⟨_, _, rfl, hend.device_le hstranded, hend.host_le⟩
  · have hend := hget "key" _ _ rfl rfl rfl hfits
    exact ⟨_, _, rfl, hend.device_le hstranded, hend.host_le⟩
  · -- The only way to fail is a file that cannot be written.
    obtain ⟨freed, s', hrun, -⟩ := (spillHundredth_ends run_hostStore.coherent).exists_ok
      fun _ _ hrefused => hrefused.2 run_hostStore.writable
    have hend := hspill freed s' rfl hrun hfits
    exact ⟨freed, s', hrun, hend.device_le hstranded, hend.host_le⟩
  · obtain ⟨hend, -⟩ := hobject ⟨1⟩ _ _ _ rfl rfl rfl rfl (by decide +kernel) hfits
    exact ⟨_, _, rfl, hend.device_le hstranded, hend.host_le⟩

end Store

end TieredStore
