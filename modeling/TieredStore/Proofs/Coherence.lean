import TieredStore.Proofs.Run

/-!
# What holds while files can be written

As long as the spill directory takes files, proxies lose nothing and the books agree with the
proxies, after every operation of every run.

* `object_kept`: a proxy stands for the array that it was made around, in whatever form it is.
* `origin?_wrapObject`: which array that is.
* `tiers_agree`: every tracked proxy is in the tier of its form and in no other one.
-/

namespace TieredStore

namespace Store

variable {log : List DeviceArray} {s : Store DeviceArray} {settings : Settings}
  {allowed : Store DeviceArray → Op → Prop} {id : ProxyId}

/-! ### A run of a few steps -/

/-- An array over one small allocation. -/
def smallArray : DeviceArray := .ofBuffers 7 [⟨⟨1⟩, 4⟩]

/-- Room for fifty bytes on the device and a hundred on the host, and values handed out with their
objects put back. -/
def narrowSettings : Settings := { Settings.withLimits 50 100 with compatibilityMode := true }

/-- An empty store. -/
def narrowStore : Store DeviceArray :=
  ofSettings DeviceArray narrowSettings
    ⟨⟨"/tmp"⟩, "spilled-data-0", 0, false, true, .empty⟩ none

/-- A store with one array, which is live on the device. -/
def liveStore : Store DeviceArray := (Op.insert "key" (.object smallArray)).after narrowStore

/-- The same store once the array has been moved to disk. -/
def spilledStore : Store DeviceArray := (Op.onMemory (.demoteToDisk ⟨1⟩)).after liveStore

/-- An array is stored, and moved to the host and then to disk. -/
def storeAndEvict : List Op :=
  [.insert "key" (.object smallArray), .onMemory (.evictFromDevice 4), .onMemory (.evictFromHost 4)]

theorem isAddressable_smallArray : smallArray.IsAddressable := by
  unfold DeviceArray.IsAddressable
  decide

theorem admissible_object {a : DeviceArray} (ha : a.IsAddressable) (key : String)
    (s : Store DeviceArray) : (Op.insert key (.object a)).Admissible s := by
  refine ⟨fun b hb => ?_, fun id hid => by cases hid⟩
  rw [List.mem_singleton.1 hb]
  exact ha

theorem admissible_smallArray (key : String) (s : Store DeviceArray) :
    (Op.insert key (.object smallArray)).Admissible s :=
  admissible_object isAddressable_smallArray key s

theorem create_narrowStore :
    SpillDirectory.create ⟨"/tmp"⟩ "0" false true = .ok narrowStore.memory.spill := rfl

theorem run_liveStore : Run narrowSettings Op.KeepsWritable [smallArray] liveStore := by
  have hempty : Run narrowSettings Op.KeepsWritable [] narrowStore := .start create_narrowStore
  exact hempty.step (.insert "key" (.object smallArray)) trivial (admissible_smallArray _ _)

theorem run_spilledStore : Run narrowSettings Op.KeepsWritable [smallArray] spilledStore :=
  run_liveStore.step (.onMemory (.demoteToDisk ⟨1⟩)) trivial ⟨_, rfl, rfl⟩

/-! ### Nothing is lost -/

/-- A new proxy is made around the array that it was asked for. -/
theorem origin?_wrapObject (h : Run settings allowed log s) (a : DeviceArray) (isExplicit : Bool) :
    ∃ new s', wrapObject a isExplicit s = .ok new s' ∧ origin? (log ++ [a]) new = some a := by
  refine ⟨⟨s.memory.nextId⟩, _, rfl, ?_⟩
  rw [h.coherent.memory.nextId_eq]
  exact origin?_length_succ log a

/-- However often a proxy has moved between the tiers, it stands for the array that it was made
around: its form is decoded into the array, it reports the size of the array, and asking it for the
object succeeds and gives the array. The last of these holds even if the proxy is itself moved to
make room for the object. -/
theorem object_kept (h : Run settings Op.KeepsWritable log s)
    (halive : s.memory.isAlive id = true) :
    ∃ a p, origin? log id = some a ∧ s.memory.proxies.find? id = some (.object p) ∧
      (∃ v, ObjectProxy.objectOf p.form s.memory.spill.volume = .ok a v) ∧
      p.nbytes = a.nbytes ∧ ∃ m', Memory.object id s.memory = .ok a m' := by
  have hmemory := h.coherent.memory
  obtain ⟨p, hfind⟩ := hmemory.exists_object halive
  obtain ⟨a, horigin, hholds⟩ := hmemory.exists_origin hfind
  refine ⟨a, p, horigin, hfind, ⟨_, ObjectProxy.objectOf_of_holds hholds⟩,
    ObjectProxy.nbytes_of_holds hholds, ?_⟩
  -- The only way to fail is a file that cannot be written while room is made.
  have hwritable : ∀ e m', ¬ Memory.Refused log s.memory e m' := fun _ _ hrefused =>
    hrefused.2 h.writable
  obtain ⟨b, m', hobject, rfl, -⟩ := (Memory.object_ends hmemory hfind horigin).exists_ok hwritable
  exact ⟨m', hobject⟩

theorem object_kept_on_disk :
    spilledStore.memory.isAlive ⟨1⟩ = true ∧
      ∃ a p, origin? [smallArray] ⟨1⟩ = some a ∧
        spilledStore.memory.proxies.find? ⟨1⟩ = some (.object p) ∧
        (∃ v, ObjectProxy.objectOf p.form spilledStore.memory.spill.volume = .ok a v) ∧
        p.nbytes = a.nbytes ∧ ∃ m', Memory.object ⟨1⟩ spilledStore.memory = .ok a m' :=
  ⟨rfl, object_kept run_spilledStore rfl⟩

/-! ### The books agree with the proxies -/

/-- Every tracked proxy exists and is listed by one registry only, that of the tier that its
serializer names. So a check of the books finds nothing, and no proxy is ever found in two tiers. -/
theorem tiers_agree (h : Run settings Op.KeepsWritable log s) :
    (∀ tier id, s.memory.manager.Tracks tier id → ∃ p, s.memory.proxies.find? id = some p ∧
      s.memory.manager.tiersOf id = [Tier.ofSerializer (Spillable.serializer p)]) ∧
      Memory.validate s.memory = .ok () s.memory ∧
      ∀ id, ∃ tier?, s.memory.manager.locate id = .ok tier? := by
  have hmemory := h.coherent.memory
  refine ⟨fun tier id htracks => ?_, ?_, fun id => ?_⟩
  · obtain ⟨p, hfind, -⟩ := hmemory.attached htracks
    refine ⟨.object p, hfind, ?_⟩
    rw [Manager.tiersOf_of_tracks hmemory.exact htracks, h.spares.seated id tier p htracks hfind]
    exact congrArg (fun t => [t]) (Proxy.tier_object p).symm
  · exact ((Memory.validate_ends hmemory.toSound h.spares.seated).mono_ok
      fun _ m' hm' => ⟨rfl, hm'⟩).eq_ok
  · obtain ⟨tier?, hlocate, -⟩ := Manager.exists_locate hmemory.exact id
    exact ⟨tier?, hlocate⟩

theorem tiers_agree_on_disk :
    (∀ tier id, spilledStore.memory.manager.Tracks tier id →
      ∃ p, spilledStore.memory.proxies.find? id = some p ∧
        spilledStore.memory.manager.tiersOf id = [Tier.ofSerializer (Spillable.serializer p)]) ∧
      Memory.validate spilledStore.memory = .ok () spilledStore.memory ∧
      ∀ id, ∃ tier?, spilledStore.memory.manager.locate id = .ok tier? :=
  tiers_agree run_spilledStore

end Store

end TieredStore
