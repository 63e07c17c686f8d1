import TieredStore.Proofs.Store

/-!
# Runs of a store

A run starts with an empty store over a new directory and takes any admissible operations in any
order. Operations that fail are part of it, and leave the state that they leave. Between
operations the directory may stop to take files, and start to take them again.

* `Store.Op`: what can be done with a store, and what can happen around it.
* `Store.Run`: the states of a run, with the arrays that proxies were made around.
* `Op.Spares`: what keeps an operation from stranding a proxy.
* `Op.leads`: what a single operation preserves.
* `Admits`: operations that may be asked for one after the other.
* `Run.coherent`, `Run.limits`: what holds after every run.
* `Run.not_stranded`, `Run.spares`: no proxy is stranded if live ones are spared, and they are while
  files can be written.
-/

namespace TieredStore

namespace Store

/-- An operation on a store, or a change of the directory that it spills to. -/
inductive Op where
  /-- Stores a value. -/
  | insert (key : String) (value : Value DeviceArray)
  /-- Hands out a stored value. -/
  | get (key : String)
  /-- Takes a value out of the store. -/
  | remove (key : String)
  /-- Wraps a value for the caller without storing it. -/
  | adopt (value : Value DeviceArray)
  /-- Makes a proxy for the caller. -/
  | wrapObject (a : DeviceArray) (isExplicit : Bool)
  /-- The caller takes hold of some more proxies. -/
  | hold (ids : List ProxyId)
  /-- The caller lets go of some proxies. -/
  | letGo (ids : List ProxyId)
  /-- Moves a part of the host to disk. -/
  | spillHundredth
  /-- An allocation on the device has failed. -/
  | allocationFailed (nbytes : ℕ)
  /-- An operation on a proxy or on the tiers. -/
  | onMemory (op : Memory.Op)
  /-- The directory takes files or not, and writes them in another way. The files that are there
  stay. -/
  | setDirectory (isPresent : Bool) (refused : List Path) (sharedFilesystem compression : Bool)

variable {log : List DeviceArray} {s s' : Store DeviceArray} {settings : Settings}
  {allowed allowed' : Store DeviceArray → Op → Prop}

namespace Op

/-- What an operation does. -/
def run : Op → Action DeviceArray Unit
  | insert key value => do let _ ← Store.insert key value
  | get key => do let _ ← Store.get? key
  | remove key => do let _ ← Store.remove key
  | adopt value => do let _ ← Store.adopt value
  | wrapObject a isExplicit => do let _ ← Store.wrapObject a isExplicit
  | hold ids => Store.hold ids
  | letGo ids => Store.letGo ids
  | spillHundredth => do let _ ← Store.spillHundredth (T := DeviceArray)
  | allocationFailed nbytes => do let _ ← Store.allocationFailed (T := DeviceArray) nbytes
  | onMemory op => Store.onMemory op.run
  | setDirectory isPresent refused sharedFilesystem compression =>
    modify fun s => { s with memory.spill := { s.memory.spill with
      sharedFilesystem, compression, volume := { s.memory.spill.volume with isPresent, refused } } }

/-- The state in which an operation leaves a store, whether it succeeds or fails. -/
def after (op : Op) (s : Store DeviceArray) : Store DeviceArray :=
  match op.run s with
  | .ok _ s' => s'
  | .error _ s' => s'

/-- The arrays that an operation makes proxies around, in the order of the proxies. -/
def newArrays : Op → List DeviceArray
  | insert _ value | adopt value => Memory.newArrays value
  | wrapObject a _ => [a]
  | _ => []

/-- Whoever asks for an operation holds the proxies that it names, and its arrays are in memory. -/
def Admissible (s : Store DeviceArray) : Op → Prop
  | insert _ value | adopt value =>
    (∀ a ∈ value.objects, a.IsAddressable) ∧ ∀ id ∈ value.proxies, s.memory.isAlive id = true
  | wrapObject a _ => a.IsAddressable
  | hold ids => ∀ id ∈ ids, s.memory.isAlive id = true
  | onMemory op => op.Admissible s.memory
  | _ => True

/-- The directory takes all files after an operation if it did before. -/
def KeepsWritable (_ : Store DeviceArray) : Op → Prop
  | setDirectory isPresent refused _ _ => isPresent = true ∧ refused = []
  | _ => True

/-- No live proxy is moved from the device to disk while files may be refused. -/
def Spares (s : Store DeviceArray) : Op → Prop
  | onMemory op => op.Spares s.memory
  | _ => True

/-- No proxy is struck from the books while it is not live, nor serialized by a move that may
fail. -/
def Enrols (s : Store DeviceArray) : Op → Prop
  | onMemory op => op.Enrols s.memory
  | _ => True

end Op

/-- The states of a run from an empty store. The log has the arrays that proxies were made around,
in the order of the proxies. -/
inductive Run (settings : Settings) (allowed : Store DeviceArray → Op → Prop) :
    List DeviceArray → Store DeviceArray → Prop
  /-- An empty store spills to a new directory. -/
  | start {root : Path} {tag : String} {sharedFilesystem : Bool} {spill : SpillDirectory}
    {accepts : Option Bool}
    (hspill : SpillDirectory.create root tag sharedFilesystem true = .ok spill) :
    Run settings allowed [] (ofSettings DeviceArray settings spill accepts)
  /-- One more operation. -/
  | step {log : List DeviceArray} {s : Store DeviceArray} (h : Run settings allowed log s) (op : Op)
    (hallowed : allowed s op) (hadmissible : op.Admissible s) :
    Run settings allowed (log ++ op.newArrays) (op.after s)

/-! ### A single operation -/

/-- An operation leads to a coherent store with the same limits. It strands no proxies if it spares
live ones. -/
structure Leads (log : List DeviceArray) (op : Op) (s s' : Store DeviceArray) : Prop where
  /-- The store is coherent. -/
  coherent : Coherent log s'
  /-- The limit of the device stays. -/
  deviceLimit_eq : s'.memory.manager.deviceLimit = s.memory.manager.deviceLimit
  /-- The limit of the host stays. -/
  hostLimit_eq : s'.memory.manager.hostLimit = s.memory.manager.hostLimit
  /-- Values are handed out as before. -/
  mode_eq : s'.compatibilityMode = s.compatibilityMode
  /-- No file is written over, and no name given out again. -/
  evolves : s.memory.spill.Evolves s'.memory.spill
  /-- Files can still be written. -/
  writable : op.KeepsWritable s → s.memory.spill.Writable → s'.memory.spill.Writable
  /-- No more proxies are stranded. -/
  stranded : op.Spares s → ∀ id, s'.memory.Stranded id → s.memory.Stranded id
  /-- Proxies that were tracked unless live still are. -/
  enrolled : op.Enrols s → ∀ id, s.memory.Enrolled id → s'.memory.Enrolled id

theorem Continues.leads (h : Continues log s s') (op : Op) : Leads log op s s' where
  coherent := h.coherent
  deviceLimit_eq := h.proceeds.deviceLimit_eq
  hostLimit_eq := h.proceeds.hostLimit_eq
  mode_eq := h.mode_eq
  evolves := h.proceeds.evolves
  writable _ := h.proceeds.writable_iff.2
  stranded _ := h.proceeds.stranded
  enrolled _ := h.proceeds.enrolled

/-- An operation on the memory leads the store with it. -/
theorem Coherent.leads (h : Coherent log s) {op : Memory.Op} {memory : Memory (Proxy DeviceArray)}
    (hleads : Memory.Leads log op s.memory memory) :
    Leads log (.onMemory op) s { s with memory } where
  coherent := ⟨hleads.coherent, fun id hid => (hleads.isAlive_eq id).trans (h.isAlive id hid)⟩
  deviceLimit_eq := hleads.deviceLimit_eq
  hostLimit_eq := hleads.hostLimit_eq
  mode_eq := rfl
  evolves := hleads.evolves
  writable _ := hleads.writable_iff.2
  stranded := hleads.stranded
  enrolled := hleads.enrolled

/-- The directory has no part in the books, and the files stay. -/
theorem setDirectory_leads (h : Coherent log s) (isPresent : Bool) (refused : List Path)
    (sharedFilesystem compression : Bool) :
    Ends (Op.setDirectory isPresent refused sharedFilesystem compression).run s
      (fun _ s' =>
        Leads log (.setDirectory isPresent refused sharedFilesystem compression) s s') Never := by
  rw [Op.run, Ends.modify_iff]
  have hsound : Memory.Sound log { s.memory with spill := { s.memory.spill with
      sharedFilesystem, compression,
      volume := { s.memory.spill.volume with isPresent, refused } } } :=
    h.memory.withSpill rfl rfl (Nat.le_refl _) rfl
  exact ⟨⟨⟨hsound, h.memory.seated_or_stranded⟩, h.isAlive⟩, rfl, rfl, rfl,
    .of_find? rfl rfl (Nat.le_refl _) fun _ _ hdata => hdata, fun hkeeps _ => hkeeps,
    fun _ _ hid => hid, fun _ _ hid => hid⟩

/-- Every operation preserves coherence, however it ends. -/
theorem Op.ends (h : Coherent log s) (op : Op) (hadmissible : op.Admissible s) :
    Ends op.run s (fun _ s' => Leads (log ++ op.newArrays) op s s')
      (fun _ s' => Leads (log ++ op.newArrays) op s s') := by
  -- Most operations make no proxies, so the log stays as it is.
  have hleads : ∀ {t}, Follows log s t → Leads (log ++ []) op s t := by
    intro t hfollows
    rw [List.append_nil]
    exact hfollows.toContinues.leads op
  cases op with
  | insert key value =>
    rw [run, Ends.bind_iff]
    exact (insert_ends h key hadmissible.1 hadmissible.2).mono
      (fun _ _ hend => hend.1.toContinues.leads _) fun _ _ hend => hend.1.toContinues.leads _
  | get key =>
    rw [run, Ends.bind_iff]
    exact (get?_ends h key).mono (fun _ _ hend => hleads hend.1) fun _ _ hend => hleads hend.1
  | remove key =>
    rw [run, Ends.bind_iff]
    exact (remove_ends h key).of_never fun _ _ hend => hleads hend.1
  | adopt value =>
    rw [run, Ends.bind_iff]
    exact (adopt_ends h hadmissible.1 hadmissible.2).mono
      (fun _ _ hend => hend.toContinues.leads _) fun _ _ hend => hend.1.toContinues.leads _
  | wrapObject a isExplicit =>
    rw [run, Ends.bind_iff]
    exact (wrapObject_ends h hadmissible isExplicit).of_never fun _ _ hend => hend.leads _
  | hold ids =>
    rw [run, Store.hold, Ends.modify_iff]
    exact hleads (h.hold (h.isAlive_of_hold (fun _ hid => hid) hadmissible) rfl rfl)
  | letGo ids => exact (letGo_ends h ids).of_never fun _ _ hend => hleads hend.1
  | spillHundredth =>
    rw [run, Ends.bind_iff]
    exact (spillHundredth_ends h).mono (fun _ _ hend => hleads hend.1) fun _ _ hend => hleads hend.1
  | allocationFailed nbytes =>
    rw [run, Ends.bind_iff]
    exact (allocationFailed_ends h nbytes).mono (fun _ _ hend => hleads hend.1) fun _ _ hend =>
      hleads hend.1
  | onMemory op =>
    have hnone : log ++ (onMemory op).newArrays = log := List.append_nil log
    rw [hnone, run, onMemory_iff]
    exact (op.ends h.memory hadmissible).mono (fun _ _ hend => h.leads hend) fun _ _ hend =>
      h.leads hend
  | setDirectory isPresent refused sharedFilesystem compression =>
    have hnone :
        log ++ (setDirectory isPresent refused sharedFilesystem compression).newArrays = log :=
      List.append_nil log
    rw [hnone]
    exact (setDirectory_leads h isPresent refused sharedFilesystem compression).of_never
      fun _ _ hend => hend

/-- What holds however an operation ends holds of the state that it leaves. -/
theorem Op.after_of_leaves {op : Op} {inv : Store DeviceArray → Prop} (h : Leaves op.run s inv) :
    inv (op.after s) := by
  rw [Op.after]
  split
  next hrun => exact h.of_ok hrun
  next hrun => exact h.of_error hrun

/-- The state that an operation leaves. -/
theorem Op.leads (h : Coherent log s) (op : Op) (hadmissible : op.Admissible s) :
    Leads (log ++ op.newArrays) op s (op.after s) :=
  after_of_leaves (Op.ends h op hadmissible)

/-! ### Whole runs -/

/-- Each operation is allowed and admissible in the state that those before it have left. -/
def Admits (allowed : Store DeviceArray → Op → Prop) : List Op → Store DeviceArray → Prop
  | [], _ => True
  | op :: ops, s => allowed s op ∧ op.Admissible s ∧ Admits allowed ops (op.after s)

namespace Run

/-- Every run leads to a coherent store. -/
theorem coherent (h : Run settings allowed log s) : Coherent log s := by
  induction h with
  | start hspill =>
    -- Nothing is tracked and nothing is held at first.
    cases hspill
    refine ⟨⟨Memory.Sound.empty _ _ rfl, fun id => .inl fun tier p htracks => ?_⟩, fun id hid => ?_⟩
    · cases tier <;> cases htracks
    · cases hid
  | step _ op _ hadmissible ih => exact (Op.leads ih op hadmissible).coherent

/-- The limits are those of the settings throughout. -/
theorem limits (h : Run settings allowed log s) :
    s.memory.manager.deviceLimit = settings.deviceMemoryLimit ∧
      s.memory.manager.hostLimit = settings.memoryLimit := by
  induction h with
  | start => exact ⟨rfl, rfl⟩
  | step h op _ hadmissible ih =>
    have hleads := Op.leads h.coherent op hadmissible
    exact ⟨hleads.deviceLimit_eq.trans ih.1, hleads.hostLimit_eq.trans ih.2⟩

/-- A run in which more is allowed. -/
theorem mono (h : Run settings allowed log s)
    (hallowed : ∀ {log s} op, Run settings allowed log s → allowed s op → allowed' s op) :
    Run settings allowed' log s := by
  induction h with
  | start hspill => exact .start hspill
  | step h op hop hadmissible ih => exact ih.step op (hallowed op h hop) hadmissible

/-- Files can be written throughout if every operation sees to that. -/
theorem writable (h : Run settings Op.KeepsWritable log s) : s.memory.spill.Writable := by
  induction h with
  | start hspill =>
    cases hspill
    exact ⟨rfl, rfl⟩
  | step h op hop hadmissible ih => exact (Op.leads h.coherent op hadmissible).writable hop ih

/-- A run goes on with one operation after the other. -/
theorem foldl (h : Run settings allowed log s) {ops : List Op} (hops : Admits allowed ops s) :
    Run settings allowed (log ++ ops.flatMap Op.newArrays)
      (ops.foldl (fun s op => op.after s) s) := by
  induction ops generalizing log s with
  | nil => rwa [List.flatMap_nil, List.append_nil]
  | cons op ops ih =>
    obtain ⟨hallowed, hadmissible, hrest⟩ := hops
    rw [List.flatMap_cons, ← List.append_assoc]
    exact ih (h.step op hallowed hadmissible) hrest

/-- Live proxies are spared while files can be written. -/
theorem spares (h : Run settings Op.KeepsWritable log s) : Run settings Op.Spares log s := by
  refine h.mono fun {_ s} op h _ => ?_
  have hwritable := h.writable
  -- Only a move to disk has to spare anything.
  unfold Op.Spares Memory.Op.Spares
  split
  · split
    · exact fun _ _ _ _ => hwritable
    · trivial
  · trivial

/-- No proxy is stranded as long as live ones are spared. -/
theorem not_stranded (h : Run settings Op.Spares log s) (id : ProxyId) :
    ¬ s.memory.Stranded id := by
  induction h with
  | start hspill =>
    cases hspill
    intro hstranded
    cases hstranded.1
  | step h op hop hadmissible ih =>
    exact fun hstranded =>
      ih ((Op.leads h.coherent op hadmissible).stranded hop id hstranded)

/-- Every tracked proxy is in the tier of its form then. -/
theorem seated (h : Run settings Op.Spares log s) (id : ProxyId) : s.memory.Seated id :=
  (h.coherent.memory.seated_or_stranded id).resolve_right (h.not_stranded id)

end Run

end Store

end TieredStore
