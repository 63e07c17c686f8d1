import TieredStore.Proofs.Memory.Lasting
import TieredStore.Proofs.Serialization

/-!
# Files that are gone stay away

Proxies consume the files that they are read from, and new files have names that were not given out
before. So whatever is done with proxies, and however it ends, a file stays as it is or it goes for
good.

* `Volume.Shrinks`: some files may have gone.
* `SpillDirectory.load_leaves`, `ObjectProxy.framesFor_leaves`, `ObjectProxy.objectOf_leaves`: the
  file of a form is consumed whether or not it can be read.
* `ObjectProxy.serialize_of_missing`, `ObjectProxy.revive_of_missing`: without its file a proxy is
  left as it is.
* `Memory.lasting_evolves`: what steps with proxies do to the directory.
* `Memory.lasting_manager`: what they do to the books, which stay exact (`Memory.lasting_exact`) and
  keep their limits (`Memory.lasting_limits`).
-/

namespace TieredStore

namespace Volume

/-- Some files may have gone, and the others are as they were. -/
def Shrinks (v w : Volume) : Prop :=
  ∀ path data, w.files.find? path = some data → v.files.find? path = some data

/-- The same files are there. -/
def SameFiles (v w : Volume) : Prop := ∀ path, w.files.find? path = v.files.find? path

variable {v w : Volume}

theorem Shrinks.refl (v : Volume) : Shrinks v v := fun _ _ => id

theorem SameFiles.shrinks_of_without {path? : Option Path} (h : SameFiles (v.without path?) w) :
    Shrinks v w := by
  intro path data hdata
  rw [h path, find?_without] at hdata
  split at hdata
  · cases hdata
  · exact hdata

theorem remove_leaves (v : Volume) (path : Path) : Leaves (remove path) v (Shrinks v) := by
  rw [Leaves, Ends, remove]
  cases v.contains path with
  | true =>
    have hsame : SameFiles (v.without (some path)) { v with files := v.files.erase path } :=
      fun _ => rfl
    exact hsame.shrinks_of_without
  | false => exact .refl v

end Volume

/-- A file is gone once it was to be read, whether or not it could be. -/
theorem SpillDirectory.load_leaves (header : DiskHeader) (v : Volume) :
    Leaves (load header) v (Volume.SameFiles (v.without (some header.path))) := by
  rw [Leaves, Ends]
  cases hfile : v.files.find? header.path with
  | none =>
    rw [load_of_missing hfile]
    intro path
    rw [Volume.find?_without]
    split
    next heq => rw [← Option.some.inj heq, hfile]
    next => rfl
  | some data =>
    rw [load_of_find? hfile]
    cases decode header data <;> exact fun _ => rfl

/-- The number of a file is used up, and no other file has changed, whether or not it is written. -/
theorem SpillDirectory.dump_leaves (header : FrameHeader) (frames : List Bytes) (compress : Bool)
    (d : SpillDirectory) : Leaves (dump header frames compress) d (Evolves d) := by
  refine (d.dump_ends header frames compress).mono ?_ ?_
  · rintro disk d' ⟨-, rfl⟩
    exact .addFile d _
  · rintro e d' ⟨rfl, -⟩
    exact .of_find? rfl rfl (Nat.le_succ _) fun _ _ => id

/-- Files may go. -/
theorem SpillDirectory.Evolves.of_shrinks {d : SpillDirectory} {w : Volume}
    (h : d.volume.Shrinks w) : Evolves d { d with volume := w } :=
  .of_find? rfl rfl (Nat.le_refl _) h

namespace ObjectProxy

variable {T : Type} [DeviceObject T]

/-- The file of a form is gone once frames were to be taken out of it. -/
theorem framesFor_leaves (target : Serializer) (form : Form T) (v : Volume) :
    Leaves (framesFor target form) v (Volume.SameFiles (v.without form.file?)) := by
  rcases form with object | (⟨header, content⟩ | header)
  · rw [Leaves, Ends, framesFor]
    cases DeviceObject.toFrames object <;> exact fun _ => rfl
  · exact fun _ => rfl
  · exact (SpillDirectory.load_leaves header v).bind fun _ _ hw => hw

/-- The file of a form is gone once its object was to be read. -/
theorem objectOf_leaves (form : Form T) (v : Volume) :
    Leaves (objectOf form) v (Volume.SameFiles (v.without form.file?)) := by
  rcases form with object | (⟨header, content⟩ | header)
  · exact fun _ => rfl
  · rw [Leaves, Ends, objectOf]
    cases DeviceObject.ofFrames (T := T) content <;> exact fun _ => rfl
  · refine (SpillDirectory.load_leaves header v).bind fun r w hw => ?_
    dsimp only
    split <;> exact hw

/-- A proxy that is serialized may lose its file. -/
theorem serialize_shrinks (p : ObjectProxy T) (v : Volume) (tags : List Serializer) :
    Leaves (serialize tags) (p, v) fun r => v.Shrinks r.2 := by
  unfold serialize
  split
  next => exact .refl v
  next target _ =>
    simp only [Leaves, Ends.bind_iff, Ends.get_iff]
    split
    next => exact .refl v
    next =>
      simp only [Ends.bind_iff, onVolume_iff, install, Ends.modify_iff]
      exact (framesFor_leaves target p.form v).imp fun _ hw => hw.shrinks_of_without

/-- A proxy that is asked for its object loses its file. If there is no object to be had the proxy
is left as it was. -/
theorem revive_files (p : ObjectProxy T) (v : Volume) :
    Ends revive (p, v) (fun _ r => (v.without p.form.file?).SameFiles r.2)
      (fun _ r => r.1 = p ∧ (v.without p.form.file?).SameFiles r.2) := by
  simp only [revive, Ends.bind_iff, Ends.get_iff, onVolume_iff, install, Ends.modify_iff,
    Ends.pure_iff]
  exact (objectOf_leaves p.form v).mono (fun _ _ hw => hw) fun _ _ hw => ⟨trivial, hw⟩

theorem revive_shrinks (p : ObjectProxy T) (v : Volume) :
    Leaves revive (p, v) fun r => v.Shrinks r.2 :=
  (p.revive_files v).mono (fun _ _ hw => hw.shrinks_of_without) fun _ _ hw =>
    hw.2.shrinks_of_without

/-- A proxy whose file is gone cannot be made live. -/
theorem revive_of_missing {p : ObjectProxy T} {disk : DiskHeader} {v : Volume}
    (hform : p.form = .serialized (.disk disk)) (hfile : v.files.find? disk.path = none) :
    revive (p, v) = .error (.missingFile disk.path.text) (p, v) := by
  simp only [revive, bind, EStateM.bind, get_apply, onVolume, hform, objectOf,
    SpillDirectory.load_of_missing hfile]

/-- Nor can it be serialized, for families that do not hold it. -/
theorem serialize_of_missing {p : ObjectProxy T} {disk : DiskHeader} {v : Volume}
    {tags : List Serializer} {target : Serializer} (hform : p.form = .serialized (.disk disk))
    (hfile : v.files.find? disk.path = none) (htarget : tags.find? Serializer.isHost = some target)
    (hheld : ¬ p.IsHeldBy tags) :
    serialize tags (p, v) = .error (.missingFile disk.path.text) (p, v) := by
  have hframes : framesFor target p.form v = .error (.missingFile disk.path.text) v := by
    simp only [hform, framesFor, bind, EStateM.bind, SpillDirectory.load_of_missing hfile]
  have hends := serialize_of_not_held htarget hheld v
  rcases hrun : serialize tags (p, v) with ⟨a, r⟩ | ⟨e, q, w⟩
  · obtain ⟨header, content, hok, -⟩ := hends.of_ok hrun
    cases hframes.symm.trans hok
  · obtain ⟨rfl, herror⟩ := hends.of_error hrun
    cases hframes.symm.trans herror
    rfl

end ObjectProxy

namespace Memory

variable {T : Type} [DeviceObject T]

/-- A proxy of either kind that is serialized may lose its file. -/
theorem serialize_shrinks (r : Proxy T) (v : Volume) (tags : List Serializer) :
    Leaves (Spillable.serialize tags) (r, v) fun s => v.Shrinks s.2 := by
  show Leaves (Proxy.serialize tags) _ _
  rw [Proxy.serialize, Leaves, Ends.bind_iff, Ends.get_iff]
  cases r with
  | object p => exact Proxy.lift_iff.2 (p.serialize_shrinks v tags)
  | scripted p =>
    refine Proxy.lift_iff.2 ?_
    rw [Ends, ScriptedProxy.serialize]
    cases p.compliance <;> exact .refl v

/-- Whatever is done with proxies, files go for good, and no number is given out again. -/
theorem lasting_evolves (d : SpillDirectory) (n : ℕ) :
    Lasting fun m : Memory (Proxy T) => d.Evolves m.spill ∧ n ≤ m.nextId where
  tick h := h
  touch id time h := proxy_leaves h fun _ _ => h
  serialize {m} id tags h := onProxy_leaves h fun p _ =>
    (serialize_shrinks p m.spill.volume tags).imp fun _ hv => ⟨h.1.trans (.of_shrinks hv), h.2⟩
  revive {m} id h := objectProxy_leaves h fun p => onProxy_leaves h fun _ _ =>
    Proxy.lift_iff.2 ((p.revive_shrinks m.spill.volume).imp fun _ hv =>
      ⟨h.1.trans (.of_shrinks hv), h.2⟩)
  addToTier id tier h := proxy_leaves h fun _ _ => onManager_leaves fun _ => h
  spillFrames {m id p version header content} compress h _ _ := by
    have hdump : Leaves (onSpill (SpillDirectory.dump header content compress)) m
        fun m' => d.Evolves m'.spill ∧ n ≤ m'.nextId :=
      onSpill_iff.2 ((m.spill.dump_leaves header content compress).imp fun _ hd =>
        ⟨h.1.trans hd, h.2⟩)
    refine hdump.bind fun disk m' h' => ?_
    refine Leaves.bind (proxy_leaves h' fun _ _ => h') fun done m'' h'' => ?_
    split
    · exact proxy_leaves h'' fun _ _ => onManager_leaves fun _ => h''
    · exact onSpill_iff.2 (SpillDirectory.onVolume_iff.2
        ((Volume.remove_leaves _ _).imp fun _ hv => ⟨h''.1.trans (.of_shrinks hv), h''.2⟩))

/-- Whatever is done with proxies, all that happens to the books is that proxies are entered. -/
theorem lasting_manager {inv : Manager → Prop}
    (hadd : ∀ (manager : Manager) (id : ProxyId) (report : Report) (tier : Tier), inv manager →
      ∃ new, manager.addToTier id report tier = .ok new ∧ inv new) :
    Lasting fun m : Memory (Proxy T) => inv m.manager := by
  have haddToTier : ∀ {m : Memory (Proxy T)} (id : ProxyId) (tier : Tier), inv m.manager →
      Leaves (addToTier id tier) m fun m' => inv m'.manager := by
    intro m id tier h
    refine proxy_leaves h fun p _ => ?_
    obtain ⟨new, hnew, hinv⟩ := hadd m.manager id (Spillable.report p) tier h
    exact (onManager_iff_of_ok hnew).2 hinv
  exact {
    tick := id
    touch := fun _ _ h => proxy_leaves h fun _ _ => h
    serialize := fun _ _ h => onProxy_leaves h fun _ _ =>
      .of_forall (fun _ _ _ => h) fun _ _ _ => h
    revive := fun _ h => objectProxy_leaves h fun _ => onProxy_leaves h fun _ _ =>
      .of_forall (fun _ _ _ => h) fun _ _ _ => h
    addToTier := haddToTier
    spillFrames := by
      intro m id p version header content compress h _ _
      refine Leaves.bind (onSpill_leaves fun _ => h) fun disk m' h' => ?_
      refine Leaves.bind (proxy_leaves h' fun _ _ => h') fun done m'' h'' => ?_
      split
      · exact haddToTier id _ h''
      · exact onSpill_leaves fun _ => h'' }

/-- Whatever is done with proxies, exact books stay exact. -/
theorem lasting_exact : Lasting fun m : Memory (Proxy T) => m.manager.Exact :=
  lasting_manager fun _ id report tier h => by
    obtain ⟨new, hnew, hexact, -⟩ := Manager.exact_addToTier h id report tier
    exact ⟨new, hnew, hexact⟩

/-- Nor do the limits change. -/
theorem lasting_limits (deviceLimit hostLimit : ℕ) : Lasting fun m : Memory (Proxy T) =>
    m.manager.Exact ∧ m.manager.deviceLimit = deviceLimit ∧ m.manager.hostLimit = hostLimit :=
  @lasting_manager _ _ (fun manager => manager.Exact ∧ manager.deviceLimit = deviceLimit ∧
      manager.hostLimit = hostLimit) fun _ id report tier ⟨h, hdevice, hhost⟩ => by
    obtain ⟨new, hnew, hexact, hplaced⟩ := Manager.exact_addToTier h id report tier
    exact ⟨new, hnew, hexact, hplaced.deviceLimit_eq.trans hdevice,
      hplaced.hostLimit_eq.trans hhost⟩

end Memory

end TieredStore
