import TieredStore.Proofs.Loss
import TieredStore.Proofs.Memory.Room

/-!
# Damaged spill files

The file of a proxy may be removed, cut off or written over by others. A proxy that is asked for its
object, or to go to the host, may find that there is nothing to be read. This harms nothing but the
file: the proxy stays on disk as it is, in the books, too, and can be dropped as any other. A file
that was found to be damaged is gone, so the proxy never comes back from disk, unless the file is
put back.

Room is made for an object before its file is read. So access to the object of such a proxy may also
fail because an eviction does, with the error of that eviction, and then its file may still be
there.

* `SpillDirectory.Unreadable`: nothing can be read from the file of a header.
* `Memory.SpilledTo`, `Memory.Unharmed`: a proxy on disk, and what it is left as.
* `Memory.Consumed`: a file has gone, and nothing else has changed.
* `object_unharmed`, `demoteToHost_unharmed`: what a failure leaves.
* `damage_contained`: damage of every kind, and what comes after it.
-/

namespace TieredStore

namespace SpillDirectory

variable {header : DiskHeader} {v w : Volume}

/-- The file of a header is not there, or it is refused. -/
def Unreadable (header : DiskHeader) (v : Volume) : Prop :=
  ∀ data result, v.files.find? header.path = some data → decode header data ≠ .ok result

theorem Unreadable.load_ends (h : Unreadable header v) :
    Ends (load header) v (fun _ _ => False) fun _ _ => True := by
  rw [Ends]
  cases hfile : v.files.find? header.path with
  | none => rw [load_of_missing hfile]; trivial
  | some data =>
    rw [load_of_find? hfile]
    cases hdecode : decode header data with
    | error e => trivial
    | ok result => exact h data result hfile hdecode

/-- A file stays unreadable if it stays as it is, or goes. -/
theorem Unreadable.congr (h : Unreadable header v)
    (hfile : w.files.find? header.path = v.files.find? header.path ∨
      w.files.find? header.path = none) : Unreadable header w := by
  intro data result hdata
  rcases hfile with hsame | hnone
  · exact h data result (hsame.symm.trans hdata)
  · cases hnone.symm.trans hdata

/-- A container that ends early is not read. -/
theorem unreadable_take {frames : List Bytes} {n : ℕ} (hfits : Container.Fits frames)
    (hn : n < (Container.pack frames).length)
    (hfile : v.files.find? header.path = some ((Container.pack frames).take n)) :
    Unreadable header v := by
  intro data result hdata hdecode
  cases hfile.symm.trans hdata
  obtain ⟨stored, hunpack, -⟩ := decode_eq_ok hdecode
  rw [Container.unpack_take_pack hfits hn] at hunpack
  cases hunpack

end SpillDirectory

namespace Memory

section

variable {T : Type} [DeviceObject T] {m m' n : Memory (Proxy T)} {id : ProxyId} {p : ObjectProxy T}
  {disk : DiskHeader} {path : Path}

/-- A proxy is tracked on disk and stands for its object by a file under a name that was given out.
-/
structure SpilledTo (m : Memory (Proxy T)) (id : ProxyId) (p : ObjectProxy T) (disk : DiskHeader) :
    Prop where
  /-- The proxy exists. -/
  find?_eq : m.proxies.find? id = some (.object p)
  /-- Its frames are in the file. -/
  form_eq : p.form = .serialized (.disk disk)
  /-- It is tracked on disk. -/
  tracks : m.manager.Tracks .disk id
  /-- The name of the file was given out. -/
  named : m.spill.HasNamed disk.path
  /-- The number of the proxy was given out. -/
  known : id.raw < m.nextId

/-- A proxy on disk has been looked at, and that is all that has happened to it. The books agree
with all proxies. -/
structure Unharmed (m m' : Memory (Proxy T)) (id : ProxyId) (p : ObjectProxy T)
    (disk : DiskHeader) :
    Prop where
  /-- The proxy has its payload and its version. -/
  find?_eq : ∃ time, m'.proxies.find? id = some (.object { p with lastAccess := time })
  /-- It is tracked on disk. -/
  tracks : m'.manager.Tracks .disk id
  /-- The disk tallies the size that its header says, besides those of the others there. -/
  counted : m'.manager.usage .disk =
    disk.size + ∑ other ∈ (m'.manager.registry .disk).entries.toFinset.erase id,
      (m'.proxies.find? other).elim 0 Spillable.size
  /-- The books agree with the proxies. -/
  settled : m'.Settled
  /-- A check of the books finds nothing. -/
  validate_eq : validate m' = .ok () m'
  /-- The tallies are what comes out of the proxies. On the device this takes allocations with sizes
  that all agree on. -/
  usage_eq : ∀ size tier, (tier = .device → m.SizedBy size) →
    m'.manager.usage tier = m'.reckoned size tier

/-- A file has gone, and nothing else has changed. -/
structure Consumed (m m' : Memory (Proxy T)) (path : Path) : Prop where
  /-- The books stay. -/
  manager_eq : m'.manager = m.manager
  /-- All proxies stay as they are. -/
  find?_eq : ∀ id, m'.proxies.find? id = m.proxies.find? id
  /-- The manager stays, if there is one. -/
  isManaged_eq : m'.isManaged = m.isManaged
  /-- All other files stay. -/
  files : (m.spill.volume.without (some path)).SameFiles m'.spill.volume

omit [DeviceObject T] in
theorem Consumed.find?_file (h : Consumed m m' path) :
    m'.spill.volume.files.find? path = none := by
  rw [h.files, Volume.find?_without, if_pos rfl]

theorem SpilledTo.held (h : m.SpilledTo id p disk) (hm : m.Settled) : IsHeldIn disk p := by
  obtain ⟨q, hq, hattached, -⟩ := (hm.settledIn .disk).exists_object h.tracks
  cases h.find?_eq.symm.trans hq
  exact ⟨h.form_eq, hattached⟩

omit [DeviceObject T] in
theorem SpilledTo.accessed (h : m.SpilledTo id p disk) :
    (m.accessed id p).SpilledTo id { p with lastAccess := m.clock + 1 } disk :=
  ⟨find?_put_self _ id _, h.form_eq, h.tracks, h.named, h.known⟩

/-- The header of what is tracked on disk is that of a spill file. -/
theorem SpilledTo.serializer_eq (h : m.SpilledTo id p disk) (hm : m.Settled) :
    disk.serializer = .disk := by
  have htier := (hm.settledIn .disk).tier_eq h.tracks h.find?_eq
  rw [h.form_eq] at htier
  revert htier
  show Tier.ofSerializer (some disk.serializer) = .disk → _
  cases disk.serializer <;> decide

/-- What has gone with a file was not in the books. -/
theorem Spared.consumed (h : Spared m n) (hconsumed : Consumed n m' path) : Spared m m' where
  settled := h.settled.congr hconsumed.manager_eq hconsumed.find?_eq
  usage_device_eq size hsize := by
    rw [hconsumed.manager_eq, h.usage_device_eq size hsize]
    refine (reckoned_congr h.settled.exact (hconsumed.manager_eq ▸ h.settled.exact)
      hconsumed.find?_eq (fun tier id => ?_) size .device).symm
    rw [hconsumed.manager_eq]
  find?_eq id htracks := (hconsumed.find?_eq id).trans (h.find?_eq id htracks)
  tracks id htracks := hconsumed.manager_eq ▸ h.tracks id htracks

/-- A proxy on disk is among those that are spared. -/
theorem SpilledTo.unharmed (h : n.SpilledTo id p disk) (hspared : Spared n m') {time : Int}
    (hsize : ∀ size, m.SizedBy size → n.SizedBy size) :
    Unharmed m m' id { p with lastAccess := time } disk := by
  have hfind : m'.proxies.find? id = some (.object p) :=
    (hspared.find?_eq id h.tracks).trans h.find?_eq
  have htracks := hspared.tracks id h.tracks
  refine ⟨⟨p.lastAccess, hfind⟩, htracks, ?_, hspared.settled, hspared.settled.validate_eq,
    fun size tier hsized => ?_⟩
  · have hown : (m'.proxies.find? id).elim 0 Spillable.size = disk.size := by
      rw [hfind]
      show p.size = _
      rw [ObjectProxy.size, h.form_eq]
      rfl
    rw [(hspared.settled.settledIn .disk).recorded.usage_eq_sum hspared.settled.exact (by decide),
      ← Finset.add_sum_erase _ _ (List.mem_toFinset.2 htracks), hown]
  · by_cases hdevice : tier = .device
    · subst hdevice
      exact hspared.usage_device_eq size (hsize size (hsized rfl))
    · exact (hspared.settled.settledIn tier).usage_eq_of_sized hspared.settled.exact
        fun heq => absurd heq hdevice

/-- A proxy whose file has gone has lost it, however long ago the file was named. -/
theorem SpilledTo.lost (h : m.SpilledTo id p disk) (hm : m.Settled)
    (hunharmed : Unharmed m m' id p disk) (hevolves : m.spill.Evolves m'.spill)
    (hnumber : m.nextId ≤ m'.nextId) (hmissing : m'.spill.volume.files.find? disk.path = none) :
    Lost id disk m' := by
  obtain ⟨time, hfind⟩ := hunharmed.find?_eq
  exact ⟨hmissing, hevolves.hasNamed h.named, h.known.trans_le hnumber, hunharmed.settled.exact,
    h.serializer_eq hm, _, hfind, h.held hm⟩

/-! ### What a failure leaves -/

/-- A spilled proxy that cannot be made live has cost its file. -/
theorem revive_consumes (hfind : m.proxies.find? id = some (.object p))
    (hform : p.form = .serialized (.disk disk)) :
    Ends (revive id) m (fun _ _ => True) fun _ m' => Consumed m m' disk.path := by
  rw [revive_iff hfind]
  refine (p.revive_files m.spill.volume).mono (fun _ _ _ => trivial) ?_
  rintro e ⟨q, w⟩ ⟨rfl, hfiles⟩
  rw [hform] at hfiles
  exact ⟨rfl, find?_put_same hfind, rfl, hfiles⟩

/-- So has one that cannot be serialized for the host. Once it is serialized it can always be
tracked. -/
theorem demoteToHost_consumes (hexact : m.manager.Exact)
    (hfind : m.proxies.find? id = some (.object p)) (hform : p.form = .serialized (.disk disk))
    (hheld : ¬ p.IsHeldBy Serializer.hostFamilies) :
    Ends (demoteToHost id) m (fun _ _ => True) fun _ m' => Consumed m m' disk.path := by
  rw [demoteToHost, Ends.bind_iff, serialize_iff hfind]
  refine (ObjectProxy.serialize_of_not_held rfl hheld m.spill.volume).mono ?_ ?_
  · rintro - ⟨q, w⟩ -
    have hself : (m.proxies.insert id (Proxy.object q)).find? id = some (.object q) :=
      Table.find?_insert_self _ _ _
    rw [track, Ends.bind_iff, proxy_iff hself]
    refine Ends.of_never (addToTier_succeeds ?_ hself _) fun _ _ _ => trivial
    exact hexact
  · rintro e ⟨q, w⟩ ⟨rfl, herror⟩
    have hfiles :=
      (ObjectProxy.framesFor_leaves (T := T) .dask q.form m.spill.volume).of_error herror
    rw [hform] at hfiles
    exact ⟨rfl, find?_put_same hfind, rfl, hfiles⟩

/-- How access to the object of a spilled proxy ends, by how room is made and how the object is
read. -/
theorem object_ends_of_spilled (h : m.Settled) (hfiles : m.NamesFiles)
    (hspilled : m.SpilledTo id p disk) {ok : Prop} {bad : Failure → Memory (Proxy T) → Prop}
    (hroom : ∀ e t, Spared (m.accessed id p) t →
      enforceLimits disk.subHeader.nbytes (m.accessed id p) = .error e t → bad e t)
    (hrevive : ∀ t, Spared (m.accessed id p) t → m.spill.Evolves t.spill ∧ m.nextId ≤ t.nextId →
      t.proxies.find? id = some (.object { p with lastAccess := m.clock + 1 }) →
      Ends (revive id) t (fun _ _ => ok) bad) :
    Ends (object id) m (fun _ _ => ok) bad := by
  have hstart := h.accessed hspilled.find?_eq
  have hnames := hfiles.accessed hspilled.find?_eq
  have hfind := find?_put_self { m with clock := m.clock + 1 } id
    { p with lastAccess := m.clock + 1 }
  cases hmanaged : (p.isAttached && m.isManaged) with
  | true =>
    rw [object_managed_iff hspilled.find?_eq hspilled.form_eq hmanaged]
    refine Ends.of_forall (fun _ t hdone => ?_) fun e t hfail =>
      hroom e t ((enforceLimits_spares hstart hnames _).of_error hfail) hfail
    have hspared : Spared (m.accessed id p) t := (enforceLimits_spares hstart hnames _).of_ok hdone
    have hlater : m.spill.Evolves t.spill ∧ m.nextId ≤ t.nextId :=
      ((lasting_evolves m.spill m.nextId).enforceLimits (m := m.accessed id p) _
        ⟨.refl _, Nat.le_refl _⟩).of_ok hdone
    have hfind' := (hspared.find?_eq id hspilled.tracks).trans hfind
    -- A live object can always be tracked.
    refine (((hrevive t hspared hlater hfind').and (revive_keeps_or hfind')).and
      (lasting_exact.revive id hspared.settled.exact)).mono ?_ fun _ _ hend => hend.1.1
    rintro a u ⟨⟨hok, q, hq, -⟩, hexact⟩
    exact (addToTier_succeeds hexact hq _).of_never fun _ _ _ => hok
  | false =>
    rw [object_unmanaged_iff hspilled.find?_eq hspilled.form_eq hmanaged]
    exact hrevive _ (Ready.refl hstart hnames).toSpared ⟨.refl _, Nat.le_refl _⟩ hfind

/-- A proxy on disk is still there, as it was, when an access to its object has failed. It has lost
its file, or there was no room for the object. -/
theorem object_unharmed (h : m.Settled) (hfiles : m.NamesFiles) (hspilled : m.SpilledTo id p disk) :
    Ends (object id) m (fun _ _ => True) fun e m' => Unharmed m m' id p disk ∧
      (Lost id disk m' ∨ enforceLimits disk.subHeader.nbytes (m.accessed id p) = .error e m') := by
  have hunharmed : ∀ {t}, Spared (m.accessed id p) t → Unharmed m t id p disk := fun ht =>
    hspilled.accessed.unharmed ht fun _ hsize => hsize.accessed hspilled.form_eq
  refine object_ends_of_spilled h hfiles hspilled (fun e t ht hfail => ⟨hunharmed ht, .inr hfail⟩)
    fun t ht hlater hfind => ?_
  refine ((revive_consumes hfind hspilled.form_eq).and
    ((lasting_evolves m.spill m.nextId).revive id hlater)).mono (fun _ _ _ => trivial) ?_
  rintro e m' ⟨hconsumed, hevolves, hnumber⟩
  have hkept := hunharmed (ht.consumed hconsumed)
  exact ⟨hkept, .inl (hspilled.lost h hkept hevolves hnumber hconsumed.find?_file)⟩

/-- A proxy on disk is still there, as it was, when a demotion to the host has failed. It has lost
its file, and nothing else has happened. -/
theorem demoteToHost_unharmed (h : m.Settled) (hfiles : m.NamesFiles)
    (hspilled : m.SpilledTo id p disk) :
    Ends (demoteToHost id) m (fun _ _ => True) fun _ m' => Unharmed m m' id p disk ∧
      Lost id disk m' ∧ Consumed m m' disk.path := by
  have hheld := hspilled.held h
  have hends := (demoteToHost_consumes h.exact hspilled.find?_eq hspilled.form_eq
    (hheld.not_isHeldBy (hspilled.serializer_eq h))).and
      ((lasting_evolves m.spill m.nextId).demoteToHost id ⟨.refl _, Nat.le_refl _⟩)
  refine hends.mono (fun _ _ _ => trivial) ?_
  rintro e m' ⟨hconsumed, hevolves, hnumber⟩
  have hkept : Unharmed m m' id p disk :=
    hspilled.unharmed ((Ready.refl h hfiles).toSpared.consumed hconsumed) fun _ hsize => hsize
  exact ⟨hkept, hspilled.lost h hkept hevolves hnumber hconsumed.find?_file, hconsumed⟩

/-! ### Files that cannot be read -/

theorem revive_of_unreadable (hfind : m.proxies.find? id = some (.object p))
    (hform : p.form = .serialized (.disk disk))
    (hunreadable : SpillDirectory.Unreadable disk m.spill.volume) :
    Ends (revive id) m (fun _ _ => False) fun _ _ => True := by
  rw [revive_iff hfind]
  simp only [ObjectProxy.revive, Ends.bind_iff, Ends.get_iff, ObjectProxy.onVolume_iff, hform,
    ObjectProxy.objectOf]
  exact hunreadable.load_ends.mono (fun _ _ => False.elim) fun _ _ _ => trivial

/-- The object of a proxy cannot be had from an unreadable file, which making room does not change.
-/
theorem object_of_unreadable (h : m.Settled) (hfiles : m.NamesFiles)
    (hspilled : m.SpilledTo id p disk)
    (hunreadable : SpillDirectory.Unreadable disk m.spill.volume) :
    Ends (object id) m (fun _ _ => False) fun _ _ => True :=
  object_ends_of_spilled h hfiles hspilled (fun _ _ _ _ => trivial) fun _ _ hlater hfind =>
    revive_of_unreadable hfind hspilled.form_eq
      (hunreadable.congr (hlater.1.find?_of_hasNamed hspilled.named))

/-- Nor can its frames. -/
theorem demoteToHost_of_unreadable (h : m.Settled) (hspilled : m.SpilledTo id p disk)
    (hunreadable : SpillDirectory.Unreadable disk m.spill.volume) :
    Ends (demoteToHost id) m (fun _ _ => False) fun _ _ => True := by
  rw [demoteToHost, Ends.bind_iff, serialize_iff hspilled.find?_eq]
  have hheld := (hspilled.held h).not_isHeldBy (hspilled.serializer_eq h)
  have hframes : Ends (ObjectProxy.framesFor (T := T) .dask p.form) m.spill.volume
      (fun _ _ => False) fun _ _ => True := by
    rw [hspilled.form_eq, ObjectProxy.framesFor, Ends.bind_iff]
    exact hunreadable.load_ends.mono (fun _ _ => False.elim) fun _ _ _ => trivial
  refine (ObjectProxy.serialize_of_not_held rfl hheld m.spill.volume).mono ?_ fun _ _ _ => trivial
  rintro - r ⟨header, content, hok, -⟩
  exact (hframes.of_ok hok).elim

/-- Damage to a spill file is contained. The file of a proxy on disk may have been removed, cut off
or written over with anything.

If an access to the object fails, the proxy has its payload and version still and stays on disk,
where the size that its header says is counted. The books agree with the proxies, whichever of them
had to make room. The file is lost then, or room could not be made, which is where the error comes
from. If a demotion to the host fails the file is lost, and nothing else has happened. Both fail if
the file is gone, or if the container in it ends early.

A file that is lost stays lost whatever happens, unless it is put back from outside, or the proxy
gets another payload. For as long as the proxy exists no demotion to the host finds the file. An
access to the object does not find it either, unless making room for the object fails before that.
The proxy can be dropped, and is not tracked after that. -/
theorem damage_contained (h : m.Settled) (hfiles : m.NamesFiles)
    (hspilled : m.SpilledTo id p disk) :
    (∀ e m', object id m = .error e m' → Unharmed m m' id p disk ∧
      (Lost id disk m' ∨ enforceLimits disk.subHeader.nbytes (m.accessed id p) = .error e m')) ∧
    (∀ e m', demoteToHost id m = .error e m' → Unharmed m m' id p disk ∧
      Lost id disk m' ∧ Consumed m m' disk.path) ∧
    (m.spill.volume.files.find? disk.path = none ∨
        (∃ frames n, Container.Fits frames ∧ n < (Container.pack frames).length ∧
          m.spill.volume.files.find? disk.path = some ((Container.pack frames).take n)) →
      (∃ e m', object id m = .error e m') ∧ ∃ e m', demoteToHost id m = .error e m') ∧
    ∀ n : Memory (Proxy T), Lost id disk n →
      ∀ events : List (Event T), Event.AllSpare id disk.path events n →
        (∃ t, demoteToHost id (Event.afterAll events n) =
          .error (.error (.missingFile disk.path.text)) t) ∧
        (∃ e t, object id (Event.afterAll events n) = .error e t ∧
          (e = .error (.missingFile disk.path.text) ∨
            ∃ q, (Event.afterAll events n).proxies.find? id = some (.object q) ∧
              enforceLimits disk.subHeader.nbytes ((Event.afterAll events n).accessed id q) =
                .error e t)) ∧
        ((Event.afterAll events n).isManaged = true →
          ∃ t, release id (Event.afterAll events n) = .ok () t ∧ t.proxies.find? id = none ∧
            ∀ tier, ¬ t.manager.Tracks tier id) := by
  refine ⟨fun e m' hfail => (object_unharmed h hfiles hspilled).of_error hfail,
    fun e m' hfail => (demoteToHost_unharmed h hfiles hspilled).of_error hfail, fun hdamaged => ?_,
    fun n hn events hspare => ?_⟩
  · have hunreadable : SpillDirectory.Unreadable disk m.spill.volume := by
      rcases hdamaged with hnone | ⟨frames, n, hfits, hn, hfile⟩
      · intro data result hdata
        cases hnone.symm.trans hdata
      · exact SpillDirectory.unreadable_take hfits hn hfile
    obtain ⟨e, t, hobject, -⟩ :=
      (object_of_unreadable h hfiles hspilled hunreadable).exists_error fun _ _ => not_false
    obtain ⟨e', t', hdemote, -⟩ :=
      (demoteToHost_of_unreadable h hspilled hunreadable).exists_error fun _ _ => not_false
    exact ⟨⟨e, t, hobject⟩, e', t', hdemote⟩
  · have hlost := hn.afterAll hspare
    refine ⟨?_, hlost.object_ends.exists_error fun _ _ => not_false, fun hmanaged => ?_⟩
    · obtain ⟨e, t, hdemote, rfl⟩ := hlost.demoteToHost_ends.exists_error fun _ _ => not_false
      exact ⟨t, hdemote⟩
    · obtain ⟨⟨⟩, t, hrelease, hgone⟩ :=
        (hlost.release_ends hmanaged).exists_ok fun _ _ => not_false
      exact ⟨t, hrelease, hgone⟩

end

end Memory

namespace Store

/-- The memory with an array on disk, once its file has been written over from outside. -/
def damagedMemory (data : Bytes) : Memory (Proxy DeviceArray) :=
  let d := spilledStore.memory.spill
  Memory.Event.after (.disturb { d.volume with files := d.volume.files.insert (d.filePath 1) data })
    spilledStore.memory

/-- What is done to files from outside makes no difference to proxies and books. -/
theorem exists_spilledTo_damagedMemory (data : Bytes) :
    (damagedMemory data).Settled ∧ (damagedMemory data).NamesFiles ∧
      ∃ p disk, (damagedMemory data).SpilledTo ⟨1⟩ p disk ∧
        disk.path = spilledStore.memory.spill.filePath 1 := by
  have hsound := run_spilledStore.coherent.memory.toSound
  obtain ⟨p, disk, hfind, hform, hpath⟩ : ∃ p disk,
      spilledStore.memory.proxies.find? ⟨1⟩ = some (.object p) ∧
      p.form = .serialized (.disk disk) ∧ disk.path = spilledStore.memory.spill.filePath 1 :=
    ⟨_, _, rfl, rfl, rfl⟩
  have hsettled := run_spilledStore.spares.settled
  exact ⟨hsettled.congr rfl fun _ => rfl, hsound.namesFiles, p, disk,
    ⟨hfind, hform, List.mem_cons_self, (hsound.file_of_onDisk ⟨p, hfind, hform⟩).1, Nat.one_lt_two⟩,
    hpath⟩

end Store

namespace Memory

/-- The file of an array is cut off after a word. The array cannot be moved to the host, and stays
on disk, in books that pass a check. Its file is gone after that, and the array can be dropped. -/
theorem damage_contained_truncated :
    let m := Store.damagedMemory ((Container.pack Store.smallArray.frames).take 8)
    ∃ e m' path, demoteToHost ⟨1⟩ m = .error e m' ∧
      m'.manager.Tracks .disk ⟨1⟩ ∧ validate m' = .ok () m' ∧
      m'.spill.volume.files.find? path = none ∧
      (∃ t, demoteToHost ⟨1⟩ (Event.afterAll [.validate, .evictFromHost 1] m') =
        .error (.error (.missingFile path.text)) t) ∧
      ∃ t, release ⟨1⟩ m' = .ok () t ∧ ∀ tier, ¬ t.manager.Tracks tier ⟨1⟩ := by
  intro m
  obtain ⟨hsettled, hfiles, p, disk, hspilled, hpath⟩ := Store.exists_spilledTo_damagedMemory
    ((Container.pack Store.smallArray.frames).take 8)
  obtain ⟨-, hdemote, htruncated, hlost⟩ := damage_contained hsettled hfiles hspilled
  have hfile : m.spill.volume.files.find? disk.path =
      some ((Container.pack Store.smallArray.frames).take 8) := by
    rw [hpath]
    exact Table.find?_insert_self _ _ _
  obtain ⟨-, e, m', hfail⟩ := htruncated (.inr ⟨_, 8,
    DeviceArray.fits_frames Store.isAddressable_smallArray, by decide, hfile⟩)
  obtain ⟨hunharmed, hgone, hconsumed⟩ := hdemote e m' hfail
  obtain ⟨hagain, -, -⟩ := hlost m' hgone [.validate, .evictFromHost 1] ⟨trivial, trivial, trivial⟩
  obtain ⟨-, -, hrelease⟩ := hlost m' hgone [] trivial
  obtain ⟨t, hrelease, -, hnot⟩ := hrelease (hconsumed.isManaged_eq.trans rfl)
  exact ⟨e, m', disk.path, hfail, hunharmed.tracks, hunharmed.validate_eq, hgone.missing, hagain,
    t, hrelease, hnot⟩

/-- A proxy that is on the device and refuses to be put into frames. -/
def stubborn (nbytes : ℕ) : Event DeviceArray :=
  .create fun time => .scripted ⟨none, nbytes, [⟨⟨9⟩, nbytes⟩], none, .refuses, false, time⟩

/-- The file of an array cannot be decoded, so it is lost. Then a proxy that cannot be put into
frames takes up the room that the object of the array would need. The books pass a check. The object
is refused because of that proxy, and not because the file is missing. -/
theorem damage_contained_without_room :
    let m := Store.damagedMemory [0]
    let events : List (Event DeviceArray) :=
      [.call (.object ⟨1⟩), stubborn 47, .attach ⟨2⟩, .addToTier ⟨2⟩ .device]
    let later := Event.afterAll events m
    m.Settled ∧ (∃ p disk, m.SpilledTo ⟨1⟩ p disk ∧ Event.AllSpare ⟨1⟩ disk.path events m) ∧
      (∃ t, object ⟨1⟩ m = .error (.error Container.truncated) t) ∧
      later.spill.volume.contains (m.spill.filePath 1) = false ∧
      (∃ a t, validate later = .ok a t) ∧
      (∃ t, object ⟨1⟩ later = .error (.error ScriptedProxy.refusal) t) ∧
      ∀ message, ScriptedProxy.refusal ≠ .io message := by
  intro m events later
  obtain ⟨hsettled, -, p, disk, hspilled, -⟩ := Store.exists_spilledTo_damagedMemory [0]
  exact ⟨hsettled, ⟨p, disk, hspilled, trivial, trivial, trivial, trivial, trivial⟩,
    exists_error_of_failure? (by decide +kernel), by decide +kernel,
    exists_ok_of_isSome (by decide +kernel), exists_error_of_failure? (by decide +kernel), nofun⟩

end Memory

end TieredStore
