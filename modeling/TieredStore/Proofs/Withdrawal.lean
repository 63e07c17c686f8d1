import TieredStore.Proofs.Accounting
import TieredStore.Proofs.Ownership

/-!
# Values that cannot be stored

Storing a value makes room for it, and that may take a spill file which is refused. By then the old
value under the key is gone, and proxies of the new one are tracked, in whatever tier they have got
to. All that ends with the new value, since nobody holds it.

* `Memory.StandsFor`: the object that is read out of a proxy.
* `mem_owned_without_or`: what is no longer held once a value has gone.
* `Withdrawn`: what a store is like when a value could not be stored.
* `insert_withdrawn`: every run leads to that.
-/

namespace TieredStore

namespace Memory

/-- A proxy exists, and an object is read out of it, whatever form it is in. -/
def StandsFor (m : Memory (Proxy DeviceArray)) (id : ProxyId) (a : DeviceArray) : Prop :=
  ∃ p, m.proxies.find? id = some (.object p) ∧
    ∃ v, ObjectProxy.objectOf p.form m.spill.volume = .ok a v

/-- Every proxy stands for the array that it was made around. -/
theorem Sound.standsFor {log : List DeviceArray} {m : Memory (Proxy DeviceArray)} {id : ProxyId}
    {a : DeviceArray} (h : Sound log m) (halive : m.isAlive id = true)
    (horigin : origin? log id = some a) : m.StandsFor id a := by
  obtain ⟨p, hfind⟩ := h.exists_object halive
  exact ⟨p, hfind, _, ObjectProxy.objectOf_of_holds (h.holds hfind horigin)⟩

end Memory

namespace Store

variable {log : List DeviceArray} {s s' : Store DeviceArray} {settings : Settings} {key : String}
  {value : Value DeviceArray} {e : Failure} {id : ProxyId}

/-- What was held is held by others, or it was in the value that has gone. -/
theorem mem_owned_without_or (h : s.entries.keys.Nodup) (key : String) (howned : id ∈ s.owned) :
    id ∈ (s.without key).owned ∨
      ∃ old, s.entries.find? key = some old ∧ id ∈ old.proxies := by
  rw [mem_owned_iff] at howned ⊢
  rcases howned with ⟨other, hother, hmem⟩ | hhandle
  · cases hfind : s.entries.find? key with
    | none =>
      refine .inl (.inl ⟨other, ?_, hmem⟩)
      rwa [without, Table.erase_of_find?_eq_none hfind]
    | some old =>
      rcases Table.mem_values_erase_or h hfind hother with rfl | hleft
      · exact .inr ⟨other, rfl, hmem⟩
      · exact .inl (.inl ⟨other, hleft, hmem⟩)
  · exact .inl (.inr hhandle)

/-- A value could not be stored under a key. The old value is gone as if nobody had held on to it,
there is nothing left of the new one, and all the rest is there as before. -/
structure Withdrawn (key : String) (s s' : Store DeviceArray) : Prop where
  /-- Nothing is stored under the key. -/
  contains_eq : s'.contains key = false
  /-- The other values are the same. -/
  find?_eq : ∀ other, other ≠ key → s'.entries.find? other = s.entries.find? other
  /-- Callers hold the same proxies. -/
  handles_eq : s'.handles = s.handles
  /-- The proxies that exist are those that values or callers hold. -/
  isAlive_iff : ∀ id, s'.memory.isAlive id = true ↔ id ∈ s'.owned
  /-- They were there before, and stand for what they stood for. -/
  standsFor : ∀ id ∈ s'.owned, ∃ a, s.memory.StandsFor id a ∧ s'.memory.StandsFor id a
  /-- Those that were tracked are tracked in a single tier. -/
  tiersOf_eq : ∀ id ∈ s'.owned, s.memory.IsTracked id →
    ∃ tier, s'.memory.manager.tiersOf id = [tier]
  /-- Those that are not held any more were in the old value. They are neither there nor tracked any
  more, and their files are gone. -/
  gone : ∀ id, s.memory.isAlive id = true → id ∉ s'.owned →
    (∃ old, s.entries.find? key = some old ∧ id ∈ old.proxies) ∧
      s'.memory.isAlive id = false ∧ ¬ s'.memory.IsTracked id ∧
      ∀ header, s.memory.OnDisk id header →
        s'.memory.spill.volume.files.contains header.path = false
  /-- None of the proxies that were made on the way exists or is tracked. -/
  fresh : ∀ id : ProxyId, s.memory.nextId ≤ id.raw →
    s'.memory.isAlive id = false ∧ ¬ s'.memory.IsTracked id
  /-- Every file is that of a proxy that is held and was there before. -/
  files : ∀ path, s'.memory.spill.volume.files.contains path = true →
    ∃ id ∈ s'.owned, s.memory.isAlive id = true ∧ ∃ header, s'.memory.OnDisk id header ∧
      header.path = path
  /-- The books agree with the proxies. -/
  settled : s'.memory.Settled
  /-- A check of the books finds nothing. -/
  validate_eq : Memory.validate s'.memory = .ok () s'.memory
  /-- The tallies are what comes out of the proxies. -/
  usage_eq : ∀ tier, s'.memory.manager.usage tier =
    s'.memory.reckoned s'.memory.countedBytes tier
  /-- On the device, that is with the sizes that arrays give of their allocations. -/
  usage_eq_of_sized : ∀ size, s'.memory.SizedBy size → ∀ tier,
    s'.memory.manager.usage tier = s'.memory.reckoned size tier

/-- An operation that stores a value leaves what the failure to store it leaves. -/
theorem Op.after_insert_of_error (hinsert : Store.insert key value s = .error e s') :
    (Op.insert key value).after s = s' := by
  have hrun : (Op.insert key value).run s = .error e s' := by
    show EStateM.bind (Store.insert key value) _ s = _
    rw [EStateM.bind, hinsert]
  rw [after, hrun]

/-- However far the new value has got before a file is refused, nothing is left of it. Its proxies
end when the failure is reported, with their places in the books and their files, and those of the
old value that nobody else holds have ended before. Whatever is still held stands for what it stood
for, is tracked as it was, and the books and tallies agree with that. -/
theorem insert_withdrawn (h : Run settings Op.Spares log s)
    (hadmissible : (Op.insert key value).Admissible s)
    (hinsert : insert key value s = .error e s') : Withdrawn key s s' := by
  have hcoherent := h.coherent
  have hafter := Op.after_insert_of_error hinsert
  have h' : Run settings Op.Spares (log ++ Memory.newArrays value) s' :=
    hafter ▸ h.step (.insert key value) trivial hadmissible
  have hmemory' := h'.coherent.memory
  obtain ⟨hhandles, -, m, m', ids, hcleared, hadopt, -, hreleased, -, hentries⟩ :=
    (insert_steps hcoherent key hadmissible.1 hadmissible.2).of_error hinsert
  have hleft : s'.owned = (s.without key).owned := by
    rw [owned, hentries, hhandles]
    rfl
  -- What is held at the end was held before, so it is not new.
  have hbefore : ∀ id ∈ s'.owned, s.memory.isAlive id = true := fun id hid =>
    hcoherent.isAlive id (owned_without_subset s key (hleft ▸ hid))
  have hdead : ∀ id, id ∉ s'.owned → s'.memory.isAlive id = false ∧ ¬ s'.memory.IsTracked id := by
    intro id hid
    have halive : ¬ s'.memory.isAlive id = true := fun halive => hid ((h'.isAlive_iff id).1 halive)
    refine ⟨Bool.not_eq_true _ ▸ halive, ?_⟩
    rintro ⟨tier, htracks⟩
    exact halive (hmemory'.isAlive_of_tracks htracks)
  refine ⟨?contains, ?others, hhandles, h'.isAlive_iff, ?standsFor, ?tiers, ?gone, ?fresh, ?files,
    h'.settled, h'.settled.validate_eq, ?usage, fun size hsize => h'.settled.usage_eq hsize⟩
  case contains =>
    rw [contains, hentries, Table.contains_erase]
    simp
  case others =>
    intro other hother
    rw [hentries, Table.find?_erase_of_ne _ hother]
  case standsFor =>
    -- In both states it stands for the array that it was made around.
    intro id hid
    obtain ⟨p, hfind⟩ := hcoherent.memory.exists_object (hbefore id hid)
    obtain ⟨a, horigin, -⟩ := hcoherent.memory.exists_origin hfind
    exact ⟨a, hcoherent.memory.standsFor (hbefore id hid) horigin,
      hmemory'.standsFor ((h'.isAlive_iff id).2 hid) (origin?_append horigin _)⟩
  case tiers =>
    -- It is neither released with the old value nor with the new one.
    rintro id hid ⟨tier, htracks⟩
    obtain ⟨ended, hended⟩ := hcleared.released
    have hkept := (hended.isAlive_iff id).1 (hcleared.isAlive_of_owned hcoherent id (hleft ▸ hid))
    have hadopts := (Memory.adopt_enlists hcleared.coherent hadmissible.1
      (hcleared.isAlive_of_mem hadmissible.2)).of_error hadopt
    obtain ⟨tier', htracks'⟩ :=
      hadopts.isTracked id (.inl ⟨tier, (hended.tracks_iff tier id).2 ⟨htracks, hkept.2⟩⟩)
    have hkept' := (hreleased.isAlive_iff id).1 ((h'.isAlive_iff id).2 hid)
    exact ⟨tier', Manager.tiersOf_of_tracks hmemory'.exact
      ((hreleased.tracks_iff tier' id).2 ⟨htracks', hkept'.2⟩)⟩
  case gone =>
    intro id halive hid
    obtain ⟨hgone, huntracked⟩ := hdead id hid
    have hheld := mem_owned_without_or h.held.nodup key ((h.isAlive_iff id).1 halive)
    refine ⟨hheld.resolve_left (hleft ▸ hid), hgone, huntracked, fun header hdisk => ?_⟩
    have hfiles := contains_eq_false_of_gone hcoherent hadmissible halive (hafter ▸ hgone) hdisk
    rwa [hafter] at hfiles
  case fresh =>
    -- No proxy had such a number before.
    refine fun id hid => hdead id fun howned => ?_
    have halive := hbefore id howned
    rw [Memory.isAlive, Table.contains, hcoherent.memory.fresh id hid] at halive
    cases halive
  case files =>
    intro path hpath
    obtain ⟨id, header, hdisk, hheader⟩ := (hmemory'.contains_iff_onDisk path).1 hpath
    obtain ⟨p, hfind, hform⟩ := hdisk
    have howned := (h'.isAlive_iff id).1 (Table.contains_of_find? hfind)
    exact ⟨id, howned, hbefore id howned, header, ⟨p, hfind, hform⟩, hheader⟩
  case usage =>
    -- What the device counts of an allocation is one size, whatever else arrays may say.
    exact fun tier => (h'.settled.settledIn tier).usage_eq_of_sized h'.settled.exact fun _ =>
      Memory.sized_countedBytes h'.settled.exact .device

/-! ### A value that is refused -/

/-- An array with room neither on the device nor on the host. -/
def largeArray : DeviceArray := .ofBuffers 9 [⟨⟨3⟩, 200⟩]

/-- A store with two arrays in files, where no more files can be written. -/
def fullStore : Store DeviceArray :=
  (Op.setDirectory false [] false true).after ((Op.onMemory (.demoteToDisk ⟨2⟩)).after
    ((Op.insert "other" (.object otherArray)).after spilledStore))

theorem run_fullStore : Run narrowSettings Op.Spares [smallArray, otherArray] fullStore := by
  have hother : otherArray.IsAddressable := by
    unfold DeviceArray.IsAddressable
    decide
  have htwo : Run narrowSettings Op.KeepsWritable [smallArray, otherArray]
      ((Op.insert "other" (.object otherArray)).after spilledStore) :=
    run_spilledStore.step (.insert "other" (.object otherArray)) trivial
      (admissible_object hother _ _)
  have hattached :
      ((Op.insert "other" (.object otherArray)).after spilledStore).memory.IsAttached ⟨2⟩ :=
    (Option.any_eq_true _ _).1 (by decide +kernel)
  exact (htwo.step (.onMemory (.demoteToDisk ⟨2⟩)) trivial hattached).spares.step
    (.setDirectory false [] false true) trivial trivial

/-- The large array takes the place of the small one, and gets as far as the host. -/
theorem insert_withdrawn_from_host :
    ∃ e s', insert "key" (.object largeArray) fullStore = .error e s' ∧
      s'.contains "key" = false ∧ s'.memory.isAlive ⟨1⟩ = false ∧ s'.memory.isAlive ⟨3⟩ = false ∧
      (∃ a, fullStore.memory.StandsFor ⟨2⟩ a ∧ s'.memory.StandsFor ⟨2⟩ a) ∧
      Memory.validate s'.memory = .ok () s'.memory := by
  have hlarge : largeArray.IsAddressable := by
    unfold DeviceArray.IsAddressable
    decide +kernel
  obtain ⟨e, s', hinsert⟩ : ∃ e s', insert "key" (.object largeArray) fullStore = .error e s' :=
    exists_error_of_isNone (by decide +kernel)
  have hend := insert_withdrawn run_fullStore (admissible_object hlarge _ _) hinsert
  have howned : s'.owned = [⟨2⟩] := by
    rw [← Op.after_insert_of_error hinsert]
    decide +kernel
  refine ⟨e, s', hinsert, hend.contains_eq, (hend.gone ⟨1⟩ ?_ ?_).2.1, (hend.fresh ⟨3⟩ ?_).1,
    hend.standsFor ⟨2⟩ ?_, hend.validate_eq⟩
  · decide +kernel
  · rw [howned]
    decide
  · decide +kernel
  · rw [howned]
    decide

end Store

end TieredStore
