import TieredStore.Proofs.Memory.Enlisting
import TieredStore.Proofs.Moves

/-!
# What exists is held

A proxy is there as long as a stored value or a caller holds it. The operations that take something
away from them also end the proxies that nobody holds after that, even where they fail.

* `Held`: everything that exists is held.
* `insert_held`, `adopt_held`: values that are wrapped, whether or not there is room for them.
* `Op.held`: one more operation, however it ends.
* `Run.isAlive_iff`: the proxies that exist after a run.
-/

namespace TieredStore

namespace Table

variable {κ α : Type} [DecidableEq κ] {t : Table κ α} {key : κ}

theorem values_insert_erase (t : Table κ α) (key : κ) (value : α) :
    ((t.erase key).insert key value).values = value :: (t.erase key).values := by
  have htwice : (t.erase key).erase key = t.erase key :=
    erase_of_find?_eq_none (find?_erase_self t key)
  show value :: ((t.erase key).erase key).values = _
  rw [htwice]

/-- Only the value that is found under a key goes with it. -/
theorem mem_values_erase_or (h : t.keys.Nodup) {value other : α} (hfind : t.find? key = some value)
    (hother : other ∈ t.values) : other = value ∨ other ∈ (t.erase key).values := by
  obtain ⟨entry, hentry, rfl⟩ := List.mem_map.1 hother
  obtain ⟨found, hfound, rfl⟩ := Option.map_eq_some_iff.1 hfind
  have hkey : found.1 = key := by simpa using List.find?_some hfound
  by_cases hsame : entry.1 = key
  · -- No key occurs twice, so this is the entry that was found.
    left
    rw [List.inj_on_of_nodup_map h hentry (List.mem_of_find?_eq_some hfound)
      (hsame.trans hkey.symm)]
  · right
    exact List.mem_map_of_mem (List.mem_filter.2 ⟨hentry, by simpa using hsame⟩)

end Table

namespace Store

variable {log : List DeviceArray} {s s' : Store DeviceArray} {settings : Settings}
  {allowed : Store DeviceArray → Op → Prop} {key : String} {value : Value DeviceArray}

/-- Everything that exists is held. -/
structure Held (s : Store DeviceArray) : Prop where
  /-- Proxies that exist are held. -/
  mem_owned : ∀ id, s.memory.isAlive id = true → id ∈ s.owned
  /-- No key occurs twice. -/
  nodup : s.entries.keys.Nodup

namespace Held

/-- Callers take hold of whatever is new. -/
theorem of_new (h : Held s) {memory : Memory (Proxy DeviceArray)} {ids : List ProxyId}
    (hnew : ∀ id, memory.isAlive id = true → s.memory.isAlive id = true ∨ id ∈ ids) :
    Held { s with memory, handles := ids ++ s.handles } where
  mem_owned id hid := by
    rw [mem_owned_iff]
    rcases hnew id hid with hold | hmem
    · have howned := (mem_owned_iff s id).1 (h.mem_owned id hold)
      exact howned.imp_right (List.mem_append_right ids)
    · exact .inr (List.mem_append_left _ hmem)
  nodup := h.nodup

/-- A move makes no proxies. -/
theorem of_moved (h : Held s) (hmoved : Moved (fun m => Memory.Enlists s.memory m []) s s') :
    Held s' := by
  obtain ⟨memory, ids, rfl, henlists⟩ := hmoved
  exact h.of_new fun id hid => .inl ((henlists.isAlive_eq id).symm.trans hid)

/-- A value that is taken out of the store is held by the caller. -/
theorem take (h : Held s) (hfind : s.entries.find? key = some value) :
    Held { s with entries := s.entries.erase key, handles := value.proxies ++ s.handles } where
  mem_owned id hid := by
    have hold := h.mem_owned id hid
    rw [mem_owned_iff] at hold ⊢
    rcases hold with ⟨other, hother, hmem⟩ | hhandle
    · rcases Table.mem_values_erase_or h.nodup hfind hother with rfl | hrest
      · exact .inr (List.mem_append_left _ hmem)
      · exact .inl ⟨other, hrest, hmem⟩
    · exact .inr (List.mem_append_right _ hhandle)
  nodup := Table.nodup_keys_erase h.nodup key

end Held

/-- Once proxies that nobody holds have gone, all proxies that exist are held. -/
theorem collect_held (hsound : Memory.Sound log s.memory) (hnodup : s.entries.keys.Nodup) :
    Ends (collect []) s (fun _ s' => Held s') Never := by
  refine (collect_released hsound []).mono_ok ?_
  rintro - s' ⟨memory, ids, rfl, -, hreleased, hids⟩
  exact ⟨fun id hid => ((hreleased.isAlive_iff_of_held hids id).1 hid).2, hnodup⟩

theorem wrapObject_held (h : Held s) (a : DeviceArray) (isExplicit : Bool) :
    Leaves (wrapObject a isExplicit) s Held := by
  rw [wrapObject, Leaves, Ends.bind_iff, onMemory_iff, Ends.modifyGet_iff, Ends.bind_iff,
    Store.hold, Ends.modify_iff]
  refine h.of_new fun id hid => ?_
  rw [Memory.isAlive, Table.contains_iff, Memory.find?_create] at hid
  obtain ⟨p, hp⟩ := hid
  split at hp
  next hid => exact .inr (List.mem_singleton.2 hid)
  next => exact .inl (Table.contains_of_find? hp)

/-- The caller holds a value that was adopted, or what was made for it is gone. -/
theorem adopt_held (h : Held s) (hcoherent : Coherent log s)
    (hobjects : ∀ a ∈ value.objects, a.IsAddressable)
    (halive : ∀ id ∈ value.proxies, s.memory.isAlive id = true) :
    Leaves (adopt value) s Held := by
  rw [adopt, Leaves, Ends.tryCatch_iff, Ends.bind_iff, onMemory_iff]
  refine ((Memory.adopt_ends hcoherent.memory hobjects halive).and
    (Memory.adopt_enlists hcoherent.memory hobjects halive)).mono ?_ ?_
  · rintro ⟨value', found⟩ m ⟨-, hadopts, hsubset⟩
    rw [Ends.bind_iff, Store.hold, Ends.modify_iff]
    exact h.of_new fun id hid => ((hadopts.isAlive_iff id).1 hid).imp_right fun hmem => hsubset hmem
  · rintro e m ⟨⟨hcoherent', -⟩, -⟩
    rw [Ends.bind_iff]
    exact (collect_held (s := { s with memory := m }) hcoherent'.toSound h.nodup).of_never
      fun _ _ hend => hend

/-- A value that is stored holds what was made for it, and otherwise that is gone. -/
theorem insert_held (h : Held s) (hcoherent : Coherent log s) (key : String)
    (hobjects : ∀ a ∈ value.objects, a.IsAddressable)
    (halive : ∀ id ∈ value.proxies, s.memory.isAlive id = true) :
    Leaves (insert key value) s Held := by
  have hnodup : (s.entries.erase key).keys.Nodup := Table.nodup_keys_erase h.nodup key
  refine (insert_steps hcoherent key hobjects halive).mono ?_ ?_
  · rintro found s' ⟨hhandles, -, m, value', hcleared, hadopt, hentries⟩
    have halive' := hcleared.isAlive_of_mem halive
    obtain ⟨hadopts, hsubset⟩ :=
      (Memory.adopt_enlists hcleared.coherent hobjects halive').of_ok hadopt
    have hfoundIn := hcleared.coherent.mem_foundIn_iff hobjects halive'
    refine ⟨fun id hid => ?_, hentries ▸ Table.nodup_keys_insert hnodup key value'⟩
    -- What exists is in the new value, or it was left because somebody holds it.
    have hheld : id ∈ m.foundIn value ∨ id ∈ (s.without key).owned := by
      rcases (hadopts.isAlive_iff id).1 hid with hold | hmem
      · refine (List.mem_append.1 ((hcleared.isAlive_iff id).1 hold).2).imp_left fun hmem => ?_
        exact (hfoundIn id).2 (.inl hmem)
      · exact .inl hmem
    rw [mem_owned_iff] at hheld ⊢
    rw [hentries, hhandles, Table.values_insert_erase, List.exists_mem_cons_iff, or_assoc]
    exact hheld.imp_left (fun hmem => hsubset hmem)
  · rintro e s' ⟨hhandles, -, m, m', ids, -, -, -, hreleased, hids, hentries⟩
    refine ⟨fun id hid => ?_, hentries ▸ hnodup⟩
    rw [owned, hentries, hhandles]
    exact ((hreleased.isAlive_iff_of_held hids id).1 hid).2

/-- No operation leaves anything behind that nobody holds. -/
theorem Op.held (h : Held s) (hcoherent : Coherent log s) (op : Op)
    (hadmissible : op.Admissible s) : Leaves op.run s Held := by
  have hmove : op.IsMove → Leaves op.run s Held := fun hmove =>
    (moves (Memory.lasting_enlists s.memory []) (.refl hcoherent.memory.exact) hmove).imp
      fun _ => h.of_moved
  cases op with
  | get | hold | spillHundredth | allocationFailed => exact hmove trivial
  | insert key value => exact (insert_held h hcoherent key hadmissible.1 hadmissible.2).map
  | remove key =>
    rw [run, Leaves, Ends.bind_iff, Store.remove, Ends.modifyGet_iff]
    split
    · exact h
    next hfind => exact h.take hfind
  | adopt value => exact (adopt_held h hcoherent hadmissible.1 hadmissible.2).map
  | wrapObject a isExplicit => exact (wrapObject_held h a isExplicit).map
  | letGo ids =>
    rw [run, Store.letGo, Leaves, Ends.bind_iff, Ends.modify_iff]
    exact (collect_held (s := { s with handles := ids.foldl List.erase s.handles })
      hcoherent.memory.toSound h.nodup).of_never fun _ _ hend => hend
  | onMemory op =>
    -- The same proxies exist, so nobody has to take hold of any.
    have hsame : ∀ {m}, Memory.Leads log op s.memory m →
        Held { s with memory := m, handles := [] ++ s.handles } := fun hleads =>
      h.of_new fun id hid => .inl ((hleads.isAlive_eq id).symm.trans hid)
    rw [run, Leaves, onMemory_iff]
    exact (op.ends hcoherent.memory hadmissible).mono (fun _ _ => hsame) fun _ _ => hsame
  | setDirectory => exact ⟨h.mem_owned, h.nodup⟩

theorem Run.held (h : Run settings allowed log s) : Held s := by
  induction h with
  | start => exact ⟨fun id hid => (by cases hid), List.nodup_nil⟩
  | step h op _ hadmissible ih => exact Op.after_of_leaves (Op.held ih h.coherent op hadmissible)

/-- After any run the proxies that exist are just those that are held. -/
theorem Run.isAlive_iff (h : Run settings allowed log s) (id : ProxyId) :
    s.memory.isAlive id = true ↔ id ∈ s.owned :=
  ⟨h.held.mem_owned id, h.coherent.isAlive id⟩

end Store

end TieredStore
