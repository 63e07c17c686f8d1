import TieredStore.Proofs.Memory.Operations
import TieredStore.Proofs.Memory.Wrapping
import TieredStore.Store

/-!
# The operations of the store

A store is coherent when its memory is, and when everything that stored values or callers hold
exists. Every operation ends in a coherent store, whether it succeeds or fails.

* `Store.Coherent`: the invariant of the store.
* `Store.Continues`, `Store.Follows`: what every operation does and does not change.
* `insert_ends`, `get?_ends`, `remove_ends`, `spillHundredth_ends`, `allocationFailed_ends`: the
  operations on stored values.
* `adopt_ends`, `wrapObject_ends`, `letGo_ends`: what callers hold.
-/

namespace TieredStore

namespace Table

variable {κ α : Type} [DecidableEq κ]

theorem erase_of_find?_eq_none {t : Table κ α} {key : κ} (h : t.find? key = none) :
    t.erase key = t := by
  -- No entry has the key, so none is dropped.
  rw [find?, Option.map_eq_none_iff, List.find?_eq_none] at h
  obtain ⟨entries⟩ := t
  exact congrArg mk (List.filter_eq_self.2 fun e he => by simpa using h e he)

theorem mem_values_of_find? {t : Table κ α} {key : κ} {value : α} (h : t.find? key = some value) :
    value ∈ t.values := by
  obtain ⟨entry, hentry, rfl⟩ := Option.map_eq_some_iff.1 h
  exact List.mem_map_of_mem (List.mem_of_find?_eq_some hentry)

theorem values_erase_subset (t : Table κ α) (key : κ) : (t.erase key).values ⊆ t.values := by
  intro value hvalue
  obtain ⟨entry, hentry, rfl⟩ := List.mem_map.1 hvalue
  exact List.mem_map_of_mem (List.mem_of_mem_filter hentry)

theorem values_insert_subset (t : Table κ α) (key : κ) (value : α) :
    (t.insert key value).values ⊆ value :: t.values := by
  intro other hother
  rcases List.mem_cons.1 hother with rfl | hother
  · exact List.mem_cons_self
  · exact List.mem_cons_of_mem _ (values_erase_subset t key hother)

theorem nodup_keys_erase {t : Table κ α} (h : t.keys.Nodup) (key : κ) : (t.erase key).keys.Nodup :=
  h.sublist (List.filter_sublist.map _)

theorem nodup_keys_insert {t : Table κ α} (h : t.keys.Nodup) (key : κ) (value : α) :
    (t.insert key value).keys.Nodup := by
  show (key :: (t.erase key).keys).Nodup
  refine List.nodup_cons.2 ⟨?_, nodup_keys_erase h key⟩
  rw [mem_keys_iff, contains_erase]
  simp

end Table

namespace Store

variable {log : List DeviceArray} {s s' : Store DeviceArray} {α : Type}

/-- The memory is coherent, and what values or callers hold exists. -/
structure Coherent (log : List DeviceArray) (s : Store DeviceArray) : Prop where
  /-- The memory is coherent. -/
  memory : Memory.Coherent log s.memory
  /-- What is held exists. -/
  isAlive : ∀ id ∈ s.owned, s.memory.isAlive id = true

/-- An operation leads to a coherent store under the same limits, and no proxy loses its place. -/
structure Continues (log : List DeviceArray) (s s' : Store DeviceArray) : Prop where
  /-- The store is coherent. -/
  coherent : Coherent log s'
  /-- Limits and places stay. -/
  proceeds : Memory.Proceeds s.memory s'.memory
  /-- Values are handed out as before. -/
  mode_eq : s'.compatibilityMode = s.compatibilityMode

/-- Besides, an operation makes no explicit proxies. -/
structure Follows (log : List DeviceArray) (s s' : Store DeviceArray) : Prop
    extends Continues log s s' where
  /-- No more proxies are explicit. -/
  isExplicit : ∀ id, s'.memory.isExplicit id = true → s.memory.isExplicit id = true

theorem Follows.refl (h : Coherent log s) : Follows log s s :=
  ⟨⟨h, .refl _, rfl⟩, fun _ hid => hid⟩

/-- A file could not be written, and the store is coherent all the same. -/
def Refused (log : List DeviceArray) (s : Store DeviceArray) : Failure → Store DeviceArray → Prop :=
  fun _ s' => Follows log s s' ∧ ¬ s.memory.spill.Writable

theorem mem_owned_iff (s : Store DeviceArray) (id : ProxyId) :
    id ∈ s.owned ↔ (∃ value ∈ s.entries.values, id ∈ value.proxies) ∨ id ∈ s.handles := by
  rw [owned, List.mem_append, List.mem_flatMap]

theorem Coherent.isAlive_of_find? (h : Coherent log s) {key : String} {value : Value DeviceArray}
    (hfind : s.entries.find? key = some value) :
    ∀ id ∈ value.proxies, s.memory.isAlive id = true :=
  fun id hid => h.isAlive id
    ((mem_owned_iff s id).2 (.inl ⟨value, Table.mem_values_of_find? hfind, hid⟩))

/-- What is held still exists when callers take hold of some more proxies that exist. -/
theorem Coherent.isAlive_of_hold (h : Coherent log s) {memory : Memory (Proxy DeviceArray)}
    {ids : List ProxyId} (hkept : ∀ id, s.memory.isAlive id = true → memory.isAlive id = true)
    (hnew : ∀ id ∈ ids, memory.isAlive id = true) :
    ∀ id ∈ ({ s with memory, handles := ids ++ s.handles } : Store DeviceArray).owned,
      memory.isAlive id = true := by
  intro id hid
  rw [mem_owned_iff] at hid
  rcases hid with hvalue | hhandle
  · exact hkept id (h.isAlive id ((mem_owned_iff s id).2 (.inl hvalue)))
  · rcases List.mem_append.1 hhandle with hmem | hold
    · exact hnew id hmem
    · exact hkept id (h.isAlive id ((mem_owned_iff s id).2 (.inr hold)))

/-- Callers and values hold proxies that exist, and nothing else has changed. -/
theorem Coherent.hold (h : Coherent log s) (howned : ∀ id ∈ s'.owned, s.memory.isAlive id = true)
    (hmemory : s'.memory = s.memory) (hmode : s'.compatibilityMode = s.compatibilityMode) :
    Follows log s s' where
  coherent := ⟨hmemory ▸ h.memory, fun id hid => hmemory ▸ howned id hid⟩
  proceeds := hmemory ▸ .refl _
  mode_eq := hmode
  isExplicit _ hid := hmemory ▸ hid

/-! ### Actions on the memory -/

theorem onMemory_iff {action : Memory.Action (Proxy DeviceArray) α}
    {ok : α → Store DeviceArray → Prop} {bad : Failure → Store DeviceArray → Prop} :
    Ends (onMemory action) s ok bad ↔
      Ends action s.memory (fun x memory => ok x { s with memory })
        (fun e memory => bad e { s with memory }) := by
  simp only [Ends, onMemory]
  cases action s.memory <;> rfl

/-- A memory that advances carries the store with it. -/
theorem Coherent.advance (h : Coherent log s) {memory : Memory (Proxy DeviceArray)}
    (hadvances : Memory.Advances log s.memory memory) : Follows log s { s with memory } where
  coherent := ⟨hadvances.coherent, fun id hid => (hadvances.isAlive_eq id).trans (h.isAlive id hid)⟩
  proceeds := hadvances.toProceeds
  mode_eq := rfl
  isExplicit := hadvances.grows.isExplicit

/-- So does one in which a file could not be written. -/
theorem Coherent.refuse (h : Coherent log s) {memory : Memory (Proxy DeviceArray)} {e : Failure}
    (hrefused : Memory.Refused log s.memory e memory) : Refused log s e { s with memory } :=
  ⟨h.advance hrefused.1, hrefused.2⟩

/-! ### The end of proxies that nobody holds -/

/-- Proxies that nobody holds are released. Those in values on their way count as held. -/
theorem collect_released (hmemory : Memory.Sound log s.memory) (inFlight : List ProxyId) :
    Ends (collect inFlight) s
      (fun _ s' => ∃ memory ids, s' = { s with memory } ∧ Memory.Sound log memory ∧
        Memory.Released s.memory memory ids ∧
        ∀ id, id ∈ ids ↔ s.memory.isAlive id = true ∧ id ∉ inFlight ++ s.owned) Never := by
  rw [collect, Ends.bind_iff, Ends.get_iff, onMemory_iff]
  refine (Memory.releaseAll_ends hmemory _).mono_ok ?_
  rintro - memory ⟨hsound, hreleased⟩
  refine ⟨memory, _, rfl, hsound, hreleased, fun id => ?_⟩
  rw [List.mem_filter, Table.mem_keys_iff, Memory.isAlive]
  simp

/-- Proxies that nobody holds go, and the others stay. -/
theorem collect_ends (hmemory : Memory.Coherent log s.memory) (inFlight : List ProxyId) :
    Ends (collect inFlight) s
      (fun _ s' => ∃ memory, s' = { s with memory } ∧ Memory.Coherent log memory ∧
        Memory.Proceeds s.memory memory ∧
        (∀ id, memory.isExplicit id = true → s.memory.isExplicit id = true) ∧
        ∀ id, memory.isAlive id = true ↔
          s.memory.isAlive id = true ∧ id ∈ inFlight ++ s.owned) Never := by
  refine (collect_released hmemory.toSound inFlight).mono_ok ?_
  rintro - s' ⟨memory, ids, rfl, hsound, hreleased, hids⟩
  exact ⟨memory, rfl, hmemory.of_released hsound hreleased, hreleased.proceeds,
    fun id hid => hreleased.isExplicit hid, hreleased.isAlive_iff_of_held hids⟩

theorem letGo_ends (h : Coherent log s) (ids : List ProxyId) :
    Ends (letGo ids) s (fun _ s' => Follows log s s' ∧ s'.entries = s.entries) Never := by
  rw [letGo, Ends.bind_iff, Ends.modify_iff]
  refine (collect_ends (s := { s with handles := ids.foldl List.erase s.handles }) h.memory
    []).mono_ok ?_
  rintro - s' ⟨memory, rfl, hcoherent, hproceeds, hexplicit, halive⟩
  refine ⟨⟨⟨⟨hcoherent, fun id hid => (halive id).2 ⟨h.isAlive id ?_, hid⟩⟩, hproceeds, rfl⟩,
    hexplicit⟩, rfl⟩
  -- What is still held was held before.
  rw [mem_owned_iff] at hid ⊢
  refine hid.imp_right fun hhandle => ?_
  have hsubset : ∀ (ids handles : List ProxyId), ids.foldl List.erase handles ⊆ handles := by
    intro ids
    induction ids with
    | nil => exact fun _ => List.Subset.refl _
    | cons id ids ih => exact fun handles => List.Subset.trans (ih _) List.erase_subset
  exact hsubset ids _ hhandle

/-! ### Operations on stored values -/

/-- A new proxy is held by the caller. -/
theorem wrapObject_ends (h : Coherent log s) {a : DeviceArray} (ha : a.IsAddressable)
    (isExplicit : Bool) :
    Ends (wrapObject a isExplicit) s (fun _ s' => Continues (log ++ [a]) s s') Never := by
  rw [wrapObject, Ends.bind_iff, onMemory_iff, Ends.modifyGet_iff]
  obtain ⟨hcoherent, hproceeds, halive⟩ := h.memory.create ha
    (fun time => .object (.ofObject a isExplicit time)) fun _ => ⟨_, rfl, rfl⟩
  rw [Ends.bind_iff, Store.hold, Ends.modify_iff]
  exact ⟨⟨hcoherent, h.isAlive_of_hold (fun id hid => (halive id).2 (.inr hid)) fun id hid =>
    (halive id).2 (.inl (List.mem_singleton.1 hid))⟩, hproceeds, rfl⟩

/-- The proxies that are left after a failure are those that are still held. -/
theorem collect_after_failure {t : Store DeviceArray} (hmemory : Memory.Coherent log t.memory)
    (hproceeds : Memory.Proceeds s.memory t.memory)
    (hexplicit : ∀ id, t.memory.isExplicit id = true → s.memory.isExplicit id = true)
    (hmode : t.compatibilityMode = s.compatibilityMode)
    (howned : ∀ id ∈ t.owned, t.memory.isAlive id = true)
    (hwritable : ¬ s.memory.spill.Writable) {failure : Failure}
    {ok : α → Store DeviceArray → Prop} :
    Ends (do collect (T := DeviceArray) []; throw failure : Action DeviceArray α) t ok
      (Refused log s) := by
  rw [Ends.bind_iff]
  refine (collect_ends hmemory []).of_never ?_
  rintro - s' ⟨memory, rfl, hcoherent, hproceeds', hexplicit', halive⟩
  rw [Ends.throw_iff]
  exact ⟨⟨⟨⟨hcoherent, fun id hid => (halive id).2 ⟨howned id hid, hid⟩⟩,
    hproceeds.trans hproceeds', hmode⟩, fun id hid => hexplicit id (hexplicit' id hid)⟩, hwritable⟩

/-- A value that is adopted is held by the caller, with all proxies in it. -/
theorem adopt_ends (h : Coherent log s) {value : Value DeviceArray}
    (hobjects : ∀ a ∈ value.objects, a.IsAddressable)
    (halive : ∀ id ∈ value.proxies, s.memory.isAlive id = true) :
    Ends (adopt value) s (fun _ s' => Follows (log ++ Memory.newArrays value) s s')
      (Refused (log ++ Memory.newArrays value) s) := by
  rw [adopt, Ends.tryCatch_iff, Ends.bind_iff, onMemory_iff]
  refine (Memory.adopt_ends h.memory hobjects halive).mono ?_ ?_
  · rintro ⟨value', found⟩ memory ⟨hcoherent, hgrows, hproxies, -⟩
    rw [Ends.bind_iff, Store.hold, Ends.modify_iff]
    exact ⟨⟨⟨hcoherent, h.isAlive_of_hold hgrows.isAlive hproxies⟩, hgrows.toProceeds, rfl⟩,
      hgrows.isExplicit⟩
  · rintro e memory ⟨hcoherent, hgrows, hwritable⟩
    exact collect_after_failure (t := { s with memory }) hcoherent hgrows.toProceeds
      hgrows.isExplicit rfl (fun id hid => hgrows.isAlive id (h.isAlive id hid)) hwritable

/-- The callback is offered without effect on memory, values and handles. -/
theorem installCallback_ends (s : Store DeviceArray) :
    Ends (installCallback (T := DeviceArray)) s
      (fun _ s' => s'.memory = s.memory ∧ s'.entries = s.entries ∧ s'.handles = s.handles ∧
        s'.compatibilityMode = s.compatibilityMode) Never := by
  rw [installCallback, Ends.bind_iff, Ends.get_iff]
  split
  · split <;> exact ⟨rfl, rfl, rfl, rfl⟩
  · exact ⟨rfl, rfl, rfl, rfl⟩

/-- A store without the value under a key. The proxies in that value are still there. -/
def without (s : Store DeviceArray) (key : String) : Store DeviceArray :=
  { s with entries := s.entries.erase key }

/-- Room has been made for a value under a key: of the proxies that the old value holds, those are
left that other values or callers hold, too, or that are in the new value. -/
structure Cleared (log : List DeviceArray) (s : Store DeviceArray) (key : String)
    (value : Value DeviceArray) (m : Memory (Proxy DeviceArray)) : Prop where
  /-- The memory is coherent. -/
  coherent : Memory.Coherent log m
  /-- Nothing was done but to release proxies. -/
  released : ∃ ids, Memory.Released s.memory m ids
  /-- The proxies that are held are left. -/
  isAlive_iff : ∀ id, m.isAlive id = true ↔
    s.memory.isAlive id = true ∧ id ∈ value.proxies ++ (s.without key).owned

theorem owned_without_subset (s : Store DeviceArray) (key : String) :
    (s.without key).owned ⊆ s.owned := by
  intro id hid
  rw [mem_owned_iff] at hid ⊢
  exact hid.imp_left fun ⟨v, hv, hmem⟩ => ⟨v, Table.values_erase_subset _ _ hv, hmem⟩

/-- What is held once the old value is gone was held before, so it is left. -/
theorem Cleared.isAlive_of_owned {key : String} {value : Value DeviceArray}
    {m : Memory (Proxy DeviceArray)} (hcleared : Cleared log s key value m) (h : Coherent log s) :
    ∀ id ∈ (s.without key).owned, m.isAlive id = true := fun id hid =>
  (hcleared.isAlive_iff id).2
    ⟨h.isAlive id (owned_without_subset s key hid), List.mem_append_right _ hid⟩

theorem Cleared.isAlive_of_mem {key : String} {value : Value DeviceArray}
    {m : Memory (Proxy DeviceArray)} (hcleared : Cleared log s key value m)
    (halive : ∀ id ∈ value.proxies, s.memory.isAlive id = true) :
    ∀ id ∈ value.proxies, m.isAlive id = true := fun id hid =>
  (hcleared.isAlive_iff id).2 ⟨halive id hid, List.mem_append_left _ hid⟩

/-- How a value is inserted: room is made for it, and it is adopted. After that it is stored, or,
if it could not be adopted, the proxies that nobody holds are released. -/
theorem insert_steps (h : Coherent log s) (key : String) {value : Value DeviceArray}
    (hobjects : ∀ a ∈ value.objects, a.IsAddressable)
    (halive : ∀ id ∈ value.proxies, s.memory.isAlive id = true) :
    Ends (insert key value) s
      (fun found s' => s'.handles = s.handles ∧ s'.compatibilityMode = s.compatibilityMode ∧
        ∃ m value', Cleared log s key value m ∧
          Memory.adopt value m = .ok (value', found) s'.memory ∧
          s'.entries = (s.entries.erase key).insert key value')
      (fun e s' => s'.handles = s.handles ∧ s'.compatibilityMode = s.compatibilityMode ∧
        ∃ m m' ids, Cleared log s key value m ∧ Memory.adopt value m = .error e m' ∧
          Memory.Sound (log ++ Memory.newArrays value) s'.memory ∧
          Memory.Released m' s'.memory ids ∧
          (∀ id, id ∈ ids ↔ m'.isAlive id = true ∧ id ∉ (s.without key).owned) ∧
          s'.entries = s.entries.erase key) := by
  rw [insert, Ends.bind_iff]
  refine (installCallback_ends s).of_never ?_
  rintro - s₁ ⟨hmemory, hentries, hhandles, hmode⟩
  rw [Ends.bind_iff, Ends.modify_iff, Ends.tryCatch_iff, Ends.bind_iff]
  have hcoherent : Memory.Coherent log s₁.memory := hmemory ▸ h.memory
  have howned : (s₁.without key).owned = (s.without key).owned := by
    rw [owned, owned, without, without, hentries, hhandles]
  -- The proxies of the old value go, but for those that are in the new one or held elsewhere.
  refine (collect_released (s := s₁.without key) hcoherent.toSound value.proxies).of_never ?_
  rintro - s₂ ⟨m, ids, rfl, hsound, hreleased, hids⟩
  have hcleared : Cleared log s key value m := by
    refine ⟨hcoherent.of_released hsound hreleased, ⟨ids, hmemory ▸ hreleased⟩, fun id => ?_⟩
    rw [hreleased.isAlive_iff_of_held hids, howned, without, hmemory]
  rw [Ends.bind_iff, onMemory_iff]
  refine Ends.of_forall ?_ ?_
  · rintro ⟨value', found⟩ m' hadopt
    rw [Ends.bind_iff, Ends.modify_iff, Ends.pure_iff]
    refine ⟨hhandles, hmode, m, value', hcleared, hadopt, ?_⟩
    rw [without, hentries]
  · intro e m' hadopt
    obtain ⟨hcoherent', -⟩ :=
      (Memory.adopt_ends hcleared.coherent hobjects (hcleared.isAlive_of_mem halive)).of_error
        hadopt
    rw [Ends.bind_iff]
    -- Nobody holds the new value, so this ends the proxies that only it has.
    refine (collect_released (s := { s₁.without key with memory := m' }) hcoherent'.toSound
      []).of_never ?_
    rintro - s₃ ⟨m'', gone, rfl, hsound', hreleased', hgone⟩
    rw [Ends.throw_iff]
    refine ⟨hhandles, hmode, m, m', gone, hcleared, hadopt, hsound', hreleased', fun id => ?_, ?_⟩
    · rw [hgone, List.nil_append]
      exact howned ▸ Iff.rfl
    · rw [without, hentries]

/-- A value is stored, with its objects wrapped and tracked, and the limits are enforced after that.
If they cannot be, the value goes again. -/
theorem insert_ends (h : Coherent log s) (key : String) {value : Value DeviceArray}
    (hobjects : ∀ a ∈ value.objects, a.IsAddressable)
    (halive : ∀ id ∈ value.proxies, s.memory.isAlive id = true) :
    Ends (insert key value) s
      (fun _ s' => Follows (log ++ Memory.newArrays value) s s' ∧
        (∃ value', s'.entries = (s.entries.erase key).insert key value' ∧
          (value.Consistent → value'.resolve (origin? (log ++ Memory.newArrays value)) =
            value.resolve (origin? log))) ∧
        ∃ m, Memory.Coherent (log ++ Memory.newArrays value) m ∧
          (∀ id, m.Stranded id → s.memory.Stranded id) ∧
          Memory.Enforced (log ++ Memory.newArrays value) 0 m s'.memory)
      (Refused (log ++ Memory.newArrays value) s) := by
  refine (insert_steps h key hobjects halive).mono ?_ ?_
  · -- The proxies of the new value exist, and no other value has lost any.
    rintro found s' ⟨hhandles, hmode, m, value', hcleared, hadopt, hentries⟩
    obtain ⟨hcoherent, hgrows, hproxies, hresolve, m₁, hm₁, hgrows₁, henforced⟩ :=
      (Memory.adopt_ends hcleared.coherent hobjects (hcleared.isAlive_of_mem halive)).of_ok hadopt
    obtain ⟨ids, hreleased⟩ := hcleared.released
    have hproceeds := hreleased.proceeds
    refine ⟨⟨⟨⟨hcoherent, fun id hid => ?_⟩, hproceeds.trans hgrows.toProceeds, hmode⟩,
        fun id hid => hreleased.isExplicit (hgrows.isExplicit id hid)⟩,
      ⟨value', hentries, hresolve⟩,
      m₁, hm₁, fun id hid => hproceeds.stranded id (hgrows₁.stranded id hid), henforced⟩
    rw [mem_owned_iff, hentries, hhandles] at hid
    have hleft := hcleared.isAlive_of_owned h
    rcases hid with ⟨v, hv, hmem⟩ | hhandle
    · rcases List.mem_cons.1 (Table.values_insert_subset _ _ _ hv) with rfl | hv
      · exact hproxies id hmem
      · exact hgrows.isAlive id (hleft id ((mem_owned_iff _ id).2 (.inl ⟨v, hv, hmem⟩)))
    · exact hgrows.isAlive id (hleft id ((mem_owned_iff _ id).2 (.inr hhandle)))
  · -- The new value is gone, and so are the proxies that only it held.
    rintro e s' ⟨hhandles, hmode, m, m', gone, hcleared, hadopt, hsound, hreleased', hgone,
      hentries⟩
    obtain ⟨hcoherent, hgrows, hwritable⟩ :=
      (Memory.adopt_ends hcleared.coherent hobjects (hcleared.isAlive_of_mem halive)).of_error
        hadopt
    obtain ⟨ids, hreleased⟩ := hcleared.released
    refine ⟨⟨⟨⟨hcoherent.of_released hsound hreleased', fun id hid => ?_⟩,
        hreleased.proceeds.trans (hgrows.toProceeds.trans hreleased'.proceeds), hmode⟩,
        fun id hid => hreleased.isExplicit (hgrows.isExplicit id (hreleased'.isExplicit hid))⟩,
      fun hold => hwritable (hreleased.proceeds.writable_iff.2 hold)⟩
    rw [owned, hentries, hhandles] at hid
    exact (hreleased'.isAlive_iff_of_held hgone id).2
      ⟨hgrows.isAlive id (hcleared.isAlive_of_owned h id hid), hid⟩

/-- A stored value is handed out. In compatibility mode its objects are put back, and the limits are
enforced after that. -/
theorem get?_ends (h : Coherent log s) (key : String) :
    Ends (get? key) s
      (fun found s' => Follows log s s' ∧ s'.entries = s.entries ∧
        (s.compatibilityMode = true →
          found = (s.entries.find? key).map (Value.resolve (s.memory.opened? log true))) ∧
        (s.compatibilityMode = true → s.entries.contains key = true →
          ∃ m, Memory.Advances log s.memory m ∧ Memory.Enforced log 0 m s'.memory))
      (Refused log s) := by
  rw [get?, Ends.bind_iff, Ends.get_iff]
  split
  next hnone =>
    refine ⟨.refl h, rfl, fun _ => by rw [hnone, Option.map_none], fun _ hcontains => ?_⟩
    rw [Table.contains, hnone] at hcontains
    cases hcontains
  next value hvalue =>
    have halive := h.isAlive_of_find? hvalue
    -- Whatever is handed out was in the value before.
    have hhold : ∀ {memory : Memory (Proxy DeviceArray)} {value' : Value DeviceArray},
        Memory.Advances log s.memory memory → value'.proxies ⊆ value.proxies →
          Follows log s { s with memory, handles := value'.proxies ++ s.handles } := by
      intro memory value' hadvances hsubset
      refine ⟨⟨⟨hadvances.coherent, h.isAlive_of_hold hadvances.grows.isAlive fun id hid => ?_⟩,
        hadvances.toProceeds, rfl⟩, hadvances.grows.isExplicit⟩
      exact (hadvances.isAlive_eq id).trans (halive id (hsubset hid))
    dsimp only
    split
    next =>
      rw [Ends.bind_iff, onMemory_iff, Ends.bind_iff]
      refine (Memory.unwrap_ends true value h.memory halive).mono ?_ ?_
      · rintro value' m ⟨hadvances, rfl⟩
        rw [Ends.bind_iff]
        refine (Memory.enforceLimits_ends hadvances.coherent 0).mono ?_ ?_
        · intro _ m' henforced
          have hadvances' := hadvances.trans (henforced.advances hadvances.coherent)
          exact ⟨hhold hadvances' (Value.proxies_resolve_subset _ value), rfl, fun _ =>
            hvalue ▸ rfl,
            fun _ _ => ⟨m, hadvances, henforced⟩⟩
        · intro e m' hrefused
          exact h.refuse (hrefused.of_advances hadvances)
      · intro e m hrefused
        exact h.refuse hrefused
    next hmode =>
      exact ⟨hhold (.refl h.memory) (List.Subset.refl _), rfl,
        fun hcompat => absurd hcompat hmode, fun hcompat => absurd hcompat hmode⟩

/-- A value that is taken out of the store is held by the caller. -/
theorem remove_ends (h : Coherent log s) (key : String) :
    Ends (remove key) s (fun _ s' => Follows log s s' ∧ s'.entries = s.entries.erase key)
      Never := by
  rw [remove, Ends.modifyGet_iff]
  split
  next hnone => exact ⟨.refl h, (Table.erase_of_find?_eq_none hnone).symm⟩
  next value hvalue =>
    refine ⟨h.hold (fun id hid => ?_) rfl rfl, rfl⟩
    rw [mem_owned_iff] at hid
    rcases hid with ⟨v, hv, hmem⟩ | hhandle
    · exact h.isAlive id ((mem_owned_iff s id).2 (.inl ⟨v, Table.values_erase_subset _ _ hv, hmem⟩))
    · -- The caller holds what the value held.
      rcases List.mem_append.1 hhandle with hnew | hhandle
      · exact h.isAlive_of_find? hvalue id hnew
      · exact h.isAlive id ((mem_owned_iff s id).2 (.inr hhandle))

/-- A part of the host is moved to disk, and the limits are enforced after that. -/
theorem spillHundredth_ends (h : Coherent log s) :
    Ends (spillHundredth (T := DeviceArray)) s
      (fun _ s' => Follows log s s' ∧ s'.entries = s.entries ∧
        (s.memory.manager.host.isEmpty = false →
          ∃ m, Memory.Advances log s.memory m ∧ Memory.Enforced log 0 m s'.memory))
      (Refused log s) := by
  rw [spillHundredth, onMemory_iff, Ends.bind_iff, Ends.get_iff]
  split
  next hempty =>
    refine ⟨h.advance (.refl h.memory), rfl, fun hnot => ?_⟩
    rw [hempty] at hnot
    cases hnot
  next =>
    rw [Ends.bind_iff]
    refine (Memory.evictToDisk_ends h.memory _).mono ?_ ?_
    · rintro freed m ⟨-, hsound, hrelocated⟩
      have hadvances := h.memory.advances hsound hrelocated
      rw [Ends.bind_iff]
      refine (Memory.enforceLimits_ends hadvances.coherent 0).mono ?_ ?_
      · intro _ m' henforced
        exact ⟨h.advance (hadvances.trans (henforced.advances hadvances.coherent)), rfl,
          fun _ => ⟨m, hadvances, henforced⟩⟩
      · intro e m' hrefused
        exact h.refuse (hrefused.of_advances hadvances)
    · intro e m hrefused
      exact h.refuse hrefused

/-- A failed allocation moves proxies to the host. -/
theorem allocationFailed_ends (h : Coherent log s) (nbytes : ℕ) :
    Ends (allocationFailed (T := DeviceArray) nbytes) s
      (fun _ s' => Follows log s s' ∧ s'.entries = s.entries) (Refused log s) := by
  have hroom : Ends (onMemory (makeRoom (T := DeviceArray) nbytes)) s
      (fun _ s' => Follows log s s' ∧ s'.entries = s.entries) (Refused log s) := by
    rw [onMemory_iff, makeRoom, Ends.bind_iff, Ends.get_iff]
    split
    next => exact ⟨h.advance (.refl h.memory), rfl⟩
    next =>
      rw [Ends.tryCatch_iff, Ends.bind_iff]
      refine (Memory.evictToHost_ends h.memory nbytes).mono ?_ ?_
      · rintro freed m ⟨-, hsound, hrelocated⟩
        exact ⟨h.advance (h.memory.advances hsound hrelocated), rfl⟩
      · intro e m hrefused
        -- The error may be swallowed, and what was moved before it stays moved.
        have hend := h.refuse hrefused
        split
        · exact ⟨hend.1, rfl⟩
        · exact hend
  rw [allocationFailed, Ends.bind_iff, Ends.get_iff]
  split
  next =>
    split
    next =>
      rw [Ends.bind_iff]
      exact hroom.mono_ok fun _ _ hend => hend
    next => exact ⟨.refl h, rfl⟩
  next => exact ⟨.refl h, rfl⟩

end Store

end TieredStore
