import Mathlib.Data.Finmap
import TieredStore.Proofs.Coherence

/-!
# Spilling is invisible

A caller who stores values without proxies, and who is handed values with their objects put back,
cannot tell a store from a finite map. Values that were stored are read as they were, whatever has
been moved to the host or to disk in the meantime, and nothing fails while files can be written.

* `Op.IsPlain`, `Op.onMap`: what such a caller asks for, and what it does to a map.
* `Mirrors`: the values of a store stand for those of a map.
* `Mirrors.step`, `Mirrors.foldl`: operations keep it so, and none of them fails.
* `reads_as_map`: what the caller sees.
-/

namespace TieredStore

namespace Value

variable {T : Type}

mutual

/-- A value without proxies stands for itself. -/
theorem resolve_of_proxies_eq_nil (lookup : ProxyId → Option T) (v : Value T)
    (h : v.proxies = []) : v.resolve lookup = v :=
  match v with
  | int _ | object _ => rfl
  | proxy id => by cases h
  | list items => congrArg list (resolveAll_of_proxiesOf_eq_nil lookup items h)

theorem resolveAll_of_proxiesOf_eq_nil (lookup : ProxyId → Option T) (items : List (Value T))
    (h : proxiesOf items = []) : resolveAll lookup items = items :=
  match items with
  | [] => rfl
  | item :: items =>
    have hnil := List.append_eq_nil_iff.1 h
    congrArg₂ List.cons (resolve_of_proxies_eq_nil lookup item hnil.1)
      (resolveAll_of_proxiesOf_eq_nil lookup items hnil.2)

end

end Value

namespace Store

variable {log : List DeviceArray} {s s' : Store DeviceArray}
  {map : Finmap fun _ : String => Value DeviceArray}

namespace Op

/-- Operations of a caller who knows of no proxies. Arrays in memory have frames that can be
written, and arrays with one identity in a value are the same. -/
def IsPlain : Op → Prop
  | insert _ value =>
    value.proxies = [] ∧ value.Consistent ∧ ∀ a ∈ value.objects, a.IsAddressable
  | get _ | remove _ | letGo _ | spillHundredth | allocationFailed _ => True
  | setDirectory isPresent refused _ _ => isPresent = true ∧ refused = []
  | adopt _ | wrapObject _ _ | hold _ | onMemory _ => False

/-- What an operation does to a map. -/
def onMap (map : Finmap fun _ : String => Value DeviceArray) :
    Op → Finmap fun _ : String => Value DeviceArray
  | insert key value => map.insert key value
  | remove key => map.erase key
  | _ => map

end Op

/-- A store stands for a map: its values, with the arrays in the place of proxies, are those of the
map. -/
structure Mirrors (log : List DeviceArray) (s : Store DeviceArray)
    (map : Finmap fun _ : String => Value DeviceArray) : Prop where
  /-- The store is coherent. -/
  coherent : Coherent log s
  /-- Files can be written. -/
  writable : s.memory.spill.Writable
  /-- Objects are put back when a value is handed out. -/
  mode : s.compatibilityMode = true
  /-- No proxy is kept back then. -/
  isExplicit : ∀ id, s.memory.isExplicit id = false
  /-- No key occurs twice. -/
  nodup : s.entries.keys.Nodup
  /-- The stored values stand for those of the map. -/
  lookup_eq : ∀ key, map.lookup key = (s.entries.find? key).map (Value.resolve (origin? log))

/-- An action whose result is not asked for. -/
theorem run_discard {α : Type} {action : Action DeviceArray α} {a : α} (h : action s = .ok a s') :
    (do let _ ← action : Action DeviceArray Unit) s = .ok () s' := by
  simp only [bind, EStateM.bind, h]
  rfl

namespace Mirrors

/-- What an operation that follows leaves is settled by the stored values. -/
theorem of_follows {all : List DeviceArray} {map' : Finmap fun _ : String => Value DeviceArray}
    (h : Mirrors log s map) (hfollows : Follows all s s') (hnodup : s'.entries.keys.Nodup)
    (hlookup : ∀ key, map'.lookup key = (s'.entries.find? key).map (Value.resolve (origin? all))) :
    Mirrors all s' map' where
  coherent := hfollows.coherent
  writable := hfollows.proceeds.writable_iff.2 h.writable
  mode := hfollows.mode_eq.trans h.mode
  isExplicit id := by
    by_contra hid
    have hbefore := hfollows.isExplicit id (Bool.not_eq_false _ ▸ hid)
    exact absurd hbefore (by rw [h.isExplicit]; exact Bool.false_ne_true)
  nodup := hnodup
  lookup_eq := hlookup

/-- The map stays if the stored values do. -/
theorem of_entries_eq (h : Mirrors log s map) (hfollows : Follows log s s')
    (hentries : s'.entries = s.entries) : Mirrors log s' map :=
  h.of_follows hfollows (hentries ▸ h.nodup) fun key => by rw [hentries, h.lookup_eq]

/-- What stored values stand for does not change when more proxies are made. -/
theorem resolve_append (h : Mirrors log s map) (more : List DeviceArray) (key : String) :
    (s.entries.find? key).map (Value.resolve (origin? (log ++ more))) =
      (s.entries.find? key).map (Value.resolve (origin? log)) := by
  rcases hfind : s.entries.find? key with _ | value
  · rfl
  · -- Stored proxies exist, so the log has their arrays already.
    refine congrArg some (Value.resolve_congr value fun id hid => ?_)
    exact h.coherent.memory.origin?_append_eq (h.coherent.isAlive_of_find? hfind id hid) more

/-- A value is stored under a key, in place of the one that was there. -/
theorem insert (h : Mirrors log s map) {key : String} {value value' : Value DeviceArray}
    (hfollows : Follows (log ++ Memory.newArrays value) s s')
    (hentries : s'.entries = (s.entries.erase key).insert key value')
    (hvalue : value'.resolve (origin? (log ++ Memory.newArrays value)) = value) :
    Mirrors (log ++ Memory.newArrays value) s' (map.insert key value) := by
  refine h.of_follows hfollows ?_ fun other => ?_
  · rw [hentries]
    exact Table.nodup_keys_insert (Table.nodup_keys_erase h.nodup key) key value'
  · rw [hentries, Table.find?_insert]
    split
    next hother => rw [hother, Finmap.lookup_insert, Option.map_some, hvalue]
    next hother =>
      rw [Finmap.lookup_insert_of_ne _ hother, Table.find?_erase_of_ne _ hother, h.resolve_append,
        h.lookup_eq]

/-- A value is taken out. -/
theorem erase (h : Mirrors log s map) {key : String} (hfollows : Follows log s s')
    (hentries : s'.entries = s.entries.erase key) : Mirrors log s' (map.erase key) := by
  refine h.of_follows hfollows (hentries ▸ Table.nodup_keys_erase h.nodup key) fun other => ?_
  rw [hentries, Table.find?_erase]
  split
  next hother => rw [hother, Finmap.lookup_erase, Option.map_none]
  next hother => rw [Finmap.lookup_erase_ne hother, h.lookup_eq]

/-- A value that is handed out is that of the map. -/
theorem get (h : Mirrors log s map) (key : String) :
    ∃ s', get? key s = .ok (map.lookup key) s' ∧ Mirrors log s' map := by
  obtain ⟨found, s', hrun, hfollows, hentries, hfound, -⟩ :=
    (get?_ends h.coherent key).exists_ok fun _ _ hrefused => hrefused.2 h.writable
  -- No proxy is explicit, so all of them give their arrays.
  have hopened : s.memory.opened? log true = origin? log := by
    funext id
    rw [Memory.opened?, h.isExplicit, Bool.and_false, if_neg Bool.false_ne_true]
  rw [h.lookup_eq, ← hopened, ← hfound h.mode]
  exact ⟨s', hrun, h.of_entries_eq hfollows hentries⟩

/-- A plain operation succeeds, and does to the store what it does to the map. -/
theorem step (h : Mirrors log s map) {op : Op} (hplain : op.IsPlain) :
    ∃ s', op.run s = .ok () s' ∧ Mirrors (log ++ op.newArrays) s' (op.onMap map) := by
  -- Files can be written, so nothing is refused.
  have hrefused : ∀ {all : List DeviceArray} e t, ¬ Refused all s e t := fun _ _ hend =>
    hend.2 h.writable
  -- Most operations make no proxies, so the log stays as it is.
  have hnone : ∀ {t map'}, Mirrors log t map' → Mirrors (log ++ []) t map' := by
    intro t map' hmirrors
    rwa [List.append_nil]
  cases op with
  | insert key value =>
    obtain ⟨hproxies, hconsistent, haddressable⟩ := hplain
    obtain ⟨found, s', hrun, hfollows, ⟨value', hentries, hvalue⟩, -⟩ :=
      (insert_ends h.coherent key haddressable (by simp [hproxies])).exists_ok hrefused
    refine ⟨s', run_discard hrun, h.insert hfollows hentries ?_⟩
    rw [hvalue hconsistent, Value.resolve_of_proxies_eq_nil _ _ hproxies]
  | get key =>
    obtain ⟨s', hrun, hmirrors⟩ := h.get key
    exact ⟨s', run_discard hrun, hnone hmirrors⟩
  | remove key =>
    obtain ⟨found, s', hrun, hfollows, hentries⟩ :=
      (remove_ends h.coherent key).exists_ok fun _ _ => not_false
    exact ⟨s', run_discard hrun, hnone (h.erase hfollows hentries)⟩
  | letGo ids =>
    obtain ⟨_, s', hrun, hfollows, hentries⟩ :=
      (letGo_ends h.coherent ids).exists_ok fun _ _ => not_false
    exact ⟨s', hrun, hnone (h.of_entries_eq hfollows hentries)⟩
  | spillHundredth =>
    obtain ⟨freed, s', hrun, hfollows, hentries, -⟩ :=
      (spillHundredth_ends h.coherent).exists_ok hrefused
    exact ⟨s', run_discard hrun, hnone (h.of_entries_eq hfollows hentries)⟩
  | allocationFailed nbytes =>
    obtain ⟨again, s', hrun, hfollows, hentries⟩ :=
      (allocationFailed_ends h.coherent nbytes).exists_ok hrefused
    exact ⟨s', run_discard hrun, hnone (h.of_entries_eq hfollows hentries)⟩
  | setDirectory isPresent refused sharedFilesystem compression =>
    have hends := setDirectory_leads h.coherent isPresent refused sharedFilesystem compression
    obtain ⟨_, s', hrun, hleads⟩ := hends.exists_ok fun _ _ => not_false
    -- The values and the proxies are the same ones.
    refine ⟨s', hrun, hnone ⟨hleads.coherent, hleads.writable hplain h.writable,
      hleads.mode_eq.trans h.mode, ?_, ?_, ?_⟩⟩ <;> cases hrun
    · exact h.isExplicit
    · exact h.nodup
    · exact h.lookup_eq
  | adopt | wrapObject | hold | onMemory => exact absurd hplain not_false

theorem start (settings : Settings) (hmode : settings.compatibilityMode = true) {root : Path}
    {tag : String} {sharedFilesystem : Bool} {spill : SpillDirectory}
    (hspill : SpillDirectory.create root tag sharedFilesystem true = .ok spill)
    (accepts : Option Bool) :
    Mirrors [] (ofSettings DeviceArray settings spill accepts) ∅ := by
  have hrun : Run settings (fun _ _ => True) [] (ofSettings DeviceArray settings spill accepts) :=
    .start hspill
  cases hspill
  exact ⟨hrun.coherent, ⟨rfl, rfl⟩, hmode, fun _ => rfl, List.nodup_nil, fun _ => rfl⟩

/-- Operations of a plain caller, one after the other. -/
theorem foldl (h : Mirrors log s map) {ops : List Op} (hplain : ∀ op ∈ ops, op.IsPlain) :
    ∃ log', Mirrors log' (ops.foldl (fun s op => op.after s) s) (ops.foldl Op.onMap map) := by
  -- Every operation changes the store, the map and the log that the next one starts from.
  induction ops generalizing log s map with
  | nil => exact ⟨log, h⟩
  | cons op ops ih =>
    obtain ⟨s', hrun, hmirrors⟩ := h.step (hplain op List.mem_cons_self)
    have hafter : op.after s = s' := by rw [Op.after, hrun]
    rw [List.foldl_cons, List.foldl_cons, hafter]
    exact ih hmirrors fun op hop => hplain op (List.mem_cons_of_mem _ hop)

theorem contains_iff (h : Mirrors log s map) (key : String) :
    s.contains key = true ↔ key ∈ map := by
  rw [← Finmap.lookup_isSome, h.lookup_eq, Option.isSome_map]
  rfl

theorem mem_keys_iff (h : Mirrors log s map) (key : String) : key ∈ s.keys ↔ key ∈ map :=
  (Table.mem_keys_iff _ _).trans (h.contains_iff key)

theorem size_eq (h : Mirrors log s map) : s.entries.size = map.keys.card := by
  have hkeys : map.keys = s.keys.toFinset := by
    ext key
    rw [Finmap.mem_keys, List.mem_toFinset, h.mem_keys_iff]
  rw [hkeys]
  exact (List.length_map _).symm.trans (List.toFinset_card_of_nodup h.nodup).symm

end Mirrors

/-- Whatever the limits are and however files are written, a store that puts objects back is read as
a map is: a key gives the value that was stored under it last, with the same arrays in the same
places, the same keys are there, and no operation fails. -/
theorem reads_as_map (settings : Settings) (hmode : settings.compatibilityMode = true)
    {root : Path} {tag : String} {sharedFilesystem : Bool} {spill : SpillDirectory}
    (hspill : SpillDirectory.create root tag sharedFilesystem true = .ok spill)
    (accepts : Option Bool) (ops : List Op) (hplain : ∀ op ∈ ops, op.IsPlain) :
    let s := ops.foldl (fun s op => op.after s) (ofSettings DeviceArray settings spill accepts)
    let map := ops.foldl Op.onMap ∅
    (∀ key, ∃ s', get? key s = .ok (map.lookup key) s') ∧
      (∀ key, s.contains key = true ↔ key ∈ map) ∧
      s.keys.Nodup ∧ (∀ key, key ∈ s.keys ↔ key ∈ map) ∧
      s.entries.size = map.keys.card ∧
      ∀ op : Op, op.IsPlain → ∃ s', op.run s = .ok () s' := by
  intro s map
  obtain ⟨log, h⟩ := (Mirrors.start settings hmode hspill accepts).foldl hplain
  refine ⟨fun key => ?_, h.contains_iff, h.nodup, h.mem_keys_iff, h.size_eq, fun op hop => ?_⟩
  · obtain ⟨s', hrun, -⟩ := h.get key
    exact ⟨s', hrun⟩
  · obtain ⟨s', hrun, -⟩ := h.step hop
    exact ⟨s', hrun⟩

/-- No array fits on the device or on the host. -/
def tightSettings : Settings := { Settings.withLimits 3 3 with compatibilityMode := true }

/-- An empty store without room for arrays. -/
def tightStore : Store DeviceArray :=
  ofSettings DeviceArray tightSettings narrowStore.memory.spill none

/-- Two values are stored, and one is taken out again. -/
def storedTwice : List Op :=
  [.insert "key" (.list [.object smallArray, .int 3]), .insert "other" (.object smallArray),
    .spillHundredth, .allocationFailed 8, .remove "other"]

theorem isPlain_storedTwice : ∀ op ∈ storedTwice, op.IsPlain := by
  simp [storedTwice, Op.IsPlain, Value.Consistent, Value.proxies, Value.proxiesOf, Value.objects,
    Value.objectsOf, isAddressable_smallArray]

/-- The value that is left is read as it was, though there is no room for its array. -/
theorem reads_as_map_without_room :
    tightSettings.compatibilityMode = true ∧
      SpillDirectory.create ⟨"/tmp"⟩ "0" false true = .ok narrowStore.memory.spill ∧
      (∀ op ∈ storedTwice, op.IsPlain) ∧
      ∃ s', get? "key" (storedTwice.foldl (fun s op => op.after s) tightStore) =
        .ok (some (.list [.object smallArray, .int 3])) s' := by
  refine ⟨rfl, create_narrowStore, isPlain_storedTwice, ?_⟩
  obtain ⟨hget, -⟩ := reads_as_map tightSettings rfl create_narrowStore none storedTwice
    isPlain_storedTwice
  have hlookup : (storedTwice.foldl Op.onMap ∅).lookup "key" =
      some (Value.list [.object smallArray, .int 3]) := by
    show (((∅ : Finmap fun _ : String => Value DeviceArray).insert "key" _
      |>.insert "other" _).erase "other").lookup "key" = _
    rw [Finmap.lookup_erase_ne (by decide), Finmap.lookup_insert_of_ne _ (by decide),
      Finmap.lookup_insert]
  rw [← hlookup]
  exact hget "key"

end Store

end TieredStore
