import TieredStore.Proofs.Memory.Enlisting

/-!
# What a walk makes of a value

A walk over a value puts proxies in the place of its objects and leaves everything else. Objects of
one identity share a proxy, at whatever depth they stand, and every proxy that is made is found
once.

* `Value.withProxies`: a value with proxies in the place of its objects.
* `Walk.Remembers`: what is known of the objects that were met, after each step of a walk.
* `Walk.wrap_covers`: the proxies of a wrapped value, and those that were found.
* `Memory.Wrapped`, `Memory.wrap_eq`: what wrapping a value comes to.
-/

namespace TieredStore

namespace Value

variable {T : Type} {proxyOf other : T → ProxyId}

mutual

/-- A value with proxies in the place of its objects. -/
def withProxies (proxyOf : T → ProxyId) : Value T → Value T
  | int n => int n
  | object o => proxy (proxyOf o)
  | proxy id => proxy id
  | list items => list (allWithProxies proxyOf items)

/-- Values with proxies in the place of their objects. -/
def allWithProxies (proxyOf : T → ProxyId) : List (Value T) → List (Value T)
  | [] => []
  | item :: items => withProxies proxyOf item :: allWithProxies proxyOf items

end

mutual

/-- Only the proxies of the objects in a value matter. -/
theorem withProxies_congr (v : Value T) (h : ∀ o ∈ v.objects, proxyOf o = other o) :
    v.withProxies proxyOf = v.withProxies other :=
  match v with
  | int _ | proxy _ => rfl
  | object o => congrArg proxy (h o List.mem_cons_self)
  | list items => congrArg list (allWithProxies_congr items h)

theorem allWithProxies_congr (items : List (Value T))
    (h : ∀ o ∈ objectsOf items, proxyOf o = other o) :
    allWithProxies proxyOf items = allWithProxies other items :=
  match items with
  | [] => rfl
  | item :: items => congrArg₂ List.cons
    (withProxies_congr item fun o ho => h o (List.mem_append_left _ ho))
    (allWithProxies_congr items fun o ho => h o (List.mem_append_right _ ho))

end

mutual

/-- The proxies in such a value are those that were in it and those of its objects. -/
theorem mem_proxies_withProxies_iff (v : Value T) (id : ProxyId) :
    id ∈ (v.withProxies proxyOf).proxies ↔
      id ∈ v.proxies ∨ ∃ o ∈ v.objects, proxyOf o = id := by
  match v with
  | int n => simp [withProxies, proxies, objects]
  | object o => simp [withProxies, proxies, objects, eq_comm]
  | proxy other => simp [withProxies, proxies, objects]
  | list items => exact mem_proxiesOf_allWithProxies_iff items id

theorem mem_proxiesOf_allWithProxies_iff (items : List (Value T)) (id : ProxyId) :
    id ∈ proxiesOf (allWithProxies proxyOf items) ↔
      id ∈ proxiesOf items ∨ ∃ o ∈ objectsOf items, proxyOf o = id := by
  match items with
  | [] => simp [allWithProxies, proxiesOf, objectsOf]
  | item :: items =>
    have hitem := mem_proxies_withProxies_iff item id
    have hitems := mem_proxiesOf_allWithProxies_iff items id
    simp only [allWithProxies, proxiesOf, objectsOf, List.mem_append, hitem, hitems, or_and_right,
      exists_or]
    exact or_or_or_comm

end

mutual

/-- No objects are left. -/
theorem objects_withProxies (proxyOf : T → ProxyId) (v : Value T) :
    (v.withProxies proxyOf).objects = [] :=
  match v with
  | int _ | object _ | proxy _ => rfl
  | list items => objectsOf_allWithProxies proxyOf items

theorem objectsOf_allWithProxies (proxyOf : T → ProxyId) (items : List (Value T)) :
    objectsOf (allWithProxies proxyOf items) = [] := by
  match items with
  | [] => rfl
  | item :: items =>
    rw [allWithProxies, objectsOf, objects_withProxies, objectsOf_allWithProxies, List.nil_append]

end

mutual

/-- Where the proxies of the objects stand for these, the value stands for what it stood for. -/
theorem resolve_withProxies {lookup : ProxyId → Option T} (v : Value T)
    (h : ∀ o ∈ v.objects, lookup (proxyOf o) = some o) :
    (v.withProxies proxyOf).resolve lookup = v.resolve lookup :=
  match v with
  | int _ | proxy _ => rfl
  | object o => by simp [withProxies, resolve, h o List.mem_cons_self]
  | list items => congrArg list (resolveAll_allWithProxies items h)

theorem resolveAll_allWithProxies {lookup : ProxyId → Option T} (items : List (Value T))
    (h : ∀ o ∈ objectsOf items, lookup (proxyOf o) = some o) :
    resolveAll lookup (allWithProxies proxyOf items) = resolveAll lookup items :=
  match items with
  | [] => rfl
  | item :: items => congrArg₂ List.cons
    (resolve_withProxies item fun o ho => h o (List.mem_append_left _ ho))
    (resolveAll_allWithProxies items fun o ho => h o (List.mem_append_right _ ho))

end

end Value

namespace Walk

/-! ### Values without objects -/

section

variable {T : Type} [DeviceObject T]

mutual

/-- A walk over a value without objects finds the proxies in it and leaves the value as it is. -/
theorem wrap_of_objects_eq_nil (v : Value T) (h : v.objects = []) (w : Walk T) :
    (wrap v).run w = (v, { w with found := v.proxies.reverse ++ w.found }) := by
  match v with
  | .int n => rfl
  | .object o => cases h
  | .proxy id => rfl
  | .list items =>
    have hitems := wrapItems_of_objectsOf_eq_nil items h w
    show ((Value.list ((wrapItems items).run w).1), ((wrapItems items).run w).2) = _
    rw [hitems]
    rfl

theorem wrapItems_of_objectsOf_eq_nil (items : List (Value T)) (h : Value.objectsOf items = [])
    (w : Walk T) :
    (wrapItems items).run w =
      (items, { w with found := (Value.proxiesOf items).reverse ++ w.found }) := by
  match items with
  | [] => rfl
  | item :: items =>
    obtain ⟨hfirst, hrest⟩ := List.append_eq_nil_iff.1 h
    have hitem := wrap_of_objects_eq_nil item hfirst w
    have hitems := wrapItems_of_objectsOf_eq_nil items hrest ((wrap item).run w).2
    show (((wrap item).run w).1 :: ((wrapItems items).run ((wrap item).run w).2).1,
      ((wrapItems items).run ((wrap item).run w).2).2) = _
    rw [hitems, hitem, Value.proxiesOf, List.reverse_append, List.append_assoc]

end

end

/-! ### Objects that were met -/

variable {m : Memory (Proxy DeviceArray)} {all : List DeviceArray} {w w' w'' : Walk DeviceArray}
  {a : DeviceArray} {id : ProxyId} {key : UInt64}

/-- The proxy of an object that was met. -/
def proxyOf (w : Walk DeviceArray) (a : DeviceArray) : ProxyId :=
  (w.seen.find? (DeviceObject.identity a)).getD ⟨0⟩

/-- What has been met since the memory was `m` has a proxy of its own, which is new and live, and
which has been found once. -/
structure Remembers (m : Memory (Proxy DeviceArray)) (all : List DeviceArray)
    (w : Walk DeviceArray) : Prop where
  /-- Only proxies are made. -/
  memory_eq : w.memory =
    { m with clock := w.memory.clock, nextId := w.memory.nextId, proxies := w.memory.proxies }
  /-- Numbers are given out in order. -/
  nextId_le : m.nextId ≤ w.memory.nextId
  /-- What was found has a number that was given out. -/
  found_lt : ∀ id ∈ w.found, id.raw < w.memory.nextId
  /-- An identity that was met has a new proxy of one of its objects, which is not attached. -/
  made : ∀ {key id}, w.seen.find? key = some id → m.nextId ≤ id.raw ∧
    ∃ o ∈ all, DeviceObject.identity o = key ∧
      ∃ time, w.memory.proxies.find? id = some (.object (.ofObject o false time))
  /-- No two identities share a proxy. -/
  unique : ∀ {key other id}, w.seen.find? key = some id → w.seen.find? other = some id → key = other
  /-- Each of these proxies has been found once. -/
  once : ∀ {key id}, w.seen.find? key = some id → w.found.count id = 1

/-- What was remembered still is. -/
def Extends (w w' : Walk DeviceArray) : Prop :=
  ∀ key id, w.seen.find? key = some id → w'.seen.find? key = some id

theorem Extends.refl (w : Walk DeviceArray) : Extends w w := fun _ _ => id

theorem Extends.trans (h : Extends w w') (h' : Extends w' w'') : Extends w w'' :=
  fun key id hid => h' key id (h key id hid)

/-- An object keeps its proxy. -/
theorem Extends.proxyOf_eq (h : Extends w w')
    (hseen : w.seen.contains (DeviceObject.identity a) = true) : w'.proxyOf a = w.proxyOf a := by
  obtain ⟨id, hid⟩ := (Table.contains_iff _ _).1 hseen
  rw [proxyOf, proxyOf, hid, h _ _ hid]

theorem Extends.contains (h : Extends w w') (hseen : w.seen.contains key = true) :
    w'.seen.contains key = true := by
  obtain ⟨id, hid⟩ := (Table.contains_iff _ _).1 hseen
  exact Table.contains_of_find? (h _ _ hid)

theorem Remembers.mem_found (h : Remembers m all w) (hid : w.seen.find? key = some id) :
    id ∈ w.found := by
  apply List.count_pos_iff.1
  rw [h.once hid]
  exact Nat.one_pos

/-- What is known once an object was met: it has a proxy, which is found if it was not before. -/
theorem proxyFor_remembers (h : Remembers m all w) (ha : a ∈ all) :
    Remembers m all ((proxyFor a).run w).2 ∧ Extends w ((proxyFor a).run w).2 ∧
      ((proxyFor a).run w).2.seen.find? (DeviceObject.identity a) = some ((proxyFor a).run w).1 ∧
      ∀ id, id ∈ ((proxyFor a).run w).2.found ↔ id ∈ w.found ∨ id = ((proxyFor a).run w).1 := by
  have hrun : (proxyFor a).run w = proxyFor a w := rfl
  rw [hrun, proxyFor]
  split
  next id hid =>
    refine ⟨h, .refl w, hid, fun other => ?_⟩
    have hfound := h.mem_found hid
    constructor
    · exact .inl
    · rintro (hother | rfl)
      · exact hother
      · exact hfound
  next hnone =>
    have hfind := Memory.find?_create w.memory fun time => .object (.ofObject a false time)
    -- Whatever was met before has a number that was given out, so the new proxy is none of these.
    have hold : ∀ {key id}, w.seen.find? key = some id → id ≠ ⟨w.memory.nextId⟩ := by
      rintro key _ hid rfl
      exact Nat.lt_irrefl _ (h.found_lt _ (h.mem_found hid))
    have hseen : ∀ {key id},
        (w.seen.insert (DeviceObject.identity a) ⟨w.memory.nextId⟩).find? key = some id →
          key = DeviceObject.identity a ∧ id = ⟨w.memory.nextId⟩ ∨ w.seen.find? key = some id := by
      intro key id hid
      rw [Table.find?_insert] at hid
      split at hid
      next hkey => exact .inl ⟨hkey, (Option.some.inj hid).symm⟩
      next => exact .inr hid
    have hnew : w.found.count (⟨w.memory.nextId⟩ : ProxyId) = 0 :=
      List.count_eq_zero.2 fun hmem => Nat.lt_irrefl _ (h.found_lt _ hmem)
    have hmemory := h.memory_eq
    refine ⟨⟨?_, h.nextId_le.trans (Nat.le_succ _), fun id hid => ?_, fun {key id} hid => ?_,
      fun {key other id} hid hother => ?_, fun {key id} hid => ?_⟩, fun key id hid => ?_,
      Table.find?_insert_self _ _ _, fun id => ?_⟩
    · rw [hmemory]
      rfl
    · show id.raw < w.memory.nextId + 1
      rcases List.mem_cons.1 hid with rfl | hid
      · exact Nat.lt_succ_self _
      · exact Nat.lt_succ_of_lt (h.found_lt id hid)
    · rcases hseen hid with ⟨rfl, rfl⟩ | hid
      · exact ⟨h.nextId_le, a, ha, rfl, _, (hfind _).trans (if_pos rfl)⟩
      · obtain ⟨hle, o, ho, hkey, time, hp⟩ := h.made hid
        exact ⟨hle, o, ho, hkey, time, ((hfind id).trans (if_neg (hold hid))).trans hp⟩
    · rcases hseen hid with ⟨rfl, rfl⟩ | hid
      · rcases hseen hother with ⟨rfl, -⟩ | hother
        · rfl
        · exact absurd rfl (hold hother)
      · rcases hseen hother with ⟨rfl, rfl⟩ | hother
        · exact absurd rfl (hold hid)
        · exact h.unique hid hother
    · rcases hseen hid with ⟨rfl, rfl⟩ | hid
      · exact (List.count_cons_self).trans (by rw [hnew])
      · exact (List.count_cons_of_ne (hold hid).symm).trans (h.once hid)
    · refine (Table.find?_insert_of_ne _ _ ?_).trans hid
      rintro rfl
      rw [hnone] at hid
      cases hid
    · exact List.mem_cons.trans or_comm

/-- A walk has met some objects on its way from `w` to `w'`, and has found what is in some list. -/
structure Covers (m : Memory (Proxy DeviceArray)) (all : List DeviceArray) (w w' : Walk DeviceArray)
    (objects : List DeviceArray) (found : List ProxyId) : Prop where
  /-- What was met has proxies. -/
  remembers : Remembers m all w'
  /-- What was met before keeps its proxy. -/
  widens : Extends w w'
  /-- All objects have been met. -/
  contains : ∀ o ∈ objects, w'.seen.contains (DeviceObject.identity o) = true
  /-- What was found before is still found. -/
  mem_found_iff : ∀ id, id ∈ w'.found ↔ id ∈ w.found ∨ id ∈ found

theorem Remembers.covers_nil (h : Remembers m all w) : Covers m all w w [] [] where
  remembers := h
  widens := .refl w
  contains _ ho := by cases ho
  mem_found_iff id := by simp

theorem Covers.trans {objects more : List DeviceArray} {found others : List ProxyId}
    (h : Covers m all w w' objects found) (h' : Covers m all w' w'' more others) :
    Covers m all w w'' (objects ++ more) (found ++ others) where
  remembers := h'.remembers
  widens := h.widens.trans h'.widens
  contains o ho := by
    rcases List.mem_append.1 ho with ho | ho
    · exact h'.widens.contains (h.contains o ho)
    · exact h'.contains o ho
  mem_found_iff id := by
    rw [h'.mem_found_iff, h.mem_found_iff, List.mem_append, or_assoc]

mutual

/-- A walk over a value leaves the value with the proxies of the objects that were met, and finds
all proxies that are in it then. -/
theorem wrap_covers (v : Value DeviceArray) {w : Walk DeviceArray} (h : Remembers m all w)
    (hobjects : v.objects ⊆ all) (hold : ∀ id ∈ v.proxies, id.raw < m.nextId) :
    ((wrap v).run w).1 = v.withProxies ((wrap v).run w).2.proxyOf ∧
      Covers m all w ((wrap v).run w).2 v.objects ((wrap v).run w).1.proxies := by
  match v with
  | .int n => exact ⟨rfl, h.covers_nil⟩
  | .object o =>
    obtain ⟨hremembers, hextends, hseen, hfound⟩ :=
      proxyFor_remembers h (hobjects List.mem_cons_self)
    have hproxy : ((proxyFor o).run w).2.proxyOf o = ((proxyFor o).run w).1 := by
      rw [proxyOf, hseen, Option.getD_some]
    refine ⟨congrArg Value.proxy hproxy.symm, hremembers, hextends, fun b hb => ?_, fun id => ?_⟩
    · rw [List.mem_singleton.1 hb]
      exact Table.contains_of_find? hseen
    · exact (hfound id).trans (or_congr_right List.mem_singleton.symm)
  | .proxy id =>
    have hlt : id.raw < m.nextId := hold id List.mem_cons_self
    -- A proxy that was there before is none of those that were made.
    have hother : ∀ {key other}, w.seen.find? key = some other → other ≠ id := by
      rintro key _ hkey rfl
      exact Nat.not_lt.2 (h.made hkey).1 hlt
    refine ⟨rfl, ⟨h.memory_eq, h.nextId_le, fun other hmem => ?_, h.made, h.unique,
      fun {key other} hkey => ?_⟩, .refl w, fun _ ho => (by cases ho), fun other => ?_⟩
    · rcases List.mem_cons.1 hmem with rfl | hmem
      · exact hlt.trans_le h.nextId_le
      · exact h.found_lt other hmem
    · exact (List.count_cons_of_ne (hother hkey).symm).trans (h.once hkey)
    · exact List.mem_cons.trans (or_comm.trans (or_congr_right List.mem_singleton.symm))
  | .list items =>
    obtain ⟨hitems, hcovers⟩ := wrapItems_covers items h hobjects hold
    exact ⟨congrArg Value.list hitems, hcovers⟩

theorem wrapItems_covers (items : List (Value DeviceArray)) {w : Walk DeviceArray}
    (h : Remembers m all w) (hobjects : Value.objectsOf items ⊆ all)
    (hold : ∀ id ∈ Value.proxiesOf items, id.raw < m.nextId) :
    ((wrapItems items).run w).1 = Value.allWithProxies ((wrapItems items).run w).2.proxyOf items ∧
      Covers m all w ((wrapItems items).run w).2 (Value.objectsOf items)
        (Value.proxiesOf ((wrapItems items).run w).1) := by
  match items with
  | [] => exact ⟨rfl, h.covers_nil⟩
  | item :: items =>
    obtain ⟨hitem, hcovers⟩ := wrap_covers item h
      (fun o ho => hobjects (List.mem_append_left _ ho))
      (fun id hid => hold id (List.mem_append_left _ hid))
    obtain ⟨hitems, hcovers'⟩ := wrapItems_covers items hcovers.remembers
      (fun o ho => hobjects (List.mem_append_right _ ho))
      (fun id hid => hold id (List.mem_append_right _ hid))
    refine ⟨congrArg₂ List.cons (hitem.trans ?_) hitems, hcovers.trans hcovers'⟩
    -- The objects of the first part keep their proxies while the others are met.
    exact Value.withProxies_congr item fun o ho =>
      (hcovers'.widens.proxyOf_eq (hcovers.contains o ho)).symm

end

end Walk

namespace Memory

variable {m m₁ : Memory (Proxy DeviceArray)} {v : Value DeviceArray}
  {proxyOf : DeviceArray → ProxyId} {found : List ProxyId} {id : ProxyId}

/-- The objects of a value have got proxies, and the proxies that are in the value then were found.
-/
structure Wrapped (m m₁ : Memory (Proxy DeviceArray)) (v : Value DeviceArray)
    (proxyOf : DeviceArray → ProxyId) (found : List ProxyId) : Prop where
  /-- Only proxies have been made. -/
  memory_eq : m₁ = { m with clock := m₁.clock, nextId := m₁.nextId, proxies := m₁.proxies }
  /-- The next numbers have not been given out. -/
  fresh : m₁.Fresh
  /-- Objects share a proxy if they have one identity. -/
  proxyOf_eq_iff : ∀ a ∈ v.objects, ∀ b ∈ v.objects,
    proxyOf a = proxyOf b ↔ DeviceObject.identity a = DeviceObject.identity b
  /-- The proxy of an object is new. -/
  find?_before : ∀ a ∈ v.objects, m.proxies.find? (proxyOf a) = none
  /-- It is a live proxy of an object of that identity, neither explicit nor attached. -/
  find?_new : ∀ a ∈ v.objects, ∃ o ∈ v.objects, DeviceObject.identity o = DeviceObject.identity a ∧
    ∃ time, m₁.proxies.find? (proxyOf a) = some (.object (.ofObject o false time))
  /-- All others are as they were, and there are no others. -/
  find?_old : ∀ id, (∀ a ∈ v.objects, proxyOf a ≠ id) →
    m₁.proxies.find? id = m.proxies.find? id
  /-- The proxies that are in the value were found. -/
  mem_found_iff : ∀ id, id ∈ found ↔ id ∈ (v.withProxies proxyOf).proxies
  /-- The new ones were found once. -/
  count_new : ∀ a ∈ v.objects, found.count (proxyOf a) = 1

namespace Wrapped

theorem manager_eq (h : Wrapped m m₁ v proxyOf found) : m₁.manager = m.manager := by
  rw [h.memory_eq]

theorem spill_eq (h : Wrapped m m₁ v proxyOf found) : m₁.spill = m.spill := by
  rw [h.memory_eq]

/-- A proxy that existed before is none of those that are made. -/
theorem proxyOf_ne (h : Wrapped m m₁ v proxyOf found) {r : Proxy DeviceArray}
    (hfind : m.proxies.find? id = some r) : ∀ a ∈ v.objects, proxyOf a ≠ id := by
  rintro a ha rfl
  rw [h.find?_before a ha] at hfind
  cases hfind

/-- It stays as it is. -/
theorem find?_eq (h : Wrapped m m₁ v proxyOf found) {r : Proxy DeviceArray}
    (hfind : m.proxies.find? id = some r) : m₁.proxies.find? id = some r :=
  (h.find?_old id (h.proxyOf_ne hfind)).trans hfind

end Wrapped

theorem Fresh.lt_of_find? (h : m.Fresh) {p : Proxy DeviceArray}
    (hfind : m.proxies.find? id = some p) : id.raw < m.nextId := by
  by_contra hle
  rw [h id (Nat.not_lt.1 hle)] at hfind
  cases hfind

/-- Wrapping a value gives it new proxies in the place of its objects, one for each identity, and
finds all proxies that are in it then. -/
theorem wrap_eq (h : m.Fresh) (v : Value DeviceArray)
    (halive : ∀ id ∈ v.proxies, m.isAlive id = true) :
    ∃ proxyOf found m₁, wrap v m = .ok (v.withProxies proxyOf, found) m₁ ∧
      Wrapped m m₁ v proxyOf found := by
  have hold : ∀ id ∈ v.proxies, id.raw < m.nextId := by
    intro id hid
    obtain ⟨p, hp⟩ := (Table.contains_iff _ _).1 (halive id hid)
    exact h.lt_of_find? hp
  -- Nothing has been met at first.
  have hstart : Walk.Remembers m v.objects ⟨m, .empty, []⟩ := by
    refine ⟨rfl, Nat.le_refl _, fun id hid => (by cases hid), fun {key id} hid => ?_,
      fun {key other id} hid => ?_, fun {key id} hid => ?_⟩ <;>
    · rw [Table.find?_empty] at hid
      cases hid
  obtain ⟨hvalue, hcovers⟩ := Walk.wrap_covers v hstart (List.Subset.refl _) hold
  obtain ⟨hpasses, -⟩ := Walk.wrap_passes v (w := ⟨m, .empty, []⟩) h
  have hremembers := hcovers.remembers
  generalize hw : ((Walk.wrap v).run ⟨m, .empty, []⟩).2 = w at hvalue hcovers hpasses hremembers
  have hrun : wrap v m = .ok (v.withProxies w.proxyOf, w.found.reverse) w.memory := by
    rw [← hvalue, ← hw]
    rfl
  -- Every object was met, so it has one of the proxies that were made.
  have hseen : ∀ a ∈ v.objects, w.seen.find? (DeviceObject.identity a) = some (w.proxyOf a) := by
    intro a ha
    obtain ⟨id, hid⟩ := (Table.contains_iff _ _).1 (hcovers.contains a ha)
    rw [Walk.proxyOf, hid, Option.getD_some]
  have hfound : ∀ id, id ∈ w.found ↔ id ∈ (v.withProxies w.proxyOf).proxies := by
    intro id
    rw [← hvalue, hcovers.mem_found_iff]
    simp
  refine ⟨w.proxyOf, w.found.reverse, w.memory, hrun, hremembers.memory_eq, hpasses.fresh,
    fun a ha b hb => ⟨fun hsame => ?_, fun hsame => ?_⟩, fun a ha => ?_, fun a ha => ?_,
    fun id hother => ?_, fun id => ?_, fun a ha => ?_⟩
  · exact hremembers.unique (hseen a ha) (hsame ▸ hseen b hb)
  · rw [Walk.proxyOf, Walk.proxyOf, hsame]
  · exact h _ (hremembers.made (hseen a ha)).1
  · exact (hremembers.made (hseen a ha)).2
  · by_cases hbefore : id.raw < m.nextId
    · exact hpasses.find?_old id hbefore
    · have hbefore := Nat.not_lt.1 hbefore
      rw [h id hbefore]
      by_cases hmade : id.raw < w.memory.nextId
      · -- It would have been found, and then it would be that of an object.
        have hmem := (hpasses.mem_found_iff id).2 (.inr (.inr ⟨hbefore, hmade⟩))
        rw [hfound, Value.mem_proxies_withProxies_iff] at hmem
        rcases hmem with hmem | ⟨a, ha, rfl⟩
        · exact absurd (hold id hmem) (Nat.not_lt.2 hbefore)
        · exact absurd rfl (hother a ha)
      · exact hpasses.fresh id (Nat.not_lt.1 hmade)
  · rw [List.mem_reverse, hfound]
  · rw [List.count_reverse]
    exact hremembers.once (hseen a ha)

/-- Wrapping a value without objects changes nothing. -/
theorem wrap_eq_self (v : Value DeviceArray) (hnone : v.objects = [])
    (m : Memory (Proxy DeviceArray)) : wrap v m = .ok (v, v.proxies) m := by
  have hrun := Walk.wrap_of_objects_eq_nil v hnone ⟨m, .empty, []⟩
  have hwrap : wrap v m = .ok (((Walk.wrap v).run ⟨m, .empty, []⟩).1,
      ((Walk.wrap v).run ⟨m, .empty, []⟩).2.found.reverse)
      ((Walk.wrap v).run ⟨m, .empty, []⟩).2.memory := rfl
  rw [hwrap, hrun]
  simp

end Memory

end TieredStore
