import TieredStore.Proofs.Memory.Access

/-!
# Values are wrapped

Wrapping a value makes a proxy around the first object of each identity. The log of arrays grows by
these objects, in the order in which they stand in the value.

* `Walk.firstOf`: the objects that get a proxy of their own.
* `Walk.wrap_walked`: a value is wrapped in a coherent memory.
* `Walk.resolve_wrap`: with the objects put back, the wrapped value is the value again.
* `Memory.adopt_ends`: after that the proxies are tracked, and the limits enforced.
-/

namespace TieredStore

namespace Value

variable {T : Type}

mutual

/-- The objects in a value, from left to right. -/
def objects : Value T → List T
  | int _ => []
  | object o => [o]
  | proxy _ => []
  | list items => objectsOf items

/-- The objects in several values. -/
def objectsOf : List (Value T) → List T
  | [] => []
  | item :: items => objects item ++ objectsOf items

end

/-- Objects of one identity are the same object. -/
def Consistent [DeviceObject T] (v : Value T) : Prop :=
  Set.InjOn DeviceObject.identity {o | o ∈ v.objects}

end Value

namespace Memory

variable {log : List DeviceArray} {m m' m'' : Memory (Proxy DeviceArray)} {id : ProxyId}
  {a : DeviceArray}

/-- Every proxy still exists, none has lost its place, and no more of them are explicit. -/
structure Grows (m m' : Memory (Proxy DeviceArray)) : Prop extends Proceeds m m' where
  /-- The proxies still exist. -/
  isAlive : ∀ id, m.isAlive id = true → m'.isAlive id = true
  /-- No more proxies are explicit. -/
  isExplicit : ∀ id, m'.isExplicit id = true → m.isExplicit id = true

theorem Grows.refl (m : Memory (Proxy DeviceArray)) : Grows m m :=
  ⟨.refl m, fun _ hid => hid, fun _ hid => hid⟩

theorem Grows.trans (h : Grows m m') (h' : Grows m' m'') : Grows m m'' :=
  ⟨h.toProceeds.trans h'.toProceeds, fun id hid => h'.isAlive id (h.isAlive id hid),
    fun id hid => h.isExplicit id (h'.isExplicit id hid)⟩

theorem Advances.grows (h : Advances log m m') : Grows m m' :=
  ⟨h.toProceeds, fun id hid => (h.isAlive_eq id).trans hid,
    fun id hid => (h.isExplicit_eq id).symm.trans hid⟩

/-- What a proxy that exists was made around does not change when more proxies are made. -/
theorem Coherent.origin?_append_eq (h : Coherent log m) (halive : m.isAlive id = true)
    (more : List DeviceArray) : origin? (log ++ more) id = origin? log id := by
  obtain ⟨p, hfind⟩ := h.exists_object halive
  obtain ⟨a, horigin, -⟩ := h.exists_origin hfind
  rw [origin?_append horigin, horigin]

/-- A coherent memory with a proxy around one more array. -/
theorem Coherent.create (h : Coherent log m) (ha : a.IsAddressable)
    (make : Int → Proxy DeviceArray)
    (hmake : ∀ time, ∃ o, make time = .object o ∧ o.form = .live a) :
    Coherent (log ++ [a]) (m.create make).2 ∧ Proceeds m (m.create make).2 ∧
      ∀ id, (m.create make).2.isAlive id = true ↔
        id = (m.create make).1 ∨ m.isAlive id = true := by
  have hfind : ∀ other, other ≠ ⟨m.nextId⟩ →
      (m.create make).2.proxies.find? other = m.proxies.find? other :=
    fun other hother => (find?_create m make other).trans (if_neg hother)
  -- Only a proxy that existed before is tracked.
  have hold : ∀ {t other}, m.manager.Tracks t other → other ≠ ⟨m.nextId⟩ := by
    rintro t other htracks rfl
    obtain ⟨p, hp, -⟩ := h.attached htracks
    rw [h.find?_nextId] at hp
    cases hp
  refine ⟨⟨h.toSound.create ha make hmake, fun other => ?_⟩,
    ⟨⟨rfl, rfl, rfl, rfl, .refl _⟩, fun other hother => ?_, fun other hother p hp htier => ?_⟩,
    fun other => ?_⟩
  · refine (h.seated_or_stranded other).imp (fun hseated t p htracks hp => ?_) fun hstranded => ?_
    · exact hseated t p htracks ((hfind other (hold htracks)).symm.trans hp)
    · obtain ⟨htracks, p, hp, hhost⟩ := hstranded
      exact ⟨htracks, p, (hfind other (hold htracks)).trans hp, hhost⟩
  · obtain ⟨htracks, p, hp, hhost⟩ := hother
    exact ⟨htracks, p, (hfind other (hold htracks)).symm.trans hp, hhost⟩
  · -- The new proxy is live, and any other one is as it was.
    by_cases hnew : other = ⟨m.nextId⟩
    · obtain ⟨o, ho, hform⟩ := hmake (m.clock + 1)
      rw [find?_create, if_pos hnew, ho] at hp
      cases hp
      rw [hform] at htier
      exact absurd rfl htier
    · exact hother p ((hfind other hnew).symm.trans hp) htier
  · rw [isAlive, Memory.create, Table.contains_insert, Bool.or_eq_true, decide_eq_true_eq, isAlive]

end Memory

namespace Walk

/-- The first object of each identity, if the identity was not seen before. -/
def firstOf {T : Type} [DeviceObject T] (seen : UInt64 → Bool) : List T → List T
  | [] => []
  | o :: os =>
    if seen (DeviceObject.identity o) then firstOf seen os
    else o :: firstOf (fun key => DeviceObject.identity o == key || seen key) os

/-- What is first in a list is first in the front, or first in the rest and not in the front. -/
theorem firstOf_append {T : Type} [DeviceObject T] (seen : UInt64 → Bool) (xs ys : List T) :
    firstOf seen (xs ++ ys) = firstOf seen xs ++
      firstOf (fun key => xs.any (fun o => DeviceObject.identity o == key) || seen key) ys := by
  induction xs generalizing seen with
  | nil => simp [firstOf]
  | cons o xs ih =>
    rw [List.cons_append, firstOf, firstOf]
    split
    next hseen =>
      -- An identity that was seen before adds nothing to what has been seen.
      rw [ih]
      congr 2
      funext key
      rw [List.any_cons]
      by_cases hkey : DeviceObject.identity o = key
      · subst hkey
        simp [hseen]
      · rw [beq_false_of_ne hkey, Bool.false_or]
    next =>
      rw [ih, List.cons_append]
      congr 3
      funext key
      rw [List.any_cons, ← Bool.or_assoc, Bool.or_comm (xs.any _)]

variable {log : List DeviceArray} {w w' w'' : Walk DeviceArray} {id : ProxyId} {a : DeviceArray}

/-- The memory is coherent, and everything that was met exists. -/
structure Ready (log : List DeviceArray) (w : Walk DeviceArray) : Prop where
  /-- The memory is coherent. -/
  coherent : Memory.Coherent log w.memory
  /-- The proxies of the objects met so far have been found. -/
  seen : ∀ key id, w.seen.find? key = some id → id ∈ w.found
  /-- The proxies found so far exist. -/
  found : ∀ id ∈ w.found, w.memory.isAlive id = true

/-- Some objects have been walked over. -/
structure Walked (log : List DeviceArray) (w w' : Walk DeviceArray) (objects : List DeviceArray) :
    Prop where
  /-- The objects that were not seen before have got proxies. -/
  ready : Ready (log ++ firstOf w.seen.contains objects) w'
  /-- All objects have been seen now. -/
  seen_eq : ∀ key, w'.seen.contains key =
    (objects.any (fun o => DeviceObject.identity o == key) || w.seen.contains key)
  /-- What was found is still among what is found. -/
  found : w.found ⊆ w'.found
  /-- The memory has grown. -/
  grows : Memory.Grows w.memory w'.memory

/-- The objects that get proxies in two parts of a walk. -/
theorem Walked.firstOf_append {objects : List DeviceArray} (h : Walked log w w' objects)
    (more : List DeviceArray) :
    log ++ firstOf w.seen.contains (objects ++ more) =
      log ++ firstOf w.seen.contains objects ++ firstOf w'.seen.contains more := by
  have hseen : w'.seen.contains = fun key =>
      objects.any (fun o => DeviceObject.identity o == key) || w.seen.contains key :=
    funext h.seen_eq
  rw [hseen, List.append_assoc, ← Walk.firstOf_append]

theorem Walked.trans {objects more : List DeviceArray} (h : Walked log w w' objects)
    (h' : Walked (log ++ firstOf w.seen.contains objects) w' w'' more) :
    Walked log w w'' (objects ++ more) where
  ready := by
    rw [h.firstOf_append]
    exact h'.ready
  seen_eq key := by
    rw [h'.seen_eq, h.seen_eq, List.any_append, ← Bool.or_assoc, Bool.or_comm (more.any _)]
  found := List.Subset.trans h.found h'.found
  grows := h.grows.trans h'.grows

/-- Nothing was walked over that could get a proxy. -/
theorem Ready.walked_nil (h : Ready log w) : Walked log w w [] where
  ready := by
    rw [firstOf, List.append_nil]
    exact h
  seen_eq _ := rfl
  found := List.Subset.refl _
  grows := .refl _

/-- An object has a proxy once it was met, and that is among those that were found. -/
theorem proxyFor_walked (h : Ready log w) (ha : a.IsAddressable) :
    Walked log w ((proxyFor a).run w).2 [a] ∧
      ((proxyFor a).run w).1 ∈ ((proxyFor a).run w).2.found := by
  have hrun : (proxyFor a).run w = proxyFor a w := rfl
  rw [hrun, proxyFor]
  split
  next id hid =>
    -- An object of the same identity has a proxy already.
    have hseen : w.seen.contains (DeviceObject.identity a) = true := Table.contains_of_find? hid
    refine ⟨⟨?_, fun key => ?_, List.Subset.refl _, .refl _⟩, h.seen _ _ hid⟩
    · rw [firstOf, if_pos hseen, firstOf, List.append_nil]
      exact h
    · by_cases hkey : DeviceObject.identity a = key
      · subst hkey
        simp [hseen]
      · simp [beq_false_of_ne hkey]
  next hnone =>
    have hseen : w.seen.contains (DeviceObject.identity a) = false :=
      (Table.contains_eq_false_iff _ _).2 hnone
    obtain ⟨hcoherent, hproceeds, halive⟩ := h.coherent.create ha
      (fun time => .object (.ofObject a false time)) fun time => ⟨_, rfl, rfl⟩
    have hgrows : Memory.Grows w.memory
        (w.memory.create fun time => .object (.ofObject a false time)).2 := by
      refine ⟨hproceeds, fun id hid => (halive id).2 (.inr hid), fun id hid => ?_⟩
      -- The new proxy is not explicit.
      rw [Memory.isExplicit, Memory.find?_create] at hid
      split at hid
      · cases hid
      · exact hid
    refine ⟨⟨⟨?_, fun key id hid => ?_, fun id hid => ?_⟩, fun key => ?_,
      List.subset_cons_self _ _, hgrows⟩, List.mem_cons_self⟩
    · rw [firstOf, hseen, if_neg Bool.false_ne_true, firstOf]
      exact hcoherent
    · dsimp only at hid
      rw [Table.find?_insert] at hid
      split at hid
      · cases hid
        exact List.mem_cons_self
      · exact List.mem_cons_of_mem _ (h.seen key id hid)
    · rcases List.mem_cons.1 hid with rfl | hid
      · exact (halive _).2 (.inl rfl)
      · exact hgrows.isAlive id (h.found id hid)
    · dsimp only
      rw [Table.contains_insert, List.any_cons, List.any_nil, Bool.or_false]
      congr 1
      by_cases hkey : key = DeviceObject.identity a
      · simp [hkey]
      · simp [hkey, beq_false_of_ne (Ne.symm hkey)]

mutual

/-- A value is wrapped, and the proxies that are in it then are among those that were found. -/
theorem wrap_walked (v : Value DeviceArray) {log : List DeviceArray} {w : Walk DeviceArray}
    (h : Ready log w) (hobjects : ∀ a ∈ v.objects, a.IsAddressable)
    (halive : ∀ id ∈ v.proxies, w.memory.isAlive id = true) :
    Walked log w ((wrap v).run w).2 v.objects ∧
      ((wrap v).run w).1.proxies ⊆ ((wrap v).run w).2.found := by
  match v with
  | .int n => exact ⟨h.walked_nil, List.nil_subset _⟩
  | .object o =>
    obtain ⟨hwalked, hfound⟩ := proxyFor_walked h (hobjects o List.mem_cons_self)
    exact ⟨hwalked, List.cons_subset.2 ⟨hfound, List.nil_subset _⟩⟩
  | .proxy id =>
    have hready : Ready log { w with found := id :: w.found } := by
      refine ⟨h.coherent, fun key other hother => ?_, fun other hother => ?_⟩
      · exact List.mem_cons_of_mem _ (h.seen key other hother)
      · rcases List.mem_cons.1 hother with rfl | hother
        · exact halive other List.mem_cons_self
        · exact h.found other hother
    refine ⟨⟨?_, fun _ => rfl, List.subset_cons_self _ _, .refl _⟩,
      List.cons_subset.2 ⟨List.mem_cons_self, List.nil_subset _⟩⟩
    show Ready (log ++ firstOf _ []) _
    rw [firstOf, List.append_nil]
    exact hready
  | .list items => exact wrapItems_walked items h hobjects halive

theorem wrapItems_walked (items : List (Value DeviceArray)) {log : List DeviceArray}
    {w : Walk DeviceArray} (h : Ready log w)
    (hobjects : ∀ a ∈ Value.objectsOf items, a.IsAddressable)
    (halive : ∀ id ∈ Value.proxiesOf items, w.memory.isAlive id = true) :
    Walked log w ((wrapItems items).run w).2 (Value.objectsOf items) ∧
      Value.proxiesOf ((wrapItems items).run w).1 ⊆ ((wrapItems items).run w).2.found := by
  match items with
  | [] => exact ⟨h.walked_nil, List.nil_subset _⟩
  | item :: items =>
    obtain ⟨hwalked, hfound⟩ := wrap_walked item h
      (fun a ha => hobjects a (List.mem_append_left _ ha))
      (fun id hid => halive id (List.mem_append_left _ hid))
    obtain ⟨hwalked', hfound'⟩ := wrapItems_walked items hwalked.ready
      (fun a ha => hobjects a (List.mem_append_right _ ha))
      (fun id hid => hwalked.grows.isAlive id (halive id (List.mem_append_right _ hid)))
    exact ⟨hwalked.trans hwalked', List.append_subset.2
      ⟨List.Subset.trans hfound hwalked'.found, hfound'⟩⟩

end

/-! ### What a wrapped value stands for -/

/-- The proxies of the objects met so far were made around objects of these identities. -/
def Recalls (log : List DeviceArray) (w : Walk DeviceArray) (all : List DeviceArray) : Prop :=
  ∀ key id, w.seen.find? key = some id →
    ∃ a ∈ all, origin? log id = some a ∧ DeviceObject.identity a = key

/-- An object gets a proxy that was made around it, if objects of one identity are the same. -/
theorem origin?_proxyFor (h : Ready log w) {all : List DeviceArray}
    (hall : Set.InjOn DeviceObject.identity {a | a ∈ all}) (hrecalls : Recalls log w all)
    (ha : a ∈ all) :
    Recalls (log ++ firstOf w.seen.contains [a]) ((proxyFor a).run w).2 all ∧
      origin? (log ++ firstOf w.seen.contains [a]) ((proxyFor a).run w).1 = some a := by
  have hrun : (proxyFor a).run w = proxyFor a w := rfl
  rw [hrun, proxyFor]
  split
  next id hid =>
    obtain ⟨b, hb, horigin, hkey⟩ := hrecalls _ _ hid
    cases hall hb ha hkey
    rw [firstOf, if_pos (Table.contains_of_find? hid), firstOf, List.append_nil]
    exact ⟨hrecalls, horigin⟩
  next hnone =>
    have horigin : origin? (log ++ [a]) ⟨w.memory.nextId⟩ = some a := by
      rw [h.coherent.nextId_eq]
      exact origin?_length_succ log a
    rw [firstOf, (Table.contains_eq_false_iff _ _).2 hnone, if_neg Bool.false_ne_true, firstOf]
    refine ⟨fun key id hid => ?_, horigin⟩
    dsimp only at hid
    rw [Table.find?_insert] at hid
    split at hid
    next hkey =>
      cases hid
      exact ⟨a, ha, horigin, hkey.symm⟩
    next =>
      obtain ⟨b, hb, horigin, hkey⟩ := hrecalls _ _ hid
      exact ⟨b, hb, origin?_append horigin _, hkey⟩

mutual

/-- A wrapped value stands for the same as the value, if objects of one identity are the same. -/
theorem resolve_wrap (v : Value DeviceArray) {log : List DeviceArray} {w : Walk DeviceArray}
    (h : Ready log w) (hobjects : ∀ a ∈ v.objects, a.IsAddressable)
    (halive : ∀ id ∈ v.proxies, w.memory.isAlive id = true) {all : List DeviceArray}
    (hall : Set.InjOn DeviceObject.identity {a | a ∈ all}) (hrecalls : Recalls log w all)
    (hmem : v.objects ⊆ all) :
    Recalls (log ++ firstOf w.seen.contains v.objects) ((wrap v).run w).2 all ∧
      ((wrap v).run w).1.resolve (origin? (log ++ firstOf w.seen.contains v.objects)) =
        v.resolve (origin? log) := by
  match v with
  | .int n =>
    rw [Value.objects, firstOf, List.append_nil]
    exact ⟨hrecalls, rfl⟩
  | .object o =>
    obtain ⟨hrecalls', horigin⟩ := origin?_proxyFor h hall hrecalls (hmem List.mem_cons_self)
    refine ⟨hrecalls', ?_⟩
    show (Value.proxy ((proxyFor o).run w).1).resolve
      (origin? (log ++ firstOf w.seen.contains [o])) = .object o
    simp only [Value.resolve, horigin]
  | .proxy id =>
    rw [Value.objects, firstOf, List.append_nil]
    exact ⟨hrecalls, rfl⟩
  | .list items =>
    obtain ⟨hrecalls', hitems⟩ := resolveAll_wrapItems items h hobjects halive hall hrecalls hmem
    exact ⟨hrecalls', congrArg Value.list hitems⟩

theorem resolveAll_wrapItems (items : List (Value DeviceArray)) {log : List DeviceArray}
    {w : Walk DeviceArray} (h : Ready log w)
    (hobjects : ∀ a ∈ Value.objectsOf items, a.IsAddressable)
    (halive : ∀ id ∈ Value.proxiesOf items, w.memory.isAlive id = true) {all : List DeviceArray}
    (hall : Set.InjOn DeviceObject.identity {a | a ∈ all}) (hrecalls : Recalls log w all)
    (hmem : Value.objectsOf items ⊆ all) :
    Recalls (log ++ firstOf w.seen.contains (Value.objectsOf items)) ((wrapItems items).run w).2
        all ∧
      Value.resolveAll (origin? (log ++ firstOf w.seen.contains (Value.objectsOf items)))
        ((wrapItems items).run w).1 = Value.resolveAll (origin? log) items := by
  match items with
  | [] =>
    rw [Value.objectsOf, firstOf, List.append_nil]
    exact ⟨hrecalls, rfl⟩
  | item :: items =>
    have halive' := fun id hid => halive id (List.mem_append_right _ hid)
    obtain ⟨hwalked, hfound⟩ := wrap_walked item h
      (fun a ha => hobjects a (List.mem_append_left _ ha))
      (fun id hid => halive id (List.mem_append_left _ hid))
    obtain ⟨hrecalls', hitem⟩ := resolve_wrap item h
      (fun a ha => hobjects a (List.mem_append_left _ ha))
      (fun id hid => halive id (List.mem_append_left _ hid)) hall hrecalls
      (List.Subset.trans (List.subset_append_left _ _) hmem)
    obtain ⟨hrecalls'', hitems⟩ := resolveAll_wrapItems items hwalked.ready
      (fun a ha => hobjects a (List.mem_append_right _ ha))
      (fun id hid => hwalked.grows.isAlive id (halive' id hid)) hall hrecalls'
      (List.Subset.trans (List.subset_append_right _ _) hmem)
    rw [Value.objectsOf, hwalked.firstOf_append]
    refine ⟨hrecalls'', congrArg₂ List.cons ?_ ?_⟩
    · -- What the first part stands for is known already when the others are wrapped.
      refine (Value.resolve_congr _ fun id hid => ?_).trans hitem
      exact hwalked.ready.coherent.origin?_append_eq (hwalked.ready.found id (hfound hid)) _
    · refine hitems.trans (Value.resolveAll_congr _ fun id hid => ?_)
      exact h.coherent.origin?_append_eq (halive' id hid) _

end

end Walk

namespace Memory

variable {log : List DeviceArray} {m : Memory (Proxy DeviceArray)} {id : ProxyId}

/-- The arrays that get proxies when a value is wrapped. -/
def newArrays (value : Value DeviceArray) : List DeviceArray :=
  Walk.firstOf (fun _ => false) value.objects

/-- A value is wrapped. Its proxies and those that were found exist. -/
theorem wrap_ends (h : Coherent log m) {value : Value DeviceArray}
    (hobjects : ∀ a ∈ value.objects, a.IsAddressable)
    (halive : ∀ id ∈ value.proxies, m.isAlive id = true) :
    Ends (wrap value) m
      (fun r m' => Coherent (log ++ newArrays value) m' ∧ Grows m m' ∧
        r.1.proxies ⊆ r.2 ∧ (∀ id ∈ r.2, m'.isAlive id = true) ∧
        (value.Consistent →
          r.1.resolve (origin? (log ++ newArrays value)) = value.resolve (origin? log))) Never := by
  have hready : Walk.Ready log ⟨m, .empty, []⟩ := by
    refine ⟨h, fun key id hid => ?_, fun id hid => ?_⟩
    · rw [Table.find?_empty] at hid
      cases hid
    · cases hid
  obtain ⟨hwalked, hfound⟩ := Walk.wrap_walked value hready hobjects halive
  rw [wrap, Ends.modifyGet_iff]
  refine ⟨hwalked.ready.coherent, hwalked.grows, fun id hid => ?_, fun id hid => ?_, fun hall => ?_⟩
  · exact List.mem_reverse.2 (hfound hid)
  · exact hwalked.ready.found id (List.mem_reverse.1 hid)
  · -- No object has been met at the start.
    have hrecalls : Walk.Recalls log ⟨m, .empty, []⟩ value.objects := by
      intro key id hid
      rw [Table.find?_empty] at hid
      cases hid
    exact (Walk.resolve_wrap value hready hobjects halive hall hrecalls (List.Subset.refl _)).2

/-- A proxy that was found is tracked, where it is not tracked already. -/
theorem trackFound_ends (h : Coherent log m) (halive : m.isAlive id = true) (time : Int) :
    Ends (trackFound time id) m (fun _ m' => Advances log m m') Never := by
  obtain ⟨p, hfind⟩ := h.exists_object halive
  rw [trackFound, Ends.bind_iff]
  refine (touch_ends h hfind time).mono_ok ?_
  rintro - m' ⟨hadvances, hreformed⟩
  have hfind' := hreformed.find?_self
  obtain ⟨tier?, hlocate, -⟩ := Manager.exists_locate hadvances.coherent.exact id
  have hcontains : m'.manager.contains id = .ok tier?.isSome := by
    rw [Manager.contains, hlocate]
    rfl
  rw [Ends.bind_iff, ask_iff_of_ok hcontains]
  split
  next =>
    refine (attach_track_ends hadvances.coherent hfind').mono_ok ?_
    exact fun _ _ hadvances' => hadvances.trans hadvances'
  next => exact hadvances

/-- All proxies that were found are tracked. Tracking one touches no others, so all of them still
exist at each step. -/
theorem forM_trackFound_ends (h : Coherent log m) {found : List ProxyId}
    (hfound : ∀ id ∈ found, m.isAlive id = true) (time : Int) :
    Ends (found.forM (trackFound time)) m (fun _ m' => Advances log m m') Never := by
  refine Ends.forM (fun _ t => Advances log m t) found (fun _ id hid t ht => ?_) (.refl h)
  refine (trackFound_ends ht.coherent ((ht.isAlive_eq id).trans (hfound id hid)) time).mono_ok ?_
  exact fun _ u hu => ht.trans hu

/-- A value is adopted: its objects are wrapped, the proxies in it tracked, and the limits enforced.
If they cannot be, the proxies are there nonetheless. -/
theorem adopt_ends (h : Coherent log m) {value : Value DeviceArray}
    (hobjects : ∀ a ∈ value.objects, a.IsAddressable)
    (halive : ∀ id ∈ value.proxies, m.isAlive id = true) :
    Ends (adopt value) m
      (fun r m' => Coherent (log ++ newArrays value) m' ∧ Grows m m' ∧
        (∀ id ∈ r.1.proxies, m'.isAlive id = true) ∧
        (value.Consistent →
          r.1.resolve (origin? (log ++ newArrays value)) = value.resolve (origin? log)) ∧
        ∃ m₁, Coherent (log ++ newArrays value) m₁ ∧ Grows m m₁ ∧
          Enforced (log ++ newArrays value) 0 m₁ m')
      (fun _ m' => Coherent (log ++ newArrays value) m' ∧ Grows m m' ∧ ¬ m.spill.Writable) := by
  rw [adopt, Ends.bind_iff]
  refine (wrap_ends h hobjects halive).of_never ?_
  rintro ⟨value', found⟩ m₁ ⟨hcoherent, hgrows, hsubset, hfound, hresolve⟩
  dsimp only
  rw [Ends.bind_iff, now, Ends.modifyGet_iff, Ends.bind_iff]
  have htick := hcoherent.tick (m₁.clock + 1)
  refine (forM_trackFound_ends htick.coherent hfound _).of_never fun _ m₂ htracked => ?_
  have hadvances := htick.trans htracked
  rw [Ends.bind_iff]
  refine (enforceLimits_ends hadvances.coherent 0).mono ?_ ?_
  · intro _ m₃ hlimits
    have hadvances' := hadvances.trans (hlimits.advances hadvances.coherent)
    exact ⟨hadvances'.coherent, hgrows.trans hadvances'.grows,
      fun id hid => hadvances'.grows.isAlive id (hfound id (hsubset hid)), hresolve,
      m₂, hadvances.coherent, hgrows.trans hadvances.grows, hlimits⟩
  · rintro e m₃ ⟨hadvances', hwritable⟩
    have hgrows' := hgrows.trans hadvances.grows
    exact ⟨hadvances'.coherent, hgrows'.trans hadvances'.grows,
      fun hold => hwritable (hgrows'.writable_iff.2 hold)⟩

end Memory

end TieredStore
