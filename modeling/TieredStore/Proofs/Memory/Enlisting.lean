import TieredStore.Proofs.Memory.Lasting
import TieredStore.Proofs.Memory.Operations
import TieredStore.Proofs.Memory.Wrapping

/-!
# Who is tracked

Moving proxies between the tiers leaves the same ones tracked: none of them stops being tracked, and
none starts to be, since only attached proxies are tracked and none is attached on the way. Proxies
start to be tracked where they are found in a value.

* `Memory.Enlists`, `lasting_enlists`: who has been attached and tracked since some moment.
* `Walk.Passes`, `Walk.wrap_passes`: what is found in a value.
* `adopt_enlists`: what is found is attached and tracked, whether or not the limits can be enforced.
-/

namespace TieredStore

namespace Memory

variable {log : List DeviceArray} {m m' t : Memory (Proxy DeviceArray)} {id : ProxyId}
  {p q : Proxy DeviceArray}

/-- A proxy is tracked in some tier. -/
def IsTracked (m : Memory (Proxy DeviceArray)) (id : ProxyId) : Prop :=
  ∃ tier, m.manager.Tracks tier id

/-- The same proxies exist. Some of them have been attached and tracked, whether or not they were
before, and otherwise the same are attached, and tracked ones still are. -/
structure Enlists (m t : Memory (Proxy DeviceArray)) (ids : List ProxyId) : Prop where
  /-- The books are exact. -/
  exact : t.manager.Exact
  /-- The same proxies exist. -/
  isAlive_eq : ∀ id, t.isAlive id = m.isAlive id
  /-- No other proxies have been attached, and none detached. -/
  isAttached_iff : ∀ id, t.IsAttached id ↔ m.IsAttached id ∨ id ∈ ids
  /-- No proxy has been struck from the books. -/
  isTracked : ∀ id, m.IsTracked id ∨ id ∈ ids → t.IsTracked id

variable {ids : List ProxyId}

theorem Enlists.refl (h : m.manager.Exact) : Enlists m m [] :=
  ⟨h, fun _ => rfl, fun _ => by simp, fun _ => by simp⟩

theorem isAttached_congr (hfind : t.proxies.find? id = m.proxies.find? id) :
    t.IsAttached id ↔ m.IsAttached id := by
  rw [IsAttached, IsAttached, hfind]

/-- What an update of one proxy does to the question who is attached. -/
theorem isAttached_insert (t : Memory (Proxy DeviceArray)) (id other : ProxyId)
    (q : Proxy DeviceArray) (spill : SpillDirectory) :
    IsAttached { t with proxies := t.proxies.insert id q, spill } other ↔
      if other = id then Spillable.isAttached q = true else t.IsAttached other := by
  rw [IsAttached, Table.find?_insert]
  split
  · simp
  · rfl

theorem isAlive_insert (t : Memory (Proxy DeviceArray)) (hfind : t.proxies.find? id = some p)
    (other : ProxyId) (q : Proxy DeviceArray) (spill : SpillDirectory) :
    isAlive { t with proxies := t.proxies.insert id q, spill } other = t.isAlive other := by
  rw [isAlive, isAlive, Table.contains_insert]
  by_cases hother : other = id
  · simp [hother, Table.contains_of_find? hfind]
  · simp [hother]

/-- A proxy changes in other respects than being attached, and the files with it. -/
theorem Enlists.update (h : Enlists m t ids) (hfind : t.proxies.find? id = some p)
    (hattached : Spillable.isAttached q = Spillable.isAttached p) (spill : SpillDirectory) :
    Enlists m { t with proxies := t.proxies.insert id q, spill } ids where
  exact := h.exact
  isAlive_eq other := (isAlive_insert t hfind other q spill).trans (h.isAlive_eq other)
  isAttached_iff other := by
    rw [isAttached_insert, ← h.isAttached_iff]
    split
    next hother =>
      rw [hother, IsAttached, hfind]
      simp [hattached]
    next => rfl
  isTracked := h.isTracked

/-- Time may pass and files may come and go. -/
theorem Enlists.elsewhere (h : Enlists m t ids) (clock : Int) (spill : SpillDirectory) :
    Enlists m { t with clock, spill } ids :=
  ⟨h.exact, h.isAlive_eq, h.isAttached_iff, h.isTracked⟩

/-- A proxy can be tracked in any tier, and the others are tracked where they were. -/
theorem Enlists.addToTier (h : Enlists m t ids) (hfind : t.proxies.find? id = some p)
    (tier : Tier) :
    Ends (addToTier id tier) t (fun _ t' => Enlists m t' ids ∧ t'.IsTracked id) Never := by
  obtain ⟨new, hnew, hexact, hplaced⟩ :=
    Manager.exact_addToTier h.exact id (Spillable.report p) tier
  rw [Memory.addToTier, Ends.bind_iff, proxy_iff hfind, onManager_iff_of_ok hnew]
  refine ⟨⟨hexact, h.isAlive_eq, h.isAttached_iff, fun other hother => ?_⟩, tier,
    (hplaced.tracks_iff tier id).2 (by rw [if_pos rfl])⟩
  obtain ⟨current, htracks⟩ := h.isTracked other hother
  by_cases hid : other = id
  · exact ⟨tier, (hplaced.tracks_iff tier other).2 (by rw [if_pos hid])⟩
  · exact ⟨current, (hplaced.tracks_iff current other).2 (by rwa [if_neg hid])⟩

theorem Enlists.addToTier_leaves (h : Enlists m t ids) (id : ProxyId) (tier : Tier) :
    Leaves (Memory.addToTier id tier) t fun t' => Enlists m t' ids := by
  refine proxy_leaves h fun p hp => ?_
  have htier := h.addToTier hp tier
  rw [Memory.addToTier, Ends.bind_iff, proxy_iff hp] at htier
  exact htier.of_never fun _ _ ht => ht.1

/-- Neither kind of proxy is attached or detached by being serialized. -/
theorem isAttached_serialize (p : Proxy DeviceArray) (v : Volume) (tags : List Serializer) :
    Leaves (Spillable.serialize tags) (p, v) fun r =>
      Spillable.isAttached r.1 = Spillable.isAttached p := by
  show Leaves (Proxy.serialize tags) _ _
  rw [Proxy.serialize, Leaves, Ends.bind_iff, Ends.get_iff]
  cases p with
  | object p =>
    rw [Proxy.lift_iff]
    refine (ObjectProxy.serialize_leaves p v tags).imp ?_
    rintro ⟨_, w⟩ (rfl | ⟨_, _, _, _, -, rfl⟩)
    · rfl
    · rfl
  | scripted p =>
    -- No scripted proxy is ever attached.
    rw [Proxy.lift_iff, Ends]
    split
    · rfl
    · rfl

theorem isAttached_replace (version : ℕ) (payload : Payload) (p : Proxy DeviceArray) :
    Spillable.isAttached (Spillable.replace version payload p).2 = Spillable.isAttached p := by
  show Spillable.isAttached (Proxy.replace version payload p).2 = _
  cases p with
  | object p =>
    by_cases hversion : p.version = version
    · simp only [Proxy.replace, ObjectProxy.replace, hversion, if_true]
      rfl
    · simp only [Proxy.replace, ObjectProxy.replace, hversion, if_false]
  | scripted p => rfl

theorem isAttached_revive (p : ObjectProxy DeviceArray) (old : Proxy DeviceArray) (v : Volume) :
    Leaves (Proxy.lift .object p ObjectProxy.revive) (old, v) fun r =>
      Spillable.isAttached r.1 = Spillable.isAttached (Proxy.object p) := by
  rw [Leaves, Proxy.lift_iff]
  refine (ObjectProxy.revive_leaves p v).imp ?_
  rintro ⟨_, w⟩ (rfl | ⟨_, rfl⟩)
  · rfl
  · rfl

/-- No step of a move makes a difference to who is attached, or strikes a proxy from the books. -/
theorem lasting_enlists (m : Memory (Proxy DeviceArray)) (ids : List ProxyId) :
    Lasting fun t => Enlists m t ids where
  tick h := h.elsewhere _ _
  touch id time h := by
    rw [touch, Memory.update]
    refine proxy_leaves h fun p hp => ?_
    refine h.update hp ?_ _
    cases p <;> rfl
  serialize id tags h := by
    refine onProxy_leaves h fun p hp => ?_
    exact (isAttached_serialize p _ tags).imp fun r hr => h.update hp hr _
  revive id h := by
    rw [revive, objectProxy, bind_assoc]
    refine proxy_leaves h fun r hr => ?_
    split
    next p hobject =>
      refine onProxy_leaves h fun q hq => ?_
      rw [hr] at hq
      cases hq
      cases r with
      | object o =>
        cases hobject
        exact (isAttached_revive p _ _).imp fun r hattached => h.update hr hattached _
      | scripted => cases hobject
    next => exact h
  addToTier id tier h := h.addToTier_leaves id tier
  spillFrames {t id p version header content} compress h _ _ := by
    have hdump : Leaves (onSpill (SpillDirectory.dump header content compress)) t
        fun t' => Enlists m t' ids :=
      onSpill_leaves fun spill => h.elsewhere _ spill
    rw [spillFrames, Leaves, Ends.bind_iff]
    refine hdump.mono_ok fun disk t' h' => ?_
    rw [replace, bind_assoc]
    refine proxy_leaves h' fun p hp => ?_
    -- The proxy stays attached or not, whether or not it gets the file.
    have hupdate := h'.update hp (isAttached_replace version (.disk disk) p) t'.spill
    rw [bind_assoc, Leaves, Ends.bind_iff, Ends.modify_iff, pure_bind]
    split
    · exact hupdate.addToTier_leaves id _
    · show Leaves (onSpill (SpillDirectory.onVolume (Volume.remove disk.path))) _ fun t =>
        Enlists m t ids
      exact onSpill_leaves fun spill => hupdate.elsewhere _ spill

/-! ### What is found in a value -/

theorem eq_mk_iff (id : ProxyId) (n : ℕ) : id = ⟨n⟩ ↔ id.raw = n := by
  obtain ⟨raw⟩ := id
  exact ProxyId.mk.injEq raw n ▸ Iff.rfl

/-- No proxy has a number that is still to be given out. -/
def Fresh (m : Memory (Proxy DeviceArray)) : Prop :=
  ∀ id : ProxyId, m.nextId ≤ id.raw → m.proxies.find? id = none

theorem Sound.fresh (h : Sound log m) : m.Fresh := by
  intro id hid
  rw [Option.eq_none_iff_forall_ne_some]
  intro p hp
  obtain ⟨o, a, -, horigin, -⟩ := h.stands hp
  have hlt := lt_of_origin? horigin
  rw [h.nextId_eq] at hid
  omega

end Memory

namespace Walk

variable {w w' w'' : Walk DeviceArray} {ids more : List ProxyId}

/-- A walk over a value with the proxies `ids` leads from `w` to `w'`. What it finds are these and
the ones that it makes, and it makes them without attaching them. -/
structure Passes (w w' : Walk DeviceArray) (ids : List ProxyId) : Prop where
  /-- The books stay as they are. -/
  manager_eq : w'.memory.manager = w.memory.manager
  /-- Numbers are given out in order. -/
  nextId_le : w.memory.nextId ≤ w'.memory.nextId
  /-- The next numbers have not been given out. -/
  fresh : w'.memory.Fresh
  /-- The proxies in the value are found, and the new ones. -/
  mem_found_iff : ∀ id, id ∈ w'.found ↔ id ∈ w.found ∨ id ∈ ids ∨
    w.memory.nextId ≤ id.raw ∧ id.raw < w'.memory.nextId
  /-- The proxies that were there stay as they are. -/
  find?_old : ∀ id, id.raw < w.memory.nextId →
    w'.memory.proxies.find? id = w.memory.proxies.find? id
  /-- The new ones exist, and are not attached. -/
  find?_new : ∀ id, w.memory.nextId ≤ id.raw → id.raw < w'.memory.nextId →
    ∃ p, w'.memory.proxies.find? id = some p ∧ Spillable.isAttached p = false

theorem Passes.refl (h : w.memory.Fresh) : Passes w w [] where
  manager_eq := rfl
  nextId_le := Nat.le_refl _
  fresh := h
  mem_found_iff id := by
    have hnone : ¬ (w.memory.nextId ≤ id.raw ∧ id.raw < w.memory.nextId) := by omega
    simp [hnone]
  find?_old _ _ := rfl
  find?_new id hle hlt := absurd hlt (Nat.not_lt.2 hle)

theorem Passes.trans (h : Passes w w' ids) (h' : Passes w' w'' more) :
    Passes w w'' (ids ++ more) where
  manager_eq := h'.manager_eq.trans h.manager_eq
  nextId_le := h.nextId_le.trans h'.nextId_le
  fresh := h'.fresh
  mem_found_iff id := by
    have hle := h.nextId_le
    have hle' := h'.nextId_le
    -- A new number is from the first part of the walk or from the second one.
    have hnew : (w.memory.nextId ≤ id.raw ∧ id.raw < w''.memory.nextId) ↔
        (w.memory.nextId ≤ id.raw ∧ id.raw < w'.memory.nextId) ∨
          w'.memory.nextId ≤ id.raw ∧ id.raw < w''.memory.nextId := by
      omega
    rw [h'.mem_found_iff, h.mem_found_iff, hnew, List.mem_append]
    tauto
  find?_old id hlt := by
    rw [h'.find?_old id (hlt.trans_le h.nextId_le), h.find?_old id hlt]
  find?_new id hle hlt := by
    by_cases hfirst : id.raw < w'.memory.nextId
    · obtain ⟨p, hp, hattached⟩ := h.find?_new id hle hfirst
      exact ⟨p, (h'.find?_old id hfirst).trans hp, hattached⟩
    · exact h'.find?_new id (Nat.not_lt.1 hfirst) hlt

theorem Passes.isAlive_iff (h : Passes w w' ids) (hw : w.memory.Fresh) (id : ProxyId) :
    w'.memory.isAlive id = true ↔
      w.memory.isAlive id = true ∨ w.memory.nextId ≤ id.raw ∧ id.raw < w'.memory.nextId := by
  simp only [Memory.isAlive, Table.contains_iff]
  by_cases hold : id.raw < w.memory.nextId
  · simp [h.find?_old id hold, Nat.not_le.2 hold]
  · by_cases hnew : id.raw < w'.memory.nextId
    · obtain ⟨p, hp, -⟩ := h.find?_new id (Nat.not_lt.1 hold) hnew
      simp [hp, hnew, Nat.not_lt.1 hold]
    · simp [h.fresh id (Nat.not_lt.1 hnew), hw id (Nat.not_lt.1 hold), hnew]

/-- The same proxies are attached after a walk. -/
theorem Passes.isAttached_iff (h : Passes w w' ids) (hw : w.memory.Fresh) (id : ProxyId) :
    w'.memory.IsAttached id ↔ w.memory.IsAttached id := by
  by_cases hold : id.raw < w.memory.nextId
  · exact Memory.isAttached_congr (h.find?_old id hold)
  · rw [Memory.IsAttached, Memory.IsAttached, hw id (Nat.not_lt.1 hold)]
    by_cases hnew : id.raw < w'.memory.nextId
    · obtain ⟨p, hp, hattached⟩ := h.find?_new id (Nat.not_lt.1 hold) hnew
      simp [hp, hattached]
    · simp [h.fresh id (Nat.not_lt.1 hnew)]

theorem proxyFor_passes (hw : w.memory.Fresh) (a : DeviceArray) :
    Passes w ((proxyFor a).run w).2 [] ∧
      ∀ id ∈ ((proxyFor a).run w).2.found, id ∈ w.found ∨ id = ((proxyFor a).run w).1 := by
  have hrun : (proxyFor a).run w = proxyFor a w := rfl
  rw [hrun, proxyFor]
  split
  next => exact ⟨.refl hw, fun id hid => .inl hid⟩
  next =>
    have hfind := Memory.find?_create w.memory fun time => .object (.ofObject a false time)
    simp only [Memory.eq_mk_iff] at hfind
    refine ⟨⟨rfl, Nat.le_succ _, fun id hid => ?_, fun id => ?_, fun id hid => ?_,
      fun id hle hlt => ?_⟩, fun id hid => ?_⟩
    · have hle : w.memory.nextId + 1 ≤ id.raw := hid
      exact (hfind id).trans ((if_neg (by omega)).trans (hw id (by omega)))
    · -- The only new number is that of the new proxy.
      have hnew : (w.memory.nextId ≤ id.raw ∧ id.raw < w.memory.nextId + 1) ↔
          id = ⟨w.memory.nextId⟩ := by
        rw [Memory.eq_mk_iff]
        omega
      show id ∈ (⟨w.memory.nextId⟩ : ProxyId) :: w.found ↔
        _ ∨ _ ∨ w.memory.nextId ≤ id.raw ∧ id.raw < w.memory.nextId + 1
      rw [hnew, List.mem_cons]
      simp [or_comm]
    · exact (hfind id).trans (if_neg (by omega))
    · have hlt' : id.raw < w.memory.nextId + 1 := hlt
      exact ⟨_, (hfind id).trans (if_pos (by omega)), rfl⟩
    · rcases List.mem_cons.1 hid with hnew | hold
      · exact .inr hnew
      · exact .inl hold

mutual

/-- What is found in a value are the proxies that were in it and those of its objects, and all of
these are in the wrapped value. -/
theorem wrap_passes (v : Value DeviceArray) {w : Walk DeviceArray} (hw : w.memory.Fresh) :
    Passes w ((wrap v).run w).2 v.proxies ∧
      ∀ id ∈ ((wrap v).run w).2.found, id ∈ w.found ∨ id ∈ ((wrap v).run w).1.proxies := by
  match v with
  | .int n => exact ⟨.refl hw, fun id hid => .inl hid⟩
  | .object o =>
    obtain ⟨hpasses, hfound⟩ := proxyFor_passes hw o
    exact ⟨hpasses, fun id hid => (hfound id hid).imp_right List.mem_singleton.2⟩
  | .proxy id =>
    -- The proxy is found, and no number is given out.
    refine ⟨{ Passes.refl hw with mem_found_iff := fun other => ?_ }, fun other hother => ?_⟩
    · have hnone : ¬ (w.memory.nextId ≤ other.raw ∧ other.raw < w.memory.nextId) := by omega
      show other ∈ id :: w.found ↔
        _ ∨ other ∈ [id] ∨ w.memory.nextId ≤ other.raw ∧ other.raw < w.memory.nextId
      simp [hnone, or_comm]
    · rcases List.mem_cons.1 hother with rfl | hold
      · exact .inr List.mem_cons_self
      · exact .inl hold
  | .list items => exact wrapItems_passes items hw

theorem wrapItems_passes (items : List (Value DeviceArray)) {w : Walk DeviceArray}
    (hw : w.memory.Fresh) :
    Passes w ((wrapItems items).run w).2 (Value.proxiesOf items) ∧
      ∀ id ∈ ((wrapItems items).run w).2.found,
        id ∈ w.found ∨ id ∈ Value.proxiesOf ((wrapItems items).run w).1 := by
  match items with
  | [] => exact ⟨.refl hw, fun id hid => .inl hid⟩
  | item :: items =>
    obtain ⟨hpasses, hfound⟩ := wrap_passes item hw
    obtain ⟨hpasses', hfound'⟩ := wrapItems_passes items hpasses.fresh
    refine ⟨hpasses.trans hpasses', fun id hid => ?_⟩
    rcases hfound' id hid with hmem | hmem
    · exact (hfound id hmem).imp_right (List.mem_append_left _)
    · exact .inr (List.mem_append_right _ hmem)

end

end Walk

namespace Memory

variable {log : List DeviceArray} {m m' t : Memory (Proxy DeviceArray)} {id : ProxyId}
  {ids : List ProxyId} {value : Value DeviceArray}

/-- The proxies that a walk over a value finds, the last one in front. -/
def foundIn (m : Memory (Proxy DeviceArray)) (value : Value DeviceArray) : List ProxyId :=
  ((Walk.wrap value).run ⟨m, .empty, []⟩).2.found

theorem Sound.isAttached_of_tracked (h : Sound log m) (hid : m.IsTracked id) : m.IsAttached id := by
  obtain ⟨tier, htracks⟩ := hid
  obtain ⟨p, hfind, hattached⟩ := h.attached htracks
  exact ⟨.object p, hfind, hattached⟩

/-- Nothing has to be done for a proxy that is attached and tracked already. -/
theorem Enlists.of_isTracked (h : Enlists m t ids) (hattached : t.IsAttached id)
    (htracked : t.IsTracked id) : Enlists m t (ids ++ [id]) where
  exact := h.exact
  isAlive_eq := h.isAlive_eq
  isAttached_iff other := by
    rw [List.mem_append, List.mem_singleton, ← or_assoc, ← h.isAttached_iff]
    constructor
    · exact .inl
    · rintro (hother | rfl)
      · exact hother
      · exact hattached
  isTracked other hother := by
    rw [List.mem_append, List.mem_singleton, ← or_assoc] at hother
    rcases hother with hbefore | rfl
    · exact h.isTracked other hbefore
    · exact htracked

/-- A proxy is attached and then tracked. -/
theorem Enlists.attach_track (h : Enlists m t ids) {p : ObjectProxy DeviceArray}
    (hfind : t.proxies.find? id = some (.object p)) :
    Ends (do attach id; track id) t (fun _ t' => Enlists m t' (ids ++ [id])) Never := by
  have hattached : Spillable.isAttached (Spillable.attach (Proxy.object p)) = true := rfl
  have hfind' := Table.find?_insert_self t.proxies id (Spillable.attach (Proxy.object p))
  rw [Ends.bind_iff, attach, update_iff hfind, track, Ends.bind_iff, proxy_iff hfind', add]
  -- The proxy is attached but not tracked in between.
  have hbetween : Enlists _ { t with
      proxies := t.proxies.insert id (Spillable.attach (Proxy.object p)) } [] := .refl h.exact
  refine (hbetween.addToTier hfind' _).mono_ok ?_
  rintro - t' ⟨henlists, htracked⟩
  refine ⟨henlists.exact, fun other => ?_, fun other => ?_, fun other hother => ?_⟩
  · exact (henlists.isAlive_eq other).trans
      ((isAlive_insert t hfind other _ t.spill).trans (h.isAlive_eq other))
  · rw [henlists.isAttached_iff, isAttached_insert t id other _ t.spill, List.mem_append,
      List.mem_singleton, ← or_assoc, ← h.isAttached_iff]
    by_cases hother : other = id
    · simp [hother, hattached]
    · simp [hother]
  · rw [List.mem_append, List.mem_singleton, ← or_assoc] at hother
    rcases hother with hbefore | rfl
    · exact henlists.isTracked other (.inl (h.isTracked other hbefore))
    · exact htracked

/-- A proxy that was found is attached and tracked, if it was not before. -/
theorem trackFound_enlists (hcoherent : Coherent log t) (h : Enlists m t ids)
    (halive : t.isAlive id = true) (time : Int) :
    Ends (trackFound time id) t
      (fun _ t' => Advances log t t' ∧ Enlists m t' (ids ++ [id])) Never := by
  suffices htracked : Ends (trackFound time id) t (fun _ t' => Enlists m t' (ids ++ [id]))
      fun _ _ => True from
    ((trackFound_ends hcoherent halive time).and htracked).mono_bad fun _ _ => And.left
  obtain ⟨p, hfind⟩ := hcoherent.exists_object halive
  rw [trackFound, Ends.bind_iff]
  refine ((touch_ends hcoherent hfind time).and ((lasting_enlists m ids).touch id time h)).mono ?_
    fun _ _ _ => trivial
  rintro - t' ⟨⟨hadvances, hreformed⟩, henlists⟩
  obtain ⟨tier?, hlocate, htier⟩ := Manager.exists_locate henlists.exact id
  have hcontains : t'.manager.contains id = .ok tier?.isSome := by
    rw [Manager.contains, hlocate]
    rfl
  rw [Ends.bind_iff, ask_iff_of_ok hcontains]
  -- A proxy that has a tier is left alone. It is attached, since the memory is coherent.
  rcases tier? with _ | tier
  · exact (henlists.attach_track hreformed.find?_self).of_never fun _ _ ht => ht
  · have htracked : t'.IsTracked id := ⟨tier, (htier tier).1 rfl⟩
    exact henlists.of_isTracked (hadvances.coherent.isAttached_of_tracked htracked) htracked

/-- The proxies that were found in a value exist, attached and tracked, with those that were before.
-/
structure Adopts (m t : Memory (Proxy DeviceArray)) (found : List ProxyId) : Prop where
  /-- The proxies that exist are those that were there and those that were found. -/
  isAlive_iff : ∀ id, t.isAlive id = true ↔ m.isAlive id = true ∨ id ∈ found
  /-- So are the ones that are attached. -/
  isAttached_iff : ∀ id, t.IsAttached id ↔ m.IsAttached id ∨ id ∈ found
  /-- All of these are tracked. -/
  isTracked : ∀ id, m.IsTracked id ∨ id ∈ found → t.IsTracked id

/-- What wrapping a value finds, without anything being attached or tracked. -/
theorem wrap_finds (h : m.Fresh) (value : Value DeviceArray) :
    Ends (wrap value) m
      (fun r m' => r.2 = (m.foundIn value).reverse ∧ m.foundIn value ⊆ r.1.proxies ∧
        m'.manager = m.manager ∧ (∀ id, m'.IsAttached id ↔ m.IsAttached id) ∧
        ∀ id, m'.isAlive id = true → m.isAlive id = true ∨ id ∈ m.foundIn value) Never := by
  obtain ⟨hpasses, hfound⟩ := Walk.wrap_passes value (w := ⟨m, .empty, []⟩) h
  rw [wrap, Ends.modifyGet_iff]
  refine ⟨rfl, fun id hid => ?_, hpasses.manager_eq, hpasses.isAttached_iff h, fun id hid => ?_⟩
  · exact (hfound id hid).resolve_left List.not_mem_nil
  · refine ((hpasses.isAlive_iff h id).1 hid).imp_right fun hnew => ?_
    exact (hpasses.mem_found_iff id).2 (.inr (.inr hnew))

/-- The proxies in a value are adopted, whether or not the limits can be enforced after that. -/
theorem adopt_enlists (h : Coherent log m) (hobjects : ∀ a ∈ value.objects, a.IsAddressable)
    (halive : ∀ id ∈ value.proxies, m.isAlive id = true) :
    Ends (adopt value) m
      (fun r m' => Adopts m m' (m.foundIn value) ∧ m.foundIn value ⊆ r.1.proxies)
      (fun _ m' => Adopts m m' (m.foundIn value)) := by
  rw [adopt, Ends.bind_iff]
  refine ((wrap_ends h hobjects halive).and (wrap_finds h.fresh value)).mono ?_
    fun _ _ hnever => hnever.1.elim
  rintro ⟨value', _⟩ m₁
    ⟨⟨hcoherent, hgrows, -, hexist, -⟩, rfl, hsubset, hmanager, hattached, hnew⟩
  simp only [List.mem_reverse] at hexist
  -- Whoever is attached and tracked after that follows from what has been done in each case.
  have hadopts : ∀ {t}, Enlists m₁ t (m.foundIn value).reverse → Adopts m t (m.foundIn value) := by
    intro t ht
    refine ⟨fun id => ?_, fun id => ?_, fun id hid => ht.isTracked id ?_⟩
    · rw [ht.isAlive_eq]
      exact ⟨hnew id, fun hid => hid.elim (hgrows.isAlive id) (hexist id)⟩
    · rw [ht.isAttached_iff, hattached, List.mem_reverse]
    · rw [List.mem_reverse, IsTracked, hmanager]
      exact hid
  rw [Ends.bind_iff, now, Ends.modifyGet_iff, Ends.bind_iff]
  have htick := hcoherent.tick (m₁.clock + 1)
  have hstart : Enlists m₁ _ [] := (Enlists.refl hcoherent.exact).elsewhere (m₁.clock + 1) m₁.spill
  refine (Ends.forM (fun done t => Advances (log ++ newArrays value) m₁ t ∧ Enlists m₁ t done) _
    (fun done id hid t ht => ?_) ⟨htick, hstart⟩).of_never ?_
  · obtain ⟨hadvances, henlists⟩ := ht
    have hid' : t.isAlive id = true :=
      (hadvances.isAlive_eq id).trans (hexist id (List.mem_reverse.1 hid))
    refine (trackFound_enlists hadvances.coherent henlists hid' _).mono_ok ?_
    exact fun _ _ ht => ⟨hadvances.trans ht.1, ht.2⟩
  · rintro - m₂ ⟨-, henlists⟩
    rw [Ends.bind_iff]
    refine ((lasting_enlists m₁ _).enforceLimits 0 henlists).mono ?_ ?_
    · exact fun _ _ hend => ⟨hadopts hend, hsubset⟩
    · exact fun _ _ hend => hadopts hend

/-- What a walk over a value finds are the proxies in it and the ones that are made for its objects,
which have the next numbers. -/
theorem Coherent.mem_foundIn_iff (h : Coherent log m) {value : Value DeviceArray}
    (hobjects : ∀ a ∈ value.objects, a.IsAddressable)
    (halive : ∀ id ∈ value.proxies, m.isAlive id = true) (id : ProxyId) :
    id ∈ m.foundIn value ↔
      id ∈ value.proxies ∨ log.length < id.raw ∧ id.raw ≤ (log ++ newArrays value).length := by
  obtain ⟨hpasses, -⟩ := Walk.wrap_passes value (w := ⟨m, .empty, []⟩) h.fresh
  have hwrap := wrap_ends h hobjects halive
  rw [wrap, Ends.modifyGet_iff] at hwrap
  -- The numbers that were given out follow from the lengths of the logs.
  have hnext : (Walk.wrap value ⟨m, .empty, []⟩).2.memory.nextId =
      (log ++ newArrays value).length + 1 := hwrap.1.nextId_eq
  have hnew : (m.nextId ≤ id.raw ∧
      id.raw < ((Walk.wrap value).run ⟨m, .empty, []⟩).2.memory.nextId) ↔
        log.length < id.raw ∧ id.raw ≤ (log ++ newArrays value).length := by
    rw [show (Walk.wrap value).run ⟨m, .empty, []⟩ = Walk.wrap value ⟨m, .empty, []⟩ from rfl,
      hnext, h.nextId_eq]
    omega
  rw [foundIn, hpasses.mem_found_iff, hnew]
  simp

end Memory

end TieredStore
