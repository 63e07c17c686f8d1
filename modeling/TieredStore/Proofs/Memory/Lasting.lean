import TieredStore.Proofs.Memory.Access

/-!
# What moving proxies preserves

Evictions, demotions and accesses are made of few steps: a look at the clock, another form for a
proxy, another place in the books, and a new spill file. What each of these preserves, wherever it
is taken and however it ends, the operations preserve, too. So an invariant of which that is known
needs nothing else to hold, coherence of the memory in particular.

* `LastingAt`, `Lasting`: what the steps preserve, for one proxy and for all of them.
* `lastingAt_elsewhere`: the steps of one proxy leave the others alone.
* `LastingAt.demoteToDisk`, `Lasting.evict`, `Lasting.enforceLimits`: demotions and evictions.
* `Lasting.object`, `Lasting.unwrap`: access to objects.
-/

namespace TieredStore

namespace ObjectProxy

variable {T : Type} [DeviceObject T]

/-- Serializing leaves a proxy alone, or puts the frames that its form gives in its place. -/
theorem serialize_leaves (p : ObjectProxy T) (v : Volume) (tags : List Serializer) :
    Leaves (serialize tags) (p, v) fun r => r.1 = p ∨ ∃ target header frames w,
      framesFor target p.form v = .ok (header, frames) w ∧
        r.1 = p.setForm (.serialized (.frames header frames)) := by
  unfold serialize
  split
  next => exact .inl rfl
  next target _ =>
    simp only [Leaves, Ends.bind_iff, Ends.get_iff]
    split
    next => exact .inl rfl
    next =>
      simp only [Ends.bind_iff, onVolume_iff, install, Ends.modify_iff]
      rw [Ends]
      cases hframes : framesFor target p.form v with
      | ok r w => exact .inr ⟨target, r.1, r.2, w, hframes, rfl⟩
      | error e w => exact .inl trivial

/-- A proxy that is asked for its object is left alone, or made live. -/
theorem revive_leaves (p : ObjectProxy T) (v : Volume) :
    Leaves revive (p, v) fun r => r.1 = p ∨ ∃ a, r.1 = p.setForm (.live a) := by
  simp only [revive, Leaves, Ends.bind_iff, Ends.get_iff, onVolume_iff, install, Ends.modify_iff,
    Ends.pure_iff]
  rw [Ends]
  cases objectOf p.form v with
  | ok a w => exact .inr ⟨a, rfl⟩
  | error e w => exact .inl trivial

end ObjectProxy

namespace Memory

variable {T : Type} [DeviceObject T] {α : Type} {m : Memory (Proxy T)}

/-- Every step that an operation takes with the proxy `id` preserves `inv`, whether it succeeds or
fails. -/
structure LastingAt (id : ProxyId) (inv : Memory (Proxy T) → Prop) : Prop where
  /-- An access is recorded. -/
  touch : ∀ {m} (time : Int), inv m → Leaves (touch id time) m inv
  /-- The proxy is serialized. -/
  serialize : ∀ {m} (tags : List Serializer), inv m → Leaves (serialize id tags) m inv
  /-- The proxy is made live. -/
  revive : ∀ {m}, inv m → Leaves (revive id) m inv
  /-- The proxy is tracked in a tier. -/
  addToTier : ∀ {m} (tier : Tier), inv m → Leaves (addToTier id tier) m inv
  /-- The frames of the proxy are written to a file. -/
  spillFrames : ∀ {m p version header content} (compress : Bool), inv m →
    m.proxies.find? id = some p → Spillable.snapshot? p = some (version, .frames header content) →
      Leaves (spillFrames id version header content compress) m inv

/-- Every step of an operation that moves proxies preserves `inv`, whether it succeeds or fails. -/
structure Lasting (inv : Memory (Proxy T) → Prop) : Prop where
  /-- Time passes. -/
  tick : ∀ {m}, inv m → inv { m with clock := m.clock + 1 }
  /-- An access is recorded. -/
  touch : ∀ {m} (id : ProxyId) (time : Int), inv m → Leaves (touch id time) m inv
  /-- A proxy is serialized. -/
  serialize : ∀ {m} (id : ProxyId) (tags : List Serializer), inv m →
    Leaves (serialize id tags) m inv
  /-- A proxy is made live. -/
  revive : ∀ {m} (id : ProxyId), inv m → Leaves (revive id) m inv
  /-- A proxy is tracked in a tier. -/
  addToTier : ∀ {m} (id : ProxyId) (tier : Tier), inv m → Leaves (addToTier id tier) m inv
  /-- The frames of a proxy are written to a file. -/
  spillFrames : ∀ {m id p version header content} (compress : Bool), inv m →
    m.proxies.find? id = some p → Spillable.snapshot? p = some (version, .frames header content) →
      Leaves (spillFrames id version header content compress) m inv

theorem proxy_ends {P : Type} (m : Memory P) (id : ProxyId) :
    Ends (proxy id) m (fun p m' => m' = m ∧ m.proxies.find? id = some p) (fun _ m' => m' = m) := by
  rw [proxy, Ends.bind_iff, Ends.get_iff]
  split
  next p hp => exact ⟨rfl, hp⟩
  next => rfl

/-- A look at a proxy changes nothing, so what is to hold after it is what holds before. -/
theorem proxy_leaves {P β : Type} {m : Memory P} {inv : Memory P → Prop} {id : ProxyId}
    {f : P → Action P β} (hm : inv m)
    (h : ∀ p, m.proxies.find? id = some p → Leaves (f p) m inv) :
    Leaves (proxy id >>= f) m inv := by
  rw [Leaves, Ends.bind_iff]
  refine (proxy_ends m id).mono ?_ ?_
  · rintro p m' ⟨rfl, hp⟩
    exact h p hp
  · rintro e m' rfl
    exact hm

theorem onProxy_leaves {P : Type} {m : Memory P} {inv : Memory P → Prop} {id : ProxyId}
    {action : EStateM Error (P × Volume) α} (hm : inv m)
    (h : ∀ p, m.proxies.find? id = some p → Leaves action (p, m.spill.volume) fun r =>
      inv { m with proxies := m.proxies.insert id r.1, spill := { m.spill with volume := r.2 } }) :
    Leaves (onProxy id action) m inv := by
  cases hfind : m.proxies.find? id with
  | none =>
    -- Without a proxy the look-up fails, and nothing is done.
    refine proxy_leaves hm fun p hp => ?_
    rw [hfind] at hp
    cases hp
  | some p => exact (onProxy_iff hfind).2 (h p hfind)

theorem onSpill_leaves {P : Type} {m : Memory P} {inv : Memory P → Prop}
    {action : EStateM Error SpillDirectory α} (h : ∀ spill, inv { m with spill }) :
    Leaves (onSpill action) m inv := by
  rw [Leaves, onSpill_iff, Ends]
  split <;> exact h _

theorem onManager_leaves {P : Type} {m : Memory P} {inv : Memory P → Prop}
    {f : Manager → Except Failure Manager} (h : ∀ manager, inv { m with manager }) :
    Leaves (onManager f) m inv := by
  rw [Leaves, Ends, onManager]
  cases f m.manager with
  | ok new => exact h new
  | error e => exact h m.manager

/-- The files of the directory change, whatever is done to them. -/
theorem onSpill_onVolume_leaves {P : Type} {α : Type} {m : Memory P} {inv : Memory P → Prop}
    {action : EStateM Error Volume α}
    (h : ∀ volume, inv { m with spill := { m.spill with volume } }) :
    Leaves (onSpill (SpillDirectory.onVolume action)) m inv := by
  rw [Leaves, onSpill_iff, SpillDirectory.onVolume_iff]
  exact Ends.of_forall (fun _ volume _ => h volume) fun _ volume _ => h volume

omit [DeviceObject T] in
theorem objectProxy_leaves {inv : Memory (Proxy T) → Prop} {id : ProxyId}
    {f : ObjectProxy T → Action (Proxy T) α} (hm : inv m)
    (h : ∀ p, Leaves (f p) m inv) : Leaves (objectProxy id >>= f) m inv := by
  rw [objectProxy, bind_assoc]
  refine proxy_leaves hm fun p _ => ?_
  split
  · exact h _
  · exact hm

namespace LastingAt

variable {inv : Memory (Proxy T) → Prop} {id : ProxyId}

theorem track (h : LastingAt id inv) (hm : inv m) : Leaves (track id) m inv :=
  proxy_leaves hm fun _ _ => h.addToTier _ hm

theorem demoteToHost (h : LastingAt id inv) (hm : inv m) : Leaves (demoteToHost id) m inv :=
  (h.serialize _ hm).bind fun _ _ hm' => h.track hm'

theorem demoteToDisk (h : LastingAt id inv) (hm : inv m) : Leaves (demoteToDisk id) m inv := by
  unfold Memory.demoteToDisk
  extract_lets fresh
  have hfresh : Leaves fresh m inv := by
    show Leaves (Memory.serialize id Serializer.hostFamilies >>= _) m inv
    -- Whatever frames the proxy has got are written.
    refine (h.serialize _ hm).bind fun _ m' hm' => proxy_leaves hm' fun p hp => ?_
    split
    next hsnapshot => exact h.spillFrames true hm' hp hsnapshot
    next => exact hm'
  refine proxy_leaves hm fun p hp => ?_
  split
  next => exact h.addToTier .disk hm
  next hsnapshot =>
    split
    · exact h.spillFrames false hm hp hsnapshot
    · exact hfresh
  next => exact hfresh

/-- Access to an object is made of steps that are taken with its proxy, and of making room. -/
theorem object (h : LastingAt id inv)
    (htick : ∀ {m}, inv m → inv { m with clock := m.clock + 1 })
    (hlimits : ∀ extra {m}, inv m → Leaves (enforceLimits extra) m inv) (hm : inv m) :
    Leaves (object id) m inv := by
  rw [Memory.object, Leaves, Ends.bind_iff, now, Ends.modifyGet_iff]
  refine (h.touch _ (htick hm)).bind fun _ m₁ hm₁ => objectProxy_leaves hm₁ fun p => ?_
  split
  next => exact hm₁
  next payload =>
    rw [Leaves, Ends.bind_iff, Ends.get_iff]
    -- With or without a manager, all that is done are steps that preserve the invariant.
    by_cases hmanaged : (p.isAttached && m₁.isManaged) = true
    · simp only [hmanaged, if_true, Ends.bind_iff]
      refine (hlimits _ hm₁).mono_ok fun _ m₂ hm₂ => ?_
      refine (h.revive hm₂).mono_ok fun _ m₃ hm₃ => ?_
      exact h.addToTier _ hm₃
    · simp only [hmanaged, Bool.false_eq_true, if_false, Ends.bind_iff, Ends.pure_iff]
      exact h.revive hm₁

end LastingAt

/-- The steps that are taken with one proxy leave the others alone. -/
theorem lastingAt_elsewhere {id other : ProxyId} (hother : other ≠ id) (r : Option (Proxy T)) :
    LastingAt other fun m => m.proxies.find? id = r := by
  have hinsert : ∀ {m : Memory (Proxy T)}, m.proxies.find? id = r → ∀ q,
      (m.proxies.insert other q).find? id = r := fun hm q =>
    (Table.find?_insert_of_ne _ _ hother.symm).trans hm
  refine ⟨fun time hm => ?_, fun tags hm => ?_, fun hm => ?_, fun tier hm => ?_,
    fun compress hm _ _ => ?_⟩
  · exact proxy_leaves hm fun p _ => hinsert hm _
  · exact onProxy_leaves hm fun p _ => .of_forall (fun _ _ _ => hinsert hm _)
      fun _ _ _ => hinsert hm _
  · refine objectProxy_leaves hm fun p => onProxy_leaves hm fun _ _ => ?_
    exact .of_forall (fun _ _ _ => hinsert hm _) fun _ _ _ => hinsert hm _
  · exact proxy_leaves hm fun _ _ => onManager_leaves fun _ => hm
  · refine Leaves.bind (onSpill_leaves fun _ => hm) fun disk m hm => ?_
    refine Leaves.bind (proxy_leaves hm fun p _ => hinsert hm _) fun done m hm => ?_
    split
    · exact proxy_leaves hm fun _ _ => onManager_leaves fun _ => hm
    · exact onSpill_leaves fun _ => hm

namespace Lasting

variable {inv : Memory (Proxy T) → Prop} {id : ProxyId}

/-- What the steps of every proxy preserve is preserved by all steps. -/
theorem of_lastingAt (htick : ∀ {m}, inv m → inv { m with clock := m.clock + 1 })
    (h : ∀ id, LastingAt id inv) : Lasting inv where
  tick := htick
  touch id := (h id).touch
  serialize id := (h id).serialize
  revive id := (h id).revive
  addToTier id := (h id).addToTier
  spillFrames := (h _).spillFrames

theorem lastingAt (h : Lasting inv) (id : ProxyId) : LastingAt id inv where
  touch := h.touch id
  serialize := h.serialize id
  revive := h.revive id
  addToTier := h.addToTier id
  spillFrames := h.spillFrames

theorem track (h : Lasting inv) (id : ProxyId) (hm : inv m) : Leaves (track id) m inv :=
  (h.lastingAt id).track hm

theorem demoteToHost (h : Lasting inv) (id : ProxyId) (hm : inv m) :
    Leaves (demoteToHost id) m inv :=
  (h.lastingAt id).demoteToHost hm

theorem demoteToDisk (h : Lasting inv) (id : ProxyId) (hm : inv m) :
    Leaves (demoteToDisk id) m inv :=
  (h.lastingAt id).demoteToDisk hm

omit [DeviceObject T] in
/-- An eviction preserves what each of its demotions preserves. -/
theorem evict {demote : ProxyId → Action (Proxy T) Unit}
    (hdemote : ∀ id m, inv m → Leaves (demote id) m inv) (nbytes : ℕ) (units : List EvictionUnit)
    (hm : inv m) : Leaves (evict nbytes units demote) m inv := by
  rw [TieredStore.evict, Leaves, Ends.bind_iff]
  exact Leaves.forM _ (fun id _ => hdemote id) hm

theorem evictToHost (h : Lasting inv) (nbytes : ℕ) (units : List EvictionUnit) (hm : inv m) :
    Leaves (TieredStore.evict nbytes units Memory.demoteToHost) m inv :=
  evict (fun id _ => h.demoteToHost id) nbytes units hm

theorem evictToDisk (h : Lasting inv) (nbytes : ℕ) (units : List EvictionUnit) (hm : inv m) :
    Leaves (TieredStore.evict nbytes units Memory.demoteToDisk) m inv :=
  evict (fun id _ => h.demoteToDisk id) nbytes units hm

theorem enforceDeviceLimit (h : Lasting inv) (extra : ℕ) (hm : inv m) :
    Leaves (enforceDeviceLimit extra) m inv := by
  rw [Memory.enforceDeviceLimit, Leaves, Ends.bind_iff, Ends.get_iff]
  split
  · exact hm
  · exact h.evictToHost _ _ hm

theorem enforceHostLimit (h : Lasting inv) (extra : ℕ) (hm : inv m) :
    Leaves (enforceHostLimit extra) m inv := by
  rw [Memory.enforceHostLimit, Leaves, Ends.bind_iff, Ends.get_iff]
  split
  · exact hm
  · exact h.evictToDisk _ _ hm

theorem enforceLimits (h : Lasting inv) (extra : ℕ) (hm : inv m) :
    Leaves (enforceLimits extra) m inv :=
  (h.enforceDeviceLimit extra hm).bind fun _ _ hm' => (h.enforceHostLimit 0 hm').map

theorem object (h : Lasting inv) (id : ProxyId) (hm : inv m) : Leaves (object id) m inv :=
  (h.lastingAt id).object h.tick (fun extra => h.enforceLimits extra) hm

mutual

/-- Only proxies that were in a value are left when it is unwrapped. -/
theorem unwrap (h : Lasting inv) (skipExplicit : Bool) (v : Value T)
    {m : Memory (Proxy T)} (hm : inv m) :
    Ends (unwrap skipExplicit v) m (fun v' m' => inv m' ∧ v'.proxies ⊆ v.proxies)
      (fun _ => inv) := by
  match v with
  | .int n => exact ⟨hm, List.Subset.refl _⟩
  | .object o => exact ⟨hm, List.Subset.refl _⟩
  | .proxy id =>
    rw [Memory.unwrap, Ends.bind_iff]
    refine (proxy_ends m id).mono ?_ ?_
    · rintro p m' ⟨rfl, -⟩
      split
      · exact ⟨hm, List.Subset.refl _⟩
      · rw [Ends.bind_iff]
        exact (h.object id hm).mono_ok fun _ _ hm' => ⟨hm', List.nil_subset _⟩
    · rintro e m' rfl
      exact hm
  | .list items =>
    rw [Memory.unwrap, Ends.bind_iff]
    exact (h.unwrapItems skipExplicit items hm).mono_ok fun _ _ hend => hend

theorem unwrapItems (h : Lasting inv) (skipExplicit : Bool) (items : List (Value T))
    {m : Memory (Proxy T)} (hm : inv m) :
    Ends (unwrapItems skipExplicit items) m
      (fun items' m' => inv m' ∧ Value.proxiesOf items' ⊆ Value.proxiesOf items)
      (fun _ => inv) := by
  match items with
  | [] => exact ⟨hm, List.Subset.refl _⟩
  | item :: items =>
    rw [Memory.unwrapItems, Ends.bind_iff]
    refine (h.unwrap skipExplicit item hm).mono_ok ?_
    rintro item' m' ⟨hm', hsubset⟩
    rw [Ends.bind_iff]
    refine (h.unwrapItems skipExplicit items hm').mono_ok ?_
    rintro items' m'' ⟨hm'', hsubset'⟩
    exact ⟨hm'', List.append_subset.2 ⟨List.subset_append_of_subset_left _ hsubset,
      List.subset_append_of_subset_right _ hsubset'⟩⟩

end

end Lasting

end Memory

end TieredStore
