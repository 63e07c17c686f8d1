import TieredStore.Proofs.Commutes
import TieredStore.Proofs.Memory.Lasting
import TieredStore.Proofs.Memory.Operations
import TieredStore.Proofs.Memory.Wrapping

/-!
# What the compression setting makes no difference to

Whether frames are compressed on request is recorded in the spill directory, and looked at only when
frames are written that may be compressed. Evictions never ask for that: whatever they move to disk
is already in host frames, and is written as it is. So all operations on the memory overlook the
setting, apart from a demotion to disk that a caller asks for.

* `SpillDirectory.withCompression`, `Memory.withCompression`: the setting is changed.
* `demoteToDisk_commutes`: a proxy that is not live is moved to disk without compression.
* `evictToDisk_commutes`: no live proxy is evicted to disk.
* `adopt_commutes`, `object_commutes`, `unwrap_commutes`, `releaseAll_commutes`: what is made of
  these.
-/

namespace TieredStore

namespace SpillDirectory

variable {α : Type} {d : SpillDirectory} {b : Bool}

/-- The directory with another setting. -/
def withCompression (b : Bool) (d : SpillDirectory) : SpillDirectory := { d with compression := b }

theorem onVolume_commutes (action : EStateM Error Volume α) :
    Commutes (withCompression b) (onVolume action) d := by
  rw [Commutes, onVolume, onVolume, show (d.withCompression b).volume = d.volume from rfl]
  cases action d.volume <;> rfl

/-- Without a request frames are written as they are, whatever the setting. -/
theorem dump_commutes (header : FrameHeader) (frames : List Bytes) :
    Commutes (withCompression b) (dump header frames false) d := by
  refine .get_bind ?_ rfl
  exact .seq (.modifyGet rfl) fun path _ => .seq (onVolume_commutes _) fun _ _ => .pure _

end SpillDirectory

namespace Memory

section Generic

variable {P α : Type} {m : Memory P} {b : Bool}

/-- The memory with another setting of its directory. -/
def withCompression (b : Bool) (m : Memory P) : Memory P :=
  { m with spill := m.spill.withCompression b }

theorem now_bind_commutes {f : Int → Action P α}
    (h : Commutes (withCompression b) (f (m.clock + 1)) { m with clock := m.clock + 1 }) :
    Commutes (withCompression b) (now >>= f) m :=
  h

theorem proxy_commutes (id : ProxyId) : Commutes (withCompression b) (proxy id) m := by
  refine .get_bind ?_ rfl
  split
  · exact .pure _
  · exact .throw _

theorem update_commutes (id : ProxyId) (f : P → P) :
    Commutes (withCompression b) (update id f) m :=
  (proxy_commutes id).seq fun _ _ => .modify rfl

theorem onProxy_commutes (id : ProxyId) (action : EStateM Error (P × Volume) α) :
    Commutes (withCompression b) (onProxy id action) m := by
  refine (proxy_commutes id).seq fun p t => ?_
  unfold Commutes
  dsimp only
  rw [show (t.withCompression b).spill.volume = t.spill.volume from rfl]
  cases action (p, t.spill.volume) <;> rfl

theorem onSpill_commutes {action : EStateM Error SpillDirectory α}
    (h : Commutes (SpillDirectory.withCompression b) action m.spill) :
    Commutes (withCompression b) (onSpill action) m := by
  rw [Commutes, onSpill, onSpill,
    show (m.withCompression b).spill = m.spill.withCompression b from rfl, h]
  cases action m.spill <;> rfl

theorem onManager_commutes (f : Manager → Except Failure Manager) :
    Commutes (withCompression b) (onManager f) m := by
  rw [Commutes, onManager, onManager, show (m.withCompression b).manager = m.manager from rfl]
  cases f m.manager <;> rfl

theorem ask_commutes (f : Manager → Except Failure α) :
    Commutes (withCompression b) (ask f) m := by
  refine .get_bind ?_ rfl
  split
  · exact .pure _
  · exact .throw _

theorem prune_commutes : Commutes (withCompression b) (prune (P := P)) m := .modifyGet rfl

variable [Spillable P]

theorem addToTier_commutes (id : ProxyId) (tier : Tier) :
    Commutes (withCompression b) (addToTier id tier) m :=
  (proxy_commutes id).seq fun _ _ => onManager_commutes _

theorem track_commutes (id : ProxyId) : Commutes (withCompression b) (track id) m :=
  (proxy_commutes id).seq fun _ _ => addToTier_commutes id _

theorem serialize_commutes (id : ProxyId) (tags : List Serializer) :
    Commutes (withCompression b) (serialize id tags) m :=
  onProxy_commutes id _

theorem replace_commutes (id : ProxyId) (version : ℕ) (payload : Payload) :
    Commutes (withCompression b) (replace id version payload) m :=
  (proxy_commutes id).seq fun _ _ => .modify_bind rfl (.pure _)

theorem spillFrames_commutes (id : ProxyId) (version : ℕ) (header : FrameHeader)
    (frames : List Bytes) :
    Commutes (withCompression b) (spillFrames id version header frames false) m := by
  refine .seq (onSpill_commutes (SpillDirectory.dump_commutes header frames)) fun disk _ => ?_
  refine (replace_commutes id version _).seq fun done _ => ?_
  split
  · exact addToTier_commutes id _
  · exact onSpill_commutes (SpillDirectory.onVolume_commutes _)

theorem demoteToHost_commutes (id : ProxyId) :
    Commutes (withCompression b) (demoteToHost id) m :=
  (serialize_commutes id _).seq fun _ _ => track_commutes id

theorem release_commutes (id : ProxyId) : Commutes (withCompression b) (release id) m := by
  refine .get_bind ?_ rfl
  split
  next => exact .pure _
  next p _ =>
    refine .seq (.modify ?_) fun _ _ => .get_bind ?_ rfl
    · -- A file goes from the directory, and the setting stays.
      cases Spillable.ownedFile? p <;> rfl
    · split
      · exact onManager_commutes _
      · exact .pure _

theorem releaseAll_commutes (ids : List ProxyId) :
    Commutes (withCompression b) (releaseAll ids) m := by
  induction ids generalizing m with
  | nil => exact .pure _
  | cons id ids ih =>
    refine .seq (.tryCatch (release_commutes id) fun failure _ => ?_) fun _ _ => ih
    exact .seq (.tryCatch ih fun _ _ => .pure _) fun _ _ => .throw _

end Generic

variable {log : List DeviceArray} {m : Memory (Proxy DeviceArray)} {b : Bool} {id : ProxyId}
  {p : ObjectProxy DeviceArray}

/-! ### Moves between the tiers -/

/-- A proxy that is not live is on disk already, or its frames are written as they are. -/
theorem demoteToDisk_commutes (h : Sound log m) (hfind : m.proxies.find? id = some (.object p))
    (hserialized : p.form.tier ≠ .device) :
    Commutes (withCompression b) (demoteToDisk id) m := by
  obtain ⟨a, -, hholds⟩ := h.exists_origin hfind
  have hsnapshot : Spillable.snapshot? (Proxy.object p) =
      p.payload?.map (fun payload => (p.version, payload)) := rfl
  refine (proxy_commutes id).bind (proxy_ends m id) ?_
  rintro q _ ⟨rfl, hq⟩
  rw [hfind] at hq
  cases hq
  rw [hsnapshot, ObjectProxy.payload?]
  generalize p.form = form at hholds hserialized ⊢
  cases hholds with
  | live => exact absurd rfl hserialized
  | frames tag htag =>
    have hhost : (FrameHeader.ofFrames tag a.nbytes a.frames).serializer.isHost = true := htag
    simp only [Option.map_some, hhost, if_true]
    exact spillFrames_commutes id _ _ _
  | disk => exact addToTier_commutes id .disk

theorem evictToHost_commutes (nbytes : ℕ) (units : List EvictionUnit) :
    Commutes (withCompression b) (evict nbytes units demoteToHost) m :=
  .seq (.forEach (fun id _ => demoteToHost_commutes id) _) fun _ _ => .pure _

/-- Each victim on the host has frames when its turn comes. -/
theorem evictToDisk_commutes (h : Coherent log m) (nbytes : ℕ) :
    Commutes (withCompression b) (evict nbytes (m.units .host) demoteToDisk) m := by
  -- The proxies that are done are relocated, and the others are as they were at the start.
  refine .seq (.forM (fun done t => Sound log t ∧ Relocated m t done .disk) _
    (fun done id hid t ht => ?_) [] ⟨h.toSound, .refl m .disk⟩) fun _ _ => .pure _
  obtain ⟨hsound, hrelocated⟩ := ht
  obtain ⟨q, hfind, hattached, hserialized⟩ :=
    exists_victim h h.evictable_host (by decide) hrelocated hid
  refine ⟨demoteToDisk_commutes hsound hfind hserialized, ?_⟩
  refine (demoteToDisk_serialized_ends (h.of_relocated hsound hrelocated) hfind hattached
    hserialized).mono ?_ fun _ _ _ => trivial
  rintro - u ⟨hsound', hrelocated'⟩
  exact ⟨hsound', hrelocated.trans hrelocated'⟩

theorem enforceDeviceLimit_commutes (extra : ℕ) :
    Commutes (withCompression b) (enforceDeviceLimit extra) m := by
  refine .get_bind ?_ rfl
  split
  · exact .pure _
  · exact evictToHost_commutes _ _

theorem enforceHostLimit_commutes (h : Coherent log m) (extra : ℕ) :
    Commutes (withCompression b) (enforceHostLimit extra) m := by
  refine .get_bind ?_ rfl
  split
  · exact .pure _
  · exact evictToDisk_commutes h _

theorem enforceLimits_commutes (h : Coherent log m) (extra : ℕ) :
    Commutes (withCompression b) (enforceLimits extra) m := by
  refine (enforceDeviceLimit_commutes extra).bind (enforceDeviceLimit_ends h extra) ?_
  rintro - m' ⟨hsound, hrelocated⟩
  exact (enforceHostLimit_commutes (h.of_relocated hsound hrelocated) 0).map

/-! ### Access to objects -/

/-- A look at a proxy leaves the memory as it is. -/
theorem objectProxy_bind_commutes {α : Type}
    {f : ObjectProxy DeviceArray → Action (Proxy DeviceArray) α}
    (h : ∀ p, Commutes (withCompression b) (f p) m) :
    Commutes (withCompression b) (objectProxy id >>= f) m := by
  rw [objectProxy, bind_assoc]
  refine (proxy_commutes id).bind (proxy_ends m id) ?_
  rintro p _ ⟨rfl, -⟩
  split
  · exact h _
  · exact .throw _

theorem revive_commutes (id : ProxyId) : Commutes (withCompression b) (revive id) m :=
  objectProxy_bind_commutes fun _ => onProxy_commutes id _

/-- Room is made for an object before it is made live, which needs no compression. -/
theorem object_commutes (h : Coherent log m) (halive : m.isAlive id = true) :
    Commutes (withCompression b) (object id) m := by
  obtain ⟨p, hfind⟩ := h.exists_object halive
  have htick := h.tick (m.clock + 1)
  refine now_bind_commutes ?_
  refine (update_commutes id _).bind (touch_ends htick.coherent hfind _) ?_
  rintro - m₁ ⟨htouch, -⟩
  refine objectProxy_bind_commutes fun q => ?_
  split
  next => exact .pure _
  next payload =>
    -- What is done once there is room, with and without a manager.
    have hrevive : ∀ isManaged : Bool, ∀ t, Commutes (withCompression b) (do
        let object ← revive id
        if isManaged then add id none
        return object : Action (Proxy DeviceArray) DeviceArray) t := by
      intro isManaged t
      refine (revive_commutes id).seq fun _ _ => ?_
      split
      · exact (addToTier_commutes id _).map
      · exact .pure _
    refine .get_bind ?_ rfl
    dsimp only
    split
    next hmanaged =>
      refine (enforceLimits_commutes htouch.coherent _).seq fun _ t => ?_
      exact hrevive true t
    next => exact hrevive false m₁

mutual

theorem unwrap_commutes (skipExplicit : Bool) (v : Value DeviceArray)
    {m : Memory (Proxy DeviceArray)} (h : Coherent log m)
    (halive : ∀ id ∈ v.proxies, m.isAlive id = true) :
    Commutes (withCompression b) (unwrap skipExplicit v) m := by
  match v with
  | .int n => exact .pure _
  | .object o => exact .pure _
  | .proxy id =>
    refine (proxy_commutes id).bind (proxy_ends m id) ?_
    rintro p _ ⟨rfl, -⟩
    split
    · exact .pure _
    · exact (object_commutes h (halive id List.mem_cons_self)).map
  | .list items => exact (unwrapItems_commutes skipExplicit items h halive).map

theorem unwrapItems_commutes (skipExplicit : Bool) (items : List (Value DeviceArray))
    {m : Memory (Proxy DeviceArray)} (h : Coherent log m)
    (halive : ∀ id ∈ Value.proxiesOf items, m.isAlive id = true) :
    Commutes (withCompression b) (unwrapItems skipExplicit items) m := by
  match items with
  | [] => exact .pure _
  | item :: items =>
    have hitem : ∀ id ∈ item.proxies, m.isAlive id = true := fun id hid =>
      halive id (List.mem_append_left _ hid)
    refine (unwrap_commutes skipExplicit item h hitem).bind
      (unwrap_ends skipExplicit item h hitem) ?_
    rintro item' m' ⟨hadvances, -⟩
    have hrest := hadvances.isAlive fun id hid => halive id (List.mem_append_right _ hid)
    exact (unwrapItems_commutes skipExplicit items hadvances.coherent hrest).map

end

end Memory

/-! ### Values that are wrapped -/

namespace Walk

variable {b : Bool}

/-- The walk with another setting of the directory. -/
def withCompression (b : Bool) (w : Walk DeviceArray) : Walk DeviceArray :=
  { w with memory := w.memory.withCompression b }

theorem proxyFor_withCompression (o : DeviceArray) (w : Walk DeviceArray) :
    proxyFor o (w.withCompression b) = ((proxyFor o w).1, (proxyFor o w).2.withCompression b) := by
  rw [proxyFor, proxyFor, show (w.withCompression b).seen = w.seen from rfl]
  split <;> rfl

mutual

/-- What is found in a value, and which proxies are made, is the same under every setting. -/
theorem wrap_withCompression (v : Value DeviceArray) (w : Walk DeviceArray) :
    (wrap v).run (w.withCompression b) =
      (((wrap v).run w).1, ((wrap v).run w).2.withCompression b) := by
  match v with
  | .int n => rfl
  | .object o =>
    show (Value.proxy (proxyFor o (w.withCompression b)).1,
      (proxyFor o (w.withCompression b)).2) = _
    rw [proxyFor_withCompression]
    rfl
  | .proxy id => rfl
  | .list items =>
    show (Value.list ((wrapItems items).run (w.withCompression b)).1,
      ((wrapItems items).run (w.withCompression b)).2) = _
    rw [wrapItems_withCompression]
    rfl

theorem wrapItems_withCompression (items : List (Value DeviceArray)) (w : Walk DeviceArray) :
    (wrapItems items).run (w.withCompression b) =
      (((wrapItems items).run w).1, ((wrapItems items).run w).2.withCompression b) := by
  match items with
  | [] => rfl
  | item :: items =>
    show (((wrap item).run (w.withCompression b)).1 ::
        ((wrapItems items).run ((wrap item).run (w.withCompression b)).2).1,
      ((wrapItems items).run ((wrap item).run (w.withCompression b)).2).2) = _
    rw [wrap_withCompression, wrapItems_withCompression]
    rfl

end

end Walk

namespace Memory

variable {log : List DeviceArray} {m : Memory (Proxy DeviceArray)} {b : Bool}

theorem wrap_commutes (value : Value DeviceArray) :
    Commutes (withCompression b) (wrap value) m := by
  have hwalk : Walk.wrap value ⟨m.withCompression b, .empty, []⟩ =
      ((Walk.wrap value ⟨m, .empty, []⟩).1,
        (Walk.wrap value ⟨m, .empty, []⟩).2.withCompression b) :=
    Walk.wrap_withCompression value ⟨m, .empty, []⟩
  refine .modifyGet ?_
  rw [hwalk]
  rfl

theorem trackFound_commutes (time : Int) (id : ProxyId) :
    Commutes (withCompression b) (trackFound time id) m := by
  refine (update_commutes id _).seq fun _ _ => (ask_commutes _).seq fun isTracked _ => ?_
  split
  · exact (update_commutes id _).seq fun _ _ => track_commutes id
  · exact .pure _

/-- The proxies of a value are tracked before the limits are enforced. -/
theorem adopt_commutes (h : Coherent log m) {value : Value DeviceArray}
    (hobjects : ∀ a ∈ value.objects, a.IsAddressable)
    (halive : ∀ id ∈ value.proxies, m.isAlive id = true) :
    Commutes (withCompression b) (adopt value) m := by
  refine (wrap_commutes value).bind (wrap_ends h hobjects halive) ?_
  rintro ⟨value', found⟩ m₁ ⟨hcoherent, -, -, hfound, -⟩
  refine now_bind_commutes ?_
  have htick := hcoherent.tick (m₁.clock + 1)
  refine (Commutes.forEach (fun id _ => trackFound_commutes _ id) found).bind
    (forM_trackFound_ends htick.coherent hfound _) fun _ m₂ htracked => ?_
  exact (enforceLimits_commutes htracked.coherent 0).map

end Memory

end TieredStore
