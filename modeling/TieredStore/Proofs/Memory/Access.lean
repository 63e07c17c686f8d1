import TieredStore.Proofs.Memory.Demotion
import TieredStore.Value

/-!
# Objects are given back

Asking a proxy for its object gives the array that the proxy was made around, whatever the
evictions do that come before. So does unwrapping a value, proxy by proxy.

* `touch_ends`, `attach_track_ends`: what precedes.
* `revive_attached_ends`, `revive_detached_ends`: a serialized proxy, with and without the manager.
* `object_ends`: the object of a single proxy, and how room is made for it.
* `Value.resolve`: a value with objects in the place of proxies.
* `unwrap_ends`: that is what unwrapping a value gives.
-/

namespace TieredStore

namespace Value

variable {T : Type} {lookup other : ProxyId → Option T}

mutual

/-- A value with objects in the place of proxies. A proxy without an object is left. -/
def resolve (lookup : ProxyId → Option T) : Value T → Value T
  | int n => int n
  | object o => object o
  | proxy id =>
    match lookup id with
    | some o => object o
    | none => proxy id
  | list items => list (resolveAll lookup items)

/-- Values with objects in the place of proxies. -/
def resolveAll (lookup : ProxyId → Option T) : List (Value T) → List (Value T)
  | [] => []
  | item :: items => resolve lookup item :: resolveAll lookup items

end

mutual

/-- Only proxies that were in a value are left. -/
theorem proxies_resolve_subset (lookup : ProxyId → Option T) (v : Value T) :
    (v.resolve lookup).proxies ⊆ v.proxies :=
  match v with
  | int _ | object _ => List.Subset.refl _
  | proxy id => by
    rw [resolve]
    split
    · exact List.nil_subset _
    · exact List.Subset.refl _
  | list items => proxiesOf_resolveAll_subset lookup items

theorem proxiesOf_resolveAll_subset (lookup : ProxyId → Option T) (items : List (Value T)) :
    proxiesOf (resolveAll lookup items) ⊆ proxiesOf items :=
  match items with
  | [] => List.Subset.refl _
  | item :: items => List.append_subset.2
    ⟨List.subset_append_of_subset_left _ (proxies_resolve_subset lookup item),
      List.subset_append_of_subset_right _ (proxiesOf_resolveAll_subset lookup items)⟩

end

mutual

/-- Only the objects of the proxies in a value matter. -/
theorem resolve_congr (v : Value T) (h : ∀ id ∈ v.proxies, lookup id = other id) :
    v.resolve lookup = v.resolve other :=
  match v with
  | int _ | object _ => rfl
  | proxy id => by rw [resolve, resolve, h id List.mem_cons_self]
  | list items => congrArg list (resolveAll_congr items h)

theorem resolveAll_congr (items : List (Value T))
    (h : ∀ id ∈ proxiesOf items, lookup id = other id) :
    resolveAll lookup items = resolveAll other items :=
  match items with
  | [] => rfl
  | item :: items => congrArg₂ List.cons
    (resolve_congr item fun id hid => h id (List.mem_append_left _ hid))
    (resolveAll_congr items fun id hid => h id (List.mem_append_right _ hid))

end

end Value

namespace Memory

variable {log : List DeviceArray} {m m' m'' : Memory (Proxy DeviceArray)} {id : ProxyId}
  {p q : ObjectProxy DeviceArray} {a : DeviceArray} {tier : Tier}

theorem touch_ends (h : Coherent log m) (hfind : m.proxies.find? id = some (.object p))
    (time : Int) :
    Ends (touch id time) m
      (fun _ m' => Advances log m m' ∧ Reformed m m' id p { p with lastAccess := time }) Never := by
  rw [touch, update_iff hfind]
  exact h.touch hfind rfl (fun hp => hp) rfl

/-- A proxy that is attached to the manager and tracked goes to the tier of its form. -/
theorem attach_track_ends (h : Coherent log m) (hfind : m.proxies.find? id = some (.object p)) :
    Ends (do attach id; track id) m (fun _ m' => Advances log m m') Never := by
  rw [Ends.bind_iff, attach, update_iff hfind]
  obtain ⟨hadvances, hreformed⟩ :=
    h.touch (q := Spillable.attach p) hfind rfl (fun _ => rfl) rfl
  have hfind' := hreformed.find?_self
  refine (track_ends hadvances.coherent.toSound hfind' rfl).mono_ok ?_
  rintro - m' ⟨hsound, htracked⟩
  have hrelocated := htracked.relocated hfind' rfl
  exact hadvances.trans (hadvances.coherent.advances hsound hrelocated)

/-- A proxy that is not attached is made live without being tracked. -/
theorem revive_detached_ends (h : Coherent log m) (hfind : m.proxies.find? id = some (.object p))
    (horigin : origin? log id = some a) (hattached : p.isAttached = false) :
    Ends (revive id) m (fun b m' => b = a ∧ Advances log m m') Never := by
  -- Only attached proxies are tracked, so there is no tier to move it from.
  have hnot : ∀ t, ¬ m.manager.Tracks t id := by
    intro t htracks
    obtain ⟨r, hr, hr'⟩ := h.attached htracks
    rw [hfind] at hr
    cases hr
    rw [hattached] at hr'
    cases hr'
  refine (revive_ends h.toSound hfind horigin (h.tier_eq_or_device hfind)).of_never ?_
  rintro b m' ⟨rfl, hsound, q, hreformed, hlive⟩
  have hdevice : q.form.tier = .device := by
    rw [hlive]
    rfl
  exact ⟨rfl, { hreformed.toKept with
    coherent := h.of_reformed hsound hreformed fun t htracks => absurd htracks (hnot t)
    stranded := fun _ hid => hreformed.stranded hfind (fun htier => by
      rw [hdevice] at htier
      cases htier) hid
    enrolled := fun _ hid => hreformed.enrolled hfind (fun htier => absurd hdevice htier) hid }⟩

/-- Room is made for a proxy that is attached, which then comes to the device. -/
theorem revive_attached_ends (h : Coherent log m) (hfind : m.proxies.find? id = some (.object p))
    (horigin : origin? log id = some a) (hattached : p.isAttached = true) :
    Ends (do
        enforceLimits a.nbytes
        let b ← revive id
        add id none
        return b) m
      (fun b m' => b = a ∧ Advances log m m' ∧
        ∃ m₁, Enforced log a.nbytes m m₁ ∧ Relocated m₁ m' [id] .device)
      (Refused log m) := by
  rw [Ends.bind_iff]
  refine (enforceLimits_ends h a.nbytes).mono_ok ?_
  intro _ m₁ hlimits
  have hadvances := hlimits.advances h
  -- The evictions may have put the proxy into another form.
  obtain ⟨q, hfind₁, hattached₁⟩ := hlimits.exists_find? hfind
  rw [Ends.bind_iff]
  refine (revive_ends hadvances.coherent.toSound hfind₁ horigin
    (hadvances.coherent.tier_eq_or_device hfind₁)).of_never ?_
  rintro b m₂ ⟨rfl, hsound₂, r, hreformed, hlive⟩
  have hfind₂ := hreformed.find?_self
  have hdevice : r.form.tier = .device := by
    rw [hlive]
    rfl
  rw [Ends.bind_iff]
  refine (addToTier_ends hsound₂ hfind₂ (hreformed.isAttached (hattached₁ hattached))
    hdevice).of_never ?_
  rintro - m₃ ⟨hsound₃, htracked⟩
  have hrelocated := hreformed.relocated (htracked.relocated hfind₂ hdevice) hfind₁
  exact ⟨rfl, hadvances.trans (hadvances.coherent.advances hsound₃ hrelocated), m₁, hlimits,
    hrelocated⟩

/-- A proxy gives its array. If that was serialized and the proxy is attached, room is made first:
on the device, then on the host. After that the proxy is live and tracked on the device. -/
theorem object_ends (h : Coherent log m) (hfind : m.proxies.find? id = some (.object p))
    (horigin : origin? log id = some a) :
    Ends (object id) m
      (fun b m' => b = a ∧ Advances log m m' ∧ (p.isAttached = true → p.form.tier ≠ .device →
        ∃ m₁ m₂, Advances log m m₁ ∧ m₁.manager = m.manager ∧ Enforced log a.nbytes m₁ m₂ ∧
          Relocated m₂ m' [id] .device))
      (Refused log m) := by
  rw [object, Ends.bind_iff, now, Ends.modifyGet_iff, Ends.bind_iff]
  have htick := h.tick (m.clock + 1)
  refine (touch_ends htick.coherent hfind _).of_never ?_
  rintro - m₁ ⟨htouch, hreformed⟩
  have hadvances := htick.trans htouch
  have hcoherent := hadvances.coherent
  have hfind₁ := hreformed.find?_self
  have hmanager : m₁.manager = m.manager := hreformed.manager_eq
  rw [Ends.bind_iff, objectProxy_iff hfind₁]
  have hholds := hcoherent.holds hfind₁ horigin
  dsimp only at hholds ⊢
  split
  next b hform =>
    -- The proxy is live already, and only the access is recorded.
    rw [hform] at hholds
    cases hholds
    exact ⟨rfl, hadvances, fun _ htier => absurd (by rw [hform]; rfl) htier⟩
  next payload hform =>
    have hnbytes : payload.nbytes = a.nbytes := by
      have := ObjectProxy.nbytes_of_holds (hcoherent.holds hfind₁ horigin)
      rw [ObjectProxy.nbytes] at this
      rwa [hform] at this
    rw [Ends.bind_iff, Ends.get_iff, hcoherent.isManaged_eq, Bool.and_true, hnbytes]
    by_cases hattached : p.isAttached = true
    · simp only [hattached, if_true]
      refine (revive_attached_ends hcoherent hfind₁ horigin hattached).mono ?_ ?_
      · rintro b m' ⟨rfl, hadvances₁, m₂, hlimits, hrelocated⟩
        exact ⟨rfl, hadvances.trans hadvances₁,
          fun _ _ => ⟨m₁, m₂, hadvances, hmanager, hlimits, hrelocated⟩⟩
      · intro e m' hrefused
        exact hrefused.of_advances hadvances
    · -- Nothing makes room for a proxy that the manager does not know.
      rw [Bool.not_eq_true] at hattached
      simp only [hattached, Bool.false_eq_true, if_false, Ends.bind_iff, Ends.pure_iff]
      refine (revive_detached_ends hcoherent hfind₁ horigin hattached).of_never ?_
      rintro b m' ⟨rfl, hadvances₁⟩
      exact ⟨rfl, hadvances.trans hadvances₁, fun hp => by cases hp⟩

/-! ### Objects in values -/

theorem Kept.isAlive (h : Kept m m') {ids : List ProxyId}
    (halive : ∀ id ∈ ids, m.isAlive id = true) : ∀ id ∈ ids, m'.isAlive id = true :=
  fun id hid => (h.isAlive_eq id).trans (halive id hid)

/-- The array that unwrapping puts in the place of a proxy, unless it leaves the proxy alone. -/
def opened? (log : List DeviceArray) (m : Memory (Proxy DeviceArray)) (skipExplicit : Bool)
    (id : ProxyId) : Option DeviceArray :=
  if skipExplicit && m.isExplicit id then none else origin? log id

/-- The same is put in the place of proxies as long as the same are explicit. -/
theorem Kept.opened?_eq (h : Kept m m') (log : List DeviceArray) (skipExplicit : Bool) :
    m'.opened? log skipExplicit = m.opened? log skipExplicit := by
  funext id
  rw [opened?, h.isExplicit_eq, opened?]

mutual

/-- A value whose proxies exist can be unwrapped. It has the arrays that its proxies were made
around in the place of the proxies. -/
theorem unwrap_ends (skipExplicit : Bool) (v : Value DeviceArray)
    {m : Memory (Proxy DeviceArray)} (h : Coherent log m)
    (halive : ∀ id ∈ v.proxies, m.isAlive id = true) :
    Ends (unwrap skipExplicit v) m
      (fun v' m' => Advances log m m' ∧ v' = v.resolve (m.opened? log skipExplicit))
      (Refused log m) := by
  match v with
  | .int n => exact ⟨.refl h, rfl⟩
  | .object o => exact ⟨.refl h, rfl⟩
  | .proxy id =>
    obtain ⟨p, hfind⟩ := h.exists_object (halive id List.mem_cons_self)
    obtain ⟨a, horigin, -⟩ := h.exists_origin hfind
    rw [unwrap, Ends.bind_iff, proxy_iff hfind, Value.resolve, opened?, isExplicit_eq hfind]
    split
    next hskip =>
      have hskip' : (skipExplicit && p.isExplicit) = true := hskip
      rw [if_pos hskip']
      exact ⟨.refl h, rfl⟩
    next hskip =>
      have hskip' : ¬ (skipExplicit && p.isExplicit) = true := hskip
      rw [if_neg hskip', horigin, Ends.bind_iff]
      refine (object_ends h hfind horigin).mono_ok ?_
      rintro b m' ⟨rfl, hadvances, -⟩
      exact ⟨hadvances, rfl⟩
  | .list items =>
    rw [unwrap, Ends.bind_iff]
    refine (unwrapItems_ends skipExplicit items h halive).mono_ok ?_
    rintro items' m' ⟨hadvances, rfl⟩
    exact ⟨hadvances, rfl⟩

theorem unwrapItems_ends (skipExplicit : Bool) (items : List (Value DeviceArray))
    {m : Memory (Proxy DeviceArray)} (h : Coherent log m)
    (halive : ∀ id ∈ Value.proxiesOf items, m.isAlive id = true) :
    Ends (unwrapItems skipExplicit items) m
      (fun items' m' => Advances log m m' ∧
        items' = Value.resolveAll (m.opened? log skipExplicit) items)
      (Refused log m) := by
  match items with
  | [] => exact ⟨.refl h, rfl⟩
  | item :: items =>
    rw [unwrapItems, Ends.bind_iff]
    refine (unwrap_ends skipExplicit item h fun id hid =>
      halive id (List.mem_append_left _ hid)).mono_ok ?_
    rintro item' m' ⟨hadvances, rfl⟩
    rw [Ends.bind_iff]
    refine (unwrapItems_ends skipExplicit items hadvances.coherent
      (hadvances.isAlive fun id hid => halive id (List.mem_append_right _ hid))).mono ?_ ?_
    · rintro items' m'' ⟨hadvances', rfl⟩
      rw [hadvances.opened?_eq]
      exact ⟨hadvances.trans hadvances', rfl⟩
    · intro e m'' hrefused
      exact hrefused.of_advances hadvances

end

end Memory

end TieredStore
