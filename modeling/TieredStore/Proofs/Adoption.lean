import TieredStore.Proofs.Accounting
import TieredStore.Proofs.Memory.Room
import TieredStore.Proofs.Memory.Walks

/-!
# Values that are adopted again

A proxy is tracked once, however often it occurs in the values that are adopted and wherever it is
tracked already. So a value whose proxies are all tracked leaves nothing behind but the time of an
access. Of any value the proxies that were not tracked come to the tiers of their forms, before
anything is evicted.

* `Memory.register`: adopting a value, up to the evictions.
* `Memory.Touched`: accesses to some proxies were recorded, all at one time.
* `Memory.Entered`: some proxies are tracked, in the tiers of their forms unless they were before.
* `Memory.trackFound_touches`, `Memory.trackFound_enters`: a proxy that was found.
* `Memory.adopt_tracks_once`: adopting a value.
-/

namespace TieredStore

/-- A proxy has what it had, although it may have been attached, or used. -/
structure ObjectProxy.SameContent (p q : ObjectProxy DeviceArray) : Prop where
  /-- It is in the form that it was in. -/
  form_eq : q.form = p.form
  /-- No form was replaced. -/
  version_eq : q.version = p.version
  /-- It is explicit if it was. -/
  isExplicit_eq : q.isExplicit = p.isExplicit

theorem ObjectProxy.SameContent.refl (p : ObjectProxy DeviceArray) : p.SameContent p :=
  ⟨rfl, rfl, rfl⟩

theorem ObjectProxy.SameContent.trans {p q r : ObjectProxy DeviceArray} (h : p.SameContent q)
    (h' : q.SameContent r) : p.SameContent r :=
  ⟨h'.form_eq.trans h.form_eq, h'.version_eq.trans h.version_eq,
    h'.isExplicit_eq.trans h.isExplicit_eq⟩

namespace Memory

variable {m t : Memory (Proxy DeviceArray)} {id : ProxyId} {ids : List ProxyId}
  {p q : ObjectProxy DeviceArray} {value : Value DeviceArray} {time : Int}

/-- Wraps a value and tracks the proxies in it, whatever the limits. -/
def register (value : Value DeviceArray) :
    Action (Proxy DeviceArray) (Value DeviceArray × List ProxyId) := do
  let (value, found) ← wrap value
  let time ← now
  found.forM (trackFound time)
  return (value, found)

/-- All that is left to do for a value is to enforce the limits. -/
theorem adopt_eq (value : Value DeviceArray) :
    adopt value = do
      let r ← register value
      enforceLimits 0
      return r := by
  simp [adopt, register]

/-! ### Values whose proxies are tracked -/

/-- The time has gone on, and the accesses to some proxies at that time were recorded. -/
structure Touched (m t : Memory (Proxy DeviceArray)) (ids : List ProxyId) : Prop where
  /-- Nothing but time and proxies has changed. -/
  memory_eq : t = { m with clock := m.clock + 1, proxies := t.proxies }
  /-- No other proxy has changed, and in these only the time of the latest access. -/
  find?_eq : ∀ id, t.proxies.find? id = (m.proxies.find? id).map fun p =>
    if id ∈ ids then Spillable.setLastAccess (m.clock + 1) p else p

theorem Touched.start (m : Memory (Proxy DeviceArray)) :
    Touched m { m with clock := m.clock + 1 } [] where
  memory_eq := rfl
  find?_eq id := by simp

theorem setLastAccess_setLastAccess (time : Int) (r : Proxy DeviceArray) :
    Spillable.setLastAccess time (Spillable.setLastAccess time r) =
      Spillable.setLastAccess time r := by
  cases r <;> rfl

/-- A proxy that is tracked already is not tracked anew. Only the access to it is recorded. -/
theorem trackFound_touches (h : Touched m t ids) (hm : m.Settled) (htracked : m.IsTracked id) :
    Ends (trackFound (m.clock + 1) id) t (fun _ t' => Touched m t' (ids ++ [id])) Never := by
  obtain ⟨tier, htracks⟩ := htracked
  obtain ⟨r, hr, -⟩ := hm.settledIn tier id htracks
  have hmanager : t.manager = m.manager := by rw [h.memory_eq]
  have hcontains : t.manager.contains id = .ok true := by
    rw [hmanager, Manager.contains, Manager.locate_of_tracks hm.exact htracks]
    rfl
  have hfind := h.find?_eq id
  rw [hr, Option.map_some] at hfind
  rw [trackFound, Ends.bind_iff, touch, update_iff hfind, Ends.bind_iff, ask_iff_of_ok hcontains]
  refine ⟨?_, fun other => ?_⟩
  · conv_lhs => rw [h.memory_eq]
  · show (t.proxies.insert id _).find? other = _
    rw [Table.find?_insert]
    split
    next hother =>
      -- It may have occurred before, and then the same time is recorded once more.
      subst hother
      rw [hr, Option.map_some, if_pos (List.mem_append_right _ (List.mem_singleton_self _))]
      split
      · rw [setLastAccess_setLastAccess]
      · rfl
    next hother =>
      have hmem : other ∈ ids ++ [id] ↔ other ∈ ids := by simp [hother]
      rw [h.find?_eq other]
      simp only [hmem]

/-- The limits are kept without an eviction if they are kept already. -/
theorem enforceLimits_of_le (hdevice : m.manager.usage .device ≤ m.manager.deviceLimit)
    (hhost : m.manager.usage .host ≤ m.manager.hostLimit) : enforceLimits 0 m = .ok () m := by
  have hexcess : ∀ {usage limit}, usage ≤ limit → excess usage 0 limit = 0 := by
    intro usage limit hle
    rw [excess, Nat.add_zero]
    omega
  apply Ends.eq_ok
  rw [enforceLimits, Ends.bind_iff, enforceDeviceLimit, Ends.bind_iff, Ends.get_iff,
    hexcess hdevice]
  show Ends (enforceHostLimit 0 >>= _) m _ _
  rw [Ends.bind_iff, enforceHostLimit, Ends.bind_iff, Ends.get_iff, hexcess hhost]
  exact ⟨rfl, rfl⟩

/-! ### Values of any kind -/

/-- Some proxies are tracked, and attached. Those that were not tracked before have come to the
tiers of their forms, and the others are where they were. No proxy has changed in what it holds. -/
structure Entered (m t : Memory (Proxy DeviceArray)) (ids : List ProxyId) : Prop where
  /-- The books agree with the proxies. -/
  settled : t.Settled
  /-- No file is touched. -/
  spill_eq : t.spill = m.spill
  /-- The proxies have what they had. -/
  find?_eq : ∀ id p, m.proxies.find? id = some (.object p) →
    ∃ q, t.proxies.find? id = some (.object q) ∧ p.SameContent q
  /-- These are attached. -/
  isAttached : ∀ id ∈ ids, t.IsAttached id
  /-- The new ones among them are tracked, with those that were before. -/
  tracks_iff : ∀ tier id, t.manager.Tracks tier id ↔ m.manager.Tracks tier id ∨
    id ∈ ids ∧ ¬ m.IsTracked id ∧ ∃ p, m.proxies.find? id = some (.object p) ∧ p.form.tier = tier

theorem Entered.start (h : m.Settled) : Entered m { m with clock := m.clock + 1 } [] where
  settled := h.congr rfl fun _ => rfl
  spill_eq := rfl
  find?_eq id p hfind := ⟨p, hfind, .refl p⟩
  isAttached id hid := by cases hid
  tracks_iff tier id := by simp

/-- A proxy that is in its tier already has to be told no more. -/
theorem Entered.put (h : Entered m t ids) (hfind : t.proxies.find? id = some (.object q))
    {r : ObjectProxy DeviceArray} (hsame : q.SameContent r) (hattached : r.isAttached = true)
    (htracked : t.IsTracked id) : Entered m (t.put id r) (ids ++ [id]) where
  settled := h.settled.put hfind hsame.form_eq fun _ => hattached
  spill_eq := h.spill_eq
  find?_eq other p hp := by
    obtain ⟨s, hs, hsame'⟩ := h.find?_eq other p hp
    by_cases hother : other = id
    · subst hother
      rw [hfind] at hs
      cases hs
      exact ⟨r, find?_put_self t other r, hsame'.trans hsame⟩
    · exact ⟨s, (find?_put_of_ne t r hother).trans hs, hsame'⟩
  isAttached other hmem := by
    rw [Memory.put, isAttached_insert t id other (.object r) t.spill]
    split
    next => exact hattached
    next hother =>
      apply h.isAttached
      simpa [hother] using hmem
  tracks_iff tier other := by
    show t.manager.Tracks tier other ↔ _
    by_cases hother : other = id
    · subst hother
      constructor
      · intro htracks
        refine ((h.tracks_iff tier other).1 htracks).imp_right (And.imp_left ?_)
        exact List.mem_append_left _
      · -- It has come to the tier of its form, since it is tracked now and was not before.
        rintro (hold | ⟨-, hnot, p, hp, htier⟩)
        · exact (h.tracks_iff tier other).2 (.inl hold)
        · obtain ⟨tier', htracks⟩ := htracked
          rcases (h.tracks_iff tier' other).1 htracks with hold | ⟨-, -, p', hp', htier'⟩
          · exact absurd ⟨tier', hold⟩ hnot
          · rw [hp] at hp'
            cases hp'
            rwa [← htier, htier']
    · have hmem : other ∈ ids ++ [id] ↔ other ∈ ids := by simp [hother]
      rw [h.tracks_iff, hmem]

/-- A proxy that is in no tier yet comes to that of its form. -/
theorem Entered.transferred {u : Memory (Proxy DeviceArray)} (h : Entered m t ids)
    (hfind : m.proxies.find? id = some (.object p))
    (hnot : ¬ t.IsTracked id)
    (htransferred : Transferred (fun q r => q.SameContent r ∧ r.isAttached = true) t u [id]
      p.form.tier)
    (hspill : u.spill = t.spill) : Entered m u (ids ++ [id]) := by
  obtain ⟨q, r, hq, hr, ⟨hsame, hattached⟩, -⟩ :=
    htransferred.changed id (List.mem_singleton_self id)
  obtain ⟨s, hs, hsame'⟩ := h.find?_eq id p hfind
  rw [hq] at hs
  cases hs
  have hothers : ∀ other, other ≠ id → u.proxies.find? other = t.proxies.find? other :=
    fun other hother => htransferred.find?_eq other (List.mem_singleton.not.2 hother)
  refine ⟨htransferred.settled_of_attached h.settled fun other hmem q' r' hq' hr' => ?_,
    hspill.trans h.spill_eq, fun other p' hp' => ?_, fun other hmem => ?_, fun tier other => ?_⟩
  · rw [List.mem_singleton.1 hmem, hq] at hq'
    cases hq'
    exact ⟨congrArg Form.tier (hr'.1.form_eq.trans hsame'.form_eq), hr'.2⟩
  · obtain ⟨s, hs, hkept⟩ := h.find?_eq other p' hp'
    by_cases hother : other = id
    · subst hother
      rw [hq] at hs
      cases hs
      exact ⟨r, hr, hkept.trans hsame⟩
    · exact ⟨s, (hothers other hother).trans hs, hkept⟩
  · by_cases hother : other = id
    · subst hother
      exact ⟨_, hr, hattached⟩
    · rw [IsAttached, hothers other hother]
      apply h.isAttached
      simpa [hother] using hmem
  · rw [htransferred.tracks_iff]
    by_cases hother : other = id
    · subst hother
      have hbefore : ¬ m.IsTracked other := by
        rintro ⟨tier', hold⟩
        exact hnot ⟨tier', (h.tracks_iff tier' other).2 (.inl hold)⟩
      rw [if_pos (List.mem_singleton_self other)]
      constructor
      · rintro rfl
        exact .inr ⟨by simp, hbefore, p, hfind, rfl⟩
      · rintro (hold | ⟨-, -, p', hp', htier⟩)
        · exact absurd ⟨tier, hold⟩ hbefore
        · rw [hfind] at hp'
          cases hp'
          exact htier.symm
    · have hmem : other ∈ ids ++ [id] ↔ other ∈ ids := by simp [hother]
      rw [if_neg (List.mem_singleton.not.2 hother), h.tracks_iff, hmem]

/-- A proxy that was found is tracked. If it was not tracked before it comes to the tier of its
form. -/
theorem trackFound_enters (h : Entered m t ids) (hfind : m.proxies.find? id = some (.object p))
    (time : Int) : Ends (trackFound time id) t (fun _ t' => Entered m t' (ids ++ [id])) Never := by
  obtain ⟨q, hq, hsame⟩ := h.find?_eq id p hfind
  obtain ⟨tier?, hlocate, htier⟩ := Manager.exists_locate h.settled.exact id
  have hcontains : t.manager.contains id = .ok tier?.isSome := by
    rw [Manager.contains, hlocate]
    rfl
  rw [trackFound, Ends.bind_iff, touch, update_iff hq, Ends.bind_iff, ask_iff_of_ok hcontains]
  cases tier? with
  | some tier =>
    -- It is tracked, so it is attached, and nothing is left to do.
    have htracks : t.manager.Tracks tier id := (htier tier).1 rfl
    obtain ⟨r, hr, hattached, -⟩ := (h.settled.settledIn tier).exists_object htracks
    rw [hq] at hr
    cases hr
    exact h.put hq ⟨rfl, rfl, rfl⟩ hattached ⟨tier, htracks⟩
  | none =>
    have hnot : ¬ t.IsTracked id := by
      rintro ⟨tier, htracks⟩
      cases (htier tier).2 htracks
    have hself := find?_put_self t id { q with lastAccess := time }
    -- The access is recorded first, then the proxy is attached, and then it comes to its tier.
    show Ends (attach id >>= fun _ => track id) (t.put id { q with lastAccess := time }) _ _
    rw [Ends.bind_iff, attach, update_iff hself, track, Ends.bind_iff,
      proxy_iff (Table.find?_insert_self _ _ _), add]
    have hplace : Tier.ofSerializer (Spillable.serializer (Proxy.object
        { q with lastAccess := time, isAttached := true })) = p.form.tier :=
      (Proxy.tier_object _).trans (congrArg Form.tier hsame.form_eq)
    have hadd : Ends (addToTier id p.form.tier)
        ((t.put id { q with lastAccess := time }).put id
          { q with lastAccess := time, isAttached := true })
        (fun _ t' => Transferred (fun q r => q.SameContent r ∧ r.isAttached = true) t t' [id]
          p.form.tier ∧ t'.spill = t.spill) Never := by
      refine addToTier_transfers (q := { q with lastAccess := time, isAttached := true })
        h.settled.exact hq ⟨⟨rfl, rfl, rfl⟩, rfl⟩ (fun htracks => hnot ⟨_, htracks⟩)
        (find?_put_self _ _ _) (fun other hother => ?_) rfl
      rw [find?_put_of_ne _ _ hother, find?_put_of_ne _ _ hother]
    rw [← hplace] at hadd
    refine hadd.of_never fun _ u hu => ?_
    rw [hplace] at hu
    exact h.transferred hfind hnot hu.1 hu.2

/-- Wrapping changes neither the books nor the proxies that were there. -/
theorem Wrapped.settled {m₁ : Memory (Proxy DeviceArray)} {proxyOf : DeviceArray → ProxyId}
    {found : List ProxyId} (h : Wrapped m m₁ value proxyOf found) (hm : m.Settled) :
    m₁.Settled := by
  refine ⟨h.manager_eq ▸ hm.exact, fun tier =>
    (hm.settledIn tier).congr h.manager_eq fun id htracks => ?_⟩
  obtain ⟨r, hr, -⟩ := hm.settledIn tier id htracks
  exact (h.find?_eq hr).trans hr.symm

/-- The proxies that are in a value once it is wrapped are proxies of objects, if those were that
were in it before. -/
theorem Wrapped.exists_object {m₁ : Memory (Proxy DeviceArray)} {proxyOf : DeviceArray → ProxyId}
    {found : List ProxyId} (h : Wrapped m m₁ value proxyOf found)
    (hobjects : ∀ id ∈ value.proxies, ∃ p, m.proxies.find? id = some (.object p)) :
    ∀ id ∈ found, ∃ p, m₁.proxies.find? id = some (.object p) := by
  intro id hid
  rw [h.mem_found_iff, Value.mem_proxies_withProxies_iff] at hid
  rcases hid with hold | ⟨a, ha, rfl⟩
  · obtain ⟨p, hp⟩ := hobjects id hold
    exact ⟨p, h.find?_eq hp⟩
  · obtain ⟨o, -, -, time, hfind⟩ := h.find?_new a ha
    exact ⟨_, hfind⟩

/-- A value without objects is adopted as it is if its proxies are tracked and the limits are kept.
All that is left of that is the time of an access. -/
theorem adopt_of_tracked (h : m.Settled) (hnone : value.objects = [])
    (htracked : ∀ id ∈ value.proxies, m.IsTracked id)
    (hdevice : m.manager.usage .device ≤ m.manager.deviceLimit)
    (hhost : m.manager.usage .host ≤ m.manager.hostLimit) :
    ∃ m', adopt value m = .ok (value, value.proxies) m' ∧ Touched m m' value.proxies := by
  have hends : Ends (register value) m
      (fun r m' => r = (value, value.proxies) ∧ Touched m m' value.proxies) Never := by
    rw [register, Ends.bind_iff, Ends, wrap_eq_self value hnone m]
    show Ends (now >>= fun time => _) m _ _
    rw [Ends.bind_iff, now, Ends.modifyGet_iff, Ends.bind_iff]
    -- Each of the proxies that were found is touched in turn.
    refine (Ends.forM (fun done t => Touched m t done) _ (fun done id hid t ht => ?_)
      (Touched.start m)).of_never fun _ t ht => ⟨rfl, ht⟩
    exact trackFound_touches ht h (htracked id hid)
  obtain ⟨_, m', hrun, rfl, htouched⟩ := hends.exists_ok fun _ _ hbad => hbad
  have hmanager : m'.manager = m.manager := by rw [htouched.memory_eq]
  have hlimits : enforceLimits 0 m' = .ok () m' := by
    apply enforceLimits_of_le <;> rwa [hmanager]
  refine ⟨m', ?_, htouched⟩
  rw [adopt_eq]
  simp [bind, EStateM.bind, hrun, hlimits, pure, EStateM.pure]

/-- Proxies are tracked once. A value whose proxies are tracked already is given back as it is, as
long as device and host are within their limits, and all that has changed after that is the time of
the latest access to these proxies, which is the same for all of them. When any other value has been
wrapped, the proxies in it that were not tracked are attached and come to the tiers of their forms,
while all others are where they were; evictions come after that. -/
theorem adopt_tracks_once (h : m.Settled) (value : Value DeviceArray) :
    (value.objects = [] → (∀ id ∈ value.proxies, m.IsTracked id) →
      m.manager.usage .device ≤ m.manager.deviceLimit →
      m.manager.usage .host ≤ m.manager.hostLimit →
      ∃ m', adopt value m = .ok (value, value.proxies) m' ∧ Touched m m' value.proxies) ∧
    (m.Fresh → (∀ id ∈ value.proxies, ∃ p, m.proxies.find? id = some (.object p)) →
      ∃ proxyOf found m₁, register value m = .ok (value.withProxies proxyOf, found) m₁ ∧
        adopt value m =
          (do enforceLimits 0; return (value.withProxies proxyOf, found) : Action _ _) m₁ ∧
        m₁.Settled ∧ m₁.spill = m.spill ∧
        (∀ id p, m.proxies.find? id = some (.object p) →
          ∃ q, m₁.proxies.find? id = some (.object q) ∧ p.SameContent q) ∧
        (∀ id ∈ (value.withProxies proxyOf).proxies, m₁.IsAttached id) ∧
        ∀ tier id, m₁.manager.Tracks tier id ↔ m.manager.Tracks tier id ∨
          id ∈ (value.withProxies proxyOf).proxies ∧ ¬ m.IsTracked id ∧
            ∃ p, m₁.proxies.find? id = some p ∧ Spillable.tier p = tier) := by
  refine ⟨adopt_of_tracked h, fun hfresh hobjects => ?_⟩
  obtain ⟨proxyOf, found, m₀, hwrap, hstate⟩ := wrap_eq hfresh value fun id hid => by
    obtain ⟨p, hp⟩ := hobjects id hid
    exact Table.contains_of_find? hp
  -- Whatever was found is a proxy of an object, and enters the books in its turn.
  have hobjects₀ := hstate.exists_object hobjects
  have hends : Ends (register value) m
      (fun r t => r = (value.withProxies proxyOf, found) ∧ Entered m₀ t found) Never := by
    rw [register, Ends.bind_iff, Ends, hwrap]
    show Ends (now >>= fun time => _) m₀ _ _
    rw [Ends.bind_iff, now, Ends.modifyGet_iff, Ends.bind_iff]
    refine (Ends.forM (fun done t => Entered m₀ t done) _ (fun done id hid t ht => ?_)
      (Entered.start (hstate.settled h))).of_never fun _ t ht => ⟨rfl, ht⟩
    obtain ⟨p, hp⟩ := hobjects₀ id hid
    exact trackFound_enters ht hp _
  obtain ⟨_, m₁, hrun, rfl, hentered⟩ := hends.exists_ok fun _ _ hbad => hbad
  refine ⟨proxyOf, found, m₁, hrun, ?_, hentered.settled, hentered.spill_eq.trans hstate.spill_eq,
    fun id p hp => hentered.find?_eq id p (hstate.find?_eq hp),
    fun id hid => hentered.isAttached id ((hstate.mem_found_iff id).2 hid), fun tier id => ?_⟩
  · rw [adopt_eq]
    simp [bind, EStateM.bind, hrun]
  · rw [hentered.tracks_iff, hstate.mem_found_iff, IsTracked, hstate.manager_eq]
    refine or_congr_right (and_congr_right fun hid => and_congr_right fun _ => ?_)
    -- The form of the proxy is that which it had when the value had been wrapped.
    obtain ⟨p, hp⟩ := hobjects₀ id ((hstate.mem_found_iff id).2 hid)
    obtain ⟨q, hq, hsame⟩ := hentered.find?_eq id p hp
    simp [hp, hq, Proxy.tier_object, hsame.form_eq]

/-- A proxy that occurs twice. -/
def repeatedProxy : Value DeviceArray := .list [.proxy ⟨1⟩, .list [.int 3, .proxy ⟨1⟩]]

/-- A proxy beside an array. -/
def besideArray : Value DeviceArray := .list [.object Store.smallArray, .proxy ⟨1⟩]

theorem adopt_tracks_once_on_disk :
    (∃ m', adopt repeatedProxy Store.spilledStore.memory = .ok (repeatedProxy, [⟨1⟩, ⟨1⟩]) m' ∧
      Touched Store.spilledStore.memory m' [⟨1⟩, ⟨1⟩]) ∧
    ∃ proxyOf found m₁,
      register besideArray Store.spilledStore.memory =
        .ok (besideArray.withProxies proxyOf, found) m₁ ∧
        m₁.Settled ∧ ∀ id ∈ [proxyOf Store.smallArray, ⟨1⟩], m₁.IsAttached id := by
  have hsettled := Store.run_spilledStore.spares.settled
  have htracked : ∀ id ∈ repeatedProxy.proxies, Store.spilledStore.memory.IsTracked id := by
    intro id hid
    obtain rfl : id = ⟨1⟩ := by simpa [repeatedProxy, Value.proxies, Value.proxiesOf] using hid
    exact ⟨.disk, List.mem_cons_self⟩
  refine ⟨(adopt_tracks_once hsettled repeatedProxy).1 rfl htracked (by decide) (by decide), ?_⟩
  obtain ⟨proxyOf, found, m₁, hrun, -, hsettled₁, -, -, hattached, -⟩ :=
    (adopt_tracks_once hsettled besideArray).2 Store.run_spilledStore.coherent.memory.toSound.fresh
      fun id hid => by
        obtain rfl := List.mem_singleton.1 hid
        exact Store.run_spilledStore.coherent.memory.exists_object rfl
  exact ⟨proxyOf, found, m₁, hrun, hsettled₁, hattached⟩

end Memory

end TieredStore
