import TieredStore.Memory.Access
import TieredStore.Proofs.Memory.Sound

/-!
# The steps of operations

How the actions end that operations on the memory are made of. Each of them changes the form of a
proxy or the tier that it is tracked in, and keeps the memory sound.

* `serialize_ends`, `revive_ends`: another form for a proxy (`Reformed`).
* `addToTier_ends`, `track_ends`: another place for a proxy (`Tracked`).
* `spillFrames_ends`: both at once (`Relocated`).
-/

namespace TieredStore

namespace Memory

/-! ### Taking actions apart -/

section

variable {P α : Type} {m : Memory P} {id : ProxyId} {p : P} {bad : Failure → Memory P → Prop}

theorem proxy_iff (h : m.proxies.find? id = some p) {ok : P → Memory P → Prop} :
    Ends (proxy id) m ok bad ↔ ok p m := by
  simp [proxy, h]

theorem update_iff (h : m.proxies.find? id = some p) (f : P → P) {ok : Unit → Memory P → Prop} :
    Ends (update id f) m ok bad ↔ ok () { m with proxies := m.proxies.insert id (f p) } := by
  simp only [update, Ends.bind_iff, proxy_iff h, Ends.modify_iff]

theorem replace_iff [Spillable P] (h : m.proxies.find? id = some p) (version : ℕ)
    (payload : Payload) {ok : Bool → Memory P → Prop} :
    Ends (replace id version payload) m ok bad ↔
      ok (Spillable.replace version payload p).1
        { m with proxies := m.proxies.insert id (Spillable.replace version payload p).2 } := by
  rw [replace, Ends.bind_iff, proxy_iff h]
  rfl

/-- An action on a proxy that exists ends as it does on the proxy and the files. -/
theorem onProxy_iff (h : m.proxies.find? id = some p) {action : EStateM Error (P × Volume) α}
    {ok : α → Memory P → Prop} :
    Ends (onProxy id action) m ok bad ↔
      Ends action (p, m.spill.volume)
        (fun x r => ok x { m with
          proxies := m.proxies.insert id r.1, spill := { m.spill with volume := r.2 } })
        (fun e r => bad (.error e) { m with
          proxies := m.proxies.insert id r.1, spill := { m.spill with volume := r.2 } }) := by
  have hproxy : proxy id m = .ok p m :=
    ((proxy_iff h).2 ⟨rfl, rfl⟩ : Ends (proxy id) m (fun q n => q = p ∧ n = m) Never).eq_ok
  simp only [Ends, onProxy, bind, EStateM.bind, hproxy]
  cases action (p, m.spill.volume) <;> rfl

theorem onSpill_iff {action : EStateM Error SpillDirectory α} {ok : α → Memory P → Prop} :
    Ends (onSpill action) m ok bad ↔
      Ends action m.spill (fun x spill => ok x { m with spill })
        (fun e spill => bad (.error e) { m with spill }) := by
  simp only [Ends, onSpill]
  cases action m.spill <;> rfl

theorem onManager_iff_of_ok {f : Manager → Except Failure Manager} {new : Manager}
    (h : f m.manager = .ok new) {ok : Unit → Memory P → Prop} :
    Ends (onManager f) m ok bad ↔ ok () { m with manager := new } := by
  simp only [Ends, onManager, h]

theorem ask_iff_of_ok {f : Manager → Except Failure α} {x : α} (h : f m.manager = .ok x)
    {ok : α → Memory P → Prop} : Ends (ask f) m ok bad ↔ ok x m := by
  simp [ask, h]

theorem objectProxy_iff {T : Type} {m : Memory (Proxy T)} {p : ObjectProxy T}
    (hfind : m.proxies.find? id = some (.object p))
    {ok : ObjectProxy T → Memory (Proxy T) → Prop} {bad : Failure → Memory (Proxy T) → Prop} :
    Ends (objectProxy id) m ok bad ↔ ok p m := by
  rw [objectProxy, Ends.bind_iff, proxy_iff hfind]
  rfl

section

variable {T : Type} [DeviceObject T] {m : Memory (Proxy T)} {p : ObjectProxy T}
  {bad : Failure → Memory (Proxy T) → Prop}

theorem serialize_iff (hfind : m.proxies.find? id = some (.object p)) {tags : List Serializer}
    {ok : Unit → Memory (Proxy T) → Prop} :
    Ends (serialize id tags) m ok bad ↔
      Ends (ObjectProxy.serialize tags) (p, m.spill.volume)
        (fun x r => ok x { m with
          proxies := m.proxies.insert id (.object r.1), spill := { m.spill with volume := r.2 } })
        (fun e r => bad (.error e) { m with
          proxies := m.proxies.insert id (.object r.1)
          spill := { m.spill with volume := r.2 } }) := by
  rw [serialize, onProxy_iff hfind]
  show Ends (Proxy.serialize tags) _ _ _ ↔ _
  simp only [Proxy.serialize, Ends.bind_iff, Ends.get_iff, Proxy.lift_iff]

theorem revive_iff (hfind : m.proxies.find? id = some (.object p))
    {ok : T → Memory (Proxy T) → Prop} :
    Ends (revive id) m ok bad ↔
      Ends ObjectProxy.revive (p, m.spill.volume)
        (fun a r => ok a { m with
          proxies := m.proxies.insert id (.object r.1), spill := { m.spill with volume := r.2 } })
        (fun e r => bad (.error e) { m with
          proxies := m.proxies.insert id (.object r.1)
          spill := { m.spill with volume := r.2 } }) := by
  rw [revive, Ends.bind_iff, objectProxy_iff hfind, onProxy_iff hfind, Proxy.lift_iff]

end

end

/-! ### What changes -/

variable {log : List DeviceArray} {m m' m'' : Memory (Proxy DeviceArray)} {id : ProxyId}
  {p q : ObjectProxy DeviceArray} {a : DeviceArray} {tier : Tier}

/-- The limits and the state of the directory are as before, and no file has been written over. -/
structure SameLimits (m m' : Memory (Proxy DeviceArray)) : Prop where
  /-- The limit of the device stays. -/
  deviceLimit_eq : m'.manager.deviceLimit = m.manager.deviceLimit
  /-- The limit of the host stays. -/
  hostLimit_eq : m'.manager.hostLimit = m.manager.hostLimit
  /-- The directory is there if it was. -/
  isPresent_eq : m'.spill.volume.isPresent = m.spill.volume.isPresent
  /-- The same files are refused. -/
  refused_eq : m'.spill.volume.refused = m.spill.volume.refused
  /-- No file is written over, and no name given out again. -/
  evolves : m.spill.Evolves m'.spill

/-- The same proxies exist, under the same limits. -/
structure Kept (m m' : Memory (Proxy DeviceArray)) : Prop extends SameLimits m m' where
  /-- The same proxies exist. -/
  isAlive_eq : ∀ id, m'.isAlive id = m.isAlive id
  /-- The same proxies are explicit. -/
  isExplicit_eq : ∀ id, m'.isExplicit id = m.isExplicit id

/-- One proxy has another form, and nothing else has changed but the files. -/
structure Reformed (m m' : Memory (Proxy DeviceArray)) (id : ProxyId)
    (p q : ObjectProxy DeviceArray) : Prop extends Kept m m' where
  /-- The other proxies stay as they are. -/
  find?_eq : ∀ other,
    m'.proxies.find? other = if other = id then some (.object q) else m.proxies.find? other
  /-- The proxy is attached if it was. -/
  isAttached : p.isAttached = true → q.isAttached = true
  /-- The books stay. -/
  manager_eq : m'.manager = m.manager

/-- One proxy is tracked in a tier and nowhere else, and nothing else has changed. -/
structure Tracked (m m' : Memory (Proxy DeviceArray)) (id : ProxyId) (tier : Tier) : Prop
    extends Kept m m' where
  /-- All proxies stay as they are. -/
  proxies_eq : m'.proxies = m.proxies
  /-- The files stay. -/
  spill_eq : m'.spill = m.spill
  /-- The proxy is in the tier, and the others are where they were. -/
  tracks_iff : ∀ t other,
    m'.manager.Tracks t other ↔ if other = id then t = tier else m.manager.Tracks t other

/-- Some proxies have a form that goes with a tier and are tracked there, and the others have
stayed where they were, in the form that they had. -/
structure Relocated (m m' : Memory (Proxy DeviceArray)) (ids : List ProxyId) (tier : Tier) : Prop
    extends Kept m m' where
  /-- The others stay as they are. -/
  find?_eq : ∀ id, id ∉ ids → m'.proxies.find? id = m.proxies.find? id
  /-- The proxies have a form that goes with the tier. -/
  find?_of_mem : ∀ id ∈ ids, ∀ p, m.proxies.find? id = some (.object p) →
    ∃ q, m'.proxies.find? id = some (.object q) ∧ q.form.tier = tier ∧
      (p.isAttached = true → q.isAttached = true)
  /-- The proxies are in the tier, and the others are where they were. -/
  tracks_iff : ∀ t id,
    m'.manager.Tracks t id ↔ if id ∈ ids then t = tier else m.manager.Tracks t id

theorem Reformed.find?_self (h : Reformed m m' id p q) :
    m'.proxies.find? id = some (.object q) :=
  (h.find?_eq id).trans (if_pos rfl)

theorem SameLimits.refl (m : Memory (Proxy DeviceArray)) : SameLimits m m :=
  ⟨rfl, rfl, rfl, rfl, .refl _⟩

theorem SameLimits.trans (h : SameLimits m m') (h' : SameLimits m' m'') : SameLimits m m'' :=
  ⟨h'.deviceLimit_eq.trans h.deviceLimit_eq, h'.hostLimit_eq.trans h.hostLimit_eq,
    h'.isPresent_eq.trans h.isPresent_eq, h'.refused_eq.trans h.refused_eq,
    h.evolves.trans h'.evolves⟩

theorem SameLimits.writable_iff (h : SameLimits m m') : m'.spill.Writable ↔ m.spill.Writable := by
  rw [SpillDirectory.Writable, SpillDirectory.Writable, h.isPresent_eq, h.refused_eq]

theorem Kept.refl (m : Memory (Proxy DeviceArray)) : Kept m m :=
  ⟨.refl m, fun _ => rfl, fun _ => rfl⟩

theorem Kept.trans (h : Kept m m') (h' : Kept m' m'') : Kept m m'' :=
  ⟨h.toSameLimits.trans h'.toSameLimits, fun id => (h'.isAlive_eq id).trans (h.isAlive_eq id),
    fun id => (h'.isExplicit_eq id).trans (h.isExplicit_eq id)⟩

/-- The same proxies exist if none of them changes. -/
theorem SameLimits.kept (h : SameLimits m m') (hproxies : m'.proxies = m.proxies) : Kept m m' where
  toSameLimits := h
  isAlive_eq id := by rw [isAlive, hproxies, isAlive]
  isExplicit_eq id := isExplicit_congr (by rw [hproxies])

theorem Relocated.refl (m : Memory (Proxy DeviceArray)) (tier : Tier) : Relocated m m [] tier :=
  { Kept.refl m with
    find?_eq := fun _ _ => rfl
    find?_of_mem := fun _ hid => by cases hid
    tracks_iff := fun _ _ => by simp }

theorem Relocated.tracks_iff_of_not_mem {ids : List ProxyId} (h : Relocated m m' ids tier)
    (hid : id ∉ ids) (t : Tier) : m'.manager.Tracks t id ↔ m.manager.Tracks t id := by
  rw [h.tracks_iff, if_neg hid]

/-- A proxy among those that are relocated has a form that goes with the tier. -/
theorem Relocated.tier_of_mem {ids : List ProxyId} (h : Relocated m m' ids tier)
    (hsound : Sound log m) (hid : id ∈ ids) (hfind : m'.proxies.find? id = some (.object q)) :
    q.form.tier = tier := by
  have halive : m.isAlive id = true :=
    (h.isAlive_eq id).symm.trans (Table.contains_of_find? hfind)
  obtain ⟨p, hp⟩ := hsound.exists_object halive
  obtain ⟨r, hr, htier, -⟩ := h.find?_of_mem id hid p hp
  rw [hfind] at hr
  cases hr
  exact htier

/-- Every proxy is still there when some have been relocated. -/
theorem Relocated.exists_find? {ids : List ProxyId} (h : Relocated m m' ids tier)
    (hfind : m.proxies.find? id = some (.object p)) :
    ∃ q, m'.proxies.find? id = some (.object q) ∧
      (p.isAttached = true → q.isAttached = true) := by
  by_cases hid : id ∈ ids
  · obtain ⟨q, hq, -, hattached⟩ := h.find?_of_mem id hid p hfind
    exact ⟨q, hq, hattached⟩
  · exact ⟨p, (h.find?_eq id hid).trans hfind, fun hp => hp⟩

/-- Some proxies are relocated, and then some more, to the same tier. -/
theorem Relocated.trans {ids more : List ProxyId} (h : Relocated m m' ids tier)
    (h' : Relocated m' m'' more tier) : Relocated m m'' (ids ++ more) tier where
  toKept := h.toKept.trans h'.toKept
  find?_eq id hid := by
    rw [List.mem_append, not_or] at hid
    rw [h'.find?_eq id hid.2, h.find?_eq id hid.1]
  find?_of_mem id hid p hp := by
    -- A proxy may be relocated twice; its last form goes with the tier in any case.
    by_cases hids : id ∈ ids
    · obtain ⟨q, hq, htier, hattached⟩ := h.find?_of_mem id hids p hp
      by_cases hmore : id ∈ more
      · obtain ⟨r, hr, htier', hattached'⟩ := h'.find?_of_mem id hmore q hq
        exact ⟨r, hr, htier', fun hp => hattached' (hattached hp)⟩
      · exact ⟨q, (h'.find?_eq id hmore).trans hq, htier, hattached⟩
    · have hmore : id ∈ more := (List.mem_append.1 hid).resolve_left hids
      exact h'.find?_of_mem id hmore p ((h.find?_eq id hids).trans hp)
  tracks_iff t id := by
    rw [h'.tracks_iff]
    by_cases hmore : id ∈ more
    · simp [hmore]
    · simpa [hmore] using h.tracks_iff t id

/-- A proxy that is tracked in the tier of its form is relocated there. -/
theorem Tracked.relocated (h : Tracked m m' id tier)
    (hfind : m.proxies.find? id = some (.object p)) (htier : p.form.tier = tier) :
    Relocated m m' [id] tier where
  toKept := h.toKept
  find?_eq other _ := by rw [h.proxies_eq]
  find?_of_mem other hother r hr := by
    rw [List.mem_singleton] at hother
    subst hother
    rw [hfind] at hr
    cases hr
    exact ⟨p, h.proxies_eq ▸ hfind, htier, fun hp => hp⟩
  tracks_iff t other := by
    rw [h.tracks_iff]
    simp only [List.mem_singleton]

/-- A proxy that takes another form before it is relocated is relocated all the same. -/
theorem Reformed.relocated (h : Reformed m m' id p q) (h' : Relocated m' m'' [id] tier)
    (hfind : m.proxies.find? id = some (.object p)) : Relocated m m'' [id] tier where
  toKept := h.toKept.trans h'.toKept
  find?_eq other hother := by
    rw [h'.find?_eq other hother, h.find?_eq, if_neg (List.mem_singleton.not.1 hother)]
  find?_of_mem other hother r hr := by
    have hid : other = id := List.mem_singleton.1 hother
    subst hid
    rw [hfind] at hr
    cases hr
    obtain ⟨r', hr', htier, hattached⟩ := h'.find?_of_mem other hother q h.find?_self
    exact ⟨r', hr', htier, fun hp => hattached (h.isAttached hp)⟩
  tracks_iff t other := by rw [h'.tracks_iff, h.manager_eq]

theorem Reformed.refl (hfind : m.proxies.find? id = some (.object p)) : Reformed m m id p p :=
  { Kept.refl m with
    find?_eq := fun other => by
      split
      next hother => rw [hother, hfind]
      next => rfl
    isAttached := fun hp => hp
    manager_eq := rfl }

theorem Reformed.of_kept (h : Reformed m m' id p q) (hkept : Kept m' m'')
    (hproxies : m''.proxies = m'.proxies) (hmanager : m''.manager = m'.manager) :
    Reformed m m'' id p q :=
  { h.toKept.trans hkept with
    find?_eq := fun other => by rw [hproxies, h.find?_eq]
    isAttached := h.isAttached
    manager_eq := hmanager.trans h.manager_eq }

/-- A memory stays coherent when proxies are relocated. -/
theorem Coherent.of_relocated (h : Coherent log m) (hsound : Sound log m') {ids : List ProxyId}
    (hrelocated : Relocated m m' ids tier) : Coherent log m' where
  toSound := hsound
  seated_or_stranded := by
    intro id
    by_cases hid : id ∈ ids
    · refine .inl fun t r htracks hr => ?_
      rw [hrelocated.tracks_iff, if_pos hid] at htracks
      rw [htracks, hrelocated.tier_of_mem h.toSound hid hr]
    · have hfind := hrelocated.find?_eq id hid
      have htracks := hrelocated.tracks_iff_of_not_mem hid
      rw [seated_congr hfind htracks, stranded_congr hfind htracks]
      exact h.seated_or_stranded id

/-- A memory stays coherent when one proxy takes another form, if the proxy is tracked in the tier
of that form, or left on the device. -/
theorem Coherent.of_reformed (h : Coherent log m) (hsound : Sound log m')
    (hreformed : Reformed m m' id p q)
    (hplace : ∀ t, m.manager.Tracks t id →
      t = q.form.tier ∨ t = .device ∧ q.form.tier = .host) : Coherent log m' where
  toSound := hsound
  seated_or_stranded := by
    intro other
    by_cases hother : other = id
    · subst hother
      have hfind := hreformed.find?_self
      -- Frames in host memory strand the proxy if it is left on the device.
      by_cases hstranded : m.manager.Tracks .device other ∧ q.form.tier = .host
      · refine .inr ⟨?_, q, hfind, hstranded.2⟩
        rw [hreformed.manager_eq]
        exact hstranded.1
      · refine .inl fun t r htracks hr => ?_
        rw [hfind] at hr
        cases hr
        rw [hreformed.manager_eq] at htracks
        rcases hplace t htracks with htier | ⟨rfl, hhost⟩
        · exact htier
        · exact absurd ⟨htracks, hhost⟩ hstranded
    · have hfind : m'.proxies.find? other = m.proxies.find? other :=
        (hreformed.find?_eq other).trans (if_neg hother)
      have htracks : ∀ t, m'.manager.Tracks t other ↔ m.manager.Tracks t other := fun t => by
        rw [hreformed.manager_eq]
      rw [seated_congr hfind htracks, stranded_congr hfind htracks]
      exact h.seated_or_stranded other

/-- Where a proxy of a coherent memory is tracked. -/
theorem Coherent.tier_eq_or (h : Coherent log m) (hfind : m.proxies.find? id = some (.object p))
    {t : Tier} (htracks : m.manager.Tracks t id) :
    t = p.form.tier ∨ t = .device ∧ p.form.tier = .host := by
  rcases h.seated_or_stranded id with hseated | ⟨hdevice, r, hr, hhost⟩
  · exact .inl (hseated t p htracks hfind)
  · rw [hfind] at hr
    cases hr
    exact .inr ⟨h.exact.unique htracks hdevice, hhost⟩

/-- In a coherent memory a proxy is tracked in the tier of its form or on the device. -/
theorem Coherent.tier_eq_or_device (h : Coherent log m)
    (hfind : m.proxies.find? id = some (.object p)) (t : Tier) (htracks : m.manager.Tracks t id) :
    t = p.form.tier ∨ t = .device :=
  (h.tier_eq_or hfind htracks).imp_right And.left

/-! ### How the steps end -/

/-- A proxy takes another form, with the size that it had if it stays in its tier. -/
theorem Sound.reform (h : Sound log m) (hfind : m.proxies.find? id = some (.object p))
    (horigin : origin? log id = some a) (hattached : p.isAttached = true → q.isAttached = true)
    (hexplicit : q.isExplicit = p.isExplicit) {spill : SpillDirectory}
    (hholds : Holds spill a q.form) (hfiles : m.spill.Rewrites spill p.form.file? q.form.file?)
    (hplace : ∀ t, m.manager.Tracks t id → t = p.form.tier ∨ t = .device)
    (hsize : q.form.tier = p.form.tier → q.size = p.size) :
    Sound log { m with proxies := m.proxies.insert id (.object q), spill } ∧
      Reformed m { m with proxies := m.proxies.insert id (.object q), spill } id p q := by
  refine ⟨h.replace hfind horigin hattached hholds hfiles
      fun t ht htracks htier => ?_,
    ⟨⟨rfl, rfl, hfiles.isPresent_eq, hfiles.refused_eq, hfiles.toEvolves⟩, fun other => ?_,
      fun other => ?_⟩, fun other => ?_, hattached, rfl⟩
  · have hold := (hplace t htracks).resolve_right ht
    exact ⟨hold, hsize (htier.symm.trans hold)⟩
  · rw [isAlive, isAlive, Table.contains_insert]
    by_cases hother : other = id
    · simp [hother, Table.contains_of_find? hfind]
    · simp [hother]
  · by_cases hother : other = id
    · rw [hother, isExplicit_eq hfind, isExplicit_eq (Table.find?_insert_self _ _ _), hexplicit]
    · exact isExplicit_congr (Table.find?_insert_of_ne _ _ hother)
  · exact Table.find?_insert _ _ _ _

/-- Serializing a proxy puts its array into frames, or leaves the proxy as it is if one of the
families holds the array already. It fails only if no family is asked for that can be had. -/
theorem serialize_ends (h : Sound log m) (hfind : m.proxies.find? id = some (.object p))
    (hplace : ∀ t, m.manager.Tracks t id → t = p.form.tier ∨ t = .device)
    (tags : List Serializer) :
    Ends (serialize id tags) m
      (fun _ m' => Sound log m' ∧ ∃ q, Reformed m m' id p q ∧ (q.form.tier = .host ∨
        q = p ∧ p.serializer.any (fun tag => tags.contains tag) = true))
      (fun _ m' => Sound log m' ∧ Reformed m m' id p p ∧
        tags.find? Serializer.isHost = none) := by
  obtain ⟨a, horigin, hholds⟩ := h.exists_origin hfind
  -- A proxy that is written back as it was is a change without effect.
  have hback := h.reform hfind horigin (fun hp => hp) rfl hholds (.refl _ _) hplace fun _ => rfl
  rw [serialize_iff hfind]
  refine (ObjectProxy.serialize_ends hholds tags).mono ?_ ?_
  · rintro - r (⟨rfl, hheld⟩ | ⟨target, htarget, rfl⟩)
    · exact ⟨hback.1, p, hback.2, .inr ⟨rfl, hheld⟩⟩
    · -- The frames are those of the array, whichever form they were made from.
      have hframes : Holds { m.spill with volume := m.spill.volume.without p.form.file? } a
          (.serialized (.frames (.ofFrames target a.nbytes a.frames) a.frames)) :=
        .frames target htarget
      have hhost := hframes.tier_eq_host_iff.2 ⟨target, htarget, rfl⟩
      -- Frames that were in host memory before had the same size.
      have hsize : (p.setForm (.serialized
          (.frames (.ofFrames target a.nbytes a.frames) a.frames))).form.tier = p.form.tier →
          a.footprint = p.size := fun htier =>
        (ObjectProxy.size_of_host hholds (htier.symm.trans hhost)).symm
      obtain ⟨hsound, hreformed⟩ :=
        h.reform (q := p.setForm _) hfind horigin (fun hp => hp) rfl hframes
        (.without m.spill p.form.file?) hplace hsize
      exact ⟨hsound, _, hreformed, .inl hhost⟩
  · rintro e r ⟨rfl, hnone⟩
    exact ⟨hback.1, hback.2, hnone⟩

/-- A proxy can always be made live, and gives the array that it stands for. -/
theorem revive_ends (h : Sound log m) (hfind : m.proxies.find? id = some (.object p))
    (horigin : origin? log id = some a)
    (hplace : ∀ t, m.manager.Tracks t id → t = p.form.tier ∨ t = .device) :
    Ends (revive id) m
      (fun b m' => b = a ∧ Sound log m' ∧ ∃ q, Reformed m m' id p q ∧ q.form = .live a) Never := by
  have hholds := h.holds hfind horigin
  rw [revive_iff hfind]
  refine (ObjectProxy.revive_ends hholds).of_never ?_
  rintro b r ⟨rfl, rfl⟩
  have hlive : Holds { m.spill with volume := m.spill.volume.without p.form.file? } b (.live b) :=
    .live
  have hsize : (p.setForm (.live b)).form.tier = p.form.tier → b.nbytes = p.size := by
    intro htier
    rw [ObjectProxy.size, hholds.tier_eq_device_iff.1 htier.symm]
    rfl
  obtain ⟨hsound, hreformed⟩ := h.reform (q := p.setForm _) hfind horigin (fun hp => hp) rfl hlive
    (.without m.spill p.form.file?) hplace hsize
  exact ⟨rfl, hsound, _, hreformed, rfl⟩

/-- A proxy can always be tracked in the tier of its form. -/
theorem addToTier_ends (h : Sound log m) (hfind : m.proxies.find? id = some (.object p))
    (hattached : p.isAttached = true) (htier : p.form.tier = tier) :
    Ends (addToTier id tier) m (fun _ m' => Sound log m' ∧ Tracked m m' id tier) Never := by
  subst htier
  obtain ⟨new, hnew, hexact, hplaced⟩ :=
    Manager.exact_addToTier h.exact id (Spillable.report (Proxy.object p)) p.form.tier
  rw [addToTier, Ends.bind_iff, proxy_iff hfind, onManager_iff_of_ok hnew]
  exact ⟨h.place hfind hattached hexact hplaced,
    SameLimits.kept ⟨hplaced.deviceLimit_eq, hplaced.hostLimit_eq, rfl, rfl, .refl _⟩ rfl, rfl, rfl,
    hplaced.tracks_iff⟩

/-- A proxy can always be tracked. -/
theorem track_ends (h : Sound log m) (hfind : m.proxies.find? id = some (.object p))
    (hattached : p.isAttached = true) :
    Ends (track id) m (fun _ m' => Sound log m' ∧ Tracked m m' id p.form.tier) Never := by
  have htier : Tier.ofSerializer (Spillable.serializer (Proxy.object p)) = p.form.tier :=
    Proxy.tier_object p
  rw [track, Ends.bind_iff, proxy_iff hfind, add, htier]
  exact addToTier_ends h hfind hattached rfl

/-- Host frames are written to a file, and the proxy is tracked on disk then. If the file cannot
be written everything but the number of the next file is as before. -/
theorem spillFrames_ends (h : Sound log m) (hfind : m.proxies.find? id = some (.object p))
    (horigin : origin? log id = some a) (hattached : p.isAttached = true) {tag : Serializer}
    (hhost : tag.isHost = true)
    (hform : p.form = .serialized (.frames (.ofFrames tag a.nbytes a.frames) a.frames))
    (hplace : ∀ t, m.manager.Tracks t id → t = p.form.tier ∨ t = .device) (compress : Bool) :
    Ends (spillFrames id p.version (.ofFrames tag a.nbytes a.frames) a.frames compress) m
      (fun _ m' => Sound log m' ∧ Relocated m m' [id] .disk)
      (fun _ m' => Sound log m' ∧ Kept m m' ∧ m'.proxies = m.proxies ∧ m'.manager = m.manager ∧
        ¬ m.spill.Writable) := by
  rw [spillFrames, Ends.bind_iff, onSpill_iff]
  refine (m.spill.dump_ends (.ofFrames tag a.nbytes a.frames) a.frames compress).mono ?_ ?_
  · rintro disk spill ⟨rfl, rfl⟩
    have hholds :=
      Holds.nextHeader m.spill (h.addressable a (mem_of_origin? horigin)) hhost compress
    have hdisk := hholds.tier_eq_disk_iff.2 ⟨_, rfl⟩
    have hold : p.form.file? = none := by
      rw [hform]
      rfl
    have hfiles := SpillDirectory.Rewrites.addFile
      (Container.pack (m.spill.prepare (.ofFrames tag a.nbytes a.frames) a.frames compress).2)
      h.find?_nextPath
    have htier : p.form.tier = .host := by
      rw [(h.holds hfind horigin).tier_eq_host_iff]
      exact ⟨tag, hhost, hform⟩
    obtain ⟨hsound, hreformed⟩ :=
      h.reform (q := p.setForm _) hfind horigin (fun hp => hp) rfl hholds
      (hold ▸ hfiles) hplace fun heq => by
        rw [htier] at heq
        cases hdisk.symm.trans heq
    have hfind' := hreformed.find?_self
    -- Nothing has touched the proxy since its version was read, so the header is accepted.
    rw [Ends.bind_iff, replace_iff (p := .object p) hfind, Proxy.replace_of_version, if_pos rfl]
    refine (addToTier_ends hsound hfind' hattached hdisk).of_never ?_
    rintro - m' ⟨hsound', htracked⟩
    exact ⟨hsound', hreformed.relocated (htracked.relocated hfind' hdisk) hfind⟩
  · rintro e spill ⟨rfl, hwritable⟩
    -- A number has been used up, and no file is there that was not before.
    have hevolves : m.spill.Evolves { m.spill with counter := m.spill.counter + 1 } :=
      .of_find? rfl rfl (Nat.le_succ _) fun _ _ hdata => hdata
    exact ⟨h.withSpill rfl rfl (Nat.le_succ _) rfl,
      SameLimits.kept ⟨rfl, rfl, rfl, rfl, hevolves⟩ rfl,
      rfl, rfl, hwritable⟩

end Memory

end TieredStore
