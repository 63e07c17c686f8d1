import TieredStore.Memory.Demotion
import TieredStore.Proofs.Memory.Advances
import TieredStore.Proofs.Memory.Units

/-!
# Demotions and evictions

A demotion moves one proxy to the next tier, and an eviction moves all proxies of a plan. Moving
to the host never fails. Moving to disk fails only if a file cannot be written, and leaves a
coherent memory then, too.

* `demoteToHost_ends`, `demoteToDisk_ends`: a single demotion.
* `evict_ends`: the demotions of a plan, one after the other.
* `enforceDeviceLimit_ends`, `enforceHostLimit_ends`, `enforceLimits_ends`: the evictions that
  limits ask for.
-/

namespace TieredStore

namespace Memory

variable {log : List DeviceArray} {m m' : Memory (Proxy DeviceArray)} {id : ProxyId}
  {p : ObjectProxy DeviceArray} {tier : Tier}

/-- A file could not be written, and every proxy has kept its place. -/
def Refused (log : List DeviceArray) (m : Memory (Proxy DeviceArray)) :
    Failure → Memory (Proxy DeviceArray) → Prop :=
  fun _ m' => Advances log m m' ∧ ¬ m.spill.Writable

/-- The file of a live proxy could not be written. The proxy has frames now, and is stranded if it
was on the device. -/
structure Interrupted (log : List DeviceArray) (id : ProxyId)
    (m m' : Memory (Proxy DeviceArray)) : Prop extends Kept m m' where
  /-- The memory is coherent. -/
  coherent : Coherent log m'
  /-- The proxy is stranded with those that were, if it was on the device. -/
  stranded_iff : ∀ other,
    m'.Stranded other ↔ m.Stranded other ∨ other = id ∧ m.manager.Tracks .device id
  /-- Files cannot be written. -/
  not_writable : ¬ m.spill.Writable

/-- A step that fails after others that went well. -/
theorem Refused.of_advances {m'' : Memory (Proxy DeviceArray)} {e : Failure}
    (h : Advances log m m') (h' : Refused log m' e m'') : Refused log m e m'' :=
  ⟨h.trans h'.1, fun hwritable => h'.2 (h.writable_iff.2 hwritable)⟩

/-- A proxy that a host family holds is in a form of the host. -/
theorem tier_eq_host_of_held
    (h : p.serializer.any (fun tag => Serializer.hostFamilies.contains tag) = true) :
    p.form.tier = .host := by
  obtain ⟨_, form, _, _, _⟩ := p
  cases form with
  | live a => cases h
  | serialized payload =>
    have htag : Serializer.hostFamilies.contains payload.serializer = true := h
    show Tier.ofSerializer (some payload.serializer) = .host
    revert htag
    generalize payload.serializer = tag
    cases tag <;> decide

/-- A proxy can always be put into frames of the host. -/
theorem serializeToHost_ends (h : Coherent log m) (hfind : m.proxies.find? id = some (.object p)) :
    Ends (serialize id Serializer.hostFamilies) m
      (fun _ m' => Sound log m' ∧ ∃ q, Reformed m m' id p q ∧ q.form.tier = .host) Never := by
  refine (serialize_ends h.toSound hfind (h.tier_eq_or_device hfind) _).mono ?_ ?_
  · rintro - m' ⟨hsound, q, hreformed, htier | ⟨rfl, hheld⟩⟩
    · exact ⟨hsound, q, hreformed, htier⟩
    · exact ⟨hsound, q, hreformed, tier_eq_host_of_held hheld⟩
  · rintro e m' ⟨-, -, hnone⟩
    cases hnone

/-- A proxy can always be moved to the host. -/
theorem demoteToHost_ends (h : Coherent log m) (hfind : m.proxies.find? id = some (.object p))
    (hattached : p.isAttached = true) :
    Ends (demoteToHost id) m (fun _ m' => Sound log m' ∧ Relocated m m' [id] .host) Never := by
  rw [demoteToHost, Ends.bind_iff]
  refine (serializeToHost_ends h hfind).mono_ok ?_
  rintro - m' ⟨hsound, q, hreformed, hhost⟩
  have hfind' := hreformed.find?_self
  refine (track_ends hsound hfind' (hreformed.isAttached hattached)).mono_ok ?_
  rintro - m'' ⟨hsound', htracked⟩
  rw [hhost] at htracked
  exact ⟨hsound', hreformed.relocated (htracked.relocated hfind' hhost) hfind⟩

/-- A proxy with host frames stays where it is if its file cannot be written. -/
theorem refused_of_frames (h : Coherent log m)
    (hfind : m.proxies.find? id = some (.object p)) (hsound : Sound log m') (hkept : Kept m m')
    (hproxies : m'.proxies = m.proxies) (hmanager : m'.manager = m.manager) (e : Failure)
    (hwritable : ¬ m.spill.Writable) : Refused log m e m' := by
  have hreformed := (Reformed.refl hfind).of_kept hkept hproxies hmanager
  exact ⟨h.advances_of_reformed hsound hfind hreformed rfl, hwritable⟩

/-- A live proxy is left with host frames if its file cannot be written. -/
theorem interrupted_of_live {m'' : Memory (Proxy DeviceArray)} {q : ObjectProxy DeviceArray}
    (h : Coherent log m) (hfind : m.proxies.find? id = some (.object p))
    (hlive : p.form.tier = .device) (hreformed : Reformed m m' id p q) (hhost : q.form.tier = .host)
    (hsound : Sound log m'') (hkept : Kept m' m'') (hproxies : m''.proxies = m'.proxies)
    (hmanager : m''.manager = m'.manager) (hwritable : ¬ m'.spill.Writable) :
    Interrupted log id m m'' := by
  have hreformed' := hreformed.of_kept hkept hproxies hmanager
  have hfind' := hreformed'.find?_self
  refine { hreformed'.toKept with
    coherent := h.of_reformed hsound hreformed' fun t htracks => ?_
    stranded_iff := fun other => ?_
    not_writable := fun hold => hwritable (hreformed.writable_iff.2 hold) }
  · refine .inr ⟨?_, hhost⟩
    rcases h.tier_eq_or hfind htracks with htier | ⟨htier, -⟩
    · exact htier.trans hlive
    · exact htier
  · by_cases hother : other = id
    · -- It was not stranded before, since it had no frames.
      subst hother
      have hnot : ¬ m.Stranded other := by
        rintro ⟨-, r, hr, hrhost⟩
        rw [hfind] at hr
        cases hr
        rw [hlive] at hrhost
        cases hrhost
      rw [Stranded, hreformed'.manager_eq]
      exact ⟨fun hstranded => .inr ⟨rfl, hstranded.1⟩, fun hstranded =>
        ⟨(hstranded.resolve_left hnot).2, q, hfind', hhost⟩⟩
    · rw [Stranded, hreformed'.manager_eq, hreformed'.find?_eq, if_neg hother]
      exact ⟨.inl, fun hstranded => hstranded.resolve_right fun hid => hother hid.1⟩

/-- A proxy is moved to disk, unless its file cannot be written. That leaves it in place if it was
serialized, and with host frames if it was live. -/
theorem demoteToDisk_ends (h : Coherent log m) (hfind : m.proxies.find? id = some (.object p))
    (hattached : p.isAttached = true) :
    Ends (demoteToDisk id) m (fun _ m' => Sound log m' ∧ Relocated m m' [id] .disk)
      (fun e m' => p.form.tier ≠ .device ∧ Refused log m e m' ∨
        p.form.tier = .device ∧ Interrupted log id m m') := by
  obtain ⟨a, horigin, hholds⟩ := h.exists_origin hfind
  have hplace := h.tier_eq_or_device hfind
  have hsnapshot : Spillable.snapshot? (Proxy.object p) =
      p.payload?.map (fun payload => (p.version, payload)) := rfl
  simp only [demoteToDisk, Ends.bind_iff, proxy_iff hfind, hsnapshot, ObjectProxy.payload?]
  -- What there is to do follows from the form.
  generalize hform : p.form = form at hholds
  cases hholds with
  | live =>
    simp only [Option.map_none, Ends.bind_iff]
    have hdevice : p.form.tier = .device := by
      rw [hform]
      rfl
    refine (serializeToHost_ends h hfind).of_never ?_
    rintro - m' ⟨hsound, q, hreformed, hhost⟩
    have hfind' := hreformed.find?_self
    obtain ⟨tag, htag, hframes⟩ := (hsound.holds hfind' horigin).tier_eq_host_iff.1 hhost
    have hsnapshot' : Spillable.snapshot? (Proxy.object q) =
        some (q.version, .frames (.ofFrames tag a.nbytes a.frames) a.frames) := by
      show q.payload?.map (fun payload => (q.version, payload)) = _
      rw [ObjectProxy.payload?, hframes]
      rfl
    -- The books have not followed the proxy to the host yet.
    have hplace' : ∀ t, m'.manager.Tracks t id → t = q.form.tier ∨ t = .device := by
      intro t htracks
      rw [hreformed.manager_eq] at htracks
      rcases hplace t htracks with htier | htier
      · exact .inr (htier.trans hdevice)
      · exact .inr htier
    rw [proxy_iff hfind', hsnapshot']
    refine (spillFrames_ends hsound hfind' horigin (hreformed.isAttached hattached)
      htag hframes hplace' true).mono ?_ ?_
    · rintro - m'' ⟨hsound', hrelocated⟩
      exact ⟨hsound', hreformed.relocated hrelocated hfind⟩
    · rintro e m'' ⟨hsound', hkept, hproxies, hmanager, hwritable⟩
      exact .inr ⟨rfl, interrupted_of_live h hfind hdevice hreformed hhost hsound' hkept hproxies
        hmanager hwritable⟩
  | frames tag htag =>
    have hhost : p.form.tier = .host := by
      rw [(h.holds hfind horigin).tier_eq_host_iff]
      exact ⟨tag, htag, hform⟩
    simp only [Option.map_some, show (FrameHeader.ofFrames tag a.nbytes a.frames).serializer.isHost
      = true from htag, if_true]
    refine (spillFrames_ends h.toSound hfind horigin hattached htag hform hplace false).mono_bad ?_
    rintro e m' ⟨hsound, hkept, hproxies, hmanager, hwritable⟩
    refine .inl ⟨?_, refused_of_frames h hfind hsound hkept hproxies hmanager e hwritable⟩
    rw [← hform, hhost]
    decide
  | disk header _ _ _ hserializer =>
    have hdisk : p.form.tier = .disk := by
      rw [(h.holds hfind horigin).tier_eq_disk_iff]
      exact ⟨header, hform⟩
    refine (addToTier_ends h.toSound hfind hattached hdisk).of_never ?_
    rintro - m' ⟨hsound, htracked⟩
    exact ⟨hsound, htracked.relocated hfind hdisk⟩

/-- A proxy that is not live is moved to disk, or it stays where it is. -/
theorem demoteToDisk_serialized_ends (h : Coherent log m)
    (hfind : m.proxies.find? id = some (.object p)) (hattached : p.isAttached = true)
    (hserialized : p.form.tier ≠ .device) :
    Ends (demoteToDisk id) m (fun _ m' => Sound log m' ∧ Relocated m m' [id] .disk)
      (Refused log m) := by
  refine (demoteToDisk_ends h hfind hattached).mono_bad ?_
  rintro e m' (⟨-, hrefused⟩ | ⟨hdevice, -⟩)
  · exact hrefused
  · exact absurd hdevice hserialized

/-! ### Evictions -/

/-- All proxies of some units are tracked, in forms of which `P` holds. -/
def Evictable (m : Memory (Proxy DeviceArray)) (P : Tier → Prop) (units : List EvictionUnit) :
    Prop :=
  ∀ u ∈ units, ∀ id ∈ u.proxies, (∃ t, m.manager.Tracks t id) ∧
    ∀ p, m.proxies.find? id = some (.object p) → P p.form.tier

/-- A victim whose turn has come is attached. Its form is in the next tier if it was moved already,
and it is as it was otherwise, so `P` holds of it in either case. -/
theorem exists_victim {P : Tier → Prop} (h : Coherent log m) {units : List EvictionUnit}
    (hunits : Evictable m P units) (hmoved : P tier) {nbytes : ℕ} {done : List ProxyId}
    (hrelocated : Relocated m m' done tier) (hid : id ∈ (EvictionPlan.make units nbytes).victims) :
    ∃ q, m'.proxies.find? id = some (.object q) ∧ q.isAttached = true ∧ P q.form.tier := by
  obtain ⟨u, hu, hmem⟩ := EvictionPlan.exists_of_mem_victims hid
  obtain ⟨⟨current, htracks⟩, hfit⟩ := hunits u hu id hmem
  obtain ⟨p, hfind, hattached⟩ := h.attached htracks
  obtain ⟨q, hfind', hattached'⟩ := hrelocated.exists_find? hfind
  refine ⟨q, hfind', hattached' hattached, ?_⟩
  by_cases hdone : id ∈ done
  · rwa [hrelocated.tier_of_mem h.toSound hdone hfind']
  · rw [hrelocated.find?_eq id hdone, hfind] at hfind'
    cases hfind'
    exact hfit p hfind

/-- The victims of a plan are demoted one after the other. Each of them is in the next tier once
all are done. What `P` says of the forms of all victims holds throughout if it holds of the forms
in the next tier. -/
theorem evict_ends {demote : ProxyId → Action (Proxy DeviceArray) Unit} {P : Tier → Prop}
    (hdemote : ∀ {m id p}, Coherent log m → m.proxies.find? id = some (.object p) →
      p.isAttached = true → P p.form.tier →
        Ends (demote id) m (fun _ m' => Sound log m' ∧ Relocated m m' [id] tier) (Refused log m))
    (h : Coherent log m) (nbytes : ℕ) {units : List EvictionUnit} (hmoved : P tier)
    (hunits : Evictable m P units) :
    Ends (evict nbytes units demote) m
      (fun freed m' => freed = (EvictionPlan.make units nbytes).freed ∧ Sound log m' ∧
        Relocated m m' (EvictionPlan.make units nbytes).victims tier)
      (Refused log m) := by
  rw [evict, Ends.bind_iff]
  -- The proxies that are done are relocated, and the others are as they were at the start.
  refine (Ends.forM (fun done t => Sound log t ∧ Relocated m t done tier) _
    (fun done id hid t ht => ?_) ⟨h.toSound, .refl m tier⟩).mono_ok ?_
  · obtain ⟨hsound, hrelocated⟩ := ht
    have hadvances := h.advances hsound hrelocated
    obtain ⟨q, hfind, hattached, hfit⟩ := exists_victim h hunits hmoved hrelocated hid
    refine (hdemote hadvances.coherent hfind hattached hfit).mono ?_ ?_
    · rintro - t' ⟨hsound', hrelocated'⟩
      exact ⟨hsound', hrelocated.trans hrelocated'⟩
    · intro e t' hrefused
      exact hrefused.of_advances hadvances
  · rintro - m' ⟨hsound, hrelocated⟩
    exact ⟨rfl, hsound, hrelocated⟩

/-- What the device offers is tracked there. -/
theorem evictable_device (m : Memory (Proxy DeviceArray)) :
    Evictable m (fun _ => True) (m.units .device) :=
  fun _ hu _ hid => ⟨⟨_, (tracks_of_mem_units hu hid).1⟩, fun _ _ => trivial⟩

/-- What the host offers is tracked there and not live. Even a stranded proxy has host frames, and
only the device tracks it. -/
theorem Coherent.evictable_host (h : Coherent log m) :
    Evictable m (· ≠ .device) (m.units .host) := by
  intro u hu id hid
  obtain ⟨htracks, -⟩ := tracks_of_mem_units hu hid
  refine ⟨⟨_, htracks⟩, fun p hfind hdevice => ?_⟩
  rcases h.tier_eq_or hfind htracks with htier | ⟨htier, -⟩
  · rw [hdevice] at htier
    cases htier
  · cases htier

/-- Evictions from the device arrive on the host. -/
theorem evictToHost_ends (h : Coherent log m) (nbytes : ℕ) :
    Ends (evict nbytes (m.units .device) demoteToHost) m
      (fun freed m' => freed = (EvictionPlan.make (m.units .device) nbytes).freed ∧ Sound log m' ∧
        Relocated m m' (EvictionPlan.make (m.units .device) nbytes).victims .host)
      (Refused log m) :=
  evict_ends (fun hm hfind hattached _ => (demoteToHost_ends hm hfind hattached).of_never
    fun _ _ ht => ht) h nbytes trivial (evictable_device m)

/-- Evictions from the host arrive on disk. No live proxy is among them. -/
theorem evictToDisk_ends (h : Coherent log m) (nbytes : ℕ) :
    Ends (evict nbytes (m.units .host) demoteToDisk) m
      (fun freed m' => freed = (EvictionPlan.make (m.units .host) nbytes).freed ∧ Sound log m' ∧
        Relocated m m' (EvictionPlan.make (m.units .host) nbytes).victims .disk)
      (Refused log m) :=
  evict_ends demoteToDisk_serialized_ends h nbytes (by decide) h.evictable_host

/-- The proxies that have to move so that `surplus` bytes are released. -/
def planned (units : List EvictionUnit) (surplus : ℕ) : List ProxyId :=
  if surplus = 0 then [] else (EvictionPlan.make units surplus).victims

/-- The proxies that have to leave the device so that it has room for `extra` more bytes. -/
def deviceVictims (m : Memory (Proxy DeviceArray)) (extra : ℕ) : List ProxyId :=
  planned (m.units .device) (excess (m.manager.usage .device) extra m.manager.deviceLimit)

/-- The proxies that have to leave the host so that it has room for `extra` more bytes. -/
def hostVictims (m : Memory (Proxy DeviceArray)) (extra : ℕ) : List ProxyId :=
  planned (m.units .host) (excess (m.manager.usage .host) extra m.manager.hostLimit)

/-- Room on the device is made by moving proxies to the host. -/
theorem enforceDeviceLimit_ends (h : Coherent log m) (extra : ℕ) :
    Ends (enforceDeviceLimit extra) m
      (fun _ m' => Sound log m' ∧ Relocated m m' (m.deviceVictims extra) .host)
      (Refused log m) := by
  rw [enforceDeviceLimit, Ends.bind_iff, Ends.get_iff, deviceVictims, planned]
  split
  next hzero =>
    rw [if_pos hzero]
    exact ⟨h.toSound, .refl m .host⟩
  next hsurplus =>
    rw [if_neg hsurplus]
    exact (evictToHost_ends h _).mono_ok fun _ _ ht => ht.2

/-- Room on the host is made by moving proxies to disk. -/
theorem enforceHostLimit_ends (h : Coherent log m) (extra : ℕ) :
    Ends (enforceHostLimit extra) m
      (fun _ m' => Sound log m' ∧ Relocated m m' (m.hostVictims extra) .disk)
      (Refused log m) := by
  rw [enforceHostLimit, Ends.bind_iff, Ends.get_iff, hostVictims, planned]
  split
  next hzero =>
    rw [if_pos hzero]
    exact ⟨h.toSound, .refl m .disk⟩
  next hsurplus =>
    rw [if_neg hsurplus]
    exact (evictToDisk_ends h _).mono_ok fun _ _ ht => ht.2

/-- The limits have been enforced, with room for `extra` bytes on the device. What leaves the device
arrives on the host, and what leaves the host then arrives on disk. -/
def Enforced (log : List DeviceArray) (extra : ℕ) (m m'' : Memory (Proxy DeviceArray)) : Prop :=
  ∃ m', Sound log m' ∧ Relocated m m' (m.deviceVictims extra) .host ∧
    Sound log m'' ∧ Relocated m' m'' (m'.hostVictims 0) .disk

/-- Room is made on the device first, and then on the host. -/
theorem enforceLimits_ends (h : Coherent log m) (extra : ℕ) :
    Ends (enforceLimits extra) m (fun _ m' => Enforced log extra m m') (Refused log m) := by
  rw [enforceLimits, Ends.bind_iff]
  refine (enforceDeviceLimit_ends h extra).mono_ok ?_
  rintro - m' ⟨hsound, hrelocated⟩
  rw [Ends.bind_iff]
  refine (enforceHostLimit_ends (h.of_relocated hsound hrelocated) 0).mono ?_ ?_
  · rintro - m'' ⟨hsound', hrelocated'⟩
    exact ⟨m', hsound, hrelocated, hsound', hrelocated'⟩
  · intro e m'' hrefused
    exact hrefused.of_advances (h.advances hsound hrelocated)

/-- The limits are enforced from one coherent memory to another. -/
theorem Enforced.advances {extra : ℕ} (hlimits : Enforced log extra m m') (h : Coherent log m) :
    Advances log m m' := by
  obtain ⟨m₁, hsound, hrelocated, hsound', hrelocated'⟩ := hlimits
  have hfirst := h.advances hsound hrelocated
  exact hfirst.trans (hfirst.coherent.advances hsound' hrelocated')

/-- Every proxy is still there when the limits have been enforced. -/
theorem Enforced.exists_find? {extra : ℕ} (hlimits : Enforced log extra m m')
    (hfind : m.proxies.find? id = some (.object p)) :
    ∃ q, m'.proxies.find? id = some (.object q) ∧
      (p.isAttached = true → q.isAttached = true) := by
  obtain ⟨m₁, -, hrelocated, -, hrelocated'⟩ := hlimits
  obtain ⟨q, hq, hattached⟩ := hrelocated.exists_find? hfind
  obtain ⟨r, hr, hattached'⟩ := hrelocated'.exists_find? hq
  exact ⟨r, hr, fun hp => hattached' (hattached hp)⟩

end Memory

end TieredStore
