import TieredStore.Memory.Inspection
import TieredStore.Proofs.Memory.Access

/-!
# The end of proxies and of tracking

A proxy that nobody holds any more goes with its file, and is no longer tracked. A proxy can also
cease to be tracked while it exists.

* `release_ends`, `releaseAll_ends`: the end of proxies never fails.
* `remove_ends`: an end to tracking.
* `prune_ends`: there is nothing to strike out, since every tracked proxy exists.
* `validate_ends_of_objects`, `validate_ends`: a check of the books finds the first proxy that is
  not in the tier of its form, so it finds nothing if no proxy is stranded.
-/

namespace TieredStore

namespace Memory

variable {log : List DeviceArray} {m m' m'' : Memory (Proxy DeviceArray)} {id : ProxyId}
  {p : ObjectProxy DeviceArray}

/-- Some proxies neither exist nor are tracked any more, and the others are as they were. -/
structure Released (m m' : Memory (Proxy DeviceArray)) (ids : List ProxyId) : Prop
    extends SameLimits m m' where
  /-- The proxies are gone. -/
  find?_eq : ∀ id, m'.proxies.find? id = if id ∈ ids then none else m.proxies.find? id
  /-- They are no longer tracked. -/
  tracks_iff : ∀ t id, m'.manager.Tracks t id ↔ m.manager.Tracks t id ∧ id ∉ ids
  /-- Allocations count as before as long as they count. -/
  sized : ∀ {size}, m.manager.Sized size → m'.manager.Sized size

/-- Some proxies are no longer tracked, and nothing else has changed. -/
structure Untracked (m m' : Memory (Proxy DeviceArray)) (gone : ProxyId → Prop) : Prop
    extends Kept m m' where
  /-- All proxies stay as they are. -/
  proxies_eq : m'.proxies = m.proxies
  /-- The proxies are no longer tracked. -/
  tracks_iff : ∀ t id, m'.manager.Tracks t id ↔ m.manager.Tracks t id ∧ ¬ gone id

theorem Released.trans {ids more : List ProxyId} (h : Released m m' ids)
    (h' : Released m' m'' more) : Released m m'' (ids ++ more) where
  toSameLimits := h.toSameLimits.trans h'.toSameLimits
  find?_eq id := by
    rw [h'.find?_eq, h.find?_eq]
    by_cases hmore : id ∈ more
    · simp [hmore]
    · by_cases hids : id ∈ ids <;> simp [hmore, hids]
  tracks_iff t id := by
    rw [h'.tracks_iff, h.tracks_iff, List.mem_append, not_or, and_assoc]
  sized hsized := h'.sized (h.sized hsized)

theorem Released.isAlive_iff {ids : List ProxyId} (h : Released m m' ids) (id : ProxyId) :
    m'.isAlive id = true ↔ m.isAlive id = true ∧ id ∉ ids := by
  rw [isAlive, isAlive, Table.contains_iff, Table.contains_iff, h.find?_eq]
  by_cases hid : id ∈ ids <;> simp [hid]

/-- If those are released that are not held, those that are held are left. -/
theorem Released.isAlive_iff_of_held {ids held : List ProxyId} (h : Released m m' ids)
    (hids : ∀ id, id ∈ ids ↔ m.isAlive id = true ∧ id ∉ held) (id : ProxyId) :
    m'.isAlive id = true ↔ m.isAlive id = true ∧ id ∈ held := by
  rw [h.isAlive_iff, hids]
  refine and_congr_right fun halive => ?_
  rw [and_iff_right halive, not_not]

/-- The proxies that are left of a coherent memory have the places that they had. -/
theorem Coherent.of_released (h : Coherent log m) (hsound : Sound log m') {ids : List ProxyId}
    (hreleased : Released m m' ids) : Coherent log m' where
  toSound := hsound
  seated_or_stranded := by
    intro id
    by_cases hid : id ∈ ids
    · refine .inl fun t r htracks => ?_
      exact absurd hid ((hreleased.tracks_iff t id).1 htracks).2
    · have hfind : m'.proxies.find? id = m.proxies.find? id := by
        rw [hreleased.find?_eq, if_neg hid]
      have htracks : ∀ t, m'.manager.Tracks t id ↔ m.manager.Tracks t id := fun t => by
        rw [hreleased.tracks_iff, and_iff_left hid]
      rw [seated_congr hfind htracks, stranded_congr hfind htracks]
      exact h.seated_or_stranded id

/-- The proxies that are left keep their places. -/
theorem Released.proceeds {ids : List ProxyId} (h : Released m m' ids) : Proceeds m m' where
  toSameLimits := h.toSameLimits
  stranded id hid := by
    obtain ⟨htracks, r, hr, hhost⟩ := hid
    obtain ⟨hold, hnot⟩ := (h.tracks_iff _ id).1 htracks
    rw [h.find?_eq, if_neg hnot] at hr
    exact ⟨hold, r, hr, hhost⟩
  enrolled id hid := by
    intro r hr htier
    rw [h.find?_eq] at hr
    split at hr
    next => cases hr
    next hnot =>
      obtain ⟨t, htracks⟩ := hid r hr htier
      exact ⟨t, (h.tracks_iff t id).2 ⟨htracks, hnot⟩⟩

/-- A proxy that is explicit was so before others were released. -/
theorem Released.isExplicit {ids : List ProxyId} (h : Released m m' ids)
    (hid : m'.isExplicit id = true) : m.isExplicit id = true := by
  by_cases hmem : id ∈ ids
  · rw [Memory.isExplicit, h.find?_eq, if_pos hmem] at hid
    cases hid
  · rwa [← isExplicit_congr ((h.find?_eq id).trans (if_neg hmem))]

/-- None of the proxies that are still tracked is stranded that was not before. -/
theorem Untracked.stranded {gone : ProxyId → Prop} (h : Untracked m m' gone)
    (hid : m'.Stranded id) : m.Stranded id := by
  obtain ⟨htracks, r, hr, hhost⟩ := hid
  exact ⟨((h.tracks_iff _ id).1 htracks).1, r, h.proxies_eq ▸ hr, hhost⟩

/-- The proxies that are still tracked have the places that they had. -/
theorem Coherent.of_untracked (h : Coherent log m) (hsound : Sound log m')
    {gone : ProxyId → Prop} (huntracked : Untracked m m' gone) : Coherent log m' where
  toSound := hsound
  seated_or_stranded := by
    intro id
    by_cases hid : gone id
    · refine .inl fun t r htracks => ?_
      exact absurd hid ((huntracked.tracks_iff t id).1 htracks).2
    · have hfind : m'.proxies.find? id = m.proxies.find? id := by rw [huntracked.proxies_eq]
      have htracks : ∀ t, m'.manager.Tracks t id ↔ m.manager.Tracks t id := fun t => by
        rw [huntracked.tracks_iff, and_iff_left hid]
      rw [seated_congr hfind htracks, stranded_congr hfind htracks]
      exact h.seated_or_stranded id

/-- Books that do without some proxies. -/
theorem Sound.untracked (h : Sound log m) {new : Manager} (hexact : new.Exact)
    {gone : ProxyId → Prop} (hwithout : Manager.Without m.manager new gone) :
    Sound log { m with manager := new } ∧ Untracked m { m with manager := new } gone :=
  ⟨h.without hexact hwithout,
    SameLimits.kept ⟨hwithout.deviceLimit_eq, hwithout.hostLimit_eq, rfl, rfl, .refl _⟩ rfl, rfl,
    hwithout.tracks_iff⟩

/-- A tracked proxy can be removed from the books. Removing another one fails without effect. -/
theorem remove_ends (h : Coherent log m) (id : ProxyId) :
    Ends (onManager (fun books => books.remove id)) m
      (fun _ m' => Coherent log m' ∧ Untracked m m' (· = id))
      (fun e m' => m' = m ∧ e = .error (.notFound "proxy" id.display) ∧
        ∀ t, ¬ m.manager.Tracks t id) := by
  by_cases hsome : ∃ t, m.manager.Tracks t id
  · obtain ⟨t, htracks⟩ := hsome
    obtain ⟨new, hnew, hexact, hwithout⟩ := Manager.exact_remove h.exact htracks
    obtain ⟨hsound, huntracked⟩ := h.untracked hexact hwithout
    rw [onManager_iff_of_ok hnew]
    exact ⟨h.of_untracked hsound huntracked, huntracked⟩
  · rw [not_exists] at hsome
    simp only [Ends, onManager, Manager.remove_of_not_tracks hsome]
    exact ⟨trivial, trivial, hsome⟩

theorem prune_iff_of_alive {P : Type} {m : Memory P}
    (h : ∀ tier id, m.manager.Tracks tier id → m.isAlive id = true) {ok : ℕ → Memory P → Prop}
    {bad : Failure → Memory P → Prop} : Ends prune m ok bad ↔ ok 0 m := by
  rw [prune, Ends.modifyGet_iff, Manager.prune_of_alive h]

theorem prune_ends (h : Sound log m) :
    Ends (prune (P := Proxy DeviceArray)) m (fun count m' => count = 0 ∧ m' = m) Never :=
  (prune_iff_of_alive fun _ _ htracks => h.isAlive_of_tracks htracks).2 ⟨rfl, rfl⟩

/-! ### The end of proxies -/

/-- A proxy that is not tracked goes with its file. -/
theorem Sound.released (h : Sound log m) (hfind : m.proxies.find? id = some (.object p))
    (hnot : ∀ t, ¬ m.manager.Tracks t id) :
    Sound log { m with
      proxies := m.proxies.erase id
      spill := { m.spill with volume := m.spill.volume.without p.form.file? } } ∧
      Released m { m with
        proxies := m.proxies.erase id
        spill := { m.spill with volume := m.spill.volume.without p.form.file? } } [id] := by
  refine ⟨h.erase hfind hnot, ⟨rfl, rfl, Volume.isPresent_without _ _, Volume.refused_without _ _,
    .without m.spill p.form.file?⟩, fun other => ?_, fun t other => ?_, fun hsized => hsized⟩
  · simp only [List.mem_singleton]
    exact Table.find?_erase _ _ _
  · rw [List.mem_singleton]
    exact (and_iff_left_of_imp fun htracks (hother : other = id) => hnot t (hother ▸ htracks)).symm

/-- The end of a proxy. One that does not exist is left alone. -/
theorem release_ends (h : Sound log m) (id : ProxyId) :
    Ends (release id) m (fun _ m' => Sound log m' ∧ Released m m' [id]) Never := by
  rw [release, Ends.bind_iff, Ends.get_iff]
  split
  next hnone =>
    -- What does not exist is not tracked either.
    refine ⟨h, .refl m, fun other => ?_, fun t other => ?_, fun hsized => hsized⟩
    · split
      next hother => rw [List.mem_singleton.1 hother, hnone]
      next => rfl
    · rw [List.mem_singleton]
      refine (and_iff_left_of_imp fun htracks hother => ?_).symm
      obtain ⟨r, hr, -⟩ := h.attached htracks
      rw [hother, hnone] at hr
      cases hr
  next r hr =>
    obtain ⟨p, -, rfl, -⟩ := h.stands hr
    -- The books are changed last, but it is the books without the proxy that allow it to go.
    have hend : ∀ spill : SpillDirectory,
        spill = { m.spill with volume := m.spill.volume.without p.form.file? } →
        Ends (if p.isAttached = true then onManager fun books => books.forget id else pure ())
          { m with proxies := m.proxies.erase id, spill }
          (fun _ m' => Sound log m' ∧ Released m m' [id]) Never := by
      rintro _ rfl
      split
      next =>
        obtain ⟨new, hnew, hexact, hwithout⟩ := Manager.exact_forget h.exact id
        obtain ⟨hsound, huntracked⟩ := h.untracked hexact hwithout
        have hnot : ∀ t, ¬ new.Tracks t id := fun t htracks =>
          ((hwithout.tracks_iff t id).1 htracks).2 rfl
        obtain ⟨hsound', hreleased⟩ := hsound.released hr hnot
        rw [onManager_iff_of_ok hnew]
        refine ⟨hsound', huntracked.toSameLimits.trans hreleased.toSameLimits, hreleased.find?_eq,
          fun t other => ?_, hwithout.sized⟩
        rw [List.mem_singleton]
        exact hwithout.tracks_iff t other
      next hnot =>
        -- Only attached proxies are tracked.
        refine h.released hr fun t htracks => hnot ?_
        obtain ⟨q, hq, hq'⟩ := h.attached htracks
        rw [hr] at hq
        cases hq
        exact hq'
    have hattached : (Spillable.isAttached (Proxy.object p) && m.isManaged) = p.isAttached := by
      rw [h.isManaged_eq, Bool.and_true]
      rfl
    rw [Ends.bind_iff, Ends.modify_iff, Ends.bind_iff, Ends.get_iff]
    dsimp only
    rw [hattached]
    refine hend _ ?_
    rw [Proxy.ownedFile?_object]
    cases p.form.file? <;> rfl

theorem releaseAll_ends (h : Sound log m) (ids : List ProxyId) :
    Ends (releaseAll ids) m (fun _ m' => Sound log m' ∧ Released m m' ids) Never := by
  induction ids generalizing m with
  | nil => exact ⟨h, .refl m, fun _ => by simp, fun _ _ => by simp, fun hsized => hsized⟩
  | cons id ids ih =>
    -- The handler never runs, since no release fails.
    rw [releaseAll, Ends.bind_iff, Ends.tryCatch_iff]
    refine (release_ends h id).of_never ?_
    rintro - m' ⟨hsound, hreleased⟩
    refine (ih hsound).mono_ok ?_
    rintro - m'' ⟨hsound', hreleased'⟩
    exact ⟨hsound', hreleased.trans hreleased'⟩

/-! ### A check of the books -/

section

variable {T : Type} [DeviceObject T] {m : Memory (Proxy T)} {p : ObjectProxy T} {tier : Tier}

/-- A tracked proxy passes the check if it has its place. -/
theorem validateProxy_ends (h : m.manager.Exact) (htracks : m.manager.Tracks tier id) :
    Ends (validateProxy tier id (Proxy.object p)) m (fun _ m' => m' = m ∧ p.form.tier = tier)
      (fun e m' => m' = m ∧ p.form.tier ≠ tier ∧ e = .error (wrongTier id p.serializer tier)) := by
  have htier : Tier.ofSerializer (Spillable.serializer (Proxy.object p)) = p.form.tier :=
    Proxy.tier_object p
  have hpayload : Spillable.payload? (Proxy.object p) = p.payload? := by
    show (p.payload?.map _).map Prod.snd = p.payload?
    cases p.payload? <;> rfl
  rw [validateProxy, Ends.bind_iff, ask_iff_of_ok (Manager.locate_of_tracks h htracks)]
  simp only [htier, hpayload]
  split
  next hplace => exact ⟨rfl, hplace, rfl⟩
  next hplace =>
    -- The serializer is that of the payload, so the headers agree.
    have hserializer : Spillable.serializer (Proxy.object p) = p.payload?.map Payload.serializer :=
      rfl
    rw [hserializer]
    cases p.payload? with
    | none => exact ⟨rfl, not_not.1 hplace⟩
    | some payload => simpa [Ends.pure_iff] using hplace

/-- A check of the books finds the first proxy that is not in the tier of its form, and nothing if
there is none. It changes nothing. -/
theorem validate_ends_of_objects (h : m.manager.Exact)
    (hobjects : ∀ tier id, m.manager.Tracks tier id → ∃ p, m.proxies.find? id = some (.object p)) :
    Ends (validate (P := Proxy T)) m
      (fun _ m' => m' = m ∧ ∀ tier id p, m.manager.Tracks tier id →
        m.proxies.find? id = some (.object p) → p.form.tier = tier)
      (fun e m' => m' = m ∧ ∃ tier id p, m.manager.Tracks tier id ∧
        m.proxies.find? id = some (.object p) ∧ p.form.tier ≠ tier ∧
          e = .error (wrongTier id p.serializer tier)) := by
  have halive : ∀ tier id, m.manager.Tracks tier id → m.isAlive id = true := fun tier id htracks =>
    Table.contains_of_find? (hobjects tier id htracks).choose_spec
  rw [validate, Ends.bind_iff, prune_iff_of_alive halive, Ends.bind_iff, Ends.get_iff]
  -- The residents that have been looked at have their places, tier by tier.
  refine (Ends.forM (fun done t => t = m ∧ ∀ tier ∈ done, ∀ id p, m.manager.Tracks tier id →
    m.proxies.find? id = some (.object p) → p.form.tier = tier) _ (fun done tier _ t ht => ?_)
    ⟨rfl, by simp⟩).mono_ok fun _ m' hend => ⟨hend.1, fun tier => hend.2 tier ?_⟩
  · obtain ⟨rfl, hdone⟩ := ht
    refine (Ends.forM (fun seen u => u = t ∧ ∀ entry ∈ seen, ∀ p, entry.2 = .object p →
      p.form.tier = tier) _ (fun seen entry hentry u hu => ?_) ⟨rfl, by simp⟩).mono_ok ?_
    · obtain ⟨rfl, hseen⟩ := hu
      obtain ⟨id, r⟩ := entry
      obtain ⟨htracks, hfind⟩ := (mem_residents_iff u tier id r).1 hentry
      obtain ⟨p, hp⟩ := hobjects tier id htracks
      rw [hfind] at hp
      cases hp
      refine (validateProxy_ends h htracks).mono ?_ ?_
      · rintro - v ⟨rfl, hplace⟩
        refine ⟨rfl, fun other hother q hq => ?_⟩
        rcases List.mem_append.1 hother with hold | hnew
        · exact hseen other hold q hq
        · rw [List.mem_singleton.1 hnew] at hq
          cases hq
          exact hplace
      · rintro e v ⟨rfl, hplace, he⟩
        exact ⟨rfl, tier, id, p, htracks, hfind, hplace, he⟩
    · rintro - u ⟨rfl, hseen⟩
      refine ⟨rfl, fun other hother id p htracks hfind => ?_⟩
      rcases List.mem_append.1 hother with hold | hnew
      · exact hdone other hold id p htracks hfind
      · rw [List.mem_singleton.1 hnew] at htracks ⊢
        exact hseen (id, .object p) ((mem_residents_iff u tier id _).2 ⟨htracks, hfind⟩) p rfl
  · cases tier <;> decide

end

/-- A check of the books finds nothing, and changes nothing, if every tracked proxy has its
place. -/
theorem validate_ends (h : Sound log m) (hseated : ∀ id, m.Seated id) :
    Ends (validate (P := Proxy DeviceArray)) m (fun _ m' => m' = m) Never := by
  refine (validate_ends_of_objects h.exact fun tier id htracks => ?_).mono (fun _ _ => And.left) ?_
  · obtain ⟨p, hfind, -⟩ := h.attached htracks
    exact ⟨p, hfind⟩
  · rintro e m' ⟨-, tier, id, p, htracks, hfind, hplace, -⟩
    exact hplace (hseated id tier p htracks hfind).symm

end Memory

end TieredStore
