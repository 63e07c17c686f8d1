import TieredStore.Manager
import TieredStore.Proofs.Registry

/-!
# Where proxies are tracked

The manager is exact when its registries are, and no proxy is tracked in two of them. Then asking
where a proxy is tracked never fails, and no operation finds a registry in a state that it does not
expect.

* `Manager.Exact`: the invariant of the three registries together.
* `locate_of_tracks`, `locate_of_not_tracks`: where a proxy is.
* `exact_addToTier`: tracking a proxy succeeds, from wherever it was.
* `exists_addToTier`: it succeeds in books that are not exact, too.
* `exact_remove`, `exact_forget`, `exact_prune`: an end to tracking.
-/

namespace TieredStore

namespace Manager

/-- A proxy is tracked in a tier. -/
def Tracks (m : Manager) (tier : Tier) (id : ProxyId) : Prop := id ∈ (m.registry tier).entries

/-- The registries are exact and go with their tiers, and no proxy is tracked twice. -/
structure Exact (m : Manager) : Prop where
  /-- Each registry keeps an exact tally. -/
  registries : ∀ tier, (m.registry tier).Exact
  /-- Each registry is that of its tier. -/
  tier_eq : ∀ tier, (m.registry tier).tier = tier
  /-- No proxy is tracked in two tiers. -/
  unique : ∀ {id tier other}, m.Tracks tier id → m.Tracks other id → tier = other

/-- The sizes of allocations are as expected. -/
def Sized (size : BufferId → ℕ) (m : Manager) : Prop :=
  ∀ tier, (m.registry tier).ledger.Sized size

/-- A manager does without some proxies that another one may track. -/
structure Without (old new : Manager) (gone : ProxyId → Prop) : Prop where
  /-- The limit of the device stays. -/
  deviceLimit_eq : new.deviceLimit = old.deviceLimit
  /-- The limit of the host stays. -/
  hostLimit_eq : new.hostLimit = old.hostLimit
  /-- Each registry does without them. -/
  registries : ∀ tier, Registry.Without (old.registry tier) (new.registry tier) gone

/-- A manager tracks a proxy in a tier, whether or not another one tracks it somewhere. -/
structure Placed (old new : Manager) (id : ProxyId) (report : Report) (tier : Tier) : Prop where
  /-- The limit of the device stays. -/
  deviceLimit_eq : new.deviceLimit = old.deviceLimit
  /-- The limit of the host stays. -/
  hostLimit_eq : new.hostLimit = old.hostLimit
  /-- The proxy is tracked in the tier and nowhere else, and the others where they were. -/
  tracks_iff : ∀ t other,
    new.Tracks t other ↔ if other = id then t = tier else old.Tracks t other
  /-- What the proxy reported is recorded, unless it was tracked in the tier before. -/
  records : ¬ old.Tracks tier id → (new.registry tier).ledger.Records id report
  /-- A proxy that was tracked in the tier keeps its record. -/
  records_of_tracks : old.Tracks tier id → ∀ report,
    (new.registry tier).ledger.Records id report ↔ (old.registry tier).ledger.Records id report
  /-- The records of the others stay. -/
  records_iff : ∀ t other report, other ≠ id →
    ((new.registry t).ledger.Records other report ↔ (old.registry t).ledger.Records other report)
  /-- An allocation counts as before, or else as the report has it if the proxy came to the
  tier. -/
  counted : ∀ t b n, (new.registry t).ledger.counted? b = some n →
    (old.registry t).ledger.counted? b = some n ∨
      t = tier ∧ ¬ old.Tracks tier id ∧ (old.registry t).ledger.counted? b = none ∧
        report.sizeOf? b = some n

variable {m : Manager} {id : ProxyId}

/-- A proxy that is tracked in a tier is tracked in no other. -/
theorem Exact.not_tracks (h : m.Exact) {tier other : Tier} (htracks : m.Tracks tier id)
    (hother : other ≠ tier) : ¬ m.Tracks other id :=
  fun htracks' => hother (h.unique htracks' htracks)

theorem registry_setRegistry (m : Manager) (tier other : Tier) (r : Registry) :
    (m.setRegistry tier r).registry other = if other = tier then r else m.registry other := by
  cases tier <;> cases other <;> rfl

theorem tracks_setRegistry (m : Manager) (tier t : Tier) (r : Registry) (id : ProxyId) :
    (m.setRegistry tier r).Tracks t id ↔ if t = tier then id ∈ r.entries else m.Tracks t id := by
  rw [Tracks, registry_setRegistry]
  split <;> rfl

@[simp]
theorem deviceLimit_setRegistry (m : Manager) (tier : Tier) (r : Registry) :
    (m.setRegistry tier r).deviceLimit = m.deviceLimit := by
  cases tier <;> rfl

@[simp]
theorem hostLimit_setRegistry (m : Manager) (tier : Tier) (r : Registry) :
    (m.setRegistry tier r).hostLimit = m.hostLimit := by
  cases tier <;> rfl

theorem Without.tracks_iff {old new : Manager} {gone : ProxyId → Prop} (h : Without old new gone)
    (tier : Tier) (id : ProxyId) : new.Tracks tier id ↔ old.Tracks tier id ∧ ¬ gone id :=
  (h.registries tier).mem_entries_iff id

theorem Without.refl (m : Manager) {gone : ProxyId → Prop}
    (h : ∀ tier id, m.Tracks tier id → ¬ gone id) : Without m m gone :=
  ⟨rfl, rfl, fun tier => Registry.Without.refl _ (h tier)⟩

theorem Without.sized {old new : Manager} {gone : ProxyId → Prop} (h : Without old new gone)
    {size : BufferId → ℕ} (hsized : old.Sized size) : new.Sized size :=
  fun tier b n hn => hsized tier b n ((h.registries tier).counted b n hn)

/-- Sizes stay as expected if the report has them so. -/
theorem Placed.sized {old new : Manager} {report : Report} {tier : Tier}
    (h : Placed old new id report tier) {size : BufferId → ℕ} (hsized : old.Sized size)
    (hreport : ∀ buffer ∈ report.buffers, buffer.size = size buffer.id) : new.Sized size := by
  intro t b n hn
  rcases h.counted t b n hn with hold | ⟨-, -, -, hnew⟩
  · exact hsized t b n hold
  · obtain ⟨buffer, hbuffer, rfl, rfl⟩ := Report.exists_of_sizeOf? hnew
    exact hreport buffer hbuffer

/-- A manager that does without some proxies is exact if its registries are. -/
theorem Without.exact {new : Manager} {gone : ProxyId → Prop} (h : Without m new gone)
    (hm : m.Exact) (hregistries : ∀ tier, (new.registry tier).Exact) : new.Exact where
  registries := hregistries
  tier_eq tier := by rw [(h.registries tier).tier_eq, hm.tier_eq]
  unique {id tier other} htracks hother :=
    hm.unique ((h.tracks_iff tier id).1 htracks).1 ((h.tracks_iff other id).1 hother).1

/-- Nothing is tracked at first. -/
theorem exact_empty (deviceLimit hostLimit : ℕ) : (empty deviceLimit hostLimit).Exact := by
  have hregistry : ∀ tier, (empty deviceLimit hostLimit).registry tier = .empty tier := by
    intro tier
    cases tier <;> rfl
  refine ⟨fun tier => ?_, fun tier => ?_, fun {id tier other} htracks => ?_⟩
  · rw [hregistry]
    exact Registry.exact_empty tier
  · rw [hregistry]
    rfl
  · rw [Tracks, hregistry] at htracks
    cases htracks

theorem mem_tiersOf_iff (m : Manager) (id : ProxyId) (tier : Tier) :
    tier ∈ m.tiersOf id ↔ m.Tracks tier id := by
  have hall : tier ∈ Tier.all := by cases tier <;> decide
  simp [tiersOf, hall, Tracks, Registry.contains_iff]

/-- A proxy that no tier tracks is nowhere. -/
theorem locate_of_not_tracks (h : ∀ tier, ¬ m.Tracks tier id) : m.locate id = .ok none := by
  have hnil : m.tiersOf id = [] := by
    rw [List.eq_nil_iff_forall_not_mem]
    intro tier htier
    exact h tier ((mem_tiersOf_iff m id tier).1 htier)
  rw [locate, hnil]

/-- A proxy that a single tier tracks is in that tier only. -/
theorem tiersOf_of_unique {tier : Tier} (htracks : m.Tracks tier id)
    (hunique : ∀ other, m.Tracks other id → other = tier) : m.tiersOf id = [tier] := by
  have hmem : tier ∈ m.tiersOf id := (mem_tiersOf_iff m id tier).2 htracks
  have hall : ∀ other ∈ m.tiersOf id, other = tier := fun other hother =>
    hunique other ((mem_tiersOf_iff m id other).1 hother)
  have hnodup : (m.tiersOf id).Nodup := List.Nodup.filter _ (by decide)
  -- The tier is in the list, every member is this tier, and none occurs twice.
  rcases hlist : m.tiersOf id with _ | ⟨first, _ | ⟨second, rest⟩⟩
  · simp [hlist] at hmem
  · rw [hall first (by simp [hlist])]
  · have hfirst := hall first (by simp [hlist])
    have hsecond := hall second (by simp [hlist])
    rw [hlist, hfirst, hsecond] at hnodup
    simp at hnodup

/-- A tracked proxy is in one tier only. -/
theorem tiersOf_of_tracks (h : m.Exact) {tier : Tier} (htracks : m.Tracks tier id) :
    m.tiersOf id = [tier] :=
  tiersOf_of_unique htracks fun _ hother => h.unique hother htracks

/-- A tracked proxy is found in its tier. -/
theorem locate_of_tracks (h : m.Exact) {tier : Tier} (htracks : m.Tracks tier id) :
    m.locate id = .ok (some tier) := by
  rw [locate, tiersOf_of_tracks h htracks]

theorem exists_locate (h : m.Exact) (id : ProxyId) :
    ∃ tier?, m.locate id = .ok tier? ∧ ∀ tier, tier? = some tier ↔ m.Tracks tier id := by
  by_cases htracks : ∃ tier, m.Tracks tier id
  · obtain ⟨tier, htier⟩ := htracks
    refine ⟨some tier, locate_of_tracks h htier, fun other => ?_⟩
    rw [Option.some.injEq]
    exact ⟨fun heq => heq ▸ htier, fun hother => h.unique htier hother⟩
  · rw [not_exists] at htracks
    exact ⟨none, locate_of_not_tracks htracks, fun tier => by simp [htracks tier]⟩

theorem exact_setRegistry_without (h : m.Exact) {tier : Tier} (htracks : m.Tracks tier id)
    {r : Registry} (hr : r.Exact) (hwithout : Registry.Without (m.registry tier) r (· = id)) :
    (m.setRegistry tier r).Exact ∧ Without m (m.setRegistry tier r) (· = id) := by
  have hall : Without m (m.setRegistry tier r) (· = id) := by
    refine ⟨by simp, by simp, fun other => ?_⟩
    rw [registry_setRegistry]
    split
    next hother =>
      subst hother
      exact hwithout
    next hother =>
      -- The proxy is in one tier only, so this registry does not list it.
      refine Registry.Without.refl _ fun other' hmem hid => hother ?_
      exact h.unique (show m.Tracks other id from hid ▸ hmem) htracks
  refine ⟨hall.exact h fun other => ?_, hall⟩
  rw [registry_setRegistry]
  split
  · exact hr
  · exact h.registries other

theorem exact_updateRegistry_remove (h : m.Exact) {tier : Tier} (htracks : m.Tracks tier id) :
    ∃ new, m.updateRegistry tier (fun r => r.remove id) = .ok new ∧ new.Exact ∧
      Without m new (· = id) ∧ ∀ other, other ≠ tier → new.registry other = m.registry other := by
  obtain ⟨r, hr, hexact, hwithout⟩ := Registry.exact_remove (h.registries tier) htracks
  obtain ⟨hnew, hall⟩ := exact_setRegistry_without h htracks hexact hwithout
  refine ⟨m.setRegistry tier r, by simp [updateRegistry, hr], hnew, hall, fun other hother => ?_⟩
  rw [registry_setRegistry, if_neg hother]

/-- A tier starts to track a proxy that none tracks. -/
theorem exact_updateRegistry_add (h : m.Exact) (hnot : ∀ tier, ¬ m.Tracks tier id)
    (report : Report) (tier : Tier) :
    ∃ new, m.updateRegistry tier (fun r => r.add id report) = .ok new ∧ new.Exact ∧
      Placed m new id report tier := by
  obtain ⟨r, hr, hexact, hjoined⟩ := Registry.exact_add (h.registries tier) (hnot tier) report
  have htracks : ∀ t other,
      (m.setRegistry tier r).Tracks t other ↔
        if other = id then t = tier else m.Tracks t other := by
    intro t other
    rw [Tracks, registry_setRegistry]
    split
    next ht =>
      subst ht
      rw [hjoined.mem_entries_iff]
      by_cases hother : other = id <;> simp [hother, Tracks]
    next ht =>
      by_cases hother : other = id
      · simpa [hother, ht] using show id ∉ (m.registry t).entries from hnot t
      · simp [hother, Tracks]
  refine ⟨m.setRegistry tier r, by simp [updateRegistry, hr],
    ⟨fun t => ?_, fun t => ?_, fun {other t t'} ht ht' => ?_⟩,
    ⟨by simp, by simp, htracks, fun _ => ?_, fun hold => absurd hold (hnot tier),
      fun t other report hother => ?_, fun t b n hn => ?_⟩⟩
  · rw [registry_setRegistry]
    split
    · exact hexact
    · exact h.registries t
  · rw [registry_setRegistry]
    split
    next ht => rw [hjoined.tier_eq, h.tier_eq, ht]
    next => exact h.tier_eq t
  · rw [htracks] at ht ht'
    split at ht
    next hother =>
      rw [if_pos hother] at ht'
      rw [ht, ht']
    next hother =>
      rw [if_neg hother] at ht'
      exact h.unique ht ht'
  · rw [registry_setRegistry, if_pos rfl]
    exact hjoined.records
  · rw [registry_setRegistry]
    split
    next ht =>
      subst ht
      exact hjoined.records_iff other report hother
    next => rfl
  · rw [registry_setRegistry] at hn
    split at hn
    next ht =>
      subst ht
      exact (hjoined.counted b n hn).imp_right fun hnew => ⟨rfl, hnot t, hnew⟩
    next => exact .inl hn

/-- A proxy can be tracked in any tier, wherever it was tracked before. -/
theorem exact_addToTier (h : m.Exact) (id : ProxyId) (report : Report) (tier : Tier) :
    ∃ new, m.addToTier id report tier = .ok new ∧ new.Exact ∧ Placed m new id report tier := by
  by_cases hsome : ∃ current, m.Tracks current id
  · obtain ⟨current, hcurrent⟩ := hsome
    have hlocate := locate_of_tracks h hcurrent
    by_cases heq : current = tier
    · -- The manager stays as it is, and so does what it has recorded of the proxy.
      subst heq
      refine ⟨m, by simp [addToTier, hlocate, bind, Except.bind, pure, Except.pure], h,
        rfl, rfl, fun t other => ?_, fun hnot => absurd hcurrent hnot, fun _ _ => Iff.rfl,
        fun _ _ _ _ => Iff.rfl, fun _ _ _ hn => .inl hn⟩
      split
      next hother =>
        subst hother
        exact ⟨fun ht => h.unique ht hcurrent, fun ht => ht ▸ hcurrent⟩
      next => rfl
    · -- The proxy leaves its tier first, so no tier tracks it when it is added.
      obtain ⟨left, hleft, hexact, hwithout, hothers⟩ := exact_updateRegistry_remove h hcurrent
      have hnot : ∀ t, ¬ left.Tracks t id := fun t ht => ((hwithout.tracks_iff t id).1 ht).2 rfl
      obtain ⟨new, hnew, hexact', hplaced⟩ := exact_updateRegistry_add hexact hnot report tier
      refine ⟨new, ?_, hexact', hplaced.deviceLimit_eq.trans hwithout.deviceLimit_eq,
        hplaced.hostLimit_eq.trans hwithout.hostLimit_eq, fun t other => ?_,
        fun _ => hplaced.records (hnot tier), fun hold => absurd (h.unique hcurrent hold) heq,
        fun t other report hother => ?_, fun t b n hn => ?_⟩
      · simp [addToTier, hlocate, bind, Except.bind, heq, hleft, hnew]
      · rw [hplaced.tracks_iff, hwithout.tracks_iff]
        split
        · rfl
        next hother => simp [hother]
      · rw [hplaced.records_iff t other report hother,
          (hwithout.registries t).records_iff other report hother]
      · -- The registry of the tier is the same whether or not the proxy has left its own.
        rcases hplaced.counted t b n hn with hold | ⟨rfl, -, hnone, hnew⟩
        · exact .inl ((hwithout.registries t).counted b n hold)
        · rw [hothers t (Ne.symm heq)] at hnone
          exact .inr ⟨rfl, fun hold => heq (h.unique hcurrent hold), hnone, hnew⟩
  · rw [not_exists] at hsome
    obtain ⟨new, hnew, hexact, hplaced⟩ := exact_updateRegistry_add h hsome report tier
    refine ⟨new, ?_, hexact, hplaced⟩
    simp [addToTier, locate_of_not_tracks hsome, bind, Except.bind, hnew]

/-- Only two registries change when a proxy is tracked in a tier: that of the tier, and the one that
the proxy leaves. -/
theorem registry_of_addToTier (h : m.Exact) {new : Manager} {report : Report} {tier : Tier}
    (hnew : m.addToTier id report tier = .ok new) {t : Tier} (ht : t ≠ tier)
    (hnot : ¬ m.Tracks t id) : new.registry t = m.registry t := by
  have hupdate : ∀ {old left : Manager} {other : Tier} {f : Registry → Except Error Registry},
      t ≠ other → old.updateRegistry other f = .ok left → left.registry t = old.registry t := by
    intro old left other f hother hleft
    rw [updateRegistry] at hleft
    split at hleft
    next r =>
      cases hleft
      rw [registry_setRegistry, if_neg hother]
    next => cases hleft
  by_cases hsome : ∃ current, m.Tracks current id
  · obtain ⟨current, hcurrent⟩ := hsome
    have hleft : t ≠ current := by
      rintro rfl
      exact hnot hcurrent
    simp only [addToTier, locate_of_tracks h hcurrent, bind, Except.bind] at hnew
    split at hnew
    next => cases hnew; rfl
    next =>
      split at hnew
      next => cases hnew
      next left hremove => rw [hupdate ht hnew, hupdate hleft hremove]
  · rw [not_exists] at hsome
    simp only [addToTier, locate_of_not_tracks hsome, bind, Except.bind] at hnew
    exact hupdate ht hnew

/-- A proxy that is in one tier at most can be tracked in any tier. Nothing else has to be right
about the books for that, and the other proxies are where they were. -/
theorem exists_addToTier
    (hunique : ∀ t other, m.Tracks t id → m.Tracks other id → t = other)
    (report : Report) (tier : Tier) :
    ∃ new, m.addToTier id report tier = .ok new ∧
      ∀ t other, new.Tracks t other ↔ if other = id then t = tier else m.Tracks t other := by
  by_cases hsome : ∃ current, m.Tracks current id
  · obtain ⟨current, hcurrent⟩ := hsome
    have hlocate : m.locate id = .ok (some current) := by
      rw [locate, tiersOf_of_unique hcurrent fun other hother =>
        hunique other current hother hcurrent]
    by_cases heq : current = tier
    · subst heq
      refine ⟨m, by simp [addToTier, hlocate, bind, Except.bind, pure, Except.pure],
        fun t other => ?_⟩
      split
      next hother =>
        subst hother
        exact ⟨fun ht => hunique t current ht hcurrent, fun ht => ht ▸ hcurrent⟩
      next => rfl
    · -- It leaves its tier first. The tier that it comes to has another registry.
      obtain ⟨left, hleft, hothers⟩ := Registry.exists_remove hcurrent
      have hsame : (m.setRegistry current left).registry tier = m.registry tier := by
        rw [registry_setRegistry, if_neg (Ne.symm heq)]
      have hnot : id ∉ ((m.setRegistry current left).registry tier).entries := by
        rw [hsame]
        exact fun hold => heq (hunique current tier hcurrent hold)
      obtain ⟨new, hnew, hjoined⟩ := Registry.exists_add hnot report
      refine ⟨(m.setRegistry current left).setRegistry tier new, ?_, fun t other => ?_⟩
      · simp [addToTier, hlocate, bind, Except.bind, heq, updateRegistry, hleft, hnew]
      · -- Of the two registries the first has lost the proxy, and the second has it now.
        rw [tracks_setRegistry, hjoined, hsame, tracks_setRegistry, hothers]
        have hold := hunique t current
        by_cases hother : other = id
        · subst hother
          by_cases ht : t = tier <;> by_cases ht' : t = current <;> simp_all
        · by_cases ht : t = tier <;> by_cases ht' : t = current <;> simp_all [Tracks]
  · rw [not_exists] at hsome
    obtain ⟨new, hnew, hjoined⟩ := Registry.exists_add (hsome tier) report
    refine ⟨m.setRegistry tier new, ?_, fun t other => ?_⟩
    · simp [addToTier, locate_of_not_tracks hsome, bind, Except.bind, updateRegistry, hnew]
    · rw [tracks_setRegistry, hjoined]
      have hnot := hsome t
      by_cases hother : other = id
      · subst hother
        by_cases ht : t = tier <;> simp_all
      · by_cases ht : t = tier <;> simp_all [Tracks]

theorem exact_remove (h : m.Exact) {tier : Tier} (htracks : m.Tracks tier id) :
    ∃ new, m.remove id = .ok new ∧ new.Exact ∧ Without m new (· = id) := by
  obtain ⟨new, hnew, hexact, hwithout, -⟩ := exact_updateRegistry_remove h htracks
  refine ⟨new, ?_, hexact, hwithout⟩
  simp [remove, locate_of_tracks h htracks, bind, Except.bind, hnew]

theorem remove_of_not_tracks (h : ∀ tier, ¬ m.Tracks tier id) :
    m.remove id = .error (.error (.notFound "proxy" id.display)) := by
  simp [remove, locate_of_not_tracks h, bind, Except.bind, throw, throwThe, MonadExceptOf.throw]

/-- Any proxy can be forgotten, tracked or not. -/
theorem exact_forget (h : m.Exact) (id : ProxyId) :
    ∃ new, m.forget id = .ok new ∧ new.Exact ∧ Without m new (· = id) := by
  by_cases hsome : ∃ tier, m.Tracks tier id
  · obtain ⟨tier, htier⟩ := hsome
    obtain ⟨new, hnew, hexact, hwithout, -⟩ := exact_updateRegistry_remove h htier
    refine ⟨new, ?_, hexact, hwithout⟩
    simp [forget, locate_of_tracks h htier, bind, Except.bind, hnew]
  · rw [not_exists] at hsome
    refine ⟨m, ?_, h, Without.refl m fun tier other hother hid => hsome tier (hid ▸ hother)⟩
    simp [forget, locate_of_not_tracks hsome, bind, Except.bind, pure, Except.pure]

/-- The proxies that no longer exist are struck out of all registries. -/
theorem exact_prune (h : m.Exact) (alive : ProxyId → Bool) :
    (m.prune alive).1.Exact ∧ Without m (m.prune alive).1 (fun id => alive id = false) := by
  have hregistry : ∀ tier,
      (m.prune alive).1.registry tier = ((m.registry tier).prune alive).1 := by
    intro tier
    cases tier <;> rfl
  have hall : Without m (m.prune alive).1 (fun id => alive id = false) := by
    refine ⟨rfl, rfl, fun tier => ?_⟩
    rw [hregistry]
    exact (Registry.exact_prune (h.registries tier) alive).2
  refine ⟨hall.exact h fun tier => ?_, hall⟩
  rw [hregistry]
  exact (Registry.exact_prune (h.registries tier) alive).1

/-- Pruning changes nothing if every tracked proxy exists. -/
theorem prune_of_alive {alive : ProxyId → Bool}
    (h : ∀ tier id, m.Tracks tier id → alive id = true) : m.prune alive = (m, 0) := by
  have hdisk : m.disk.prune alive = (m.disk, 0) := Registry.prune_of_alive (h .disk)
  have hhost : m.host.prune alive = (m.host, 0) := Registry.prune_of_alive (h .host)
  have hdevice : m.device.prune alive = (m.device, 0) := Registry.prune_of_alive (h .device)
  rw [prune, hdisk, hhost, hdevice]

end Manager

end TieredStore
