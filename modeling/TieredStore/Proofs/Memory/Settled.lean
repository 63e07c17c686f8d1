import TieredStore.Proofs.Memory.Lifetime

/-!
# Settled memories

A memory is settled when the books agree with what the tracked proxies say of themselves: each of
them exists, is attached, is tracked in the tier of its serializer and nowhere else, and is on
record as it would report itself now. Nothing is assumed of where the memory comes from.

* `Memory.SettledIn`, `Memory.Settled`: one tier, and all of them.
* `Memory.SizedBy`: allocations count the sizes that the proxies report.
* `Memory.reckoned`: the bytes of a tier, as they come out of the proxies there.
* `SettledIn.usage_eq`, `Settled.sum_sizes_units`: the tallies, and the units to evict.
* `Settled.validate_eq`: a check of the books finds nothing.
-/

namespace TieredStore

namespace Memory

section

variable {P : Type} [Spillable P] {m : Memory P} {tier : Tier} {size : BufferId → ℕ}

/-- What a tier has recorded of the proxies there is what they report now. -/
def Recorded (m : Memory P) (tier : Tier) : Prop :=
  ∀ id, m.manager.Tracks tier id → (m.manager.registry tier).ledger.Records id
    ⟨(m.proxies.find? id).elim 0 Spillable.size,
      (m.proxies.find? id).elim [] Spillable.deviceBuffers⟩

/-- Every proxy that is tracked in a tier exists, is attached, is in a form that goes with the tier,
and is recorded as it reports itself. -/
def SettledIn (m : Memory P) (tier : Tier) : Prop :=
  ∀ id, m.manager.Tracks tier id → ∃ p, m.proxies.find? id = some p ∧
    Spillable.isAttached p = true ∧ Spillable.tier p = tier ∧
    (m.manager.registry tier).ledger.Records id (Spillable.report p)

/-- The books agree with what the tracked proxies say of themselves. -/
structure Settled (m : Memory P) : Prop where
  /-- No proxy is tracked twice, and the tallies are those of what is recorded. -/
  exact : m.manager.Exact
  /-- What is recorded is what the proxies report. -/
  settledIn : ∀ tier, m.SettledIn tier

/-- All allocations have the sizes that are expected of them, in the reports and in the books. -/
structure SizedBy (m : Memory P) (size : BufferId → ℕ) : Prop where
  /-- The proxies on the device report these sizes. -/
  reports : m.ReportsSizes size
  /-- The device counts these sizes. -/
  counted : (m.manager.registry .device).ledger.Sized size

/-- The bytes of a tier, reckoned anew from the proxies that are tracked there: every allocation
counts once on the device, and every proxy counts its size elsewhere. -/
def reckoned (m : Memory P) (size : BufferId → ℕ) : Tier → ℕ
  | .device => ∑ b ∈ m.deviceBufferIds.toFinset, size b
  | .host => ((m.residents .host).map fun r => Spillable.size r.2).sum
  | .disk => ((m.residents .disk).map fun r => Spillable.size r.2).sum

theorem SettledIn.recorded (h : m.SettledIn tier) : m.Recorded tier := by
  intro id htracks
  obtain ⟨p, hfind, -, -, hrecords⟩ := h id htracks
  rw [hfind]
  exact hrecords

/-- Host and disk tally the sizes of the proxies that they track. -/
theorem Recorded.usage_eq_sum (h : m.Recorded tier) (hexact : m.manager.Exact)
    (htier : tier ≠ .device) :
    m.manager.usage tier =
      ∑ id ∈ (m.manager.registry tier).entries.toFinset,
        (m.proxies.find? id).elim 0 Spillable.size :=
  Registry.usage_eq_sum_sizes (hexact.registries tier) (countsBuffers_eq_false hexact htier) h

/-- The device tallies the allocations that the proxies there refer to. -/
theorem SettledIn.usage_device_eq (h : m.SettledIn .device) (hexact : m.manager.Exact)
    (hsized : (m.manager.registry .device).ledger.Sized size) :
    m.manager.usage .device = m.reckoned size .device := by
  have hkind := (countsBuffers_iff hexact .device).2 rfl
  rw [Manager.usage, Registry.usage_eq_sum_buffers (hexact.registries .device) hkind hsized
    h.recorded]
  refine Finset.sum_congr (Finset.ext fun b => ?_) fun _ _ => rfl
  rw [List.mem_toFinset, List.mem_flatMap, List.mem_toFinset, mem_deviceBufferIds_iff]
  -- Both sides say that some proxy on the device refers to the allocation.
  refine exists_congr fun id => and_congr_right fun htracks => ?_
  obtain ⟨p, hfind, -⟩ := h id htracks
  simp [hfind]

/-- The tally of a settled tier is what comes out of the proxies there. Only the device counts
allocations, so only there their sizes matter. -/
theorem SettledIn.usage_eq_of_sized (h : m.SettledIn tier) (hexact : m.manager.Exact)
    (hsized : tier = .device → (m.manager.registry .device).ledger.Sized size) :
    m.manager.usage tier = m.reckoned size tier := by
  cases tier with
  | device => exact h.usage_device_eq hexact (hsized rfl)
  | host =>
    rw [h.recorded.usage_eq_sum hexact (by decide)]
    exact (sum_residents hexact _ _).symm
  | disk =>
    rw [h.recorded.usage_eq_sum hexact (by decide)]
    exact (sum_residents hexact _ _).symm

theorem SettledIn.usage_eq (h : m.SettledIn tier) (hexact : m.manager.Exact)
    (hsize : m.SizedBy size) : m.manager.usage tier = m.reckoned size tier :=
  h.usage_eq_of_sized hexact fun _ => hsize.counted

theorem Settled.usage_eq (h : m.Settled) (hsize : m.SizedBy size) (tier : Tier) :
    m.manager.usage tier = m.reckoned size tier :=
  (h.settledIn tier).usage_eq h.exact hsize

/-- The units that a tier offers for eviction have all of its bytes. -/
theorem Settled.sum_sizes_units (h : m.Settled) (hsize : m.SizedBy size) (tier : Tier) :
    ((m.units tier).map EvictionUnit.size).sum = m.manager.usage tier := by
  rw [h.usage_eq hsize]
  cases tier with
  | device => exact sum_sizes_deviceUnits hsize.reports
  | host => exact Memory.sum_sizes_units m (by decide)
  | disk => exact Memory.sum_sizes_units m (by decide)

/-- What comes out of the proxies of a tier depends on nothing but these and where they are tracked.
-/
theorem reckoned_congr {n : Memory P} (hm : m.manager.Exact) (hn : n.manager.Exact)
    (hfind : ∀ id, n.proxies.find? id = m.proxies.find? id)
    (htracks : ∀ tier id, n.manager.Tracks tier id ↔ m.manager.Tracks tier id)
    (size : BufferId → ℕ) (tier : Tier) : n.reckoned size tier = m.reckoned size tier := by
  have hresidents : ∀ tier, ((n.residents tier).map fun r => Spillable.size r.2).sum =
      ((m.residents tier).map fun r => Spillable.size r.2).sum := by
    intro tier
    have hentries : (n.manager.registry tier).entries.toFinset =
        (m.manager.registry tier).entries.toFinset := by
      ext id
      rw [List.mem_toFinset, List.mem_toFinset]
      exact htracks tier id
    rw [sum_residents hn, sum_residents hm, hentries]
    exact Finset.sum_congr rfl fun id _ => by rw [hfind]
  cases tier with
  | device =>
    have hids : n.deviceBufferIds.toFinset = m.deviceBufferIds.toFinset := by
      ext b
      simp only [List.mem_toFinset, mem_deviceBufferIds_iff, Refers, htracks, hfind]
    rw [reckoned, reckoned, hids]
  | host => exact hresidents .host
  | disk => exact hresidents .disk

/-- Only the books and the proxies of a tier matter for it. -/
theorem SettledIn.congr {m' : Memory P} (h : m.SettledIn tier) (hmanager : m'.manager = m.manager)
    (hfind : ∀ id, m.manager.Tracks tier id → m'.proxies.find? id = m.proxies.find? id) :
    m'.SettledIn tier := by
  intro id htracks
  rw [hmanager] at htracks ⊢
  rw [hfind id htracks]
  exact h id htracks

theorem Settled.congr {m' : Memory P} (h : m.Settled) (hmanager : m'.manager = m.manager)
    (hfind : ∀ id, m'.proxies.find? id = m.proxies.find? id) : m'.Settled where
  exact := hmanager ▸ h.exact
  settledIn tier := (h.settledIn tier).congr hmanager fun id _ => hfind id

theorem SizedBy.congr {m' : Memory P} (h : m.SizedBy size) (hmanager : m'.manager = m.manager)
    (hfind : ∀ id p, m'.proxies.find? id = some p → m.proxies.find? id = some p ∨
      Spillable.deviceBuffers p = []) : m'.SizedBy size where
  counted := hmanager ▸ h.counted
  reports := by
    intro id p htracks hp buffer hbuffer
    rw [hmanager] at htracks
    rcases hfind id p hp with hold | hnone
    · exact h.reports id p htracks hold buffer hbuffer
    · rw [hnone] at hbuffer
      cases hbuffer

end

section

variable {T : Type} [DeviceObject T] {m : Memory (Proxy T)} {tier : Tier} {id : ProxyId}

/-- Scripted proxies are never attached, so what a settled tier tracks are proxies of objects. -/
theorem SettledIn.exists_object (h : m.SettledIn tier) (htracks : m.manager.Tracks tier id) :
    ∃ p, m.proxies.find? id = some (.object p) ∧ p.isAttached = true ∧ p.form.tier = tier ∧
      (m.manager.registry tier).ledger.Records id (Spillable.report (Proxy.object p)) := by
  obtain ⟨r, hfind, hattached, htier, hrecords⟩ := h id htracks
  cases r with
  | object p => exact ⟨p, hfind, hattached, (Proxy.tier_object p).symm.trans htier, hrecords⟩
  | scripted p => cases hattached

/-- A proxy of a settled tier has a form that goes with it. -/
theorem SettledIn.tier_eq (h : m.SettledIn tier) {p : ObjectProxy T}
    (htracks : m.manager.Tracks tier id) (hfind : m.proxies.find? id = some (.object p)) :
    p.form.tier = tier := by
  obtain ⟨q, hq, -, htier, -⟩ := h.exists_object htracks
  rw [hfind] at hq
  cases hq
  exact htier

/-- A check of the books finds nothing in a settled memory. -/
theorem Settled.validate_eq (h : m.Settled) : validate m = .ok () m := by
  have hobjects : ∀ tier id, m.manager.Tracks tier id →
      ∃ p, m.proxies.find? id = some (.object p) := fun tier id htracks =>
    (h.settledIn tier).exists_object htracks |>.imp fun _ => And.left
  refine ((validate_ends_of_objects h.exact hobjects).mono (fun _ _ hend => ⟨rfl, hend.1⟩) ?_).eq_ok
  rintro e m' ⟨-, tier, id, p, htracks, hfind, hplace, -⟩
  exact hplace ((h.settledIn tier).tier_eq htracks hfind)

end

end Memory

end TieredStore
