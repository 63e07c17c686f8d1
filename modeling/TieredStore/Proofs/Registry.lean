import TieredStore.Proofs.Ledger

/-!
# Registries keep exact tallies

A registry is exact when its ledger has entered just the proxies that it lists, and its tally is
what the ledger accounts for. Additions and departures keep a registry exact, whatever the proxies
report and whenever they cease to exist.

* `Registry.Exact`: the invariant of a single registry.
* `exact_add`: an addition of a proxy that is not listed succeeds.
* `exact_forget`, `exact_remove`, `exact_prune`: departures, one by one and all at once.
* `counted_iff`: the allocations that count are those of the listed proxies.
* `usage_eq_sum_sizes`, `usage_eq_sum_buffers`: the tally in terms of what was reported.
-/

namespace TieredStore

namespace Registry

/-- The ledger has entered just the listed proxies, and the tally is what it accounts for. -/
structure Exact (r : Registry) : Prop where
  /-- No proxy is listed twice. -/
  nodup : r.entries.Nodup
  /-- Allocations count on the device, and proxies elsewhere. -/
  countsBuffers_iff : r.ledger.countsBuffers = true ↔ r.tier = .device
  /-- The listed proxies are those that the ledger has entered. -/
  mem_entries_iff : ∀ id, id ∈ r.entries ↔ r.ledger.lists id = true
  /-- The maps of the ledger fit together. -/
  balanced : r.ledger.Balanced
  /-- The tally is what the ledger accounts for. -/
  usage_eq : r.usage = r.ledger.tally

/-- One registry lists a proxy that another one does not list, with what it reported. -/
structure Joined (old new : Registry) (id : ProxyId) (report : Report) : Prop where
  /-- The registry is still that of its tier. -/
  tier_eq : new.tier = old.tier
  /-- The proxy is listed with the others. -/
  mem_entries_iff : ∀ other, other ∈ new.entries ↔ other = id ∨ other ∈ old.entries
  /-- The report of the proxy is recorded. -/
  records : new.ledger.Records id report
  /-- The records of the others stay. -/
  records_iff : ∀ other report, other ≠ id →
    (new.ledger.Records other report ↔ old.ledger.Records other report)
  /-- An allocation counts as before, or else as the report has it. -/
  counted : ∀ b n, new.ledger.counted? b = some n →
    old.ledger.counted? b = some n ∨ old.ledger.counted? b = none ∧ report.sizeOf? b = some n

/-- One registry does without some proxies that another one may list. -/
structure Without (old new : Registry) (gone : ProxyId → Prop) : Prop where
  /-- The registry is still that of its tier. -/
  tier_eq : new.tier = old.tier
  /-- The other proxies are listed as they were. -/
  mem_entries_iff : ∀ id, id ∈ new.entries ↔ id ∈ old.entries ∧ ¬ gone id
  /-- The records of the others stay. -/
  records_iff : ∀ id report, ¬ gone id →
    (new.ledger.Records id report ↔ old.ledger.Records id report)
  /-- What still counts does so as before. -/
  counted : ∀ b n, new.ledger.counted? b = some n → old.ledger.counted? b = some n

theorem Without.refl (r : Registry) {gone : ProxyId → Prop} (h : ∀ id ∈ r.entries, ¬ gone id) :
    Without r r gone :=
  ⟨rfl, fun id => ⟨fun hid => ⟨hid, h id hid⟩, And.left⟩, fun _ _ _ => Iff.rfl, fun _ _ => id⟩

theorem Without.trans {r s t : Registry} {gone more all : ProxyId → Prop} (h : Without r s gone)
    (h' : Without s t more) (hall : ∀ id, all id ↔ gone id ∨ more id) : Without r t all where
  tier_eq := h'.tier_eq.trans h.tier_eq
  mem_entries_iff id := by
    rw [h'.mem_entries_iff, h.mem_entries_iff, hall]
    tauto
  records_iff id report hid := by
    rw [hall, not_or] at hid
    rw [h'.records_iff id report hid.2, h.records_iff id report hid.1]
  counted b n hn := h.counted b n (h'.counted b n hn)

variable {r : Registry}

theorem contains_iff (r : Registry) (id : ProxyId) : r.contains id = true ↔ id ∈ r.entries := by
  simp [contains]

theorem exact_empty (tier : Tier) : (empty tier).Exact := by
  refine ⟨by simp [empty], ?_, fun id => ?_, ?_, ?_⟩
  · cases tier <;> simp [empty, Ledger.forTier, Ledger.countsBuffers]
  · cases tier <;> simp [empty, Ledger.forTier, Ledger.lists]
  · cases tier
    case device => exact ⟨by simp, by simp⟩
    all_goals trivial
  · cases tier <;> rfl

/-- Whatever the ledger says, a proxy that is not listed can be added. -/
theorem exists_add {id : ProxyId} (hid : id ∉ r.entries) (report : Report) :
    ∃ new, r.add id report = .ok new ∧
      ∀ other, other ∈ new.entries ↔ other = id ∨ other ∈ r.entries := by
  have hcontains : ¬ r.contains id = true := by rwa [contains_iff]
  exact ⟨_, by rw [add, if_neg hcontains], fun other => by simp [or_comm]⟩

/-- Whatever the ledger says, a listed proxy can be removed. -/
theorem exists_remove {id : ProxyId} (hid : id ∈ r.entries) :
    ∃ new, r.remove id = .ok new ∧
      ∀ other, other ∈ new.entries ↔ other ≠ id ∧ other ∈ r.entries := by
  have hcontains : r.contains id = true := (contains_iff r id).2 hid
  have hforget : ∀ other, other ∈ (r.forget id).entries ↔ other ≠ id ∧ other ∈ r.entries := by
    simp [forget, hcontains, and_comm]
  refine ⟨_, by rw [remove, if_pos hcontains], fun other => ?_⟩
  rw [← hforget, resetIfEmpty]
  split
  next hempty =>
    have hnil : (r.forget id).entries = [] := by simpa [isEmpty] using hempty
    simp [empty, hnil]
  next => rfl

/-- A proxy that is not listed can be added. -/
theorem exact_add (h : r.Exact) {id : ProxyId} (hid : id ∉ r.entries) (report : Report) :
    ∃ new, r.add id report = .ok new ∧ new.Exact ∧ Joined r new id report := by
  have hlists : r.ledger.lists id = false := by
    rw [← Bool.not_eq_true, ← h.mem_entries_iff]
    exact hid
  have hcontains : ¬ r.contains id = true := by rwa [contains_iff]
  obtain ⟨hbalanced, htally, hrecords, hsame⟩ := Ledger.add_balanced h.balanced hlists report
  refine ⟨{ r with
      entries := r.entries ++ [id]
      usage := r.usage + (r.ledger.add id report).2
      ledger := (r.ledger.add id report).1 },
    by rw [add, if_neg hcontains], ⟨?_, ?_, fun other => ?_, hbalanced, ?_⟩, rfl,
    fun other => ?_, hrecords, hsame.records_iff, fun b n hn => ?_⟩
  · -- It was not listed, so it is not listed twice now.
    rw [List.nodup_append]
    refine ⟨h.nodup, List.nodup_singleton id, fun a ha b hb => ?_⟩
    rw [List.mem_singleton] at hb
    rintro rfl
    exact hid (hb ▸ ha)
  · rw [hsame.countsBuffers_eq, h.countsBuffers_iff]
  · -- The ledger enters the new proxy and tells no other apart from before.
    by_cases hother : other = id
    · subst hother
      simp [hrecords.lists]
    · rw [hsame.lists_eq other hother, ← h.mem_entries_iff]
      simp [hother]
  · dsimp only
    rw [htally, h.usage_eq]
  · simp [or_comm]
  · rw [Ledger.counted?_add h.balanced, Option.or_eq_some_iff] at hn
    refine hn.imp_right fun hnew => ⟨hnew.1, ?_⟩
    split at hnew
    · exact hnew.2
    · cases hnew.2

/-- A registry stays exact without one of its proxies. -/
theorem exact_forget (h : r.Exact) (id : ProxyId) :
    (r.forget id).Exact ∧ Without r (r.forget id) (· = id) := by
  rw [forget]
  split
  next hcontains =>
    obtain ⟨hbalanced, htally, hgone, hsame⟩ := Ledger.remove_balanced h.balanced id
    refine ⟨⟨h.nodup.filter _, ?_, fun other => ?_, hbalanced, ?_⟩, rfl, fun other => ?_,
      hsame.records_iff, fun b n => Ledger.counted?_remove⟩
    · rw [hsame.countsBuffers_eq, h.countsBuffers_iff]
    · by_cases hother : other = id
      · subst hother
        simp [hgone]
      · rw [hsame.lists_eq other hother, ← h.mem_entries_iff]
        simp [hother]
    · dsimp only
      rw [h.usage_eq]
      omega
    · simp [List.mem_filter]
  next hcontains =>
    rw [contains_iff] at hcontains
    refine ⟨h, Without.refl r fun other hother hid => ?_⟩
    exact hcontains (hid ▸ hother)

/-- Starting anew when nothing is listed changes nothing that is listed. -/
theorem exact_resetIfEmpty (h : r.Exact) :
    r.resetIfEmpty.Exact ∧ Without r r.resetIfEmpty (fun _ => False) := by
  rw [resetIfEmpty]
  split
  next hempty =>
    have hnil : r.entries = [] := by simpa [isEmpty] using hempty
    -- Neither ledger has records of anything, so they agree on all of them.
    have hnone : ∀ {ledger : Ledger} {id : ProxyId} {report : Report},
        ledger.lists id = false → ¬ ledger.Records id report := by
      intro ledger id report hlists hrecords
      rw [hrecords.lists] at hlists
      cases hlists
    refine ⟨exact_empty r.tier, rfl, by simp [empty, hnil], fun id report _ => ?_,
      fun b n hn => ?_⟩
    · have hold : r.ledger.lists id = false := by
        rw [← Bool.not_eq_true, ← h.mem_entries_iff, hnil]
        exact List.not_mem_nil
      have hnew : (empty r.tier).ledger.lists id = false := by
        rw [← Bool.not_eq_true, ← (exact_empty r.tier).mem_entries_iff]
        exact List.not_mem_nil
      exact iff_of_false (hnone hnew) (hnone hold)
    · rw [empty] at hn
      cases htier : r.tier <;> rw [htier] at hn <;> cases hn
  next => exact ⟨h, Without.refl r (by simp)⟩

/-- A listed proxy can be removed. -/
theorem exact_remove (h : r.Exact) {id : ProxyId} (hid : id ∈ r.entries) :
    ∃ new, r.remove id = .ok new ∧ new.Exact ∧ Without r new (· = id) := by
  have hcontains : r.contains id = true := (contains_iff r id).2 hid
  obtain ⟨hforget, hwithout⟩ := exact_forget h id
  obtain ⟨hreset, hwithout'⟩ := exact_resetIfEmpty hforget
  exact ⟨_, by rw [remove, if_pos hcontains], hreset, hwithout.trans hwithout' (by simp)⟩

theorem exact_foldl_forget (ids : List ProxyId) (h : r.Exact) :
    (ids.foldl forget r).Exact ∧ Without r (ids.foldl forget r) (· ∈ ids) := by
  induction ids generalizing r with
  | nil => exact ⟨h, Without.refl r (by simp)⟩
  | cons id ids ih =>
    obtain ⟨hforget, hwithout⟩ := exact_forget h id
    obtain ⟨hrest, hwithout'⟩ := ih hforget
    exact ⟨hrest, hwithout.trans hwithout' (by simp)⟩

/-- A registry stays exact without the proxies that no longer exist. -/
theorem exact_prune (h : r.Exact) (alive : ProxyId → Bool) :
    (r.prune alive).1.Exact ∧ Without r (r.prune alive).1 (fun id => alive id = false) := by
  rw [prune]
  split
  next hdead =>
    -- Nothing is struck out, and nothing that is listed would have to be.
    refine ⟨h, Without.refl r fun id hid halive => ?_⟩
    rw [List.filter_eq_nil_iff] at hdead
    simpa [halive] using hdead id hid
  next dead hdead =>
    obtain ⟨hforget, hwithout⟩ := exact_foldl_forget (r.entries.filter fun id => !alive id) h
    obtain ⟨hreset, hwithout'⟩ := exact_resetIfEmpty hforget
    have hall : Without r _ (· ∈ r.entries.filter fun id => !alive id) :=
      hwithout.trans hwithout' (by simp)
    refine ⟨hreset, hall.tier_eq, fun id => ?_, fun id report halive => ?_, hall.counted⟩
    · rw [hall.mem_entries_iff, List.mem_filter, Bool.not_eq_true']
      tauto
    · refine hall.records_iff id report ?_
      simp [halive]

/-- Pruning changes nothing if every listed proxy exists. -/
theorem prune_of_alive {alive : ProxyId → Bool} (h : ∀ id ∈ r.entries, alive id = true) :
    r.prune alive = (r, 0) := by
  have hdead : r.entries.filter (fun id => !alive id) = [] := by
    rw [List.filter_eq_nil_iff]
    intro id hid
    simp [h id hid]
  rw [prune, hdead]

/-! ### What the tally is made of -/

/-- Where proxies count one by one, the tally is the sum of the recorded sizes. -/
theorem usage_eq_sum_sizes (h : r.Exact) (hkind : r.ledger.countsBuffers = false)
    {report : ProxyId → Report} (hrecords : ∀ id ∈ r.entries, r.ledger.Records id (report id)) :
    r.usage = ∑ id ∈ r.entries.toFinset, (report id).size := by
  rcases hledger : r.ledger with sizes | ⟨held, refs⟩
  · rw [h.usage_eq, hledger, Ledger.tally, Table.total_eq_sum _ _ r.entries.toFinset]
    · refine Finset.sum_congr rfl fun id hid => ?_
      have hrecord := hrecords id (List.mem_toFinset.1 hid)
      rw [hledger] at hrecord
      simp [Table.weight, show sizes.find? id = _ from hrecord]
    · intro id
      rw [List.mem_toFinset, h.mem_entries_iff, hledger]
      rfl
  · rw [hledger] at hkind
    cases hkind

/-- Where allocations count, those of the listed proxies do, and no others. -/
theorem counted_iff (h : r.Exact) (hkind : r.ledger.countsBuffers = true)
    {report : ProxyId → Report} (hrecords : ∀ id ∈ r.entries, r.ledger.Records id (report id))
    (b : BufferId) :
    (∃ n, r.ledger.counted? b = some n) ↔
      ∃ id ∈ r.entries, b ∈ (report id).buffers.map DeviceBuffer.id := by
  rcases hledger : r.ledger with sizes | ⟨held, refs⟩
  · rw [hledger] at hkind
    cases hkind
  · have hlinked : Ledger.Linked (fun id b => b ∈ (held.find? id).getD []) refs := by
      have := h.balanced
      rwa [hledger] at this
    -- A proxy that refers to something is listed, and its record says what it refers to.
    have hrefers : ∀ id, b ∈ (held.find? id).getD [] ↔
        id ∈ r.entries ∧ b ∈ (report id).buffers.map DeviceBuffer.id := by
      intro id
      by_cases hid : id ∈ r.entries
      · have hrecord := hrecords id hid
        rw [hledger] at hrecord
        obtain ⟨buffers, hfind, hmem⟩ := hrecord
        rw [hfind, Option.getD_some, hmem]
        simp [hid]
      · have hnone : held.find? id = none := by
          rw [h.mem_entries_iff, hledger, Bool.not_eq_true] at hid
          exact (Table.contains_eq_false_iff _ _).1 hid
        simp [hnone, hid]
    constructor
    · rintro ⟨n, hn⟩
      obtain ⟨known, hknown, -⟩ := Option.map_eq_some_iff.1 hn
      obtain ⟨id, hid⟩ := List.exists_mem_of_ne_nil _ (hlinked.nonempty b known hknown)
      exact ⟨id, (hrefers id).1 ((hlinked.refers_iff id b).2 ⟨known, hknown, hid⟩)⟩
    · rintro ⟨id, hid⟩
      obtain ⟨known, hknown, -⟩ := (hlinked.refers_iff id b).1 ((hrefers id).2 hid)
      exact ⟨known.size, by simp [Ledger.counted?, hknown]⟩

/-- Where allocations count, the tally is the sum over those that some proxy refers to, each once
and with the size that is expected of it. -/
theorem usage_eq_sum_buffers (h : r.Exact) (hkind : r.ledger.countsBuffers = true)
    {size : BufferId → ℕ} (hsized : r.ledger.Sized size) {report : ProxyId → Report}
    (hrecords : ∀ id ∈ r.entries, r.ledger.Records id (report id)) :
    r.usage =
      ∑ b ∈ (r.entries.flatMap fun id => (report id).buffers.map DeviceBuffer.id).toFinset,
        size b := by
  have hcounted := counted_iff h hkind hrecords
  rcases hledger : r.ledger with sizes | ⟨held, refs⟩
  · rw [hledger] at hkind
    cases hkind
  · rw [hledger] at hsized hcounted
    rw [h.usage_eq, hledger, Ledger.tally, Table.total_eq_sum]
    · refine Finset.sum_congr rfl fun b hb => ?_
      rw [List.mem_toFinset, List.mem_flatMap, ← hcounted] at hb
      obtain ⟨n, hn⟩ := hb
      rw [Table.weight, show (refs.find? b).map BufferRefs.size = some n from hn, Option.getD_some,
        hsized b n hn]
    · intro b
      rw [List.mem_toFinset, List.mem_flatMap, ← hcounted, Table.contains_iff]
      simp [Ledger.counted?]

end Registry

end TieredStore
