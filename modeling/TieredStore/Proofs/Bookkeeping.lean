import TieredStore.Numerals
import TieredStore.Proofs.Tracking

/-!
# The books of a manager

A manager keeps its books from what proxies report, and proxies may report anything: something else
at every call, sizes for an allocation that others contradict, one allocation several times. They
may cease to exist at any moment. A chronicle takes down what the calls say, without any books, and
the books agree with it after any calls.

* `Manager.Call`: the calls that change the registries.
* `Chronicle`: who is tracked, what was reported of them, and what allocations count.
* `Manager.Agrees`: the books say what the chronicle says.
* `Agrees.without`, `Agrees.arrive`: departures and arrivals keep it so.
* `Agrees.foldl`: so does every sequence of calls.
* `books_exact`: where proxies are, which calls succeed, and what the tallies are.
-/

namespace TieredStore

/-- A proxy that is tracked. -/
structure Arrival where
  /-- The proxy. -/
  id : ProxyId
  /-- The tier that tracks it. -/
  tier : Tier
  /-- What it reported when it came to the tier. -/
  report : Report

/-- What the calls to a manager have said. -/
structure Chronicle where
  /-- The proxies that are tracked. -/
  present : List Arrival
  /-- The size that was reported for an allocation when proxies on the device last came to refer to
  it, after none did. -/
  counted : BufferId → ℕ

namespace Manager

/-- A call to a manager. -/
inductive Call where
  /-- Tracks a proxy in the tier that goes with a serializer. -/
  | add (id : ProxyId) (report : Report) (serializer : Option Serializer)
  /-- Tracks a proxy in a tier. -/
  | addToTier (id : ProxyId) (report : Report) (tier : Tier)
  /-- Stops tracking a proxy that some tier tracks. -/
  | remove (id : ProxyId)
  /-- Stops tracking a proxy, if it is tracked. -/
  | forget (id : ProxyId)
  /-- Strikes out the proxies that no longer exist. -/
  | prune (alive : ProxyId → Bool)

namespace Call

/-- What a call does. -/
def run (m : Manager) : Call → Except Failure Manager
  | add id report serializer => m.add id report serializer
  | addToTier id report tier => m.addToTier id report tier
  | remove id => m.remove id
  | forget id => m.forget id
  | prune alive => .ok (m.prune alive).1

/-- The manager after a call. A call that fails leaves it as it was. -/
def after (m : Manager) (call : Call) : Manager :=
  match call.run m with
  | .ok m' => m'
  | .error _ => m

end Call

end Manager

namespace Chronicle

/-- Nothing has been said. -/
def start : Chronicle := ⟨[], fun _ => 0⟩

/-- The proxies in a tier. -/
def inTier (c : Chronicle) (tier : Tier) : List Arrival :=
  c.present.filter fun a => a.tier = tier

/-- The allocations that proxies on the device refer to, by their reports. -/
def deviceBuffers (c : Chronicle) : Finset BufferId :=
  ((c.inTier .device).flatMap fun a => a.report.buffers.map DeviceBuffer.id).toFinset

/-- Some proxies leave. -/
def without (c : Chronicle) (gone : ProxyId → Bool) : Chronicle :=
  { c with present := c.present.filter fun a => !gone a.id }

/-- A proxy comes to a tier, unless it is there already, and leaves the tier where it was. On the
device, the allocations that nobody referred to count from now on. -/
def arrive (c : Chronicle) (a : Arrival) : Chronicle :=
  if ∃ old ∈ c.present, old.tier = a.tier ∧ old.id = a.id then c
  else
    { present := a :: (c.without (· = a.id)).present
      counted := fun b =>
        if a.tier = .device ∧ b ∉ c.deviceBuffers then (a.report.sizeOf? b).getD (c.counted b)
        else c.counted b }

/-- What a call says. -/
def note (c : Chronicle) : Manager.Call → Chronicle
  | .add id report serializer => c.arrive ⟨id, .ofSerializer serializer, report⟩
  | .addToTier id report tier => c.arrive ⟨id, tier, report⟩
  | .remove id | .forget id => c.without (· = id)
  | .prune alive => c.without fun id => !alive id

/-- The report of a proxy that is tracked. -/
def reportOf (c : Chronicle) (id : ProxyId) : Report :=
  ((c.present.find? fun a => a.id = id).map Arrival.report).getD ⟨0, []⟩

theorem mem_inTier {c : Chronicle} {tier : Tier} {a : Arrival} :
    a ∈ c.inTier tier ↔ a ∈ c.present ∧ a.tier = tier := by
  simp [inTier, List.mem_filter]

theorem mem_without {c : Chronicle} {gone : ProxyId → Bool} {a : Arrival} :
    a ∈ (c.without gone).present ↔ a ∈ c.present ∧ gone a.id = false := by
  simp [without, List.mem_filter]

theorem mem_deviceBuffers {c : Chronicle} {b : BufferId} :
    b ∈ c.deviceBuffers ↔
      ∃ a ∈ c.present, a.tier = .device ∧ b ∈ a.report.buffers.map DeviceBuffer.id := by
  simp only [deviceBuffers, List.mem_toFinset, List.mem_flatMap, mem_inTier, and_assoc]

theorem reportOf_eq {c : Chronicle} (h : (c.present.map Arrival.id).Nodup) {a : Arrival}
    (ha : a ∈ c.present) : c.reportOf a.id = a.report := by
  rcases hfind : c.present.find? (fun other => other.id = a.id) with _ | found
  · simpa using List.find?_eq_none.1 hfind a ha
  · -- Only one of the proxies that are tracked has this identity.
    have hid : found.id = a.id := by simpa using List.find?_some hfind
    have hfound : found = a :=
      List.inj_on_of_nodup_map h (List.mem_of_find?_eq_some hfind) ha hid
    simp [reportOf, hfind, hfound]

theorem nodup_without {c : Chronicle} (h : (c.present.map Arrival.id).Nodup)
    (gone : ProxyId → Bool) : ((c.without gone).present.map Arrival.id).Nodup :=
  h.sublist (List.filter_sublist.map _)

end Chronicle

namespace Registry

variable {r : Registry}

/-- What a departure takes off is part of the tally. -/
theorem removed_le_usage (h : r.Exact) (id : ProxyId) : (r.ledger.remove id).2 ≤ r.usage := by
  obtain ⟨-, htally, -⟩ := Ledger.remove_balanced h.balanced id
  rw [h.usage_eq, ← htally]
  exact Nat.le_add_left _ _

/-- Nothing is left of the tally when nothing is listed. -/
theorem usage_of_isEmpty (h : r.Exact) (hempty : r.isEmpty = true) : r.usage = 0 := by
  have hnil : r.entries = [] := by simpa [isEmpty] using hempty
  have hrecords : ∀ id ∈ r.entries, r.ledger.Records id ⟨0, []⟩ := by simp [hnil]
  cases hkind : r.ledger.countsBuffers
  case false => rw [usage_eq_sum_sizes h hkind hrecords, hnil, List.toFinset_nil, Finset.sum_empty]
  case true =>
    have hsized : r.ledger.Sized fun b => (r.ledger.counted? b).getD 0 := by
      intro b n hn
      simp [hn]
    rw [usage_eq_sum_buffers h hkind hsized hrecords, hnil, List.flatMap_nil, List.toFinset_nil,
      Finset.sum_empty]

end Registry

namespace Manager

/-- The books of a manager say what a chronicle says. -/
structure Agrees (m : Manager) (c : Chronicle) : Prop where
  /-- The registries are exact, and no proxy is tracked twice. -/
  exact : m.Exact
  /-- No proxy is present twice. -/
  nodup : (c.present.map Arrival.id).Nodup
  /-- The proxies that are present are those that are tracked. -/
  tracks_iff : ∀ tier id, m.Tracks tier id ↔ ∃ a ∈ c.present, a.tier = tier ∧ a.id = id
  /-- What they reported is recorded. -/
  records : ∀ a ∈ c.present, (m.registry a.tier).ledger.Records a.id a.report
  /-- Allocations count the sizes that were reported. -/
  sized : (m.registry .device).ledger.Sized c.counted

namespace Agrees

variable {m m' : Manager} {c : Chronicle}

theorem mem_entries_iff (h : Agrees m c) (tier : Tier) (id : ProxyId) :
    id ∈ (m.registry tier).entries ↔ id ∈ (c.inTier tier).map Arrival.id := by
  rw [List.mem_map]
  refine (h.tracks_iff tier id).trans ⟨?_, ?_⟩
  · rintro ⟨a, ha, htier, hid⟩
    exact ⟨a, Chronicle.mem_inTier.2 ⟨ha, htier⟩, hid⟩
  · rintro ⟨a, ha, hid⟩
    obtain ⟨ha, htier⟩ := Chronicle.mem_inTier.1 ha
    exact ⟨a, ha, htier, hid⟩

theorem records_reportOf (h : Agrees m c) (tier : Tier) :
    ∀ id ∈ (m.registry tier).entries, (m.registry tier).ledger.Records id (c.reportOf id) := by
  intro id hid
  obtain ⟨a, ha, rfl, rfl⟩ := (h.tracks_iff tier id).1 hid
  rw [Chronicle.reportOf_eq h.nodup ha]
  exact h.records a ha

theorem countsBuffers (h : Agrees m c) (tier : Tier) :
    (m.registry tier).ledger.countsBuffers = true ↔ tier = .device := by
  rw [(h.exact.registries tier).countsBuffers_iff, h.exact.tier_eq]

/-- The allocations that count are those that proxies on the device refer to. -/
theorem counted_iff (h : Agrees m c) (b : BufferId) :
    (∃ n, (m.registry .device).ledger.counted? b = some n) ↔ b ∈ c.deviceBuffers := by
  rw [Registry.counted_iff (h.exact.registries .device) ((h.countsBuffers .device).2 rfl)
    (h.records_reportOf .device), Chronicle.mem_deviceBuffers]
  constructor
  · rintro ⟨id, hid, hb⟩
    obtain ⟨a, ha, htier, rfl⟩ := (h.tracks_iff .device id).1 hid
    rw [Chronicle.reportOf_eq h.nodup ha] at hb
    exact ⟨a, ha, htier, hb⟩
  · rintro ⟨a, ha, htier, hb⟩
    refine ⟨a.id, (h.tracks_iff .device a.id).2 ⟨a, ha, htier, rfl⟩, ?_⟩
    rwa [Chronicle.reportOf_eq h.nodup ha]

/-- Away from the device, the tally is the sum of the sizes that were reported. -/
theorem usage_eq (h : Agrees m c) {tier : Tier} (htier : tier ≠ .device) :
    m.usage tier = ((c.inTier tier).map fun a => a.report.size).sum := by
  have hkind : (m.registry tier).ledger.countsBuffers = false := by
    rw [← Bool.not_eq_true, h.countsBuffers]
    exact htier
  have hfinset : (m.registry tier).entries.toFinset =
      ((c.inTier tier).map Arrival.id).toFinset := by
    ext id
    rw [List.mem_toFinset, List.mem_toFinset, h.mem_entries_iff]
  have hnodup : ((c.inTier tier).map Arrival.id).Nodup :=
    h.nodup.sublist (List.filter_sublist.map _)
  rw [usage, Registry.usage_eq_sum_sizes (h.exact.registries tier) hkind (h.records_reportOf tier),
    hfinset, List.sum_toFinset _ hnodup, List.map_map]
  refine congrArg List.sum (List.map_congr_left fun a ha => ?_)
  rw [Function.comp_apply, Chronicle.reportOf_eq h.nodup (Chronicle.mem_inTier.1 ha).1]

/-- On the device, the tally is the sum over the allocations that are referred to, each once. -/
theorem usage_device_eq (h : Agrees m c) :
    m.usage .device = ∑ b ∈ c.deviceBuffers, c.counted b := by
  have hkind : (m.registry .device).ledger.countsBuffers = true := (h.countsBuffers .device).2 rfl
  rw [usage, Registry.usage_eq_sum_buffers (h.exact.registries .device) hkind h.sized
    (h.records_reportOf .device)]
  refine Finset.sum_congr ?_ fun _ _ => rfl
  ext b
  rw [List.mem_toFinset, List.mem_flatMap, ← h.counted_iff,
    Registry.counted_iff (h.exact.registries .device) hkind (h.records_reportOf .device)]

/-- Departures. -/
theorem without (h : Agrees m c) {gone : ProxyId → Bool} (hexact : m'.Exact)
    (hwithout : Without m m' fun id => gone id = true) : Agrees m' (c.without gone) where
  exact := hexact
  nodup := Chronicle.nodup_without h.nodup gone
  tracks_iff tier id := by
    rw [hwithout.tracks_iff, h.tracks_iff]
    constructor
    · rintro ⟨⟨a, ha, htier, rfl⟩, hgone⟩
      exact ⟨a, Chronicle.mem_without.2 ⟨ha, by simpa using hgone⟩, htier, rfl⟩
    · rintro ⟨a, ha, htier, rfl⟩
      obtain ⟨ha, hgone⟩ := Chronicle.mem_without.1 ha
      exact ⟨⟨a, ha, htier, rfl⟩, by simp [hgone]⟩
  records a ha := by
    obtain ⟨ha, hgone⟩ := Chronicle.mem_without.1 ha
    rw [(hwithout.registries a.tier).records_iff a.id a.report (by simp [hgone])]
    exact h.records a ha
  sized b n hn := h.sized b n ((hwithout.registries .device).counted b n hn)

/-- A proxy that is in a tier already stays there, and so do the books. -/
theorem stay (h : Agrees m c) {a : Arrival} (hthere : m.Tracks a.tier a.id) (hexact : m'.Exact)
    (hplaced : Placed m m' a.id a.report a.tier) : Agrees m' c where
  exact := hexact
  nodup := h.nodup
  tracks_iff tier id := by
    rw [hplaced.tracks_iff, ← h.tracks_iff]
    split
    next hid =>
      -- No other tier tracks it, so it is where it was.
      subst hid
      exact ⟨fun htier => htier ▸ hthere, fun hother => h.exact.unique hother hthere⟩
    next => rfl
  records old hold := by
    by_cases hid : old.id = a.id
    · have htier : old.tier = a.tier :=
        h.exact.unique ((h.tracks_iff _ _).2 ⟨old, hold, rfl, rfl⟩) (hid ▸ hthere)
      rw [hid, htier, hplaced.records_of_tracks hthere, ← hid, ← htier]
      exact h.records old hold
    · rw [hplaced.records_iff old.tier old.id old.report hid]
      exact h.records old hold
  sized b n hn := by
    rcases hplaced.counted .device b n hn with hold | ⟨-, hnot, -⟩
    · exact h.sized b n hold
    · exact absurd hthere hnot

/-- A proxy comes to a tier. -/
theorem arrive (h : Agrees m c) (a : Arrival) (hexact : m'.Exact)
    (hplaced : Placed m m' a.id a.report a.tier) : Agrees m' (c.arrive a) := by
  rw [Chronicle.arrive]
  split
  next hthere => exact h.stay ((h.tracks_iff a.tier a.id).2 hthere) hexact hplaced
  next hthere =>
    have hnot : ¬ m.Tracks a.tier a.id := fun htracks => hthere ((h.tracks_iff _ _).1 htracks)
    have hrest : ∀ {old}, old ∈ (c.without (· = a.id)).present ↔
        old ∈ c.present ∧ old.id ≠ a.id := by
      intro old
      rw [Chronicle.mem_without, decide_eq_false_iff_not]
    refine ⟨hexact, ?_, fun tier id => ?_, fun old hold => ?_, fun b n hn => ?_⟩
    · -- It left the tier where it was, so it is not there twice.
      rw [List.map_cons, List.nodup_cons, List.mem_map]
      refine ⟨?_, Chronicle.nodup_without h.nodup _⟩
      rintro ⟨old, hold, hid⟩
      exact (hrest.1 hold).2 hid
    · rw [hplaced.tracks_iff, List.exists_mem_cons_iff, h.tracks_iff]
      constructor
      · split
        next hid => exact fun htier => .inl ⟨htier.symm, hid.symm⟩
        next hid =>
          rintro ⟨old, hold, htier, rfl⟩
          exact .inr ⟨old, hrest.2 ⟨hold, hid⟩, htier, rfl⟩
      · rintro (⟨rfl, rfl⟩ | ⟨old, hold, rfl, rfl⟩)
        · rw [if_pos rfl]
        · rw [if_neg (hrest.1 hold).2]
          exact ⟨old, (hrest.1 hold).1, rfl, rfl⟩
    · rcases List.mem_cons.1 hold with rfl | hold
      · exact hplaced.records hnot
      · rw [hplaced.records_iff old.tier old.id old.report (hrest.1 hold).2]
        exact h.records old (hrest.1 hold).1
    · -- An allocation counted before exactly if somebody referred to it.
      dsimp only
      rcases hplaced.counted .device b n hn with hold | ⟨htier, -, hnone, hnew⟩
      · rw [if_neg fun hb => hb.2 ((h.counted_iff b).1 ⟨n, hold⟩)]
        exact h.sized b n hold
      · have hb : b ∉ c.deviceBuffers := by
          rw [← h.counted_iff, hnone]
          simp
        rw [if_pos ⟨htier.symm, hb⟩, hnew, Option.getD_some]

theorem start (deviceLimit hostLimit : ℕ) : Agrees (empty deviceLimit hostLimit) .start where
  exact := exact_empty deviceLimit hostLimit
  nodup := List.nodup_nil
  tracks_iff tier id := by
    have hnot : ¬ (empty deviceLimit hostLimit).Tracks tier id := by
      cases tier <;> exact List.not_mem_nil
    simp [hnot, Chronicle.start]
  records a ha := by cases ha
  sized b n hn := by cases hn

/-- The books follow a call. -/
theorem step (h : Agrees m c) (call : Call) : Agrees (call.after m) (c.note call) := by
  have hgone : ∀ {id : ProxyId} {m' : Manager}, m'.Exact → Without m m' (· = id) →
      Agrees m' (c.without (· = id)) := fun hexact hwithout =>
    h.without hexact (by simpa using hwithout)
  cases call with
  | add id report serializer =>
    obtain ⟨m', hrun, hexact, hplaced⟩ :=
      exact_addToTier h.exact id report (.ofSerializer serializer)
    rw [Call.after, Call.run, add, hrun]
    exact h.arrive ⟨id, .ofSerializer serializer, report⟩ hexact hplaced
  | addToTier id report tier =>
    obtain ⟨m', hrun, hexact, hplaced⟩ := exact_addToTier h.exact id report tier
    rw [Call.after, Call.run, hrun]
    exact h.arrive ⟨id, tier, report⟩ hexact hplaced
  | remove id =>
    rw [Call.after, Call.run]
    by_cases htracks : ∃ tier, m.Tracks tier id
    · obtain ⟨tier, htier⟩ := htracks
      obtain ⟨m', hrun, hexact, hwithout⟩ := exact_remove h.exact htier
      rw [hrun]
      exact hgone hexact hwithout
    · -- The call fails, and there is nobody to strike out.
      rw [not_exists] at htracks
      rw [remove_of_not_tracks htracks]
      exact hgone h.exact (Without.refl m fun tier other hother hid => htracks tier (hid ▸ hother))
  | forget id =>
    obtain ⟨m', hrun, hexact, hwithout⟩ := exact_forget h.exact id
    rw [Call.after, Call.run, hrun]
    exact hgone hexact hwithout
  | prune alive =>
    obtain ⟨hexact, hwithout⟩ := exact_prune h.exact alive
    have hdead : Without m (m.prune alive).1 fun id => (!alive id) = true := by simpa using hwithout
    exact h.without hexact hdead

/-- The books follow any calls. -/
theorem foldl (h : Agrees m c) (calls : List Call) :
    Agrees (calls.foldl Call.after m) (calls.foldl Chronicle.note c) := by
  induction calls generalizing m c with
  | nil => exact h
  | cons call calls ih => exact ih (h.step call)

end Agrees

/-- The books are exact after any calls, whatever the proxies report. A proxy is tracked in one tier
at most, so it can be located and tracked anew, and it can be removed exactly if it is tracked. The
tallies of host and disk are the sums of what was reported, that of the device is the sum over the
allocations that are referred to. No departure takes off more than the tally has, and nothing of
the tally is left with the last of them. -/
theorem books_exact (deviceLimit hostLimit : ℕ) (calls : List Call) :
    let m := calls.foldl Call.after (empty deviceLimit hostLimit)
    let c := calls.foldl Chronicle.note .start
    (∀ id, (m.tiersOf id).length ≤ 1 ∧
      ∃ tier?, m.locate id = .ok tier? ∧ ∀ tier, tier? = some tier ↔ m.Tracks tier id) ∧
    (∀ tier id, m.Tracks tier id ↔ ∃ a ∈ c.present, a.tier = tier ∧ a.id = id) ∧
    (∀ id report, (∀ serializer, ∃ m', m.add id report serializer = .ok m') ∧
      ∀ tier, ∃ m', m.addToTier id report tier = .ok m') ∧
    (∀ id, ((∃ tier, m.Tracks tier id) → ∃ m', m.remove id = .ok m') ∧
      ((∀ tier, ¬ m.Tracks tier id) →
        m.remove id = .error (.error (.notFound "proxy" id.display))) ∧
      ∃ m', m.forget id = .ok m') ∧
    (∀ tier, tier ≠ .device →
      m.usage tier = ((c.inTier tier).map fun a => a.report.size).sum) ∧
    m.usage .device = ∑ b ∈ c.deviceBuffers, c.counted b ∧
    ∀ (tier : Tier) (ids : List ProxyId), let r := ids.foldl Registry.forget (m.registry tier)
      (∀ id, (r.ledger.remove id).2 ≤ r.usage) ∧ (r.isEmpty = true → r.usage = 0) := by
  intro m c
  have h : Agrees m c := (Agrees.start deviceLimit hostLimit).foldl calls
  have hplace : ∀ id report tier, ∃ m', m.addToTier id report tier = .ok m' := by
    intro id report tier
    obtain ⟨m', hrun, -⟩ := exact_addToTier h.exact id report tier
    exact ⟨m', hrun⟩
  refine ⟨fun id => ⟨?_, exists_locate h.exact id⟩, h.tracks_iff,
    fun id report => ⟨fun serializer => hplace id report _, hplace id report⟩,
    fun id => ⟨?_, remove_of_not_tracks, ?_⟩, fun tier htier => h.usage_eq htier, h.usage_device_eq,
    fun tier ids => ?_⟩
  · rcases hlist : m.tiersOf id with _ | ⟨tier, _⟩
    · simp
    · have htier : m.Tracks tier id := (mem_tiersOf_iff m id tier).1 (by simp [hlist])
      rw [← hlist, tiersOf_of_tracks h.exact htier]
      simp
  · rintro ⟨tier, htier⟩
    obtain ⟨m', hrun, -⟩ := exact_remove h.exact htier
    exact ⟨m', hrun⟩
  · obtain ⟨m', hrun, -⟩ := exact_forget h.exact id
    exact ⟨m', hrun⟩
  · -- A registry is exact in the middle of several departures, too.
    obtain ⟨hexact, -⟩ := Registry.exact_foldl_forget ids (h.exact.registries tier)
    exact ⟨Registry.removed_le_usage hexact, Registry.usage_of_isEmpty hexact⟩

/-- Proxies that contradict each other: the size that was reported first counts until the last of
them is gone. -/
example :
    let shared (size : ℕ) : Report := ⟨size, [⟨⟨7⟩, size⟩]⟩
    let both : List Call := [.add ⟨1⟩ (shared 10) none, .add ⟨2⟩ (shared 30) none, .remove ⟨1⟩]
    let usage (calls : List Call) := (calls.foldl Call.after (empty 0 0)).usage .device
    usage both = 10 ∧ usage (both ++ [.remove ⟨2⟩, .add ⟨2⟩ (shared 30) none]) = 30 := by
  decide

end Manager

end TieredStore
