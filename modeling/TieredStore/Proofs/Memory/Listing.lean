import TieredStore.Proofs.Memory.Advances

/-!
# The order of the books

A registry lists its proxies in no order that matters, and may list them in another one whenever it
is looked at. Which proxies are tracked, the tallies and the records stay as they are.

* `Registry.Reordered`, `Memory.Reordered`: the same books but for the order of the proxies.
* `Reordered.exact`: reordered books are exact.
* `Memory.relist`, `relist_ends`: the proxies of a tier are listed in another order.
-/

namespace TieredStore

/-- Two registries list the same proxies in any order, with the same tally and the same records. -/
structure Registry.Reordered (r s : Registry) : Prop where
  /-- Both are of one tier. -/
  tier_eq : s.tier = r.tier
  /-- They list the same proxies. -/
  entries_perm : r.entries.Perm s.entries
  /-- They have the same tally. -/
  usage_eq : s.usage = r.usage
  /-- They have recorded the same. -/
  ledger_eq : s.ledger = r.ledger

theorem Registry.Reordered.exact {r s : Registry} (h : r.Reordered s) (hr : r.Exact) : s.Exact where
  nodup := h.entries_perm.nodup_iff.1 hr.nodup
  countsBuffers_iff := by
    rw [h.ledger_eq, h.tier_eq]
    exact hr.countsBuffers_iff
  mem_entries_iff id := by
    rw [← h.entries_perm.mem_iff, h.ledger_eq]
    exact hr.mem_entries_iff id
  balanced := h.ledger_eq ▸ hr.balanced
  usage_eq := by
    rw [h.usage_eq, h.ledger_eq]
    exact hr.usage_eq

namespace Memory

section

variable {P : Type} {m n : Memory P} {tier : Tier} {entries : List ProxyId}

/-- Two memories have the same proxies and files, and the same books but for the order in which the
proxies of each tier are listed. -/
structure Reordered (m n : Memory P) : Prop where
  /-- The proxies are the same. -/
  find?_eq : ∀ id, n.proxies.find? id = m.proxies.find? id
  /-- The spill directories are the same. -/
  spill_eq : n.spill = m.spill
  /-- Each tier lists the same proxies. -/
  registries : ∀ tier, (m.manager.registry tier).Reordered (n.manager.registry tier)

namespace Reordered

theorem tracks_iff (h : m.Reordered n) (tier : Tier) (id : ProxyId) :
    n.manager.Tracks tier id ↔ m.manager.Tracks tier id :=
  (h.registries tier).entries_perm.mem_iff.symm

theorem usage_eq (h : m.Reordered n) (tier : Tier) :
    n.manager.usage tier = m.manager.usage tier :=
  (h.registries tier).usage_eq

/-- Nothing in the books but the order of the proxies has changed, so they are exact as before. -/
theorem exact (h : m.Reordered n) (hm : m.manager.Exact) : n.manager.Exact where
  registries tier := (h.registries tier).exact (hm.registries tier)
  tier_eq tier := (h.registries tier).tier_eq.trans (hm.tier_eq tier)
  unique {id tier other} htracks hother := by
    rw [h.tracks_iff] at htracks hother
    exact hm.unique htracks hother

end Reordered

/-- The memory with another list of the proxies of a tier. -/
def relisted (m : Memory P) (tier : Tier) (entries : List ProxyId) : Memory P :=
  { m with manager := m.manager.setRegistry tier { m.manager.registry tier with entries } }

/-- Lists the proxies of a tier as they come in another list. -/
def relist (tier : Tier) (entries : List ProxyId) : Action P Unit :=
  modify fun m => m.relisted tier entries

theorem reordered_relisted (h : (m.manager.registry tier).entries.Perm entries) :
    m.Reordered (m.relisted tier entries) where
  find?_eq _ := rfl
  spill_eq := rfl
  registries t := by
    rw [relisted, Manager.registry_setRegistry]
    split
    next ht =>
      subst ht
      exact ⟨rfl, h, rfl, rfl⟩
    next => exact ⟨rfl, .refl _, rfl, rfl⟩

end

variable {log : List DeviceArray} {m n : Memory (Proxy DeviceArray)} {tier : Tier}
  {entries : List ProxyId}

namespace Reordered

theorem seated_iff (h : m.Reordered n) (id : ProxyId) : n.Seated id ↔ m.Seated id :=
  seated_congr (h.find?_eq id) fun tier => h.tracks_iff tier id

theorem stranded_iff (h : m.Reordered n) (id : ProxyId) : n.Stranded id ↔ m.Stranded id :=
  stranded_congr (h.find?_eq id) fun tier => h.tracks_iff tier id

theorem enrolled_iff (h : m.Reordered n) (id : ProxyId) : n.Enrolled id ↔ m.Enrolled id :=
  enrolled_congr (h.find?_eq id) fun tier => h.tracks_iff tier id

end Reordered

/-- Every proxy keeps its place when the books are listed in another order. -/
theorem Coherent.relisted (h : Coherent log m)
    (hperm : (m.manager.registry tier).entries.Perm entries) :
    Coherent log (m.relisted tier entries) where
  nextId_eq := h.nextId_eq
  addressable := h.addressable
  stands := h.stands
  owner_unique := h.owner_unique
  owned := h.owned
  exact := (reordered_relisted hperm).exact h.exact
  attached htracks := h.attached (((reordered_relisted hperm).tracks_iff _ _).1 htracks)
  recorded {t id p a} htracks hfind horigin ht := by
    rw [((reordered_relisted hperm).registries t).ledger_eq]
    exact h.recorded (((reordered_relisted hperm).tracks_iff t id).1 htracks) hfind horigin ht
  sized hsize t := by
    rw [((reordered_relisted hperm).registries t).ledger_eq]
    exact h.sized hsize t
  isManaged_eq := h.isManaged_eq
  seated_or_stranded id := by
    rw [(reordered_relisted hperm).seated_iff, (reordered_relisted hperm).stranded_iff]
    exact h.seated_or_stranded id

/-- The books are listed in another order, and everything else stays in place. -/
theorem relist_ends (h : Coherent log m)
    (hperm : (m.manager.registry tier).entries.Perm entries) :
    Ends (relist tier entries) m
      (fun _ m' => Advances log m m' ∧ m.Reordered m') Never := by
  rw [relist, Ends.modify_iff]
  have hreordered := reordered_relisted hperm
  have hlimits : SameLimits m (m.relisted tier entries) :=
    ⟨Manager.deviceLimit_setRegistry _ _ _, Manager.hostLimit_setRegistry _ _ _, rfl, rfl, .refl _⟩
  exact ⟨{ hlimits.kept rfl with
    coherent := h.relisted hperm
    stranded := fun id => (hreordered.stranded_iff id).1
    enrolled := fun id => (hreordered.enrolled_iff id).2 }, hreordered⟩

end Memory

end TieredStore
