import TieredStore.Proofs.Memory.Lifetime
import TieredStore.Proofs.Memory.Listing

/-!
# Operations on proxies and tiers

Everything that can be asked of the proxies that exist and of their manager, as data. An operation
may be asked for if the proxies that it names exist, and the demotions also need a proxy that is
attached to the manager. Access times may be set as callers like, and the books list their proxies
in any order, so nothing that is proved of all operations depends on either.

* `Memory.Op`: the operations.
* `Op.Spares`, `Op.Enrols`: what keeps an operation from stranding a proxy, and from striking one
  from the books that is not live.
* `Op.ends`: each of them leads from one coherent memory to another, also where it fails.
-/

namespace TieredStore

namespace Memory

/-- An operation on a proxy or on the tiers. -/
inductive Op where
  /-- Attaches a proxy to the manager and tracks it in the tier of its form. -/
  | track (id : ProxyId)
  /-- Stops tracking a proxy. -/
  | untrack (id : ProxyId)
  /-- Strikes out the entries of proxies that no longer exist. -/
  | prune
  /-- Asks a proxy for its object. -/
  | object (id : ProxyId)
  /-- Serializes a proxy for one of some families, and tracks it in the tier of its new form. -/
  | reserialize (id : ProxyId) (tags : List Serializer)
  /-- Moves a proxy to the host. -/
  | demoteToHost (id : ProxyId)
  /-- Moves a proxy to disk. -/
  | demoteToDisk (id : ProxyId)
  /-- Makes room on the device for some more bytes, and then on the host. -/
  | enforceLimits (extra : ℕ)
  /-- Makes room on the device for some more bytes. -/
  | enforceDeviceLimit (extra : ℕ)
  /-- Makes room on the host for some more bytes. -/
  | enforceHostLimit (extra : ℕ)
  /-- Moves proxies from the device to the host, for a number of bytes. -/
  | evictFromDevice (nbytes : ℕ)
  /-- Moves proxies from the host to disk, for a number of bytes. -/
  | evictFromHost (nbytes : ℕ)
  /-- Sets the time of the last access to a proxy, to one in the past or the future. -/
  | touch (id : ProxyId) (time : Int)
  /-- The books list the proxies of a tier in another order. -/
  | relist (tier : Tier) (entries : List ProxyId)

variable {log : List DeviceArray} {m : Memory (Proxy DeviceArray)} {id : ProxyId}
  {p : ObjectProxy DeviceArray}

/-- A proxy exists and is attached to the manager. -/
def IsAttached (m : Memory (Proxy DeviceArray)) (id : ProxyId) : Prop :=
  ∃ p, m.proxies.find? id = some p ∧ Spillable.isAttached p = true

namespace Op

/-- What an operation does. -/
def run : Op → Action (Proxy DeviceArray) Unit
  | track id => do attach id; Memory.track id
  | untrack id => onManager (fun books => books.remove id)
  | prune => do let _ ← Memory.prune
  | object id => do let _ ← Memory.object id
  | reserialize id tags => do serialize id tags; Memory.track id
  | demoteToHost id => Memory.demoteToHost id
  | demoteToDisk id => Memory.demoteToDisk id
  | enforceLimits extra => Memory.enforceLimits extra
  | enforceDeviceLimit extra => do let _ ← Memory.enforceDeviceLimit extra
  | enforceHostLimit extra => do let _ ← Memory.enforceHostLimit extra
  | evictFromDevice nbytes => do
    let m ← get
    let _ ← evict nbytes (m.units .device) Memory.demoteToHost
  | evictFromHost nbytes => do
    let m ← get
    let _ ← evict nbytes (m.units .host) Memory.demoteToDisk
  | touch id time => Memory.touch id time
  | relist tier entries => Memory.relist tier entries

/-- Whoever asks for an operation holds the proxies that it names. No proxy comes into the books or
leaves them by being listed elsewhere. -/
def Admissible (m : Memory (Proxy DeviceArray)) : Op → Prop
  | track id | object id | touch id _ => m.isAlive id = true
  | relist tier entries => (m.manager.registry tier).entries.Perm entries
  | reserialize id _ | demoteToHost id | demoteToDisk id => m.IsAttached id
  | _ => True

/-- No live proxy is moved from the device to disk while files may be refused. -/
def Spares (m : Memory (Proxy DeviceArray)) : Op → Prop
  | demoteToDisk id => m.manager.Tracks .device id →
    ∀ p, m.proxies.find? id = some (.object p) → p.form.tier = .device → m.spill.Writable
  | _ => True

/-- No proxy is struck from the books while it is not live, nor is one serialized by a move to disk
that may fail. -/
def Enrols (m : Memory (Proxy DeviceArray)) : Op → Prop
  | untrack _ => False
  | demoteToDisk id =>
    ∀ p, m.proxies.find? id = some (.object p) → p.form.tier = .device → m.spill.Writable
  | _ => True

end Op

/-- An operation leads to a coherent memory with the same proxies. None of them loses its place if
the operation sees to that. -/
structure Leads (log : List DeviceArray) (op : Op) (m m' : Memory (Proxy DeviceArray)) : Prop
    extends Kept m m' where
  /-- The memory is coherent. -/
  coherent : Coherent log m'
  /-- No more proxies are stranded. -/
  stranded : op.Spares m → ∀ id, m'.Stranded id → m.Stranded id
  /-- Proxies that were tracked unless live still are. -/
  enrolled : op.Enrols m → ∀ id, m.Enrolled id → m'.Enrolled id

theorem Advances.leads {m' : Memory (Proxy DeviceArray)} (h : Advances log m m') (op : Op) :
    Leads log op m m' :=
  { h.toKept with
    coherent := h.coherent
    stranded := fun _ => h.stranded
    enrolled := fun _ => h.enrolled }

theorem Coherent.exists_attached (h : Coherent log m) (hattached : m.IsAttached id) :
    ∃ p, m.proxies.find? id = some (.object p) ∧ p.isAttached = true := by
  obtain ⟨r, hr, hattached⟩ := hattached
  obtain ⟨p, -, rfl, -⟩ := h.stands hr
  exact ⟨p, hr, hattached⟩

/-- A proxy is serialized once more, and tracked after that. If there is no family to serialize it
for, everything stays as it was. -/
theorem reserialize_ends (h : Coherent log m) (hfind : m.proxies.find? id = some (.object p))
    (hattached : p.isAttached = true) (tags : List Serializer) :
    Ends (do serialize id tags; track id) m (fun _ m' => Advances log m m')
      (fun _ m' => Advances log m m') := by
  rw [Ends.bind_iff]
  refine (serialize_ends h.toSound hfind (h.tier_eq_or_device hfind) tags).mono ?_ ?_
  · rintro - m' ⟨hsound, q, hreformed, -⟩
    have hfind' := hreformed.find?_self
    refine (track_ends hsound hfind' (hreformed.isAttached hattached)).of_never ?_
    rintro - m'' ⟨hsound', htracked⟩
    exact h.advances hsound' (hreformed.relocated (htracked.relocated hfind' rfl) hfind)
  · rintro e m' ⟨hsound, hreformed, -⟩
    exact h.advances_of_reformed hsound hfind hreformed rfl

/-- Every operation leads from one coherent memory to another, however it ends. -/
theorem Op.ends (h : Coherent log m) (op : Op) (hadmissible : op.Admissible m) :
    Ends op.run m (fun _ m' => Leads log op m m') (fun _ m' => Leads log op m m') := by
  have hrefused : ∀ e m', Refused log m e m' → Leads log op m m' := fun _ _ hrefused =>
    hrefused.1.leads op
  have hrelocated : ∀ {m' ids tier}, Sound log m' → Relocated m m' ids tier → Leads log op m m' :=
    fun hsound hrelocated => (h.advances hsound hrelocated).leads op
  cases op with
  | track id =>
    obtain ⟨p, hfind⟩ := h.exists_object hadmissible
    exact (attach_track_ends h hfind).of_never fun _ _ hadvances => hadvances.leads _
  | untrack id =>
    refine (remove_ends h id).mono ?_ ?_
    · rintro - m' ⟨hcoherent, huntracked⟩
      exact { huntracked.toKept with
        coherent := hcoherent
        stranded := fun _ _ => huntracked.stranded
        enrolled := False.elim }
    · rintro e m' ⟨rfl, -⟩
      exact (Advances.refl h).leads _
  | prune =>
    rw [run, Ends.bind_iff]
    refine (prune_ends h.toSound).of_never ?_
    rintro count m' ⟨-, rfl⟩
    exact (Advances.refl h).leads _
  | object id =>
    obtain ⟨p, hfind⟩ := h.exists_object hadmissible
    obtain ⟨a, horigin, -⟩ := h.exists_origin hfind
    rw [run, Ends.bind_iff]
    exact (object_ends h hfind horigin).mono (fun _ _ hend => hend.2.1.leads _) hrefused
  | reserialize id tags =>
    obtain ⟨p, hfind, hattached⟩ := h.exists_attached hadmissible
    exact (reserialize_ends h hfind hattached tags).mono (fun _ _ hend => hend.leads _)
      fun _ _ hend => hend.leads _
  | demoteToHost id =>
    obtain ⟨p, hfind, hattached⟩ := h.exists_attached hadmissible
    exact (demoteToHost_ends h hfind hattached).of_never fun _ _ hend => hrelocated hend.1 hend.2
  | demoteToDisk id =>
    obtain ⟨p, hfind, hattached⟩ := h.exists_attached hadmissible
    refine (demoteToDisk_ends h hfind hattached).mono (fun _ _ hend => hrelocated hend.1 hend.2) ?_
    rintro e m' (⟨-, hend⟩ | ⟨hlive, hinterrupted⟩)
    · exact hrefused e m' hend
    · -- This is the one way for a proxy to get stranded.
      refine { hinterrupted.toKept with
        coherent := hinterrupted.coherent
        stranded := fun hspares other hstranded => ?_
        enrolled := fun henrols => absurd (henrols p hfind hlive) hinterrupted.not_writable }
      rcases (hinterrupted.stranded_iff other).1 hstranded with hold | ⟨-, htracks⟩
      · exact hold
      · exact absurd (hspares htracks p hfind hlive) hinterrupted.not_writable
  | enforceLimits extra =>
    exact (enforceLimits_ends h extra).mono (fun _ _ hend => (hend.advances h).leads _) hrefused
  | enforceDeviceLimit extra =>
    rw [run, Ends.bind_iff]
    exact (enforceDeviceLimit_ends h extra).mono (fun _ _ hend => hrelocated hend.1 hend.2) hrefused
  | enforceHostLimit extra =>
    rw [run, Ends.bind_iff]
    exact (enforceHostLimit_ends h extra).mono (fun _ _ hend => hrelocated hend.1 hend.2) hrefused
  | evictFromDevice nbytes =>
    rw [run, Ends.bind_iff, Ends.get_iff, Ends.bind_iff]
    exact (evictToHost_ends h nbytes).mono (fun _ _ hend => hrelocated hend.2.1 hend.2.2) hrefused
  | evictFromHost nbytes =>
    rw [run, Ends.bind_iff, Ends.get_iff, Ends.bind_iff]
    exact (evictToDisk_ends h nbytes).mono (fun _ _ hend => hrelocated hend.2.1 hend.2.2) hrefused
  | touch id time =>
    obtain ⟨p, hfind⟩ := h.exists_object hadmissible
    exact (touch_ends h hfind time).of_never fun _ _ hend => hend.1.leads _
  | relist tier entries =>
    exact (relist_ends h hadmissible).of_never fun _ _ hend => hend.1.leads _

end Memory

end TieredStore
