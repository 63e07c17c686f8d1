import TieredStore.Error
import TieredStore.Table
import TieredStore.Tier
import TieredStore.Id

/-!
# The registry of a tier

A registry lists the proxies of one tier and keeps a tally of their bytes. On host and disk every
proxy counts its own size. On the device proxies may share allocations: an allocation counts from
the arrival of the first proxy that refers to it to the departure of the last.

What a proxy counts is recorded when it is added, so its departure takes off what its arrival put
on, whatever it reports by then.
-/

namespace TieredStore

/-- What a proxy says about itself when it is added to a registry. -/
structure Report where
  /-- Its size in its current form. -/
  size : Nat
  /-- The allocations that it refers to. -/
  buffers : List DeviceBuffer

/-- An allocation and the proxies that refer to it. -/
structure BufferRefs where
  /-- The size that counts, as the first of the proxies reported it. -/
  size : Nat
  /-- The proxies. -/
  proxies : List ProxyId

/-- What the proxies of a registry counted when they were added. -/
inductive Ledger where
  /-- A size for each proxy. -/
  | perProxy (sizes : Table ProxyId Nat)
  /-- The allocations of each proxy, and the proxies of each allocation. -/
  | perBuffer (held : Table ProxyId (List BufferId)) (refs : Table BufferId BufferRefs)

namespace Ledger

/-- The ledger for a tier without proxies. -/
def forTier : Tier → Ledger
  | .device => perBuffer .empty .empty
  | .host | .disk => perProxy .empty

/-- Records that `id` refers to `buffers`. Gives the allocations of `id`, the proxies of each
allocation, and the bytes of the allocations that had none. -/
def attachBuffers (id : ProxyId) (held : List BufferId) (refs : Table BufferId BufferRefs) :
    List DeviceBuffer → List BufferId × Table BufferId BufferRefs × Nat
  | [] => (held, refs, 0)
  | b :: buffers =>
    if b.id ∈ held then attachBuffers id held refs buffers
    else
      let known := (refs.find? b.id).getD ⟨b.size, []⟩
      let added := if known.proxies.isEmpty then known.size else 0
      let (held, refs, more) :=
        attachBuffers id (b.id :: held)
          (refs.insert b.id { known with proxies := id :: known.proxies }) buffers
      (held, refs, added + more)

/-- Records that `id` no longer refers to the given allocations. Gives the proxies of each
allocation, and the bytes of the allocations that have none left. -/
def detachBuffers (id : ProxyId) (refs : Table BufferId BufferRefs) :
    List BufferId → Table BufferId BufferRefs × Nat
  | [] => (refs, 0)
  | b :: buffers =>
    match refs.find? b with
    | none => detachBuffers id refs buffers
    | some known =>
      let proxies := known.proxies.filter (fun other => other ≠ id)
      if proxies.isEmpty then
        let (refs, more) := detachBuffers id (refs.erase b) buffers
        (refs, known.size + more)
      else detachBuffers id (refs.insert b { known with proxies }) buffers

/-- Enters a proxy. Gives the bytes that it adds to the tally. -/
def add (ledger : Ledger) (id : ProxyId) (report : Report) : Ledger × Nat :=
  match ledger with
  | perProxy sizes => (perProxy (sizes.insert id report.size), report.size)
  | perBuffer held refs =>
    let (buffers, refs, added) := attachBuffers id ((held.find? id).getD []) refs report.buffers
    (perBuffer (held.insert id buffers) refs, added)

/-- Strikes a proxy out. Gives the bytes that it takes off the tally. -/
def remove (ledger : Ledger) (id : ProxyId) : Ledger × Nat :=
  match ledger with
  | perProxy sizes => (perProxy (sizes.erase id), (sizes.find? id).getD 0)
  | perBuffer held refs =>
    let (refs, removed) := detachBuffers id refs ((held.find? id).getD [])
    (perBuffer (held.erase id) refs, removed)

end Ledger

/-- The proxies of one tier and the tally of their bytes. Proxies are listed by identity, so a
listed one may no longer exist. -/
structure Registry where
  /-- The tier. -/
  tier : Tier
  /-- The identities that are tracked, in no order that matters. -/
  entries : List ProxyId
  /-- The tally. -/
  usage : Nat
  /-- What the tally is made of. -/
  ledger : Ledger

namespace Registry

/-- The registry of a tier without proxies. -/
def empty (tier : Tier) : Registry := ⟨tier, [], 0, .forTier tier⟩

/-- Whether an identity is tracked here. -/
def contains (r : Registry) (id : ProxyId) : Bool := r.entries.contains id

/-- The number of identities, those of proxies that no longer exist included. -/
def size (r : Registry) : Nat := r.entries.length

/-- Whether no identity is tracked here. -/
def isEmpty (r : Registry) : Bool := r.entries.isEmpty

/-- Starts to track a proxy, unless it is tracked here already. -/
def add (r : Registry) (id : ProxyId) (report : Report) : Except Error Registry :=
  if r.contains id then .error (.alreadyExists "proxy" id.display)
  else
    let (ledger, added) := r.ledger.add id report
    .ok { r with entries := r.entries ++ [id], usage := r.usage + added, ledger }

/-- The registry without `id`, the tally reduced by what `id` counted. -/
def forget (r : Registry) (id : ProxyId) : Registry :=
  if r.contains id then
    let (ledger, removed) := r.ledger.remove id
    { r with
      entries := r.entries.filter (fun other => other ≠ id)
      usage := r.usage - removed
      ledger }
  else r

/-- A registry that lists nothing tallies nothing. -/
def resetIfEmpty (r : Registry) : Registry := if r.isEmpty then empty r.tier else r

/-- Stops tracking a proxy, if it is tracked here. -/
def remove (r : Registry) (id : ProxyId) : Except Error Registry :=
  if r.contains id then .ok (r.forget id).resetIfEmpty
  else .error (.notFound "proxy" id.display)

/-- Strikes out the proxies that no longer exist. Gives their number. -/
def prune (r : Registry) (alive : ProxyId → Bool) : Registry × Nat :=
  match r.entries.filter (fun id => !alive id) with
  | [] => (r, 0)
  | dead => ((dead.foldl forget r).resetIfEmpty, dead.length)

/-- The registry in a debugging listing. -/
def describe (r : Registry) : String :=
  "TierRegistry \x7b tier: " ++ r.tier.title ++ ", proxies: " ++ toString r.size ++ ", usage: "
    ++ toString r.usage ++ " \x7d"

end Registry

end TieredStore
