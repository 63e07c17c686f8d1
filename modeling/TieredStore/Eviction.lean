import TieredStore.Id
import TieredStore.Numerals

/-!
# Choosing what to evict

A tier offers units, each with the time of its latest use, the bytes it would release and the
proxies that have to move for that. The least recently used units are taken until they cover what
is asked for.

Main statement: whatever is planned comes from units that were offered (`exists_of_mem_victims`).
-/

namespace TieredStore

/-- What can be evicted as a whole: an allocation with everything that refers to it, or a single
proxy. -/
structure EvictionUnit where
  /-- The latest access to one of the proxies. -/
  lastAccess : Int
  /-- The bytes that are released once all the proxies have moved. -/
  size : Nat
  /-- The proxies that have to move. -/
  proxies : List ProxyId
  deriving DecidableEq

/-- The units chosen for an eviction. -/
structure EvictionPlan where
  /-- The sum of the sizes of the chosen units. Units that share proxies may release less. -/
  freed : Nat
  /-- The proxies to move, each once, the coldest first. -/
  victims : List ProxyId
  deriving DecidableEq

namespace EvictionUnit

/-- Colder units go first, and among equally cold ones the larger. -/
def goesBefore (u v : EvictionUnit) : Bool :=
  u.lastAccess < v.lastAccess || (u.lastAccess == v.lastAccess && v.size ≤ u.size)

/-- The units in the order of eviction. Units that tie stay in the order they came in. -/
def inOrder (units : List EvictionUnit) : List EvictionUnit := units.mergeSort goesBefore

/-- The units from the front that are needed to cover `nbytes`. The first one is taken in any
case. -/
def takeUntil (nbytes : Nat) : List EvictionUnit → List EvictionUnit
  | [] => []
  | u :: units => if nbytes ≤ u.size then [u] else u :: takeUntil (nbytes - u.size) units

/-- The units that are chosen to cover `nbytes`. -/
def chosen (units : List EvictionUnit) (nbytes : Nat) : List EvictionUnit :=
  takeUntil nbytes (inOrder units)

theorem takeUntil_subset (nbytes : Nat) (units : List EvictionUnit) :
    takeUntil nbytes units ⊆ units := by
  induction units generalizing nbytes with
  | nil => simp [takeUntil]
  | cons u units ih =>
    simp only [takeUntil]
    split
    · simp
    · exact List.cons_subset_cons u (ih _)

end EvictionUnit

namespace EvictionPlan

/-- The plan for releasing `nbytes` from the given units. -/
def make (units : List EvictionUnit) (nbytes : Nat) : EvictionPlan :=
  let chosen := EvictionUnit.chosen units nbytes
  { freed := (chosen.map EvictionUnit.size).sum
    victims := (chosen.flatMap EvictionUnit.proxies).eraseDups }

/-- Every victim belongs to a unit that was offered. -/
theorem exists_of_mem_victims {units : List EvictionUnit} {nbytes : Nat} {id : ProxyId}
    (h : id ∈ (make units nbytes).victims) : ∃ u ∈ units, id ∈ u.proxies := by
  simp only [make, List.mem_eraseDups, List.mem_flatMap] at h
  obtain ⟨u, hu, hid⟩ := h
  have hmem := EvictionUnit.takeUntil_subset nbytes _ hu
  exact ⟨u, by simpa [EvictionUnit.inOrder] using hmem, hid⟩

end EvictionPlan

/-- Plans to release `nbytes` from the given units, and demotes the victims one after the other.
Gives the bytes that the plan counts as freed. -/
def evict {m : Type → Type} [Monad m] (nbytes : Nat) (units : List EvictionUnit)
    (demote : ProxyId → m Unit) : m Nat := do
  let plan := EvictionPlan.make units nbytes
  plan.victims.forM demote
  return plan.freed

end TieredStore
