import TieredStore.Proofs.Memory.Lasting
import TieredStore.Proofs.Run

/-!
# Operations that only move proxies

Many operations make no proxy, attach none and end none. They move proxies between the tiers, and
callers may hold some more of them after that. What the steps of a move preserve holds after each of
these operations, too.

* `Memory.Lasting.run`: the operations on the memory.
* `Store.Moved`: what has become of a store.
* `Store.Op.moves`: the operations of a store.
-/

namespace TieredStore

namespace Memory

variable {m : Memory (Proxy DeviceArray)} {inv : Memory (Proxy DeviceArray) → Prop}

/-- An operation attaches no proxy, and leaves the books as they are but for the proxies that it
moves. -/
def Op.IsMove : Op → Prop
  | track _ | untrack _ | prune | relist _ _ => False
  | _ => True

theorem Lasting.run (h : Lasting inv) {op : Op} (hop : op.IsMove) (hm : inv m) :
    Leaves op.run m inv := by
  cases op with
  | track | untrack | prune | relist => exact absurd hop not_false
  | object id => exact (h.object id hm).map
  | reserialize id tags => exact (h.serialize id tags hm).bind fun _ _ hm' => h.track id hm'
  | demoteToHost id => exact h.demoteToHost id hm
  | demoteToDisk id => exact h.demoteToDisk id hm
  | enforceLimits extra => exact h.enforceLimits extra hm
  | enforceDeviceLimit extra => exact (h.enforceDeviceLimit extra hm).map
  | enforceHostLimit extra => exact (h.enforceHostLimit extra hm).map
  | evictFromDevice nbytes =>
    rw [Op.run, Leaves, Ends.bind_iff, Ends.get_iff]
    exact (h.evictToHost _ _ hm).map
  | evictFromHost nbytes =>
    rw [Op.run, Leaves, Ends.bind_iff, Ends.get_iff]
    exact (h.evictToDisk _ _ hm).map
  | touch id time => exact h.touch id time hm

end Memory

namespace Store

variable {α : Type} {s s' : Store DeviceArray} {inv : Memory (Proxy DeviceArray) → Prop}

theorem onMemory_leaves {action : Memory.Action (Proxy DeviceArray) α}
    (h : Leaves action s.memory inv) : Leaves (onMemory action) s fun s' => inv s'.memory :=
  onMemory_iff.2 h

/-- The memory is now as `inv` says, and callers hold some more proxies. -/
def Moved (inv : Memory (Proxy DeviceArray) → Prop) (s s' : Store DeviceArray) : Prop :=
  ∃ memory ids, s' = { s with memory, handles := ids ++ s.handles } ∧ inv memory

theorem Moved.memory (h : Moved inv s s') : inv s'.memory := by
  obtain ⟨memory, ids, rfl, hinv⟩ := h
  exact hinv

/-- Callers need not hold anything new. -/
theorem moved_of_leaves {action : Memory.Action (Proxy DeviceArray) α}
    (h : Leaves action s.memory inv) : Leaves (onMemory action) s (Moved inv s) :=
  onMemory_iff.2 (h.imp fun memory hinv => ⟨memory, [], rfl, hinv⟩)

/-- In compatibility mode objects may be moved while a value is handed out. -/
theorem get?_moves (h : Memory.Lasting inv) (hinv : inv s.memory) (key : String) :
    Leaves (get? key) s (Moved inv s) := by
  rw [get?, Leaves, Ends.bind_iff, Ends.get_iff]
  split
  next => exact ⟨s.memory, [], rfl, hinv⟩
  next value _ =>
    dsimp only
    split
    · rw [Ends.bind_iff, onMemory_iff, Ends.bind_iff]
      refine (h.unwrap true value hinv).mono ?_ fun _ m hm => ⟨m, [], rfl, hm⟩
      rintro value' m ⟨hm, -⟩
      rw [Ends.bind_iff]
      exact (h.enforceLimits 0 hm).mono (fun _ m' hm' => ⟨m', value'.proxies, rfl, hm'⟩)
        fun _ m' hm' => ⟨m', [], rfl, hm'⟩
    · exact ⟨s.memory, value.proxies, rfl, hinv⟩

theorem makeRoom_leaves {m : Memory (Proxy DeviceArray)} (h : Memory.Lasting inv) (hm : inv m)
    (nbytes : ℕ) : Leaves (makeRoom (T := DeviceArray) nbytes) m inv := by
  rw [makeRoom, Leaves, Ends.bind_iff, Ends.get_iff]
  split
  · exact hm
  · refine (h.evictToHost _ _ hm).map.tryCatch fun e m' hm' => ?_
    -- The handler gives an answer or fails once more. It does nothing else.
    split
    · exact hm'
    · exact hm'

theorem spillHundredth_moves (h : Memory.Lasting inv) (hinv : inv s.memory) :
    Leaves (spillHundredth (T := DeviceArray)) s (Moved inv s) := by
  refine moved_of_leaves ?_
  rw [Leaves, Ends.bind_iff, Ends.get_iff]
  split
  · exact hinv
  · exact (h.evictToDisk _ _ hinv).bind fun _ _ hm => (h.enforceLimits 0 hm).map

theorem allocationFailed_moves (h : Memory.Lasting inv) (hinv : inv s.memory) (nbytes : ℕ) :
    Leaves (allocationFailed (T := DeviceArray) nbytes) s (Moved inv s) := by
  have hsame : Moved inv s s := ⟨s.memory, [], rfl, hinv⟩
  rw [allocationFailed, Leaves, Ends.bind_iff, Ends.get_iff]
  split
  · split
    · exact (moved_of_leaves (makeRoom_leaves h hinv nbytes)).map
    · exact hsame
  · exact hsame

namespace Op

/-- An operation makes no proxy, attaches none and ends none, and it leaves the stored values and
the directory as they are. -/
def IsMove : Op → Prop
  | get _ | hold _ | spillHundredth | allocationFailed _ => True
  | onMemory op => op.IsMove
  | insert _ _ | remove _ | adopt _ | wrapObject _ _ | letGo _ | setDirectory _ _ _ _ => False

/-- What the steps of a move preserve holds after an operation that only moves proxies, however it
ends. -/
theorem moves (h : Memory.Lasting inv) (hinv : inv s.memory) {op : Op} (hop : op.IsMove) :
    Leaves op.run s (Moved inv s) := by
  cases op with
  | get key => exact (get?_moves h hinv key).map
  | hold ids => exact ⟨s.memory, ids, rfl, hinv⟩
  | spillHundredth => exact (spillHundredth_moves h hinv).map
  | allocationFailed nbytes => exact (allocationFailed_moves h hinv nbytes).map
  | onMemory op => exact moved_of_leaves (h.run hop hinv)
  | insert | remove | adopt | wrapObject | letGo | setDirectory => exact absurd hop not_false

end Op

end Store

end TieredStore
