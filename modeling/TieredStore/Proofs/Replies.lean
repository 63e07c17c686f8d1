import TieredStore.Proofs.Run

/-!
# What operations give

Beside the state that an operation leaves there is what the caller gets: a result, or the failure
that the operation has ended with. Both come from one action.

* `Reply`: the results of all operations.
* `Op.reply`: what an operation does and gives, of which `Op.run` is the part that it does.
* `Op.answer`, `answers`: what the caller gets from operations that are asked for one after the
  other.
-/

namespace TieredStore

/-- What an operation gives. -/
inductive Reply where
  /-- Nothing. -/
  | done
  /-- A number of bytes or entries. -/
  | count (n : ℕ)
  /-- An array. -/
  | array (a : DeviceArray)
  /-- A proxy. -/
  | proxy (id : ProxyId)
  /-- The proxies that were found in a value. -/
  | found (ids : List ProxyId)
  /-- A stored value, if there is one. -/
  | value (value? : Option (Value DeviceArray))
  /-- A wrapped value, with the proxies that were found in it. -/
  | wrapped (value : Value DeviceArray) (found : List ProxyId)
  /-- A number of bytes, if any were freed. -/
  | freed (nbytes? : Option ℕ)
  /-- Whether to try again, if a callback was asked. -/
  | retry (again? : Option Bool)

namespace Memory

/-- What an operation does, and what it gives. -/
def Op.reply : Op → Action (Proxy DeviceArray) Reply
  | track id => do attach id; Memory.track id; return .done
  | untrack id => do onManager (fun books => books.remove id); return .done
  | prune => return .count (← Memory.prune)
  | object id => return .array (← Memory.object id)
  | reserialize id tags => do serialize id tags; Memory.track id; return .done
  | demoteToHost id => do Memory.demoteToHost id; return .done
  | demoteToDisk id => do Memory.demoteToDisk id; return .done
  | enforceLimits extra => do Memory.enforceLimits extra; return .done
  | enforceDeviceLimit extra => return .count (← Memory.enforceDeviceLimit extra)
  | enforceHostLimit extra => return .count (← Memory.enforceHostLimit extra)
  | evictFromDevice nbytes => do
    let m ← get
    return .count (← evict nbytes (m.units .device) Memory.demoteToHost)
  | evictFromHost nbytes => do
    let m ← get
    return .count (← evict nbytes (m.units .host) Memory.demoteToDisk)
  | touch id time => do Memory.touch id time; return .done
  | relist tier entries => do Memory.relist tier entries; return .done

theorem Op.run_eq_reply (op : Op) : op.run = (do let _ ← op.reply) := by
  cases op <;> simp [run, reply]

end Memory

namespace Store

namespace Op

/-- What an operation does, and what it gives. -/
def reply : Op → Action DeviceArray Reply
  | insert key value => return .found (← Store.insert key value)
  | get key => return .value (← Store.get? key)
  | remove key => return .value (← Store.remove key)
  | adopt value => do
    let (value, found) ← Store.adopt value
    return .wrapped value found
  | wrapObject a isExplicit => return .proxy (← Store.wrapObject a isExplicit)
  | hold ids => do Store.hold ids; return .done
  | letGo ids => do Store.letGo ids; return .done
  | spillHundredth => return .freed (← Store.spillHundredth (T := DeviceArray))
  | allocationFailed nbytes => return .retry (← Store.allocationFailed (T := DeviceArray) nbytes)
  | onMemory op => Store.onMemory op.reply
  | setDirectory isPresent refused sharedFilesystem compression => do
    modify fun s => { s with memory.spill := { s.memory.spill with
      sharedFilesystem, compression, volume := { s.memory.spill.volume with isPresent, refused } } }
    return .done

theorem run_eq_reply (op : Op) : op.run = (do let _ ← op.reply) := by
  cases op with
  | onMemory op =>
    rw [run, reply, op.run_eq_reply]
    funext s
    simp only [Store.onMemory, bind, EStateM.bind]
    cases op.reply s.memory <;> rfl
  | _ => simp [run, reply]

/-- What the caller gets to see of an operation: its reply, or how it has failed. -/
def answer (op : Op) (s : Store DeviceArray) : Except Failure Reply :=
  match op.reply s with
  | .ok r _ => .ok r
  | .error e _ => .error e

theorem after_eq (op : Op) (s : Store DeviceArray) :
    op.after s = match op.reply s with
      | .ok _ s' => s'
      | .error _ s' => s' := by
  rw [after, run_eq_reply]
  simp only [bind, EStateM.bind]
  cases op.reply s <;> rfl

end Op

/-- The answers to operations that are asked for one after the other. -/
def answers : List Op → Store DeviceArray → List (Except Failure Reply)
  | [], _ => []
  | op :: ops, s => op.answer s :: answers ops (op.after s)

end Store

end TieredStore
