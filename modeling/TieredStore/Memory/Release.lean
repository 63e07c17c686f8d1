import TieredStore.Memory

/-!
# The end of a proxy

When nobody holds a proxy any more its spill file is removed, and it stops being tracked. A proxy
that is not attached to the manager leaves its entry behind, which is struck out later.
-/

namespace TieredStore

namespace Memory

variable {P : Type} [Spillable P]

/-- The end of one proxy. -/
def release (id : ProxyId) : Action P Unit := do
  match (← get).proxies.find? id with
  | none => return
  | some p =>
    modify fun m =>
      { m with
        proxies := m.proxies.erase id
        spill :=
          match Spillable.ownedFile? p with
          | some path => { m.spill with volume := m.spill.volume.discard path }
          | none => m.spill }
    if Spillable.isAttached p && (← get).isManaged then onManager (fun m => m.forget id)

/-- The end of several proxies. A failure does not keep the others from going, and the first one
is reported. -/
def releaseAll : List ProxyId → Action P Unit
  | [] => return
  | id :: ids => do
    tryCatch (release id) (fun failure => do
      tryCatch (releaseAll ids) (fun _ => return)
      throw failure)
    releaseAll ids

/-- Strikes the entries of proxies that no longer exist. Gives their number. -/
def prune : Action P Nat := modifyGet fun m =>
  let (manager, count) := m.manager.prune m.isAlive
  (count, { m with manager })

end Memory

end TieredStore
