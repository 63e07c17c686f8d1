import TieredStore.Memory.Release

/-!
# Looking at the memory

A check that the books agree with what the proxies say about themselves, and a listing of
everything that is tracked.
-/

namespace TieredStore

namespace Memory

variable {P : Type} [Spillable P]

/-- The error for a proxy that is tracked in a tier which is not that of its form. -/
def wrongTier (id : ProxyId) (serializer : Option Serializer) (tier : Tier) : Error :=
  .invalidState ("proxy " ++ id.display ++ " with serializer "
    ++ Serializer.describeOption serializer ++ " tracked in " ++ tier.label)

/-- The error for a proxy whose payload names another family than the proxy does. -/
def wrongHeader (id : ProxyId) (header : Serializer) (serializer : Option Serializer) : Error :=
  .invalidState ("proxy " ++ id.display ++ " header says " ++ header.title
    ++ " but serializer is " ++ Serializer.describeOption serializer)

/-- Checks one proxy that is tracked in `tier`. -/
def validateProxy (tier : Tier) (id : ProxyId) (p : P) : Action P Unit := do
  let _ ← ask (fun m => m.locate id)
  let serializer := Spillable.serializer p
  if Tier.ofSerializer serializer ≠ tier then fail (wrongTier id serializer tier)
  match Spillable.payload? p with
  | none => return
  | some payload =>
    if some payload.serializer ≠ serializer then
      fail (wrongHeader id payload.serializer serializer)

/-- Checks that every tracked proxy is in one tier only, that of its form. Entries of proxies that
no longer exist are struck out first. -/
def validate : Action P Unit := do
  let _ ← prune
  let m ← get
  Tier.all.forM fun tier => (m.residents tier).forM (fun (id, p) => validateProxy tier id p)

/-- A name filled up with blanks to four characters. -/
def padded (label : String) : String :=
  label ++ String.ofList (List.replicate (4 - label.length) ' ')

/-- A summary of the books, in one line. -/
def heading (m : Memory P) : String :=
  m.manager.display ++ ":" ++ (if m.manager.isEmpty then " Empty" else "")

/-- A line for every proxy that is tracked and exists. -/
def listing (m : Memory P) : List String :=
  Tier.all.flatMap fun tier =>
    (m.residents tier).map
      (fun (_, p) => "  " ++ padded tier.label ++ " - " ++ Spillable.describe p)

/-- The summary and the listing as one text. -/
def prettyPrint (m : Memory P) : String := "\n".intercalate (m.heading :: m.listing)

end Memory

end TieredStore
