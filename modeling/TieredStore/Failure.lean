import TieredStore.Error
import TieredStore.Id
import TieredStore.Tier

/-!
# Failures

An operation on tracked proxies fails with an error, or it finds one identity in two tiers. The
second never happens while proxies are tracked through the manager alone, and nothing can be done
about it by the caller.
-/

namespace TieredStore

/-- How an operation on tracked proxies ends early. -/
inductive Failure where
  /-- An error that the caller can deal with. -/
  | error (e : Error)
  /-- An identity is tracked in two tiers. -/
  | doubleTracking (id : ProxyId) (first second : Tier)
  deriving DecidableEq

namespace Failure

/-- The text of a failure. -/
def display : Failure → String
  | error e => e.display
  | doubleTracking id first second =>
    "proxy " ++ id.display ++ " tracked in both Some(" ++ first.title ++ ") and " ++ second.title

end Failure

end TieredStore
