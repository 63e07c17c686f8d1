/-!
# Powers and sums of numbers

What `2 ^ k` and the sum of a list of numbers are is settled here, so that a definition means the
same in modules that know more instances.
-/

namespace TieredStore

@[default_instance 20000]
instance (priority := 2000) powNat : Pow Nat Nat := instPowNat

-- Numerals of no given type are naturals, so this one is tried later.
@[default_instance 15000]
instance (priority := 2000) powInt : Pow Int Nat := instPowNat

instance (priority := 2000) zeroNat : Zero Nat := Zero.ofOfNat0

end TieredStore
