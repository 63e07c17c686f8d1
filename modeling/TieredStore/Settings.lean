import TieredStore.Error
import TieredStore.Numerals
import TieredStore.Path

/-!
# Settings

The settings of a store, with their defaults and their limits.
-/

namespace TieredStore

/-- The settings of a store. -/
structure Settings where
  /-- The bytes of device memory in use before proxies move to the host. -/
  deviceMemoryLimit : Nat
  /-- The bytes of host memory in use before proxies move to disk. -/
  memoryLimit : Nat
  /-- The directory under which the spill directory is. -/
  localDirectory : Option Path
  /-- The directory for temporary files, for want of a local directory. -/
  temporaryDirectory : Option Path
  /-- Whether several workers share the spill directory. -/
  sharedFilesystem : Bool
  /-- Whether proxies are unwrapped before values are handed out. -/
  compatibilityMode : Bool
  /-- Whether a failed allocation makes room on the device. -/
  spillOnDemand : Bool
  /-- Whether spilled frames are compressed where that makes them smaller. -/
  compression : Bool
  deriving DecidableEq

namespace Settings

/-- The settings that hold where nothing else is said: one gibibyte of device memory and four of
host memory. -/
def default : Settings where
  deviceMemoryLimit := 2 ^ 30
  memoryLimit := 4 * 2 ^ 30
  localDirectory := none
  temporaryDirectory := none
  sharedFilesystem := false
  compatibilityMode := false
  spillOnDemand := true
  compression := true

/-- The default settings with other limits. -/
def withLimits (deviceMemoryLimit memoryLimit : Nat) : Settings :=
  { default with deviceMemoryLimit, memoryLimit }

/-- The error for a limit of zero. -/
def zeroLimit (name : String) : Error := .validation (name ++ " must be > 0")

/-- Both limits must be positive; the device's is looked at first. -/
def validate (s : Settings) : Except Error Unit :=
  if s.deviceMemoryLimit = 0 then .error (zeroLimit "device_memory_limit")
  else if s.memoryLimit = 0 then .error (zeroLimit "memory_limit")
  else .ok ()

/-- What stands below the chosen directory in the path of the spill directory. -/
def subdirectories : List String := ["jitspill-worker-space", "disk-storage"]

/-- The spill directory: below the local directory, or else the temporary one, or else the
current one. -/
def spillDirectory (s : Settings) (current : Path) : Path :=
  subdirectories.foldl Path.join ((s.localDirectory <|> s.temporaryDirectory).getD current)

/-- The error for a process whose current directory cannot be found. -/
def noCurrentDirectory : Error := .io "cannot find the current directory"

/-- The spill directory, for a process that may have no current directory. -/
def spillDirectory? (s : Settings) (current : Option Path) : Except Error Path :=
  match s.localDirectory <|> s.temporaryDirectory <|> current with
  | some root => .ok (subdirectories.foldl Path.join root)
  | none => .error noCurrentDirectory

/-- A process with a current directory has a spill directory. -/
@[simp] theorem spillDirectory?_some (s : Settings) (current : Path) :
    s.spillDirectory? (some current) = .ok (s.spillDirectory current) := by
  unfold spillDirectory? spillDirectory
  cases s.localDirectory <;> cases s.temporaryDirectory <;> rfl

/-- Settings pass exactly if both limits are positive. -/
theorem validate_eq_ok_iff (s : Settings) :
    s.validate = .ok () ↔ 0 < s.deviceMemoryLimit ∧ 0 < s.memoryLimit := by
  unfold validate
  split
  next h => simp [h]
  next hd =>
    split
    next hm => simp [hm]
    next hm => simp [Nat.pos_of_ne_zero hd, Nat.pos_of_ne_zero hm]

end Settings

end TieredStore
