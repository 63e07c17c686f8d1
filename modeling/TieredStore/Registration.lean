import TieredStore.Settings
import TieredStore.SpillDirectory

/-!
# The spill directory of the process

A process has at most one spill directory. The first registration fixes where it is; later ones
must name the same place and only renew the flags.

Main statements: a registered directory stays where it is (`register_of_some`), and the first
registration makes a new one (`register_none`), with the setting that was asked for
(`forSettings_none`).
-/

namespace TieredStore

/-- The spill directory of the process, once there is one. -/
abbrev Registration : Type := Option SpillDirectory

namespace Registration

/-- The error for a registration at another place than the first one. -/
def conflict (current requested : Path) : Error :=
  .configConflict ("cannot change the spill directory from " ++ current.text ++ " to "
    ++ requested.text)

/-- The directory of the process, or a new one at `root`. -/
def getOrCreate (root : Path) (tag : String) (shared creatable : Bool) :
    EStateM Error Registration SpillDirectory := fun r =>
  match r with
  | some d => .ok d r
  | none =>
    match SpillDirectory.create root tag shared creatable with
    | .ok d => .ok d (some d)
    | .error e => .error e none

/-- Registers `root` as the spill directory of the process, and creates it if it is missing. A new
directory is created twice, which may succeed the first time (`creatable`) and fail the second
(`lasting`), if somebody removes it in between. -/
def registerStepwise (root : Path) (tag : String) (shared creatable lasting : Bool) :
    EStateM Error Registration SpillDirectory := do
  let d ← getOrCreate root tag shared creatable
  if !d.root.same root then throw (conflict d.root root)
  if !lasting then throw (.uncreatableDirectory d.root.text)
  let d := { d with sharedFilesystem := shared, volume := d.volume.createDirectory }
  set (some d : Registration)
  return d

/-- Registers `root` while nobody else touches the directory. -/
def register (root : Path) (tag : String) (shared creatable : Bool) :
    EStateM Error Registration SpillDirectory :=
  registerStepwise root tag shared creatable creatable

/-- Registers the spill directory that settings ask for, if the settings are valid, for a process
that may have no current directory. -/
def forSettingsIn (settings : Settings) (current : Option Path) (tag : String) (creatable : Bool) :
    EStateM Error Registration SpillDirectory := do
  match settings.validate with
  | .error e => throw e
  | .ok () =>
    match settings.spillDirectory? current with
    | .error e => throw e
    | .ok root =>
      let d ← register root tag settings.sharedFilesystem creatable
      let d := { d with compression := settings.compression }
      set (some d : Registration)
      return d

/-- Registers the spill directory that settings ask for, in the current directory. -/
def forSettings (settings : Settings) (current : Path) (tag : String) (creatable : Bool) :
    EStateM Error Registration SpillDirectory :=
  forSettingsIn settings (some current) tag creatable

/-- A directory that is removed as soon as it was created is registered nonetheless, and it is the
registration that fails. -/
theorem registerStepwise_of_removed (root : Path) (tag : String) (shared : Bool) :
    registerStepwise root tag shared true false none =
      .error (.uncreatableDirectory root.text)
        (some ⟨root, "spilled-data-" ++ tag, 0, shared, true, .empty⟩) := by
  have hsame : root.same root = true := beq_self_eq_true root.components
  simp [registerStepwise, bind, EStateM.bind, getOrCreate, SpillDirectory.create, hsame]
  rfl

/-- Settings without a directory need a current one, and without it nothing is registered. -/
theorem forSettingsIn_none {settings : Settings} (hvalid : settings.validate = .ok ())
    (hlocal : settings.localDirectory = none) (htemporary : settings.temporaryDirectory = none)
    (tag : String) (creatable : Bool) (r : Registration) :
    forSettingsIn settings none tag creatable r = .error Settings.noCurrentDirectory r := by
  simp only [forSettingsIn, hvalid, Settings.spillDirectory?, hlocal, htemporary]
  rfl

/-- Once a directory is registered, a registration succeeds exactly if it names the same place and
the directory can be created, and it renews the flag. -/
theorem register_of_some (d : SpillDirectory) (root : Path) (tag : String)
    (shared creatable : Bool) :
    (register root tag shared creatable).run (some d) =
      if d.root.same root then
        if creatable then
          let d := { d with sharedFilesystem := shared, volume := d.volume.createDirectory }
          .ok d (some d)
        else .error (.uncreatableDirectory d.root.text) (some d)
      else .error (conflict d.root root) (some d) := by
  cases hs : d.root.same root <;> cases creatable <;>
    simp [register, registerStepwise, EStateM.run, bind, EStateM.bind, getOrCreate, hs, pure,
      EStateM.pure] <;> rfl

/-- The first registration makes a new directory. -/
theorem register_none (root : Path) (tag : String) (shared : Bool) :
    register root tag shared true none = .ok ⟨root, "spilled-data-" ++ tag, 0, shared, true, .empty⟩
      (some ⟨root, "spilled-data-" ++ tag, 0, shared, true, .empty⟩) := by
  have hsame : root.same root = true := beq_self_eq_true root.components
  simp only [register, registerStepwise, bind, EStateM.bind, getOrCreate, SpillDirectory.create,
    if_true, hsame]
  rfl

/-- The first registration with valid settings makes the directory that they ask for. -/
theorem forSettings_none {settings : Settings} (hvalid : settings.validate = .ok ())
    (current : Path) (tag : String) :
    ∃ d, forSettings settings current tag true none = .ok d (some d) ∧
      d = ⟨settings.spillDirectory current, "spilled-data-" ++ tag, 0, settings.sharedFilesystem,
        settings.compression, .empty⟩ := by
  refine ⟨_, ?_, rfl⟩
  simp only [forSettings, forSettingsIn, hvalid, Settings.spillDirectory?_some, bind, EStateM.bind,
    register_none]
  rfl

/-- Settings that are not valid make no directory, so every first one is what they ask for. -/
theorem eq_of_forSettings_none {settings : Settings} {current : Path} {tag : String}
    {d : SpillDirectory} {r : Registration}
    (h : forSettings settings current tag true none = .ok d r) :
    d = ⟨settings.spillDirectory current, "spilled-data-" ++ tag, 0, settings.sharedFilesystem,
      settings.compression, .empty⟩ := by
  cases hvalid : settings.validate with
  | error e =>
    simp only [forSettings, forSettingsIn, hvalid] at h
    cases h
  | ok =>
    obtain ⟨d', hd', heq⟩ := forSettings_none hvalid current tag
    rw [hd'] at h
    cases h
    exact heq

end Registration

end TieredStore
