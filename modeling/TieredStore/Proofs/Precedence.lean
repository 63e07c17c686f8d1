import Mathlib
import TieredStore.Proofs.Sources
import TieredStore.Settings.Load

/-!
# Which source a setting comes from

Each setting comes from the highest source that defines it, whatever the sources define besides and
whatever lower ones say of it. What a source gives for a setting is said of its entries one by one
(`RawFields.Gives`, `Environment.Gives`), without laying sources over one another, and is compared
with what the layers come to in the end.

The name of an entry may lead into tables and lists, and so does a variable with doubled underscores
in its name. Such an entry defines the setting that its name starts with, as a table or a list,
which is none of the kinds that settings have. Tables of several sources are merged, so what is
found in the end need not be what the highest source has given, but no conversion tells the
difference (`RawValue.Alike`).

* `RawFields.Shows`: what is found in layers.
* `RawFields.shows_layer`, `RawFields.shows_stacked`: one source, and sources over the defaults.
* `Settings.Wins`, `Settings.WonBy`: one setting, and all of them, as the highest sources give them.
* `Settings.ofFields_stacked_iff`: what layers come to.
* `Settings.load_precedence`: which settings are loaded, and when loading fails.
-/

namespace TieredStore

namespace RawValue

/-- Whether a value is a table. -/
def isTable : RawValue → Bool
  | table _ => true
  | _ => false

/-- No conversion tells the values apart. -/
structure Alike (v w : RawValue) : Prop where
  /-- They are the same number of bytes. -/
  toWord?_eq : v.toWord? = w.toWord?
  /-- They are the same truth value. -/
  toBool?_eq : v.toBool? = w.toBool?
  /-- They are the same path. -/
  toPath?_eq : v.toPath? = w.toPath?

theorem Alike.refl (v : RawValue) : Alike v v := ⟨rfl, rfl, rfl⟩

end RawValue

/-! ### Layers -/

namespace RawFields

/-- No entry is a table. -/
def IsFlat (source : List (String × RawValue)) : Prop := ∀ entry ∈ source, entry.2.isTable = false

/-- What is given for a setting by the highest of some sources that gives anything. The highest
source comes first. -/
def Winner (givings : List (String → RawValue → Prop)) (key : String) : RawValue → Prop :=
  RawValue.First (givings.map fun gives => gives key)

/-- Sources laid over some fields, the first one on top. -/
def stacked (fields : RawFields) (sources : List (List (String × RawValue))) : RawFields :=
  sources.foldr (fun source fields => layer fields source) fields

/-- Fields show what is given for a setting, as far as conversions can tell, and the same as the
fields below if nothing is given. -/
def Shows (fields below : RawFields) (key : String) (gives : RawValue → Prop) : Prop :=
  (∀ v, gives v → ∃ w, find? fields key = some w ∧ w.Alike v) ∧
    ((∀ v, ¬gives v) → find? fields key = find? below key)

/-- Fields show nothing else than what is there. -/
theorem Shows.refl (fields : RawFields) (key : String) : Shows fields fields key fun _ => False :=
  ⟨fun _ h => h.elim, fun _ => rfl⟩

/-- What is on top comes first. -/
theorem Shows.or {fields middle below : RawFields} {key : String} {gives gives' : RawValue → Prop}
    (h : Shows fields middle key gives) (h' : Shows middle below key gives') :
    Shows fields below key fun v => gives v ∨ (∀ w, ¬gives w) ∧ gives' v := by
  constructor
  · rintro v (hv | ⟨hnone, hv⟩)
    · exact h.1 v hv
    · rw [h.2 hnone]
      exact h'.1 v hv
  · intro hnone
    have htop : ∀ v, ¬gives v := fun v hv => hnone v (.inl hv)
    exact (h.2 htop).trans (h'.2 fun v hv => hnone v (.inr ⟨htop, hv⟩))

/-- What is at the end of some steps is inside a table or a list, whatever was there before. -/
theorem setBelow_alike {path : List Step} (hpath : path ≠ []) (target value : RawValue)
    (fields : List (String × RawValue)) : (setBelow target path value).Alike (.table fields) := by
  match path with
  | [] => exact absurd rfl hpath
  | [.field _] => exact ⟨rfl, rfl, rfl⟩
  | .field _ :: _ :: _ => exact ⟨rfl, rfl, rfl⟩
  | .item :: _ => exact ⟨rfl, rfl, rfl⟩

theorem find?_setPath (fields : RawFields) (first key : String) (path : List Step)
    {value : RawValue}
    (hflat : value.isTable = false) : find? (setPath fields first path value) key =
      if key = first then some (setBelow ((find? fields first).getD .null) path value)
      else find? fields key := by
  cases path with
  | nil =>
    rw [setPath_nil, find?_setField_of_not_table fields first key value]
    · rfl
    · rintro incoming rfl
      cases hflat
  | cons => exact find?_put fields first key _

/-- Setting an entry shows what it says of a setting, and changes no other field. -/
theorem shows_setPath {key : String} (hkey : IsName key) (fields : RawFields) (name : String)
    {value : RawValue} (hflat : value.isTable = false) :
    Shows (setPath fields (pathOf name.toLower).1 (pathOf name.toLower).2 value) fields key
      (Defines key (name, value)) := by
  rw [Shows, find?_setPath fields _ _ _ hflat]
  constructor
  · intro v hv
    have hfirst := (exists_defines_iff hkey).1 ⟨v, hv⟩
    refine ⟨_, if_pos hfirst.symm, ?_⟩
    cases hv with
    | itself hname =>
      rw [(pathOf_eq_iff hkey).2 ⟨[], 0, by rw [hname, List.append_nil], rfl⟩]
      exact .refl value
    | below hname htail =>
      obtain ⟨hne, bound, path, hpath⟩ := htail
      rw [(pathOf_eq_iff hkey).2 ⟨_, bound, by rw [hname, String.toList_append], hpath⟩]
      refine setBelow_alike ?_ _ _ _
      rintro rfl
      exact hne (eq_nil_of_steps? hpath)
  · intro hnone
    rw [if_neg]
    exact fun hfirst => (exists_defines_iff hkey).2 hfirst.symm |>.elim hnone

/-- A layer shows what its source gives. -/
theorem shows_layer {key : String} (hkey : IsName key) {source : List (String × RawValue)}
    (hflat : IsFlat source) (fields : RawFields) :
    Shows (layer fields source) fields key (Gives source key) := by
  induction source generalizing fields with
  | nil => exact .refl fields key
  | cons entry source ih =>
    rw [IsFlat, List.forall_mem_cons] at hflat
    rw [Gives, List.reverse_cons, List.map_append, List.map_singleton, RawValue.first_concat]
    -- The entries behind this one are laid over what it has set.
    exact (ih hflat.2 _).or (shows_setPath hkey fields entry.1 hflat.1)

/-- Layers show what the highest source gives that defines a setting. -/
theorem shows_stacked {key : String} (hkey : IsName key) {sources : List (List (String × RawValue))}
    (hflat : ∀ s ∈ sources, IsFlat s) (fields : RawFields) :
    Shows (stacked fields sources) fields key (Winner (sources.map Gives) key) := by
  induction sources with
  | nil => exact .refl fields key
  | cons source sources ih =>
    rw [List.forall_mem_cons] at hflat
    exact (shows_layer hkey hflat.1 _).or (ih hflat.2)

/-- No source gives two values for a setting. -/
def AreSingle (givings : List (String → RawValue → Prop)) : Prop :=
  ∀ gives ∈ givings, ∀ key v w, gives key v → gives key w → v = w

theorem Winner.eq {givings : List (String → RawValue → Prop)} (hsingle : AreSingle givings)
    {key : String} {v w : RawValue} (hv : Winner givings key v) (hw : Winner givings key w) :
    v = w := by
  refine RawValue.First.eq (fun gives hgives v w hv hw => ?_) hv hw
  obtain ⟨gives, hmem, rfl⟩ := List.mem_map.1 hgives
  exact hsingle gives hmem key v w hv hw

theorem areSingle_map_gives (sources : List (List (String × RawValue))) :
    AreSingle (sources.map Gives) := by
  intro gives hgives key v w hv hw
  obtain ⟨source, -, rfl⟩ := List.mem_map.1 hgives
  exact Gives.eq hv hw

end RawFields

/-- No variable is a table. -/
theorem Environment.isFlat_settings (exported : List (String × String)) :
    RawFields.IsFlat (settings exported) := by
  intro entry hentry
  obtain ⟨⟨_, text⟩, -, hsome⟩ := List.mem_filterMap.1 hentry
  obtain ⟨name, -, rfl⟩ := Option.map_eq_some_iff.1 hsome
  show (rawValue text).isTable = false
  unfold rawValue
  split
  · rfl
  · split
    · rfl
    · split
      · rfl
      · split <;> rfl

namespace Settings

open RawFields

/-! ### Conversions -/

variable {α : Type} {fields : RawFields} {sources : List (List (String × RawValue))}
  {givings givings' : List (String → RawValue → Prop)} {name : String} {missing? : Option α}
  {missing a : α} {convert? : RawValue → Option α}

/-- A setting is the conversion of what the highest source gives that defines it, or the default if
no source does. -/
def Wins (givings : List (String → RawValue → Prop)) (name : String)
    (convert? : RawValue → Option α) (missing a : α) : Prop :=
  (∃ v, Winner givings name v ∧ convert? v = some a) ∨ (∀ v, ¬Winner givings name v) ∧ a = missing

/-- All settings are what the highest sources give that define them. -/
@[mk_iff]
structure WonBy (s : Settings) (givings : List (String → RawValue → Prop)) : Prop where
  /-- The limit of the device is a number. -/
  deviceMemoryLimit : Wins givings "device_memory_limit" RawValue.toWord? default.deviceMemoryLimit
    s.deviceMemoryLimit
  /-- The limit of the host is a number. -/
  memoryLimit : Wins givings "memory_limit" RawValue.toWord? default.memoryLimit s.memoryLimit
  /-- The local directory is a path, or there is none. -/
  localDirectory : Wins givings "local_directory" RawValue.toPath? default.localDirectory
    s.localDirectory
  /-- So is the temporary directory. -/
  temporaryDirectory : Wins givings "temporary_directory" RawValue.toPath?
    default.temporaryDirectory s.temporaryDirectory
  /-- The other settings are truth values. -/
  sharedFilesystem : Wins givings "shared_filesystem" RawValue.toBool? default.sharedFilesystem
    s.sharedFilesystem
  /-- See `sharedFilesystem`. -/
  compatibilityMode : Wins givings "compatibility_mode" RawValue.toBool? default.compatibilityMode
    s.compatibilityMode
  /-- See `sharedFilesystem`. -/
  spillOnDemand : Wins givings "spill_on_demand" RawValue.toBool? default.spillOnDemand
    s.spillOnDemand
  /-- See `sharedFilesystem`. -/
  compression : Wins givings "compression" RawValue.toBool? default.compression s.compression

/-- The kinds that settings have. -/
inductive Kind where
  /-- A number of bytes. -/
  | word
  /-- A path that may be absent. -/
  | path
  /-- A truth value. -/
  | truth

/-- A value can be converted to a kind. -/
def Kind.Takes (v : RawValue) : Kind → Prop
  | word => v.toWord? ≠ none
  | path => v.toPath? ≠ none
  | truth => v.toBool? ≠ none

/-- All settings, with their kinds. -/
def kinds : List (String × Kind) := [
  ("device_memory_limit", .word), ("memory_limit", .word), ("local_directory", .path),
  ("temporary_directory", .path), ("shared_filesystem", .truth), ("compatibility_mode", .truth),
  ("spill_on_demand", .truth), ("compression", .truth)]

/-- The names of settings lead into nothing, and doubled underscores are no part of them. -/
theorem isName_of_mem_kinds : ∀ setting ∈ kinds,
    IsName setting.1 ∧ Environment.IsWhole setting.1 := by
  simp only [kinds, List.forall_mem_cons]
  refine ⟨⟨?_, fun _ => rfl⟩, ⟨?_, fun _ => rfl⟩, ⟨?_, fun _ => rfl⟩, ⟨?_, fun _ => rfl⟩,
    ⟨?_, fun _ => rfl⟩, ⟨?_, fun _ => rfl⟩, ⟨?_, fun _ => rfl⟩, ⟨?_, fun _ => rfl⟩, by simp⟩ <;>
    decide

theorem bind_eq_ok_iff {ε β : Type} {x : Except ε α} {f : α → Except ε β} {b : β} :
    x >>= f = .ok b ↔ ∃ a, x = .ok a ∧ f a = .ok b := by
  cases x with
  | error e => exact iff_of_false (fun h => by cases h) fun ⟨_, h, _⟩ => by cases h
  | ok a =>
    refine ⟨fun h => ⟨a, rfl, h⟩, ?_⟩
    rintro ⟨_, ⟨⟩, h⟩
    exact h

/-- A setting of the layers is what the highest source gives that defines it, or what it is without
any source, if the conversion tells no more than the others. -/
theorem field_stacked_iff (hname : IsName name) (hflat : ∀ s ∈ sources, IsFlat s)
    (hdefault : field fields name missing? convert? = .ok missing)
    (halike : ∀ v w : RawValue, v.Alike w → convert? v = convert? w) :
    field (stacked fields sources) name missing? convert? = .ok a ↔
      Wins (sources.map Gives) name convert? missing a := by
  obtain ⟨hgiven, hnone⟩ := shows_stacked hname hflat fields
  by_cases hwinner : ∃ v, Winner (sources.map Gives) name v
  · obtain ⟨v, hv⟩ := hwinner
    obtain ⟨w, hw, hsame⟩ := hgiven v hv
    have hwins : Wins (sources.map Gives) name convert? missing a ↔ convert? v = some a := by
      constructor
      · rintro (⟨v', hv', hconvert⟩ | ⟨hnot, -⟩)
        · rwa [Winner.eq (areSingle_map_gives sources) hv hv']
        · exact absurd hv (hnot v)
      · exact fun hconvert => .inl ⟨v, hv, hconvert⟩
    rw [hwins, field, hw]
    dsimp only
    rw [halike w v hsame]
    cases convert? v <;> simp
  · rw [not_exists] at hwinner
    have hfield : field (stacked fields sources) name missing? convert? = .ok missing := by
      rw [← hdefault, field, field, hnone hwinner]
    rw [hfield, Wins]
    simp [hwinner, eq_comm]

theorem ofFields_eq_ok_iff {s : Settings} : ofFields fields = .ok s ↔
    field fields "device_memory_limit" none RawValue.toWord? = .ok s.deviceMemoryLimit ∧
    field fields "memory_limit" none RawValue.toWord? = .ok s.memoryLimit ∧
    field fields "local_directory" (some none) RawValue.toPath? = .ok s.localDirectory ∧
    field fields "temporary_directory" (some none) RawValue.toPath? = .ok s.temporaryDirectory ∧
    field fields "shared_filesystem" (some false) RawValue.toBool? = .ok s.sharedFilesystem ∧
    field fields "compatibility_mode" (some false) RawValue.toBool? = .ok s.compatibilityMode ∧
    field fields "spill_on_demand" (some true) RawValue.toBool? = .ok s.spillOnDemand ∧
    field fields "compression" (some true) RawValue.toBool? = .ok s.compression := by
  simp only [ofFields, bind_eq_ok_iff]
  constructor
  · rintro ⟨_, h₁, _, h₂, _, h₃, _, h₄, _, h₅, _, h₆, _, h₇, _, h₈, ⟨⟩⟩
    exact ⟨h₁, h₂, h₃, h₄, h₅, h₆, h₇, h₈⟩
  · rintro ⟨h₁, h₂, h₃, h₄, h₅, h₆, h₇, h₈⟩
    exact ⟨_, h₁, _, h₂, _, h₃, _, h₄, _, h₅, _, h₆, _, h₇, _, h₈, rfl⟩

/-- Sources over the defaults come to what the highest of them give. -/
theorem ofFields_stacked_iff (hflat : ∀ s ∈ sources, IsFlat s) {s : Settings} :
    ofFields (stacked defaultFields sources) = .ok s ↔ s.WonBy (sources.map Gives) := by
  have hword : ∀ v w : RawValue, v.Alike w → v.toWord? = w.toWord? := fun _ _ h => h.toWord?_eq
  have hpath : ∀ v w : RawValue, v.Alike w → v.toPath? = w.toPath? := fun _ _ h => h.toPath?_eq
  have htruth : ∀ v w : RawValue, v.Alike w → v.toBool? = w.toBool? := fun _ _ h => h.toBool?_eq
  have hnames := isName_of_mem_kinds
  simp only [kinds, List.forall_mem_cons, List.not_mem_nil, false_imp_iff, implies_true,
    and_true] at hnames
  obtain ⟨⟨h₁, -⟩, ⟨h₂, -⟩, ⟨h₃, -⟩, ⟨h₄, -⟩, ⟨h₅, -⟩, ⟨h₆, -⟩, ⟨h₇, -⟩, h₈, -⟩ := hnames
  rw [ofFields_eq_ok_iff, wonBy_iff, field_stacked_iff h₁ hflat rfl hword,
    field_stacked_iff h₂ hflat rfl hword, field_stacked_iff h₃ hflat rfl hpath,
    field_stacked_iff h₄ hflat rfl hpath, field_stacked_iff h₅ hflat rfl htruth,
    field_stacked_iff h₆ hflat rfl htruth, field_stacked_iff h₇ hflat rfl htruth,
    field_stacked_iff h₈ hflat rfl htruth]
  rfl

/-! ### What is loaded -/

theorem Wins.convert_eq (h : Wins givings name convert? missing a) (hsingle : AreSingle givings)
    {v : RawValue} (hv : Winner givings name v) : convert? v = some a := by
  obtain ⟨w, hw, hconvert⟩ | ⟨hnone, -⟩ := h
  · rwa [Winner.eq hsingle hv hw]
  · exact absurd hv (hnone v)

theorem exists_wins_iff (hsingle : AreSingle givings) :
    (∃ a, Wins givings name convert? missing a) ↔
      ∀ v, Winner givings name v → convert? v ≠ none := by
  constructor
  · rintro ⟨a, h⟩ v hv hnone
    rw [h.convert_eq hsingle hv] at hnone
    cases hnone
  · intro h
    by_cases hwinner : ∃ v, Winner givings name v
    · obtain ⟨v, hv⟩ := hwinner
      obtain ⟨a, ha⟩ := Option.ne_none_iff_exists'.1 (h v hv)
      exact ⟨a, .inl ⟨v, hv, ha⟩⟩
    · exact ⟨missing, .inr ⟨not_exists.1 hwinner, rfl⟩⟩

/-- A limit that wins is positive unless a source gives it as zero, as no default is. -/
theorem Wins.pos {limit n : Nat} (h : Wins givings name RawValue.toWord? limit n)
    (hlimit : 0 < limit) (hzero : ∀ v, Winner givings name v → v.toWord? ≠ some 0) : 0 < n := by
  obtain ⟨v, hv, hconvert⟩ | ⟨-, rfl⟩ := h
  · exact Nat.pos_of_ne_zero fun hn => hzero v hv (hn ▸ hconvert)
  · exact hlimit

/-- There are settings that win exactly if all values that win can be converted. -/
theorem exists_wonBy_iff (hsingle : AreSingle givings) : (∃ s : Settings, s.WonBy givings) ↔
    ∀ setting ∈ kinds, ∀ v, Winner givings setting.1 v → setting.2.Takes v := by
  simp only [kinds, List.forall_mem_cons, List.not_mem_nil, false_imp_iff, implies_true, and_true,
    Kind.Takes]
  constructor
  · rintro ⟨s, h⟩
    exact ⟨(exists_wins_iff hsingle).1 ⟨_, h.deviceMemoryLimit⟩,
      (exists_wins_iff hsingle).1 ⟨_, h.memoryLimit⟩,
      (exists_wins_iff hsingle).1 ⟨_, h.localDirectory⟩,
      (exists_wins_iff hsingle).1 ⟨_, h.temporaryDirectory⟩,
      (exists_wins_iff hsingle).1 ⟨_, h.sharedFilesystem⟩,
      (exists_wins_iff hsingle).1 ⟨_, h.compatibilityMode⟩,
      (exists_wins_iff hsingle).1 ⟨_, h.spillOnDemand⟩,
      (exists_wins_iff hsingle).1 ⟨_, h.compression⟩⟩
  · rintro ⟨hdevice, hmemory, hlocal, htemporary, hshared, hcompatibility, hdemand, hcompression⟩
    obtain ⟨_, hdevice⟩ := (exists_wins_iff hsingle).2 hdevice
    obtain ⟨_, hmemory⟩ := (exists_wins_iff hsingle).2 hmemory
    obtain ⟨_, hlocal⟩ := (exists_wins_iff hsingle).2 hlocal
    obtain ⟨_, htemporary⟩ := (exists_wins_iff hsingle).2 htemporary
    obtain ⟨_, hshared⟩ := (exists_wins_iff hsingle).2 hshared
    obtain ⟨_, hcompatibility⟩ := (exists_wins_iff hsingle).2 hcompatibility
    obtain ⟨_, hdemand⟩ := (exists_wins_iff hsingle).2 hdemand
    obtain ⟨_, hcompression⟩ := (exists_wins_iff hsingle).2 hcompression
    exact ⟨⟨_, _, _, _, _, _, _, _⟩, hdevice, hmemory, hlocal, htemporary, hshared,
      hcompatibility, hdemand, hcompression⟩

/-- A value that wins cannot be converted, or is a limit of zero. -/
def Fails (givings : List (String → RawValue → Prop)) : Prop :=
  (∃ setting ∈ kinds, ∃ v, Winner givings setting.1 v ∧ ¬setting.2.Takes v) ∨
    ∃ name ∈ ["device_memory_limit", "memory_limit"], ∃ v,
      Winner givings name v ∧ v.toWord? = some 0

theorem fails_iff (hsingle : AreSingle givings) : Fails givings ↔
    ¬∃ s : Settings, s.WonBy givings ∧ 0 < s.deviceMemoryLimit ∧ 0 < s.memoryLimit := by
  constructor
  · rintro (⟨setting, hsetting, v, hv, htakes⟩ | ⟨name, hname, v, hv, hzero⟩)
      ⟨s, hs, hdevice, hmemory⟩
    · exact htakes ((exists_wonBy_iff hsingle).1 ⟨s, hs⟩ setting hsetting v hv)
    · obtain rfl | rfl : name = "device_memory_limit" ∨ name = "memory_limit" := by
        simpa using hname
      · rw [hs.deviceMemoryLimit.convert_eq hsingle hv, Option.some.injEq] at hzero
        exact Nat.ne_of_gt hdevice hzero
      · rw [hs.memoryLimit.convert_eq hsingle hv, Option.some.injEq] at hzero
        exact Nat.ne_of_gt hmemory hzero
  · intro hnone
    rw [Fails, or_iff_not_imp_left]
    intro hconverted
    -- All values that win can be converted, so only a limit can be what fails.
    obtain ⟨s, hs⟩ := (exists_wonBy_iff hsingle).2 fun setting hsetting v hv =>
      not_not.1 fun htakes => hconverted ⟨setting, hsetting, v, hv, htakes⟩
    refine not_not.1 fun hzero => hnone ⟨s, hs,
      hs.deviceMemoryLimit.pos (by decide) fun v hv h => hzero ⟨_, by simp, v, hv, h⟩,
      hs.memoryLimit.pos (by decide) fun v hv h => hzero ⟨_, by simp, v, hv, h⟩⟩

theorem resolve_eq_ok_iff {s : Settings} : resolve fields = .ok s ↔
    ofFields fields = .ok s ∧ 0 < s.deviceMemoryLimit ∧ 0 < s.memoryLimit := by
  simp only [resolve, bind_eq_ok_iff, ← validate_eq_ok_iff]
  constructor
  · rintro ⟨_, hs, _, hvalid, ⟨⟩⟩
    exact ⟨hs, hvalid⟩
  · rintro ⟨hs, hvalid⟩
    exact ⟨s, hs, (), hvalid, rfl⟩

/-- What a file gives if it is there, of a known format, and parses. -/
def Source.entries : Option Source → List (String × RawValue)
  | some ⟨some format, text⟩ => (format.parse? text).getD []
  | _ => []

/-- What a file gives for the settings. -/
def Source.Gives (file : Option Source) : String → RawValue → Prop := RawFields.Gives (entries file)

/-- A file is there and of a known format, but does not parse. -/
def Source.IsUnreadable (file : Option Source) : Prop :=
  ∃ format text, file = some ⟨some format, text⟩ ∧ format.parse? text = none

/-- A file is missing or of an unknown format. -/
def Source.IsUnknown (file : Option Source) : Prop := ∀ format text, file ≠ some ⟨some format, text⟩

theorem layerOptional_eq_ok_iff {file : Option Source} {above : RawFields} :
    layerOptional fields file = .ok above ↔
      ¬Source.IsUnreadable file ∧ above = layer fields (Source.entries file) := by
  -- A file that is skipped is a source without entries.
  have hskipped (hentries : Source.entries file = []) (hunknown : Source.IsUnknown file) :
      (.ok fields : Except Error RawFields) = .ok above ↔
        ¬Source.IsUnreadable file ∧ above = layer fields (Source.entries file) := by
    have hreadable : ¬Source.IsUnreadable file := fun ⟨format, text, hfile, _⟩ =>
      hunknown format text hfile
    simp [hreadable, hentries, layer, eq_comm]
  match file with
  | none => exact hskipped rfl fun _ _ => nofun
  | some ⟨none, _⟩ => exact hskipped rfl fun _ _ => nofun
  | some ⟨some format, text⟩ =>
    cases hparse : format.parse? text with
    | none => simp [layerOptional, Source.IsUnreadable, hparse]
    | some entries =>
      simp [layerOptional, Source.IsUnreadable, Source.entries, hparse, eq_comm]

theorem exists_error_iff {ε : Type} {x : Except ε α} :
    (∃ e, x = .error e) ↔ ¬∃ a, x = .ok a := by
  cases x <;> simp

theorem resolve_stacked_iff (hflat : ∀ s ∈ sources, IsFlat s) {s : Settings} :
    resolve (stacked defaultFields sources) = .ok s ↔
      s.WonBy (sources.map Gives) ∧ 0 < s.deviceMemoryLimit ∧ 0 < s.memoryLimit := by
  rw [resolve_eq_ok_iff, ofFields_stacked_iff hflat]

/-- Only what is given for settings matters. -/
theorem WonBy.congr {s : Settings} (h : s.WonBy givings)
    (hsame : ∀ setting ∈ kinds, Winner givings setting.1 = Winner givings' setting.1) :
    s.WonBy givings' := by
  simp only [kinds, List.forall_mem_cons, List.not_mem_nil, false_imp_iff, implies_true, and_true]
    at hsame
  simp only [wonBy_iff, Wins, hsame] at h ⊢
  exact h

/-- What variables give for settings wins alike whether it is read as entries or not. -/
theorem winner_environment (usual named : Option Source) (exported : List (String × String))
    {setting : String × Kind} (hsetting : setting ∈ kinds) :
    Winner ([Environment.settings exported, Source.entries named, Source.entries usual].map Gives)
        setting.1 =
      Winner [Environment.Gives exported, Source.Gives named, Source.Gives usual] setting.1 := by
  obtain ⟨hname, hwhole⟩ := isName_of_mem_kinds setting hsetting
  simp only [Winner, List.map_cons, List.map_nil, Source.Gives,
    Environment.gives_settings hname hwhole]

theorem load_eq_ok_iff {usual named : Option Source} {exported : List (String × String)}
    (husual : IsFlat (Source.entries usual)) (hnamed : IsFlat (Source.entries named))
    {c : Settings} :
    load usual named exported = .ok c ↔
      (¬Source.IsUnreadable usual ∧ ¬Source.IsUnreadable named) ∧
        c.WonBy [Environment.Gives exported, Source.Gives named, Source.Gives usual] ∧
          0 < c.deviceMemoryLimit ∧ 0 < c.memoryLimit := by
  have hsources : ∀ s ∈ [Environment.settings exported, Source.entries named, Source.entries usual],
      IsFlat s := by
    simp only [List.forall_mem_cons]
    exact ⟨Environment.isFlat_settings exported, hnamed, husual, by simp⟩
  have hsame := fun setting => @winner_environment usual named exported setting
  have hwon : c.WonBy [Environment.Gives exported, Source.Gives named, Source.Gives usual] ↔
      c.WonBy ([Environment.settings exported, Source.entries named,
        Source.entries usual].map Gives) :=
    ⟨fun h => h.congr fun setting hsetting => (hsame setting hsetting).symm, fun h => h.congr hsame⟩
  rw [hwon, ← resolve_stacked_iff hsources]
  simp only [load, bind_eq_ok_iff, layerOptional_eq_ok_iff]
  constructor
  · rintro ⟨_, ⟨husual, rfl⟩, _, ⟨hnamed, rfl⟩, hresolve⟩
    exact ⟨⟨husual, hnamed⟩, hresolve⟩
  · rintro ⟨⟨husual, hnamed⟩, hresolve⟩
    exact ⟨_, ⟨husual, rfl⟩, _, ⟨hnamed, rfl⟩, hresolve⟩

theorem loadFrom_eq_ok_iff {file : Option Source} (hfile : IsFlat (Source.entries file))
    {c : Settings} :
    loadFrom file = .ok c ↔
      (¬Source.IsUnknown file ∧ ¬Source.IsUnreadable file) ∧
        c.WonBy [Source.Gives file] ∧ 0 < c.deviceMemoryLimit ∧ 0 < c.memoryLimit := by
  have hsole : [Source.Gives file] = [Source.entries file].map Gives := rfl
  rw [hsole, ← resolve_stacked_iff (by simpa using hfile)]
  -- Only a file that is there and of a known format is read at all.
  match file with
  | none => exact iff_of_false nofun fun h => h.1.1 fun _ _ => nofun
  | some ⟨none, _⟩ => exact iff_of_false nofun fun h => h.1.1 fun _ _ => nofun
  | some ⟨some format, text⟩ =>
    have hknown : ¬Source.IsUnknown (some ⟨some format, text⟩) := fun h => h format text rfl
    simp only [loadFrom, bind_eq_ok_iff, layerOptional_eq_ok_iff, hknown, not_false_eq_true,
      true_and]
    constructor
    · rintro ⟨_, ⟨hreadable, rfl⟩, hresolve⟩
      exact ⟨hreadable, hresolve⟩
    · rintro ⟨hreadable, hresolve⟩
      exact ⟨_, ⟨hreadable, rfl⟩, hresolve⟩

/-- What is loaded is what the highest sources give: the environment before the file that it names,
that before the file in the usual place, and this before the defaults. A value that a higher source
covers has no say. Loading fails exactly if a file does not parse, a value that wins cannot be
converted, or a limit that wins is zero. The same holds of one file over the defaults, which must be
there besides. -/
theorem load_precedence (usual named file : Option Source) (exported : List (String × String))
    (husual : IsFlat (Source.entries usual)) (hnamed : IsFlat (Source.entries named))
    (hfile : IsFlat (Source.entries file)) :
    let sources := [Environment.Gives exported, Source.Gives named, Source.Gives usual]
    (∀ c, load usual named exported = .ok c ↔
      (¬Source.IsUnreadable usual ∧ ¬Source.IsUnreadable named) ∧
        c.WonBy sources ∧ 0 < c.deviceMemoryLimit ∧ 0 < c.memoryLimit) ∧
    ((∃ e, load usual named exported = .error e) ↔
      (Source.IsUnreadable usual ∨ Source.IsUnreadable named) ∨ Fails sources) ∧
    (∀ c, loadFrom file = .ok c ↔
      (¬Source.IsUnknown file ∧ ¬Source.IsUnreadable file) ∧
        c.WonBy [Source.Gives file] ∧ 0 < c.deviceMemoryLimit ∧ 0 < c.memoryLimit) ∧
    ((∃ e, loadFrom file = .error e) ↔
      (Source.IsUnknown file ∨ Source.IsUnreadable file) ∨ Fails [Source.Gives file]) := by
  intro sources
  have hsingle : AreSingle sources := by
    simp only [AreSingle, sources, List.forall_mem_cons]
    exact ⟨fun _ _ _ => Environment.Gives.eq, fun _ _ _ => Gives.eq, fun _ _ _ => Gives.eq, by simp⟩
  have hsole : AreSingle [Source.Gives file] := areSingle_map_gives [Source.entries file]
  refine ⟨fun c => load_eq_ok_iff husual hnamed, ?_, fun c => loadFrom_eq_ok_iff hfile, ?_⟩
  · -- No settings are loaded if a file is unreadable, or if nothing wins that can be converted.
    rw [exists_error_iff, fails_iff hsingle]
    simp only [load_eq_ok_iff husual hnamed, exists_and_left]
    rw [not_and_or, not_and_or, not_not, not_not]
  · rw [exists_error_iff, fails_iff hsole]
    simp only [loadFrom_eq_ok_iff hfile, exists_and_left]
    rw [not_and_or, not_and_or, not_not, not_not]

/-- Where a value is given for a setting, something starts with its name. -/
theorem exists_prefix_of_winner {usual named : Option Source} {exported : List (String × String)}
    {key : String} {v : RawValue}
    (h : Winner [Environment.Gives exported, Source.Gives named, Source.Gives usual] key v) :
    (∃ entry ∈ exported, ("jitspill__" ++ key).toList <+: entry.1.toLower.toList) ∨
      ∃ entry ∈ Source.entries named ++ Source.entries usual,
        key.toList <+: entry.1.toLower.toList := by
  obtain ⟨gives, hgives, hv⟩ := RawValue.First.exists h
  simp only [List.map_cons, List.map_nil, List.mem_cons, List.not_mem_nil, or_false] at hgives
  obtain rfl | rfl | rfl := hgives
  · exact .inl hv.exists_prefix
  · obtain ⟨entry, hmem, hstart⟩ := hv.exists_prefix
    exact .inr ⟨entry, List.mem_append_left _ hmem, hstart⟩
  · obtain ⟨entry, hmem, hstart⟩ := hv.exists_prefix
    exact .inr ⟨entry, List.mem_append_right _ hmem, hstart⟩

/-- A variable covers what both files say of the limit of the host, of which one is no number of
bytes. Alone the file with that one cannot be loaded. -/
theorem load_covered :
    let usual : Option Source := some ⟨some .toml, "memory_limit = 'plenty'"⟩
    let named : Option Source := some ⟨some .toml, "memory_limit = 5"⟩
    let exported := [("HOME", "/root"), ("JITSPILL__MEMORY_LIMIT", "7")]
    load usual named exported = .ok { default with memoryLimit := 7 } ∧
      ∃ e, loadFrom usual = .error e := by
  intro usual named exported
  have husual : Format.parse? .toml "memory_limit = 'plenty'" =
      some [("memory_limit", .text "plenty")] := by cbv
  have hnamed : Format.parse? .toml "memory_limit = 5" = some [("memory_limit", .int 5)] := by cbv
  have hplenty : Source.entries usual = [("memory_limit", .text "plenty")] := by
    simp [Source.entries, usual, husual]
  have hfive : Source.entries named = [("memory_limit", .int 5)] := by
    simp [Source.entries, named, hnamed]
  have hlower : "memory_limit".toLower = "memory_limit" := by cbv
  have hseven : Environment.Gives exported "memory_limit" (.int 7) :=
    .inl (.itself (by cbv) (Environment.rawValue_eq_iff.1 (by cbv)))
  -- Nothing starts with the name of any other setting.
  have hnone : ∀ key ∈ ["device_memory_limit", "local_directory", "temporary_directory",
      "shared_filesystem", "compatibility_mode", "spill_on_demand", "compression"], ∀ v,
      ¬Winner [Environment.Gives exported, Source.Gives named, Source.Gives usual] key v := by
    have hprefix : ∀ key ∈ ["device_memory_limit", "local_directory", "temporary_directory",
        "shared_filesystem", "compatibility_mode", "spill_on_demand", "compression"],
        ¬key.toList <+: "memory_limit".toList ∧ ¬("jitspill__" ++ key).toList <+: "home".toList ∧
          ¬("jitspill__" ++ key).toList <+: "jitspill__memory_limit".toList := by
      simp only [List.forall_mem_cons]
      decide
    intro key hkey v hv
    obtain ⟨hfile, hhome, hlimit⟩ := hprefix key hkey
    obtain ⟨entry, hmem, hstart⟩ | ⟨entry, hmem, hstart⟩ := exists_prefix_of_winner hv
    · obtain rfl | rfl := List.mem_pair.1 hmem
      · rw [show "HOME".toLower = "home" by cbv] at hstart
        exact hhome hstart
      · rw [show "JITSPILL__MEMORY_LIMIT".toLower = "jitspill__memory_limit" by cbv] at hstart
        exact hlimit hstart
    · rw [hfive, hplenty] at hmem
      have hname : entry.1 = "memory_limit" := by
        obtain rfl | rfl := List.mem_pair.1 hmem <;> rfl
      rw [hname, hlower] at hstart
      exact hfile hstart
  obtain ⟨hload, -, -, hfail⟩ := load_precedence usual named usual exported
    (by simp [hplenty, IsFlat, RawValue.isTable]) (by simp [hfive, IsFlat, RawValue.isTable])
    (by simp [hplenty, IsFlat, RawValue.isTable])
  simp only [List.forall_mem_cons] at hnone
  obtain ⟨h₁, h₂, h₃, h₄, h₅, h₆, h₇, -⟩ := hnone
  constructor
  · refine (hload _).2 ⟨⟨?_, ?_⟩, ⟨.inr ⟨h₁, rfl⟩, .inl ⟨_, .inl hseven, rfl⟩, .inr ⟨h₂, rfl⟩,
      .inr ⟨h₃, rfl⟩, .inr ⟨h₄, rfl⟩, .inr ⟨h₅, rfl⟩, .inr ⟨h₆, rfl⟩, .inr ⟨h₇, rfl⟩⟩, by decide,
      by decide⟩
    · simp [Source.IsUnreadable, usual, husual]
    · simp [Source.IsUnreadable, named, hnamed]
  · refine hfail.2 (.inr (.inl ⟨("memory_limit", .word), by simp [kinds], .text "plenty",
      .inl ?_, ?_⟩))
    · rw [Source.Gives, hplenty]
      exact .inl (.itself hlower)
    · exact fun h => h (by cbv)

end Settings

end TieredStore
