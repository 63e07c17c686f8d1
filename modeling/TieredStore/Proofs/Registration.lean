import TieredStore.Proofs.Outcome
import TieredStore.Registration

/-!
# The spill directory of the process is fixed

A process may be asked for its spill directory any number of times, by callers that name a place and
by stores with settings of their own. Whatever they ask for, the first directory stays, and a call
that is turned down leaves no trace: the flags are those of the calls that were granted.

* `Registration.Call`: what may be asked for, and whether the directory can be created then.
* `Call.Granted`, `Call.Refused`: what a call has come to, with all that it has changed.
* `Call.run_ends`: a call is granted or refused.
* `Registration.granted`: the calls of a sequence that were granted.
* `registration_fixed`: any sequence of calls.
-/

namespace TieredStore

namespace Registration

/-- What the spill directory of the process is asked for. -/
inductive Request where
  /-- A place, and whether it is on a file system that several workers share. -/
  | place (root : Path) (shared : Bool)
  /-- What the settings of a store ask for, in the current directory. -/
  | settings (settings : Settings) (current : Path)

/-- A call that registers the spill directory of the process. -/
structure Call where
  /-- What is asked for. -/
  request : Request
  /-- What tells a new run apart from others. -/
  tag : String
  /-- Whether the directory is there or can be created, as long as the call runs. -/
  creatable : Bool

namespace Call

/-- The place that is asked for. -/
def root (call : Call) : Path :=
  match call.request with
  | .place root _ => root
  | .settings settings current => settings.spillDirectory current

/-- What is said of the file system. -/
def shared (call : Call) : Bool :=
  match call.request with
  | .place _ shared => shared
  | .settings settings _ => settings.sharedFilesystem

/-- What is said of compression. Only settings say something of it. -/
def compression? (call : Call) : Option Bool :=
  match call.request with
  | .place _ _ => none
  | .settings settings _ => some settings.compression

/-- Limits are positive, where settings give some. -/
def HasLimits (call : Call) : Prop :=
  match call.request with
  | .place _ _ => True
  | .settings settings _ => 0 < settings.deviceMemoryLimit ∧ 0 < settings.memoryLimit

/-- The call. -/
def run (call : Call) : EStateM Error Registration SpillDirectory :=
  match call.request with
  | .place root shared => register root call.tag shared call.creatable
  | .settings settings current => forSettings settings current call.tag call.creatable

/-- The place that is asked for is the one that is registered, part by part, if there is one. -/
def Fits (call : Call) (r : Registration) : Prop :=
  ∀ d, r = some d → d.root.components = call.root.components

/-- What a call was granted. -/
structure Granted (call : Call) (r : Registration) (d : SpillDirectory) : Prop where
  /-- The limits were positive. -/
  limits : call.HasLimits
  /-- The place was the registered one. -/
  fits : call.Fits r
  /-- The directory is there. -/
  creatable : call.creatable = true
  /-- A directory that was registered is the same as before. -/
  kept : ∀ old, r = some old →
    d.root = old.root ∧ d.runName = old.runName ∧ d.counter = old.counter
  /-- A new one is where it was asked for. -/
  made : r = none → d.root = call.root ∧ d.counter = 0
  /-- The file system is as the call says. -/
  shared : d.sharedFilesystem = call.shared
  /-- Compression is as the call says, or as it was before; it is on in the beginning. -/
  compression : d.compression = call.compression?.getD (r.elim true SpillDirectory.compression)

/-- Why a call was refused. -/
inductive Refused (call : Call) (r : Registration) : Error → Prop
  /-- A limit is zero. -/
  | limits (message : String) (hlimits : ¬ call.HasLimits) : Refused call r (.validation message)
  /-- Another place is registered. -/
  | place (message : String) (hlimits : call.HasLimits) (hfits : ¬ call.Fits r) :
    Refused call r (.configConflict message)
  /-- The directory cannot be created. -/
  | creation (message : String) (hlimits : call.HasLimits) (hfits : call.Fits r)
    (hcreatable : call.creatable = false) : Refused call r (.io message)

end Call

/-! ### One call -/

theorem same_iff (p q : Path) : p.same q = true ↔ p.components = q.components := beq_iff_eq

/-- A call that names a place is granted or refused, and only a granted one changes anything. -/
theorem register_ends (root : Path) (tag : String) (shared creatable : Bool) (r : Registration) :
    Ends (register root tag shared creatable) r
      (fun d r' => r' = some d ∧ (Call.mk (.place root shared) tag creatable).Granted r d)
      (fun e r' => r' = r ∧ (Call.mk (.place root shared) tag creatable).Refused r e) := by
  cases r with
  | none =>
    have hfits : (Call.mk (.place root shared) tag creatable).Fits none := fun d hd => by cases hd
    cases creatable with
    | true =>
      rw [Ends, register_none]
      exact ⟨rfl, trivial, hfits, rfl, fun old hold => (by cases hold), fun _ => ⟨rfl, rfl⟩, rfl,
        rfl⟩
    | false => exact ⟨rfl, .creation _ trivial hfits rfl⟩
  | some old =>
    rw [Ends, show register root tag shared creatable (some old) = _ from
      register_of_some old root tag shared creatable]
    by_cases hsame : old.root.same root = true
    · have hfits : (Call.mk (.place root shared) tag creatable).Fits (some old) := by
        rintro d ⟨⟩
        exact (same_iff _ _).1 hsame
      rw [if_pos hsame]
      cases creatable with
      | true =>
        refine ⟨rfl, trivial, hfits, rfl, ?_, fun hnone => (by cases hnone), rfl, rfl⟩
        rintro d ⟨⟩
        exact ⟨rfl, rfl, rfl⟩
      | false => exact ⟨rfl, .creation _ trivial hfits rfl⟩
    · rw [if_neg hsame]
      exact ⟨rfl, .place _ trivial fun hfits => hsame ((same_iff _ _).2 (hfits old rfl))⟩

/-- A call with settings goes on like one that names their place, if the limits are positive. -/
theorem forSettings_ends (settings : Settings) (current : Path) (tag : String) (creatable : Bool)
    (r : Registration) :
    Ends (forSettings settings current tag creatable) r
      (fun d r' => r' = some d ∧ (Call.mk (.settings settings current) tag creatable).Granted r d)
      (fun e r' => r' = r ∧ (Call.mk (.settings settings current) tag creatable).Refused r e) := by
  unfold forSettings forSettingsIn
  rw [Settings.spillDirectory?_some]
  cases hvalid : settings.validate with
  | error e =>
    have hlimits : ¬ (Call.mk (.settings settings current) tag creatable).HasLimits := by
      intro hlimits
      rw [(Settings.validate_eq_ok_iff settings).2 hlimits] at hvalid
      cases hvalid
    refine ⟨rfl, ?_⟩
    -- The text of the error names the limit.
    unfold Settings.validate at hvalid
    split at hvalid
    · cases hvalid
      exact .limits _ hlimits
    · split at hvalid
      · cases hvalid
        exact .limits _ hlimits
      · cases hvalid
  | ok =>
    have hlimits := (Settings.validate_eq_ok_iff settings).1 hvalid
    show Ends (register _ _ _ _ >>= _) r _ _
    rw [Ends.bind_iff]
    refine (register_ends (settings.spillDirectory current) tag settings.sharedFilesystem creatable
      r).mono ?_ ?_
    · rintro d r' ⟨-, hgranted⟩
      exact ⟨rfl, hlimits, hgranted.fits, hgranted.creatable, hgranted.kept, hgranted.made,
        hgranted.shared, rfl⟩
    · rintro e r' ⟨rfl, hrefused⟩
      refine ⟨rfl, ?_⟩
      cases hrefused with
      | limits message hnot => exact absurd trivial hnot
      | place message _ hfits => exact .place message hlimits hfits
      | creation message _ hfits hcreatable => exact .creation message hlimits hfits hcreatable

namespace Call

/-- A call is granted or refused, and only a granted one changes anything. -/
theorem run_ends (call : Call) (r : Registration) :
    Ends call.run r (fun d r' => r' = some d ∧ call.Granted r d)
      (fun e r' => r' = r ∧ call.Refused r e) := by
  obtain ⟨request, tag, creatable⟩ := call
  cases request with
  | place root shared => exact register_ends root tag shared creatable r
  | settings settings current => exact forSettings_ends settings current tag creatable r

/-- A call with limits, at the registered place, whose directory is there, is not refused. -/
theorem not_refused {call : Call} {r : Registration} (hlimits : call.HasLimits)
    (hfits : call.Fits r) (hcreatable : call.creatable = true) (e : Error) :
    ¬ call.Refused r e := by
  rintro (⟨_, hnot⟩ | ⟨_, -, hnot⟩ | ⟨_, -, -, hnot⟩)
  · exact hnot hlimits
  · exact hnot hfits
  · rw [hcreatable] at hnot
    cases hnot

theorem exists_run_iff (call : Call) (r : Registration) :
    (∃ d r', call.run r = .ok d r') ↔
      call.HasLimits ∧ call.Fits r ∧ call.creatable = true := by
  constructor
  · rintro ⟨d, r', hrun⟩
    obtain ⟨-, hgranted⟩ := (call.run_ends r).of_ok hrun
    exact ⟨hgranted.limits, hgranted.fits, hgranted.creatable⟩
  · rintro ⟨hlimits, hfits, hcreatable⟩
    obtain ⟨d, r', hrun, -⟩ := (call.run_ends r).exists_ok fun e _ hrefused =>
      not_refused hlimits hfits hcreatable e hrefused.2
    exact ⟨d, r', hrun⟩

end Call

/-! ### Sequences of calls -/

/-- What is registered after some calls. -/
def afterAll (r : Registration) (calls : List Call) : Registration :=
  calls.foldl (fun r call => stateAfter call.run r) r

/-- The calls of a sequence that were granted, in their order. -/
def granted : Registration → List Call → List Call
  | _, [] => []
  | r, call :: calls =>
    match call.run r with
    | .ok _ r' => call :: granted r' calls
    | .error _ r' => granted r' calls

/-- The first call of a sequence is granted, and what follows goes on from its directory, or it
leaves everything as it is. -/
theorem afterAll_cons (r : Registration) (call : Call) (calls : List Call) :
    (∃ d, call.Granted r d ∧ afterAll r (call :: calls) = afterAll (some d) calls ∧
      granted r (call :: calls) = call :: granted (some d) calls) ∨
    afterAll r (call :: calls) = afterAll r calls ∧
      granted r (call :: calls) = granted r calls := by
  have hends := call.run_ends r
  rw [granted, afterAll, List.foldl_cons, stateAfter]
  cases hrun : call.run r with
  | ok d r' =>
    obtain ⟨rfl, hgranted⟩ := hends.of_ok hrun
    exact .inl ⟨d, hgranted, rfl, rfl⟩
  | error e r' =>
    obtain ⟨rfl, -⟩ := hends.of_error hrun
    exact .inr ⟨rfl, rfl⟩

/-- A registered directory stays where it is, under its name, and no call uses up a number. -/
theorem afterAll_some (d : SpillDirectory) (calls : List Call) :
    ∃ d', afterAll (some d) calls = some d' ∧
      d'.root = d.root ∧ d'.runName = d.runName ∧ d'.counter = d.counter := by
  induction calls generalizing d with
  | nil => exact ⟨d, rfl, rfl, rfl, rfl⟩
  | cons call calls ih =>
    rcases afterAll_cons (some d) call calls with ⟨e, hgranted, hafter, -⟩ | ⟨hafter, -⟩
    · obtain ⟨d', hd', hroot, hname, hcounter⟩ := ih e
      obtain ⟨hroot', hname', hcounter'⟩ := hgranted.kept d rfl
      exact ⟨d', hafter.trans hd', hroot.trans hroot', hname.trans hname', hcounter.trans hcounter'⟩
    · obtain ⟨d', hd', hkept⟩ := ih d
      exact ⟨d', hafter.trans hd', hkept⟩

/-- The directory is that of the first call that was granted. -/
theorem afterAll_none (calls : List Call) :
    (afterAll none calls).map SpillDirectory.root = (granted none calls).head?.map Call.root := by
  induction calls with
  | nil => rfl
  | cons call calls ih =>
    rcases afterAll_cons none call calls with ⟨d, hgranted, hafter, hlist⟩ | ⟨hafter, hlist⟩
    · obtain ⟨d', hd', hroot, -⟩ := afterAll_some d calls
      rw [hafter, hlist, hd', Option.map_some, hroot, (hgranted.made rfl).1]
      rfl
    · rw [hafter, hlist, ih]

/-- No number is used up. -/
theorem counter_afterAll (r : Registration) (calls : List Call) :
    (afterAll r calls).elim 0 SpillDirectory.counter = r.elim 0 SpillDirectory.counter := by
  induction calls generalizing r with
  | nil => rfl
  | cons call calls ih =>
    rcases afterAll_cons r call calls with ⟨d, hgranted, hafter, -⟩ | ⟨hafter, -⟩
    · rw [hafter, ih, Option.elim_some]
      cases r with
      | none => exact (hgranted.made rfl).2
      | some old => exact (hgranted.kept old rfl).2.2
    · rw [hafter, ih]

/-- The file system is as the last call says that was granted. -/
theorem sharedFilesystem_afterAll (r : Registration) (calls : List Call) :
    (afterAll r calls).map SpillDirectory.sharedFilesystem =
      ((granted r calls).getLast?.map Call.shared).or (r.map SpillDirectory.sharedFilesystem) := by
  induction calls generalizing r with
  | nil => rfl
  | cons call calls ih =>
    rcases afterAll_cons r call calls with ⟨d, hgranted, hafter, hlist⟩ | ⟨hafter, hlist⟩
    · rw [hafter, hlist, ih, Option.map_some, hgranted.shared, List.getLast?_cons]
      -- The first call counts if none of the others is granted.
      cases (granted (some d) calls).getLast? <;> rfl
    · rw [hafter, hlist, ih]

/-- Compression is as the last call with settings says that was granted. -/
theorem compression_afterAll (r : Registration) (calls : List Call) :
    (afterAll r calls).elim true SpillDirectory.compression =
      ((granted r calls).filterMap Call.compression?).getLast?.getD
        (r.elim true SpillDirectory.compression) := by
  induction calls generalizing r with
  | nil => rfl
  | cons call calls ih =>
    rcases afterAll_cons r call calls with ⟨d, hgranted, hafter, hlist⟩ | ⟨hafter, hlist⟩
    · rw [hafter, hlist, ih, List.filterMap_cons, Option.elim_some, hgranted.compression]
      cases call.compression? with
      | none => rfl
      | some compression =>
        simp only [Option.getD_some, List.getLast?_cons]
    · rw [hafter, hlist, ih]

/-- The spill directory of a process is fixed, and calls that are refused leave no trace.

Whatever is registered, no calls change its place, its name or its counter. A call is granted
exactly if its limits are positive, its place is the registered one part by part, or none is
registered, and the directory can be created. If it is refused, all is left exactly as it was, and
the kind of the error says which of these was missing. After any calls of a process the directory is
where the first granted call has put it and no number is used up, the file system is as the last
granted call says, and compression is as the last granted call with settings says, and on if there
was none. -/
theorem registration_fixed :
    (∀ (d : SpillDirectory) (calls : List Call), ∃ d', afterAll (some d) calls = some d' ∧
      d'.root = d.root ∧ d'.runName = d.runName ∧ d'.counter = d.counter) ∧
    (∀ (r : Registration) (call : Call), (∃ d r', call.run r = .ok d r') ↔
      call.HasLimits ∧ call.Fits r ∧ call.creatable = true) ∧
    (∀ (r r' : Registration) (call : Call) (e : Error), call.run r = .error e r' →
      r' = r ∧ call.Refused r e) ∧
    ∀ calls : List Call,
      (afterAll none calls).map SpillDirectory.root = (granted none calls).head?.map Call.root ∧
      (afterAll none calls).map SpillDirectory.sharedFilesystem =
        (granted none calls).getLast?.map Call.shared ∧
      ∀ d, afterAll none calls = some d → d.counter = 0 ∧
        d.compression = ((granted none calls).filterMap Call.compression?).getLast?.getD true := by
  refine ⟨afterAll_some, fun r call => call.exists_run_iff r, fun r r' call e hrun =>
    (call.run_ends r).of_error hrun, fun calls => ⟨afterAll_none calls, ?_, fun d hd => ⟨?_, ?_⟩⟩⟩
  · rw [sharedFilesystem_afterAll, Option.map_none, Option.or_none]
  · have hcounter := counter_afterAll none calls
    rw [hd] at hcounter
    exact hcounter
  · have hcompression := compression_afterAll none calls
    rw [hd] at hcompression
    exact hcompression

end Registration

end TieredStore
