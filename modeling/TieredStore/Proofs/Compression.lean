import TieredStore.Proofs.Coherence
import TieredStore.Proofs.Files
import TieredStore.Proofs.Forms
import TieredStore.Proofs.Memory.Compression
import TieredStore.Proofs.Replies
import TieredStore.Registration

/-!
# The compression setting is not observed

Two runs of a store, one with compression of spilled frames and one without, cannot be told apart by
what the operations give or by the files that they leave, unless a caller asks for a proxy to be
moved to disk. Evictions write the frames of the host as they are, and these are never compressed.

* `Op.reply_withCompression`: a single operation, under two settings.
* `Op.IsLimitDriven`: proxies come to disk only by evictions.
* `Form.IsRaw`: nothing in a form is compressed.
* `compression_unobservable`: two runs of any length.
-/

namespace TieredStore

namespace Memory

variable {log : List DeviceArray} {m : Memory (Proxy DeviceArray)} {b : Bool}

/-- What the operation gives is the same under every setting, unless it moves a proxy to disk by
itself. -/
theorem Op.reply_commutes (h : Coherent log m) (op : Op) (hadmissible : op.Admissible m)
    (hdisk : ∀ id, op ≠ .demoteToDisk id) : Commutes (withCompression b) op.reply m := by
  cases op with
  | track id =>
    exact (update_commutes id _).seq fun _ _ => (track_commutes id).map
  | untrack id => exact (onManager_commutes _).map
  | prune => exact prune_commutes.map
  | object id => exact (object_commutes h hadmissible).map
  | reserialize id tags =>
    exact (serialize_commutes id tags).seq fun _ _ => (track_commutes id).map
  | demoteToHost id => exact (demoteToHost_commutes id).map
  | demoteToDisk id => exact absurd rfl (hdisk id)
  | enforceLimits extra => exact (enforceLimits_commutes h extra).map
  | enforceDeviceLimit extra => exact (enforceDeviceLimit_commutes extra).map
  | enforceHostLimit extra => exact (enforceHostLimit_commutes h extra).map
  | evictFromDevice nbytes => exact .get_bind (evictToHost_commutes nbytes _).map rfl
  | evictFromHost nbytes => exact .get_bind (evictToDisk_commutes h nbytes).map rfl
  | touch id time => exact (update_commutes id _).map
  | relist tier entries => exact .modify_bind rfl (.pure _)

end Memory

namespace Store

variable {log : List DeviceArray} {s : Store DeviceArray} {b : Bool}

/-! ### A single operation under two settings -/

/-- The store with another setting of its directory. -/
def withCompression (b : Bool) (s : Store DeviceArray) : Store DeviceArray :=
  { s with memory := s.memory.withCompression b }

theorem onMemory_commutes {α : Type} {action : Memory.Action (Proxy DeviceArray) α}
    (h : Commutes (Memory.withCompression b) action s.memory) :
    Commutes (withCompression b) (onMemory action) s := by
  rw [Commutes, onMemory, onMemory,
    show (s.withCompression b).memory = s.memory.withCompression b from rfl, h]
  cases action s.memory <;> rfl

theorem collect_commutes (inFlight : List ProxyId) :
    Commutes (withCompression b) (collect (T := DeviceArray) inFlight) s :=
  .get_bind (onMemory_commutes (Memory.releaseAll_commutes _)) rfl

theorem installCallback_commutes :
    Commutes (withCompression b) (installCallback (T := DeviceArray)) s := by
  -- What is done follows from these three fields, and the memory has no part in it.
  rcases s with ⟨_, _, _, _, spillOnDemand, allocator, installed⟩
  cases spillOnDemand <;> cases installed <;> cases allocator <;> rfl

/-- The proxies of a value that is stored are wrapped in a coherent memory, without those that
nobody holds once the old value is gone. -/
theorem insert_commutes (h : Coherent log s) (key : String) {value : Value DeviceArray}
    (hobjects : ∀ a ∈ value.objects, a.IsAddressable)
    (halive : ∀ id ∈ value.proxies, s.memory.isAlive id = true) :
    Commutes (withCompression b) (insert key value) s := by
  refine installCallback_commutes.bind (installCallback_ends s) ?_
  rintro - s₁ ⟨hmemory, -⟩
  have hcoherent : Memory.Coherent log s₁.memory := hmemory ▸ h.memory
  rw [← hmemory] at halive
  refine .modify_bind rfl (.tryCatch ?_ fun e _ => (collect_commutes []).seq fun _ _ => .throw e)
  refine (collect_commutes value.proxies).bind
    (collect_ends (s := { s₁ with entries := s₁.entries.erase key }) hcoherent value.proxies) ?_
  rintro - s₂ ⟨m₂, rfl, hcoherent₂, -, -, halive₂⟩
  have hvalue : ∀ id ∈ value.proxies, m₂.isAlive id = true := fun id hid =>
    (halive₂ id).2 ⟨halive id hid, List.mem_append_left _ hid⟩
  refine (onMemory_commutes (Memory.adopt_commutes hcoherent₂ hobjects hvalue)).seq fun r _ => ?_
  exact .modify_bind rfl (.pure _)

theorem adopt_commutes (h : Coherent log s) {value : Value DeviceArray}
    (hobjects : ∀ a ∈ value.objects, a.IsAddressable)
    (halive : ∀ id ∈ value.proxies, s.memory.isAlive id = true) :
    Commutes (withCompression b) (adopt value) s := by
  refine .tryCatch ?_ fun e _ => (collect_commutes []).seq fun _ _ => .throw e
  refine (onMemory_commutes (Memory.adopt_commutes h.memory hobjects halive)).seq fun r _ => ?_
  exact .modify_bind rfl (.pure _)

/-- In compatibility mode the proxies of a stored value may be moved. -/
theorem get?_commutes (h : Coherent log s) (key : String) :
    Commutes (withCompression b) (get? key) s := by
  refine .get_bind ?_ rfl
  split
  next => exact .pure _
  next value hvalue =>
    have halive := h.isAlive_of_find? hvalue
    -- The caller comes to hold what is handed out, in either mode.
    have hhold : ∀ (value : Value DeviceArray) (t : Store DeviceArray),
        Commutes (withCompression b) (do hold value.proxies; return some value) t :=
      fun _ _ => .modify_bind rfl (.pure _)
    dsimp only
    split
    · refine .seq (onMemory_commutes ?_) fun value' t => hhold value' t
      refine (Memory.unwrap_commutes true value h.memory halive).bind
        (Memory.unwrap_ends true value h.memory halive) ?_
      rintro value' m ⟨hadvances, -⟩
      exact (Memory.enforceLimits_commutes hadvances.coherent 0).map
    · exact hhold value s

theorem spillHundredth_commutes (h : Coherent log s) :
    Commutes (withCompression b) (spillHundredth (T := DeviceArray)) s := by
  refine onMemory_commutes (.get_bind ?_ rfl)
  split
  · exact .pure _
  · refine (Memory.evictToDisk_commutes h.memory _).bind (Memory.evictToDisk_ends h.memory _) ?_
    rintro freed m ⟨-, hsound, hrelocated⟩
    have hcoherent := h.memory.of_relocated hsound hrelocated
    exact (Memory.enforceLimits_commutes hcoherent 0).map

theorem allocationFailed_commutes (nbytes : ℕ) :
    Commutes (withCompression b) (allocationFailed (T := DeviceArray) nbytes) s := by
  have hroom : ∀ m, Commutes (Memory.withCompression b) (makeRoom (T := DeviceArray) nbytes) m := by
    intro m
    refine .get_bind ?_ rfl
    split
    · exact .pure _
    · refine .tryCatch (Memory.evictToHost_commutes _ _).map fun e _ => ?_
      split
      · exact .pure _
      · exact .throw _
  refine .get_bind ?_ rfl
  split
  · split
    · exact (onMemory_commutes (hroom _)).map
    · exact .pure _
  · exact .pure _

namespace Op

/-- Proxies come to disk only by evictions, and no caller moves one there by itself. -/
def IsLimitDriven (_ : Store DeviceArray) : Op → Prop
  | onMemory (.demoteToDisk _) => False
  | _ => True

/-- An operation gives the same under another setting, and leaves the same but for the setting. -/
theorem reply_commutes (h : Coherent log s) (op : Op) (hop : op.IsLimitDriven s)
    (hadmissible : op.Admissible s) (hdirectory : ∀ isPresent refused shared compression,
      op ≠ .setDirectory isPresent refused shared compression) :
    Commutes (Store.withCompression b) op.reply s := by
  cases op with
  | insert key value => exact (insert_commutes h key hadmissible.1 hadmissible.2).map
  | get key => exact (get?_commutes h key).map
  | remove key =>
    refine .seq (.modifyGet ?_) fun _ _ => .pure _
    rw [show (s.withCompression b).entries = s.entries from rfl]
    split <;> rfl
  | adopt value => exact (adopt_commutes h hadmissible.1 hadmissible.2).map
  | wrapObject a isExplicit =>
    refine .seq ?_ fun _ _ => .pure _
    exact (onMemory_commutes (.modifyGet rfl)).seq fun _ _ => .modify_bind rfl (.pure _)
  | hold ids => exact .modify_bind rfl (.pure _)
  | letGo ids =>
    refine .seq ?_ fun _ _ => .pure _
    exact .modify_bind rfl (collect_commutes [])
  | spillHundredth => exact (spillHundredth_commutes h).map
  | allocationFailed nbytes => exact (allocationFailed_commutes nbytes).map
  | onMemory op =>
    refine onMemory_commutes (op.reply_commutes h.memory hadmissible ?_)
    rintro id rfl
    exact hop
  | setDirectory isPresent refused shared compression =>
    exact absurd rfl (hdirectory isPresent refused shared compression)

/-- The operation, except that a change of the directory brings another setting with it. -/
def withCompression (b : Bool) : Op → Op
  | setDirectory isPresent refused sharedFilesystem _ =>
    setDirectory isPresent refused sharedFilesystem b
  | op => op

/-- Only a change of the directory tells the settings apart. -/
theorem eq_setDirectory_or (op : Op) :
    (∃ isPresent refused shared compression,
      op = .setDirectory isPresent refused shared compression) ∨
    (∀ isPresent refused shared compression,
      op ≠ .setDirectory isPresent refused shared compression) ∧
        ∀ b, op.withCompression b = op := by
  cases op with
  | setDirectory isPresent refused shared compression => exact .inl ⟨_, _, _, _, rfl⟩
  | _ => exact .inr ⟨nofun, fun _ => rfl⟩

/-- The same with changes of the directory, where the other setting stays. -/
theorem reply_withCompression (h : Coherent log s) (op : Op) (hop : op.IsLimitDriven s)
    (hadmissible : op.Admissible s) :
    (op.withCompression b).reply (s.withCompression b) =
      changeState (Store.withCompression b) (op.reply s) := by
  rcases op.eq_setDirectory_or with ⟨_, _, _, _, rfl⟩ | ⟨hdirectory, hsame⟩
  · rfl
  · rw [hsame]
    exact reply_commutes h op hop hadmissible hdirectory

theorem answer_withCompression (h : Coherent log s) (op : Op) (hop : op.IsLimitDriven s)
    (hadmissible : op.Admissible s) :
    (op.withCompression b).answer (s.withCompression b) = op.answer s := by
  rw [answer, reply_withCompression h op hop hadmissible, answer]
  cases op.reply s <;> rfl

theorem after_withCompression (h : Coherent log s) (op : Op) (hop : op.IsLimitDriven s)
    (hadmissible : op.Admissible s) :
    (op.withCompression b).after (s.withCompression b) = (op.after s).withCompression b := by
  rw [after_eq, reply_withCompression h op hop hadmissible, after_eq]
  cases op.reply s <;> rfl

end Op

/-! ### Operations one after the other -/

/-- Whole runs give the same under another setting, and leave the same but for the setting. -/
theorem answers_withCompression (h : Coherent log s) {ops : List Op}
    (hops : Admits Op.IsLimitDriven ops s) :
    answers (ops.map (Op.withCompression b)) (s.withCompression b) = answers ops s ∧
      (ops.map (Op.withCompression b)).foldl (fun s op => op.after s) (s.withCompression b) =
        (ops.foldl (fun s op => op.after s) s).withCompression b := by
  induction ops generalizing log s with
  | nil => exact ⟨rfl, rfl⟩
  | cons op ops ih =>
    obtain ⟨hop, hadmissible, hrest⟩ := hops
    obtain ⟨hanswers, hstate⟩ := ih (Op.leads h op hadmissible).coherent hrest
    rw [List.map_cons, answers, answers, List.foldl_cons, List.foldl_cons,
      Op.after_withCompression h op hop hadmissible, Op.answer_withCompression h op hop hadmissible,
      hanswers, hstate]
    exact ⟨rfl, rfl⟩

end Store

/-! ### What is never compressed -/

/-- Nothing in a form is compressed, and a file has its frames listed as such. -/
def Form.IsRaw : Form DeviceArray → Prop
  | .live _ => True
  | .serialized (.frames header _) => header.isCompressed = false
  | .serialized (.disk header) =>
    header.subHeader.compression = List.replicate header.subHeader.count none

/-- What is not compressed is serialized into raw frames. -/
theorem ObjectProxy.isCompressed_of_framesFor {form : Form DeviceArray} (hraw : form.IsRaw)
    {target : Serializer} {v w : Volume} {header : FrameHeader} {content : List Bytes}
    (hframes : framesFor target form v = .ok (header, content) w) :
    header.isCompressed = false := by
  match form with
  | .live a =>
    cases hframes
    simp [FrameHeader.isCompressed, FrameHeader.ofFrames]
  | .serialized (.frames old _) =>
    cases hframes
    exact hraw
  | .serialized (.disk old) =>
    -- Whatever the file says, what is loaded from it has been restored.
    simp only [framesFor, bind, EStateM.bind] at hframes
    cases hload : SpillDirectory.load old v with
    | error e u =>
      rw [hload] at hframes
      cases hframes
    | ok r u =>
      rw [hload] at hframes
      cases hframes
      exact (SpillDirectory.isCompressed_of_load hload : r.1.isCompressed = false)

/-- As long as compression is disabled, nothing is compressed. -/
theorem formRules_isRaw :
    Memory.FormRules (fun d => d.compression = false) fun _ form => form.IsRaw where
  volume hd _ := hd
  live _ _ := trivial
  frames hform hframes := ObjectProxy.isCompressed_of_framesFor hform hframes
  dump header content compress hd := by
    refine (SpillDirectory.dump_ends _ header content compress).mono ?_ ?_
    · rintro disk d' ⟨-, rfl⟩
      exact hd
    · rintro e d' ⟨rfl, -⟩
      exact hd
  disk {_ d header content compress _ _} hd hraw hdump := by
    obtain ⟨rfl, -⟩ := (d.dump_ends header content compress).of_ok hdump
    show (d.prepare header content compress).1.compression =
      List.replicate (d.prepare header content compress).1.count none
    rw [d.prepare_of_disabled content compress hd hraw, d.prepare_header]

namespace Store

variable {log : List DeviceArray} {s : Store DeviceArray}

/-- Nothing is compressed by operations under which compression stays disabled. -/
theorem allForms_isRaw
    (h : AllForms (fun d => d.compression = false) (fun _ form => form.IsRaw) s) (ops : List Op) :
    AllForms (fun d => d.compression = false) (fun _ form => form.IsRaw)
      ((ops.map (Op.withCompression false)).foldl (fun s op => op.after s) s) := by
  induction ops generalizing s with
  | nil => exact h
  | cons op ops ih =>
    refine ih ?_
    rcases op.eq_setDirectory_or with ⟨_, _, _, _, rfl⟩ | ⟨hdirectory, hsame⟩
    · exact ⟨rfl, h.form⟩
    · rw [hsame]
      exact Op.after_of_leaves (Op.leaves formRules_isRaw h op hdirectory)

/-! ### Two runs -/

/-- A file of a coherent store holds the frames of an array as they are, if nothing is compressed.
-/
theorem Coherent.unpack_eq (h : Coherent log s)
    (hraw : ∀ id p, s.memory.proxies.find? id = some (.object p) → p.form.IsRaw) {path : Path}
    {data : Bytes} (hfile : s.memory.spill.volume.files.find? path = some data) :
    ∃ id header a, s.memory.OnDisk id header ∧ header.path = path ∧ origin? log id = some a ∧
      header.subHeader.compression = List.replicate a.frames.length none ∧
      Container.unpack data = .ok a.frames := by
  obtain ⟨id, header, ⟨p, hfind, hform⟩, rfl⟩ :=
    (h.memory.contains_iff_onDisk path).1 (Table.contains_of_find? hfile)
  obtain ⟨a, horigin, hholds⟩ := h.memory.exists_origin hfind
  have hlisted := hraw id p hfind
  rw [hform] at hholds hlisted
  refine ⟨id, header, a, ⟨p, hfind, hform⟩, rfl, horigin, ?_⟩
  cases hholds with
  | disk _ data' tag _ _ _ hfile' _ _ hdecode =>
    rw [hfile] at hfile'
    cases hfile'
    obtain ⟨stored, hunpack, hcount, -, hrestore⟩ := SpillDirectory.decode_eq_ok hdecode
    have hnone : header.subHeader.compression = stored.map fun _ => none := by
      rw [List.map_const', hcount]
      exact hlisted
    -- Frames that are listed as raw are those that are read back.
    rw [hnone, Compression.restoreAll_none] at hrestore
    cases hrestore
    exact ⟨hnone.trans List.map_const', hunpack⟩

/-- Of two stores under the same settings but for compression, on which the same operations are
done, none of which moves a single proxy to disk, callers get the same answers. All proxies are in
the same form and tier then, the tallies are the same, and so are the files and their numbers.
Nothing in a file is compressed. -/
theorem compression_unobservable {settings : Settings} {current : Path} {tag : String}
    {on off : SpillDirectory} {r r' : Registration}
    (hon : Registration.forSettings { settings with compression := true } current tag true none =
      .ok on r)
    (hoff : Registration.forSettings { settings with compression := false } current tag true none =
      .ok off r')
    (accepts : Option Bool) (ops : List Op)
    (hops : Admits Op.IsLimitDriven ops
      (ofSettings DeviceArray { settings with compression := true } on accepts)) :
    let start := ofSettings DeviceArray { settings with compression := true } on accepts
    let start' := ofSettings DeviceArray { settings with compression := false } off accepts
    let ops' := ops.map (Op.withCompression false)
    let s := ops.foldl (fun s op => op.after s) start
    let s' := ops'.foldl (fun s op => op.after s) start'
    answers ops' start' = answers ops start ∧
      (∀ id, s'.memory.proxies.find? id = s.memory.proxies.find? id ∧
        s'.memory.manager.locate id = s.memory.manager.locate id) ∧
      (∀ tier, s'.memory.manager.usage tier = s.memory.manager.usage tier) ∧
      s'.memory.spill.volume.files = s.memory.spill.volume.files ∧
      s'.memory.spill.fileNumbers = s.memory.spill.fileNumbers ∧
      s' = s.withCompression false ∧
      ∀ path data, s.memory.spill.volume.files.find? path = some data →
        ∃ id header a, s.memory.OnDisk id header ∧ header.path = path ∧
          origin? (ops.flatMap Op.newArrays) id = some a ∧
          header.subHeader.compression = List.replicate a.frames.length none ∧
          Container.unpack data = .ok a.frames := by
  intro start start' ops' s s'
  have hspill : SpillDirectory.create (settings.spillDirectory current) tag
      settings.sharedFilesystem true = .ok on := by
    rw [Registration.eq_of_forSettings_none hon]
    rfl
  have hstart : Run settings Op.IsLimitDriven [] start := .start hspill
  -- The directories differ in the setting alone, and so do the stores.
  have hstart' : start' = start.withCompression false := by
    show ofSettings _ _ off _ = (ofSettings _ _ on _).withCompression false
    rw [Registration.eq_of_forSettings_none hon, Registration.eq_of_forSettings_none hoff]
    rfl
  obtain ⟨hanswers, hstate⟩ := answers_withCompression (b := false) hstart.coherent hops
  rw [← hstart'] at hanswers hstate
  have hs' : s' = s.withCompression false := hstate
  have hempty : AllForms (fun d => d.compression = false) (fun _ form => form.IsRaw) start' := by
    refine ⟨?_, fun id p hp => by cases hp⟩
    show off.compression = false
    rw [Registration.eq_of_forSettings_none hoff]
  have hforms := allForms_isRaw hempty ops
  refine ⟨hanswers, ?_, ?_, ?_, ?_, hs', fun path data hfile => ?_⟩
  · exact fun id => by rw [hs']; exact ⟨rfl, rfl⟩
  · exact fun tier => by rw [hs']; rfl
  · rw [hs']
    rfl
  · rw [hs']
    rfl
  · -- Without compression nothing is compressed, and the proxies are the same in both stores.
    refine (hstart.foldl hops).coherent.unpack_eq (fun id p hp => hforms.form id p ?_) hfile
    rw [hstate]
    exact hp

/-- The array that is evicted to disk is in its file as it is, with and without compression. -/
theorem compression_unobservable_evicted :
    ∃ on off : SpillDirectory,
      Registration.forSettings { narrowSettings with compression := true } ⟨"/tmp"⟩ "0" true none =
        .ok on (some on) ∧
      Registration.forSettings { narrowSettings with compression := false } ⟨"/tmp"⟩ "0" true none =
        .ok off (some off) ∧
      let start := ofSettings DeviceArray { narrowSettings with compression := true } on none
      let start' := ofSettings DeviceArray { narrowSettings with compression := false } off none
      let ops' := storeAndEvict.map (Op.withCompression false)
      let s := storeAndEvict.foldl (fun s op => op.after s) start
      let s' := ops'.foldl (fun s op => op.after s) start'
      Admits Op.IsLimitDriven storeAndEvict start ∧
        answers ops' start' = answers storeAndEvict start ∧
        s'.memory.spill.volume.files = s.memory.spill.volume.files ∧
        ∃ data, s.memory.spill.volume.files.find? (on.filePath 1) = some data ∧
          Container.unpack data = .ok smallArray.frames := by
  have hvalid : ({ narrowSettings with compression := true } : Settings).validate = .ok () := rfl
  have hvalid' : ({ narrowSettings with compression := false } : Settings).validate = .ok () := rfl
  obtain ⟨on, hon, rfl⟩ := Registration.forSettings_none hvalid ⟨"/tmp"⟩ "0"
  obtain ⟨off, hoff, -⟩ := Registration.forSettings_none hvalid' ⟨"/tmp"⟩ "0"
  refine ⟨_, off, hon, hoff, ?_⟩
  intro start start' ops' s s'
  have hops : Admits Op.IsLimitDriven storeAndEvict start :=
    ⟨trivial, admissible_smallArray _ _, trivial, trivial, trivial, trivial, trivial⟩
  obtain ⟨hanswers, -, -, hfiles, -, -, hcontent⟩ :=
    compression_unobservable hon hoff none storeAndEvict hops
  have hfile : s.memory.spill.volume.files.contains (start.memory.spill.filePath 1) = true := by
    decide +kernel
  obtain ⟨data, hdata⟩ := (Table.contains_iff _ _).1 hfile
  obtain ⟨id, header, a, -, -, horigin, -, hunpack⟩ := hcontent _ data hdata
  have ha : a = smallArray := List.mem_singleton.1 (mem_of_origin? horigin)
  exact ⟨hops, hanswers, hfiles, data, hdata, ha ▸ hunpack⟩

end Store

end TieredStore
