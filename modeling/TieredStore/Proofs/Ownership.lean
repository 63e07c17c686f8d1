import TieredStore.Proofs.Files
import TieredStore.Proofs.Forms
import TieredStore.Proofs.Holding

/-!
# Tracked means owned

Callers who leave the books to the store find a proxy tracked just as long as it is held, by a value
that is stored or by a caller, once it was found in a value that was to be stored.

* `Memory.Roster`: of the proxies that exist, just those that were found are attached, and all of
  these are tracked.
* `Accounts`: besides, all proxies that exist are held.
* `Op.roster`, `Op.accounts`: one more operation, however it ends.
* `tracked_iff_owned`: who is tracked after all of them, and what becomes of the others.
-/

namespace TieredStore

namespace Memory

variable {log : List DeviceArray} {m m' : Memory (Proxy DeviceArray)} {id : ProxyId}
  {walked walked' ids : List ProxyId}

/-- Of the proxies that exist, just those that were walked over are attached, and all of these are
tracked. -/
structure Roster (walked : List ProxyId) (m : Memory (Proxy DeviceArray)) : Prop where
  /-- The proxies that were walked over are attached as long as they exist. -/
  isAttached_iff : ∀ id, m.IsAttached id ↔ m.isAlive id = true ∧ id ∈ walked
  /-- Proxies that are attached are tracked. -/
  isTracked : ∀ id, m.IsAttached id → m.IsTracked id

namespace Roster

theorem isTracked_iff (h : Roster walked m) (hsound : Sound log m) (id : ProxyId) :
    m.IsTracked id ↔ m.isAlive id = true ∧ id ∈ walked := by
  rw [← h.isAttached_iff]
  exact ⟨hsound.isAttached_of_tracked, h.isTracked id⟩

theorem congr (h : Roster walked m) (hwalked : ∀ id, id ∈ walked' ↔ id ∈ walked) :
    Roster walked' m :=
  ⟨fun id => (h.isAttached_iff id).trans (and_congr_right fun _ => (hwalked id).symm), h.isTracked⟩

/-- Moves between the tiers leave everything as it is. -/
theorem of_enlists (h : Roster walked m) (henlists : Enlists m m' []) : Roster walked m' where
  isAttached_iff id := by
    rw [henlists.isAttached_iff, henlists.isAlive_eq, h.isAttached_iff]
    simp
  isTracked id hid := by
    have hid' := (henlists.isAttached_iff id).1 hid
    exact henlists.isTracked id (hid'.imp_left (h.isTracked id))

/-- The proxies that are found in a value have been walked over. -/
theorem of_adopts {found : List ProxyId} (h : Roster walked m) (hadopts : Adopts m m' found) :
    Roster (walked ++ found) m' where
  isAttached_iff id := by
    rw [hadopts.isAttached_iff, hadopts.isAlive_iff, h.isAttached_iff, List.mem_append]
    tauto
  isTracked id hid := by
    have hid' := (hadopts.isAttached_iff id).1 hid
    exact hadopts.isTracked id (hid'.imp_left (h.isTracked id))

/-- It does not matter in which order the books list the proxies. -/
theorem of_reordered (h : Roster walked m) (hreordered : m.Reordered m') : Roster walked m' where
  isAttached_iff id := by
    rw [IsAttached, isAlive, Table.contains_iff, hreordered.find?_eq, ← Table.contains_iff]
    exact h.isAttached_iff id
  isTracked id hid := by
    rw [IsAttached, hreordered.find?_eq] at hid
    exact (h.isTracked id hid).imp fun tier => (hreordered.tracks_iff tier id).2

/-- Proxies that are released are neither attached nor tracked any more. -/
theorem of_released (h : Roster walked m) (hreleased : Released m m' ids) : Roster walked m' := by
  have hattached : ∀ id, m'.IsAttached id ↔ m.IsAttached id ∧ id ∉ ids := by
    intro id
    rw [IsAttached, hreleased.find?_eq]
    by_cases hid : id ∈ ids
    · simp [hid]
    · simp [hid, IsAttached]
  refine ⟨fun id => ?_, fun id hid => ?_⟩
  · rw [hattached, hreleased.isAlive_iff, h.isAttached_iff, and_right_comm]
  · obtain ⟨hid, hnot⟩ := (hattached id).1 hid
    obtain ⟨tier, htracks⟩ := h.isTracked id hid
    exact ⟨tier, (hreleased.tracks_iff tier id).2 ⟨htracks, hnot⟩⟩

/-- A proxy that is made for a caller has not been walked over yet. -/
theorem create (h : Roster walked m) (hfresh : m.Fresh) (hnew : (⟨m.nextId⟩ : ProxyId) ∉ walked)
    (a : DeviceArray) (isExplicit : Bool) :
    Roster walked (m.create fun time => .object (.ofObject a isExplicit time)).2 := by
  have hfind := find?_create m fun time => .object (.ofObject a isExplicit time)
  -- The new proxy is not attached, and there was none with its number.
  have hattached : ∀ id,
      (m.create fun time => .object (.ofObject a isExplicit time)).2.IsAttached id ↔
        m.IsAttached id := by
    intro id
    rw [IsAttached, hfind]
    split
    next hid =>
      have hdetached : Spillable.isAttached
          (Proxy.object (.ofObject a isExplicit (m.clock + 1))) = false := rfl
      rw [hid, IsAttached, hfresh _ (Nat.le_refl _)]
      simp [hdetached]
    next => rfl
  refine ⟨fun id => ?_, fun id hid => h.isTracked id ((hattached id).1 hid)⟩
  rw [hattached, h.isAttached_iff, isAlive, isAlive, Table.contains_iff, Table.contains_iff, hfind]
  by_cases hid : id = ⟨m.nextId⟩
  · simp [hid, hnew]
  · simp [hid]

end Roster

end Memory

namespace Store

variable {log : List DeviceArray} {s s' : Store DeviceArray} {settings : Settings}
  {walked : List ProxyId} {id : ProxyId}

/-- Of the proxies that exist, those that were walked over are tracked, and all of them are held. -/
structure Accounts (walked : List ProxyId) (s : Store DeviceArray) : Prop where
  /-- Who is attached and tracked. -/
  roster : Memory.Roster walked s.memory
  /-- Proxies that exist are held. -/
  mem_owned : ∀ id, s.memory.isAlive id = true → id ∈ s.owned
  /-- No key occurs twice. -/
  nodup : s.entries.keys.Nodup

theorem Held.accounts (h : Held s) (hroster : Memory.Roster walked s.memory) : Accounts walked s :=
  ⟨hroster, h.mem_owned, h.nodup⟩

theorem Accounts.held (h : Accounts walked s) : Held s :=
  ⟨h.mem_owned, h.nodup⟩

/-- The proxies that nobody holds go, and those that are left are tracked as before. -/
theorem collect_roster (hsound : Memory.Sound log s.memory)
    (hroster : Memory.Roster walked s.memory) :
    Ends (collect []) s (fun _ s' => Memory.Roster walked s'.memory) Never := by
  refine (collect_released hsound []).mono_ok ?_
  rintro - s' ⟨memory, ids, rfl, -, hreleased, -⟩
  exact hroster.of_released hreleased

/-- A proxy that a caller asks for has not been walked over. -/
theorem wrapObject_roster (h : Memory.Roster walked s.memory) (hcoherent : Coherent log s)
    (hwalked : ∀ id ∈ walked, id.raw ≤ log.length) (a : DeviceArray) (isExplicit : Bool) :
    Leaves (wrapObject a isExplicit) s fun s' => Memory.Roster walked s'.memory := by
  rw [wrapObject, Leaves, Ends.bind_iff, onMemory_iff, Ends.modifyGet_iff, Ends.bind_iff,
    Store.hold, Ends.modify_iff]
  -- The next number is greater than those that were given out.
  have hnew : (⟨s.memory.nextId⟩ : ProxyId) ∉ walked := by
    intro hmem
    have hle : s.memory.nextId ≤ log.length := hwalked _ hmem
    rw [hcoherent.memory.nextId_eq] at hle
    omega
  exact h.create hcoherent.memory.fresh hnew a isExplicit

/-- The new value has been walked over, whether or not it is stored in the end. -/
theorem insert_roster (h : Memory.Roster walked s.memory) (hcoherent : Coherent log s)
    (key : String)
    {value : Value DeviceArray} (hobjects : ∀ a ∈ value.objects, a.IsAddressable)
    (halive : ∀ id ∈ value.proxies, s.memory.isAlive id = true) :
    Leaves (insert key value) s fun s' =>
      Memory.Roster (walked ++ s.memory.foundIn value) s'.memory := by
  have hadopted : ∀ {m m'}, Cleared log s key value m → Memory.Adopts m m' (m.foundIn value) →
      Memory.Roster (walked ++ s.memory.foundIn value) m' := by
    intro m m' hcleared hadopts
    obtain ⟨ids, hreleased⟩ := hcleared.released
    refine ((h.of_released hreleased).of_adopts hadopts).congr fun id => ?_
    -- No number was given out while room was made, so the same proxies are found.
    rw [List.mem_append, List.mem_append, hcoherent.memory.mem_foundIn_iff hobjects halive,
      hcleared.coherent.mem_foundIn_iff hobjects (hcleared.isAlive_of_mem halive)]
  refine (insert_steps hcoherent key hobjects halive).mono ?_ ?_
  · rintro found s' ⟨-, -, m, value', hcleared, hadopt, -⟩
    exact hadopted hcleared ((Memory.adopt_enlists hcleared.coherent hobjects
      (hcleared.isAlive_of_mem halive)).of_ok hadopt).1
  · rintro e s' ⟨-, -, m, m', ids, hcleared, hadopt, -, hreleased, -⟩
    exact (hadopted hcleared ((Memory.adopt_enlists hcleared.coherent hobjects
      (hcleared.isAlive_of_mem halive)).of_error hadopt)).of_released hreleased

namespace Op

/-- Callers who leave the books to the store: proxies are tracked where a value is stored that they
are in, and nowhere else. -/
def IsIndirect (_ : Store DeviceArray) : Op → Prop
  | insert _ _ | get _ | remove _ | wrapObject _ _ | hold _ | letGo _ | spillHundredth
  | allocationFailed _ | setDirectory _ _ _ _ => True
  | onMemory (.object _) | onMemory (.enforceLimits _) | onMemory (.enforceDeviceLimit _)
  | onMemory (.enforceHostLimit _) | onMemory (.evictFromDevice _) | onMemory (.evictFromHost _)
  | onMemory (.touch _ _) | onMemory (.relist _ _) => True
  | adopt _ | onMemory _ => False

/-- The proxies that an operation walks over to have them tracked. -/
def walksOver (s : Store DeviceArray) : Op → List ProxyId
  | insert _ value => s.memory.foundIn value
  | _ => []

theorem IsIndirect.spares {op : Op} (h : op.IsIndirect s) : op.Spares s := by
  unfold Spares Memory.Op.Spares
  split
  · split
    · cases h
    · trivial
  · trivial

/-- What callers ask of the memory only moves proxies, unless the books are listed anew. -/
theorem IsIndirect.isMove_or {op : Memory.Op} (h : (onMemory op).IsIndirect s) :
    op.IsMove ∨ ∃ tier entries, op = .relist tier entries := by
  cases op with
  | track | untrack | prune => cases h
  | relist tier entries => exact .inr ⟨tier, entries, rfl⟩
  | _ => exact .inl trivial

/-- After one more operation, the proxies that it walked over are on the roster as well as those
before, however the operation ends. -/
theorem roster (h : Memory.Roster walked s.memory) (hcoherent : Coherent log s)
    (hwalked : ∀ id ∈ walked, id.raw ≤ log.length) {op : Op} (hop : op.IsIndirect s)
    (hadmissible : op.Admissible s) :
    Leaves op.run s fun s' => Memory.Roster (walked ++ op.walksOver s) s'.memory := by
  -- Only values that are stored are walked over.
  have hnone : ∀ {op : Op}, op.walksOver s = [] →
      Leaves op.run s (fun s' => Memory.Roster walked s'.memory) →
      Leaves op.run s fun s' => Memory.Roster (walked ++ op.walksOver s) s'.memory := by
    intro op hop hleaves
    rwa [hop, List.append_nil]
  have hstart := Memory.Enlists.refl hcoherent.memory.exact
  have hmove : ∀ {op : Op}, op.walksOver s = [] → op.IsMove →
      Leaves op.run s fun s' => Memory.Roster (walked ++ op.walksOver s) s'.memory :=
    fun hop hmove => hnone hop ((moves (Memory.lasting_enlists s.memory []) hstart hmove).imp
      fun _ hmoved => h.of_enlists hmoved.memory)
  cases op with
  | get | hold | spillHundredth | allocationFailed => exact hmove rfl trivial
  | onMemory op =>
    rcases hop.isMove_or with hop | ⟨tier, entries, rfl⟩
    · exact hmove rfl hop
    · have hroster : Leaves (Memory.relist tier entries) s.memory (Memory.Roster walked) :=
        (Memory.relist_ends hcoherent.memory hadmissible).of_never fun _ _ hend =>
          h.of_reordered hend.2
      exact hnone rfl (onMemory_leaves hroster)
  | insert key value => exact (insert_roster h hcoherent key hadmissible.1 hadmissible.2).map
  | remove key =>
    refine hnone rfl ?_
    rw [run, Leaves, Ends.bind_iff, Store.remove, Ends.modifyGet_iff]
    split
    · exact h
    · exact h
  | wrapObject a isExplicit =>
    exact hnone rfl (wrapObject_roster h hcoherent hwalked a isExplicit).map
  | letGo ids =>
    refine hnone rfl ?_
    rw [run, Store.letGo, Leaves, Ends.bind_iff, Ends.modify_iff]
    exact (collect_roster (s := { s with handles := ids.foldl List.erase s.handles })
      hcoherent.memory.toSound h).of_never fun _ _ hend => hend
  | setDirectory isPresent refused shared compression =>
    -- Who is tracked does not depend on the directory.
    exact hnone rfl (h.of_enlists (hstart.elsewhere s.memory.clock _))
  | adopt => exact absurd hop not_false

/-- The proxies on the roster are tracked as long as they are held. -/
theorem accounts (h : Accounts walked s) (hcoherent : Coherent log s)
    (hwalked : ∀ id ∈ walked, id.raw ≤ log.length) {op : Op} (hop : op.IsIndirect s)
    (hadmissible : op.Admissible s) :
    Leaves op.run s (Accounts (walked ++ op.walksOver s)) :=
  ((roster h.roster hcoherent hwalked hop hadmissible).and
    (held h.held hcoherent op hadmissible)).mono (fun _ _ hend => hend.2.accounts hend.1)
      fun _ _ hend => hend.2.accounts hend.1

end Op

/-- The proxies that operations walk over, one operation after the other. -/
def walkedBy : List Op → Store DeviceArray → List ProxyId
  | [], _ => []
  | op :: ops, s => op.walksOver s ++ walkedBy ops (op.after s)

/-- What was walked over has a number that has been given out. -/
theorem Op.raw_le_of_walksOver (hcoherent : Coherent log s) {op : Op}
    (hadmissible : op.Admissible s)
    (hid : id ∈ op.walksOver s) : id.raw ≤ (log ++ op.newArrays).length := by
  cases op with
  | insert key value =>
    rcases (hcoherent.memory.mem_foundIn_iff hadmissible.1 hadmissible.2 id).1 hid with hmem | hnew
    · obtain ⟨p, hfind⟩ := hcoherent.memory.exists_object (hadmissible.2 id hmem)
      obtain ⟨a, horigin, -⟩ := hcoherent.memory.exists_origin hfind
      have hlt := lt_of_origin? horigin
      rw [List.length_append]
      omega
    · exact hnew.2
  | get | remove | adopt | wrapObject | hold | letGo | spillHundredth | allocationFailed | onMemory
  | setDirectory => cases hid

/-- Nobody is attached or held at first. -/
theorem Accounts.start (settings : Settings) (spill : SpillDirectory) (accepts : Option Bool) :
    Accounts [] (ofSettings DeviceArray settings spill accepts) where
  roster := ⟨fun id => by simp [Memory.IsAttached, Memory.isAlive, ofSettings, Memory.empty],
    fun id ⟨p, hp, _⟩ => by cases hp⟩
  mem_owned id hid := by cases hid
  nodup := List.nodup_nil

/-- After any operations, what has been walked over is tracked as long as it is held. -/
theorem Accounts.foldl (h : Accounts walked s) (hcoherent : Coherent log s)
    (hwalked : ∀ id ∈ walked, id.raw ≤ log.length) {ops : List Op}
    (hops : Admits Op.IsIndirect ops s) :
    Accounts (walked ++ walkedBy ops s) (ops.foldl (fun s op => op.after s) s) ∧
      ∀ id ∈ walked ++ walkedBy ops s, id.raw ≤ (log ++ ops.flatMap Op.newArrays).length := by
  -- The list of what was walked over grows with the log, so its numbers stay below.
  induction ops generalizing log s walked with
  | nil =>
    rw [walkedBy, List.append_nil, List.flatMap_nil, List.append_nil]
    exact ⟨h, hwalked⟩
  | cons op ops ih =>
    obtain ⟨hop, hadmissible, hrest⟩ := hops
    have hcoherent' := (Op.leads hcoherent op hadmissible).coherent
    have haccounts := Op.after_of_leaves (Op.accounts h hcoherent hwalked hop hadmissible)
    rw [walkedBy, ← List.append_assoc, List.flatMap_cons, ← List.append_assoc]
    refine ih haccounts hcoherent' (fun id hid => ?_) hrest
    rcases List.mem_append.1 hid with hold | hnew
    · have hle := hwalked id hold
      rw [List.length_append]
      omega
    · exact Op.raw_le_of_walksOver hcoherent hadmissible hnew

theorem Accounts.isTracked_iff (h : Accounts walked s) (hcoherent : Coherent log s) (id : ProxyId) :
    s.memory.IsTracked id ↔ id ∈ walked ∧ id ∈ s.owned := by
  rw [h.roster.isTracked_iff hcoherent.memory.toSound, and_comm]
  exact and_congr_right fun _ => ⟨h.mem_owned id, hcoherent.isAlive id⟩

/-! ### Files of proxies that are gone -/

/-- A directory gives out names from where another one is. -/
def NamesFrom (d d' : SpillDirectory) : Prop :=
  d'.root = d.root ∧ d'.runName = d.runName ∧ d.counter ≤ d'.counter

/-- A form has no file, or one that its proxy had before, or one with a new name. -/
def FileFrom (m : Memory (Proxy DeviceArray)) (id : ProxyId) (form : Form DeviceArray) : Prop :=
  ∀ header, form = .serialized (.disk header) →
    m.OnDisk id header ∨ ¬ m.spill.HasNamed header.path

/-- No proxy comes to have a file that another one has had. -/
theorem formRules_fileFrom (m : Memory (Proxy DeviceArray)) :
    Memory.FormRules (NamesFrom m.spill) (FileFrom m) where
  volume hd _ := hd
  live id a := nofun
  frames _ _ := nofun
  dump header content compress hd := by
    refine (SpillDirectory.dump_ends _ header content compress).mono ?_ ?_
    · rintro disk d' ⟨-, rfl⟩
      exact ⟨hd.1, hd.2.1, Nat.le_succ_of_le hd.2.2⟩
    · rintro e d' ⟨rfl, -⟩
      exact ⟨hd.1, hd.2.1, Nat.le_succ_of_le hd.2.2⟩
  disk hd _ hdump header hform := by
    cases hform
    right
    rintro ⟨n, hn, hpath⟩
    -- The name was given out just now, and numbers are not given out again.
    refine (SpillDirectory.hasNamed_of_dump hdump).1 ⟨n, hn.trans hd.2.2, ?_⟩
    rw [hpath, SpillDirectory.filePath, SpillDirectory.filePath, SpillDirectory.stem,
      SpillDirectory.stem, hd.1, hd.2.1]

/-- The file of a proxy is gone if an operation ends the proxy. -/
theorem contains_eq_false_of_gone (hcoherent : Coherent log s) {op : Op}
    (hadmissible : op.Admissible s) (halive : s.memory.isAlive id = true)
    (hgone : (op.after s).memory.isAlive id = false) {header : DiskHeader}
    (hdisk : s.memory.OnDisk id header) :
    (op.after s).memory.spill.volume.files.contains header.path = false := by
  have hop : ∀ isPresent refused shared compression,
      op ≠ .setDirectory isPresent refused shared compression := by
    rintro isPresent refused shared compression rfl
    have hsame : s.memory.isAlive id = false := hgone
    rw [halive] at hsame
    cases hsame
  have hnow : AllForms (NamesFrom s.memory.spill) (FileFrom s.memory) s :=
    ⟨⟨rfl, rfl, Nat.le_refl _⟩, fun other p hp header hform => .inl ⟨p, hp, hform⟩⟩
  have hafter := Op.after_of_leaves (Op.leaves (formRules_fileFrom s.memory) hnow op hop)
  have hsound := (Op.leads hcoherent op hadmissible).coherent.memory.toSound
  rw [← Bool.not_eq_true, hsound.contains_iff_onDisk]
  rintro ⟨other, header', ⟨p, hp, hform⟩, hpath⟩
  -- Whoever has the file now had it before, and that is only the proxy that is gone.
  rcases hafter.form other p hp header' hform with hbefore | hnew
  · rw [hcoherent.memory.onDisk_unique hbefore hdisk hpath] at hp
    rw [Memory.isAlive, Table.contains_of_find? hp] at hgone
    cases hgone
  · exact hnew (hpath ▸ (hcoherent.memory.file_of_onDisk hdisk).1)

end Store

/-! ### Bytes of proxies that are gone -/

namespace Memory

variable {log : List DeviceArray} {m m' : Memory (Proxy DeviceArray)} {ids : List ProxyId}
  {tier : Tier}

/-- The bytes that an allocation counts on the device. -/
def countedBytes (m : Memory (Proxy DeviceArray)) (b : BufferId) : ℕ :=
  ((m.manager.registry .device).ledger.counted? b).getD 0

theorem sized_countedBytes (h : m.manager.Exact) : m.manager.Sized m.countedBytes := by
  intro tier b n hn
  by_cases htier : tier = .device
  · subst htier
    rw [countedBytes, hn, Option.getD_some]
  · -- Elsewhere no allocation counts.
    have hkind := (countsBuffers_iff h tier).not.2 htier
    rcases hledger : (m.manager.registry tier).ledger with sizes | ⟨held, refs⟩
    · rw [hledger] at hn
      cases hn
    · rw [hledger] at hkind
      exact absurd rfl hkind

/-- The tallies of host and disk are reduced by the sizes of the proxies that are released. -/
theorem Released.usage_eq (h : Coherent log m) (h' : Coherent log m')
    (hreleased : Released m m' ids) (htier : tier ≠ .device) :
    m.manager.usage tier = m'.manager.usage tier +
      (((m.residents tier).filter fun r => r.1 ∈ ids).map fun r => Spillable.size r.2).sum := by
  have hleft : (m'.manager.registry tier).entries.toFinset =
      (m.manager.registry tier).entries.toFinset.filter fun id => id ∉ ids := by
    ext id
    rw [Finset.mem_filter, List.mem_toFinset, List.mem_toFinset]
    exact hreleased.tracks_iff tier id
  have hsame : ∀ id ∈ (m'.manager.registry tier).entries.toFinset,
      (m'.proxies.find? id).elim 0 Spillable.size = (m.proxies.find? id).elim 0 Spillable.size := by
    intro id hid
    rw [hleft, Finset.mem_filter] at hid
    rw [hreleased.find?_eq, if_neg hid.2]
  -- Both tallies are sums over the tier, and those that are left have the sizes that they had.
  rw [usage_eq_sum_residents h htier, usage_eq_sum_residents h' htier, sum_residents h.exact,
    sum_residents h'.exact, sum_filter_residents h.exact Spillable.size tier fun id => id ∈ ids,
    Finset.sum_congr rfl hsame, hleft, List.toFinset_filter, add_comm]
  simp only [decide_eq_true_eq]
  exact (Finset.sum_filter_add_sum_filter_not _ _ _).symm

/-- The tally of the device is reduced by the allocations that are no longer referred to. -/
theorem Released.usage_device_eq (h : Coherent log m) (h' : Coherent log m')
    (hreleased : Released m m' ids) (hnone : ∀ id, ¬ m.Stranded id) :
    m.manager.usage .device = m'.manager.usage .device +
      ∑ b ∈ m.deviceBufferIds.toFinset \ m'.deviceBufferIds.toFinset, m.countedBytes b := by
  have hsized := sized_countedBytes h.exact
  have hnone' : ∀ id, ¬ m'.Stranded id := fun id hid =>
    hnone id (hreleased.proceeds.stranded id hid)
  have hsubset : m'.deviceBufferIds.toFinset ⊆ m.deviceBufferIds.toFinset := by
    intro b hb
    rw [List.mem_toFinset, mem_deviceBufferIds_iff] at hb ⊢
    obtain ⟨id, htracks, p, hfind, hb⟩ := hb
    obtain ⟨htracks, hnot⟩ := (hreleased.tracks_iff .device id).1 htracks
    rw [hreleased.find?_eq, if_neg hnot] at hfind
    exact ⟨id, htracks, p, hfind, hb⟩
  rw [usage_device_eq_of_sized h hsized, usage_device_eq_of_sized h' (hreleased.sized hsized),
    hiddenBytes_eq_zero h.toSound hnone, hiddenBytes_eq_zero h'.toSound hnone', liveBytes,
    liveBytes, Nat.add_zero, Nat.add_zero, add_comm]
  exact (Finset.sum_sdiff hsubset).symm

end Memory

namespace Store

variable {log : List DeviceArray} {s s' : Store DeviceArray} {settings : Settings} {id : ProxyId}

/-- What callers let go of is subtracted from the tally of its tier, if nobody else holds it. -/
theorem letGo_tallies (hcoherent : Coherent log s) (hnone : ∀ id, ¬ s.memory.Stranded id)
    (ids : List ProxyId) :
    Ends (letGo ids) s
      (fun _ s' => (∀ tier, tier ≠ .device → s.memory.manager.usage tier =
          s'.memory.manager.usage tier + (((s.memory.residents tier).filter fun r =>
            r.1 ∉ s'.owned).map fun r => Spillable.size r.2).sum) ∧
        s.memory.manager.usage .device = s'.memory.manager.usage .device +
          ∑ b ∈ s.memory.deviceBufferIds.toFinset \ s'.memory.deviceBufferIds.toFinset,
            s.memory.countedBytes b) Never := by
  rw [letGo, Ends.bind_iff, Ends.modify_iff]
  refine (collect_released (s := { s with handles := ids.foldl List.erase s.handles })
    hcoherent.memory.toSound []).mono_ok ?_
  rintro - s' ⟨memory, gone, rfl, hsound, hreleased, hgone⟩
  have hafter := hcoherent.memory.of_released hsound hreleased
  refine ⟨fun tier htier => ?_, hreleased.usage_device_eq hcoherent.memory hafter hnone⟩
  rw [hreleased.usage_eq hcoherent.memory hafter htier]
  congr 3
  -- A proxy that is tracked exists, so it goes exactly if nobody holds it.
  refine List.filter_congr fun r hr => ?_
  obtain ⟨-, hfind⟩ := (Memory.mem_residents_iff _ tier r.1 r.2).1 hr
  rw [decide_eq_decide, hgone]
  exact and_iff_right (Table.contains_of_find? hfind)

/-! ### Tracked means owned -/

/-- After any operations of callers who leave the books to the store, the proxies that are tracked
are just those that were found in a value to be stored, whether or not that failed, and that a
stored value or a caller still holds. One more operation leaves a proxy tracked as long as somebody
holds it, and otherwise the proxy is gone with its spill file. The tallies have the bytes of what is
tracked, and no others: what callers let go of is subtracted. -/
theorem tracked_iff_owned {root : Path} {tag : String} {sharedFilesystem : Bool}
    {spill : SpillDirectory}
    (hspill : SpillDirectory.create root tag sharedFilesystem true = .ok spill)
    (accepts : Option Bool) (ops : List Op)
    (hops : Admits Op.IsIndirect ops (ofSettings DeviceArray settings spill accepts)) :
    let start := ofSettings DeviceArray settings spill accepts
    let s := ops.foldl (fun s op => op.after s) start
    (∀ id, s.memory.IsTracked id ↔ id ∈ walkedBy ops start ∧ id ∈ s.owned) ∧
      (∀ op : Op, op.IsIndirect s → op.Admissible s → ∀ id, s.memory.IsTracked id →
        (id ∈ (op.after s).owned → (op.after s).memory.IsTracked id) ∧
        (id ∉ (op.after s).owned → ¬ (op.after s).memory.IsTracked id ∧
          (op.after s).memory.isAlive id = false ∧
          ∀ header, s.memory.OnDisk id header →
            (op.after s).memory.spill.volume.files.contains header.path = false)) ∧
      (∀ tier, tier ≠ .device → s.memory.manager.usage tier =
        ((s.memory.residents tier).map fun r => Spillable.size r.2).sum) ∧
      s.memory.manager.usage .device =
        ∑ b ∈ s.memory.deviceBufferIds.toFinset, s.memory.countedBytes b ∧
      ∀ ids, ∃ s', letGo ids s = .ok () s' ∧
        (∀ tier, tier ≠ .device → s.memory.manager.usage tier =
          s'.memory.manager.usage tier + (((s.memory.residents tier).filter fun r =>
            r.1 ∉ s'.owned).map fun r => Spillable.size r.2).sum) ∧
        s.memory.manager.usage .device = s'.memory.manager.usage .device +
          ∑ b ∈ s.memory.deviceBufferIds.toFinset \ s'.memory.deviceBufferIds.toFinset,
            s.memory.countedBytes b := by
  intro start s
  have hstart : Run settings Op.IsIndirect [] start := .start hspill
  have hrun := hstart.foldl hops
  have hcoherent : Coherent _ s := hrun.coherent
  obtain ⟨haccounts, hwalked⟩ :=
    (Accounts.start settings spill accepts).foldl hstart.coherent nofun hops
  have hnone : ∀ id, ¬ s.memory.Stranded id :=
    (hrun.mono fun op _ hop => Op.IsIndirect.spares hop).not_stranded
  refine ⟨haccounts.isTracked_iff hcoherent, fun op hop hadmissible id htracked => ?_,
    fun tier htier => Memory.usage_eq_sum_residents hcoherent.memory htier, ?_, fun ids => ?_⟩
  · have hcoherent' := (Op.leads hcoherent op hadmissible).coherent
    have haccounts' := Op.after_of_leaves (Op.accounts haccounts hcoherent hwalked hop hadmissible)
    have hiff := haccounts'.isTracked_iff hcoherent' id
    have hmem := ((haccounts.isTracked_iff hcoherent id).1 htracked).1
    refine ⟨fun howned => hiff.2 ⟨List.mem_append_left _ hmem, howned⟩, fun hgone => ?_⟩
    -- What exists is held, so a proxy that nobody holds is gone.
    have hdead : (op.after s).memory.isAlive id = false := by
      rw [← Bool.not_eq_true]
      exact fun halive => hgone (haccounts'.mem_owned id halive)
    obtain ⟨tier, htracks⟩ := htracked
    have halive := hcoherent.memory.isAlive_of_tracks htracks
    exact ⟨fun htracked => hgone (hiff.1 htracked).2, hdead, fun header hdisk =>
      contains_eq_false_of_gone hcoherent hadmissible halive hdead hdisk⟩
  · -- Nobody is stranded, so nothing but the allocations of the proxies counts.
    have hsized := Memory.sized_countedBytes hcoherent.memory.exact
    rw [Memory.usage_device_eq_of_sized hcoherent.memory hsized,
      Memory.hiddenBytes_eq_zero hcoherent.memory.toSound hnone]
    rfl
  · obtain ⟨_, s', hletGo, htallies⟩ :=
      (letGo_tallies hcoherent hnone ids).exists_ok fun _ _ => not_false
    exact ⟨s', hletGo, htallies⟩

/-- A number takes the place of the array on disk, which nobody else holds. -/
theorem tracked_iff_owned_overwritten :
    let s := storeAndEvict.foldl (fun s op => op.after s) narrowStore
    SpillDirectory.create ⟨"/tmp"⟩ "0" false true = .ok narrowStore.memory.spill ∧
      Admits Op.IsIndirect storeAndEvict narrowStore ∧ s.memory.IsTracked ⟨1⟩ ∧
      ((Op.insert "key" (.int 3)).after s).memory.isAlive ⟨1⟩ = false ∧
      ∃ header, s.memory.OnDisk ⟨1⟩ header ∧
        ((Op.insert "key" (.int 3)).after s).memory.spill.volume.files.contains header.path =
          false := by
  intro s
  have hops : Admits Op.IsIndirect storeAndEvict narrowStore :=
    ⟨trivial, admissible_smallArray _ _, trivial, trivial, trivial, trivial, trivial⟩
  obtain ⟨hiff, hstep, -⟩ := tracked_iff_owned create_narrowStore none storeAndEvict hops
  have htracked : s.memory.IsTracked ⟨1⟩ := (hiff ⟨1⟩).2 (by decide +kernel)
  obtain ⟨-, hdead, hfiles⟩ :=
    (hstep (.insert "key" (.int 3)) trivial ⟨nofun, nofun⟩ ⟨1⟩ htracked).2 (by decide +kernel)
  have hdisk : ∃ header, s.memory.OnDisk ⟨1⟩ header := by
    have hfile : (s.memory.proxies.find? ⟨1⟩).bind Spillable.ownedFile? =
        some ⟨"/tmp/spilled-data-0-1"⟩ := by decide +kernel
    obtain ⟨p, hfind, hpath⟩ := Option.bind_eq_some_iff.1 hfile
    cases p with
    | object p =>
      rw [Proxy.ownedFile?_object] at hpath
      obtain ⟨header, hheader, -⟩ := Memory.exists_onDisk_of_file? hfind hpath
      exact ⟨header, hheader⟩
    | scripted => cases hpath
  obtain ⟨header, hheader⟩ := hdisk
  exact ⟨create_narrowStore, hops, htracked, hdead, header, hheader, hfiles header hheader⟩

end Store

end TieredStore
