import Mathlib.Logic.Relation
import TieredStore.Proofs.Coherence
import TieredStore.Proofs.Memory.Tallies

/-!
# Spill files and their proxies

Every spill file is that of one proxy, and every proxy that was spilled has its file, of the size
that the books account for. A name that a file has had is not given to another one later.

* `SpillDirectory.HasNamed`: the names that were given out, which none of the later files has.
* `Memory.OnDisk`: a proxy has its frames in a file.
* `contains_iff_onDisk`, `usage_disk_eq`: files and proxies, one to one.
* `Op.IsManaged`: the operations that keep every spilled proxy in the books.
* `files_match`: what that comes to after every run, and from there on.
-/

namespace TieredStore

namespace SpillDirectory

variable {d d' : SpillDirectory} {path : Path}

/-- A path was given out, or its number has been passed over. -/
def HasNamed (d : SpillDirectory) (path : Path) : Prop := ∃ n ≤ d.counter, path = d.filePath n

theorem Evolves.hasNamed (h : Evolves d d') (hnamed : d.HasNamed path) : d'.HasNamed path := by
  obtain ⟨n, hn, hpath⟩ := hnamed
  exact ⟨n, hn.trans h.counter_le, hpath.trans (h.filePath_eq n).symm⟩

/-- A file under a name that was given out stays as it is, or it goes for good. -/
theorem Evolves.find?_of_hasNamed (h : Evolves d d') (hnamed : d.HasNamed path) :
    d'.volume.files.find? path = d.volume.files.find? path ∨
      d'.volume.files.find? path = none := by
  rcases hfind : d'.volume.files.find? path with _ | data
  · exact .inr rfl
  · refine .inl ?_
    rcases h.old_or_new hfind with hold | ⟨n, hlt, -, hn⟩
    · exact hold.symm
    · -- A new file has a number that was not given out.
      obtain ⟨k, hk, hpath⟩ := hnamed
      have hnumber := d.filePath_injective (hpath.symm.trans hn)
      omega

/-- A file is written under a name that was not given out before. -/
theorem hasNamed_of_dump {header : FrameHeader} {frames : List Bytes} {compress : Bool}
    {disk : DiskHeader} (hdump : dump header frames compress d = .ok disk d') :
    ¬ d.HasNamed disk.path ∧ d'.HasNamed disk.path := by
  obtain ⟨rfl, rfl⟩ := (d.dump_ends header frames compress).of_ok hdump
  refine ⟨?_, d.counter + 1, Nat.le_refl _, rfl⟩
  rintro ⟨n, hn, hpath⟩
  have hnumber : d.counter + 1 = n := d.filePath_injective hpath
  omega

end SpillDirectory

namespace Memory

variable {log : List DeviceArray} {m : Memory (Proxy DeviceArray)} {id other : ProxyId}
  {header header' : DiskHeader} {path : Path}

/-- A proxy exists and has its frames in the file that a header describes. -/
def OnDisk (m : Memory (Proxy DeviceArray)) (id : ProxyId) (header : DiskHeader) : Prop :=
  ∃ p, m.proxies.find? id = some (.object p) ∧ p.form = .serialized (.disk header)

theorem OnDisk.header_eq (h : m.OnDisk id header) (h' : m.OnDisk id header') :
    header = header' := by
  obtain ⟨p, hfind, hform⟩ := h
  obtain ⟨q, hfind', hform'⟩ := h'
  rw [hfind] at hfind'
  cases hfind'
  rw [hform] at hform'
  cases hform'
  rfl

/-- A proxy on disk has the size of its file. -/
theorem OnDisk.size_eq (h : m.OnDisk id header) :
    (m.proxies.find? id).elim 0 Spillable.size = header.size := by
  obtain ⟨p, hfind, hform⟩ := h
  have hsize : p.size = header.size := by
    rw [ObjectProxy.size, hform]
    rfl
  rw [hfind, ← hsize]
  rfl

/-- The file of a proxy is there, as long as its header says, under a name that was given out. -/
theorem Sound.file_of_onDisk (h : Sound log m) (hdisk : m.OnDisk id header) :
    m.spill.HasNamed header.path ∧
      ∃ data, m.spill.volume.files.find? header.path = some data ∧ data.length = header.size := by
  obtain ⟨p, hfind, hform⟩ := hdisk
  obtain ⟨a, -, hholds⟩ := h.exists_origin hfind
  rw [hform] at hholds
  cases hholds with
  | disk _ data _ _ _ hpath hfile hsize => exact ⟨hpath, data, hfile, hsize.symm⟩

/-- Only a form that is on disk has a file. -/
theorem exists_onDisk_of_file? {p : ObjectProxy DeviceArray}
    (hfind : m.proxies.find? id = some (.object p)) (hpath : p.form.file? = some path) :
    ∃ header, m.OnDisk id header ∧ header.path = path := by
  rcases hform : p.form with a | (⟨sub, content⟩ | header)
  · rw [hform] at hpath
    cases hpath
  · rw [hform] at hpath
    cases hpath
  · rw [hform] at hpath
    cases hpath
    exact ⟨header, ⟨p, hfind, hform⟩, rfl⟩

/-- No two proxies have the same file. -/
theorem Sound.onDisk_unique (h : Sound log m) (hdisk : m.OnDisk id header)
    (hdisk' : m.OnDisk other header') (hpath : header.path = header'.path) : id = other := by
  obtain ⟨p, hfind, hform⟩ := hdisk
  obtain ⟨q, hfind', hform'⟩ := hdisk'
  have hfile : p.form.file? = some header.path := by
    rw [hform]
    rfl
  have hfile' : q.form.file? = some header.path := by
    rw [hform', hpath]
    rfl
  exact h.owner_unique hfind hfind' hfile hfile'

/-- The files that are there are those of proxies. -/
theorem Sound.contains_iff_onDisk (h : Sound log m) (path : Path) :
    m.spill.volume.files.contains path = true ↔
      ∃ id header, m.OnDisk id header ∧ header.path = path := by
  rw [Table.contains_iff]
  constructor
  · rintro ⟨data, hdata⟩
    obtain ⟨id, p, hfind, hpath⟩ := h.owned hdata
    exact ⟨id, exists_onDisk_of_file? hfind hpath⟩
  · rintro ⟨id, header, hdisk, rfl⟩
    obtain ⟨-, data, hdata, -⟩ := h.file_of_onDisk hdisk
    exact ⟨data, hdata⟩

/-- The proxies that are tracked on disk are those that have files, if all of them have their places
and all but live ones are tracked. -/
theorem Sound.tracks_disk_iff (h : Sound log m) (hseated : ∀ id, m.Seated id)
    (henrolled : ∀ id, m.Enrolled id) (id : ProxyId) :
    m.manager.Tracks .disk id ↔ ∃ header, m.OnDisk id header := by
  constructor
  · intro htracks
    obtain ⟨p, hfind, -⟩ := h.attached htracks
    obtain ⟨a, -, hholds⟩ := h.exists_origin hfind
    obtain ⟨header, hform⟩ := hholds.tier_eq_disk_iff.1 (hseated id .disk p htracks hfind).symm
    exact ⟨header, p, hfind, hform⟩
  · rintro ⟨header, p, hfind, hform⟩
    obtain ⟨a, -, hholds⟩ := h.exists_origin hfind
    have htier : p.form.tier = .disk := hholds.tier_eq_disk_iff.2 ⟨header, hform⟩
    -- It is not live, so some tier tracks it, and that is the tier of its form.
    obtain ⟨tier, htracks⟩ := henrolled id p hfind (by simp [htier])
    rwa [← htier, ← hseated id tier p htracks hfind]

/-- The tally of the disk is the number of bytes in the files. -/
theorem Coherent.usage_disk_eq (h : Coherent log m) (hseated : ∀ id, m.Seated id)
    (henrolled : ∀ id, m.Enrolled id) :
    m.manager.usage .disk = m.spill.volume.files.total List.length := by
  have hkind := countsBuffers_eq_false h.exact (show Tier.disk ≠ .device by decide)
  have hdisk : ∀ id ∈ (m.manager.registry .disk).entries.toFinset, ∃ header, m.OnDisk id header :=
    fun id hid => (h.tracks_disk_iff hseated henrolled id).1 (List.mem_toFinset.1 hid)
  rw [Manager.usage, Registry.usage_eq_sum_sizes (h.exact.registries .disk) hkind
    fun id hid => h.records hid, Table.total]
  -- Both are sums, one over proxies and one over paths. A proxy goes with the path of its file.
  choose file hfile using hdisk
  refine Finset.sum_bij (fun id hid => (file id hid).path) (fun id hid => ?_)
    (fun id hid other hother hpath => ?_) (fun path hpath => ?_) fun id hid => ?_
  · rw [List.mem_toFinset, Table.mem_keys_iff, h.contains_iff_onDisk]
    exact ⟨id, _, hfile id hid, rfl⟩
  · exact h.onDisk_unique (hfile id hid) (hfile other hother) hpath
  · rw [List.mem_toFinset, Table.mem_keys_iff, h.contains_iff_onDisk] at hpath
    obtain ⟨id, header, hheader, rfl⟩ := hpath
    have hid : id ∈ (m.manager.registry .disk).entries.toFinset :=
      List.mem_toFinset.2 ((h.tracks_disk_iff hseated henrolled id).2 ⟨header, hheader⟩)
    exact ⟨id, hid, by rw [(hfile id hid).header_eq hheader]⟩
  · obtain ⟨-, data, hdata, hlength⟩ := h.file_of_onDisk (hfile id hid)
    rw [Table.weight, hdata, Option.map_some, Option.getD_some, hlength, (hfile id hid).size_eq]

end Memory

namespace Store

variable {log : List DeviceArray} {s s' : Store DeviceArray} {settings : Settings}
  {allowed : Store DeviceArray → Op → Prop}

/-- Files can be written, and no proxy is struck from the books while it exists. -/
def Op.IsManaged (s : Store DeviceArray) (op : Op) : Prop :=
  op.KeepsWritable s ∧ ∀ id, op ≠ .onMemory (.untrack id)

/-- One more operation leads from one state to another. -/
def Step (allowed : Store DeviceArray → Op → Prop) (s s' : Store DeviceArray) : Prop :=
  ∃ op : Op, allowed s op ∧ op.Admissible s ∧ s' = op.after s

namespace Run

/-- Proxies that are not live are tracked throughout. -/
theorem enrolled (h : Run settings Op.IsManaged log s) (id : ProxyId) : s.memory.Enrolled id := by
  induction h with
  | start hspill =>
    cases hspill
    intro p hp
    cases hp
  | step h op hop hadmissible ih =>
    have hwritable := (h.mono fun _ _ hmanaged => hmanaged.1).writable
    refine (Op.leads h.coherent op hadmissible).enrolled ?_ id ih
    -- What may not be asked for is to strike a proxy from the books.
    unfold Op.Enrols Memory.Op.Enrols
    split
    · split
      · exact hop.2 _ rfl
      · exact fun _ _ _ => hwritable
      · trivial
    · trivial

/-- A run goes on, and the directory evolves with it. -/
theorem later (h : Run settings allowed log s)
    (hsteps : Relation.ReflTransGen (Step allowed) s s') :
    (∃ more, Run settings allowed (log ++ more) s') ∧ s.memory.spill.Evolves s'.memory.spill := by
  induction hsteps with
  | refl => exact ⟨⟨[], by rwa [List.append_nil]⟩, .refl _⟩
  | tail _ hstep ih =>
    obtain ⟨⟨more, hrun⟩, hevolves⟩ := ih
    obtain ⟨op, hallowed, hadmissible, rfl⟩ := hstep
    refine ⟨⟨more ++ op.newArrays, ?_⟩,
      hevolves.trans (Op.leads hrun.coherent op hadmissible).evolves⟩
    rw [← List.append_assoc]
    exact hrun.step op hallowed hadmissible

end Run

/-- After every run the files are just those of the proxies on disk. Each of these has a file of its
own, which is as long as its header says, and all files together have the bytes that the disk
tallies. Later the name of such a file is not given out again, and a file stays as it was written
until it goes for good. -/
theorem files_match (h : Run settings Op.IsManaged log s) :
    (∀ path, s.memory.spill.volume.files.contains path = true ↔
      ∃ id header, s.memory.OnDisk id header ∧ header.path = path) ∧
    (∀ id header other header', s.memory.OnDisk id header → s.memory.OnDisk other header' →
      header.path = header'.path → id = other) ∧
    (∀ id header, s.memory.OnDisk id header → s.memory.spill.HasNamed header.path ∧
      ∃ data, s.memory.spill.volume.files.find? header.path = some data ∧
        data.length = header.size) ∧
    s.memory.manager.usage .disk = s.memory.spill.volume.files.total List.length ∧
    (∀ header frames compress disk d',
      SpillDirectory.dump header frames compress s.memory.spill = .ok disk d' →
        ¬ s.memory.spill.HasNamed disk.path ∧ d'.HasNamed disk.path) ∧
    ∀ s', Relation.ReflTransGen (Step Op.IsManaged) s s' →
      ∀ path, s.memory.spill.HasNamed path → s'.memory.spill.HasNamed path ∧
        (s'.memory.spill.volume.files.find? path = s.memory.spill.volume.files.find? path ∨
          s'.memory.spill.volume.files.find? path = none) := by
  have hmemory := h.coherent.memory
  have hseated := (h.mono fun _ _ hmanaged => hmanaged.1).spares.seated
  refine ⟨hmemory.contains_iff_onDisk, fun id header other header' => hmemory.onDisk_unique,
    fun id header => hmemory.file_of_onDisk, hmemory.usage_disk_eq hseated h.enrolled,
    fun header frames compress disk d' => SpillDirectory.hasNamed_of_dump,
    fun s' hsteps path hnamed => ?_⟩
  have hevolves := (h.later hsteps).2
  exact ⟨hevolves.hasNamed hnamed, hevolves.find?_of_hasNamed hnamed⟩

theorem run_spilledStore_managed : Run narrowSettings Op.IsManaged [smallArray] spilledStore := by
  have hempty : Run narrowSettings Op.IsManaged [] narrowStore := .start create_narrowStore
  have hlive : Run narrowSettings Op.IsManaged [smallArray] liveStore :=
    hempty.step (.insert "key" (.object smallArray)) ⟨trivial, nofun⟩ (admissible_smallArray _ _)
  exact hlive.step (.onMemory (.demoteToDisk ⟨1⟩)) ⟨trivial, nofun⟩ ⟨_, rfl, rfl⟩

/-- The store whose array has been moved to disk has one file, of the size that is tallied. -/
theorem files_match_on_disk :
    Run narrowSettings Op.IsManaged [smallArray] spilledStore ∧
      ∃ header, spilledStore.memory.OnDisk ⟨1⟩ header ∧
        spilledStore.memory.spill.volume.files.contains header.path = true ∧
        (∀ id header', spilledStore.memory.OnDisk id header' → header.path = header'.path →
          (⟨1⟩ : ProxyId) = id) ∧
        spilledStore.memory.manager.usage .disk =
          spilledStore.memory.spill.volume.files.total List.length := by
  obtain ⟨hcontains, hunique, -, husage, -, -⟩ := files_match run_spilledStore_managed
  have hdisk : ∃ header, spilledStore.memory.OnDisk ⟨1⟩ header := ⟨_, _, rfl, rfl⟩
  obtain ⟨header, hheader⟩ := hdisk
  exact ⟨run_spilledStore_managed, header, hheader, (hcontains header.path).2 ⟨_, _, hheader, rfl⟩,
    fun id header' => hunique _ header id header' hheader, husage⟩

end Store

end TieredStore
