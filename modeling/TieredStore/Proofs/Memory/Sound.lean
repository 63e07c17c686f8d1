import TieredStore.Memory.Inspection
import TieredStore.Proofs.Content
import TieredStore.Proofs.Tracking

/-!
# Sound memories

A memory is sound when every proxy in it stands for the array that it was made around, every spill
file belongs to one proxy, and the books are exact. Soundness says nothing of whether a proxy is
tracked in the tier of its form, so it holds in the middle of an operation, too.

* `SpillDirectory.Evolves`: no file is written over, and no name given out again.
* `Memory.Sound`: the invariant of every step.
* `Memory.Coherent`: soundness with every tracked proxy in the tier of its form, or stranded.
* `Sound.empty`: the start.
* `Sound.replace`, `Sound.place`, `Sound.without`, `Sound.create`, `Sound.erase`,
  `Sound.withSpill`: the changes of the memory that all operations are made of.
-/

namespace TieredStore

/-- The array that a proxy was made around, where the proxies are numbered in the order of the
arrays. -/
def origin? (log : List DeviceArray) (id : ProxyId) : Option DeviceArray :=
  match id.raw with
  | 0 => none
  | n + 1 => log[n]?

theorem origin?_append {log : List DeviceArray} {id : ProxyId} {a : DeviceArray}
    (h : origin? log id = some a) (more : List DeviceArray) :
    origin? (log ++ more) id = some a := by
  unfold origin? at h ⊢
  split at h
  · cases h
  next n hn =>
    obtain ⟨hlt, -⟩ := List.getElem?_eq_some_iff.1 h
    rw [List.getElem?_append_left hlt, h]

theorem origin?_length_succ (log : List DeviceArray) (a : DeviceArray) :
    origin? (log ++ [a]) ⟨log.length + 1⟩ = some a := by
  simp [origin?]

theorem lt_of_origin? {log : List DeviceArray} {id : ProxyId} {a : DeviceArray}
    (h : origin? log id = some a) : id.raw < log.length + 1 := by
  unfold origin? at h
  split at h
  · cases h
  next n hn =>
    obtain ⟨hlt, -⟩ := List.getElem?_eq_some_iff.1 h
    omega

theorem mem_of_origin? {log : List DeviceArray} {id : ProxyId} {a : DeviceArray}
    (h : origin? log id = some a) : a ∈ log := by
  unfold origin? at h
  split at h
  · cases h
  · exact List.mem_of_getElem? h

namespace SpillDirectory

/-- What becomes of a directory: a file that was there stays as it is until it goes, and a new one
has a number that was not given out before. -/
structure Evolves (d d' : SpillDirectory) : Prop where
  /-- The directory stays where it is. -/
  root_eq : d'.root = d.root
  /-- The names start as they did. -/
  runName_eq : d'.runName = d.runName
  /-- Numbers are not given out again. -/
  counter_le : d.counter ≤ d'.counter
  /-- A file was there before, or it is new. -/
  old_or_new : ∀ {path data}, d'.volume.files.find? path = some data →
    d.volume.files.find? path = some data ∨
      ∃ n, d.counter < n ∧ n ≤ d'.counter ∧ path = d.filePath n

theorem Evolves.filePath_eq {d d' : SpillDirectory} (h : Evolves d d') (n : ℕ) :
    d'.filePath n = d.filePath n := by
  rw [filePath, filePath, stem, stem, h.root_eq, h.runName_eq]

/-- Files may go, and everything but the names may change. -/
theorem Evolves.of_find? {d d' : SpillDirectory} (hroot : d'.root = d.root)
    (hrunName : d'.runName = d.runName) (hcounter : d.counter ≤ d'.counter)
    (hfiles : ∀ path data, d'.volume.files.find? path = some data →
      d.volume.files.find? path = some data) : Evolves d d' :=
  ⟨hroot, hrunName, hcounter, fun hdata => .inl (hfiles _ _ hdata)⟩

theorem Evolves.refl (d : SpillDirectory) : Evolves d d :=
  .of_find? rfl rfl (Nat.le_refl _) fun _ _ => id

theorem Evolves.trans {d d' d'' : SpillDirectory} (h : Evolves d d') (h' : Evolves d' d'') :
    Evolves d d'' where
  root_eq := h'.root_eq.trans h.root_eq
  runName_eq := h'.runName_eq.trans h.runName_eq
  counter_le := h.counter_le.trans h'.counter_le
  old_or_new {path data} hdata := by
    rcases h'.old_or_new hdata with hold | ⟨n, hlt, hle, hpath⟩
    · refine (h.old_or_new hold).imp_right ?_
      rintro ⟨n, hlt, hle, hpath⟩
      exact ⟨n, hlt, hle.trans h'.counter_le, hpath⟩
    · exact .inr ⟨n, h.counter_le.trans_lt hlt, hle, hpath.trans (h.filePath_eq n)⟩

/-- A new file has a number that was not given out before. -/
theorem Evolves.addFile (d : SpillDirectory) (data : Bytes) : Evolves d (d.addFile data) where
  root_eq := rfl
  runName_eq := rfl
  counter_le := Nat.le_succ _
  old_or_new {path other} hother := by
    rw [SpillDirectory.addFile, Table.find?_insert] at hother
    split at hother
    next hpath => exact .inr ⟨d.counter + 1, Nat.lt_succ_self _, Nat.le_refl _, hpath⟩
    next => exact .inl hother

/-- How the files of a directory change with a proxy that had the file `old` and has the file `new`
after that. -/
structure Rewrites (d d' : SpillDirectory) (old new : Option Path) : Prop extends Evolves d d' where
  /-- Other files stay as they are. -/
  find?_eq : ∀ path, old ≠ some path → new ≠ some path →
    d'.volume.files.find? path = d.volume.files.find? path
  /-- A file that the proxy has no longer is gone. -/
  gone : ∀ path, old = some path → new ≠ some path → d'.volume.files.find? path = none
  /-- A file that the proxy did not have is new. -/
  fresh : ∀ path, new = some path → old ≠ some path → d.volume.files.find? path = none
  /-- The directory is there if it was. -/
  isPresent_eq : d'.volume.isPresent = d.volume.isPresent
  /-- The same files are refused. -/
  refused_eq : d'.volume.refused = d.volume.refused

theorem Rewrites.refl (d : SpillDirectory) (path? : Option Path) : Rewrites d d path? path? :=
  ⟨.refl d, fun _ _ _ => rfl, fun _ h h' => absurd h h', fun _ h h' => absurd h h', rfl, rfl⟩

/-- A file may go. -/
theorem Evolves.without (d : SpillDirectory) (path? : Option Path) :
    Evolves d { d with volume := d.volume.without path? } :=
  .of_find? rfl rfl (Nat.le_refl _) fun path data hdata => by
    rw [Volume.find?_without] at hdata
    split at hdata
    · cases hdata
    · exact hdata

/-- A proxy that gives up its file. -/
theorem Rewrites.without (d : SpillDirectory) (path? : Option Path) :
    Rewrites d { d with volume := d.volume.without path? } path? none where
  toEvolves := .without d path?
  find?_eq path hold _ := by rw [Volume.find?_without, if_neg hold]
  gone path hold _ := by rw [Volume.find?_without, if_pos hold]
  fresh path hnew := by cases hnew
  isPresent_eq := Volume.isPresent_without _ _
  refused_eq := Volume.refused_without _ _

/-- A proxy that had no file gets the next one. -/
theorem Rewrites.addFile {d : SpillDirectory} (data : Bytes)
    (hfresh : d.volume.files.find? (d.filePath (d.counter + 1)) = none) :
    Rewrites d (d.addFile data) none (some (d.filePath (d.counter + 1))) where
  toEvolves := .addFile d data
  find?_eq path _ hnew :=
    Table.find?_insert_of_ne _ _ fun hpath => hnew (congrArg some hpath.symm)
  gone path hold := by cases hold
  fresh path hnew _ := by
    cases hnew
    exact hfresh
  isPresent_eq := rfl
  refused_eq := rfl

end SpillDirectory

namespace Memory

variable {log : List DeviceArray} {m m' : Memory (Proxy DeviceArray)} {id : ProxyId}
  {p q : ObjectProxy DeviceArray} {a : DeviceArray}

/-- Every proxy stands for its array, every file belongs to one proxy, and the books are exact. -/
structure Sound (log : List DeviceArray) (m : Memory (Proxy DeviceArray)) : Prop where
  /-- The next proxy comes after those of all arrays. -/
  nextId_eq : m.nextId = log.length + 1
  /-- The arrays can be written to files. -/
  addressable : ∀ a ∈ log, a.IsAddressable
  /-- Every proxy holds the array that it was made around. -/
  stands : ∀ {id p}, m.proxies.find? id = some p →
    ∃ o a, p = .object o ∧ origin? log id = some a ∧ Holds m.spill a o.form
  /-- No two proxies have the same file. -/
  owner_unique : ∀ {id other p q path}, m.proxies.find? id = some (.object p) →
    m.proxies.find? other = some (.object q) → p.form.file? = some path →
    q.form.file? = some path → id = other
  /-- Every file is that of a proxy. -/
  owned : ∀ {path data}, m.spill.volume.files.find? path = some data →
    ∃ id p, m.proxies.find? id = some (.object p) ∧ p.form.file? = some path
  /-- The books are exact. -/
  exact : m.manager.Exact
  /-- Tracked proxies exist and are attached. -/
  attached : ∀ {tier id}, m.manager.Tracks tier id →
    ∃ p, m.proxies.find? id = some (.object p) ∧ p.isAttached = true
  /-- What is recorded of a tracked proxy agrees with its array and its form. A proxy on the device
  refers to the allocations of its array whatever its form. -/
  recorded : ∀ {tier id p a}, m.manager.Tracks tier id → m.proxies.find? id = some (.object p) →
    origin? log id = some a → tier = .device ∨ tier = p.form.tier →
    (m.manager.registry tier).ledger.Records id ⟨p.size, a.deviceBuffers⟩
  /-- Sizes of allocations are recorded as the arrays have them. -/
  sized : ∀ {size}, (∀ a ∈ log, a.SizedBy size) → m.manager.Sized size
  /-- The manager is there. -/
  isManaged_eq : m.isManaged = true

/-- A proxy is tracked in the tier of its form, if it is tracked. -/
def Seated (m : Memory (Proxy DeviceArray)) (id : ProxyId) : Prop :=
  ∀ tier p, m.manager.Tracks tier id → m.proxies.find? id = some (.object p) → tier = p.form.tier

/-- A proxy is tracked on the device although its frames are in host memory. -/
def Stranded (m : Memory (Proxy DeviceArray)) (id : ProxyId) : Prop :=
  m.manager.Tracks .device id ∧ ∃ p, m.proxies.find? id = some (.object p) ∧ p.form.tier = .host

/-- A proxy is tracked unless it is live. -/
def Enrolled (m : Memory (Proxy DeviceArray)) (id : ProxyId) : Prop :=
  ∀ p, m.proxies.find? id = some (.object p) → p.form.tier ≠ .device →
    ∃ tier, m.manager.Tracks tier id

/-- A proxy exists and is explicit. -/
def isExplicit (m : Memory (Proxy DeviceArray)) (id : ProxyId) : Bool :=
  (m.proxies.find? id).any Spillable.isExplicit

theorem seated_congr (hfind : m'.proxies.find? id = m.proxies.find? id)
    (htracks : ∀ t, m'.manager.Tracks t id ↔ m.manager.Tracks t id) :
    m'.Seated id ↔ m.Seated id := by
  simp only [Seated, hfind, htracks]

theorem stranded_congr (hfind : m'.proxies.find? id = m.proxies.find? id)
    (htracks : ∀ t, m'.manager.Tracks t id ↔ m.manager.Tracks t id) :
    m'.Stranded id ↔ m.Stranded id := by
  simp only [Stranded, hfind, htracks]

theorem enrolled_congr (hfind : m'.proxies.find? id = m.proxies.find? id)
    (htracks : ∀ t, m'.manager.Tracks t id ↔ m.manager.Tracks t id) :
    m'.Enrolled id ↔ m.Enrolled id := by
  simp only [Enrolled, hfind, htracks]

theorem isExplicit_eq (hfind : m.proxies.find? id = some (.object p)) :
    m.isExplicit id = p.isExplicit := by
  rw [isExplicit, hfind]
  rfl

theorem isExplicit_congr (hfind : m'.proxies.find? id = m.proxies.find? id) :
    m'.isExplicit id = m.isExplicit id := by
  rw [isExplicit, hfind, isExplicit]

/-- A sound memory where every proxy has its place, or is stranded. -/
structure Coherent (log : List DeviceArray) (m : Memory (Proxy DeviceArray)) : Prop
    extends Sound log m where
  /-- What is tracked elsewhere than in the tier of its form is stranded. -/
  seated_or_stranded : ∀ id, m.Seated id ∨ m.Stranded id

/-- A new proxy is added to those that exist. -/
theorem find?_create (m : Memory (Proxy DeviceArray)) (make : Int → Proxy DeviceArray)
    (other : ProxyId) :
    (m.create make).2.proxies.find? other =
      if other = ⟨m.nextId⟩ then some (make (m.clock + 1)) else m.proxies.find? other :=
  Table.find?_insert _ _ _ _

namespace Sound

/-- A memory without proxies is sound if there are no files. -/
theorem empty (deviceLimit hostLimit : ℕ) {spill : SpillDirectory}
    (hfiles : spill.volume.files = .empty) :
    Sound [] (Memory.empty (Proxy DeviceArray) deviceLimit hostLimit spill) where
  nextId_eq := rfl
  addressable := by simp
  stands := by
    intro id p hp
    cases hp
  owner_unique := by
    intro id other p q path hp
    cases hp
  owned := by
    intro path data hdata
    simp [Memory.empty, hfiles] at hdata
  exact := Manager.exact_empty deviceLimit hostLimit
  attached := by
    intro tier id htracks
    cases tier <;> cases htracks
  recorded := by
    intro tier id p a htracks
    cases tier <;> cases htracks
  sized := by
    intro size _ tier b n hn
    cases tier <;> cases hn
  isManaged_eq := rfl

theorem exists_origin (h : Sound log m) (hfind : m.proxies.find? id = some (.object p)) :
    ∃ a, origin? log id = some a ∧ Holds m.spill a p.form := by
  obtain ⟨o, a, hp, horigin, hholds⟩ := h.stands hfind
  cases hp
  exact ⟨a, horigin, hholds⟩

theorem holds (h : Sound log m) (hfind : m.proxies.find? id = some (.object p))
    (horigin : origin? log id = some a) : Holds m.spill a p.form := by
  obtain ⟨b, hb, hholds⟩ := h.exists_origin hfind
  rw [horigin, Option.some.injEq] at hb
  exact hb ▸ hholds

/-- Every proxy that exists is the proxy of an array. -/
theorem exists_object (h : Sound log m) (halive : m.isAlive id = true) :
    ∃ p, m.proxies.find? id = some (.object p) := by
  obtain ⟨p, hp⟩ := (Table.contains_iff _ _).1 halive
  obtain ⟨o, -, rfl, -⟩ := h.stands hp
  exact ⟨o, hp⟩

theorem isAlive_of_tracks (h : Sound log m) {tier : Tier} (htracks : m.manager.Tracks tier id) :
    m.isAlive id = true := by
  obtain ⟨p, hp, -⟩ := h.attached htracks
  exact Table.contains_of_find? hp

/-- No proxy has the next number. -/
theorem find?_nextId (h : Sound log m) : m.proxies.find? ⟨m.nextId⟩ = none := by
  rw [Option.eq_none_iff_forall_ne_some]
  intro p hp
  obtain ⟨o, a, -, horigin, -⟩ := h.stands hp
  -- It would be the proxy of an array that comes after the last one.
  have hlt := lt_of_origin? horigin
  rw [h.nextId_eq] at hlt
  exact Nat.lt_irrefl _ hlt

/-- The next file is not there yet. -/
theorem find?_nextPath (h : Sound log m) :
    m.spill.volume.files.find? (m.spill.filePath (m.spill.counter + 1)) = none := by
  rw [Option.eq_none_iff_forall_ne_some]
  intro data hdata
  obtain ⟨id, p, hfind, hpath⟩ := h.owned hdata
  obtain ⟨a, -, hholds⟩ := h.exists_origin hfind
  -- Its owner has a file with a number that has been given out.
  obtain ⟨⟨n, hn, heq⟩, -⟩ := hholds.exists_file hpath
  have hnumber := m.spill.filePath_injective heq
  omega

end Sound

/-! ### Changes that keep a memory sound -/

/-- What a ledger of the device records does not depend on the size of a proxy. -/
theorem records_of_buffers {ledger : Ledger} (hkind : ledger.countsBuffers = true) {size size' : ℕ}
    {buffers : List DeviceBuffer} (h : ledger.Records id ⟨size, buffers⟩) :
    ledger.Records id ⟨size', buffers⟩ := by
  cases ledger with
  | perProxy sizes => cases hkind
  | perBuffer held refs => exact h

/-- What the ledger of another tier records does not depend on the allocations of a proxy. -/
theorem records_of_size {ledger : Ledger} (hkind : ledger.countsBuffers = false) {size : ℕ}
    {buffers buffers' : List DeviceBuffer} (h : ledger.Records id ⟨size, buffers⟩) :
    ledger.Records id ⟨size, buffers'⟩ := by
  cases ledger with
  | perProxy sizes => exact h
  | perBuffer held refs => cases hkind

/-- The ledger of the device counts allocations, and no other does. -/
theorem countsBuffers_iff {P : Type} {m : Memory P} (h : m.manager.Exact) (tier : Tier) :
    (m.manager.registry tier).ledger.countsBuffers = true ↔ tier = .device := by
  rw [(h.registries tier).countsBuffers_iff, h.tier_eq]

theorem countsBuffers_eq_false {P : Type} {m : Memory P} (h : m.manager.Exact) {tier : Tier}
    (htier : tier ≠ .device) : (m.manager.registry tier).ledger.countsBuffers = false := by
  rw [← Bool.not_eq_true, countsBuffers_iff h]
  exact htier

namespace Sound

/-- A file of another proxy is neither given up nor new when one proxy changes its file. -/
theorem file?_ne (h : Sound log m) (hfind : m.proxies.find? id = some (.object p))
    {spill : SpillDirectory} {new : Option Path} (hfiles : m.spill.Rewrites spill p.form.file? new)
    {other : ProxyId} {r : ObjectProxy DeviceArray} (hr : m.proxies.find? other = some (.object r))
    (hother : other ≠ id) {path : Path} (hpath : r.form.file? = some path) :
    p.form.file? ≠ some path ∧ new ≠ some path := by
  have hold : p.form.file? ≠ some path := fun hp => hother (h.owner_unique hr hfind hpath hp)
  refine ⟨hold, fun hnew => ?_⟩
  obtain ⟨b, -, hstands⟩ := h.exists_origin hr
  obtain ⟨-, data, hdata⟩ := hstands.exists_file hpath
  rw [hfiles.fresh path hnew hold] at hdata
  cases hdata

/-- One proxy is replaced, with the files that go with it. It is recorded as it should be if it is
tracked in the tier that its form had, with the size that it had. -/
theorem replace (h : Sound log m) (hfind : m.proxies.find? id = some (.object p))
    (horigin : origin? log id = some a) (hattached : p.isAttached = true → q.isAttached = true)
    {spill : SpillDirectory} (hholds : Holds spill a q.form)
    (hfiles : m.spill.Rewrites spill p.form.file? q.form.file?)
    (hsame : ∀ tier ≠ .device, m.manager.Tracks tier id → tier = q.form.tier →
      tier = p.form.tier ∧ q.size = p.size) :
    Sound log { m with proxies := m.proxies.insert id (.object q), spill } where
  nextId_eq := h.nextId_eq
  addressable := h.addressable
  stands := by
    intro other r hr
    dsimp only at hr
    rw [Table.find?_insert] at hr
    split at hr
    next hother =>
      cases hr
      exact ⟨q, a, rfl, hother ▸ horigin, hholds⟩
    next hother =>
      obtain ⟨o, b, hro, hb, hstands⟩ := h.stands hr
      subst hro
      refine ⟨o, b, rfl, hb, hstands.mono hfiles.root_eq hfiles.runName_eq hfiles.counter_le ?_⟩
      intro path hpath
      obtain ⟨hold, hnew⟩ := h.file?_ne hfind hfiles hr hother hpath
      exact hfiles.find?_eq path hold hnew
  owner_unique := by
    intro other other' r r' path hr hr' hpath hpath'
    dsimp only at hr hr'
    rw [Table.find?_insert] at hr hr'
    split at hr
    next hother =>
      cases hr
      split at hr'
      next hother' => rw [hother, hother']
      next hother' => exact absurd hpath (h.file?_ne hfind hfiles hr' hother' hpath').2
    next hother =>
      split at hr'
      next =>
        cases hr'
        exact absurd hpath' (h.file?_ne hfind hfiles hr hother hpath).2
      next => exact h.owner_unique hr hr' hpath hpath'
  owned := by
    intro path data hdata
    by_cases hnew : q.form.file? = some path
    · exact ⟨id, q, Table.find?_insert_self _ _ _, hnew⟩
    · -- The file was there before, and its owner is not the proxy that changes.
      have hold : p.form.file? ≠ some path := by
        intro hold
        rw [hfiles.gone path hold hnew] at hdata
        cases hdata
      rw [hfiles.find?_eq path hold hnew] at hdata
      obtain ⟨other, r, hr, hpath⟩ := h.owned hdata
      have hother : other ≠ id := by
        rintro rfl
        rw [hfind] at hr
        cases hr
        exact hold hpath
      exact ⟨other, r, (Table.find?_insert_of_ne _ _ hother).trans hr, hpath⟩
  exact := h.exact
  attached := by
    intro tier other htracks
    obtain ⟨r, hr, hr'⟩ := h.attached htracks
    by_cases hother : other = id
    · subst hother
      rw [hfind] at hr
      cases hr
      exact ⟨q, Table.find?_insert_self _ _ _, hattached hr'⟩
    · exact ⟨r, (Table.find?_insert_of_ne _ _ hother).trans hr, hr'⟩
  recorded := by
    intro tier other r b htracks hr hb htier
    dsimp only at htracks hr ⊢
    rw [Table.find?_insert] at hr
    split at hr
    next hother =>
      subst hother
      cases hr
      -- The device has recorded allocations, which are those of the array in any form.
      by_cases hdevice : tier = .device
      · have hkind := (countsBuffers_iff h.exact tier).2 hdevice
        exact records_of_buffers hkind (h.recorded htracks hfind hb (.inl hdevice))
      · obtain ⟨htier', hsize⟩ := hsame tier hdevice htracks (htier.resolve_left hdevice)
        rw [hsize]
        exact h.recorded htracks hfind hb (.inr htier')
    next => exact h.recorded htracks hr hb htier
  sized := h.sized
  isManaged_eq := h.isManaged_eq

/-- The directory changes in everything but its files and what they are called. -/
theorem withSpill (h : Sound log m) {spill : SpillDirectory} (hroot : spill.root = m.spill.root)
    (hrunName : spill.runName = m.spill.runName) (hcounter : m.spill.counter ≤ spill.counter)
    (hfiles : spill.volume.files = m.spill.volume.files) : Sound log { m with spill } where
  nextId_eq := h.nextId_eq
  addressable := h.addressable
  stands := by
    intro other r hr
    obtain ⟨o, b, hro, hb, hholds⟩ := h.stands hr
    exact ⟨o, b, hro, hb, hholds.mono hroot hrunName hcounter fun path _ => by rw [hfiles]⟩
  owner_unique := h.owner_unique
  owned := by
    intro path data hdata
    dsimp only at hdata
    rw [hfiles] at hdata
    exact h.owned hdata
  exact := h.exact
  attached := h.attached
  recorded := h.recorded
  sized := h.sized
  isManaged_eq := h.isManaged_eq

/-- What a proxy reports in its form is recorded in the tier of that form as it should be. -/
theorem records_report (h : Sound log m) (hfind : m.proxies.find? id = some (.object p))
    (horigin : origin? log id = some a) {ledger : Ledger}
    (hkind : ledger.countsBuffers = true ↔ p.form.tier = .device)
    (hrecords : ledger.Records id (Spillable.report (Proxy.object p))) :
    ledger.Records id ⟨p.size, a.deviceBuffers⟩ := by
  by_cases hdevice : p.form.tier = .device
  · rw [← ObjectProxy.deviceBuffers_of_device (h.holds hfind horigin) hdevice]
    exact hrecords
  · refine records_of_size ?_ hrecords
    rwa [← Bool.not_eq_true, hkind]

/-- One proxy is tracked in the tier of its form, wherever it was tracked before. -/
theorem place (h : Sound log m) (hfind : m.proxies.find? id = some (.object p))
    (hattached : p.isAttached = true) {new : Manager} (hexact : new.Exact)
    (hplaced : Manager.Placed m.manager new id (Spillable.report (Proxy.object p)) p.form.tier) :
    Sound log { m with manager := new } where
  nextId_eq := h.nextId_eq
  addressable := h.addressable
  stands := h.stands
  owner_unique := h.owner_unique
  owned := h.owned
  exact := hexact
  attached := by
    intro tier other htracks
    rw [hplaced.tracks_iff] at htracks
    split at htracks
    next hother => exact ⟨p, hother ▸ hfind, hattached⟩
    next => exact h.attached htracks
  recorded := by
    intro tier other r b htracks hr hb htier
    rw [hplaced.tracks_iff] at htracks
    split at htracks
    next hother =>
      subst hother
      subst htracks
      have hpr : some (Proxy.object p) = some (Proxy.object r) := hfind.symm.trans hr
      cases hpr
      -- A proxy that is in the tier already is not recorded anew, and its record is right.
      by_cases hold : m.manager.Tracks p.form.tier other
      · rw [hplaced.records_of_tracks hold]
        exact h.recorded hold hfind hb (.inr rfl)
      · refine h.records_report hfind hb ?_ (hplaced.records hold)
        rw [(hexact.registries _).countsBuffers_iff, hexact.tier_eq]
    next hother =>
      rw [hplaced.records_iff _ _ _ hother]
      exact h.recorded htracks hr hb htier
  sized := by
    intro size hsize
    refine hplaced.sized (h.sized hsize) fun buffer hbuffer => ?_
    obtain ⟨b, hb, hholds⟩ := h.exists_origin hfind
    change buffer ∈ p.deviceBuffers at hbuffer
    by_cases hdevice : p.form.tier = .device
    · rw [ObjectProxy.deviceBuffers_of_device hholds hdevice] at hbuffer
      exact hsize b (mem_of_origin? hb) buffer hbuffer
    · rw [ObjectProxy.deviceBuffers_of_not_device hholds hdevice] at hbuffer
      cases hbuffer
  isManaged_eq := h.isManaged_eq

/-- Some proxies are no longer tracked. -/
theorem without (h : Sound log m) {new : Manager} (hexact : new.Exact) {gone : ProxyId → Prop}
    (hwithout : Manager.Without m.manager new gone) : Sound log { m with manager := new } where
  nextId_eq := h.nextId_eq
  addressable := h.addressable
  stands := h.stands
  owner_unique := h.owner_unique
  owned := h.owned
  exact := hexact
  attached := by
    intro tier other htracks
    exact h.attached ((hwithout.tracks_iff tier other).1 htracks).1
  recorded := by
    intro tier other r b htracks hr hb htier
    obtain ⟨hold, hnot⟩ := (hwithout.tracks_iff tier other).1 htracks
    rw [(hwithout.registries tier).records_iff _ _ hnot]
    exact h.recorded hold hr hb htier
  sized := fun hsize => hwithout.sized (h.sized hsize)
  isManaged_eq := h.isManaged_eq

/-- A proxy is made around one more array. -/
theorem create (h : Sound log m) (ha : a.IsAddressable) (make : Int → Proxy DeviceArray)
    (hmake : ∀ time, ∃ o, make time = .object o ∧ o.form = .live a) :
    Sound (log ++ [a]) (m.create make).2 := by
  obtain ⟨o, ho, hform⟩ := hmake (m.clock + 1)
  have hfind : ∀ other, (m.create make).2.proxies.find? other =
      if other = ⟨m.nextId⟩ then some (.object o) else m.proxies.find? other := by
    intro other
    rw [find?_create, ho]
  -- The new proxy takes the place of none.
  have hold : ∀ {other : ProxyId} {r : Proxy DeviceArray}, m.proxies.find? other = some r →
      other ≠ ⟨m.nextId⟩ := by
    rintro other r hr rfl
    rw [h.find?_nextId] at hr
    cases hr
  refine ⟨by simp [Memory.create, h.nextId_eq], fun b hb => ?_, fun {other r} hr => ?_,
    fun {other other' r r' path} hr hr' hpath hpath' => ?_, fun {path data} hdata => ?_, h.exact,
    fun {tier other} htracks => ?_, fun {tier other r b} htracks hr hb htier => ?_,
    fun {size} hsize => h.sized fun b hb => hsize b (List.mem_append_left _ hb), h.isManaged_eq⟩
  · rcases List.mem_append.1 hb with hb | hb
    · exact h.addressable b hb
    · exact List.mem_singleton.1 hb ▸ ha
  · rw [hfind] at hr
    split at hr
    next hother =>
      cases hr
      refine ⟨o, a, rfl, ?_, hform ▸ .live⟩
      rw [hother, h.nextId_eq]
      exact origin?_length_succ log a
    next =>
      obtain ⟨o', b, hro, hb, hholds⟩ := h.stands hr
      exact ⟨o', b, hro, origin?_append hb _, hholds⟩
  · -- The new proxy is live, so it has no file to share.
    rw [hfind] at hr hr'
    split at hr
    · cases hr
      rw [hform] at hpath
      cases hpath
    · split at hr'
      · cases hr'
        rw [hform] at hpath'
        cases hpath'
      · exact h.owner_unique hr hr' hpath hpath'
  · obtain ⟨other, r, hr, hpath⟩ := h.owned hdata
    exact ⟨other, r, by rw [hfind, if_neg (hold hr), hr], hpath⟩
  · obtain ⟨r, hr, hr'⟩ := h.attached htracks
    exact ⟨r, by rw [hfind, if_neg (hold hr), hr], hr'⟩
  · -- What is tracked existed before, with the array that it has in the longer log.
    obtain ⟨r', hr', -⟩ := h.attached htracks
    rw [hfind, if_neg (hold hr')] at hr
    obtain ⟨b', hb', -⟩ := h.exists_origin hr
    have hbb : some b' = some b := (origin?_append hb' [a]).symm.trans hb
    cases hbb
    exact h.recorded htracks hr hb' htier

/-- A proxy ceases to exist, and its file with it, once it is no longer tracked. -/
theorem erase (h : Sound log m) (hfind : m.proxies.find? id = some (.object p))
    (hnot : ∀ tier, ¬ m.manager.Tracks tier id) :
    Sound log { m with
      proxies := m.proxies.erase id
      spill := { m.spill with volume := m.spill.volume.without p.form.file? } } where
  nextId_eq := h.nextId_eq
  addressable := h.addressable
  stands := by
    intro other r hr
    dsimp only at hr
    rw [Table.find?_erase] at hr
    split at hr
    next => cases hr
    next hother =>
      obtain ⟨o, b, rfl, hb, hholds⟩ := h.stands hr
      refine ⟨o, b, rfl, hb, hholds.mono rfl rfl (Nat.le_refl _) fun path hpath => ?_⟩
      dsimp only
      rw [Volume.find?_without, if_neg]
      exact fun hp => hother (h.owner_unique hr hfind hpath hp)
  owner_unique := by
    intro other other' r r' path hr hr' hpath hpath'
    dsimp only at hr hr'
    rw [Table.find?_erase] at hr hr'
    split at hr
    next => cases hr
    next =>
      split at hr'
      next => cases hr'
      next => exact h.owner_unique hr hr' hpath hpath'
  owned := by
    intro path data hdata
    dsimp only at hdata
    rw [Volume.find?_without] at hdata
    split at hdata
    next => cases hdata
    next hpath =>
      -- A file that is still there belongs to another proxy.
      obtain ⟨other, r, hr, hr'⟩ := h.owned hdata
      refine ⟨other, r, ?_, hr'⟩
      have hother : other ≠ id := by
        rintro rfl
        rw [hfind] at hr
        cases hr
        exact hpath hr'
      exact (Table.find?_erase_of_ne _ hother).trans hr
  exact := h.exact
  attached := by
    intro tier other htracks
    obtain ⟨r, hr, hr'⟩ := h.attached htracks
    have hother : other ≠ id := fun hid => hnot tier (hid ▸ htracks)
    exact ⟨r, (Table.find?_erase_of_ne _ hother).trans hr, hr'⟩
  recorded := by
    intro tier other r b htracks hr hb htier
    have hother : other ≠ id := fun hid => hnot tier (hid ▸ htracks)
    dsimp only at hr
    rw [Table.find?_erase_of_ne _ hother] at hr
    exact h.recorded htracks hr hb htier
  sized := h.sized
  isManaged_eq := h.isManaged_eq

end Sound

end Memory

end TieredStore
