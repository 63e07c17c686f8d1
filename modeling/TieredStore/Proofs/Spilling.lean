import TieredStore.Proofs.Accounting
import TieredStore.Proofs.Files
import TieredStore.Proofs.Relief

/-!
# From the host to disk

What leaves the host arrives on disk, byte for byte: frames of the host are written as they are, and
a file adds a word for their number and one for the length of each. Every victim has one new file,
and the device has no part in it.

* `tracks_of_mem_planned`, `SettledIn.enforceHostLimit_transfers`: the victims, and what they count.
* `Memory.NewFiles`: a file for each of some proxies, and no other new ones.
* `hostEviction_conserves`: the tallies, files and proxies after an eviction from the host.
-/

namespace TieredStore

namespace Memory

section

variable {T : Type} [DeviceObject T] {m m' : Memory (Proxy T)} {id : ProxyId} {tier : Tier}
  {surplus : ℕ}

/-- What has to leave a tier is tracked there. -/
theorem tracks_of_mem_planned (hid : id ∈ planned (m.units tier) surplus) :
    m.manager.Tracks tier id := by
  rw [planned] at hid
  split at hid
  next => cases hid
  next => exact tracks_of_mem_victims hid

theorem nodup_planned (units : List EvictionUnit) (surplus : ℕ) :
    (planned units surplus).Nodup := by
  rw [planned]
  split
  next => exact List.nodup_nil
  next => exact EvictionPlan.nodup_victims units surplus

/-- The proxies that have to leave the host are on disk, and their sizes are what is reported. -/
theorem SettledIn.enforceHostLimit_transfers (h : m.SettledIn .host) (hexact : m.manager.Exact)
    (extra : ℕ) :
    Ends (enforceHostLimit extra) m
      (fun freed m' =>
        Transferred ObjectProxy.ToDisk m m' (planned (m.units .host)
          (excess (m.manager.usage .host) extra m.manager.hostLimit)) .disk ∧
        freed = ∑ id ∈ (planned (m.units .host)
          (excess (m.manager.usage .host) extra m.manager.hostLimit)).toFinset,
            (m.proxies.find? id).elim 0 Spillable.size)
      (fun _ _ => True) := by
  rw [enforceHostLimit, Ends.bind_iff, Ends.get_iff, planned]
  split
  next hzero =>
    rw [if_pos hzero]
    exact ⟨.refl hexact .disk, rfl⟩
  next hsurplus =>
    rw [if_neg hsurplus]
    refine (h.evictToDisk_transfers hexact _).mono_ok ?_
    rintro freed m' ⟨rfl, htransferred⟩
    exact ⟨htransferred, freed_eq_sum_victims hexact .host _⟩

end

section

variable {log : List DeviceArray} {m m' : Memory (Proxy DeviceArray)} {id : ProxyId}
  {ids : List ProxyId}

/-- Each of some proxies has a file of its own that was not there before. Those that were there stay
as they are, and there are no others. -/
structure NewFiles (m m' : Memory (Proxy DeviceArray)) (ids : List ProxyId) : Prop where
  /-- Each proxy has a new file, which is as long as its header says. -/
  fresh : ∀ id ∈ ids, ∃ header data, m'.OnDisk id header ∧
    m.spill.volume.files.find? header.path = none ∧
    m'.spill.volume.files.find? header.path = some data ∧ data.length = header.size
  /-- No two of them have the same. -/
  unique : ∀ id ∈ ids, ∀ other ∈ ids, ∀ header header', m'.OnDisk id header →
    m'.OnDisk other header' → header.path = header'.path → id = other
  /-- A file that was there stays as it is. -/
  kept : ∀ path data, m.spill.volume.files.find? path = some data →
    m'.spill.volume.files.find? path = some data
  /-- A file was there before, or it is that of one of the proxies. -/
  only : ∀ path, m'.spill.volume.files.contains path = true →
    m.spill.volume.files.contains path = true ∨
      ∃ id ∈ ids, ∃ header, m'.OnDisk id header ∧ header.path = path

/-- Proxies of the host that are on disk now have one new file each. -/
theorem newFiles_of_relocated (h : Sound log m) (h' : Sound log m')
    (hrelocated : Relocated m m' ids .disk)
    (hhost : ∀ id ∈ ids, ∃ p, m.proxies.find? id = some (.object p) ∧ p.form.tier = .host) :
    NewFiles m m' ids := by
  have hondisk : ∀ id ∈ ids, ∃ header, m'.OnDisk id header := by
    intro id hid
    obtain ⟨p, hfind, -⟩ := hhost id hid
    obtain ⟨q, hfind', htier, -⟩ := hrelocated.find?_of_mem id hid p hfind
    obtain ⟨a, -, hholds⟩ := h'.exists_origin hfind'
    obtain ⟨header, hform⟩ := hholds.tier_eq_disk_iff.1 htier
    exact ⟨header, q, hfind', hform⟩
  -- None of the proxies had a file before, so those that had one have it still.
  have hnone : ∀ id ∈ ids, ∀ header, ¬ m.OnDisk id header := by
    rintro id hid header ⟨p, hfind, hform⟩
    obtain ⟨q, hq, htier⟩ := hhost id hid
    rw [hfind] at hq
    cases hq
    obtain ⟨a, -, hholds⟩ := h.exists_origin hfind
    rw [hholds.tier_eq_disk_iff.2 ⟨header, hform⟩] at htier
    cases htier
  have hstays : ∀ {id header}, m.OnDisk id header → m'.OnDisk id header ∧ id ∉ ids := by
    rintro id header ⟨p, hfind, hform⟩
    have hid : id ∉ ids := fun hmem => hnone id hmem header ⟨p, hfind, hform⟩
    exact ⟨⟨p, (hrelocated.find?_eq id hid).trans hfind, hform⟩, hid⟩
  refine ⟨fun id hid => ?_, fun id _ other _ header header' => h'.onDisk_unique,
    fun path data hdata => ?_, fun path hpath => ?_⟩
  · obtain ⟨header, hheader⟩ := hondisk id hid
    obtain ⟨-, data, hdata, hlength⟩ := h'.file_of_onDisk hheader
    refine ⟨header, data, hheader, ?_, hdata, hlength⟩
    rw [← Table.contains_eq_false_iff, ← Bool.not_eq_true, h.contains_iff_onDisk]
    rintro ⟨other, header', hold, hpath⟩
    -- A proxy that had this file before would have it together with the victim.
    obtain ⟨hother, hnot⟩ := hstays hold
    exact hnot (h'.onDisk_unique hother hheader hpath ▸ hid)
  · obtain ⟨id, header, hold, rfl⟩ := (h.contains_iff_onDisk path).1 (Table.contains_of_find? hdata)
    obtain ⟨-, data', hdata', -⟩ := h'.file_of_onDisk (hstays hold).1
    have hsame := hrelocated.evolves.find?_of_hasNamed (h.file_of_onDisk hold).1
    rw [hdata', hdata] at hsame
    rcases hsame with hsame | hgone
    · rw [hdata', hsame]
    · cases hgone
  · obtain ⟨id, header, hheader, rfl⟩ := (h'.contains_iff_onDisk path).1 hpath
    by_cases hid : id ∈ ids
    · exact .inr ⟨id, hid, header, hheader, rfl⟩
    · left
      obtain ⟨p, hfind, hform⟩ := hheader
      rw [hrelocated.find?_eq id hid] at hfind
      exact (h.contains_iff_onDisk _).2 ⟨id, header, ⟨p, hfind, hform⟩, rfl⟩

/-- A victim from the host has the frames in its file that it had in memory. A file takes a word for
their number and one for each length on top of the frames. -/
theorem Transferred.size_of_toDisk (h : Sound log m)
    (htransferred : Transferred ObjectProxy.ToDisk m m' ids .disk) (hid : id ∈ ids)
    (hhost : ∃ p, m.proxies.find? id = some (.object p) ∧ p.form.tier = .host) :
    (m'.proxies.find? id).elim 0 Spillable.size =
      (m.proxies.find? id).elim 0 Spillable.size + 8 * ((m.hostFrames id).length + 1) := by
  obtain ⟨p, q, hp, hq, hmoved, -⟩ := htransferred.changed id hid
  obtain ⟨r, hr, htier⟩ := hhost
  rw [hp] at hr
  cases hr
  rcases hmoved with ⟨header, content, disk, hform, -, hsize, rfl⟩ | ⟨⟨disk, hform⟩, -⟩
  · have hold : p.size = (content.map List.length).sum := by
      rw [ObjectProxy.size, hform]
      rfl
    have hnew : (p.setForm (.serialized (.disk disk))).size =
        8 * (content.length + 1) + (content.map List.length).sum :=
      hsize.trans (Container.length_pack content)
    rw [hp, hq, hostFrames_eq hp hform]
    show (p.setForm (.serialized (.disk disk))).size = p.size + _
    omega
  · -- What is in a file already is not on the host.
    obtain ⟨a, -, hholds⟩ := h.exists_origin hp
    rw [hholds.tier_eq_disk_iff.2 ⟨disk, hform⟩] at htier
    cases htier

end

end Memory

namespace Store

variable {log : List DeviceArray} {s : Store DeviceArray} {settings : Settings}
  {allowed : Store DeviceArray → Op → Prop} {extra freed : ℕ} {m' : Memory (Proxy DeviceArray)}

/-- An eviction from the host is exact after every run. The host has what is reported less, and the
disk has it more, with a word for each frame that was moved and one more for each file. Every victim
has a new file, no other file is new, and none that was there has changed. The device has no part in
it: its tally and the proxies there are what they were. The same proxies are tracked as before, and
those that were not victims are as they were and where they were. -/
theorem hostEviction_conserves (h : Run settings allowed log s)
    (hrun : Memory.enforceHostLimit extra s.memory = .ok freed m') :
    m'.manager.usage .host + freed = s.memory.manager.usage .host ∧
      m'.manager.usage .disk = s.memory.manager.usage .disk + freed +
        ((s.memory.hostVictims extra).map fun id =>
          8 * ((s.memory.hostFrames id).length + 1)).sum ∧
      s.memory.NewFiles m' (s.memory.hostVictims extra) ∧
      m'.manager.usage .device = s.memory.manager.usage .device ∧
      (∀ id, (m'.manager.Tracks .device id ↔ s.memory.manager.Tracks .device id) ∧
        (s.memory.manager.Tracks .device id →
          m'.proxies.find? id = s.memory.proxies.find? id)) ∧
      (∀ id ∈ s.memory.hostVictims extra,
        s.memory.manager.Tracks .host id ∧ m'.manager.Tracks .disk id) ∧
      (∀ id, (∃ t, m'.manager.Tracks t id) ↔ ∃ t, s.memory.manager.Tracks t id) ∧
      ∀ id, id ∉ s.memory.hostVictims extra →
        m'.proxies.find? id = s.memory.proxies.find? id ∧
          ∀ t, m'.manager.Tracks t id ↔ s.memory.manager.Tracks t id := by
  have hmemory := h.coherent.memory
  have hhost := hmemory.settledIn (show Tier.host ≠ .device by decide)
  have hdisk := hmemory.settledIn (show Tier.disk ≠ .device by decide)
  obtain ⟨⟨hsound, hrelocated⟩, htransferred, hfreed⟩ :=
    ((Memory.enforceHostLimit_ends hmemory extra).and
      (hhost.enforceHostLimit_transfers hmemory.exact extra)).of_ok hrun
  change Memory.Transferred _ _ _ (s.memory.hostVictims extra) _ at htransferred
  change freed = ∑ id ∈ (s.memory.hostVictims extra).toFinset, _ at hfreed
  have hnodup : (s.memory.hostVictims extra).Nodup := Memory.nodup_planned _ _
  have htracks : ∀ id ∈ s.memory.hostVictims extra, s.memory.manager.Tracks .host id :=
    fun _ => Memory.tracks_of_mem_planned
  have hframes : ∀ id ∈ s.memory.hostVictims extra,
      ∃ p, s.memory.proxies.find? id = some (.object p) ∧ p.form.tier = .host := by
    intro id hid
    obtain ⟨p, hfind, -, htier, -⟩ := hhost.exists_object (htracks id hid)
    exact ⟨p, hfind, htier⟩
  -- A victim is tracked on the host, and so nowhere else.
  have hnot : ∀ t, t ≠ .host → ∀ id ∈ s.memory.hostVictims extra, ¬ s.memory.manager.Tracks t id :=
    fun t ht id hid => hmemory.exact.not_tracks (htracks id hid) ht
  have hdevice : ∀ id, s.memory.manager.Tracks .device id → id ∉ s.memory.hostVictims extra :=
    fun id hid hvictim => hnot .device (by decide) id hvictim hid
  refine ⟨?_, ?_, Memory.newFiles_of_relocated hmemory.toSound hsound hrelocated hframes, ?_,
    fun id => ⟨?_, fun hid => htransferred.find?_eq id (hdevice id hid)⟩,
    fun id hid => ⟨htracks id hid, ?_⟩, fun id => ?_, fun id hid =>
      ⟨htransferred.find?_eq id hid, htransferred.tracks_iff_of_not_mem hid⟩⟩
  · rw [hfreed]
    exact htransferred.usage_source hmemory.exact hhost.recorded (by decide) (by decide) htracks
  · rw [hfreed,
      htransferred.usage_target hmemory.exact hdisk.recorded (by decide) (hnot .disk (by decide)),
      Nat.add_assoc, ← List.sum_toFinset _ hnodup]
    refine congrArg (s.memory.manager.usage .disk + ·) ?_
    -- A victim has the words of its file more than it had on the host.
    rw [← Finset.sum_add_distrib]
    refine Finset.sum_congr rfl fun id hid => ?_
    have hvictim := List.mem_toFinset.1 hid
    exact htransferred.size_of_toDisk hmemory.toSound hvictim (hframes id hvictim)
  · -- No victim comes from the device or goes there.
    rw [Manager.usage, htransferred.registry_eq .device (by decide) (hnot .device (by decide))]
    rfl
  · rw [htransferred.tracks_iff]
    split
    next hid => exact iff_of_false (by decide) (hnot .device (by decide) id hid)
    next => rfl
  · rw [htransferred.tracks_iff, if_pos hid]
  · by_cases hid : id ∈ s.memory.hostVictims extra
    · refine iff_of_true ⟨.disk, ?_⟩ ⟨.host, htracks id hid⟩
      rw [htransferred.tracks_iff, if_pos hid]
    · exact exists_congr (htransferred.tracks_iff_of_not_mem hid)

/-- The array of a store has two frames of twenty bytes in all on the host, and a file of forty-four
once the host has to make room. -/
theorem hostEviction_conserves_array :
    ∃ freed m', Memory.enforceHostLimit 90 hostStore.memory = .ok freed m' ∧
      m'.manager.usage .host + freed = 20 ∧ m'.manager.usage .disk = freed + 24 ∧
      hostStore.memory.NewFiles m' [⟨1⟩] := by
  have hvictims : hostStore.memory.hostVictims 90 = [⟨1⟩] := by decide +kernel
  obtain ⟨freed, m', hrun, -⟩ :=
    (Memory.enforceHostLimit_ends run_hostStore.coherent.memory 90).exists_ok
      fun _ _ hrefused => hrefused.2 run_hostStore.writable
  obtain ⟨hhost, hdisk, hfiles, -⟩ := hostEviction_conserves run_hostStore hrun
  rw [hvictims] at hdisk hfiles
  refine ⟨freed, m', hrun, hhost.trans rfl, hdisk.trans ?_, hfiles⟩
  show 0 + freed + 24 = freed + 24
  omega

end Store

end TieredStore
