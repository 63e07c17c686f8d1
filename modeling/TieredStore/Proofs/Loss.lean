import TieredStore.Proofs.Files
import TieredStore.Proofs.Memory.Vanishing
import TieredStore.Proofs.Versions

/-!
# Proxies that have lost their files

A spill file is gone once it was to be read, so a proxy whose file could not be read has lost it. No
operation gives the file back: its name is not given out again, and the proxy cannot be taken out of
its form without the file. All that is left to do with such a proxy is to drop it.

* `Memory.Lost`: a proxy is in a form for which it would need a file that is gone.
* `Lost.demoteToHost_ends`, `Lost.object_ends`, `Lost.release_ends`: what can be asked of such a
  proxy.
* `lasting_lost`: no step with proxies finds the file again.
* `Memory.Event`: what may happen to a memory, also from outside.
* `Lost.after`, `Lost.afterAll`: the file stays lost whatever happens, if it is not put back from
  outside.
-/

namespace TieredStore

namespace Memory

variable {T α : Type} [DeviceObject T] {m : Memory (Proxy T)} {id other : ProxyId}
  {disk : DiskHeader}

/-- A proxy is attached, and by its own account its frames are in the file of a header. -/
def IsHeldIn (disk : DiskHeader) (p : ObjectProxy T) : Prop :=
  p.form = .serialized (.disk disk) ∧ p.isAttached = true

/-- A proxy is on disk by what it says of itself, but its file is gone. -/
structure Lost (id : ProxyId) (disk : DiskHeader) (m : Memory (Proxy T)) : Prop where
  /-- The file is gone. -/
  missing : m.spill.volume.files.find? disk.path = none
  /-- Its name was given out. -/
  named : m.spill.HasNamed disk.path
  /-- The number of the proxy was given out. -/
  known : id.raw < m.nextId
  /-- The books are exact. -/
  exact : m.manager.Exact
  /-- The header is that of a spill file. -/
  serializer_eq : disk.serializer = .disk
  /-- The proxy has not got another form. -/
  held : m.HasObject id (IsHeldIn disk)

/-! ### What can be asked of the proxy -/

omit [DeviceObject T] in
/-- A spilled proxy is held by no family of the host. -/
theorem IsHeldIn.not_isHeldBy {p : ObjectProxy T} (h : IsHeldIn disk p)
    (hdisk : disk.serializer = .disk) : ¬ p.IsHeldBy Serializer.hostFamilies := by
  rw [ObjectProxy.isHeldBy_hostFamilies_iff h.1, Payload.serializer, hdisk]
  exact Bool.false_ne_true

/-- The proxy cannot go to the host. -/
theorem Lost.demoteToHost_ends (h : Lost id disk m) :
    Ends (demoteToHost id) m (fun _ _ => False)
      fun e _ => e = .error (.missingFile disk.path.text) := by
  obtain ⟨p, hfind, hheld⟩ := h.held
  rw [demoteToHost, Ends.bind_iff, serialize_iff hfind, Ends,
    ObjectProxy.serialize_of_missing hheld.1 h.missing rfl (hheld.not_isHeldBy h.serializer_eq)]

theorem Lost.revive_ends (h : Lost id disk m) :
    Ends (revive id) m (fun _ _ => False) fun e _ => e = .error (.missingFile disk.path.text) := by
  obtain ⟨p, hfind, hheld⟩ := h.held
  rw [revive_iff hfind, Ends, ObjectProxy.revive_of_missing hheld.1 h.missing]

omit [DeviceObject T] in
/-- Time makes no difference. -/
theorem Lost.tick (h : Lost id disk m) : Lost id disk { m with clock := m.clock + 1 } :=
  ⟨h.missing, h.named, h.known, h.exact, h.serializer_eq, h.held⟩

omit [DeviceObject T] in
/-- Nor do other proxies, as long as the proxy stays in its form. -/
theorem Lost.withProxies (h : Lost id disk m) {proxies : Table ProxyId (Proxy T)}
    {p : ObjectProxy T} (hfind : proxies.find? id = some (.object p)) (hheld : IsHeldIn disk p) :
    Lost id disk { m with proxies } :=
  ⟨h.missing, h.named, h.known, h.exact, h.serializer_eq, p, hfind, hheld⟩

omit [DeviceObject T] in
/-- Nor do other books. -/
theorem Lost.withManager (h : Lost id disk m) {new : Manager} (hexact : new.Exact) :
    Lost id disk { m with manager := new } :=
  ⟨h.missing, h.named, h.known, hexact, h.serializer_eq, h.held⟩

omit [DeviceObject T] in
theorem Lost.accessed (h : Lost id disk m) {p : ObjectProxy T} (hheld : IsHeldIn disk p) :
    Lost id disk (m.accessed id p) :=
  h.tick.withProxies (p := { p with lastAccess := m.clock + 1 }) (find?_put_self _ id _) hheld

/-! ### Steps with proxies -/

/-- What every step preserves is preserved by some of them, too. So it is enough that these leave
the proxy in its form. -/
theorem Lost.of_steps {action : Action (Proxy T) α} (h : Lost id disk m)
    (hsteps : ∀ {inv : Memory (Proxy T) → Prop}, Lasting inv → inv m → Leaves action m inv)
    (hheld : Leaves action m (HasObject id (IsHeldIn disk))) : Leaves action m (Lost id disk) := by
  have hspill := hsteps (lasting_evolves m.spill m.nextId) ⟨.refl _, Nat.le_refl _⟩
  have hexact := hsteps lasting_exact h.exact
  have hall : ∀ m' : Memory (Proxy T),
      ((m.spill.Evolves m'.spill ∧ m.nextId ≤ m'.nextId) ∧ m'.manager.Exact) ∧
        m'.HasObject id (IsHeldIn disk) → Lost id disk m' := by
    rintro m' ⟨⟨⟨hevolves, hnumber⟩, hexact⟩, hheld⟩
    refine ⟨?_, hevolves.hasNamed h.named, h.known.trans_le hnumber, hexact, h.serializer_eq, hheld⟩
    rcases hevolves.find?_of_hasNamed h.named with hsame | hnone
    · exact hsame.trans h.missing
    · exact hnone
  exact ((hspill.and hexact).and hheld).mono (fun _ => hall) fun _ => hall

theorem lastingAt_lost_elsewhere (hother : other ≠ id) (disk : DiskHeader) :
    LastingAt other (Lost (T := T) id disk) := by
  have helse := hasObject_elsewhere (T := T) hother (IsHeldIn disk)
  exact {
    touch := fun time h => h.of_steps (fun hinv => hinv.touch other time) (helse.touch time h.held)
    serialize := fun tags h =>
      h.of_steps (fun hinv => hinv.serialize other tags) (helse.serialize tags h.held)
    revive := fun h => h.of_steps (fun hinv => hinv.revive other) (helse.revive h.held)
    addToTier := fun tier h =>
      h.of_steps (fun hinv => hinv.addToTier other tier) (helse.addToTier tier h.held)
    spillFrames := fun compress h hfind hsnapshot =>
      h.of_steps (fun hinv hm => hinv.spillFrames compress hm hfind hsnapshot)
        (helse.spillFrames compress h.held hfind hsnapshot) }

/-- Without the file there is no other form for the proxy. -/
theorem lastingAt_lost_self (id : ProxyId) (disk : DiskHeader) :
    LastingAt id (Lost (T := T) id disk) where
  touch time h := by
    obtain ⟨p, hfind, hheld⟩ := h.held
    refine h.of_steps (fun hinv => hinv.touch id time) (proxy_leaves h.held fun r hr => ?_)
    cases hfind.symm.trans hr
    exact ⟨_, Table.find?_insert_self _ _ _, hheld⟩
  serialize tags h := by
    obtain ⟨p, hfind, hheld⟩ := h.held
    refine h.of_steps (fun hinv => hinv.serialize id tags) (serialize_of_leaves hfind ?_)
    cases htarget : tags.find? Serializer.isHost with
    | none =>
      rw [Leaves, Ends, ObjectProxy.serialize_of_noHost htarget]
      exact hheld
    | some target =>
      by_cases hby : p.IsHeldBy tags
      · rw [Leaves, Ends, ObjectProxy.serialize_of_held htarget hby]
        exact hheld
      · rw [Leaves, Ends, ObjectProxy.serialize_of_missing hheld.1 h.missing htarget hby]
        exact hheld
  revive h := by
    obtain ⟨p, hfind, hheld⟩ := h.held
    refine h.of_steps (fun hinv => hinv.revive id) ?_
    rw [Leaves, revive_iff hfind, Ends, ObjectProxy.revive_of_missing hheld.1 h.missing]
    exact ⟨p, Table.find?_insert_self _ _ _, hheld⟩
  addToTier tier h := h.of_steps (fun hinv => hinv.addToTier id tier)
    (addToTier_keeps h.held id tier)
  spillFrames compress h hfind hsnapshot := by
    -- What it shows is a spill file, and no frames.
    obtain ⟨p, hp, hheld⟩ := h.held
    cases hp.symm.trans hfind
    rw [snapshot?_object, ObjectProxy.payload?, hheld.1] at hsnapshot
    cases hsnapshot

/-- Whatever is done with proxies, a file that was lost stays lost. -/
theorem lasting_lost (id : ProxyId) (disk : DiskHeader) : Lasting (Lost (T := T) id disk) :=
  .of_lastingAt Lost.tick fun other => by
    by_cases hother : other = id
    · exact hother ▸ lastingAt_lost_self id disk
    · exact lastingAt_lost_elsewhere hother disk

/-- The object of the proxy cannot be had. Before that is found out room is made for it, so there
may be another reason. -/
theorem Lost.object_ends (h : Lost id disk m) :
    Ends (object id) m (fun _ _ => False) fun e m' =>
      e = .error (.missingFile disk.path.text) ∨
        ∃ p, m.proxies.find? id = some (.object p) ∧
          enforceLimits disk.subHeader.nbytes (m.accessed id p) = .error e m' := by
  obtain ⟨p, hfind, hheld⟩ := h.held
  cases hmanaged : (p.isAttached && m.isManaged) with
  | true =>
    rw [object_managed_iff hfind hheld.1 hmanaged]
    refine Ends.of_forall (fun _ t hroom => ?_) fun e t hfail => .inr ⟨p, hfind, hfail⟩
    have ht : Lost id disk t :=
      ((lasting_lost id disk).enforceLimits _ (h.accessed hheld)).of_ok hroom
    exact ht.revive_ends.mono (fun _ _ => False.elim) fun _ _ => .inl
  | false =>
    rw [object_unmanaged_iff hfind hheld.1 hmanaged]
    exact (h.accessed hheld).revive_ends.mono_bad fun _ _ => .inl

/-- The proxy can be dropped, and is not tracked any more. -/
theorem Lost.release_ends (h : Lost id disk m) (hmanaged : m.isManaged = true) :
    Ends (release id) m
      (fun _ m' => m'.proxies.find? id = none ∧ ∀ tier, ¬ m'.manager.Tracks tier id) Never := by
  obtain ⟨p, hfind, hheld⟩ := h.held
  obtain ⟨new, hnew, -, hwithout⟩ := Manager.exact_forget h.exact id
  have hattached : (Spillable.isAttached (Proxy.object p) && m.isManaged) = true := by
    rw [hmanaged, Bool.and_true]
    exact hheld.2
  rw [release, Ends.bind_iff, Ends.get_iff]
  simp only [hfind, Ends.bind_iff, Ends.modify_iff, Ends.get_iff, hattached, if_true]
  rw [onManager_iff_of_ok hnew]
  exact ⟨Table.find?_erase_self _ _, fun tier htracks =>
    ((hwithout.tracks_iff tier id).1 htracks).2 rfl⟩

/-! ### Events -/

/-- What may happen to a memory. -/
inductive Event (T : Type) where
  /-- A call that may replace payloads. -/
  | call (c : Call)
  /-- Moves proxies from the device to the host, for a number of bytes. -/
  | evictFromDevice (nbytes : ℕ)
  /-- Moves proxies from the host to disk, for a number of bytes. -/
  | evictFromHost (nbytes : ℕ)
  /-- Makes a new proxy, from the current time. -/
  | create (make : Int → Proxy T)
  /-- Sets the time of the latest access to a proxy, to any time. -/
  | touch (id : ProxyId) (time : Int)
  /-- Attaches a proxy to the manager. -/
  | attach (id : ProxyId)
  /-- Tracks a proxy in a tier. -/
  | addToTier (id : ProxyId) (tier : Tier)
  /-- Stops tracking a proxy. -/
  | untrack (id : ProxyId)
  /-- Checks the books, once they are rid of proxies that no longer exist. -/
  | validate
  /-- Drops a proxy. -/
  | release (id : ProxyId)
  /-- Does away with the manager. -/
  | leave
  /-- Changes the directory and its files from outside. -/
  | disturb (volume : Volume)

namespace Event

/-- What happens. -/
def run : Event T → Action (Proxy T) Unit
  | call c => c.run
  | evictFromDevice nbytes => do
    let m ← get
    let _ ← evict nbytes (m.units .device) Memory.demoteToHost
  | evictFromHost nbytes => do
    let m ← get
    let _ ← evict nbytes (m.units .host) Memory.demoteToDisk
  | create make => do let _ ← modifyGet (Memory.create make)
  | touch id time => Memory.touch id time
  | attach id => Memory.attach id
  | addToTier id tier => Memory.addToTier id tier
  | untrack id => onManager fun books => books.remove id
  | validate => Memory.validate
  | release id => Memory.release id
  | leave => modify fun m => { m with isManaged := false }
  | disturb volume => modify fun m => { m with spill := { m.spill with volume } }

/-- The memory after an event, whether or not it succeeds. -/
def after (event : Event T) (m : Memory (Proxy T)) : Memory (Proxy T) := stateAfter event.run m

/-- An event neither puts a file back from outside, nor ends a proxy or installs a payload in it. -/
def Spares (id : ProxyId) (path : Path) (m : Memory (Proxy T)) : Event T → Prop
  | call (.replace other version _) =>
    other = id → ∀ p, m.proxies.find? id = some (.object p) → p.version ≠ version
  | release other => other ≠ id
  | disturb volume => volume.files.find? path = none
  | _ => True

/-- The memory after several events. -/
def afterAll (events : List (Event T)) (m : Memory (Proxy T)) : Memory (Proxy T) :=
  events.foldl (fun m event => event.after m) m

/-- None of several events puts a file back, ends a proxy or installs a payload in it. -/
def AllSpare (id : ProxyId) (path : Path) : List (Event T) → Memory (Proxy T) → Prop
  | [], _ => True
  | event :: events, m => event.Spares id path m ∧ AllSpare id path events (event.after m)

end Event

/-- Looking at a proxy in a check of the books changes nothing. -/
theorem validateProxy_leaves {P : Type} [Spillable P] {m : Memory P} {inv : Memory P → Prop}
    (hm : inv m) (tier : Tier) (id : ProxyId) (p : P) : Leaves (validateProxy tier id p) m inv := by
  have hask : Leaves (ask fun books => books.locate id) m (· = m) := by
    rw [ask, Leaves, Ends.bind_iff, Ends.get_iff]
    split <;> rfl
  rw [validateProxy, Leaves, Ends.bind_iff]
  refine hask.mono ?_ fun _ _ heq => heq ▸ hm
  rintro - m' rfl
  dsimp only
  split
  · exact hm
  · split
    · exact hm
    · split <;> exact hm

/-- The books lose entries in a check, but they stay exact. -/
theorem Lost.validate (h : Lost id disk m) : Leaves (validate (P := Proxy T)) m (Lost id disk) := by
  rw [Memory.validate, Leaves, Ends.bind_iff, prune, Ends.modifyGet_iff, Ends.bind_iff,
    Ends.get_iff]
  refine Leaves.forM _ (fun tier _ t ht => Leaves.forM _
    (fun r _ u hu => validateProxy_leaves hu tier r.1 r.2) ht) ?_
  exact h.withManager (Manager.exact_prune h.exact m.isAlive).1

/-- Another proxy goes with its own file at most. -/
theorem Lost.release_elsewhere (h : Lost id disk m) (hother : other ≠ id) :
    Leaves (release other) m (Lost id disk) := by
  rw [release, Leaves, Ends.bind_iff, Ends.get_iff]
  split
  next => exact h
  next r hr =>
    obtain ⟨p, hfind, hheld⟩ := h.held
    have hfind' := (Table.find?_erase_of_ne m.proxies (Ne.symm hother)).trans hfind
    -- Another file may go, and that leaves this one lost.
    have hgone : ∀ path? : Option Path,
        Lost id disk { m with
          proxies := m.proxies.erase other
          spill := { m.spill with volume := m.spill.volume.without path? } } := fun path? => by
      refine ⟨?_, h.named, h.known, h.exact, h.serializer_eq, p, hfind', hheld⟩
      rw [Volume.find?_without, h.missing, ite_self]
    have hend : ∀ {n : Memory (Proxy T)}, Lost id disk n →
        Leaves (if Spillable.isAttached r && n.isManaged then
          onManager fun books => books.forget other else pure ()) n (Lost id disk) := fun hn => by
      split
      · obtain ⟨new, hnew, hexact, -⟩ := Manager.exact_forget hn.exact other
        exact (onManager_iff_of_ok hnew).2 (hn.withManager hexact)
      · exact hn
    rw [Ends.bind_iff, Ends.modify_iff, Ends.bind_iff, Ends.get_iff]
    refine hend ?_
    cases hpath : Spillable.ownedFile? r with
    | none => exact hgone none
    | some path => exact hgone (some path)

/-- A file that was lost stays lost, unless it is put back from outside. -/
theorem Lost.after (h : Lost id disk m) {event : Event T} (hspares : event.Spares id disk.path m) :
    Lost id disk (event.after m) := by
  refine Leaves.stateAfter ?_
  have hlasting := lasting_lost (T := T) id disk
  cases event with
  | call c =>
    cases c with
    | object other => exact (hlasting.object other h).map
    | serialize other tags => exact hlasting.serialize other tags h
    | replace other version payload =>
      obtain ⟨p, hfind, hheld⟩ := h.held
      refine Leaves.map ?_
      by_cases hother : other = id
      · -- The version is not that of the proxy, so nothing is installed.
        subst hother
        rw [Leaves, Ends, replace_of_ne_version hfind (hspares rfl p hfind)]
        exact h.withProxies (find?_put_self m other p) hheld
      · refine proxy_leaves h fun r _ => h.withProxies ?_ hheld
        exact (Table.find?_insert_of_ne _ _ (Ne.symm hother)).trans hfind
    | demoteToHost other => exact hlasting.demoteToHost other h
    | demoteToDisk other => exact hlasting.demoteToDisk other h
    | enforceLimits extra => exact hlasting.enforceLimits extra h
  | evictFromDevice nbytes =>
    rw [Event.run, Leaves, Ends.bind_iff, Ends.get_iff]
    exact (hlasting.evictToHost nbytes _ h).map
  | evictFromHost nbytes =>
    rw [Event.run, Leaves, Ends.bind_iff, Ends.get_iff]
    exact (hlasting.evictToDisk nbytes _ h).map
  | create make =>
    obtain ⟨p, hfind, hheld⟩ := h.held
    -- The proxy has another number than the next one.
    have hother : id ≠ ⟨m.nextId⟩ := by
      rintro rfl
      exact lt_irrefl _ h.known
    have hcreated : Lost id disk (Memory.create make m).2 :=
      ⟨h.missing, h.named, h.known.trans (Nat.lt_succ_self _), h.exact, h.serializer_eq, p,
        (Table.find?_insert_of_ne _ _ hother).trans hfind, hheld⟩
    exact Leaves.map (x := (modifyGet (Memory.create make) : Action (Proxy T) ProxyId)) hcreated
  | touch other time => exact hlasting.touch other time h
  | attach other =>
    obtain ⟨p, hfind, hheld⟩ := h.held
    refine proxy_leaves h fun r hr => ?_
    by_cases hother : other = id
    · subst hother
      cases hfind.symm.trans hr
      exact h.withProxies (p := { p with isAttached := true }) (Table.find?_insert_self _ _ _)
        ⟨hheld.1, rfl⟩
    · exact h.withProxies ((Table.find?_insert_of_ne _ _ (Ne.symm hother)).trans hfind) hheld
  | addToTier other tier => exact hlasting.addToTier other tier h
  | untrack other =>
    by_cases hsome : ∃ tier, m.manager.Tracks tier other
    · obtain ⟨tier, htracks⟩ := hsome
      obtain ⟨new, hnew, hexact, -⟩ := Manager.exact_remove h.exact htracks
      rw [Event.run, Leaves, onManager_iff_of_ok hnew]
      exact h.withManager hexact
    · simp only [Event.run, Leaves, Ends, onManager,
        Manager.remove_of_not_tracks (not_exists.1 hsome)]
      exact h
  | validate => exact h.validate
  | release other => exact h.release_elsewhere hspares
  | leave => exact ⟨h.missing, h.named, h.known, h.exact, h.serializer_eq, h.held⟩
  | disturb volume => exact ⟨hspares, h.named, h.known, h.exact, h.serializer_eq, h.held⟩

theorem Lost.afterAll (h : Lost id disk m) {events : List (Event T)}
    (hspare : Event.AllSpare id disk.path events m) : Lost id disk (Event.afterAll events m) := by
  induction events generalizing m with
  | nil => exact h
  | cons event events ih =>
    obtain ⟨hfirst, hothers⟩ := hspare
    exact ih (h.after hfirst) hothers

end Memory

end TieredStore
