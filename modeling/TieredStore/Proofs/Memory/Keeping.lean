import Mathlib.Logic.Relation
import TieredStore.Proofs.Memory.Operations
import TieredStore.Proofs.Memory.Vanishing
import TieredStore.Proofs.Versions

/-!
# Proxies keep what they hold

A proxy that holds an array holds it in whatever form it takes, as long as no other proxy has its
file and no file is given a name that was used before. Nothing else has to be known of the memory:
other proxies may be broken, the books may be wrong, and the manager may be gone.

* `SpillDirectory.ChangesOnly`: one file may have changed among those that were there.
* `Proxy.Carries`: a proxy takes another form and holds what it held.
* `Memory.Holding`, `Memory.Keeps`: some proxies hold some arrays, and go on to.
* `Memory.lasting_keeps`: this lasts, whatever is done with proxies.
* `Keeps.object_ends`, `Keeps.object_detached`: access to what a proxy holds.
* `Memory.Asked`, `Keeps.unwrap_ends`: values are unwrapped as long as accesses succeed.
-/

namespace TieredStore

namespace Volume

/-- Removing a file leaves the others alone. -/
theorem remove_elsewhere (v : Volume) (path : Path) :
    Leaves (remove path) v fun w =>
      ∀ other, other ≠ path → w.files.find? other = v.files.find? other := by
  rw [Leaves, Ends, remove]
  cases v.contains path with
  | true => exact fun other hother => Table.find?_erase_of_ne _ hother
  | false => exact fun other _ => rfl

end Volume

namespace SpillDirectory

variable {d d' : SpillDirectory}

/-- Of the files whose numbers have been given out only one may have changed. -/
structure ChangesOnly (d d' : SpillDirectory) (path? : Option Path) : Prop where
  /-- The directory stays where it is. -/
  root_eq : d'.root = d.root
  /-- The names start as they did. -/
  runName_eq : d'.runName = d.runName
  /-- Numbers are not given out again. -/
  counter_le : d.counter ≤ d'.counter
  /-- The other files stay as they are. -/
  find?_eq : ∀ n ≤ d.counter, path? ≠ some (d.filePath n) →
    d'.volume.files.find? (d.filePath n) = d.volume.files.find? (d.filePath n)

theorem ChangesOnly.refl (d : SpillDirectory) (path? : Option Path) : ChangesOnly d d path? :=
  ⟨rfl, rfl, Nat.le_refl _, fun _ _ _ => rfl⟩

/-- A file may have gone. -/
theorem ChangesOnly.of_sameFiles {path? : Option Path} {w : Volume}
    (h : (d.volume.without path?).SameFiles w) : ChangesOnly d { d with volume := w } path? where
  root_eq := rfl
  runName_eq := rfl
  counter_le := Nat.le_refl _
  find?_eq n _ hother := by
    show w.files.find? _ = _
    rw [h, Volume.find?_without, if_neg hother]

/-- A number is used up, and the file of that number may be there or not. -/
theorem ChangesOnly.next {w : Volume}
    (h : ∀ path, path ≠ d.filePath (d.counter + 1) →
      w.files.find? path = d.volume.files.find? path) (path? : Option Path) :
    ChangesOnly d { d with counter := d.counter + 1, volume := w } path? where
  root_eq := rfl
  runName_eq := rfl
  counter_le := Nat.le_succ _
  find?_eq n hn _ := by
    apply h
    intro hsame
    have := d.filePath_injective hsame
    omega

/-- No file has changed. -/
theorem ChangesOnly.of_none (h : ChangesOnly d d' none) (path? : Option Path) :
    ChangesOnly d d' path? :=
  ⟨h.root_eq, h.runName_eq, h.counter_le, fun n hn _ =>
    h.find?_eq n hn (Option.some_ne_none _).symm⟩

theorem ChangesOnly.filePath_eq {path? : Option Path} (h : ChangesOnly d d' path?) (n : ℕ) :
    d'.filePath n = d.filePath n := by
  rw [filePath, filePath, stem, stem, h.root_eq, h.runName_eq]

end SpillDirectory

namespace Proxy

variable {d d' : SpillDirectory} {r r' : Proxy DeviceArray} {p q : ObjectProxy DeviceArray}

/-- A proxy has become another one, with the files. It holds what it held, it may have lost its
file, and if it has got another one that is the next of the directory. -/
structure Carries (d d' : SpillDirectory) (r r' : Proxy DeviceArray) : Prop where
  /-- No other file has changed. -/
  changes : d.ChangesOnly d' (Spillable.ownedFile? r)
  /-- An array that it held it still holds. -/
  holds : ∀ {a p}, a.IsAddressable → r = .object p → Holds d a p.form →
    ∃ q, r' = .object q ∧ Holds d' a q.form
  /-- Its file is the one that it had, or a new one. -/
  file : ∀ path, Spillable.ownedFile? r' = some path → Spillable.ownedFile? r = some path ∨
    d.counter < d'.counter ∧ path = d.filePath (d.counter + 1)
  /-- It is explicit if it was. -/
  isExplicit_eq : Spillable.isExplicit r' = Spillable.isExplicit r
  /-- It is attached if it was. -/
  isAttached_eq : Spillable.isAttached r' = Spillable.isAttached r

/-- A proxy that stays in its form. -/
theorem Carries.of_form (hform : q.form = p.form) (hexplicit : q.isExplicit = p.isExplicit)
    (hattached : q.isAttached = p.isAttached) : Carries d d (.object p) (.object q) where
  changes := .refl d _
  holds _ hp hholds := by
    cases hp
    exact ⟨q, rfl, hform ▸ hholds⟩
  file path hpath := by
    rw [ownedFile?_object, hform] at hpath
    exact .inl ((ownedFile?_object p).trans hpath)
  isExplicit_eq := hexplicit
  isAttached_eq := hattached

/-- A proxy that stays as it is, with its file. -/
theorem carries_self (hchanges : d.ChangesOnly d' none) (r : Proxy DeviceArray) :
    Carries d d' r r where
  changes := hchanges.of_none _
  holds {a p} _ hp hholds := by
    refine ⟨p, hp, hholds.mono hchanges.root_eq hchanges.runName_eq hchanges.counter_le ?_⟩
    intro path hfile
    obtain ⟨⟨n, hn, rfl⟩, -⟩ := hholds.exists_file hfile
    exact hchanges.find?_eq n hn (Option.some_ne_none _).symm
  file path hpath := .inl hpath
  isExplicit_eq := rfl
  isAttached_eq := rfl

/-- Scripted proxies hold no arrays and own no files. -/
theorem carries_scripted (hchanges : d.ChangesOnly d' none) (s t : ScriptedProxy) :
    Carries d d' (.scripted s) (.scripted t) where
  changes := hchanges
  holds _ hp := by cases hp
  file path hpath := by cases hpath
  isExplicit_eq := rfl
  isAttached_eq := rfl

/-- A proxy whose file has gone, unless it had none. -/
theorem Carries.of_sameFiles {w : Volume} (hfiles : (d.volume.without p.form.file?).SameFiles w)
    (hfile : q.form.file? = none ∨ q.form.file? = p.form.file?)
    (hexplicit : q.isExplicit = p.isExplicit) (hattached : q.isAttached = p.isAttached)
    (hholds : ∀ {a}, Holds d a p.form → Holds { d with volume := w } a q.form) :
    Carries d { d with volume := w } (.object p) (.object q) where
  changes := (ownedFile?_object p).symm ▸ .of_sameFiles hfiles
  holds _ hp hheld := by
    cases hp
    exact ⟨q, rfl, hholds hheld⟩
  file path hpath := by
    rw [ownedFile?_object] at hpath ⊢
    rcases hfile with hnone | hsame
    · rw [hnone] at hpath
      cases hpath
    · exact .inl (hsame ▸ hpath)
  isExplicit_eq := hexplicit
  isAttached_eq := hattached

/-- Serializing a proxy leaves it with what it held. Its file may be lost, but only if there was no
array to be had from it. -/
theorem carries_serialize (d : SpillDirectory) (r : Proxy DeviceArray) (tags : List Serializer) :
    Leaves (Spillable.serialize tags) (r, d.volume) fun s =>
      Carries d { d with volume := s.2 } r s.1 := by
  show Leaves (Proxy.serialize tags) _ _
  rw [Proxy.serialize, Leaves, Ends.bind_iff, Ends.get_iff]
  cases r with
  | object p =>
    rw [Proxy.lift_iff]
    have hsame : Carries d d (.object p) (.object p) := .of_form rfl rfl rfl
    cases htarget : tags.find? Serializer.isHost with
    | none =>
      rw [Ends, ObjectProxy.serialize_of_noHost htarget]
      exact hsame
    | some target =>
      by_cases hheld : p.IsHeldBy tags
      · rw [Ends, ObjectProxy.serialize_of_held htarget hheld]
        exact hsame
      · refine (ObjectProxy.serialize_of_not_held htarget hheld d.volume).mono ?_ ?_
        · rintro - ⟨_, w⟩ ⟨header, content, hframes, rfl⟩
          have hfiles := (ObjectProxy.framesFor_leaves target p.form d.volume).of_ok hframes
          refine .of_sameFiles hfiles (.inl rfl) rfl rfl fun {a} hholds => ?_
          -- The frames are those of the array, whichever form they were made from.
          rw [ObjectProxy.framesFor_of_holds hholds] at hframes
          cases hframes
          exact .frames target (List.find?_some htarget)
        · rintro e ⟨q, w⟩ ⟨hkept, hfail⟩
          obtain rfl := hkept.symm
          have hfiles := (ObjectProxy.framesFor_leaves target p.form d.volume).of_error hfail
          refine .of_sameFiles hfiles (.inr rfl) rfl rfl fun {a} hholds => ?_
          rw [ObjectProxy.framesFor_of_holds hholds] at hfail
          cases hfail
  | scripted s =>
    refine Proxy.lift_iff.2 ?_
    rw [Ends, ScriptedProxy.serialize]
    cases s.compliance <;> exact carries_scripted (.refl d none) _ _

/-- So does making it live. -/
theorem carries_revive (d : SpillDirectory) (p : ObjectProxy DeviceArray) :
    Leaves ObjectProxy.revive (p, d.volume) fun s =>
      Carries d { d with volume := s.2 } (.object p) (.object s.1) := by
  simp only [ObjectProxy.revive, Leaves, Ends.bind_iff, Ends.get_iff, ObjectProxy.onVolume_iff,
    ObjectProxy.install, Ends.modify_iff, Ends.pure_iff]
  have hfiles := ObjectProxy.objectOf_leaves p.form d.volume
  refine Ends.of_forall (fun b w hobject => ?_) fun e w hfail => ?_
  · refine .of_sameFiles (hfiles.of_ok hobject) (.inl rfl) rfl rfl fun {a} hholds => ?_
    rw [ObjectProxy.objectOf_of_holds hholds] at hobject
    cases hobject
    exact .live
  · refine .of_sameFiles (hfiles.of_error hfail) (.inr rfl) rfl rfl fun {a} hholds => ?_
    rw [ObjectProxy.objectOf_of_holds hholds] at hfail
    cases hfail

/-- A proxy that shows frames of its array holds the array in the file that they are written to. -/
theorem carries_replace {version : ℕ} {header : FrameHeader} {content : List Bytes}
    (hsnapshot : Spillable.snapshot? r = some (version, .frames header content)) (compress : Bool) :
    Carries d (d.addFile (Container.pack (d.prepare header content compress).2)) r
      (Spillable.replace version (.disk (d.nextHeader header content compress)) r).2 := by
  have hothers : ∀ path, path ≠ d.filePath (d.counter + 1) →
      (d.addFile (Container.pack (d.prepare header content compress).2)).volume.files.find? path =
        d.volume.files.find? path := fun path hpath => Table.find?_insert_of_ne _ _ hpath
  cases r with
  | object p =>
    obtain ⟨payload, hpayload, heq⟩ := Option.map_eq_some_iff.1 hsnapshot
    cases heq
    have hform := ObjectProxy.form_of_payload? hpayload
    -- The version is the one that was shown, so the file is accepted.
    rw [replace_of_version]
    refine ⟨.next hothers _, fun {a q} haddressable hq hholds => ?_, fun path hpath => ?_, rfl, rfl⟩
    · cases hq
      rw [hform] at hholds
      cases hholds with
      | frames tag hhost => exact ⟨_, rfl, .nextHeader d haddressable hhost compress⟩
    · cases hpath
      exact .inr ⟨Nat.lt_succ_self _, rfl⟩
  | scripted s =>
    show Carries _ _ _ (Proxy.replace _ _ _).2
    exact carries_scripted (.next hothers none) _ _

end Proxy

namespace Memory

variable {m m' m₀ m₁ : Memory (Proxy DeviceArray)} {id : ProxyId} {r r' : Proxy DeviceArray}
  {p : ObjectProxy DeviceArray} {a : DeviceArray} {wrapped : ProxyId → Option DeviceArray}

/-- Some proxies hold the arrays that `wrapped` gives. No other proxy has the file of one of them,
and no file has a number that is still to be given out. -/
structure Holding (wrapped : ProxyId → Option DeviceArray) (m : Memory (Proxy DeviceArray)) :
    Prop where
  /-- The arrays can be written to files. -/
  addressable : ∀ {id a}, wrapped id = some a → a.IsAddressable
  /-- The proxies hold them, in any form. -/
  held : ∀ {id a}, wrapped id = some a →
    ∃ p, m.proxies.find? id = some (.object p) ∧ Holds m.spill a p.form
  /-- They share no file with another proxy. -/
  alone : ∀ {id other a r s path}, wrapped id = some a → m.proxies.find? id = some r →
    m.proxies.find? other = some s → Spillable.ownedFile? r = some path →
    Spillable.ownedFile? s = some path → other = id
  /-- Numbers of files have been given out. -/
  named : ∀ {id r n}, m.proxies.find? id = some r →
    Spillable.ownedFile? r = some (m.spill.filePath n) → n ≤ m.spill.counter

/-- Since the memory was `m₀` some proxies have held the arrays that `wrapped` gives. The same of
them are explicit and attached. -/
structure Keeps (wrapped : ProxyId → Option DeviceArray) (m₀ m : Memory (Proxy DeviceArray)) : Prop
    extends Holding wrapped m where
  /-- The same proxies are explicit. -/
  isExplicit_eq : ∀ {id a}, wrapped id = some a → m.isExplicit id = m₀.isExplicit id
  /-- The same proxies are attached. -/
  isAttached_iff : ∀ {id a}, wrapped id = some a → (m.IsAttached id ↔ m₀.IsAttached id)

theorem Holding.keeps (h : Holding wrapped m) : Keeps wrapped m m :=
  ⟨h, fun _ => rfl, fun _ => Iff.rfl⟩

/-- Time passes, and the books change. -/
theorem Keeps.elsewhere (h : Keeps wrapped m₀ m) (clock : Int) (manager : Manager) :
    Keeps wrapped m₀ { m with clock, manager } :=
  ⟨⟨h.addressable, h.held, h.alone, h.named⟩, h.isExplicit_eq, h.isAttached_iff⟩

/-- One proxy changes in a way in which it holds what it held. -/
theorem Keeps.carry (h : Keeps wrapped m₀ m) (hfind : m.proxies.find? id = some r)
    (hself : m'.proxies.find? id = some r')
    (hothers : ∀ other, other ≠ id → m'.proxies.find? other = m.proxies.find? other)
    (hcarries : Proxy.Carries m.spill m'.spill r r') : Keeps wrapped m₀ m' := by
  -- A file that some proxy has now it had before, or it is the next one.
  have hnew : ∀ {other s}, m.proxies.find? other = some s →
      Spillable.ownedFile? s ≠ some (m.spill.filePath (m.spill.counter + 1)) := by
    intro other s hs hfile
    have := h.named hs hfile
    omega
  have hback : ∀ {other s path}, m'.proxies.find? other = some s →
      Spillable.ownedFile? s = some path →
        (∃ t, m.proxies.find? other = some t ∧ Spillable.ownedFile? t = some path) ∨
          other = id ∧ m.spill.counter < m'.spill.counter ∧
            path = m.spill.filePath (m.spill.counter + 1) := by
    intro other s path hs hfile
    by_cases hid : other = id
    · subst hid
      rw [hself, Option.some.injEq] at hs
      subst hs
      exact (hcarries.file path hfile).imp (fun hold => ⟨r, hfind, hold⟩) fun hnext => ⟨rfl, hnext⟩
    · exact .inl ⟨s, (hothers other hid).symm.trans hs, hfile⟩
  refine ⟨⟨h.addressable, fun {other a} hother => ?_,
    fun {other third a s t path} hother hs ht hfile hfile' => ?_, fun {other s n} hs hfile => ?_⟩,
    fun {other a} hother => ?_, fun {other a} hother => ?_⟩
  · obtain ⟨p, hp, hholds⟩ := h.held hother
    by_cases hid : other = id
    · subst hid
      rw [hfind, Option.some.injEq] at hp
      obtain ⟨q, rfl, hq⟩ := hcarries.holds (h.addressable hother) hp hholds
      exact ⟨q, hself, hq⟩
    · refine ⟨p, (hothers other hid).trans hp, ?_⟩
      apply hholds.mono hcarries.changes.root_eq hcarries.changes.runName_eq
        hcarries.changes.counter_le
      intro path hfile
      obtain ⟨⟨n, hn, rfl⟩, -⟩ := hholds.exists_file hfile
      apply hcarries.changes.find?_eq n hn
      -- The file is not that of the proxy that changes.
      intro hsame
      rw [← Proxy.ownedFile?_object] at hfile
      exact hid (h.alone hother hp hfind hfile hsame).symm
  · rcases hback hs hfile with ⟨s₀, hs₀, hold⟩ | ⟨rfl, -, rfl⟩
    · rcases hback ht hfile' with ⟨t₀, ht₀, hold'⟩ | ⟨-, -, rfl⟩
      · exact h.alone hother hs₀ ht₀ hold hold'
      · exact absurd hold (hnew hs₀)
    · rcases hback ht hfile' with ⟨t₀, ht₀, hold'⟩ | ⟨rfl, -, -⟩
      · exact absurd hold' (hnew ht₀)
      · rfl
  · rw [hcarries.changes.filePath_eq] at hfile
    rcases hback hs hfile with ⟨s₀, hs₀, hold⟩ | ⟨-, hlt, hnext⟩
    · exact (h.named hs₀ hold).trans hcarries.changes.counter_le
    · have := m.spill.filePath_injective hnext
      omega
  · rw [← h.isExplicit_eq hother]
    by_cases hid : other = id
    · subst hid
      simp [isExplicit, hself, hfind, hcarries.isExplicit_eq]
    · exact isExplicit_congr (hothers other hid)
  · rw [← h.isAttached_iff hother]
    by_cases hid : other = id
    · subst hid
      simp [IsAttached, hself, hfind, hcarries.isAttached_eq]
    · rw [IsAttached, IsAttached, hothers other hid]

/-- One proxy changes, and the files with it. -/
theorem Keeps.insert (h : Keeps wrapped m₀ m) (hfind : m.proxies.find? id = some r)
    {spill : SpillDirectory} (hcarries : Proxy.Carries m.spill spill r r') :
    Keeps wrapped m₀ { m with proxies := m.proxies.insert id r', spill } :=
  h.carry hfind (Table.find?_insert_self _ _ _)
    (fun _ hother => Table.find?_insert_of_ne _ _ hother) hcarries

/-- Whatever is done with proxies, those that hold arrays go on to hold them. -/
theorem lasting_keeps (wrapped : ProxyId → Option DeviceArray) (m₀ : Memory (Proxy DeviceArray)) :
    Lasting (Keeps wrapped m₀) where
  tick h := h.elsewhere _ _
  touch id time h := by
    refine proxy_leaves h fun r hr => h.insert hr ?_
    cases r with
    | object p => exact .of_form rfl rfl rfl
    | scripted s => exact Proxy.carries_scripted (.refl _ _) _ _
  serialize {m} id tags h := onProxy_leaves h fun r hr =>
    (Proxy.carries_serialize m.spill r tags).imp fun _ hcarries => h.insert hr hcarries
  revive {m} id h := by
    rw [revive, objectProxy, bind_assoc]
    refine proxy_leaves h fun r hr => ?_
    cases r with
    | object p =>
      refine onProxy_leaves h fun q hq => ?_
      rw [hr, Option.some.injEq] at hq
      subst hq
      exact Proxy.lift_iff.2 ((Proxy.carries_revive m.spill p).imp fun _ hcarries =>
        h.insert hr hcarries)
    | scripted s => exact h
  addToTier id tier h := proxy_leaves h fun _ _ => onManager_leaves fun _ => h.elsewhere _ _
  spillFrames {m id r version header content} compress h hr hsnapshot := by
    rw [spillFrames, Leaves, Ends.bind_iff, onSpill_iff]
    refine (m.spill.dump_ends header content compress).mono ?_ ?_
    · rintro disk spill ⟨rfl, rfl⟩
      have hkept := h.insert hr (Proxy.carries_replace hsnapshot compress)
      rw [Ends.bind_iff]
      refine (replace_iff (p := r) ?_ _ _).2 ?_
      · exact hr
      split
      · exact proxy_leaves hkept fun _ _ => onManager_leaves fun _ => hkept.elsewhere _ _
      next hrefused =>
        cases r with
        | object p =>
          -- The frames are those of the version that the proxy is at, so it takes the file.
          obtain ⟨payload, -, heq⟩ := Option.map_eq_some_iff.1 hsnapshot
          cases heq
          rw [Proxy.replace_of_version] at hrefused
          exact absurd rfl hrefused
        | scripted s =>
          rw [onSpill_iff, SpillDirectory.onVolume_iff]
          refine (Volume.remove_elsewhere _ _).imp fun w hw => h.insert hr ?_
          refine Proxy.carries_scripted (.next (fun path hpath => ?_) none) _ _
          exact (hw path hpath).trans (Table.find?_insert_of_ne _ _ hpath)
    · rintro e spill ⟨rfl, -⟩
      have hchanges : m.spill.ChangesOnly { m.spill with counter := m.spill.counter + 1 } none :=
        .next (fun _ _ => rfl) none
      exact h.carry hr hr (fun _ _ => rfl) (Proxy.carries_self hchanges r)

/-! ### Access -/

theorem Keeps.isAttached_eq (h : Keeps wrapped m₀ m) (hid : wrapped id = some a)
    (hfind : m.proxies.find? id = some (.object p)) : p.isAttached = true ↔ m₀.IsAttached id := by
  rw [← h.isAttached_iff hid]
  constructor
  · exact fun hattached => ⟨_, hfind, hattached⟩
  · rintro ⟨r, hr, hattached⟩
    rw [hfind] at hr
    cases hr
    exact hattached

/-- A proxy that holds an array is made live, and holds it still. -/
theorem Keeps.revive_ends (h : Keeps wrapped m₀ m) (hid : wrapped id = some a) :
    Ends (revive id) m (fun b t => b = a ∧ Keeps wrapped m₀ t) Never := by
  obtain ⟨p, hfind, hholds⟩ := h.held hid
  obtain ⟨b, s, hrun, rfl, -⟩ := (ObjectProxy.revive_ends hholds).exists_ok fun _ _ hbad => hbad
  rw [revive_iff hfind, Ends, hrun]
  exact ⟨rfl, h.insert hfind ((Proxy.carries_revive m.spill p).of_ok hrun)⟩

/-- The object of a proxy that holds an array is that array. There is no object only where room
could not be made, and room is made only for proxies that are attached. -/
theorem Keeps.object_ends (h : Keeps wrapped m₀ m) (hid : wrapped id = some a) :
    Ends (object id) m (fun b t => b = a ∧ Keeps wrapped m₀ t) (fun _ _ => m₀.IsAttached id) := by
  obtain ⟨p, hfind, hholds⟩ := h.held hid
  have haccessed : Keeps wrapped m₀ (m.accessed id p) :=
    (h.elsewhere (m.clock + 1) m.manager).insert hfind (.of_form rfl rfl rfl)
  cases hform : p.form with
  | live b =>
    rw [hform] at hholds
    cases hholds
    rw [Ends, object_of_live hfind hform]
    exact ⟨rfl, haccessed⟩
  | serialized payload =>
    -- Room is made only for what the manager knows, and nothing else can go wrong.
    cases hmanaged : (p.isAttached && m.isManaged) with
    | false =>
      rw [object_unmanaged_iff hfind hform hmanaged]
      exact (haccessed.revive_ends hid).of_never fun _ _ hend => hend
    | true =>
      have hattached : m₀.IsAttached id :=
        (h.isAttached_eq hid hfind).1 (Bool.and_eq_true_iff.1 hmanaged).1
      rw [object_managed_iff hfind hform hmanaged]
      refine ((lasting_keeps wrapped m₀).enforceLimits _ haccessed).mono ?_ fun _ _ _ => hattached
      intro _ t ht
      refine (ht.revive_ends hid).of_never ?_
      rintro b u ⟨rfl, hu⟩
      refine ((lasting_keeps wrapped m₀).addToTier id _ hu).mono ?_ fun _ _ _ => hattached
      exact fun _ _ hend => ⟨rfl, hend⟩

/-- The proxies in a value that are asked for their objects when it is unwrapped. -/
def asks (m : Memory (Proxy DeviceArray)) (skipExplicit : Bool) (v : Value DeviceArray) :
    List ProxyId :=
  v.proxies.filter fun id => !(skipExplicit && m.isExplicit id)

/-- The memory after some proxies were asked for their objects, in any order and any number of
times. -/
def Asked (ids : List ProxyId) : Memory (Proxy DeviceArray) → Memory (Proxy DeviceArray) → Prop :=
  Relation.ReflTransGen fun t u => ∃ id ∈ ids, ∃ a, object id t = .ok a u

theorem Keeps.of_asked {ids : List ProxyId} (h : Keeps wrapped m₀ m) (hasked : Asked ids m m') :
    Keeps wrapped m₀ m' := by
  induction hasked with
  | refl => exact h
  | tail _ hstep ih =>
    obtain ⟨id, -, a, hrun⟩ := hstep
    exact ((lasting_keeps wrapped m₀).object id ih).of_ok hrun

/-- The array in the place of a proxy, unless the proxy is explicit and these are left alone. -/
def shown? (m : Memory (Proxy DeviceArray)) (wrapped : ProxyId → Option DeviceArray)
    (skipExplicit : Bool) (id : ProxyId) : Option DeviceArray :=
  if skipExplicit && m.isExplicit id then none else wrapped id

section

variable {ids : List ProxyId} {skipExplicit : Bool}

mutual

/-- A value is unwrapped if the proxies in it give their objects when they are asked for them. It
has the arrays that the proxies hold in the place of the proxies. -/
theorem Keeps.unwrap_ends (v : Value DeviceArray) {m : Memory (Proxy DeviceArray)}
    (h : Keeps wrapped m₀ m) (hasked : Asked ids m₁ m)
    (hwrapped : ∀ id ∈ v.proxies, ∃ a, wrapped id = some a)
    (hids : ∀ id ∈ v.proxies, (skipExplicit && m₀.isExplicit id) = false → id ∈ ids)
    (hgives : ∀ t, Asked ids m₁ t → ∀ id ∈ ids, ∃ a u, object id t = .ok a u) :
    Ends (unwrap skipExplicit v) m
      (fun r t => Keeps wrapped m₀ t ∧ Asked ids m₁ t ∧
        r = v.resolve (m₀.shown? wrapped skipExplicit))
      Never := by
  match v with
  | .int n => exact ⟨h, hasked, rfl⟩
  | .object o => exact ⟨h, hasked, rfl⟩
  | .proxy id =>
    obtain ⟨a, hid⟩ := hwrapped id List.mem_cons_self
    obtain ⟨p, hfind, -⟩ := h.held hid
    have hexplicit : p.isExplicit = m₀.isExplicit id := by
      rw [← h.isExplicit_eq hid, Memory.isExplicit_eq hfind]
    rw [unwrap, Ends.bind_iff, proxy_iff hfind, Value.resolve, shown?, ← hexplicit]
    change Ends (if (skipExplicit && p.isExplicit) = true then _ else _) _ _ _
    cases hskip : skipExplicit && p.isExplicit with
    | true => exact ⟨h, hasked, rfl⟩
    | false =>
      have hmem : id ∈ ids := hids id List.mem_cons_self (hexplicit ▸ hskip)
      obtain ⟨b, t, hrun⟩ := hgives m hasked id hmem
      obtain ⟨rfl, ht⟩ := (h.object_ends hid).of_ok hrun
      rw [if_neg Bool.false_ne_true, if_neg Bool.false_ne_true, Ends.bind_iff, Ends, hrun, hid]
      exact ⟨ht, hasked.tail ⟨id, hmem, b, hrun⟩, rfl⟩
  | .list items =>
    rw [unwrap, Ends.bind_iff]
    refine (h.unwrapItems_ends items hasked hwrapped hids hgives).of_never ?_
    rintro items' t ⟨ht, hasked', rfl⟩
    exact ⟨ht, hasked', rfl⟩

theorem Keeps.unwrapItems_ends (items : List (Value DeviceArray)) {m : Memory (Proxy DeviceArray)}
    (h : Keeps wrapped m₀ m) (hasked : Asked ids m₁ m)
    (hwrapped : ∀ id ∈ Value.proxiesOf items, ∃ a, wrapped id = some a)
    (hids : ∀ id ∈ Value.proxiesOf items, (skipExplicit && m₀.isExplicit id) = false → id ∈ ids)
    (hgives : ∀ t, Asked ids m₁ t → ∀ id ∈ ids, ∃ a u, object id t = .ok a u) :
    Ends (unwrapItems skipExplicit items) m
      (fun r t => Keeps wrapped m₀ t ∧ Asked ids m₁ t ∧
        r = Value.resolveAll (m₀.shown? wrapped skipExplicit) items) Never := by
  match items with
  | [] => exact ⟨h, hasked, rfl⟩
  | item :: items =>
    rw [unwrapItems, Ends.bind_iff]
    refine (h.unwrap_ends item hasked (fun id hid => hwrapped id (List.mem_append_left _ hid))
      (fun id hid => hids id (List.mem_append_left _ hid)) hgives).of_never ?_
    rintro item' t ⟨ht, hasked', rfl⟩
    rw [Ends.bind_iff]
    refine (ht.unwrapItems_ends items hasked'
      (fun id hid => hwrapped id (List.mem_append_right _ hid))
      (fun id hid => hids id (List.mem_append_right _ hid)) hgives).of_never ?_
    rintro items' u ⟨hu, hasked'', rfl⟩
    exact ⟨hu, hasked'', rfl⟩

end

end

end Memory

end TieredStore
