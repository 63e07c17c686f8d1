import TieredStore.Proofs.Accounting
import TieredStore.Proofs.Memory.Lasting
import TieredStore.Proofs.Memory.Transfer
import TieredStore.Proofs.Serialization

/-!
# Versions of payloads

Whoever writes the frames of a proxy to a file does so from a snapshot, and the file is taken only
if the proxy is still at the version of the snapshot. For that a version has to tell whether the
payload was replaced since, and be valid for that payload alone: frames may come back as they were
once an object has been live in between, but not under the version that they had.

An operation may replace the payload of a proxy more than once, and that of other proxies, since
room is made for an object before it is made live. But no operation brings back the form that it
found. Making room moves proxies down only, from the device to the host and on to disk (`Sinks`),
and what is made live was not live before.

* `ObjectProxy.Sinks`, `ObjectProxy.Turns`: what the steps of an operation do to a proxy.
* `Memory.Call`: the calls that may replace payloads.
* `Memory.Call.Renews`, `Memory.Renewed`: one call, or one of several, replaces the payload of a
  proxy.
* `Call.after_ends`: the version moves on if the payload is replaced, and only then.
* `replace_detects_renewal`: which snapshots are still valid after any calls.
-/

namespace TieredStore

variable {T : Type}

/-- How far down a form is: live, in frames that are not of the host, in frames of the host, or in a
file. -/
def Form.depth : Form T → ℕ
  | .live _ => 0
  | .serialized (.frames header _) => if header.serializer.isHost then 2 else 1
  | .serialized (.disk _) => 3

/-- Frames are never as far down as a file. -/
theorem Form.depth_frames_lt (header : FrameHeader) (content : List Bytes) :
    (Form.serialized (.frames header content) : Form T).depth < 3 := by
  rw [Form.depth]
  split <;> decide

namespace ObjectProxy

/-- A proxy is in the form that it had, at the same version, or further down at a later version. -/
def Sinks (p q : ObjectProxy T) : Prop :=
  q.form = p.form ∧ q.version = p.version ∨ p.form.depth < q.form.depth ∧ p.version < q.version

/-- A proxy is in the form that it had, at the same version, or in another form at a later version.
-/
def Turns (p q : ObjectProxy T) : Prop :=
  q.form = p.form ∧ q.version = p.version ∨ q.form ≠ p.form ∧ p.version < q.version

variable {p q r : ObjectProxy T}

theorem Sinks.refl (p : ObjectProxy T) : Sinks p p := .inl ⟨rfl, rfl⟩

theorem Sinks.trans (h : Sinks p q) (h' : Sinks q r) : Sinks p r := by
  rcases h with ⟨hform, hversion⟩ | ⟨hdepth, hversion⟩
  · rwa [Sinks, hform, hversion] at h'
  · rcases h' with ⟨hform', hversion'⟩ | ⟨hdepth', hversion'⟩
    · exact .inr ⟨hform' ▸ hdepth, hversion' ▸ hversion⟩
    · exact .inr ⟨hdepth.trans hdepth', hversion.trans hversion'⟩

theorem Sinks.turns (h : Sinks p q) : Turns p q := by
  refine h.imp_right fun ⟨hdepth, hversion⟩ => ⟨fun hform => ?_, hversion⟩
  rw [hform] at hdepth
  exact lt_irrefl _ hdepth

/-- A proxy whose payload was written to a file is further down, unless it was in a file before. -/
theorem sinks_disk (hnot : p.form.depth < 3) (header : DiskHeader) :
    Sinks p (p.setForm (.serialized (.disk header))) :=
  .inr ⟨hnot, Nat.lt_succ_self _⟩

variable [DeviceObject T] {tags : List Serializer}

/-- A proxy that is serialized is left alone, or has frames of a family that it did not have. -/
theorem serialize_turns (p : ObjectProxy T) (v : Volume) (tags : List Serializer) :
    Leaves (serialize tags) (p, v) fun r => Turns p r.1 := by
  have hsame : Turns p p := .inl ⟨rfl, rfl⟩
  cases htarget : tags.find? Serializer.isHost with
  | none =>
    rw [Leaves, Ends, serialize_of_noHost htarget]
    exact hsame
  | some target =>
    by_cases hheld : p.IsHeldBy tags
    · rw [Leaves, Ends, serialize_of_held htarget hheld]
      exact hsame
    · refine (serialize_of_not_held htarget hheld v).mono ?_ fun _ r hfail => hfail.1.symm ▸ hsame
      rintro - ⟨q, w⟩ ⟨header, content, hframes, rfl⟩
      obtain ⟨hserializer, -⟩ := (framesFor_ends p target v).of_ok hframes
      refine .inr ⟨fun hform => hheld ⟨target, List.mem_of_find?_eq_some htarget, ?_⟩,
        Nat.lt_succ_self _⟩
      rw [serializer, payload?, ← hform]
      exact congrArg some hserializer

/-- A proxy that is serialized for the host goes further down, unless it is there already. Only a
proxy in a file comes up. -/
theorem serialize_sinks (hnot : p.form.depth < 3) (v : Volume) :
    Leaves (serialize Serializer.hostFamilies) (p, v) fun r => Sinks p r.1 := by
  have htarget : Serializer.hostFamilies.find? Serializer.isHost = some .dask := rfl
  by_cases hheld : p.IsHeldBy Serializer.hostFamilies
  · rw [Leaves, Ends, serialize_of_held htarget hheld]
    exact .refl p
  · refine (serialize_of_not_held htarget hheld v).mono ?_ fun _ r hfail => hfail.1.symm ▸ .refl p
    rintro - ⟨q, w⟩ ⟨header, content, hframes, rfl⟩
    obtain ⟨hserializer, -⟩ := (framesFor_ends p .dask v).of_ok hframes
    have hdepth : (Form.serialized (.frames header content) : Form T).depth = 2 := by
      rw [Form.depth, hserializer]
      rfl
    refine .inr ⟨lt_of_lt_of_eq ?_ hdepth.symm, Nat.lt_succ_self _⟩
    rcases hform : p.form with a | (⟨old, frames⟩ | header)
    · exact Nat.succ_pos 1
    · -- Frames of the host would have been held by one of the families.
      have hnot : ¬ old.serializer.isHost = true := (isHeldBy_hostFamilies_iff hform).not.1 hheld
      rw [Form.depth, if_neg hnot]
      exact Nat.lt_succ_self 1
    · rw [hform] at hnot
      exact absurd hnot (lt_irrefl 3)

end ObjectProxy

namespace Memory

/-- There is a proxy of an object, which is as `R` says. -/
def HasObject (id : ProxyId) (R : ObjectProxy T → Prop) (m : Memory (Proxy T)) : Prop :=
  ∃ p, m.proxies.find? id = some (.object p) ∧ R p

variable {m : Memory (Proxy T)} {id other : ProxyId} {p q : ObjectProxy T}
  {R S : ObjectProxy T → Prop}

theorem HasObject.imp (h : HasObject id R m) (himp : ∀ p, R p → S p) : HasObject id S m := by
  obtain ⟨p, hfind, hR⟩ := h
  exact ⟨p, hfind, himp p hR⟩

variable [DeviceObject T]

/-! ### What the steps of an operation do to a proxy -/

theorem hasObject_elsewhere (hother : other ≠ id) (R : ObjectProxy T → Prop) :
    LastingAt other (HasObject id R) := by
  have hstays : ∀ {α : Type} {action : Action (Proxy T) α} {m : Memory (Proxy T)},
      HasObject id R m →
      (∀ r, m.proxies.find? id = r → Leaves action m fun m' => m'.proxies.find? id = r) →
      Leaves action m (HasObject id R) := by
    rintro α action m ⟨p, hfind, hR⟩ haction
    exact (haction _ hfind).imp fun _ hfind' => ⟨p, hfind', hR⟩
  have helse := fun r => lastingAt_elsewhere (T := T) hother r
  exact {
    touch := fun time hm => hstays hm fun r => (helse r).touch time
    serialize := fun tags hm => hstays hm fun r => (helse r).serialize tags
    revive := fun hm => hstays hm fun r => (helse r).revive
    addToTier := fun tier hm => hstays hm fun r => (helse r).addToTier tier
    spillFrames := fun compress hm hfind hsnapshot =>
      hstays hm fun r hr => (helse r).spillFrames compress hr hfind hsnapshot }

theorem addToTier_keeps (hm : HasObject id R m) (other : ProxyId) (tier : Tier) :
    Leaves (addToTier other tier) m (HasObject id R) :=
  proxy_leaves hm fun _ _ => onManager_leaves fun _ => hm

theorem serialize_of_leaves (hfind : m.proxies.find? id = some (.object p)) {tags : List Serializer}
    (h : Leaves (ObjectProxy.serialize tags) (p, m.spill.volume) fun r => R r.1) :
    Leaves (serialize id tags) m (HasObject id R) := by
  rw [Leaves, serialize_iff hfind]
  exact h.imp fun r hr => ⟨r.1, Table.find?_insert_self _ _ _, hr⟩

theorem demoteToHost_of_leaves (hfind : m.proxies.find? id = some (.object p))
    (h : Leaves (ObjectProxy.serialize Serializer.hostFamilies) (p, m.spill.volume)
      fun r => R r.1) :
    Leaves (demoteToHost id) m (HasObject id R) :=
  (serialize_of_leaves hfind h).bind fun _ _ hm =>
    proxy_leaves hm fun _ _ => addToTier_keeps hm id _

theorem revive_keeps_or (hfind : m.proxies.find? id = some (.object p)) :
    Leaves (revive id) m (HasObject id fun q => q = p ∨ ∃ a, q = p.setForm (.live a)) := by
  rw [Leaves, revive_iff hfind]
  exact (ObjectProxy.revive_leaves p m.spill.volume).imp fun r hr =>
    ⟨r.1, Table.find?_insert_self _ _ _, hr⟩

/-- Frames go to a file, which nothing can keep the proxy from taking, or the proxy keeps them. -/
theorem spillFrames_sinks (hfind : m.proxies.find? id = some (.object p)) (hnot : p.form.depth < 3)
    (header : FrameHeader) (content : List Bytes) (compress : Bool) :
    Leaves (spillFrames id p.version header content compress) m (HasObject id p.Sinks) := by
  rw [spillFrames, Leaves, Ends.bind_iff, onSpill_iff]
  refine Ends.of_forall (fun disk spill _ => ?_) fun _ _ _ => ⟨p, hfind, .refl p⟩
  rw [Ends.bind_iff, replace_iff (p := .object p) hfind, Proxy.replace_of_version, if_pos rfl]
  exact addToTier_keeps ⟨_, Table.find?_insert_self _ _ _, ObjectProxy.sinks_disk hnot disk⟩ id _

/-- A demotion to disk takes every proxy further down, or leaves it alone. -/
theorem demoteToDisk_sinks (hm : HasObject id p.Sinks m) (other : ProxyId) :
    Leaves (demoteToDisk other) m (HasObject id p.Sinks) := by
  by_cases hother : other = id
  · subst hother
    obtain ⟨q, hq, hpq⟩ := hm
    -- What becomes of the proxy is further down than what it was at the start, too.
    suffices h : Leaves (demoteToDisk other) m (HasObject other q.Sinks) from
      h.imp fun _ hobject => hobject.imp fun _ => hpq.trans
    have hkept : HasObject other q.Sinks m := ⟨q, hq, .refl q⟩
    unfold demoteToDisk
    extract_lets fresh
    have hfresh : q.form.depth < 3 → Leaves fresh m (HasObject other q.Sinks) := by
      intro hnot
      show Leaves (serialize other Serializer.hostFamilies >>= _) m _
      rw [Leaves, Ends.bind_iff]
      refine (serialize_of_leaves hq (ObjectProxy.serialize_sinks hnot _)).mono_ok ?_
      rintro - m' ⟨r, hr, hqr⟩
      refine proxy_leaves ⟨r, hr, hqr⟩ fun s hs => ?_
      rw [hr] at hs
      cases hs
      rcases hform : r.form with a | (⟨header, content⟩ | header) <;>
        simp only [snapshot?_object, ObjectProxy.payload?, hform, Option.map_none, Option.map_some]
      · exact ⟨r, hr, hqr⟩
      · have hnot' : r.form.depth < 3 := hform ▸ Form.depth_frames_lt header content
        exact (spillFrames_sinks hr hnot' header content true).imp fun _ hobject =>
          hobject.imp fun _ => hqr.trans
      · exact ⟨r, hr, hqr⟩
    refine proxy_leaves hkept fun s hs => ?_
    rw [hq] at hs
    cases hs
    rcases hform : q.form with a | (⟨header, content⟩ | header) <;>
      simp only [snapshot?_object, ObjectProxy.payload?, hform, Option.map_none, Option.map_some]
    · exact hfresh (by rw [hform]; exact Nat.succ_pos 2)
    · have hnot : q.form.depth < 3 := hform ▸ Form.depth_frames_lt header content
      split
      · exact spillFrames_sinks hq hnot header content false
      · exact hfresh hnot
    · exact addToTier_keeps hkept other .disk
  · exact (hasObject_elsewhere hother _).demoteToDisk hm

/-- Each victim of the device is still live when its turn comes, so it goes further down. -/
theorem enforceDeviceLimit_sinks (hfind : m.proxies.find? id = some (.object p)) (extra : ℕ) :
    Leaves (enforceDeviceLimit extra) m (HasObject id p.Sinks) := by
  have hkept : HasObject id p.Sinks m := ⟨p, hfind, .refl p⟩
  rw [enforceDeviceLimit, Leaves, Ends.bind_iff, Ends.get_iff]
  generalize excess (m.manager.usage .device) extra m.manager.deviceLimit = surplus
  split
  next => exact hkept
  next =>
    have hnodup := EvictionPlan.nodup_victims (m.units .device) surplus
    rw [evict, Ends.bind_iff]
    -- The proxy is as it was until its turn comes.
    suffices h : Ends ((EvictionPlan.make (m.units .device) surplus).victims.forM demoteToHost) m
        (fun _ t => HasObject id p.Sinks t ∧
          (id ∉ (EvictionPlan.make (m.units .device) surplus).victims →
            t.proxies.find? id = some (.object p)))
        fun _ => HasObject id p.Sinks from h.mono_ok fun _ _ hend => hend.1
    refine Ends.forM_prefix (fun done t => HasObject id p.Sinks t ∧
      (id ∉ done → t.proxies.find? id = some (.object p))) _ ?_ ⟨hkept, fun _ => hfind⟩
    rintro done victim rest hvictims t ⟨hsunk, hwaiting⟩
    by_cases hvictim : victim = id
    · subst hvictim
      have hmem : victim ∈ (EvictionPlan.make (m.units .device) surplus).victims := by
        rw [hvictims]
        exact List.mem_append_right done List.mem_cons_self
      rw [hvictims] at hnodup
      have hfresh : victim ∉ done := fun hdone =>
        (List.nodup_append.1 hnodup).2.2 victim hdone victim List.mem_cons_self rfl
      obtain ⟨u, hu, hid⟩ := EvictionPlan.exists_of_mem_victims hmem
      obtain ⟨a, hlive⟩ := exists_live_of_mem_units hu hid hfind
      have hnot : p.form.depth < 3 := by rw [hlive]; exact Nat.succ_pos 2
      have hsinks : Leaves (demoteToHost victim) t (HasObject victim p.Sinks) :=
        demoteToHost_of_leaves (hwaiting hfresh) (ObjectProxy.serialize_sinks hnot _)
      refine hsinks.mono_ok fun _ u hu => ⟨hu, fun hnone => absurd ?_ hnone⟩
      exact List.mem_append_right done (List.mem_singleton_self victim)
    · -- The demotion of another victim leaves the proxy as it is.
      obtain ⟨q, hq, hpq⟩ := hsunk
      refine ((lastingAt_elsewhere hvictim (some (.object q))).demoteToHost hq).mono
        (fun _ u hu => ⟨⟨q, hu, hpq⟩, fun hnone => ?_⟩) fun _ u hu => ⟨q, hu, hpq⟩
      have hq' := hwaiting fun hdone => hnone (List.mem_append_left [victim] hdone)
      rw [hu, ← hq, hq']

/-- Making room takes every proxy further down, or leaves it alone. -/
theorem enforceLimits_sinks (hm : HasObject id p.Sinks m) (extra : ℕ) :
    Leaves (enforceLimits extra) m (HasObject id p.Sinks) := by
  obtain ⟨q, hq, hpq⟩ := hm
  have hdevice : Leaves (enforceDeviceLimit extra) m (HasObject id p.Sinks) :=
    (enforceDeviceLimit_sinks hq extra).imp fun _ hobject => hobject.imp fun _ => hpq.trans
  refine hdevice.bind fun _ m' hm' => Leaves.map ?_
  rw [enforceHostLimit, Leaves, Ends.bind_iff, Ends.get_iff]
  split
  · exact hm'
  · exact Lasting.evict (fun other _ ht => demoteToDisk_sinks ht other) _ _ hm'

/-- The memory once an access to a proxy has been recorded. -/
def accessed (m : Memory (Proxy T)) (id : ProxyId) (p : ObjectProxy T) : Memory (Proxy T) :=
  put { m with clock := m.clock + 1 } id { p with lastAccess := m.clock + 1 }

section

variable {payload : Payload} {ok : T → Memory (Proxy T) → Prop}
  {bad : Failure → Memory (Proxy T) → Prop}

/-- Access to a live object changes nothing but the time of the latest access. -/
theorem object_of_live {a : T} (hfind : m.proxies.find? id = some (.object p))
    (hlive : p.form = .live a) : object id m = .ok a (m.accessed id p) := by
  refine Ends.eq_ok ?_
  rw [object, Ends.bind_iff, now, Ends.modifyGet_iff, Ends.bind_iff, touch,
    update_iff (p := .object p) hfind, Ends.bind_iff,
    objectProxy_iff (p := { p with lastAccess := m.clock + 1 }) (Table.find?_insert_self _ _ _)]
  split
  next b hform =>
    cases hlive.symm.trans hform
    exact ⟨rfl, rfl⟩
  next payload hform => cases hlive.symm.trans hform

/-- The manager makes room for an object in frames, and follows when it is live. -/
theorem object_managed_iff (hfind : m.proxies.find? id = some (.object p))
    (hform : p.form = .serialized payload) (hmanaged : (p.isAttached && m.isManaged) = true) :
    Ends (object id) m ok bad ↔
      Ends (enforceLimits payload.nbytes) (m.accessed id p)
        (fun _ t => Ends (revive id) t
          (fun a u => Ends (add id none) u (fun _ => ok a) bad) bad) bad := by
  rw [object, Ends.bind_iff, now, Ends.modifyGet_iff, Ends.bind_iff, touch,
    update_iff (p := .object p) hfind, Ends.bind_iff,
    objectProxy_iff (p := { p with lastAccess := m.clock + 1 }) (Table.find?_insert_self _ _ _)]
  simp only [hform, Ends.bind_iff, Ends.get_iff, hmanaged, if_true, Ends.pure_iff]
  rfl

/-- Without a manager the object is just made live. -/
theorem object_unmanaged_iff (hfind : m.proxies.find? id = some (.object p))
    (hform : p.form = .serialized payload) (hmanaged : (p.isAttached && m.isManaged) = false) :
    Ends (object id) m ok bad ↔ Ends (revive id) (m.accessed id p) ok bad := by
  rw [object, Ends.bind_iff, now, Ends.modifyGet_iff, Ends.bind_iff, touch,
    update_iff (p := .object p) hfind, Ends.bind_iff,
    objectProxy_iff (p := { p with lastAccess := m.clock + 1 }) (Table.find?_insert_self _ _ _)]
  simp only [hform, Ends.bind_iff, Ends.get_iff, hmanaged, Bool.false_eq_true, if_false,
    Ends.pure_iff]
  rfl

end

/-- Access to the object of a proxy makes the proxy live, once room has been made for the object. A
live proxy is left as it is. -/
theorem object_turns (hfind : m.proxies.find? id = some (.object p)) (other : ProxyId) :
    Leaves (object other) m (HasObject id p.Turns) := by
  by_cases hother : other = id
  · subst hother
    have hself := find?_put_self { m with clock := m.clock + 1 } other
      { p with lastAccess := m.clock + 1 }
    have hkept : HasObject other p.Sinks (m.accessed other p) := ⟨_, hself, .inl ⟨rfl, rfl⟩⟩
    rcases hform : p.form with a | payload
    · rw [Leaves, Ends, object_of_live hfind hform]
      exact hkept.imp fun _ => ObjectProxy.Sinks.turns
    · -- What has only sunk is not live, so it is in another form once it is made live.
      have hrevive : ∀ t, HasObject other p.Sinks t →
          Leaves (revive other) t (HasObject other p.Turns) := by
        rintro t ⟨q, hq, hsinks⟩
        refine (revive_keeps_or hq).imp fun u hu => hu.imp ?_
        rintro r (rfl | ⟨a, rfl⟩)
        · exact hsinks.turns
        · refine .inr ⟨fun hsame => ?_, Nat.lt_succ_of_le ?_⟩
          · rw [hform] at hsame
            cases hsame
          · rcases hsinks with ⟨-, hversion⟩ | ⟨-, hversion⟩
            · exact hversion.ge
            · exact hversion.le
      cases hmanaged : (p.isAttached && m.isManaged) with
      | true =>
        rw [Leaves, object_managed_iff hfind hform hmanaged]
        refine (enforceLimits_sinks hkept _).mono (fun _ t ht => ?_) fun _ _ ht => ht.imp
          fun _ => ObjectProxy.Sinks.turns
        exact (hrevive t ht).mono_ok fun _ u hu => addToTier_keeps hu other _
      | false =>
        rw [Leaves, object_unmanaged_iff hfind hform hmanaged]
        exact hrevive _ hkept
  · have hsinks : Leaves (object other) m (HasObject id p.Sinks) :=
      (hasObject_elsewhere hother _).object (fun hm => hm)
        (fun extra {_} hm => enforceLimits_sinks hm extra) ⟨p, hfind, .refl p⟩
    exact hsinks.imp fun _ hobject => hobject.imp fun _ => ObjectProxy.Sinks.turns

/-! ### Calls -/

/-- A call that may replace payloads. -/
inductive Call where
  /-- Asks a proxy for its object. -/
  | object (id : ProxyId)
  /-- Serializes a proxy for one of some families. -/
  | serialize (id : ProxyId) (tags : List Serializer)
  /-- Installs a payload in a proxy, if the proxy is at a version. -/
  | replace (id : ProxyId) (version : ℕ) (payload : Payload)
  /-- Moves a proxy to the host. -/
  | demoteToHost (id : ProxyId)
  /-- Moves a proxy to disk. -/
  | demoteToDisk (id : ProxyId)
  /-- Makes room on the device for some more bytes, and then on the host. -/
  | enforceLimits (extra : ℕ)

/-- The form of a proxy of an object. -/
def form? (m : Memory (Proxy T)) (id : ProxyId) : Option (Form T) :=
  ((m.proxies.find? id).bind Proxy.object?).map ObjectProxy.form

omit [DeviceObject T] in
theorem form?_of_find? (hfind : m.proxies.find? id = some (.object p)) :
    m.form? id = some p.form := by
  rw [form?, hfind]
  rfl

/-- A payload is installed at the version that the proxy is at. -/
theorem replace_of_version (hfind : m.proxies.find? id = some (.object p)) (payload : Payload) :
    replace id p.version payload m = .ok true (m.put id (p.setForm (.serialized payload))) := by
  refine Ends.eq_ok ((replace_iff hfind p.version payload).2 ?_)
  rw [Proxy.replace_of_version]
  exact ⟨rfl, rfl⟩

/-- At any other version nothing is done. -/
theorem replace_of_ne_version (hfind : m.proxies.find? id = some (.object p)) {version : ℕ}
    (hversion : p.version ≠ version) (payload : Payload) :
    replace id version payload m = .ok false (m.put id p) := by
  refine Ends.eq_ok ((replace_iff hfind version payload).2 ?_)
  rw [Proxy.replace_of_ne_version p hversion]
  exact ⟨rfl, rfl⟩

namespace Call

/-- What a call does. -/
def run : Call → Action (Proxy T) Unit
  | object id => do let _ ← Memory.object id
  | serialize id tags => Memory.serialize id tags
  | replace id version payload => do let _ ← Memory.replace id version payload
  | demoteToHost id => Memory.demoteToHost id
  | demoteToDisk id => Memory.demoteToDisk id
  | enforceLimits extra => Memory.enforceLimits extra

/-- The memory after a call, whether or not the call succeeds. -/
def after (call : Call) (m : Memory (Proxy T)) : Memory (Proxy T) := stateAfter call.run m

/-- A call replaces the payload of a proxy: the proxy is in another form after it, or the call is to
install a payload in the proxy, and says that it was done. -/
def Renews (call : Call) (id : ProxyId) (m : Memory (Proxy T)) : Prop :=
  (call.after m).form? id ≠ m.form? id ∨
    ∃ version payload m', call = .replace id version payload ∧
      Memory.replace id version payload m = .ok true m'

theorem after_replace {version : ℕ} {payload : Payload} {done : Bool} {m' : Memory (Proxy T)}
    (h : Memory.replace id version payload m = .ok done m') :
    (replace id version payload).after m = m' := by
  simp only [after, stateAfter, run, bind, EStateM.bind, h]
  rfl

/-- A call that cannot install a payload in a proxy renews it by changing the form. -/
theorem renews_iff {call : Call} (hcall : ∀ version payload, call ≠ .replace id version payload) :
    call.Renews id m ↔ (call.after m).form? id ≠ m.form? id := by
  refine or_iff_left ?_
  rintro ⟨version, payload, -, heq, -⟩
  exact hcall version payload heq

theorem after_ends_of_turns (hfind : m.proxies.find? id = some (.object p)) {call : Call}
    (hcall : ∀ version payload, call ≠ .replace id version payload)
    (h : Leaves call.run m (HasObject id p.Turns)) :
    ∃ q, (call.after m).proxies.find? id = some (.object q) ∧
      (¬ call.Renews id m ∧ q.form = p.form ∧ q.version = p.version ∨
        call.Renews id m ∧ p.version < q.version) := by
  obtain ⟨q, hq, hturns⟩ : HasObject id p.Turns (call.after m) := h.stateAfter
  refine ⟨q, hq, ?_⟩
  rw [renews_iff hcall, form?_of_find? hfind, form?_of_find? hq]
  rcases hturns with ⟨hform, hversion⟩ | ⟨hform, hversion⟩
  · exact .inl ⟨fun hne => hne (congrArg some hform), hform, hversion⟩
  · exact .inr ⟨fun hsame => hform (Option.some.inj hsame), hversion⟩

/-- To install a payload is to replace the one that is there, at the version of the proxy. -/
theorem after_replace_ends (hfind : m.proxies.find? id = some (.object p)) (version : ℕ)
    (payload : Payload) :
    ∃ q, ((replace id version payload).after m).proxies.find? id = some (.object q) ∧
      (¬ (replace id version payload).Renews id m ∧ q.form = p.form ∧ q.version = p.version ∨
        (replace id version payload).Renews id m ∧ p.version < q.version) := by
  by_cases hversion : p.version = version
  · subst hversion
    have hdone := replace_of_version hfind payload
    refine ⟨p.setForm (.serialized payload), ?_,
      .inr ⟨.inr ⟨p.version, payload, _, rfl, hdone⟩, Nat.lt_succ_self _⟩⟩
    rw [after_replace hdone]
    exact find?_put_self m id _
  · have hrefused := replace_of_ne_version hfind hversion payload
    have hsame : ((replace id version payload).after m).proxies.find? id = some (.object p) := by
      rw [after_replace hrefused]
      exact find?_put_self m id p
    refine ⟨p, hsame, .inl ⟨?_, rfl, rfl⟩⟩
    rw [Renews, form?_of_find? hfind, form?_of_find? hsame]
    rintro (hne | ⟨_, _, _, heq, hdone⟩)
    · exact hne rfl
    · -- It has said that nothing was done.
      cases heq
      rw [hrefused] at hdone
      cases hdone

/-- After a call a proxy is at the version that it was at, in the same form, unless the call
replaces its payload. Then it is at a later version. -/
theorem after_ends (hfind : m.proxies.find? id = some (.object p)) (call : Call) :
    ∃ q, (call.after m).proxies.find? id = some (.object q) ∧
      (¬ call.Renews id m ∧ q.form = p.form ∧ q.version = p.version ∨
        call.Renews id m ∧ p.version < q.version) := by
  have hkept : HasObject id p.Turns m := ⟨p, hfind, .inl ⟨rfl, rfl⟩⟩
  have hsunk : HasObject id p.Sinks m := ⟨p, hfind, .refl p⟩
  have hturns : ∀ {call : Call}, Leaves call.run m (HasObject id p.Sinks) →
      Leaves call.run m (HasObject id p.Turns) := fun h =>
    h.imp fun _ hobject => hobject.imp fun _ => ObjectProxy.Sinks.turns
  cases call with
  | object other => exact after_ends_of_turns hfind (by simp) (object_turns hfind other).map
  | serialize other tags =>
    refine after_ends_of_turns hfind (by simp) ?_
    by_cases hother : other = id
    · subst hother
      exact serialize_of_leaves hfind (ObjectProxy.serialize_turns p _ tags)
    · exact (hasObject_elsewhere hother _).serialize tags hkept
  | replace other version payload =>
    by_cases hother : other = id
    · subst hother
      exact after_replace_ends hfind version payload
    · refine after_ends_of_turns hfind (fun _ _ heq => hother (by cases heq; rfl)) (Leaves.map ?_)
      refine proxy_leaves hkept fun r _ => ⟨p, ?_, .inl ⟨rfl, rfl⟩⟩
      exact (Table.find?_insert_of_ne _ _ (Ne.symm hother)).trans hfind
  | demoteToHost other =>
    refine after_ends_of_turns hfind (by simp) ?_
    by_cases hother : other = id
    · subst hother
      exact demoteToHost_of_leaves hfind (p.serialize_turns _ _)
    · exact (hasObject_elsewhere hother _).demoteToHost hkept
  | demoteToDisk other =>
    exact after_ends_of_turns hfind (by simp) (hturns (demoteToDisk_sinks hsunk other))
  | enforceLimits extra =>
    exact after_ends_of_turns hfind (by simp) (hturns (enforceLimits_sinks hsunk extra))

/-- Access to a live object does not replace it. -/
theorem not_renews_object {a : T} (hfind : m.proxies.find? id = some (.object p))
    (hlive : p.form = .live a) : ¬ (object id).Renews id m := by
  rw [renews_iff (by simp), not_not, form?_of_find? hfind]
  have hkept : Leaves (Memory.object id) m fun n => n.form? id = some p.form := by
    rw [Leaves, Ends, object_of_live hfind hlive]
    exact form?_of_find? (p := { p with lastAccess := m.clock + 1 }) (Table.find?_insert_self _ _ _)
  have hrun : Leaves (object id).run m fun n => n.form? id = some p.form := hkept.map
  exact hrun.stateAfter

/-- Serializing does not replace a payload that one of the families holds. -/
theorem not_renews_serialize (hfind : m.proxies.find? id = some (.object p))
    {tags : List Serializer} {target : Serializer}
    (htarget : tags.find? Serializer.isHost = some target) (hheld : p.IsHeldBy tags) :
    ¬ (serialize id tags).Renews id m := by
  rw [renews_iff (by simp), not_not, form?_of_find? hfind]
  have hkept : Leaves (Memory.serialize id tags) m (HasObject id (· = p)) := by
    refine serialize_of_leaves hfind ?_
    rw [Leaves, Ends, ObjectProxy.serialize_of_held htarget hheld]
  obtain ⟨q, hq, rfl⟩ := hkept.stateAfter
  exact form?_of_find? hq

end Call

/-- The memory after several calls. -/
def afterAll (calls : List Call) (m : Memory (Proxy T)) : Memory (Proxy T) :=
  calls.foldl (fun m call => call.after m) m

/-- One of several calls replaces the payload of a proxy. -/
def Renewed (id : ProxyId) : List Call → Memory (Proxy T) → Prop
  | [], _ => False
  | call :: calls, m => call.Renews id m ∨ Renewed id calls (call.after m)

/-- After several calls a proxy is at the version that it was at, in the same form, unless one of
them replaces its payload. Then it is at a later version. -/
theorem afterAll_ends (hfind : m.proxies.find? id = some (.object p)) (calls : List Call) :
    ∃ q, (afterAll calls m).proxies.find? id = some (.object q) ∧
      (¬ Renewed id calls m ∧ q.form = p.form ∧ q.version = p.version ∨
        Renewed id calls m ∧ p.version < q.version) := by
  induction calls generalizing m p with
  | nil => exact ⟨p, hfind, .inl ⟨not_false, rfl, rfl⟩⟩
  | cons call calls ih =>
    obtain ⟨q, hq, hcall⟩ := call.after_ends hfind
    obtain ⟨r, hr, hcalls⟩ := ih hq
    refine ⟨r, hr, ?_⟩
    rcases hcall with ⟨hnot, hform, hversion⟩ | ⟨hrenews, hversion⟩
    · refine hcalls.imp ?_ ?_
      · rintro ⟨hnot', hform', hversion'⟩
        exact ⟨not_or.2 ⟨hnot, hnot'⟩, hform'.trans hform, hversion'.trans hversion⟩
      · rintro ⟨hrenewed, hversion'⟩
        exact ⟨.inr hrenewed, hversion ▸ hversion'⟩
    · -- Whatever the others do, versions do not go back.
      refine .inr ⟨.inl hrenews, hversion.trans_le ?_⟩
      rcases hcalls with ⟨-, -, hversion'⟩ | ⟨-, hversion'⟩
      · exact hversion'.ge
      · exact hversion'.le

/-- A snapshot of a payload stays valid for as long as the payload is not replaced, and not a moment
longer. After any calls a payload is installed at the version of the snapshot just if no call has
replaced the payload since. The proxy has the new payload then, and nothing is ever installed at
that version again, whatever calls follow. If the payload has been replaced the proxy is left as it
is, even if the payload has come back as it was.

What is documented to do nothing leaves snapshots valid: access to a live object, and serializing
for families of which one holds the data already and one is a host family. -/
theorem replace_detects_renewal {version : ℕ} {payload : Payload}
    (hfind : m.proxies.find? id = some (.object p))
    (hsnapshot : Spillable.snapshot? (Proxy.object p) = some (version, payload))
    (calls : List Call) (new : Payload) :
    ∃ q, (afterAll calls m).proxies.find? id = some (.object q) ∧
      (¬ Renewed id calls m →
        q.form = .serialized payload ∧
        replace id version new (afterAll calls m) =
          .ok true ((afterAll calls m).put id (q.setForm (.serialized new))) ∧
        ∀ more other, ∃ n, replace id version other
          (afterAll more ((afterAll calls m).put id (q.setForm (.serialized new)))) =
            .ok false n) ∧
      (Renewed id calls m →
        replace id version new (afterAll calls m) = .ok false ((afterAll calls m).put id q)) ∧
      (∀ a, q.form = .live a → ¬ (Call.object id).Renews id (afterAll calls m)) ∧
      ∀ tags target, tags.find? Serializer.isHost = some target → q.IsHeldBy tags →
        ¬ (Call.serialize id tags).Renews id (afterAll calls m) := by
  obtain ⟨held, hpayload, heq⟩ := Option.map_eq_some_iff.1 hsnapshot
  cases heq
  obtain ⟨q, hq, hcalls⟩ := afterAll_ends hfind calls
  refine ⟨q, hq, fun hnot => ?_, fun hrenewed => ?_, fun a hlive => ?_,
    fun tags target htarget hheld => ?_⟩
  · obtain ⟨-, hform, hversion⟩ := hcalls.resolve_right fun hrenewed => hnot hrenewed.1
    refine ⟨hform.trans (ObjectProxy.form_of_payload? hpayload), ?_, fun more other => ?_⟩
    · rw [← hversion]
      exact replace_of_version hq new
    · -- The version has been used up, and later ones are greater still.
      obtain ⟨r, hr, hmore⟩ :=
        afterAll_ends (find?_put_self _ id (q.setForm (.serialized new))) more
      refine ⟨_, replace_of_ne_version hr (Nat.ne_of_gt ?_) other⟩
      rw [← hversion]
      rcases hmore with ⟨-, -, hversion'⟩ | ⟨-, hversion'⟩
      · exact hversion' ▸ Nat.lt_succ_self _
      · exact (Nat.lt_succ_self _).trans hversion'
  · obtain ⟨-, hversion⟩ := hcalls.resolve_left fun hkept => hkept.1 hrenewed
    exact replace_of_ne_version hq (Nat.ne_of_gt hversion) new
  · exact Call.not_renews_object hq hlive
  · exact Call.not_renews_serialize hq htarget hheld

/-- An array on the host is made live and goes back to the host. Its frames are those that they
were, and yet a snapshot from before is not valid any more. -/
theorem replace_detects_renewal_reserialized :
    ∃ version payload n,
      Store.hostStore.memory.form? ⟨1⟩ = some (.serialized payload) ∧
      (afterAll [.object ⟨1⟩, .demoteToHost ⟨1⟩] Store.hostStore.memory).form? ⟨1⟩ =
        some (.serialized payload) ∧
      replace ⟨1⟩ version payload Store.hostStore.memory =
        .ok true (Store.hostStore.memory.put ⟨1⟩ n) ∧
      ∃ t, replace ⟨1⟩ version payload
        (afterAll [.object ⟨1⟩, .demoteToHost ⟨1⟩] Store.hostStore.memory) = .ok false t := by
  obtain ⟨p, payload, hfind, hform, hback⟩ : ∃ p payload,
      Store.hostStore.memory.proxies.find? ⟨1⟩ = some (.object p) ∧
      p.form = .serialized payload ∧
      (afterAll [.object ⟨1⟩, .demoteToHost ⟨1⟩] Store.hostStore.memory).form? ⟨1⟩ =
        some (.serialized payload) := ⟨_, _, rfl, rfl, rfl⟩
  have hsnapshot : Spillable.snapshot? (Proxy.object p) = some (p.version, payload) := by
    rw [snapshot?_object, ObjectProxy.payload?, hform]
    rfl
  have hbefore : Store.hostStore.memory.form? ⟨1⟩ = some (.serialized payload) :=
    (form?_of_find? hfind).trans (congrArg some hform)
  obtain ⟨q, -, hvalid, -⟩ := replace_detects_renewal hfind hsnapshot [] payload
  obtain ⟨r, -, -, hstale, -⟩ := replace_detects_renewal hfind hsnapshot
    [.object ⟨1⟩, .demoteToHost ⟨1⟩] payload
  obtain ⟨-, hdone, -⟩ := hvalid not_false
  refine ⟨p.version, payload, _, hbefore, hback, hdone, _, hstale (.inl (.inl ?_))⟩
  -- In between the array is live.
  have hlive : ((Call.object ⟨1⟩).after Store.hostStore.memory).form? ⟨1⟩ =
      some (.live Store.smallArray) := rfl
  rw [hlive, hbefore]
  intro hsame
  cases hsame

end Memory

end TieredStore
