import TieredStore.Proofs.Memory.Wrapping
import TieredStore.Proofs.Moves

/-!
# What holds of every form

The form of a proxy changes in few ways: the proxy is made live, it is serialized, or its frames are
written to a file. What these preserve holds of all forms after every operation of a store, without
anything else being known of the store.

* `Memory.FormRules`: a property of forms, with one of the directory, that the changes preserve.
* `FormRules.lasting`, `FormRules.adopt`, `FormRules.releaseAll`: the operations on the memory.
* `FormRules.run`: the operations of a store.
-/

namespace TieredStore

namespace Memory

variable {m : Memory (Proxy DeviceArray)} {id : ProxyId} {p q : Proxy DeviceArray}
  {ofSpill : SpillDirectory → Prop} {ofForm : ProxyId → Form DeviceArray → Prop}

/-- A property of the directory, and one of the form of every proxy. -/
structure AllForms (ofSpill : SpillDirectory → Prop) (ofForm : ProxyId → Form DeviceArray → Prop)
    (m : Memory (Proxy DeviceArray)) : Prop where
  /-- The property of the directory. -/
  spill : ofSpill m.spill
  /-- The property of the forms. -/
  form : ∀ id p, m.proxies.find? id = some (.object p) → ofForm id p.form

/-- The properties are preserved where a form changes. -/
structure FormRules (ofSpill : SpillDirectory → Prop)
    (ofForm : ProxyId → Form DeviceArray → Prop) : Prop where
  /-- Files may come and go. -/
  volume : ∀ {d}, ofSpill d → ∀ volume, ofSpill { d with volume }
  /-- A proxy is made live. -/
  live : ∀ id a, ofForm id (.live a)
  /-- A proxy is serialized. -/
  frames : ∀ {id form target v header content w}, ofForm id form →
    ObjectProxy.framesFor target form v = .ok (header, content) w →
      ofForm id (.serialized (.frames header content))
  /-- Frames are written to a file. -/
  dump : ∀ {d} (header : FrameHeader) (content : List Bytes) (compress : Bool), ofSpill d →
    Leaves (SpillDirectory.dump header content compress) d ofSpill
  /-- The file is that of a proxy with these frames. -/
  disk : ∀ {id d header content compress disk d'}, ofSpill d →
    ofForm id (.serialized (.frames header content)) →
      SpillDirectory.dump header content compress d = .ok disk d' →
        ofForm id (.serialized (.disk disk))

/-- One proxy takes another form, and files may change with it. -/
theorem AllForms.update (h : AllForms ofSpill ofForm m)
    (hq : ∀ o, q = .object o → ofForm id o.form) {spill : SpillDirectory} (hspill : ofSpill spill) :
    AllForms ofSpill ofForm { m with proxies := m.proxies.insert id q, spill } where
  spill := hspill
  form other o ho := by
    dsimp only at ho
    rw [Table.find?_insert] at ho
    split at ho
    next hother =>
      cases ho
      exact hother ▸ hq o rfl
    next => exact h.form other o ho

/-- Books and clock make no difference to forms. -/
theorem AllForms.elsewhere (h : AllForms ofSpill ofForm m) (clock : Int) (manager : Manager) :
    AllForms ofSpill ofForm { m with clock, manager } :=
  ⟨h.spill, h.form⟩

namespace FormRules

theorem serialize (h : FormRules ofSpill ofForm) (p : Proxy DeviceArray) (v : Volume)
    (tags : List Serializer) (hp : ∀ o, p = .object o → ofForm id o.form) :
    Leaves (Spillable.serialize tags) (p, v) fun r => ∀ o, r.1 = .object o → ofForm id o.form := by
  show Leaves (Proxy.serialize tags) _ _
  rw [Proxy.serialize, Leaves, Ends.bind_iff, Ends.get_iff]
  cases p with
  | object p =>
    rw [Proxy.lift_iff]
    refine (ObjectProxy.serialize_leaves p v tags).imp ?_
    rintro ⟨_, w⟩ (rfl | ⟨target, header, frames, u, hframes, rfl⟩) o ho
    · exact hp o ho
    · cases ho
      exact h.frames (hp p rfl) hframes
  | scripted p =>
    -- No form comes of a scripted proxy.
    rw [Proxy.lift_iff, Ends]
    split <;> (intro o ho; cases ho)

theorem revive (h : FormRules ofSpill ofForm) {p : ObjectProxy DeviceArray}
    (hp : ofForm id p.form) (old : Proxy DeviceArray) (v : Volume) :
    Leaves (Proxy.lift .object p ObjectProxy.revive) (old, v) fun r =>
      ∀ o, r.1 = .object o → ofForm id o.form := by
  rw [Leaves, Proxy.lift_iff]
  refine (ObjectProxy.revive_leaves p v).imp ?_
  rintro ⟨_, w⟩ (rfl | ⟨a, rfl⟩) o ho
  · cases ho
    exact hp
  · cases ho
    exact h.live id a

/-- A payload is installed or not. -/
theorem replace {payload : Payload} {version : ℕ} {p : ObjectProxy DeviceArray}
    (hpayload : ofForm id (.serialized payload)) (hp : ofForm id p.form) :
    ∀ o, (Spillable.replace version payload (Proxy.object p)).2 = .object o → ofForm id o.form := by
  show ∀ o, (Proxy.replace version payload (.object p)).2 = .object o → ofForm id o.form
  intro o ho
  rw [Proxy.replace, ObjectProxy.replace] at ho
  by_cases hversion : p.version = version
  · rw [if_pos hversion] at ho
    cases ho
    exact hpayload
  · rw [if_neg hversion] at ho
    cases ho
    exact hp

/-- No step of a move makes a difference. -/
theorem lasting (h : FormRules ofSpill ofForm) : Lasting (AllForms ofSpill ofForm) where
  tick hm := hm.elsewhere _ _
  touch id time hm := by
    rw [touch, Memory.update]
    refine proxy_leaves hm fun p hp => hm.update ?_ hm.spill
    intro o ho
    cases p with
    | object p =>
      cases ho
      exact hm.form id p hp
    | scripted => cases ho
  serialize {m} id tags hm := by
    refine onProxy_leaves hm fun p hp => ?_
    refine (h.serialize p m.spill.volume tags ?_).imp fun r hr =>
      hm.update hr (h.volume hm.spill r.2)
    exact fun o ho => hm.form id o (ho ▸ hp)
  revive id hm := by
    rw [Memory.revive, objectProxy, bind_assoc]
    refine proxy_leaves hm fun r hr => ?_
    split
    next p hobject =>
      cases r with
      | object o =>
        cases hobject
        refine onProxy_leaves hm fun q _ => ?_
        exact (h.revive (hm.form id p hr) q _).imp fun r hform =>
          hm.update hform (h.volume hm.spill r.2)
      | scripted => cases hobject
    next => exact hm
  addToTier id tier hm := proxy_leaves hm fun _ _ => onManager_leaves fun _ => hm.elsewhere _ _
  spillFrames {m id p version header content} compress hm hp hsnapshot := by
    rw [spillFrames, Leaves, Ends.bind_iff, onSpill_iff, Ends]
    have hspill := h.dump header content compress hm.spill
    split
    next disk spill hdump =>
      -- Frames of a scripted proxy are written, too, but no form gets the file then.
      have hform : ∀ o, (Spillable.replace version (.disk disk) p).2 = .object o →
          ofForm id o.form := by
        cases p with
        | object p =>
          obtain ⟨payload, hpayload, heq⟩ := Option.map_eq_some_iff.1 hsnapshot
          cases heq
          have hframes := hm.form id p hp
          rw [ObjectProxy.form_of_payload? hpayload] at hframes
          exact replace (h.disk hm.spill hframes hdump)
            (ObjectProxy.form_of_payload? hpayload ▸ hframes)
        | scripted =>
          intro o ho
          cases ho
      have hupdate := hm.update hform (hspill.of_ok hdump)
      rw [Ends.bind_iff, replace_iff (m := { m with spill }) hp]
      split
      · exact proxy_leaves hupdate fun _ _ => onManager_leaves fun _ => hupdate.elsewhere _ _
      · show Leaves (onSpill (SpillDirectory.onVolume (Volume.remove disk.path))) _
          (AllForms ofSpill ofForm)
        exact onSpill_onVolume_leaves fun volume => ⟨h.volume hupdate.spill volume, hupdate.form⟩
    next e spill hdump => exact ⟨hspill.of_error hdump, hm.form⟩

/-! ### Proxies come and go -/

/-- A new proxy is live. -/
theorem create (h : FormRules ofSpill ofForm) (hm : AllForms ofSpill ofForm m) (a : DeviceArray)
    (isExplicit : Bool) :
    AllForms ofSpill ofForm (m.create fun time => .object (.ofObject a isExplicit time)).2 where
  spill := hm.spill
  form other o ho := by
    rw [find?_create] at ho
    split at ho
    · cases ho
      exact h.live _ a
    · exact hm.form other o ho

theorem attach (hm : AllForms ofSpill ofForm m) (id : ProxyId) :
    Leaves (attach id) m (AllForms ofSpill ofForm) := by
  refine proxy_leaves hm fun p hp => hm.update ?_ hm.spill
  intro o ho
  cases p with
  | object p =>
    cases ho
    exact hm.form id p hp
  | scripted => cases ho

theorem trackFound (h : FormRules ofSpill ofForm) (hm : AllForms ofSpill ofForm m) (time : Int)
    (id : ProxyId) : Leaves (trackFound time id) m (AllForms ofSpill ofForm) := by
  refine (h.lasting.touch id time hm).bind fun _ m₁ hm₁ => ?_
  rw [Leaves, ask, bind_assoc, Ends.bind_iff, Ends.get_iff]
  cases m₁.manager.contains id with
  | error e => exact hm₁
  | ok isTracked =>
    rw [pure_bind]
    split
    · exact (attach hm₁ id).bind fun _ _ hm₂ => h.lasting.track id hm₂
    · exact hm₁

mutual

/-- Wrapping a value makes proxies that are live. -/
theorem walk (h : FormRules ofSpill ofForm) (v : Value DeviceArray) {w : Walk DeviceArray}
    (hw : AllForms ofSpill ofForm w.memory) :
    AllForms ofSpill ofForm ((Walk.wrap v).run w).2.memory := by
  match v with
  | .int n => exact hw
  | .object o =>
    show AllForms ofSpill ofForm (Walk.proxyFor o w).2.memory
    rw [Walk.proxyFor]
    split
    · exact hw
    · exact h.create hw o false
  | .proxy id => exact hw
  | .list items => exact h.walkItems items hw

theorem walkItems (h : FormRules ofSpill ofForm) (items : List (Value DeviceArray))
    {w : Walk DeviceArray} (hw : AllForms ofSpill ofForm w.memory) :
    AllForms ofSpill ofForm ((Walk.wrapItems items).run w).2.memory := by
  match items with
  | [] => exact hw
  | item :: items => exact h.walkItems items (h.walk item hw)

end

theorem adopt (h : FormRules ofSpill ofForm) (hm : AllForms ofSpill ofForm m)
    (value : Value DeviceArray) : Leaves (adopt value) m (AllForms ofSpill ofForm) := by
  have hwrap : Leaves (wrap value) m (AllForms ofSpill ofForm) := by
    rw [wrap, Leaves, Ends.modifyGet_iff]
    exact h.walk value (w := ⟨m, .empty, []⟩) hm
  refine hwrap.bind fun r m₁ hm₁ => ?_
  rw [Leaves, Ends.bind_iff, now, Ends.modifyGet_iff]
  refine Leaves.bind ?_ fun _ _ hm₂ => (h.lasting.enforceLimits 0 hm₂).map
  exact Leaves.forM r.2 (fun id _ _ ht => h.trackFound ht _ id) (h.lasting.tick hm₁)

/-- A proxy goes, and its file with it. -/
theorem release (h : FormRules ofSpill ofForm) (hm : AllForms ofSpill ofForm m) (id : ProxyId) :
    Leaves (release id) m (AllForms ofSpill ofForm) := by
  rw [Memory.release, Leaves, Ends.bind_iff, Ends.get_iff]
  split
  next => exact hm
  next p hp =>
    -- With or without its file, and whether or not the books are told, it is only one form less.
    have hend : ∀ {spill}, ofSpill spill → ∀ isTold : Bool,
        Leaves (if isTold then onManager fun books => books.forget id else pure ())
          { m with proxies := m.proxies.erase id, spill } (AllForms ofSpill ofForm) := by
      intro spill hspill isTold
      have herase : AllForms ofSpill ofForm { m with proxies := m.proxies.erase id, spill } := by
        refine ⟨hspill, fun other o ho => hm.form other o ?_⟩
        dsimp only at ho
        rw [Table.find?_erase] at ho
        split at ho
        · cases ho
        · exact ho
      split
      · exact onManager_leaves fun _ => herase.elsewhere _ _
      · exact herase
    rw [Ends.bind_iff, Ends.modify_iff, Ends.bind_iff, Ends.get_iff]
    split
    · exact hend (h.volume hm.spill _) _
    · exact hend hm.spill _

theorem releaseAll (h : FormRules ofSpill ofForm) (hm : AllForms ofSpill ofForm m)
    (ids : List ProxyId) : Leaves (releaseAll ids) m (AllForms ofSpill ofForm) := by
  induction ids generalizing m with
  | nil => exact hm
  | cons id ids ih =>
    rw [Memory.releaseAll, Leaves, Ends.bind_iff, Ends.tryCatch_iff]
    refine (h.release hm id).mono (fun _ m' hm' => ih hm') fun e m' hm' => ?_
    -- The others go even if the first one fails.
    rw [Ends.bind_iff, Ends.tryCatch_iff]
    exact (ih hm').mono (fun _ _ hend => hend) fun _ _ hend => hend

/-- Every operation on the memory preserves the properties. -/
theorem runOnMemory (h : FormRules ofSpill ofForm) (hm : AllForms ofSpill ofForm m) (op : Op) :
    Leaves op.run m (AllForms ofSpill ofForm) := by
  cases op with
  | track id => exact (attach hm id).bind fun _ _ hm' => h.lasting.track id hm'
  | untrack id =>
    rw [Op.run]
    exact onManager_leaves fun _ => hm.elsewhere _ _
  | prune => exact hm.elsewhere _ _
  | object | reserialize | demoteToHost | demoteToDisk | enforceLimits | enforceDeviceLimit
  | enforceHostLimit | evictFromDevice | evictFromHost | touch => exact h.lasting.run trivial hm
  | relist tier entries => exact hm.elsewhere _ _

end FormRules

end Memory

namespace Store

open Memory (AllForms FormRules)

variable {α : Type} {s : Store DeviceArray} {ofSpill : SpillDirectory → Prop}
  {ofForm : ProxyId → Form DeviceArray → Prop}

/-- The forms in a store are as they should be. -/
def AllForms (ofSpill : SpillDirectory → Prop) (ofForm : ProxyId → Form DeviceArray → Prop)
    (s : Store DeviceArray) : Prop :=
  Memory.AllForms ofSpill ofForm s.memory

theorem collect_leaves (h : FormRules ofSpill ofForm) (hs : AllForms ofSpill ofForm s)
    (ids : List ProxyId) : Leaves (collect ids) s (AllForms ofSpill ofForm) := by
  rw [collect, Leaves, Ends.bind_iff, Ends.get_iff]
  exact onMemory_leaves (h.releaseAll hs _)

/-- What is left to do after a failure is to let go of proxies. -/
theorem cleanup_leaves (h : FormRules ofSpill ofForm) (hs : AllForms ofSpill ofForm s)
    (failure : Failure) :
    Leaves (do collect (T := DeviceArray) []; throw failure : Action DeviceArray α) s
      (AllForms ofSpill ofForm) :=
  (collect_leaves h hs []).bind fun _ _ hend => hend

theorem insert_leaves (h : FormRules ofSpill ofForm) (hs : AllForms ofSpill ofForm s) (key : String)
    (value : Value DeviceArray) : Leaves (insert key value) s (AllForms ofSpill ofForm) := by
  rw [insert, Leaves, Ends.bind_iff]
  refine (installCallback_ends s).of_never ?_
  rintro - s₁ ⟨hmemory, -⟩
  have hs₁ : AllForms ofSpill ofForm s₁ := by
    rw [AllForms, hmemory]
    exact hs
  rw [Ends.bind_iff, Ends.modify_iff]
  refine Leaves.tryCatch ?_ fun e _ hs₂ => cleanup_leaves h hs₂ e
  refine (collect_leaves h (s := { s₁ with entries := s₁.entries.erase key }) hs₁ _).bind
    fun _ s₂ hs₂ => ?_
  exact (onMemory_leaves (h.adopt hs₂ value)).bind fun _ _ hs₃ => hs₃

/-- Every operation of a store preserves the properties. Only a change of the directory has to be
looked at by itself. -/
theorem Op.leaves (h : FormRules ofSpill ofForm) (hs : AllForms ofSpill ofForm s) (op : Op)
    (hop : ∀ isPresent refused shared compression,
      op ≠ .setDirectory isPresent refused shared compression) :
    Leaves op.run s (AllForms ofSpill ofForm) := by
  have hmove : op.IsMove → Leaves op.run s (AllForms ofSpill ofForm) := fun hmove =>
    (moves h.lasting hs hmove).imp fun _ hmoved => hmoved.memory
  cases op with
  | get | hold | spillHundredth | allocationFailed => exact hmove trivial
  | insert key value => exact (insert_leaves h hs key value).map
  | remove key =>
    rw [run, Leaves, Ends.bind_iff, Store.remove, Ends.modifyGet_iff]
    split
    · exact hs
    · exact hs
  | adopt value =>
    refine Leaves.map (Leaves.tryCatch ?_ fun e _ hs₁ => cleanup_leaves h hs₁ e)
    exact (onMemory_leaves (h.adopt hs value)).bind fun _ _ hs₁ => hs₁
  | wrapObject a isExplicit =>
    rw [run, Leaves, Ends.bind_iff, Store.wrapObject, Ends.bind_iff, onMemory_iff,
      Ends.modifyGet_iff]
    exact h.create hs a isExplicit
  | letGo ids =>
    rw [run, Store.letGo, Leaves, Ends.bind_iff, Ends.modify_iff]
    exact collect_leaves h (s := { s with handles := ids.foldl List.erase s.handles }) hs []
  | onMemory op => exact onMemory_leaves (h.runOnMemory hs op)
  | setDirectory isPresent refused shared compression =>
    exact absurd rfl (hop isPresent refused shared compression)

end Store

end TieredStore
