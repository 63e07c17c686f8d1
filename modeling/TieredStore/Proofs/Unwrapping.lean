import TieredStore.Proofs.Coherence
import TieredStore.Proofs.Memory.Keeping
import TieredStore.Proofs.Memory.Walks

/-!
# Wrapping and unwrapping

A value that is wrapped can be unwrapped again, if the proxies that were in it before give their
objects. New proxies always do, since no room is made for proxies that the manager does not know.

* `Memory.joined`: what proxies hold once the objects of a value have got theirs.
* `Wrapped.holding`: old and new proxies hold arrays after a value was wrapped.
* `Memory.wrap_unwrap`: wrapping and unwrapping are inverse, and wrapping again changes nothing.
* `Coherent.gives`: in a coherent memory all proxies give their objects.
-/

namespace TieredStore

namespace Memory

variable {log : List DeviceArray} {m m₁ t : Memory (Proxy DeviceArray)} {v : Value DeviceArray}
  {proxyOf : DeviceArray → ProxyId} {wrapped : ProxyId → Option DeviceArray}
  {found ids : List ProxyId} {id : ProxyId} {a : DeviceArray} {r : Proxy DeviceArray}

/-- What proxies hold when those of some objects have been added to the ones there were. -/
def joined (objects : List DeviceArray) (proxyOf : DeviceArray → ProxyId)
    (wrapped : ProxyId → Option DeviceArray) (id : ProxyId) : Option DeviceArray :=
  (objects.find? fun a => proxyOf a = id).or (wrapped id)

theorem joined_of_forall_ne {objects : List DeviceArray} (hother : ∀ a ∈ objects, proxyOf a ≠ id) :
    joined objects proxyOf wrapped id = wrapped id := by
  rw [joined, List.find?_eq_none.2, Option.none_or]
  simpa using hother

namespace Wrapped

/-- A new proxy holds its object if objects of one identity are the same. -/
theorem joined_proxyOf (h : Wrapped m m₁ v proxyOf found) (hconsistent : v.Consistent)
    (ha : a ∈ v.objects) : joined v.objects proxyOf wrapped (proxyOf a) = some a := by
  obtain ⟨b, hb⟩ : ∃ b, (v.objects.find? fun b => proxyOf b = proxyOf a) = some b := by
    apply Option.isSome_iff_exists.1
    simpa using ⟨a, ha, rfl⟩
  have hmem : b ∈ v.objects := List.mem_of_find?_eq_some hb
  have hsame : proxyOf b = proxyOf a := by simpa using List.find?_some hb
  -- One proxy means one identity, and then one object.
  have hba : b = a := by
    apply hconsistent hmem ha
    exact (h.proxyOf_eq_iff b hmem a ha).1 hsame
  rw [joined, hb, Option.some_or, hba]

/-- A new proxy is live. -/
theorem find?_proxyOf (h : Wrapped m m₁ v proxyOf found) (hconsistent : v.Consistent)
    (ha : a ∈ v.objects) :
    ∃ time, m₁.proxies.find? (proxyOf a) = some (.object (.ofObject a false time)) := by
  obtain ⟨o, ho, hidentity, time, hfind⟩ := h.find?_new a ha
  obtain rfl : o = a := hconsistent ho ha hidentity
  exact ⟨time, hfind⟩

/-- Only proxies that were there before have files. -/
theorem find?_of_ownedFile? (h : Wrapped m m₁ v proxyOf found)
    (hfind : m₁.proxies.find? id = some r) {path : Path}
    (hfile : Spillable.ownedFile? r = some path) : m.proxies.find? id = some r := by
  rw [← h.find?_old id, hfind]
  rintro a ha rfl
  obtain ⟨o, -, -, time, hnew⟩ := h.find?_new a ha
  rw [hfind, Option.some.injEq] at hnew
  subst hnew
  cases hfile

/-- Once the objects of a value have got proxies, these hold arrays as well. -/
theorem holding (h : Wrapped m m₁ v proxyOf found) (hholding : Holding wrapped m)
    (hconsistent : v.Consistent) (haddressable : ∀ a ∈ v.objects, a.IsAddressable) :
    Holding (joined v.objects proxyOf wrapped) m₁ := by
  have hcases : ∀ {id a}, joined v.objects proxyOf wrapped id = some a →
      (a ∈ v.objects ∧ proxyOf a = id) ∨
        (∀ b ∈ v.objects, proxyOf b ≠ id) ∧ wrapped id = some a := by
    intro id a hid
    by_cases hnew : ∃ b ∈ v.objects, proxyOf b = id
    · obtain ⟨b, hb, rfl⟩ := hnew
      rw [h.joined_proxyOf hconsistent hb, Option.some.injEq] at hid
      exact .inl ⟨hid ▸ hb, hid ▸ rfl⟩
    · have hother : ∀ b ∈ v.objects, proxyOf b ≠ id := fun b hb hsame => hnew ⟨b, hb, hsame⟩
      rw [joined_of_forall_ne hother] at hid
      exact .inr ⟨hother, hid⟩
  refine ⟨fun {id a} hid => ?_, fun {id a} hid => ?_,
    fun {id other a r s path} hid hr hs hfile hfile' => ?_, fun {id r n} hr hfile => ?_⟩
  · rcases hcases hid with ⟨ha, -⟩ | ⟨-, hold⟩
    · exact haddressable a ha
    · exact hholding.addressable hold
  · rcases hcases hid with ⟨ha, rfl⟩ | ⟨hother, hold⟩
    · obtain ⟨time, hfind⟩ := h.find?_proxyOf hconsistent ha
      exact ⟨_, hfind, .live⟩
    · obtain ⟨p, hfind, hholds⟩ := hholding.held hold
      rw [h.spill_eq]
      exact ⟨p, (h.find?_old id hother).trans hfind, hholds⟩
  · -- A proxy with a file is an old one, and among these files are not shared.
    have hr' := h.find?_of_ownedFile? hr hfile
    have hs' := h.find?_of_ownedFile? hs hfile'
    rcases hcases hid with ⟨ha, rfl⟩ | ⟨-, hold⟩
    · rw [h.find?_before a ha] at hr'
      cases hr'
    · exact hholding.alone hold hr' hs' hfile hfile'
  · rw [h.spill_eq] at hfile ⊢
    exact hholding.named (h.find?_of_ownedFile? hr hfile) hfile

/-- The proxies that are made are not explicit, and the others are as they were. -/
theorem isExplicit_eq (h : Wrapped m m₁ v proxyOf found) (id : ProxyId) :
    m₁.isExplicit id = m.isExplicit id := by
  by_cases hnew : ∃ a ∈ v.objects, proxyOf a = id
  · obtain ⟨a, ha, rfl⟩ := hnew
    obtain ⟨o, -, -, time, hfind⟩ := h.find?_new a ha
    rw [isExplicit, isExplicit, hfind, h.find?_before a ha]
    rfl
  · apply isExplicit_congr
    exact h.find?_old id fun a ha hsame => hnew ⟨a, ha, hsame⟩

/-- The proxies that are made are not attached. -/
theorem not_isAttached (h : Wrapped m m₁ v proxyOf found) (ha : a ∈ v.objects) :
    ¬ m₁.IsAttached (proxyOf a) := by
  rintro ⟨r, hr, hattached⟩
  obtain ⟨o, -, -, time, hfind⟩ := h.find?_new a ha
  rw [hfind, Option.some.injEq] at hr
  subst hr
  cases hattached

/-- With the arrays in the place of proxies, old and new, the wrapped value is what the value is
with them in the place of the proxies that were there before. -/
theorem resolve_shown? (h : Wrapped m m₁ v proxyOf found) (hconsistent : v.Consistent)
    (hexists : ∀ id ∈ v.proxies, ∃ r, m.proxies.find? id = some r) (skipExplicit : Bool) :
    (v.withProxies proxyOf).resolve (m₁.shown? (joined v.objects proxyOf wrapped) skipExplicit) =
      v.resolve (m.shown? wrapped skipExplicit) := by
  rw [Value.resolve_withProxies v]
  · apply Value.resolve_congr
    intro id hid
    obtain ⟨r, hr⟩ := hexists id hid
    rw [shown?, shown?, h.isExplicit_eq, joined_of_forall_ne (h.proxyOf_ne hr)]
  · -- New proxies are never left in their place, since they are not explicit.
    intro a ha
    have hexplicit : m.isExplicit (proxyOf a) = false := by
      rw [isExplicit, h.find?_before a ha]
      rfl
    rw [shown?, h.isExplicit_eq, hexplicit, Bool.and_false, h.joined_proxyOf hconsistent ha]
    rfl

end Wrapped

/-! ### Coherent memories -/

/-- The arrays that the proxies of a memory were made around. -/
def origins (log : List DeviceArray) (m : Memory (Proxy DeviceArray)) (id : ProxyId) :
    Option DeviceArray :=
  if m.isAlive id then origin? log id else none

/-- The proxies of a sound memory hold the arrays that they were made around. -/
theorem Sound.holding (h : Sound log m) : Holding (m.origins log) m := by
  have horigins : ∀ {id a}, m.origins log id = some a →
      origin? log id = some a ∧ ∃ p, m.proxies.find? id = some (.object p) := by
    intro id a hid
    rw [origins] at hid
    split at hid
    next halive => exact ⟨hid, h.exists_object halive⟩
    next => cases hid
  have hobject : ∀ {id r}, m.proxies.find? id = some r →
      ∃ p a, r = .object p ∧ Holds m.spill a p.form := by
    intro id r hr
    obtain ⟨p, a, hp, -, hholds⟩ := h.stands hr
    exact ⟨p, a, hp, hholds⟩
  refine ⟨fun hid => ?_, fun {id a} hid => ?_, fun {id other a r s path} _ hr hs hfile hfile' => ?_,
    fun {id r n} hr hfile => ?_⟩
  · exact h.addressable _ (mem_of_origin? (horigins hid).1)
  · obtain ⟨horigin, p, hfind⟩ := horigins hid
    exact ⟨p, hfind, h.holds hfind horigin⟩
  · obtain ⟨p, -, rfl, -⟩ := hobject hr
    obtain ⟨q, -, rfl, -⟩ := hobject hs
    rw [Proxy.ownedFile?_object] at hfile hfile'
    exact (h.owner_unique hr hs hfile hfile').symm
  · obtain ⟨p, a, rfl, hholds⟩ := hobject hr
    rw [Proxy.ownedFile?_object] at hfile
    obtain ⟨⟨k, hk, hpath⟩, -⟩ := hholds.exists_file hfile
    rw [m.spill.filePath_injective hpath]
    exact hk

/-- The proxies of a coherent memory give their objects, however often they were asked before, as
long as files can be written. -/
theorem Coherent.gives (h : Coherent log m) (hwritable : m.spill.Writable)
    (halive : ∀ id ∈ ids, m.isAlive id = true) (hasked : Asked ids m t) :
    ∀ id ∈ ids, ∃ a u, object id t = .ok a u := by
  have hobject : ∀ {t}, Advances log m t → ∀ id ∈ ids,
      ∃ a u, object id t = .ok a u ∧ Advances log m u := by
    intro t hadvances id hid
    obtain ⟨p, hfind⟩ := hadvances.coherent.exists_object (hadvances.isAlive halive id hid)
    obtain ⟨a, horigin, -⟩ := hadvances.coherent.exists_origin hfind
    obtain ⟨b, u, hrun, -, hadvances', -⟩ :=
      (object_ends hadvances.coherent hfind horigin).exists_ok
      fun _ _ hrefused => hrefused.2 (hadvances.writable_iff.2 hwritable)
    exact ⟨b, u, hrun, hadvances.trans hadvances'⟩
  -- Every access before this one has succeeded, and has left the memory coherent.
  have hadvances : Advances log m t := by
    induction hasked with
    | refl => exact .refl h
    | tail _ hstep ih =>
      obtain ⟨id, hid, a, hrun⟩ := hstep
      obtain ⟨b, u, hrun', hadvances⟩ := hobject ih id hid
      rw [hrun] at hrun'
      cases hrun'
      exact hadvances
  intro id hid
  obtain ⟨a, u, hrun, -⟩ := hobject hadvances id hid
  exact ⟨a, u, hrun⟩

/-! ### Wrapping and unwrapping -/

/-- Wrapping a value and unwrapping it are inverse. Wrapping puts one new proxy in the place of the
objects of each identity, finds every proxy that is in the value then, and leaves all else as it is.
Unwrapping gives the value with the arrays in the place of the proxies that hold them, as long as
the proxies that were there before give their objects when they are asked for them; explicit proxies
may be left. Wrapping the wrapped value again changes neither the value nor the memory. -/
theorem wrap_unwrap (h : m.Fresh) (hholding : Holding wrapped m) (v : Value DeviceArray)
    (hconsistent : v.Consistent) (haddressable : ∀ a ∈ v.objects, a.IsAddressable)
    (hwrapped : ∀ id ∈ v.proxies, ∃ a, wrapped id = some a) :
    ∃ proxyOf found m₁, wrap v m = .ok (v.withProxies proxyOf, found) m₁ ∧
      Wrapped m m₁ v proxyOf found ∧
      (∀ skipExplicit,
        (∀ t, Asked (m₁.asks skipExplicit (v.withProxies proxyOf)) m₁ t →
          ∀ id ∈ m.asks skipExplicit v, ∃ a u, object id t = .ok a u) →
        ∃ m₂, unwrap skipExplicit (v.withProxies proxyOf) m₁ =
          .ok (v.resolve (m.shown? wrapped skipExplicit)) m₂) ∧
      wrap (v.withProxies proxyOf) m₁ =
        .ok (v.withProxies proxyOf, (v.withProxies proxyOf).proxies) m₁ := by
  have hexists : ∀ id ∈ v.proxies, ∃ r, m.proxies.find? id = some r := by
    intro id hid
    obtain ⟨a, ha⟩ := hwrapped id hid
    obtain ⟨p, hfind, -⟩ := hholding.held ha
    exact ⟨_, hfind⟩
  obtain ⟨proxyOf, found, m₁, hwrap, hstate⟩ := wrap_eq h v fun id hid =>
    (Table.contains_iff _ _).2 (hexists id hid)
  refine ⟨proxyOf, found, m₁, hwrap, hstate, fun skipExplicit hgives => ?_,
    wrap_eq_self _ (Value.objects_withProxies proxyOf v) m₁⟩
  -- All proxies of the wrapped value hold arrays now, and hold them whatever is asked of the
  -- memory.
  have hkeeps := (hstate.holding hholding hconsistent haddressable).keeps
  have hjoined : ∀ id ∈ (v.withProxies proxyOf).proxies,
      ∃ a, joined v.objects proxyOf wrapped id = some a := by
    intro id hid
    rcases (Value.mem_proxies_withProxies_iff v id).1 hid with hold | ⟨a, ha, rfl⟩
    · obtain ⟨r, hr⟩ := hexists id hold
      rw [joined_of_forall_ne (hstate.proxyOf_ne hr)]
      exact hwrapped id hold
    · exact ⟨a, hstate.joined_proxyOf hconsistent ha⟩
  have hall : ∀ t, Asked (m₁.asks skipExplicit (v.withProxies proxyOf)) m₁ t →
      ∀ id ∈ m₁.asks skipExplicit (v.withProxies proxyOf), ∃ a u, object id t = .ok a u := by
    intro t ht id hid
    obtain ⟨hmem, hasked⟩ := List.mem_filter.1 hid
    rcases (Value.mem_proxies_withProxies_iff v id).1 hmem with hold | ⟨a, ha, rfl⟩
    · apply hgives t ht
      exact List.mem_filter.2 ⟨hold, hstate.isExplicit_eq id ▸ hasked⟩
    · -- The manager does not know the new proxies, so they give their objects as they are.
      obtain ⟨b, u, hrun, -⟩ := ((hkeeps.of_asked ht).object_ends
        (hstate.joined_proxyOf hconsistent ha)).exists_ok fun _ _ => hstate.not_isAttached ha
      exact ⟨b, u, hrun⟩
  have hasks : ∀ id ∈ (v.withProxies proxyOf).proxies, (skipExplicit && m₁.isExplicit id) = false →
      id ∈ m₁.asks skipExplicit (v.withProxies proxyOf) := by
    intro id hid hasked
    apply List.mem_filter.2
    simp [hid, hasked]
  -- What unwrapping shows of the wrapped value is what is shown of the value itself.
  obtain ⟨r, m₂, hrun, -, -, rfl⟩ := (hkeeps.unwrap_ends _ .refl hjoined hasks hall).exists_ok
    fun _ _ hbad => hbad
  rw [hstate.resolve_shown? hconsistent hexists] at hrun
  exact ⟨m₂, hrun⟩

/-- An array that occurs twice, beside a proxy. -/
def nestedArrays : Value DeviceArray :=
  .list [.object Store.smallArray, .list [.object Store.smallArray, .proxy ⟨1⟩], .int 3]

theorem wrap_unwrap_nested :
    ∃ proxyOf found m₁ m₂,
      wrap nestedArrays Store.spilledStore.memory =
        .ok (nestedArrays.withProxies proxyOf, found) m₁ ∧
      Wrapped Store.spilledStore.memory m₁ nestedArrays proxyOf found ∧
      unwrap false (nestedArrays.withProxies proxyOf) m₁ = .ok (.list [.object Store.smallArray,
        .list [.object Store.smallArray, .object Store.smallArray], .int 3]) m₂ := by
  have hcoherent := Store.run_spilledStore.coherent.memory
  have hobjects : nestedArrays.objects = [Store.smallArray, Store.smallArray] := rfl
  have haddressable : ∀ a ∈ nestedArrays.objects, a.IsAddressable := by
    intro a ha
    obtain rfl : a = Store.smallArray := by simpa [hobjects] using ha
    exact Store.isAddressable_smallArray
  have hconsistent : nestedArrays.Consistent := by
    intro a ha b hb _
    obtain rfl : a = Store.smallArray := by simpa [hobjects] using ha
    simpa [hobjects, eq_comm] using hb
  have hproxies : ∀ id ∈ nestedArrays.proxies, id = ⟨1⟩ := fun id hid => List.mem_singleton.1 hid
  obtain ⟨proxyOf, found, m₁, hwrap, hstate, hunwrap, -⟩ :=
    wrap_unwrap hcoherent.toSound.fresh hcoherent.toSound.holding nestedArrays hconsistent
      haddressable
      fun id hid => ⟨Store.smallArray, by rw [hproxies id hid]; rfl⟩
  obtain ⟨hcoherent₁, -, hfound, halive, -⟩ := (wrap_ends hcoherent haddressable
    fun id hid => by rw [hproxies id hid]; rfl).of_ok hwrap
  -- The store can write files, so the proxy gives its array.
  have hwritable : m₁.spill.Writable := hstate.spill_eq ▸ Store.run_spilledStore.writable
  obtain ⟨m₂, hrun⟩ := hunwrap false fun t ht id hid => by
    apply hcoherent₁.gives hwritable _ ht
    · apply List.mem_filter.2
      exact ⟨(Value.mem_proxies_withProxies_iff _ _).2 (.inl (List.mem_filter.1 hid).1), rfl⟩
    · exact fun other hother => halive other (hfound (List.mem_filter.1 hother).1)
  exact ⟨proxyOf, found, m₁, m₂, hwrap, hstate, hrun⟩

end Memory

end TieredStore
