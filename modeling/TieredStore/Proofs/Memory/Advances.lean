import TieredStore.Proofs.Memory.Steps

/-!
# From one coherent memory to another

Operations end in a coherent memory with the proxies that were there before, and none of these
loses its place in the books.

* `Memory.Proceeds`: no proxy is stranded or struck from the books.
* `Memory.Advances`: what operations between coherent memories have in common.
* `Coherent.advances`, `Coherent.advances_of_reformed`: proxies that are relocated, or that change
  where they are.
* `Coherent.touch`, `Coherent.tick`: changes that leave everything in place.
-/

namespace TieredStore

namespace Memory

variable {log : List DeviceArray} {m m' m'' : Memory (Proxy DeviceArray)} {id : ProxyId}
  {p q : ObjectProxy DeviceArray} {a : DeviceArray} {tier : Tier}

/-- Under the same limits, no proxy is stranded or struck from the books that was not before. -/
structure Proceeds (m m' : Memory (Proxy DeviceArray)) : Prop extends SameLimits m m' where
  /-- No more proxies are stranded. -/
  stranded : ∀ id, m'.Stranded id → m.Stranded id
  /-- Proxies that were tracked unless live still are. -/
  enrolled : ∀ id, m.Enrolled id → m'.Enrolled id

/-- A coherent memory with the same proxies, none of which has lost its place. -/
structure Advances (log : List DeviceArray) (m m' : Memory (Proxy DeviceArray)) : Prop
    extends Kept m m', Proceeds m m' where
  /-- The memory is coherent. -/
  coherent : Coherent log m'

theorem Proceeds.refl (m : Memory (Proxy DeviceArray)) : Proceeds m m :=
  ⟨.refl m, fun _ hid => hid, fun _ hid => hid⟩

theorem Proceeds.trans (h : Proceeds m m') (h' : Proceeds m' m'') : Proceeds m m'' :=
  ⟨h.toSameLimits.trans h'.toSameLimits, fun id hid => h.stranded id (h'.stranded id hid),
    fun id hid => h'.enrolled id (h.enrolled id hid)⟩

theorem Advances.refl (h : Coherent log m) : Advances log m m :=
  { Kept.refl m, Proceeds.refl m with coherent := h }

theorem Advances.trans (h : Advances log m m') (h' : Advances log m' m'') : Advances log m m'' :=
  { h.toKept.trans h'.toKept, h.toProceeds.trans h'.toProceeds with coherent := h'.coherent }

/-- A relocated proxy is not stranded, and no other proxy is stranded by that. -/
theorem Relocated.stranded {ids : List ProxyId} (h : Relocated m m' ids tier)
    (hcoherent : Coherent log m) (hid : m'.Stranded id) : m.Stranded id := by
  by_cases hmem : id ∈ ids
  · -- The tier would have to be both that of its form and the device.
    obtain ⟨htracks, r, hr, hhost⟩ := hid
    have htier := h.tier_of_mem hcoherent.toSound hmem hr
    rw [h.tracks_iff, if_pos hmem] at htracks
    rw [← htracks, hhost] at htier
    cases htier
  · exact (stranded_congr (h.find?_eq id hmem) (h.tracks_iff_of_not_mem hmem)).1 hid

/-- A relocated proxy is tracked, and the others are where they were. -/
theorem Relocated.enrolled {ids : List ProxyId} (h : Relocated m m' ids tier)
    (hid : m.Enrolled id) : m'.Enrolled id := by
  by_cases hmem : id ∈ ids
  · exact fun _ _ _ => ⟨tier, (h.tracks_iff tier id).2 (by rw [if_pos hmem])⟩
  · exact (enrolled_congr (h.find?_eq id hmem) (h.tracks_iff_of_not_mem hmem)).2 hid

/-- Relocation leads from one coherent memory to another. -/
theorem Coherent.advances (h : Coherent log m) (hsound : Sound log m') {ids : List ProxyId}
    (hrelocated : Relocated m m' ids tier) : Advances log m m' :=
  { hrelocated.toKept with
    coherent := h.of_relocated hsound hrelocated
    stranded := fun _ hid => hrelocated.stranded h hid
    enrolled := fun _ hid => hrelocated.enrolled hid }

/-- A proxy that does not come to the host is stranded only if it was. -/
theorem Reformed.stranded (h : Reformed m m' id p q) (hfind : m.proxies.find? id = some (.object p))
    (hform : q.form.tier = .host → p.form.tier = .host) {other : ProxyId}
    (hother : m'.Stranded other) : m.Stranded other := by
  obtain ⟨htracks, r, hr, hhost⟩ := hother
  rw [h.manager_eq] at htracks
  rw [h.find?_eq] at hr
  split at hr
  next hid =>
    cases hr
    exact ⟨htracks, p, hid ▸ hfind, hform hhost⟩
  next => exact ⟨htracks, r, hr, hhost⟩

/-- A proxy that does not leave the device stays tracked unless it is live. -/
theorem Reformed.enrolled (h : Reformed m m' id p q) (hfind : m.proxies.find? id = some (.object p))
    (hform : q.form.tier ≠ .device → p.form.tier ≠ .device) {other : ProxyId}
    (hother : m.Enrolled other) : m'.Enrolled other := by
  intro r hr htier
  rw [h.manager_eq]
  rw [h.find?_eq] at hr
  split at hr
  next hid =>
    cases hr
    exact hother p (hid ▸ hfind) (hform htier)
  next => exact hother r hr htier

/-- A proxy that changes within its tier leaves everything in place. -/
theorem Coherent.advances_of_reformed (h : Coherent log m) (hsound : Sound log m')
    (hfind : m.proxies.find? id = some (.object p)) (hreformed : Reformed m m' id p q)
    (htier : q.form.tier = p.form.tier) : Advances log m m' :=
  { hreformed.toKept with
    coherent := h.of_reformed hsound hreformed fun _ htracks => by
      rw [htier]
      exact h.tier_eq_or hfind htracks
    stranded := fun _ hid => hreformed.stranded hfind (fun hhost => htier ▸ hhost) hid
    enrolled := fun _ hid => hreformed.enrolled hfind (fun hform => htier ▸ hform) hid }

/-- A proxy that changes in other respects than its form leaves everything in place. -/
theorem Coherent.touch (h : Coherent log m) (hfind : m.proxies.find? id = some (.object p))
    (hform : q.form = p.form) (hattached : p.isAttached = true → q.isAttached = true)
    (hexplicit : q.isExplicit = p.isExplicit) :
    Advances log m { m with proxies := m.proxies.insert id (.object q) } ∧
      Reformed m { m with proxies := m.proxies.insert id (.object q) } id p q := by
  obtain ⟨a, horigin, hholds⟩ := h.exists_origin hfind
  have hsize : q.form.tier = p.form.tier → q.size = p.size := by
    intro _
    rw [ObjectProxy.size, ObjectProxy.size, hform]
  have hfiles : m.spill.Rewrites m.spill p.form.file? q.form.file? := by
    rw [hform]
    exact .refl _ _
  obtain ⟨hsound, hreformed⟩ := h.reform hfind horigin hattached hexplicit (hform ▸ hholds)
    hfiles (h.tier_eq_or_device hfind) hsize
  exact ⟨h.advances_of_reformed hsound hfind hreformed (by rw [hform]), hreformed⟩

/-- Time passes without effect. -/
theorem Coherent.tick (h : Coherent log m) (clock : Int) : Advances log m { m with clock } where
  toKept := SameLimits.kept ⟨rfl, rfl, rfl, rfl, .refl _⟩ rfl
  coherent :=
    ⟨⟨h.nextId_eq, h.addressable, h.stands, h.owner_unique, h.owned, h.exact, h.attached,
      h.recorded, h.sized, h.isManaged_eq⟩, h.seated_or_stranded⟩
  stranded _ hid := hid
  enrolled _ hid := hid

end Memory

end TieredStore
