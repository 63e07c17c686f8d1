import Mathlib.Tactic.ByCases
import TieredStore.Proofs.Total
import TieredStore.Registry

/-!
# What a ledger counts

A ledger that counts allocations keeps two maps, from proxies to allocations and back. They stay
inverses of each other through every arrival and departure, and the bytes that an arrival or a
departure reports are the change of the total over the allocations that are referred to.

* `Linked`: the proxies of each allocation are those that refer to it, and there is one.
* `attachBuffers_linked`, `detachBuffers_linked`: arrivals and departures keep the link.
* `Balanced`, `tally`, `lists`, `Records`: what a ledger says, whatever it counts by.
* `add_balanced`, `remove_balanced`: what an arrival and a departure change of that.
* `counted?`, `counted?_add`, `counted?_remove`: the size that an allocation counts is the one
  reported when it came, until it goes.
-/

namespace TieredStore

/-- The size that a report gives for an allocation, by its first entry if it has several. -/
def Report.sizeOf? (report : Report) (b : BufferId) : Option ℕ :=
  (report.buffers.find? fun buffer => buffer.id = b).map DeviceBuffer.size

/-- A size that a report gives is that of one of its entries. -/
theorem Report.exists_of_sizeOf? {report : Report} {b : BufferId} {n : ℕ}
    (h : report.sizeOf? b = some n) :
    ∃ buffer ∈ report.buffers, buffer.id = b ∧ buffer.size = n := by
  obtain ⟨buffer, hfind, hsize⟩ := Option.map_eq_some_iff.1 h
  exact ⟨buffer, List.mem_of_find?_eq_some hfind, by simpa using List.find?_some hfind, hsize⟩

namespace Ledger

/-- The proxies of each allocation are those that refer to it, and every listed allocation has
some. -/
structure Linked (refers : ProxyId → BufferId → Prop) (refs : Table BufferId BufferRefs) :
    Prop where
  /-- A proxy is listed at the allocations that it refers to, and at no others. -/
  refers_iff : ∀ id b, refers id b ↔ ∃ known, refs.find? b = some known ∧ id ∈ known.proxies
  /-- No allocation is listed without a proxy. -/
  nonempty : ∀ b known, refs.find? b = some known → known.proxies ≠ []

section Attach

variable {refers : ProxyId → BufferId → Prop} {refs : Table BufferId BufferRefs} {id : ProxyId}
  {held : List BufferId}

theorem Linked.congr {refers' : ProxyId → BufferId → Prop} (h : Linked refers refs)
    (hiff : ∀ id b, refers' id b ↔ refers id b) : Linked refers' refs :=
  ⟨fun id b => (hiff id b).trans (h.refers_iff id b), h.nonempty⟩

/-- One more proxy at an allocation that it did not refer to. -/
theorem Linked.insert (h : Linked refers refs) (hheld : ∀ b, refers id b ↔ b ∈ held)
    (buffer : DeviceBuffer) :
    Linked (fun other b => if other = id then b ∈ buffer.id :: held else refers other b)
      (refs.insert buffer.id ⟨((refs.find? buffer.id).getD ⟨buffer.size, []⟩).size,
        id :: ((refs.find? buffer.id).getD ⟨buffer.size, []⟩).proxies⟩) := by
  refine ⟨fun other b => ?_, fun b known hknown => ?_⟩
  · rw [Table.find?_insert]
    by_cases hb : b = buffer.id
    · subst hb
      by_cases hid : other = id
      · simp [hid]
      · -- The others at the allocation are those that were there before, if it was known.
        simp only [hid, if_false, if_true, Option.some.injEq, exists_eq_left', List.mem_cons,
          false_or]
        rw [h.refers_iff]
        cases refs.find? buffer.id <;> simp
    · rw [if_neg hb, ← h.refers_iff]
      by_cases hid : other = id
      · subst hid
        simp [hb, hheld]
      · simp [hid]
  · rw [Table.find?_insert] at hknown
    split at hknown
    · cases hknown
      simp
    · exact h.nonempty b known hknown

/-- The total grows by the size of the allocation if it had no proxies. -/
theorem Linked.total_insert (h : Linked refers refs) (id : ProxyId) (buffer : DeviceBuffer) :
    let known := (refs.find? buffer.id).getD ⟨buffer.size, []⟩
    (refs.insert buffer.id ⟨known.size, id :: known.proxies⟩).total BufferRefs.size =
      refs.total BufferRefs.size + if known.proxies.isEmpty then known.size else 0 := by
  intro known
  rcases hfind : refs.find? buffer.id with _ | old
  · -- The allocation is new, so it has no proxies yet.
    have hknown : known = ⟨buffer.size, []⟩ := by simp [known, hfind]
    rw [Table.total_insert_of_not_contains ((Table.contains_eq_false_iff _ _).2 hfind)]
    simp [hknown]
  · -- The allocation has some proxies and keeps its size.
    have hknown : known = old := by simp [known, hfind]
    have hsome : old.proxies.isEmpty = false := by
      simpa using h.nonempty buffer.id old hfind
    rw [Table.total_insert_of_weight_eq]
    · simp [hknown, hsome]
    · simp [Table.weight, hfind, hknown]

/-- What is known after a proxy has arrived: the allocations that it holds, the proxies of each
allocation, and the bytes that were added. -/
theorem attachBuffers_linked (buffers : List DeviceBuffer) (h : Linked refers refs)
    (hheld : ∀ b, refers id b ↔ b ∈ held) :
    Linked (fun other b => if other = id then b ∈ (attachBuffers id held refs buffers).1
        else refers other b) (attachBuffers id held refs buffers).2.1 ∧
      (∀ b, b ∈ (attachBuffers id held refs buffers).1 ↔
        b ∈ held ∨ b ∈ buffers.map DeviceBuffer.id) ∧
      (attachBuffers id held refs buffers).2.1.total BufferRefs.size =
        refs.total BufferRefs.size + (attachBuffers id held refs buffers).2.2 := by
  -- The proxy refers to more after each allocation, so the relation changes with the maps.
  induction buffers generalizing refers refs held with
  | nil =>
    refine ⟨h.congr fun other b => ?_, by simp [attachBuffers], rfl⟩
    by_cases hid : other = id
    · subst hid
      simp [hheld, attachBuffers]
    · simp [hid]
  | cons buffer buffers ih =>
    rw [attachBuffers]
    split
    next hmem =>
      -- The allocation has been reported before.
      obtain ⟨hlinked, hmem', htotal⟩ := ih h hheld
      refine ⟨hlinked, fun b => ?_, htotal⟩
      rw [hmem', List.map_cons, List.mem_cons]
      constructor
      · rintro (hb | hb)
        · exact .inl hb
        · exact .inr (.inr hb)
      · rintro (hb | rfl | hb)
        · exact .inl hb
        · exact .inl hmem
        · exact .inr hb
    next hmem =>
      have hstep := h.insert hheld buffer
      obtain ⟨hlinked, hmem', htotal⟩ := @ih _ _ (buffer.id :: held) hstep (by simp)
      refine ⟨hlinked.congr fun other b => ?_, fun b => ?_, ?_⟩
      · by_cases hid : other = id <;> simp [hid]
      · dsimp only
        rw [hmem', List.map_cons, List.mem_cons, List.mem_cons]
        tauto
      · dsimp only
        rw [htotal, h.total_insert id buffer, Nat.add_assoc]

/-- An allocation that was known keeps its size, and a new one has the size that was reported for
it first. -/
theorem find?_attachBuffers (buffers : List DeviceBuffer)
    (hheld : ∀ b ∈ held, refs.contains b = true) (b : BufferId) :
    ((attachBuffers id held refs buffers).2.1.find? b).map BufferRefs.size =
      ((refs.find? b).map BufferRefs.size).or
        ((buffers.find? fun buffer => buffer.id = b).map DeviceBuffer.size) := by
  induction buffers generalizing refs held with
  | nil => simp [attachBuffers]
  | cons buffer buffers ih =>
    rw [attachBuffers]
    split
    next hmem =>
      -- What the proxy holds is known, so this entry makes no difference.
      obtain ⟨known, hknown⟩ := (Table.contains_iff _ _).1 (hheld buffer.id hmem)
      rw [ih hheld]
      by_cases hb : buffer.id = b
      · simp [← hb, hknown]
      · simp [hb]
    next hmem =>
      dsimp only
      rw [ih fun c hc => ?_, Table.find?_insert]
      · by_cases hb : b = buffer.id
        · subst hb
          cases refs.find? buffer.id <;> simp
        · rw [if_neg hb, List.find?_cons_of_neg (by simpa using fun h => hb h.symm)]
      · rw [Table.contains_insert]
        rcases List.mem_cons.1 hc with rfl | hc
        · simp
        · simp [hheld c hc]

end Attach

section Detach

variable {refers : ProxyId → BufferId → Prop} {refs : Table BufferId BufferRefs} {id : ProxyId}

/-- Without one of its proxies an allocation keeps the others. -/
theorem Linked.shrink (h : Linked refers refs) {b : BufferId} {known : BufferRefs}
    (hfind : refs.find? b = some known)
    (hrest : known.proxies.filter (fun other => other ≠ id) ≠ []) :
    Linked (fun other c => refers other c ∧ ¬ (other = id ∧ c = b))
      (refs.insert b { known with proxies := known.proxies.filter (fun other => other ≠ id) }) := by
  refine ⟨fun other c => ?_, fun c found hfound => ?_⟩
  · rw [Table.find?_insert, h.refers_iff]
    by_cases hc : c = b
    · subst hc
      simp [hfind, List.mem_filter]
    · simp [hc]
  · rw [Table.find?_insert] at hfound
    split at hfound
    · cases hfound
      exact hrest
    · exact h.nonempty c found hfound

/-- An allocation goes with the last of its proxies. -/
theorem Linked.erase (h : Linked refers refs) {b : BufferId} {known : BufferRefs}
    (hfind : refs.find? b = some known)
    (hrest : known.proxies.filter (fun other => other ≠ id) = []) :
    Linked (fun other c => refers other c ∧ ¬ (other = id ∧ c = b)) (refs.erase b) := by
  have hlast : ∀ other ∈ known.proxies, other = id := by
    intro other hother
    by_contra hne
    have : other ∈ known.proxies.filter (fun other => other ≠ id) := by
      simpa [List.mem_filter] using ⟨hother, hne⟩
    rw [hrest] at this
    cases this
  refine ⟨fun other c => ?_, fun c found hfound => ?_⟩
  · rw [Table.find?_erase, h.refers_iff]
    by_cases hc : c = b
    · subst hc
      simpa [hfind] using hlast other
    · simp [hc]
  · rw [Table.find?_erase] at hfound
    split at hfound
    · cases hfound
    · exact h.nonempty c found hfound

/-- What is known after a proxy has left some allocations: the proxies of each allocation, and the
bytes that were taken off. -/
theorem detachBuffers_linked (buffers : List BufferId) (h : Linked refers refs) :
    Linked (fun other b => refers other b ∧ ¬ (other = id ∧ b ∈ buffers))
        (detachBuffers id refs buffers).1 ∧
      (detachBuffers id refs buffers).1.total BufferRefs.size + (detachBuffers id refs buffers).2 =
        refs.total BufferRefs.size := by
  induction buffers generalizing refers refs with
  | nil => simpa [detachBuffers] using h
  | cons b buffers ih =>
    -- A proxy that leaves `b` and then the rest leaves all of them.
    have hjoin : ∀ other c, ((refers other c ∧ ¬ (other = id ∧ c = b)) ∧
        ¬ (other = id ∧ c ∈ buffers)) ↔ refers other c ∧ ¬ (other = id ∧ c ∈ b :: buffers) := by
      intro other c
      rw [List.mem_cons]
      tauto
    rw [detachBuffers]
    split
    next hfind =>
      -- Nothing is known of `b`, so the proxy did not refer to it.
      have hnot : ¬ refers id b := by
        intro hrefers
        obtain ⟨known, hknown, -⟩ := (h.refers_iff id b).1 hrefers
        rw [hfind] at hknown
        cases hknown
      obtain ⟨hlinked, htotal⟩ := ih h
      refine ⟨hlinked.congr fun other c => ?_, htotal⟩
      rw [← hjoin, and_iff_left_of_imp (b := ¬ (other = id ∧ c = b))]
      rintro hrefers ⟨rfl, rfl⟩
      exact hnot hrefers
    next known hfind =>
      dsimp only
      split
      next hrest =>
        -- The last proxy takes the bytes of `b` with it.
        obtain ⟨hlinked, htotal⟩ := ih (h.erase hfind (by simpa using hrest))
        refine ⟨by simpa only [hjoin] using hlinked, ?_⟩
        have herase := Table.total_erase refs BufferRefs.size b
        simp only [Table.weight, hfind, Option.map_some, Option.getD_some] at herase
        dsimp only
        omega
      next hrest =>
        -- Others still refer to `b`, which counts as before.
        obtain ⟨hlinked, htotal⟩ := ih (Linked.shrink h hfind (by simpa using hrest))
        refine ⟨by simpa only [hjoin] using hlinked, ?_⟩
        rw [htotal, Table.total_insert_of_weight_eq]
        simp [Table.weight, hfind]

/-- An allocation that is still known after a departure keeps its size. -/
theorem find?_detachBuffers (buffers : List BufferId) {b : BufferId} {n : ℕ}
    (h : ((detachBuffers id refs buffers).1.find? b).map BufferRefs.size = some n) :
    (refs.find? b).map BufferRefs.size = some n := by
  induction buffers generalizing refs with
  | nil => exact h
  | cons c buffers ih =>
    rw [detachBuffers] at h
    split at h
    next => exact ih h
    next known hfind =>
      dsimp only at h
      split at h
      next =>
        have hrest := ih h
        rw [Table.find?_erase] at hrest
        split at hrest
        · cases hrest
        · exact hrest
      next =>
        have hrest := ih h
        rw [Table.find?_insert] at hrest
        split at hrest
        next hb => simpa [hb, hfind] using hrest
        next => exact hrest

end Detach

/-! ### Ledgers of either kind -/

/-- The maps of a ledger fit together. -/
def Balanced : Ledger → Prop
  | perProxy _ => True
  | perBuffer held refs => Linked (fun id b => b ∈ (held.find? id).getD []) refs

/-- The bytes that a ledger accounts for. -/
def tally : Ledger → ℕ
  | perProxy sizes => sizes.total (fun size => size)
  | perBuffer _ refs => refs.total BufferRefs.size

/-- Whether a proxy is entered. -/
def lists : Ledger → ProxyId → Bool
  | perProxy sizes, id => sizes.contains id
  | perBuffer held _, id => held.contains id

/-- Whether a ledger counts allocations. -/
def countsBuffers : Ledger → Bool
  | perProxy _ => false
  | perBuffer _ _ => true

/-- What a ledger has recorded of a proxy is what the report says. -/
def Records (ledger : Ledger) (id : ProxyId) (report : Report) : Prop :=
  match ledger with
  | perProxy sizes => sizes.find? id = some report.size
  | perBuffer held _ => ∃ buffers, held.find? id = some buffers ∧
      ∀ b, b ∈ buffers ↔ b ∈ report.buffers.map DeviceBuffer.id

/-- The size that an allocation counts. -/
def counted? : Ledger → BufferId → Option ℕ
  | perProxy _, _ => none
  | perBuffer _ refs, b => (refs.find? b).map BufferRefs.size

/-- Every allocation counts the size that `size` gives. -/
def Sized (size : BufferId → ℕ) (ledger : Ledger) : Prop :=
  ∀ b n, ledger.counted? b = some n → n = size b

theorem Records.lists {ledger : Ledger} {id : ProxyId} {report : Report}
    (h : ledger.Records id report) : ledger.lists id = true := by
  cases ledger with
  | perProxy sizes => exact Table.contains_of_find? h
  | perBuffer held refs =>
    obtain ⟨buffers, hfind, -⟩ := h
    exact Table.contains_of_find? hfind

/-- What one ledger makes of a proxy that another one is not asked about. -/
structure SameBut (old new : Ledger) (id : ProxyId) : Prop where
  /-- The ledger counts by the same things. -/
  countsBuffers_eq : new.countsBuffers = old.countsBuffers
  /-- The same other proxies are entered. -/
  lists_eq : ∀ other, other ≠ id → new.lists other = old.lists other
  /-- The records of the other proxies stay. -/
  records_iff : ∀ other report, other ≠ id → (new.Records other report ↔ old.Records other report)

/-- An arrival enters the proxy, records its report, and adds the bytes to the tally. -/
theorem add_balanced {ledger : Ledger} (h : ledger.Balanced) {id : ProxyId}
    (hid : ledger.lists id = false) (report : Report) :
    (ledger.add id report).1.Balanced ∧
      (ledger.add id report).1.tally = ledger.tally + (ledger.add id report).2 ∧
      (ledger.add id report).1.Records id report ∧
      SameBut ledger (ledger.add id report).1 id := by
  cases ledger with
  | perProxy sizes =>
    refine ⟨trivial, Table.total_insert_of_not_contains hid _ _, Table.find?_insert_self _ _ _,
      ⟨rfl, fun other hother => ?_, fun other report hother => ?_⟩⟩
    · simp [add, lists, Table.contains_insert, hother]
    · simp [add, Records, Table.find?_insert_of_ne _ _ hother]
  | perBuffer held refs =>
    have hnone : held.find? id = none := (Table.contains_eq_false_iff _ _).1 hid
    obtain ⟨hlinked, hmem, htotal⟩ :=
      @attachBuffers_linked _ _ id [] report.buffers h (by simp [hnone])
    simp only [add, hnone, Option.getD_none]
    refine ⟨hlinked.congr fun other b => ?_, htotal,
      ⟨_, Table.find?_insert_self _ _ _, by simpa using hmem⟩,
      ⟨rfl, fun other hother => ?_, fun other report hother => ?_⟩⟩
    · by_cases hother : other = id <;> simp [Table.find?_insert, hother]
    · simp [lists, Table.contains_insert, hother]
    · simp [Records, Table.find?_insert_of_ne _ _ hother]

/-- An arrival counts the allocations that were not counted yet, with the sizes that it reports. -/
theorem counted?_add {ledger : Ledger} (h : ledger.Balanced) (id : ProxyId) (report : Report)
    (b : BufferId) :
    (ledger.add id report).1.counted? b =
      (ledger.counted? b).or (if ledger.countsBuffers then report.sizeOf? b else none) := by
  cases ledger with
  | perProxy sizes => rfl
  | perBuffer held refs =>
    refine find?_attachBuffers report.buffers (fun c hc => ?_) b
    obtain ⟨known, hknown, -⟩ := (h.refers_iff id c).1 hc
    exact Table.contains_of_find? hknown

/-- A departure strikes the proxy out and takes the bytes off the tally. -/
theorem remove_balanced {ledger : Ledger} (h : ledger.Balanced) (id : ProxyId) :
    (ledger.remove id).1.Balanced ∧
      (ledger.remove id).1.tally + (ledger.remove id).2 = ledger.tally ∧
      (ledger.remove id).1.lists id = false ∧ SameBut ledger (ledger.remove id).1 id := by
  cases ledger with
  | perProxy sizes =>
    have htotal := Table.total_erase sizes (fun size => size) id
    refine ⟨trivial, by simpa [Table.weight, remove, tally] using htotal,
      by simp [remove, lists, Table.contains_erase],
      ⟨rfl, fun other hother => ?_, fun other report hother => ?_⟩⟩
    · simp [remove, lists, Table.contains_erase, hother]
    · simp [remove, Records, Table.find?_erase_of_ne _ hother]
  | perBuffer held refs =>
    obtain ⟨hlinked, htotal⟩ := @detachBuffers_linked _ _ id ((held.find? id).getD []) h
    refine ⟨hlinked.congr fun other b => ?_, htotal, by simp [remove, lists, Table.contains_erase],
      ⟨rfl, fun other hother => ?_, fun other report hother => ?_⟩⟩
    · by_cases hother : other = id
      · subst hother
        simp
      · simp [Table.find?_erase_of_ne _ hother, hother]
    · simp [remove, lists, Table.contains_erase, hother]
    · simp [remove, Records, Table.find?_erase_of_ne _ hother]

/-- What is still counted after a departure counts as before. -/
theorem counted?_remove {ledger : Ledger} {id : ProxyId} {b : BufferId} {n : ℕ}
    (h : (ledger.remove id).1.counted? b = some n) : ledger.counted? b = some n := by
  cases ledger with
  | perProxy sizes => cases h
  | perBuffer held refs => exact find?_detachBuffers _ h

end Ledger

end TieredStore
