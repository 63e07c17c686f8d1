import TieredStore.Memory

/-!
# How actions end

`Ends x s ok bad` says that the action `x`, started in the state `s`, ends with a result and a state
as `ok` says, or with an error and a state as `bad` says. Its laws follow the ways in which actions
are put together, so an action is taken apart by rewriting with them. An action that is not to fail
has `bad` never hold.

`forM_eq_error_iff` says where a loop fails.

`Leaves x s inv` is the case where the state is described in the same way for both, so what one step
preserves is preserved by what is made of such steps. `stateAfter x s` is that state.
-/

namespace TieredStore

variable {ε σ α β : Type}

/-- Nothing is restored when a handler starts, so it sees what the action has left. -/
theorem tryCatch_apply (x : EStateM ε σ α) (handle : ε → EStateM ε σ α) (s : σ) :
    tryCatch x handle s = match x s with
      | .ok a t => .ok a t
      | .error e t => handle e t := by
  show EStateM.tryCatch x handle s = _
  delta EStateM.tryCatch
  cases x s <;> rfl

theorem exists_ok_of_isSome {x : EStateM ε σ α} {s : σ} (h : (x.run' s).isSome = true) :
    ∃ a t, x s = .ok a t := by
  delta EStateM.run' EStateM.run at h
  cases hx : x s with
  | ok a t => exact ⟨a, t, rfl⟩
  | error e t =>
    rw [hx] at h
    cases h

theorem exists_error_of_isNone {x : EStateM ε σ α} {s : σ} (h : (x.run' s).isNone = true) :
    ∃ e t, x s = .error e t := by
  delta EStateM.run' EStateM.run at h
  cases hx : x s with
  | ok a t =>
    rw [hx] at h
    cases h
  | error e t => exact ⟨e, t, rfl⟩

/-- The error that an action fails with. -/
def failure? (x : EStateM ε σ α) (s : σ) : Option ε :=
  match x s with
  | .ok _ _ => none
  | .error e _ => some e

theorem exists_error_of_failure? {x : EStateM ε σ α} {s : σ} {e : ε} (h : failure? x s = some e) :
    ∃ t, x s = .error e t := by
  rw [failure?] at h
  split at h
  next => cases h
  next t hx =>
    cases h
    exact ⟨t, hx⟩

/-- The state that an action leaves, whether it succeeds or fails. -/
def stateAfter (x : EStateM ε σ α) (s : σ) : σ :=
  match x s with
  | .ok _ t => t
  | .error _ t => t

/-! ### Loops that fail -/

theorem forM_cons_apply {ι : Type} (step : ι → EStateM ε σ PUnit) (i : ι) (items : List ι) (s : σ) :
    (i :: items).forM step s = match step i s with
      | .ok _ t => items.forM step t
      | .error e t => .error e t := by
  show EStateM.bind (step i) (fun _ => items.forM step) s = _
  rw [EStateM.bind]
  cases step i s <;> rfl

/-- Steps for the elements of a list fail where the step for one of them fails, once those before it
have succeeded. -/
theorem forM_eq_error_iff {ι : Type} {step : ι → EStateM ε σ PUnit} {items : List ι} {s s' : σ}
    {e : ε} : items.forM step s = .error e s' ↔ ∃ done i rest t, items = done ++ i :: rest ∧
      done.forM step s = .ok ⟨⟩ t ∧ step i t = .error e s' := by
  induction items generalizing s with
  | nil =>
    refine iff_of_false (fun h => by cases h) ?_
    rintro ⟨done, i, rest, t, hitems, -⟩
    exact List.cons_ne_nil i rest (List.append_eq_nil_iff.1 hitems.symm).2
  | cons j items ih =>
    rw [forM_cons_apply]
    constructor
    · intro h
      cases hstep : step j s with
      | ok a t =>
        rw [hstep] at h
        obtain ⟨done, i, rest, u, rfl, hdone, hfail⟩ := ih.1 h
        refine ⟨j :: done, i, rest, u, rfl, ?_, hfail⟩
        rw [forM_cons_apply, hstep]
        exact hdone
      | error e' t =>
        -- Nothing is done if the first step fails.
        rw [hstep] at h
        exact ⟨[], j, items, s, rfl, rfl, hstep.trans h⟩
    · rintro ⟨done, i, rest, t, hitems, hdone, hfail⟩
      cases done with
      | nil =>
        cases hitems
        cases hdone
        rw [hfail]
      | cons k done =>
        rw [List.cons_append, List.cons.injEq] at hitems
        obtain ⟨rfl, rfl⟩ := hitems
        rw [forM_cons_apply] at hdone
        cases hstep : step j s with
        | ok a u =>
          rw [hstep] at hdone
          exact ih.2 ⟨done, i, rest, t, rfl, hdone, hfail⟩
        | error e' u =>
          rw [hstep] at hdone
          cases hdone

/-- `x` ends from `s` with a result as `ok` says, or with an error as `bad` says. -/
def Ends (x : EStateM ε σ α) (s : σ) (ok : α → σ → Prop) (bad : ε → σ → Prop) : Prop :=
  match x s with
  | .ok a t => ok a t
  | .error e t => bad e t

/-- No error at all. -/
def Never (_ : ε) (_ : σ) : Prop := False

namespace Ends

variable {s : σ} {ok ok' : α → σ → Prop} {bad bad' : ε → σ → Prop}

theorem mono {x : EStateM ε σ α} (h : Ends x s ok bad) (hok : ∀ a t, ok a t → ok' a t)
    (hbad : ∀ e t, bad e t → bad' e t) : Ends x s ok' bad' := by
  unfold Ends at h ⊢
  split at h
  · exact hok _ _ h
  · exact hbad _ _ h

/-- An action ends in the way in which it does. -/
theorem of_forall {x : EStateM ε σ α} (hok : ∀ a t, x s = .ok a t → ok a t)
    (hbad : ∀ e t, x s = .error e t → bad e t) : Ends x s ok bad := by
  unfold Ends
  cases hx : x s with
  | ok a t => exact hok a t hx
  | error e t => exact hbad e t hx

theorem mono_ok {x : EStateM ε σ α} (h : Ends x s ok bad) (hok : ∀ a t, ok a t → ok' a t) :
    Ends x s ok' bad :=
  h.mono hok fun _ _ => id

theorem mono_bad {x : EStateM ε σ α} (h : Ends x s ok bad) (hbad : ∀ e t, bad e t → bad' e t) :
    Ends x s ok bad' :=
  h.mono (fun _ _ => id) hbad

/-- What does not fail does not fail in any particular way. -/
theorem of_never {x : EStateM ε σ α} (h : Ends x s ok Never) (hok : ∀ a t, ok a t → ok' a t) :
    Ends x s ok' bad :=
  h.mono hok fun _ _ => False.elim

theorem of_ok {x : EStateM ε σ α} (h : Ends x s ok bad) {a : α} {t : σ} (hx : x s = .ok a t) :
    ok a t := by
  simpa [Ends, hx] using h

theorem of_error {x : EStateM ε σ α} (h : Ends x s ok bad) {e : ε} {t : σ}
    (hx : x s = .error e t) : bad e t := by
  simpa [Ends, hx] using h

/-- What two accounts say of the end of one action holds together. -/
theorem and {x : EStateM ε σ α} (h : Ends x s ok bad) (h' : Ends x s ok' bad') :
    Ends x s (fun a t => ok a t ∧ ok' a t) (fun e t => bad e t ∧ bad' e t) := by
  unfold Ends at h h' ⊢
  cases hx : x s with
  | ok a t =>
    rw [hx] at h h'
    exact ⟨h, h'⟩
  | error e t =>
    rw [hx] at h h'
    exact ⟨h, h'⟩

/-- An action that does not fail succeeds. -/
theorem exists_ok {x : EStateM ε σ α} (h : Ends x s ok bad) (hbad : ∀ e t, ¬ bad e t) :
    ∃ a t, x s = .ok a t ∧ ok a t := by
  cases hx : x s with
  | ok a t => exact ⟨a, t, rfl, h.of_ok hx⟩
  | error e t => exact absurd (h.of_error hx) (hbad e t)

/-- An action that does not succeed fails. -/
theorem exists_error {x : EStateM ε σ α} (h : Ends x s ok bad) (hok : ∀ a t, ¬ ok a t) :
    ∃ e t, x s = .error e t ∧ bad e t := by
  cases hx : x s with
  | ok a t => exact absurd (h.of_ok hx) (hok a t)
  | error e t => exact ⟨e, t, rfl, h.of_error hx⟩

/-- An action that can only end in one way ends in that way. -/
theorem eq_ok {x : EStateM ε σ α} {a : α} {t : σ}
    (h : Ends x s (fun b u => b = a ∧ u = t) Never) : x s = .ok a t := by
  obtain ⟨b, u, hx, rfl, rfl⟩ := h.exists_ok fun _ _ => not_false
  exact hx

@[simp]
theorem pure_iff (a : α) : Ends (pure a : EStateM ε σ α) s ok bad ↔ ok a s := Iff.rfl

@[simp]
theorem throw_iff (e : ε) : Ends (throw e : EStateM ε σ α) s ok bad ↔ bad e s := Iff.rfl

/-- A sequence of actions ends as the second one does from where the first one ends. -/
@[simp]
theorem bind_iff {x : EStateM ε σ β} {f : β → EStateM ε σ α} :
    Ends (x >>= f) s ok bad ↔ Ends x s (fun b t => Ends (f b) t ok bad) bad := by
  simp only [Ends, bind, EStateM.bind]
  cases x s <;> rfl

@[simp]
theorem get_iff {ok : σ → σ → Prop} : Ends (get : EStateM ε σ σ) s ok bad ↔ ok s s := Iff.rfl

@[simp]
theorem modify_iff (f : σ → σ) {ok : PUnit → σ → Prop} :
    Ends (modify f : EStateM ε σ PUnit) s ok bad ↔ ok ⟨⟩ (f s) := Iff.rfl

@[simp]
theorem modifyGet_iff (f : σ → α × σ) :
    Ends (modifyGet f : EStateM ε σ α) s ok bad ↔ ok (f s).1 (f s).2 := Iff.rfl

/-- An action with a handler ends as the action does, or as the handler does from where the action
fails. -/
@[simp]
theorem tryCatch_iff {x : EStateM ε σ α} {handle : ε → EStateM ε σ α} :
    Ends (tryCatch x handle) s ok bad ↔
      Ends x s ok (fun e t => Ends (handle e) t ok bad) := by
  rw [Ends, tryCatch_apply, Ends]
  cases x s <;> rfl

/-- Steps for the rest of a list, once some of them are done. -/
theorem forM_of_append {ι : Type} {step : ι → EStateM ε σ PUnit} (inv : List ι → σ → Prop)
    {items : List ι}
    (hstep : ∀ done i rest, items = done ++ i :: rest → ∀ t, inv done t →
      Ends (step i) t (fun _ u => inv (done ++ [i]) u) bad)
    {done rest : List ι} (hitems : items = done ++ rest) (h : inv done s) :
    Ends (rest.forM step) s (fun _ t => inv items t) bad := by
  -- Each step moves one element over to those that are done.
  induction rest generalizing done s with
  | nil =>
    rw [List.append_nil] at hitems
    subst hitems
    exact h
  | cons i rest ih =>
    show Ends (step i >>= fun _ => rest.forM step) s _ bad
    rw [bind_iff]
    refine (hstep done i rest hitems s h).mono_ok fun _ t ht => ?_
    exact ih (by rw [hitems, List.append_assoc, List.singleton_append]) ht

/-- A step for each element of a list, where `inv` holds of the elements that are done, and a step
may rely on where its element stands. -/
theorem forM_prefix {ι : Type} {step : ι → EStateM ε σ PUnit} (inv : List ι → σ → Prop)
    (items : List ι)
    (hstep : ∀ done i rest, items = done ++ i :: rest → ∀ t, inv done t →
      Ends (step i) t (fun _ u => inv (done ++ [i]) u) bad)
    (h : inv [] s) : Ends (items.forM step) s (fun _ t => inv items t) bad :=
  forM_of_append inv hstep (List.nil_append items).symm h

/-- A step for each element of a list, where `inv` holds of the elements that are done. -/
theorem forM {ι : Type} {step : ι → EStateM ε σ PUnit} (inv : List ι → σ → Prop) (items : List ι)
    (hstep : ∀ done, ∀ i ∈ items, ∀ t, inv done t →
      Ends (step i) t (fun _ u => inv (done ++ [i]) u) bad)
    (h : inv [] s) : Ends (items.forM step) s (fun _ t => inv items t) bad := by
  refine forM_prefix inv items (fun done i rest hitems => hstep done i ?_) h
  rw [hitems]
  exact List.mem_append_right done List.mem_cons_self

end Ends

/-- The state that `x` leaves from `s` is as `inv` says, whether `x` succeeds or fails. -/
abbrev Leaves (x : EStateM ε σ α) (s : σ) (inv : σ → Prop) : Prop :=
  Ends x s (fun _ => inv) (fun _ => inv)

namespace Leaves

variable {s : σ} {inv inv' : σ → Prop}

theorem imp {x : EStateM ε σ α} (h : Leaves x s inv) (himp : ∀ t, inv t → inv' t) :
    Leaves x s inv' :=
  Ends.mono h (fun _ => himp) fun _ => himp

/-- What is left of every way to end is left of the one that is taken. -/
theorem stateAfter {x : EStateM ε σ α} (h : Leaves x s inv) : inv (stateAfter x s) := by
  rw [TieredStore.stateAfter]
  rw [Leaves, Ends] at h
  split at h <;> exact h

/-- What the first action leaves as it should be, the second one has to, too. -/
theorem bind {x : EStateM ε σ β} {f : β → EStateM ε σ α} (hx : Leaves x s inv)
    (hf : ∀ b t, inv t → Leaves (f b) t inv) : Leaves (x >>= f) s inv :=
  Ends.bind_iff.2 (hx.mono_ok hf)

/-- Results make no difference to states. -/
theorem map {x : EStateM ε σ β} (hx : Leaves x s inv) {f : β → α} :
    Leaves (x >>= fun b => pure (f b)) s inv :=
  hx.bind fun _ _ ht => ht

/-- A handler goes on from where the action fails. -/
theorem tryCatch {x : EStateM ε σ α} {handle : ε → EStateM ε σ α} (hx : Leaves x s inv)
    (hhandle : ∀ e t, inv t → Leaves (handle e) t inv) :
    Leaves (MonadExcept.tryCatch x handle) s inv :=
  Ends.tryCatch_iff.2 (hx.mono (fun _ _ ht => ht) hhandle)

/-- What each step for an element of a list preserves, all of them preserve. -/
theorem forM {ι : Type} {step : ι → EStateM ε σ PUnit} (items : List ι)
    (hstep : ∀ i ∈ items, ∀ t, inv t → Leaves (step i) t inv) (h : inv s) :
    Leaves (items.forM step) s inv :=
  Ends.forM (fun _ => inv) items (fun _ => hstep) h

end Leaves

end TieredStore
