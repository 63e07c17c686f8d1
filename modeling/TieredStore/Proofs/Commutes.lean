import TieredStore.Proofs.Outcome

/-!
# Actions that overlook a change of the state

`Commutes g x s` says that a change `g` of the state makes no difference to what the action `x` does
from `s`: it ends with the same result or error, and in the state that it would have left, changed
in the same way. Like `Ends`, it follows the ways in which actions are put together. Where a later
action overlooks the change only in some states, `Ends` says that the earlier ones lead to such a
state.
-/

namespace TieredStore

variable {ε σ α β : Type} {g : σ → σ} {s : σ}

/-- The same end in a changed state. -/
def changeState (g : σ → σ) : EStateM.Result ε σ α → EStateM.Result ε σ α
  | .ok a t => .ok a (g t)
  | .error e t => .error e (g t)

/-- From the changed state, `x` ends as it does from `s`, in the changed state of the end. -/
def Commutes (g : σ → σ) (x : EStateM ε σ α) (s : σ) : Prop := x (g s) = changeState g (x s)

namespace Commutes

theorem of_ok {x : EStateM ε σ α} (h : Commutes g x s) {a : α} {t : σ} (hx : x s = .ok a t) :
    x (g s) = .ok a (g t) := by
  rw [h, hx]
  rfl

theorem of_error {x : EStateM ε σ α} (h : Commutes g x s) {e : ε} {t : σ} (hx : x s = .error e t) :
    x (g s) = .error e (g t) := by
  rw [h, hx]
  rfl

/-- What follows a change of another part of the state starts from there. -/
theorem modify_bind {f : σ → σ} {k : PUnit → EStateM ε σ α} (hf : f (g s) = g (f s))
    (hk : Commutes g (k ⟨⟩) (f s)) : Commutes g (modify f >>= k) s := by
  show k ⟨⟩ (f (g s)) = _
  rw [hf]
  exact hk

theorem pure (a : α) : Commutes g (pure a : EStateM ε σ α) s := rfl

theorem throw (e : ε) : Commutes g (throw e : EStateM ε σ α) s := rfl

theorem modify {f : σ → σ} (h : f (g s) = g (f s)) :
    Commutes g (modify f : EStateM ε σ PUnit) s :=
  congrArg (EStateM.Result.ok PUnit.unit) h

theorem modifyGet {f : σ → α × σ} (h : f (g s) = ((f s).1, g (f s).2)) :
    Commutes g (modifyGet f : EStateM ε σ α) s := by
  show EStateM.Result.ok (f (g s)).1 (f (g s)).2 = .ok (f s).1 (g (f s).2)
  rw [h]

/-- What follows a look at the state has to see the same in it. -/
theorem get_bind {f : σ → EStateM ε σ α} (h : Commutes g (f s) s) (hf : f (g s) = f s) :
    Commutes g (get >>= f) s := by
  show f (g s) (g s) = _
  rw [hf]
  exact h

/-- The second action has to overlook the change where the first one ends. -/
theorem bind {x : EStateM ε σ β} {f : β → EStateM ε σ α} {ok : β → σ → Prop} {bad : ε → σ → Prop}
    (hx : Commutes g x s) (hends : Ends x s ok bad) (hf : ∀ b t, ok b t → Commutes g (f b) t) :
    Commutes g (x >>= f) s := by
  simp only [Commutes, Bind.bind, EStateM.bind]
  cases hend : x s with
  | ok b t =>
    rw [hx.of_ok hend]
    exact hf b t (hends.of_ok hend)
  | error e t =>
    rw [hx.of_error hend]
    rfl

/-- The case where the second action overlooks the change in every state. -/
theorem seq {x : EStateM ε σ β} {f : β → EStateM ε σ α} (hx : Commutes g x s)
    (hf : ∀ b t, Commutes g (f b) t) : Commutes g (x >>= f) s := by
  have hends : Ends x s (fun _ _ => True) fun _ _ => True := by
    unfold Ends
    split <;> trivial
  exact hx.bind hends fun b t _ => hf b t

/-- Results make no difference to states. -/
theorem map {x : EStateM ε σ β} (hx : Commutes g x s) {f : β → α} :
    Commutes g (x >>= fun b => Pure.pure (f b)) s :=
  hx.seq fun _ _ => .pure _

theorem tryCatch {x : EStateM ε σ α} {handle : ε → EStateM ε σ α} (hx : Commutes g x s)
    (hhandle : ∀ e t, Commutes g (handle e) t) : Commutes g (tryCatch x handle) s := by
  rw [Commutes, tryCatch_apply, tryCatch_apply]
  cases hend : x s with
  | ok a t =>
    rw [hx.of_ok hend]
    rfl
  | error e t =>
    rw [hx.of_error hend]
    exact hhandle e t

/-- A step for each element of a list. -/
theorem forEach {ι : Type} {step : ι → EStateM ε σ PUnit}
    (hstep : ∀ i t, Commutes g (step i) t) (items : List ι) : Commutes g (items.forM step) s := by
  induction items generalizing s with
  | nil => exact .pure _
  | cons i items ih => exact (hstep i s).seq fun _ _ => ih

/-- A step for each element that is left of a list, where `inv` holds of the elements that are
done. -/
theorem forM {ι : Type} {step : ι → EStateM ε σ PUnit}
    (inv : List ι → σ → Prop) (items : List ι)
    (hstep : ∀ done, ∀ i ∈ items, ∀ t, inv done t → Commutes g (step i) t ∧
      Ends (step i) t (fun _ u => inv (done ++ [i]) u) fun _ _ => True)
    (done : List ι) (h : inv done s) : Commutes g (items.forM step) s := by
  -- Each step moves one element over to those that are done.
  induction items generalizing done s with
  | nil => exact .pure _
  | cons i items ih =>
    obtain ⟨hcommutes, hends⟩ := hstep done i List.mem_cons_self s h
    exact hcommutes.bind hends fun _ t ht =>
      ih (fun done' j hj => hstep done' j (List.mem_cons_of_mem i hj)) _ ht

end Commutes

end TieredStore
