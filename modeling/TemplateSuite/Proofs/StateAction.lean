namespace TemplateSuite.StateAction

variable {ε σ α β : Type}

theorem bind_apply (x : ExceptT ε (StateM σ) α) (f : α → ExceptT ε (StateM σ) β) (s : σ) :
    (x >>= f) s =
      match x s with
      | (.ok a, after) => f a after
      | (.error e, after) => (.error e, after) := by
  change (match x s with | (r, after) => ExceptT.bindCont f r after) = _
  rcases x s with ⟨_ | _, after⟩ <;> rfl

theorem bind_of_ok {x : ExceptT ε (StateM σ) α} {a : α} {s after : σ} (h : x s = (.ok a, after))
    (f : α → ExceptT ε (StateM σ) β) : (x >>= f) s = f a after := by
  rw [bind_apply, h]

theorem bind_of_error {x : ExceptT ε (StateM σ) α} {e : ε} {s after : σ}
    (h : x s = (.error e, after)) (f : α → ExceptT ε (StateM σ) β) :
    (x >>= f) s = (.error e, after) := by
  rw [bind_apply, h]

theorem get_bind_apply (f : σ → ExceptT ε (StateM σ) β) (s : σ) : (get >>= f) s = f s s :=
  bind_of_ok rfl f

theorem bind_eq_ok {x : ExceptT ε (StateM σ) α} {f : α → ExceptT ε (StateM σ) β} {b : β}
    {s after : σ} (h : (x >>= f) s = (.ok b, after)) :
    ∃ a between, x s = (.ok a, between) ∧ f a between = (.ok b, after) := by
  rw [bind_apply] at h
  split at h
  · rename_i a between hx
    exact ⟨a, between, hx, h⟩
  · cases h

theorem bind_eq_error {x : ExceptT ε (StateM σ) α} {f : α → ExceptT ε (StateM σ) β} {e : ε}
    {s after : σ} (h : (x >>= f) s = (.error e, after)) :
    x s = (.error e, after) ∨
      ∃ a between, x s = (.ok a, between) ∧ f a between = (.error e, after) := by
  rw [bind_apply] at h
  split at h
  · rename_i a between hx
    exact .inr ⟨a, between, hx, h⟩
  · rename_i e' between hx
    cases h
    exact .inl hx

/-- What `view` shows of the state stays the same, however the action ends. -/
def Preserves {γ : Type} (view : σ → γ) (x : ExceptT ε (StateM σ) α) : Prop :=
  ∀ s, view (x s).2 = view s

namespace Preserves

variable {γ : Type} {view : σ → γ}

theorem pure (a : α) : Preserves view (pure a : ExceptT ε (StateM σ) α) := fun _ => rfl

theorem throw (e : ε) : Preserves view (throw e : ExceptT ε (StateM σ) α) := fun _ => rfl

theorem bind {x : ExceptT ε (StateM σ) α} {f : α → ExceptT ε (StateM σ) β}
    (hx : Preserves view x) (hf : ∀ a, Preserves view (f a)) : Preserves view (x >>= f) := by
  intro s
  rw [bind_apply]
  split
  · rename_i a after hresult
    rw [hf a after, ← hx s, hresult]
  · rename_i e after hresult
    rw [← hx s, hresult]

theorem get_bind {f : σ → ExceptT ε (StateM σ) β} (h : ∀ s, Preserves view (f s)) :
    Preserves view (get >>= f) :=
  bind (fun _ => rfl) h

theorem forM {xs : List β} {f : β → ExceptT ε (StateM σ) Unit} (h : ∀ x, Preserves view (f x)) :
    Preserves view (xs.forM f) := by
  induction xs with
  | nil => exact pure ()
  | cons x rest ih => exact bind (h x) fun _ => ih

end Preserves

/-- From both states the action has the same result, and it leads to related states. -/
structure AgreesAt (R : σ → σ → Prop) (x : ExceptT ε (StateM σ) α) (s t : σ) : Prop where
  result_eq : (x t).1 = (x s).1
  related : R (x s).2 (x t).2

/-- The action cannot tell related states apart, and it leaves them related. -/
def Respects (R : σ → σ → Prop) (x : ExceptT ε (StateM σ) α) : Prop :=
  ∀ s t, R s t → AgreesAt R x s t

variable {R : σ → σ → Prop} {s t : σ}

namespace AgreesAt

theorem bind {x : ExceptT ε (StateM σ) α} {f : α → ExceptT ε (StateM σ) β}
    (hx : AgreesAt R x s t)
    (hf : ∀ a s' t', x s = (.ok a, s') → R s' t' → AgreesAt R (f a) s' t') :
    AgreesAt R (x >>= f) s t := by
  obtain ⟨hresult, hrelated⟩ := hx
  rcases hs : x s with ⟨result, s'⟩
  rcases ht : x t with ⟨result', t'⟩
  rw [hs, ht] at hresult hrelated
  obtain rfl : result' = result := hresult
  cases result' with
  | error e =>
      constructor
      · rw [bind_of_error hs, bind_of_error ht]
      · rw [bind_of_error hs, bind_of_error ht]
        exact hrelated
  | ok a =>
      obtain ⟨hresult, hrelated⟩ := hf a s' t' hs hrelated
      constructor
      · rw [bind_of_ok hs, bind_of_ok ht, hresult]
      · rw [bind_of_ok hs, bind_of_ok ht]
        exact hrelated

theorem get_bind {f : σ → ExceptT ε (StateM σ) β} (hsame : f t t = f s t)
    (h : AgreesAt R (f s) s t) : AgreesAt R (get >>= f) s t := by
  constructor
  · rw [get_bind_apply, get_bind_apply, hsame, h.result_eq]
  · rw [get_bind_apply, get_bind_apply, hsame]
    exact h.related

end AgreesAt

namespace Respects

theorem pure (a : α) : Respects R (pure a : ExceptT ε (StateM σ) α) :=
  fun _ _ h => ⟨rfl, h⟩

theorem throw (e : ε) : Respects R (throw e : ExceptT ε (StateM σ) α) :=
  fun _ _ h => ⟨rfl, h⟩

theorem bind {x : ExceptT ε (StateM σ) α} {f : α → ExceptT ε (StateM σ) β}
    (hx : Respects R x) (hf : ∀ a, Respects R (f a)) : Respects R (x >>= f) :=
  fun s t h => (hx s t h).bind fun a _ _ _ hafter => hf a _ _ hafter

theorem forM {xs : List β} {f : β → ExceptT ε (StateM σ) Unit}
    (h : ∀ x ∈ xs, Respects R (f x)) : Respects R (xs.forM f) := by
  induction xs with
  | nil => exact pure ()
  | cons x rest ih =>
      refine bind (h x List.mem_cons_self) fun _ => ?_
      exact ih fun y hmem => h y (List.mem_cons_of_mem x hmem)

end Respects

end TemplateSuite.StateAction
