import Mathlib.Data.List.Forall2

namespace TemplateSuite.Traversal

universe u v

variable {ε : Type u} {α : Type v} {β : Type u}

theorem bind_eq_ok {γ δ : Type v} {x : Except ε γ} {f : γ → Except ε δ} {b : δ}
    (h : x >>= f = .ok b) : ∃ a, x = .ok a ∧ f a = .ok b := by
  cases x with
  | error e => cases h
  | ok a => exact ⟨a, rfl, h⟩

theorem mapError_eq_ok_iff {ε' : Type u} {change : ε → ε'} {x : Except ε β} {b : β} :
    x.mapError change = .ok b ↔ x = .ok b := by
  cases x with
  | error e => exact iff_of_false nofun nofun
  | ok a => simp [Except.mapError]

theorem bind_of_ok {γ δ : Type v} {x : Except ε γ} {a : γ} (h : x = .ok a)
    (f : γ → Except ε δ) : x >>= f = f a := by
  rw [h]
  rfl

theorem mapM_eq_ok_iff {f : α → Except ε β} {xs : List α} {ys : List β} :
    xs.mapM f = .ok ys ↔ List.Forall₂ (fun x y => f x = .ok y) xs ys := by
  induction xs generalizing ys with
  | nil =>
      rw [List.forall₂_nil_left_iff]
      exact ⟨fun h => (Except.ok.inj h).symm, fun h => by rw [h]; rfl⟩
  | cons x rest ih =>
      rw [List.mapM_cons, List.forall₂_cons_left_iff]
      cases hx : f x with
      | error e => simp [bind, Except.bind]
      | ok y =>
          cases hrest : rest.mapM f with
          | error e => simp [bind, Except.bind, ← ih, hrest]
          | ok found => simp [bind, Except.bind, pure, Except.pure, ← ih, hrest, eq_comm]

theorem exists_forall₂_iff {γ : Type v} {δ : Type u} {R : γ → δ → Prop} {xs : List γ} :
    (∃ ys, List.Forall₂ R xs ys) ↔ ∀ x ∈ xs, ∃ y, R x y := by
  induction xs with
  | nil => simp
  | cons x rest ih =>
      simp only [List.forall₂_cons_left_iff, List.forall_mem_cons, ← ih]
      constructor
      · rintro ⟨_, y, ys, hx, hrest, rfl⟩
        exact ⟨⟨y, hx⟩, ys, hrest⟩
      · rintro ⟨⟨y, hx⟩, ys, hrest⟩
        exact ⟨y :: ys, y, ys, hx, hrest, rfl⟩

theorem exists_mapM_eq_ok_iff {f : α → Except ε β} {xs : List α} :
    (∃ ys, xs.mapM f = .ok ys) ↔ ∀ x ∈ xs, ∃ y, f x = .ok y := by
  simp only [mapM_eq_ok_iff, exists_forall₂_iff]

theorem exists_map_of_mapM [Inhabited β] {f : α → Except ε β} {xs : List α} {ys : List β}
    (h : xs.mapM f = .ok ys) : ∃ g : α → β, (∀ x ∈ xs, f x = .ok (g x)) ∧ xs.map g = ys := by
  have hvalue : ∀ {x y}, f x = .ok y → (f x).toOption.getD default = y := by
    rintro x y hy
    rw [hy]
    rfl
  refine ⟨fun x => (f x).toOption.getD default, fun x hx => ?_, ?_⟩
  · obtain ⟨y, hy⟩ := exists_mapM_eq_ok_iff.mp ⟨ys, h⟩ x hx
    exact hy.trans (congrArg Except.ok (hvalue hy).symm)
  · rw [← List.forall₂_eq_eq_eq, List.forall₂_map_left_iff]
    exact (mapM_eq_ok_iff.mp h).imp fun _ _ => hvalue

theorem exists_of_mapM_error {f : α → Except ε β} {xs : List α} {e : ε}
    (h : xs.mapM f = .error e) : ∃ x ∈ xs, f x = .error e := by
  induction xs with
  | nil => cases h
  | cons x rest ih =>
      rw [List.mapM_cons] at h
      cases hx : f x with
      | error found =>
          rw [hx] at h
          cases h
          exact ⟨x, List.mem_cons_self, hx⟩
      | ok y =>
          cases hrest : rest.mapM f with
          | error found =>
              rw [hx, hrest] at h
              cases h
              obtain ⟨z, hz, herror⟩ := ih hrest
              exact ⟨z, List.mem_cons_of_mem _ hz, herror⟩
          | ok found =>
              rw [hx, hrest] at h
              cases h

theorem mapM_eq_error_iff {f : α → Except ε β} {xs : List α} {e : ε} :
    xs.mapM f = .error e ↔
      ∃ front x back, xs = front ++ x :: back ∧ (∀ y ∈ front, ∃ b, f y = .ok b) ∧
        f x = .error e := by
  induction xs with
  | nil => simp [pure, Except.pure]
  | cons x rest ih =>
      rw [List.mapM_cons]
      cases hx : f x with
      | error found =>
          constructor
          · intro h
            cases h
            exact ⟨[], x, rest, rfl, nofun, hx⟩
          · rintro ⟨front, y, back, hsplit, hfront, hy⟩
            obtain ⟨rfl, hxy⟩ | ⟨others, rfl, -⟩ := List.cons_eq_append_iff.mp hsplit
            · cases hxy
              cases hx.symm.trans hy
              rfl
            · obtain ⟨b, hb⟩ := hfront x List.mem_cons_self
              cases hx.symm.trans hb
      | ok b =>
          have hrest : (do let b ← Except.ok b; let bs ← rest.mapM f; pure (b :: bs)) = .error e ↔
              rest.mapM f = .error e := by
            cases rest.mapM f <;> simp [bind, Except.bind, pure, Except.pure]
          rw [hrest, ih]
          constructor
          · rintro ⟨front, y, back, rfl, hfront, hy⟩
            exact ⟨x :: front, y, back, rfl, List.forall_mem_cons.mpr ⟨⟨b, hx⟩, hfront⟩, hy⟩
          · rintro ⟨front, y, back, hsplit, hfront, hy⟩
            obtain ⟨rfl, hxy⟩ | ⟨others, rfl, hrest⟩ := List.cons_eq_append_iff.mp hsplit
            · cases hxy
              cases hx.symm.trans hy
            · exact ⟨others, y, back, hrest, (List.forall_mem_cons.mp hfront).2, hy⟩

theorem mapM_congr {f g : α → Except ε β} {xs : List α} (h : ∀ x ∈ xs, f x = g x) :
    xs.mapM f = xs.mapM g := by
  induction xs with
  | nil => rfl
  | cons x rest ih =>
      rw [List.mapM_cons, List.mapM_cons, h x List.mem_cons_self,
        ih fun y hy => h y (List.mem_cons_of_mem _ hy)]

/-- Both give a value, or both give the same error. -/
def SameOutcome {γ : Type v} (x y : Except ε γ) : Prop :=
  (∃ a b, x = .ok a ∧ y = .ok b) ∨ ∃ e, x = .error e ∧ y = .error e

theorem SameOutcome.refl {γ : Type v} (x : Except ε γ) : SameOutcome x x := by
  cases x with
  | ok a => exact .inl ⟨a, a, rfl, rfl⟩
  | error e => exact .inr ⟨e, rfl, rfl⟩

theorem SameOutcome.map {γ δ : Type v} {x y : Except ε γ} (h : SameOutcome x y) (f g : γ → δ) :
    SameOutcome (x.map f) (y.map g) := by
  rcases h with ⟨a, b, rfl, rfl⟩ | ⟨e, rfl, rfl⟩
  · exact .inl ⟨f a, g b, rfl, rfl⟩
  · exact .inr ⟨e, rfl, rfl⟩

theorem mapM_sameOutcome {f g : α → Except ε β} {xs : List α}
    (h : ∀ x ∈ xs, SameOutcome (f x) (g x)) : SameOutcome (xs.mapM f) (xs.mapM g) := by
  induction xs with
  | nil => exact .refl _
  | cons x rest ih =>
      rw [List.mapM_cons, List.mapM_cons]
      rcases h x List.mem_cons_self with ⟨a, b, hf, hg⟩ | ⟨e, hf, hg⟩
      · rw [hf, hg]
        exact (ih fun y hy => h y (List.mem_cons_of_mem _ hy)).map (a :: ·) (b :: ·)
      · rw [hf, hg]
        exact .inr ⟨e, rfl, rfl⟩

end TemplateSuite.Traversal
