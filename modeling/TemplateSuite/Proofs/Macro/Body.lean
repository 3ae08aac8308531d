import TemplateSuite.Proofs.Macro.Calls
import TemplateSuite.Proofs.Traversal

namespace TemplateSuite

namespace Macro

variable {env : Environment} {call : Macro → List Text → Except ExpansionError Text}
  {m : Macro} {args : List Text} {r : Reference} {e : ExpansionError}

theorem binding?_eq_none_iff (h : args.length = m.arity) (name : Text) :
    m.binding? args name = none ↔ name ∉ m.params := by
  have hnames : (m.params.zip args).map Prod.fst = m.params :=
    List.map_fst_zip (Nat.le_of_eq h.symm)
  rw [binding?, List.lookup_eq_none_iff]
  conv => rhs; rw [← hnames]
  constructor
  · intro hnone hmem
    obtain ⟨pair, hpair, rfl⟩ := List.mem_map.mp hmem
    simpa using hnone pair (List.mem_reverse.mpr hpair)
  · intro hnot pair hpair
    rw [bne_iff_ne]
    rintro rfl
    exact hnot (List.mem_map_of_mem (List.mem_reverse.mp hpair))

theorem resolve_of_binding {value : Text} (h : m.binding? args r.name = some value) :
    m.resolve env call args r = .ok (some value) := by
  rw [resolve, h]

theorem resolve_of_unknown (hbinding : m.binding? args r.name = none)
    (hget : env.get? r.name = none) :
    m.resolve env call args r =
      if r.name = keptReference then .ok none else .error (.undefinedMacro r.name) := by
  simp only [resolve, hbinding, hget]

theorem resolve_of_constant {callee : Macro} (hbinding : m.binding? args r.name = none)
    (hget : env.get? r.name = some callee) (hparams : callee.params = []) :
    m.resolve env call args r = .ok (some callee.body) := by
  simp only [resolve, hbinding, hget]
  exact if_pos hparams

theorem resolve_of_call {callee : Macro} (hbinding : m.binding? args r.name = none)
    (hget : env.get? r.name = some callee) (hparams : callee.params ≠ []) :
    m.resolve env call args r = (call callee r.arguments).map some := by
  simp only [resolve, hbinding, hget]
  exact if_neg hparams

theorem resolve_eq_ok_cases {found : Option Text} (h : m.resolve env call args r = .ok found) :
    (∃ value, m.binding? args r.name = some value ∧ found = some value) ∨
      m.binding? args r.name = none ∧
        (env.get? r.name = none ∧ r.name = keptReference ∧ found = none ∨
          ∃ callee, env.get? r.name = some callee ∧
            (callee.params = [] ∧ found = some callee.body ∨
              callee.params ≠ [] ∧ ∃ out, call callee r.arguments = .ok out ∧ found = some out)) := by
  cases hbinding : m.binding? args r.name with
  | some value =>
      rw [resolve_of_binding hbinding] at h
      exact .inl ⟨value, rfl, (Except.ok.inj h).symm⟩
  | none =>
      refine .inr ⟨rfl, ?_⟩
      cases hget : env.get? r.name with
      | none =>
          rw [resolve_of_unknown hbinding hget] at h
          split at h
          · rename_i hkept
            exact .inl ⟨rfl, hkept, (Except.ok.inj h).symm⟩
          · cases h
      | some callee =>
          refine .inr ⟨callee, rfl, ?_⟩
          by_cases hparams : callee.params = []
          · rw [resolve_of_constant hbinding hget hparams] at h
            exact .inl ⟨hparams, (Except.ok.inj h).symm⟩
          · rw [resolve_of_call hbinding hget hparams] at h
            cases hout : call callee r.arguments with
            | error e =>
                rw [hout] at h
                cases h
            | ok out =>
                rw [hout] at h
                exact .inr ⟨hparams, out, rfl, (Except.ok.inj h).symm⟩

/-- A reference stands for a text or stays, is a call, or stands for nothing. -/
theorem resolve_cases (env : Environment)
    (call : Macro → List Text → Except ExpansionError Text) (h : args.length = m.arity)
    (hr : r ∈ Reference.all m.body) :
    ((∀ callee, ¬ Calls env m r callee) ∧ Resolvable env m r ∧
        ∃ found, m.resolve env call args r = .ok found) ∨
      (∃ callee, Calls env m r callee ∧
        m.resolve env call args r = (call callee r.arguments).map some) ∨
      (¬ Resolvable env m r ∧ m.resolve env call args r = .error (.undefinedMacro r.name)) := by
  cases hbinding : m.binding? args r.name with
  | some value =>
      have hparam : r.name ∈ m.params := by
        by_contra hnot
        simp [(binding?_eq_none_iff h r.name).mpr hnot] at hbinding
      exact .inl ⟨fun callee hcall => hcall.not_param hparam, .inl hparam, _,
        resolve_of_binding hbinding⟩
  | none =>
      have hparam : r.name ∉ m.params := (binding?_eq_none_iff h r.name).mp hbinding
      cases hget : env.get? r.name with
      | none =>
          have hresolve : m.resolve env call args r = _ := resolve_of_unknown hbinding hget
          by_cases hkept : r.name = keptReference
          · rw [if_pos hkept] at hresolve
            refine .inl ⟨fun callee hcall => ?_, .inr (.inr hkept), none, hresolve⟩
            simp [hcall.found] at hget
          · rw [if_neg hkept] at hresolve
            exact .inr (.inr ⟨by simp [Resolvable, hparam, hget, hkept], hresolve⟩)
      | some callee =>
          by_cases hparams : callee.params = []
          · refine .inl ⟨fun other hcall => ?_, .inr (.inl (by simp [hget])), _,
              resolve_of_constant hbinding hget hparams⟩
            obtain rfl : callee = other := Option.some.inj (hget.symm.trans hcall.found)
            exact hcall.parametric hparams
          · exact .inr (.inl ⟨callee, ⟨hr, hparam, hget, hparams⟩,
              resolve_of_call hbinding hget hparams⟩)

theorem exists_resolve_eq_ok_iff (h : args.length = m.arity) (hr : r ∈ Reference.all m.body) :
    (∃ found, m.resolve env call args r = .ok found) ↔
      Resolvable env m r ∧
        ∀ callee, Calls env m r callee → ∃ out, call callee r.arguments = .ok out := by
  rcases resolve_cases env call h hr with ⟨hnocall, hresolvable, hfound⟩ |
    ⟨callee, hcall, hresolve⟩ | ⟨hunresolvable, hresolve⟩
  · exact iff_of_true hfound ⟨hresolvable, fun callee hcall => absurd hcall (hnocall callee)⟩
  · have hcallee : ∀ other, Calls env m r other ↔ other = callee := fun other =>
      ⟨fun hother => hother.unique hcall, fun heq => heq ▸ hcall⟩
    simp only [hresolve, hcall.resolvable, hcallee, true_and, forall_eq]
    cases call callee r.arguments <;> simp [Except.map]
  · simp [hresolve, hunresolvable]

theorem expandWith_of_length (env : Environment)
    (call : Macro → List Text → Except ExpansionError Text) (h : args.length = m.arity) :
    m.expandWith env call args =
      ((Reference.all m.body).eraseDups.mapM (m.resolve env call args)).map fun expansions =>
        if (Reference.all m.body).eraseDups = [] then []
        else substitute m.body ((Reference.all m.body).eraseDups.zip expansions) := by
  have hparams : m.params.length = args.length := h.symm
  unfold expandWith
  rw [if_pos hparams]
  rfl

theorem expandWith_of_length_ne (env : Environment)
    (call : Macro → List Text → Except ExpansionError Text) (h : args.length ≠ m.arity) :
    m.expandWith env call args = .error (.arityMismatch m.name m.arity args.length) := by
  have hparams : ¬ m.params.length = args.length := Ne.symm h
  unfold expandWith
  rw [if_neg hparams]
  rfl

theorem exists_expandWith_eq_ok_iff :
    (∃ out, m.expandWith env call args = .ok out) ↔
      args.length = m.arity ∧
        ∀ r ∈ Reference.all m.body, ∃ found, m.resolve env call args r = .ok found := by
  by_cases h : args.length = m.arity
  · rw [expandWith_of_length env call h, and_iff_right h]
    simp only [← List.mem_eraseDups (l := Reference.all m.body),
      ← Traversal.exists_mapM_eq_ok_iff]
    cases (Reference.all m.body).eraseDups.mapM (m.resolve env call args) <;> simp [Except.map]
  · simp [expandWith_of_length_ne env call h, h]

/-- An expansion fails because of the number of its arguments, because a reference stands for
nothing, or because a call fails. -/
theorem expandWith_error_cases (h : m.expandWith env call args = .error e) :
    (e = .arityMismatch m.name m.arity args.length) ∨ (∃ name, e = .undefinedMacro name) ∨
      ∃ r callee, Calls env m r callee ∧ call callee r.arguments = .error e := by
  by_cases hlength : args.length = m.arity
  · rw [expandWith_of_length env call hlength] at h
    cases hmapM : (Reference.all m.body).eraseDups.mapM (m.resolve env call args) with
    | ok found => simp [hmapM, Except.map] at h
    | error found =>
        rw [hmapM] at h
        cases h
        obtain ⟨r, hr, herror⟩ := Traversal.exists_of_mapM_error hmapM
        rcases resolve_cases env call hlength (List.mem_eraseDups.mp hr) with
          ⟨-, -, found, hresolve⟩ | ⟨callee, hcall, hresolve⟩ | ⟨-, hresolve⟩
        · simp [hresolve] at herror
        · refine .inr (.inr ⟨r, callee, hcall, ?_⟩)
          rw [hresolve] at herror
          cases hcallee : call callee r.arguments with
          | ok out => simp [hcallee, Except.map] at herror
          | error inner =>
              rw [hcallee] at herror
              exact congrArg Except.error (Except.error.inj herror)
        · rw [hresolve] at herror
          exact .inr (.inl ⟨r.name, (Except.error.inj herror).symm⟩)
  · rw [expandWith_of_length_ne env call hlength] at h
    exact .inl (Except.error.inj h).symm

end Macro

end TemplateSuite
