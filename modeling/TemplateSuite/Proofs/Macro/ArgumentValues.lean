import TemplateSuite.Proofs.Macro.Body

namespace TemplateSuite.Macro

open Traversal

variable {env : Environment} {call : Macro → List Text → Except ExpansionError Text}
  {m : Macro} {args others : List Text}

theorem resolve_sameOutcome (h : args.length = m.arity) (h' : others.length = m.arity)
    (r : Reference) :
    SameOutcome (m.resolve env call args r) (m.resolve env call others r) := by
  unfold resolve
  cases hargs : m.binding? args r.name with
  | none =>
      have hothers : m.binding? others r.name = none :=
        (binding?_eq_none_iff h' _).mpr ((binding?_eq_none_iff h _).mp hargs)
      rw [hothers]
      exact .refl _
  | some value =>
      cases hothers : m.binding? others r.name with
      | none =>
          have hnone := (binding?_eq_none_iff h _).mpr ((binding?_eq_none_iff h' _).mp hothers)
          simp [hnone] at hargs
      | some other => exact .inl ⟨some value, some other, rfl, rfl⟩

theorem expandWith_sameOutcome (h : args.length = others.length) :
    SameOutcome (m.expandWith env call args) (m.expandWith env call others) := by
  by_cases harity : args.length = m.arity
  · have harity' : others.length = m.arity := h.symm.trans harity
    rw [expandWith_of_length env call harity, expandWith_of_length env call harity']
    exact (mapM_sameOutcome fun r _ => resolve_sameOutcome harity harity' r).map _ _
  · have harity' : others.length ≠ m.arity := fun heq => harity (h.trans heq)
    rw [expandWith_of_length_ne env call harity, expandWith_of_length_ne env call harity', h]
    exact .refl _

/-- Lists of arguments of one length, whatever the arguments say, both evaluate or fail alike. -/
theorem evaluate_outcome_eq_of_length_eq (m : Macro) (env : Environment) {args others : List Text}
    (h : args.length = others.length) :
    (∃ out out', m.evaluate args env = .ok out ∧ m.evaluate others env = .ok out') ∨
      ∃ e, m.evaluate args env = .error e ∧ m.evaluate others env = .error e :=
  expandWith_sameOutcome h

theorem text_of_an_argument_is_not_read :
    (["1"] : List Text).length = (["2, $g(3, \"4)"] : List Text).length ∧
      ∃ out, (⟨"$f", "$g($x) $x", ["$x"]⟩ : Macro).evaluate ["2, $g(3, \"4)"]
        ⟨[⟨"$f", "$g($x) $x", ["$x"]⟩, ⟨"$g", "<$y>", ["$y"]⟩]⟩ = .ok out := by
  have hlength : (["1"] : List Text).length = (["2, $g(3, \"4)"] : List Text).length := rfl
  have hout : (⟨"$f", "$g($x) $x", ["$x"]⟩ : Macro).evaluate ["1"]
      ⟨[⟨"$f", "$g($x) $x", ["$x"]⟩, ⟨"$g", "<$y>", ["$y"]⟩]⟩ = .ok "<1> 1" := by
    decide +kernel
  refine ⟨hlength, ?_⟩
  rcases evaluate_outcome_eq_of_length_eq ⟨"$f", "$g($x) $x", ["$x"]⟩
    ⟨[⟨"$f", "$g($x) $x", ["$x"]⟩, ⟨"$g", "<$y>", ["$y"]⟩]⟩ hlength with
    ⟨_, out, -, h⟩ | ⟨e, h, -⟩
  · exact ⟨out, h⟩
  · rw [hout] at h
    cases h

end TemplateSuite.Macro
