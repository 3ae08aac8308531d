import TemplateSuite.Proofs.Macro.Environment

namespace TemplateSuite

variable {env : Environment} {call call' : Macro → List Text → Except ExpansionError Text}
  {m callee : Macro} {args : List Text} {r : Reference} {out : Text}

theorem Calls.name_eq {caller : Macro} (h : Calls env caller r callee) : callee.name = r.name := by
  have hfound := h.found
  rw [Environment.get?, withSigil, if_pos (Reference.head?_name_of_mem_all h.mem)] at hfound
  exact Environment.name_of_find? hfound

namespace Macro

theorem resolve_mono {found : Option Text}
    (hcall : ∀ callee args out, call callee args = .ok out → call' callee args = .ok out)
    (h : m.resolve env call args r = .ok found) : m.resolve env call' args r = .ok found := by
  rcases resolve_eq_ok_cases h with ⟨value, hbinding, rfl⟩ | ⟨hbinding, ⟨hget, hkept, rfl⟩ |
    ⟨callee, hget, ⟨hparams, rfl⟩ | ⟨hparams, out, hout, rfl⟩⟩⟩
  · exact resolve_of_binding hbinding
  · exact (resolve_of_unknown hbinding hget).trans (if_pos hkept)
  · exact resolve_of_constant hbinding hget hparams
  · rw [resolve_of_call hbinding hget hparams, hcall _ _ _ hout]
    rfl

theorem expandWith_mono
    (hcall : ∀ callee args out, call callee args = .ok out → call' callee args = .ok out)
    (h : m.expandWith env call args = .ok out) : m.expandWith env call' args = .ok out := by
  have hlength : args.length = m.arity := (exists_expandWith_eq_ok_iff.mp ⟨out, h⟩).1
  rw [expandWith_of_length env call hlength] at h
  rw [expandWith_of_length env call' hlength]
  cases hfound : (Reference.all m.body).eraseDups.mapM (m.resolve env call args) with
  | error e =>
      rw [hfound] at h
      cases h
  | ok found =>
      have hfound' : (Reference.all m.body).eraseDups.mapM (m.resolve env call' args) = .ok found :=
        Traversal.mapM_eq_ok_iff.mpr
          ((Traversal.mapM_eq_ok_iff.mp hfound).imp fun _ _ => resolve_mono hcall)
      rw [hfound']
      rw [hfound] at h
      exact h

end Macro

namespace Environment

variable {levels more : Nat} {active fewer : List Text}

theorem expand_mono (hlevels : levels ≤ more) (hactive : fewer ⊆ active)
    (h : env.expand levels active m args = .ok out) :
    env.expand more fewer m args = .ok out := by
  induction levels using Nat.strongRecOn generalizing more active fewer m args out with
  | _ levels ih =>
      rw [expand_eq] at h ⊢
      refine Macro.expandWith_mono (fun callee args out hcall => ?_) h
      obtain ⟨hnot, below, rfl, hbelow⟩ := enter_eq_ok_iff.mp hcall
      have hfewer : fewer ++ [callee.name] ⊆ active ++ [callee.name] := fun name hname =>
        List.mem_append.mpr ((List.mem_append.mp hname).imp_left (hactive ·))
      refine enter_eq_ok_iff.mpr ⟨fun hmem => hnot (hactive hmem), more - 1, by omega, ?_⟩
      exact ih below (by omega) (by omega) hfewer hbelow

theorem evaluate_of_enter (hlevels : levels ≤ maxActiveCalls)
    (h : env.enter active levels callee args = .ok out) : callee.evaluate args env = .ok out := by
  obtain ⟨-, below, rfl, hbelow⟩ := enter_eq_ok_iff.mp h
  have hfewer : [callee.name] ⊆ active ++ [callee.name] := List.subset_append_right _ _
  exact expand_mono (Nat.le_sub_one_of_lt hlevels) hfewer hbelow

end Environment

end TemplateSuite
