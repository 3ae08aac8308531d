import TemplateSuite.Proofs.Macro.Expansion

namespace TemplateSuite

/-- The name is looked up when the macro is expanded. -/
inductive Reaches (env : Environment) : Macro → Text → Prop
  | own {m : Macro} {r : Reference} :
      r ∈ Reference.all m.body → r.name ∉ m.params → Reaches env m r.name
  | through {m callee : Macro} {r : Reference} {name : Text} :
      Calls env m r callee → Reaches env callee name → Reaches env m name

theorem Reference.head?_name_of_mem_all {text : Text} {r : Reference} (h : r ∈ Reference.all text) :
    r.name.head? = some sigil := by
  fun_induction Reference.all text with
  | case1 => simp at h
  | case2 rest hname ih => exact ih h
  | case3 rest hname hlist ih =>
      rcases List.mem_cons.mp h with rfl | hmem
      · rfl
      · exact ih hmem
  | case4 rest hname list after hlist ih =>
      rcases List.mem_cons.mp h with rfl | hmem
      · rfl
      · exact ih hmem
  | case5 c rest hc ih => exact ih h

theorem Reaches.head?_eq {env : Environment} {m : Macro} {name : Text} (h : Reaches env m name) :
    name.head? = some sigil := by
  induction h with
  | own hr _ => exact Reference.head?_name_of_mem_all hr
  | through _ _ ih => exact ih

namespace Environment

theorem find?_define (env : Environment) (m : Macro) (name : Text) :
    (env.define m).find? name = if m.name = name then some m else env.find? name := by
  have hinsert : ∀ macros : List Macro, (insert m macros).find? (·.name = name) =
      if m.name = name then some m else macros.find? (·.name = name) := by
    intro macros
    induction macros with
    | nil => by_cases hname : m.name = name <;> simp [insert, hname]
    | cons other rest ih =>
        rw [insert]
        split
        · rename_i hsame
          by_cases hname : m.name = name
          · simp [hname]
          · have hother : other.name ≠ name := hsame ▸ hname
            simp [hname, hother]
        · rename_i hdifferent
          split
          · by_cases hname : m.name = name <;> simp [hname]
          · by_cases hother : other.name = name
            · have hname : m.name ≠ name := fun heq => hdifferent (heq.trans hother.symm)
              simp [hother, hname]
            · simp [hother, ih]
  exact hinsert env.macros

theorem get?_define_of_ne {env : Environment} {m : Macro} {name : Text}
    (hsigil : name.head? = some sigil) (h : name ≠ m.name) :
    (env.define m).get? name = env.get? name := by
  rw [get?, get?, withSigil, if_pos hsigil, find?_define, if_neg h.symm]

end Environment

namespace Macro

variable {env other : Environment} {call call' : Macro → List Text → Except ExpansionError Text}
  {m : Macro} {args : List Text}

theorem resolve_congr {r : Reference} (hlength : args.length = m.arity)
    (hr : r ∈ Reference.all m.body)
    (hget : r.name ∉ m.params → other.get? r.name = env.get? r.name)
    (hcall : ∀ callee, Calls env m r callee →
      call' callee r.arguments = call callee r.arguments) :
    m.resolve other call' args r = m.resolve env call args r := by
  unfold resolve
  cases hbinding : m.binding? args r.name with
  | some value => rfl
  | none =>
      have hparam : r.name ∉ m.params := (binding?_eq_none_iff hlength r.name).mp hbinding
      simp only [hget hparam]
      cases hfound : env.get? r.name with
      | none => rfl
      | some callee =>
          by_cases hparams : callee.params = []
          · simp [hparams]
          · simp only [if_neg hparams, hcall callee ⟨hr, hparam, hfound, hparams⟩]

theorem expandWith_congr
    (h : args.length = m.arity → ∀ r ∈ Reference.all m.body,
      m.resolve other call' args r = m.resolve env call args r) :
    m.expandWith other call' args = m.expandWith env call args := by
  by_cases hlength : args.length = m.arity
  · rw [expandWith_of_length other call' hlength, expandWith_of_length env call hlength,
      Traversal.mapM_congr fun r hr => h hlength r (List.mem_eraseDups.mp hr)]
  · rw [expandWith_of_length_ne other call' hlength, expandWith_of_length_ne env call hlength]

end Macro

namespace Environment

variable {env other : Environment} {m : Macro}

theorem expand_congr (h : ∀ name, Reaches env m name → other.get? name = env.get? name)
    (levels : Nat) (active : List Text) (args : List Text) :
    other.expand levels active m args = env.expand levels active m args := by
  -- a call is entered with one level less, and what is reached from it is reached from its caller
  induction levels using Nat.strongRecOn generalizing active m args with
  | _ levels ih =>
      rw [expand_eq, expand_eq]
      refine Macro.expandWith_congr fun hlength r hr => ?_
      refine Macro.resolve_congr hlength hr (fun hparam => h _ (.own hr hparam)) ?_
      intro callee hcall
      unfold enter
      split
      · rfl
      · cases levels with
        | zero => rfl
        | succ below =>
            exact ih below (by omega) (fun name hname => h name (.through hcall hname)) _ _

end Environment

/-- A macro with references in its body that an expansion of `m` can look at. -/
def MayExpand (env : Environment) (m caller : Macro) : Prop :=
  caller = m ∨ ∃ name, env.get? name = some caller ∧ caller.params ≠ []

theorem Reaches.exists_reference {env : Environment} {m start : Macro} {name : Text}
    (h : Reaches env m name) (hm : MayExpand env start m) :
    ∃ caller, MayExpand env start caller ∧
      ∃ r ∈ Reference.all caller.body, r.name = name ∧ name ∉ caller.params := by
  induction h with
  | own hr hparam => exact ⟨_, hm, _, hr, rfl, hparam⟩
  | through hcall _ ih => exact ih (.inr ⟨_, hcall.found, hcall.parametric⟩)

namespace Macro

/-- An expansion is the same in all environments that have the same macros, or none, under the names
it reaches. So a macro can be defined or redefined without effect if no body that may be expanded
refers to its name, except where a parameter has that name: what stands in argument lists and in the
bodies of macros without parameters is no reference. -/
theorem evaluate_reads_reached_names_only (env : Environment) (m : Macro) (args : List Text) :
    (∀ other : Environment,
        (∀ name, Reaches env m name → other.get? name = env.get? name) →
          m.evaluate args other = m.evaluate args env) ∧
      ∀ new : Macro,
        (∀ caller, MayExpand env m caller → ∀ r ∈ Reference.all caller.body,
          r.name = new.name → new.name ∈ caller.params) →
          m.evaluate args (env.define new) = m.evaluate args env := by
  have hlocal : ∀ other : Environment,
      (∀ name, Reaches env m name → other.get? name = env.get? name) →
        m.evaluate args other = m.evaluate args env :=
    fun other h => Environment.expand_congr h _ _ args
  refine ⟨hlocal, fun new hnew => hlocal _ fun name hname => ?_⟩
  refine Environment.get?_define_of_ne hname.head?_eq ?_
  rintro rfl
  obtain ⟨caller, hcaller, r, hr, hrname, hparam⟩ := hname.exists_reference (.inl rfl)
  exact hparam (hnew caller hcaller r hr hrname)

/-- `$h` stands in an argument list, in a constant and as a parameter here. -/
theorem hidden_names_are_not_read :
    (⟨"$f", "$g($h) $k", []⟩ : Macro).evaluate []
        ((⟨[⟨"$g", "<$h>", ["$h"]⟩, ⟨"$k", "$h", []⟩]⟩ : Environment).define ⟨"$h", "H", []⟩) =
      .ok "<$h> $h" := by
  have hout : (⟨"$f", "$g($h) $k", []⟩ : Macro).evaluate []
      ⟨[⟨"$g", "<$h>", ["$h"]⟩, ⟨"$k", "$h", []⟩]⟩ = .ok "<$h> $h" := by
    decide +kernel
  rw [← hout]
  refine (evaluate_reads_reached_names_only _ _ []).2 ⟨"$h", "H", []⟩ ?_
  rintro caller (rfl | ⟨name, hget, hparams⟩)
  · decide +kernel
  · have hmem := List.mem_of_find?_eq_some hget
    rcases List.mem_cons.mp hmem with rfl | hmem
    · decide +kernel
    · rw [List.mem_singleton.mp hmem] at hparams
      exact absurd rfl hparams

end Macro

end TemplateSuite
