import Mathlib.Data.List.Nodup
import TemplateSuite.Macro.Expansion

/-!
Calls between macros. The references of a body that are calls lead from macro to macro; a path of
calls lists the macros that are active at once when an expansion has come that far.
-/

namespace TemplateSuite

/-- The reference in the body of `caller` is a call of `callee`: no parameter has its name, and the
macro of the environment that has it takes arguments. -/
structure Calls (env : Environment) (caller : Macro) (r : Reference) (callee : Macro) : Prop where
  mem : r ∈ Reference.all caller.body
  not_param : r.name ∉ caller.params
  found : env.get? r.name = some callee
  parametric : callee.params ≠ []

/-- The reference in the body of `caller` stands for something. -/
def Resolvable (env : Environment) (caller : Macro) (r : Reference) : Prop :=
  r.name ∈ caller.params ∨ (env.get? r.name).isSome ∨ r.name = keptReference

/-- A path of calls from the first macro to the last one. -/
inductive CallPath (env : Environment) : Macro → List Macro → Macro → Prop
  | single (m : Macro) : CallPath env m [m] m
  | step {m callee last : Macro} {r : Reference} {path : List Macro} :
      Calls env m r callee → CallPath env callee path last → CallPath env m (m :: path) last

/-- Every path of calls from the macro can be expanded: its references stand for something, its
calls have the right number of arguments, and it is short and without repetition. -/
structure Expandable (env : Environment) (m : Macro) : Prop where
  resolvable : ∀ path caller, CallPath env m path caller →
    ∀ r ∈ Reference.all caller.body, Resolvable env caller r
  arity : ∀ path caller, CallPath env m path caller →
    ∀ r callee, Calls env caller r callee → r.arguments.length = callee.arity
  distinct : ∀ path caller, CallPath env m path caller → (path.map (·.name)).Nodup
  short : ∀ path caller, CallPath env m path caller → path.length ≤ maxActiveCalls

/-- The same while the macros named in `active` are active, the macro itself last, and `levels` more
may become active. -/
structure ExpandableFrom (env : Environment) (levels : Nat) (active : List Text) (m : Macro) :
    Prop where
  resolvable : ∀ path caller, CallPath env m path caller →
    ∀ r ∈ Reference.all caller.body, Resolvable env caller r
  arity : ∀ path caller, CallPath env m path caller →
    ∀ r callee, Calls env caller r callee → r.arguments.length = callee.arity
  distinct : ∀ path caller, CallPath env m path caller →
    (active ++ path.tail.map (·.name)).Nodup
  short : ∀ path caller, CallPath env m path caller → path.length ≤ levels + 1

theorem Calls.resolvable {env : Environment} {caller callee : Macro} {r : Reference}
    (h : Calls env caller r callee) : Resolvable env caller r :=
  .inr (.inl (by simp [h.found]))

theorem Calls.unique {env : Environment} {caller callee other : Macro} {r : Reference}
    (h : Calls env caller r callee) (h' : Calls env caller r other) : callee = other :=
  Option.some.inj (h.found.symm.trans h'.found)

namespace CallPath

variable {env : Environment} {m last callee : Macro} {r : Reference} {path : List Macro}

theorem cons_tail (h : CallPath env m path last) : m :: path.tail = path := by
  cases h <;> rfl

theorem names (h : CallPath env m path last) :
    m.name :: path.tail.map (·.name) = path.map (·.name) :=
  congrArg (List.map Macro.name) h.cons_tail

theorem concat (h : CallPath env m path last) (hcall : Calls env last r callee) :
    CallPath env m (path ++ [callee]) callee := by
  induction h with
  | single m => exact .step hcall (.single callee)
  | step hfirst _ ih => exact .step hfirst (ih hcall)

end CallPath

theorem expandable_iff_expandableFrom {env : Environment} {m : Macro} :
    Expandable env m ↔ ExpandableFrom env (maxActiveCalls - 1) [m.name] m := by
  constructor
  · intro h
    refine ⟨h.resolvable, h.arity, fun path caller hpath => ?_, h.short⟩
    rw [List.singleton_append, hpath.names]
    exact h.distinct path caller hpath
  · intro h
    refine ⟨h.resolvable, h.arity, fun path caller hpath => ?_, h.short⟩
    rw [← hpath.names]
    exact h.distinct path caller hpath

theorem ExpandableFrom.below {env : Environment} {levels : Nat} {active : List Text}
    {m callee : Macro} {r : Reference} (h : ExpandableFrom env levels active m)
    (hcall : Calls env m r callee) :
    callee.name ∉ active ∧ ∃ below, levels = below + 1 ∧
      ExpandableFrom env below (active ++ [callee.name]) callee := by
  have hpair : CallPath env m [m, callee] callee := .step hcall (.single callee)
  have hdistinct : (active ++ [callee.name]).Nodup := h.distinct _ _ hpair
  have hshort : 2 ≤ levels + 1 := h.short _ _ hpair
  refine ⟨fun hmem => ?_, levels - 1, by omega, ?_, ?_, ?_, ?_⟩
  · exact (List.disjoint_of_nodup_append hdistinct) hmem List.mem_cons_self
  · exact fun path caller hpath => h.resolvable _ _ (.step hcall hpath)
  · exact fun path caller hpath => h.arity _ _ (.step hcall hpath)
  · intro path caller hpath
    rw [List.append_assoc, List.singleton_append, hpath.names]
    exact h.distinct _ _ (.step hcall hpath)
  · intro path caller hpath
    have hlength := h.short _ _ (.step hcall hpath)
    rw [List.length_cons] at hlength
    omega

theorem expandableFrom_iff {env : Environment} {levels : Nat} {active : List Text} {m : Macro}
    (hactive : active.Nodup) :
    ExpandableFrom env levels active m ↔
      ∀ r ∈ Reference.all m.body, Resolvable env m r ∧
        ∀ callee, Calls env m r callee → r.arguments.length = callee.arity ∧
          callee.name ∉ active ∧ ∃ below, levels = below + 1 ∧
            ExpandableFrom env below (active ++ [callee.name]) callee := by
  constructor
  · intro h r hr
    refine ⟨h.resolvable _ _ (.single m) r hr, fun callee hcall => ?_⟩
    exact ⟨h.arity _ _ (.single m) r callee hcall, h.below hcall⟩
  · intro h
    have hbelow : ∀ {r callee}, Calls env m r callee → ∃ below, levels = below + 1 ∧
        ExpandableFrom env below (active ++ [callee.name]) callee :=
      fun hcall => ((h _ hcall.mem).2 _ hcall).2.2
    -- a path of calls is the macro alone, or goes on below one of its callees
    refine ⟨?_, ?_, ?_, ?_⟩
    · rintro path caller hpath
      cases hpath with
      | single => exact fun r hr => (h r hr).1
      | step hcall hrest =>
          obtain ⟨below, -, hcallee⟩ := hbelow hcall
          exact hcallee.resolvable _ _ hrest
    · rintro path caller hpath
      cases hpath with
      | single => exact fun r callee hcall => ((h r hcall.mem).2 callee hcall).1
      | step hcall hrest =>
          obtain ⟨below, -, hcallee⟩ := hbelow hcall
          exact hcallee.arity _ _ hrest
    · rintro path caller hpath
      cases hpath with
      | single => simpa using hactive
      | step hcall hrest =>
          obtain ⟨below, -, hcallee⟩ := hbelow hcall
          have hdistinct := hcallee.distinct _ _ hrest
          rwa [List.append_assoc, List.singleton_append, hrest.names] at hdistinct
    · rintro path caller hpath
      cases hpath with
      | single => simp
      | step hcall hrest =>
          obtain ⟨below, rfl, hcallee⟩ := hbelow hcall
          have hlength := hcallee.short _ _ hrest
          rw [List.length_cons]
          omega

end TemplateSuite
