import TemplateSuite.Proofs.Macro.Body

namespace TemplateSuite

namespace Environment

variable {env : Environment} {levels : Nat} {active : List Text} {m : Macro} {args : List Text}

/-- Make a macro active and expand it, while the macros in `active` are and `levels` more may be. -/
def enter (env : Environment) (active : List Text) (levels : Nat) (callee : Macro)
    (args : List Text) : Except ExpansionError Text :=
  if active.contains callee.name then .error (.cycle (active ++ [callee.name]))
  else
    match levels with
    | 0 => .error (.tooDeep callee.name maxActiveCalls)
    | below + 1 => env.expand below (active ++ [callee.name]) callee args

theorem expand_eq (env : Environment) (levels : Nat) (active : List Text) (m : Macro)
    (args : List Text) :
    env.expand levels active m args = m.expandWith env (env.enter active levels) args := by
  cases levels <;> rfl

theorem enter_eq_ok_iff {callee : Macro} {out : Text} :
    env.enter active levels callee args = .ok out ↔
      callee.name ∉ active ∧ ∃ below, levels = below + 1 ∧
        env.expand below (active ++ [callee.name]) callee args = .ok out := by
  unfold enter
  by_cases hactive : callee.name ∈ active
  · simp [hactive]
  · cases levels <;> simp [hactive]

theorem exists_enter_eq_ok_iff {callee : Macro} :
    (∃ out, env.enter active levels callee args = .ok out) ↔
      callee.name ∉ active ∧ ∃ below, levels = below + 1 ∧
        ∃ out, env.expand below (active ++ [callee.name]) callee args = .ok out := by
  simp only [enter_eq_ok_iff]
  constructor
  · rintro ⟨out, hnot, below, hlevels, hout⟩
    exact ⟨hnot, below, hlevels, out, hout⟩
  · rintro ⟨hnot, below, hlevels, out, hout⟩
    exact ⟨out, hnot, below, hlevels, hout⟩

theorem enter_error_cases {callee : Macro} {e : ExpansionError}
    (h : env.enter active levels callee args = .error e) :
    (callee.name ∈ active ∧ e = .cycle (active ++ [callee.name])) ∨
      (callee.name ∉ active ∧ levels = 0 ∧ e = .tooDeep callee.name maxActiveCalls) ∨
      (callee.name ∉ active ∧ ∃ below, levels = below + 1 ∧
        env.expand below (active ++ [callee.name]) callee args = .error e) := by
  unfold enter at h
  by_cases hactive : callee.name ∈ active
  · simp only [List.contains_iff_mem, hactive, if_true] at h
    exact .inl ⟨hactive, (Except.error.inj h).symm⟩
  · simp only [List.contains_iff_mem, hactive, if_false] at h
    cases levels with
    | zero => exact .inr (.inl ⟨hactive, rfl, (Except.error.inj h).symm⟩)
    | succ below => exact .inr (.inr ⟨hactive, below, rfl, h⟩)

theorem nodup_append_singleton {name : Text} (hactive : active.Nodup) (h : name ∉ active) :
    (active ++ [name]).Nodup := by
  rw [← List.concat_eq_append]
  exact hactive.concat h

/-- While distinct macros are active, an expansion succeeds exactly if every path below does. -/
theorem exists_expand_eq_ok_iff (hactive : active.Nodup) :
    (∃ out, env.expand levels active m args = .ok out) ↔
      args.length = m.arity ∧ ExpandableFrom env levels active m := by
  -- `enter` says itself whether a level is left, so zero needs no case of its own
  induction levels using Nat.strongRecOn generalizing active m args with
  | _ levels ih =>
      rw [expand_eq, Macro.exists_expandWith_eq_ok_iff, expandableFrom_iff hactive]
      refine and_congr_right fun hlength => forall₂_congr fun r hr => ?_
      rw [Macro.exists_resolve_eq_ok_iff hlength hr]
      refine and_congr_right fun _ => forall₂_congr fun callee hcall => ?_
      rw [exists_enter_eq_ok_iff]
      constructor
      · rintro ⟨hnot, below, rfl, hout⟩
        obtain ⟨harity, hbelow⟩ :=
          (ih below (by omega) (nodup_append_singleton hactive hnot)).mp hout
        exact ⟨harity, hnot, below, rfl, hbelow⟩
      · rintro ⟨harity, hnot, below, rfl, hbelow⟩
        exact ⟨hnot, below, rfl,
          (ih below (by omega) (nodup_append_singleton hactive hnot)).mpr ⟨harity, hbelow⟩⟩

/-- The error comes from a call at the end of a path of distinct macros: the macro called is one of
these, or the limit is reached. -/
def FailsAtCall (env : Environment) (levels : Nat) (active : List Text) (m : Macro)
    (e : ExpansionError) : Prop :=
  ∃ path last r callee, CallPath env m path last ∧ Calls env last r callee ∧
    (active ++ path.tail.map (·.name)).Nodup ∧ path.length ≤ levels + 1 ∧
    ((callee.name ∈ active ++ path.tail.map (·.name) ∧
        e = .cycle (active ++ path.tail.map (·.name) ++ [callee.name])) ∨
      (callee.name ∉ active ++ path.tail.map (·.name) ∧ path.length = levels + 1 ∧
        e = .tooDeep callee.name maxActiveCalls))

theorem FailsAtCall.step {below : Nat} {callee : Macro} {r : Reference} {e : ExpansionError}
    (hcall : Calls env m r callee)
    (h : FailsAtCall env below (active ++ [callee.name]) callee e) :
    FailsAtCall env (below + 1) active m e := by
  obtain ⟨path, last, r', callee', hpath, hcall', hnodup, hlength, hend⟩ := h
  rw [List.append_assoc, List.singleton_append, hpath.names] at hnodup hend
  refine ⟨m :: path, last, r', callee', .step hcall hpath, hcall', hnodup, ?_, ?_⟩
  · rw [List.length_cons]
    omega
  · rw [List.length_cons]
    exact hend.imp_right fun ⟨hnot, hfull, herror⟩ => ⟨hnot, by omega, herror⟩

theorem expand_error_cases {e : ExpansionError} (hactive : active.Nodup)
    (h : env.expand levels active m args = .error e) :
    (∃ name expected got, e = .arityMismatch name expected got) ∨
      (∃ name, e = .undefinedMacro name) ∨ FailsAtCall env levels active m e := by
  induction levels using Nat.strongRecOn generalizing active m args with
  | _ levels ih =>
      rw [expand_eq] at h
      rcases Macro.expandWith_error_cases h with rfl | hundefined | ⟨r, callee, hcall, henter⟩
      · exact .inl ⟨_, _, _, rfl⟩
      · exact .inr (.inl hundefined)
      · have hstart : CallPath env m [m] m := .single m
        have hnodup : (active ++ [m].tail.map (·.name)).Nodup := by simpa using hactive
        rcases enter_error_cases henter with ⟨hmem, rfl⟩ | ⟨hnot, rfl, rfl⟩ |
          ⟨hnot, below, rfl, hbelow⟩
        · exact .inr (.inr ⟨[m], m, r, callee, hstart, hcall, hnodup, by simp,
            .inl ⟨by simpa using hmem, by simp⟩⟩)
        · exact .inr (.inr ⟨[m], m, r, callee, hstart, hcall, hnodup, by simp,
            .inr ⟨by simpa using hnot, rfl, rfl⟩⟩)
        · rcases ih below (by omega) (nodup_append_singleton hactive hnot) hbelow with harity |
            hundefined | hpath
          · exact .inl harity
          · exact .inr (.inl hundefined)
          · exact .inr (.inr (.step hcall hpath))

end Environment

namespace Macro

theorem exists_path_of_evaluate_error {env : Environment} {m : Macro} {args : List Text}
    {e : ExpansionError} (h : m.evaluate args env = .error e) :
    (∃ name expected got, e = .arityMismatch name expected got) ∨
      (∃ name, e = .undefinedMacro name) ∨
      ∃ path last r callee, CallPath env m path last ∧ Calls env last r callee ∧
        (path.map (·.name)).Nodup ∧ path.length ≤ maxActiveCalls ∧
        ((callee.name ∈ path.map (·.name) ∧ e = .cycle (path.map (·.name) ++ [callee.name])) ∨
          (callee.name ∉ path.map (·.name) ∧ path.length = maxActiveCalls ∧
            e = .tooDeep callee.name maxActiveCalls)) := by
  rcases Environment.expand_error_cases (List.nodup_singleton m.name) h with harity |
    hundefined | ⟨path, last, r, callee, hpath, hcall, hnodup, hlength, hend⟩
  · exact .inl harity
  · exact .inr (.inl hundefined)
  · rw [List.singleton_append, hpath.names] at hnodup hend
    exact .inr (.inr ⟨path, last, r, callee, hpath, hcall, hnodup, hlength, hend⟩)

/-- Exactly when a macro evaluates, and what a failure at a call says. A chain in a cycle error is a
path of calls from the macro whose last name is one of the others, which are distinct; the limit on
active calls stops an expansion only while as many distinct macros are active. -/
theorem evaluate_succeeds_iff (env : Environment) (m : Macro) (args : List Text) :
    ((∃ out, m.evaluate args env = .ok out) ↔ args.length = m.arity ∧ Expandable env m) ∧
      (∀ chain, m.evaluate args env = .error (.cycle chain) →
        ∃ path last, CallPath env m path last ∧ chain = path.map (·.name) ∧
          chain.head? = some m.name ∧ chain.dropLast.Nodup ∧
          chain.dropLast.count last.name = 1 ∧ chain.length ≤ 65) ∧
      ∀ name limit, m.evaluate args env = .error (.tooDeep name limit) →
        limit = 64 ∧ ∃ path last r callee, CallPath env m path last ∧ Calls env last r callee ∧
          callee.name = name ∧ path.length = 64 ∧ (path.map (·.name)).Nodup ∧
          name ∉ path.map (·.name) := by
  refine ⟨?_, ?_, ?_⟩
  · rw [expandable_iff_expandableFrom]
    exact Environment.exists_expand_eq_ok_iff (List.nodup_singleton m.name)
  · intro chain h
    rcases exists_path_of_evaluate_error h with ⟨_, _, _, he⟩ | ⟨_, he⟩ |
      ⟨path, last, r, callee, hpath, hcall, hnodup, hlength, ⟨hmem, he⟩ | ⟨-, -, he⟩⟩
    · cases he
    · cases he
    · obtain rfl := ExpansionError.cycle.inj he
      refine ⟨path ++ [callee], callee, hpath.concat hcall, by simp, ?_, ?_, ?_, ?_⟩
      · rw [← hpath.names]
        rfl
      · rwa [List.dropLast_concat]
      · rw [List.dropLast_concat]
        exact List.count_eq_one_of_mem hnodup hmem
      · have hlimit : maxActiveCalls = 64 := rfl
        rw [List.length_append, List.length_map, List.length_singleton]
        omega
    · cases he
  · intro name limit h
    rcases exists_path_of_evaluate_error h with ⟨_, _, _, he⟩ | ⟨_, he⟩ |
      ⟨path, last, r, callee, hpath, hcall, hnodup, -, ⟨-, he⟩ | ⟨hnot, hfull, he⟩⟩
    · cases he
    · cases he
    · cases he
    · obtain ⟨rfl, rfl⟩ := ExpansionError.tooDeep.inj he
      exact ⟨rfl, path, last, r, callee, hpath, hcall, rfl, hfull, hnodup, hnot⟩

/-- Macros of which each calls the next one, whose name is one letter longer. -/
def tower (height : Nat) : Environment :=
  ⟨(List.range height).map fun level =>
    ⟨sigil :: List.replicate (level + 1) 'm', sigil :: List.replicate (level + 2) 'm' ++ "($x)",
      ["$x"]⟩⟩

theorem evaluate_stops_at_a_cycle_and_at_the_limit :
    (¬ Expandable ⟨[⟨"$f", "$g($x)", ["$x"]⟩, ⟨"$g", "$f($x)", ["$x"]⟩]⟩
        ⟨"$f", "$g($x)", ["$x"]⟩) ∧
      ∃ path last, CallPath (tower 65) ⟨"$m", "$mm($x)", ["$x"]⟩ path last ∧ path.length = 64 ∧
        (path.map (·.name)).Nodup := by
  have hcycle : (⟨"$f", "$g($x)", ["$x"]⟩ : Macro).evaluate ["1"]
      ⟨[⟨"$f", "$g($x)", ["$x"]⟩, ⟨"$g", "$f($x)", ["$x"]⟩]⟩ =
        .error (.cycle ["$f", "$g", "$f"]) := by
    decide +kernel
  have hdeep : (⟨"$m", "$mm($x)", ["$x"]⟩ : Macro).evaluate ["1"] (tower 65) =
      .error (.tooDeep (sigil :: List.replicate 65 'm') 64) := by
    decide +kernel
  constructor
  · intro h
    obtain ⟨out, hout⟩ := (evaluate_succeeds_iff _ _ ["1"]).1.mpr ⟨rfl, h⟩
    rw [hcycle] at hout
    cases hout
  · obtain ⟨-, path, last, _, _, hpath, -, -, hlength, hnodup, -⟩ :=
      (evaluate_succeeds_iff _ _ _).2.2 _ _ hdeep
    exact ⟨path, last, hpath, hlength, hnodup⟩

end Macro

end TemplateSuite
