import TemplateSuite.Proofs.Macro.NestedCall
import TemplateSuite.Proofs.Macro.Replacement

namespace TemplateSuite

namespace Argument

theorem cut_eq_splitOn {text : Text} (h : ∀ c ∈ text, c ∉ ['"', '[', ']']) :
    cut .start text = text.splitOn ',' := by
  induction text with
  | nil => simp [cut]
  | cons c rest ih =>
      obtain ⟨hc, hrest⟩ := List.forall_mem_cons.mp h
      simp only [List.mem_cons, List.not_mem_nil, or_false, not_or] at hc
      have hnext : Position.next .start c = .start := by
        simp [Position.next, hc, Position.start]
      rw [List.splitOn_cons_eq_if_modifyHead, cut, hnext, ih hrest]
      by_cases hcomma : c = ','
      · simp [hcomma, Position.separates, Position.start]
      · have hne : rest.splitOn ',' ≠ [] := List.splitOn_ne_nil ',' rest
        obtain ⟨piece, pieces, hpieces⟩ := List.exists_cons_of_ne_nil hne
        simp [hcomma, hpieces, addToFirst]

theorem unwrap_of_trim_eq_name {name piece : Text} (h : IsMacroName name)
    (hpiece : Text.trim piece = name) : unwrap piece = name := by
  have hbetween : ∀ first, first ≠ sigil → ∀ last, isBetween first last name = false := by
    intro first hfirst last
    simp [isBetween, h.head?, Ne.symm hfirst]
  rw [unwrap, hpiece, hbetween _ (by decide), hbetween _ (by decide)]
  rfl

end Argument

theorem splitArguments_names {names : List Text} (h : ∀ name ∈ names, IsMacroName name) :
    splitArguments (Text.commaSeparated names) = names := by
  cases names with
  | nil => rfl
  | cons first rest =>
      have hplain : ∀ c ∈ Text.commaSeparated (first :: rest), c ∉ ['"', '[', ']'] := by
        intro c hc hmark
        simp only [List.mem_cons, List.not_mem_nil, or_false] at hmark
        rcases hmark with rfl | rfl | rfl <;>
          exact Text.not_mem_commaSeparated (by decide) (by decide)
            (fun name hname => (h name hname).not_mem (by decide) rfl) hc
      have hcomma : ∀ name ∈ first :: rest, ',' ∉ name := fun name hname =>
        (h name hname).not_mem (by decide) rfl
      have hblank : Text.allBlank (Text.commaSeparated (first :: rest)) = false := by
        obtain ⟨identifier, rfl, -⟩ := h first List.mem_cons_self
        cases rest <;> rfl
      have hspaced : (rest.map (' ' :: ·)).map Argument.unwrap = rest := by
        rw [List.map_map]
        refine (List.map_congr_left fun name hname => ?_).trans (List.map_id rest)
        have hname := h name (List.mem_cons_of_mem first hname)
        exact Argument.unwrap_of_trim_eq_name hname hname.trim
      have hfirst := h first List.mem_cons_self
      rw [splitArguments, hblank, if_neg Bool.false_ne_true, Argument.cut_eq_splitOn hplain,
        Text.splitOn_commaSeparated hcomma, List.map_cons, hspaced,
        Argument.unwrap_of_trim_eq_name hfirst hfirst.trim]

theorem Reference.all_call {name list : Text} (hname : IsMacroName name) (hlist : ')' ∉ list) :
    Reference.all (name ++ '(' :: (list ++ [')'])) = [⟨name, some list⟩] := by
  obtain ⟨identifier, rfl, hidentifier⟩ := hname
  obtain ⟨hne, hchars⟩ := identifierChar_of_isIdentifier hidentifier
  have hopen : ∀ c ∈ ('(' :: (list ++ [')'])).head?, isIdentifierChar c = false := by
    rintro c ⟨⟩
    rfl
  have hread : listAtStart? ((identifier ++ '(' :: (list ++ [')'])).dropWhile isIdentifierChar) =
      some (list, []) := by
    rw [Text.dropWhile_run hchars hopen]
    exact Text.splitAt?_append hlist []
  obtain ⟨first, rest, rfl⟩ := List.exists_cons_of_ne_nil hne
  rw [List.cons_append, all, if_pos rfl, Text.takeWhile_run hchars hopen]
  simp only
  split
  · rename_i hnone
    rw [hread] at hnone
    cases hnone
  · rename_i hfound
    cases hread.symm.trans hfound
    rw [all]

section

variable {env : Environment} {m last : Macro} {path : List Macro}

theorem CallPath.exists_reference (h : CallPath env m path last) {name : Text}
    (hname : name ∈ path.tail.map (·.name)) :
    ∃ front caller, CallPath env m front caller ∧ ∃ r ∈ Reference.all caller.body, r.name = name := by
  induction h with
  | single m => cases hname
  | step hcall hpath ih =>
      rw [List.tail_cons, ← hpath.names] at hname
      rcases List.mem_cons.mp hname with rfl | hname
      · exact ⟨_, _, .single _, _, hcall.mem, hcall.name_eq.symm⟩
      · obtain ⟨front, caller, hfront, hreference⟩ := ih hname
        exact ⟨_, _, .step hcall hfront, hreference⟩

theorem CallPath.eq_singleton (h : CallPath env m path last)
    (hparams : ∀ r ∈ Reference.all m.body, r.name ∈ m.params) : path = [m] ∧ last = m := by
  cases h with
  | single => exact ⟨rfl, rfl⟩
  | step hcall _ => exact absurd (hparams _ hcall.mem) hcall.not_param

end

def Macro.callOn (f : Macro) (names : List Text) : Reference :=
  ⟨f.name, some (Text.commaSeparated names)⟩

theorem Macro.token_callOn (f : Macro) (names : List Text) :
    (f.callOn names).token = f.name ++ '(' :: (Text.commaSeparated names ++ [')']) := by
  simp [callOn, Reference.token]

/-- The body of `g` is the call of `f`, a macro of the environment, on the parameters of `g`; no body
that can be reached from `f` refers to `g`. -/
structure Forwards (env : Environment) (f g : Macro) : Prop where
  found : env.get? f.name = some f
  parametric : f.params ≠ []
  callee_isMade : f.IsMade
  isMade : g.IsMade
  arity_eq : g.arity = f.arity
  name_ne : g.name ≠ f.name
  unreferenced : ∀ path caller, CallPath env f path caller →
    ∀ r ∈ Reference.all caller.body, r.name ≠ g.name
  body_eq : g.body = f.name ++ '(' :: (Text.commaSeparated g.params ++ [')'])

namespace Forwards

variable {env : Environment} {f g : Macro} {args : List Text} {out : Text}

theorem reference (h : Forwards env f g) : Reference.all g.body = [f.callOn g.params] := by
  obtain ⟨hname, -⟩ := Macro.isMade_iff.mp h.callee_isMade
  obtain ⟨-, hparams⟩ := Macro.isMade_iff.mp h.isMade
  rw [h.body_eq, Reference.all_call hname]
  · rfl
  · exact Text.not_mem_commaSeparated (by decide) (by decide) fun param hparam =>
      (hparams param hparam).not_mem (by decide) rfl

theorem arguments (h : Forwards env f g) : (f.callOn g.params).arguments = g.params :=
  splitArguments_names (Macro.isMade_iff.mp h.isMade).2

theorem replaceToken_body (h : Forwards env f g) (value : Text) :
    replaceToken (f.callOn g.params).token value g.body = value := by
  have hhead : (f.callOn g.params).token.head? = some sigil := by
    obtain ⟨identifier, hidentifier, -⟩ := (Macro.isMade_iff.mp h.callee_isMade).1
    rw [Macro.token_callOn, hidentifier]
    rfl
  have hbody : g.body = (f.callOn g.params).token ++ [] := by
    rw [h.body_eq, Macro.token_callOn, List.append_nil]
  rw [hbody, replaceToken_token_append hhead (by simp [isWithinName]), replaceToken,
    List.append_nil]

theorem expandWith {call : Macro → List Text → Except ExpansionError Text} (h : Forwards env f g)
    (hparam : f.name ∉ g.params) (hlength : args.length = g.arity)
    (hcall : call f g.params = .ok out) : g.expandWith env call args = .ok out := by
  have hunbound : g.binding? args (f.callOn g.params).name = none :=
    (Macro.binding?_eq_none_iff hlength f.name).mpr hparam
  have hfound : env.get? (f.callOn g.params).name = some f := h.found
  have hresolve : g.resolve env call args (f.callOn g.params) = .ok (some out) := by
    rw [Macro.resolve_of_call hunbound hfound h.parametric, h.arguments, hcall]
    rfl
  have hmapM : [f.callOn g.params].mapM (g.resolve env call args) = .ok [some out] :=
    Traversal.mapM_eq_ok_iff.mpr (.cons hresolve .nil)
  have honce : (Reference.all g.body).eraseDups = [f.callOn g.params] := by
    rw [h.reference]
    rfl
  rw [Macro.expandWith_of_length env call hlength, honce, hmapM]
  exact congrArg Except.ok (h.replaceToken_body out)

theorem expandableFrom (h : Forwards env f g)
    (hdepth : ∀ path last, CallPath env f path last → path.length < maxActiveCalls)
    (hf : ExpandableFrom env (maxActiveCalls - 1) [f.name] f) :
    ExpandableFrom env (maxActiveCalls - 2) ([g.name] ++ [f.name]) f where
  resolvable := hf.resolvable
  arity := hf.arity
  distinct path last hpath := by
    have hdistinct := hf.distinct path last hpath
    rw [List.append_assoc, List.singleton_append, List.nodup_cons]
    refine ⟨fun hmem => ?_, hdistinct⟩
    rcases List.mem_cons.mp hmem with hname | hmem
    · exact h.name_ne hname
    · obtain ⟨front, caller, hfront, r, hr, hname⟩ := hpath.exists_reference hmem
      exact h.unreferenced front caller hfront r hr hname
  short path last hpath := by
    have := hdepth path last hpath
    have hlimit : maxActiveCalls = 64 := rfl
    omega

theorem exists_enter (h : Forwards env f g)
    (hdepth : ∀ path last, CallPath env f path last → path.length < maxActiveCalls)
    (hf : ExpandableFrom env (maxActiveCalls - 1) [f.name] f) :
    ∃ given, f.evaluate g.params env = .ok given ∧
      env.enter [g.name] (maxActiveCalls - 1) f g.params = .ok given := by
  have hnot : f.name ∉ [g.name] := fun hmem => h.name_ne (List.mem_singleton.mp hmem).symm
  have hnodup : ([g.name] ++ [f.name]).Nodup :=
    Environment.nodup_append_singleton (List.nodup_singleton _) hnot
  obtain ⟨given, hgiven⟩ := (Environment.exists_expand_eq_ok_iff hnodup).mpr
    ⟨h.arity_eq, h.expandableFrom hdepth hf⟩
  have henter : env.enter [g.name] (maxActiveCalls - 1) f g.params = .ok given :=
    Environment.enter_eq_ok_iff.mpr ⟨hnot, maxActiveCalls - 2, rfl, hgiven⟩
  exact ⟨given, Environment.evaluate_of_enter (Nat.sub_le _ _) henter, henter⟩

end Forwards

namespace Macro

variable {env : Environment} {f g m : Macro} {args other : List Text} {out : Text}

/-- The arguments only count where the body refers to a parameter. -/
theorem expandWith_eq_of_not_param {call : Macro → List Text → Except ExpansionError Text}
    (hlength : args.length = m.arity) (hother : other.length = m.arity)
    (h : ∀ r ∈ Reference.all m.body, r.name ∉ m.params) :
    m.expandWith env call args = m.expandWith env call other := by
  have hresolve : ∀ r ∈ (Reference.all m.body).eraseDups,
      m.resolve env call args r = m.resolve env call other r := by
    intro r hr
    have hnot := h r (List.mem_eraseDups.mp hr)
    rw [resolve, resolve, (binding?_eq_none_iff hlength r.name).mpr hnot,
      (binding?_eq_none_iff hother r.name).mpr hnot]
  rw [expandWith_of_length env call hlength, expandWith_of_length env call hother,
    Traversal.mapM_congr hresolve]

/-- A macro whose body is the call of another macro on its own parameters gives what that macro gives
for the names of the parameters; this is what it gives for the arguments if its body refers to none
of its parameters. -/
theorem evaluate_forwards_names (h : Forwards env f g) (hparam : f.name ∉ g.params)
    (hdepth : ∀ path last, CallPath env f path last → path.length < maxActiveCalls)
    (hout : f.evaluate args env = .ok out) :
    ∃ given, f.evaluate g.params env = .ok given ∧ g.evaluate args env = .ok given ∧
      ((∀ r ∈ Reference.all f.body, r.name ∉ f.params) → given = out) := by
  obtain ⟨hlength, hf⟩ :=
    (Environment.exists_expand_eq_ok_iff (List.nodup_singleton f.name)).mp ⟨out, hout⟩
  obtain ⟨given, hgiven, henter⟩ := h.exists_enter hdepth hf
  refine ⟨given, hgiven, ?_, fun hnone => ?_⟩
  · rw [evaluate, Environment.expand_eq]
    exact h.expandWith hparam (hlength.trans h.arity_eq.symm) henter
  · rw [evaluate, Environment.expand_eq, expandWith_eq_of_not_param h.arity_eq hlength hnone,
      ← Environment.expand_eq, ← evaluate, hout] at hgiven
    exact (Except.ok.inj hgiven).symm

/-- A callee that calls another macro itself, and one that only refers to its parameters. -/
def bracketed : Macro := ⟨"$bracketed", "[$z]", ["$z"]⟩

def framed : Macro := ⟨"$framed", "$bracketed($x)<$x, $y>", ["$x", "$y"]⟩

def forwarding : Macro := ⟨"$forwarding", "$framed($p, $q)", ["$p", "$q"]⟩

theorem callPath_framed {path : List Macro} {last : Macro}
    (h : CallPath ⟨[bracketed, framed]⟩ framed path last) :
    path = [framed] ∧ last = framed ∨ path = [framed, bracketed] ∧ last = bracketed := by
  cases h with
  | single => exact .inl ⟨rfl, rfl⟩
  | step hcall hrest =>
      rename_i callee r rest
      have hr : r = ⟨"$bracketed", some "$x"⟩ := by
        have hall : ∀ r ∈ Reference.all framed.body,
            r.name ∉ framed.params → r = ⟨"$bracketed", some "$x"⟩ := by decide +kernel
        exact hall r hcall.mem hcall.not_param
      obtain rfl : bracketed = callee := by
        rw [← Option.some_inj, ← hcall.found, hr]
        decide +kernel
      obtain ⟨rfl, rfl⟩ := hrest.eq_singleton (by decide +kernel)
      exact .inr ⟨rfl, rfl⟩

theorem forwarding_gives_framed_names :
    framed.evaluate ["1", "2"] ⟨[bracketed, framed]⟩ = .ok "[1]<1, 2>" ∧
      forwarding.evaluate ["1", "2"] ⟨[bracketed, framed]⟩ = .ok "[$p]<$p, $q>" := by
  have hout : framed.evaluate ["1", "2"] ⟨[bracketed, framed]⟩ = .ok "[1]<1, 2>" := by
    decide +kernel
  have hnames : framed.evaluate ["$p", "$q"] ⟨[bracketed, framed]⟩ = .ok "[$p]<$p, $q>" := by
    decide +kernel
  have hforwards : Forwards ⟨[bracketed, framed]⟩ framed forwarding := by
    refine ⟨by decide, by decide, ?_, ?_, rfl, by decide, ?_, by decide⟩
    · exact ⟨framed.name, framed.params, by decide⟩
    · exact ⟨forwarding.name, forwarding.params, by decide⟩
    · intro path caller hpath
      rcases callPath_framed hpath with ⟨-, rfl⟩ | ⟨-, rfl⟩ <;> decide +kernel
  have hdepth : ∀ path last, CallPath ⟨[bracketed, framed]⟩ framed path last →
      path.length < maxActiveCalls := by
    intro path last hpath
    rcases callPath_framed hpath with ⟨rfl, -⟩ | ⟨rfl, -⟩ <;> decide
  obtain ⟨given, hgiven, hforwarding, -⟩ :=
    evaluate_forwards_names hforwards (by decide) hdepth hout
  obtain rfl : "[$p]<$p, $q>" = given := Except.ok.inj (hnames.symm.trans hgiven)
  exact ⟨hout, hforwarding⟩

def enclosed : Macro := ⟨"$enclosed", "<$x>", ["$x"]⟩

/-- Its parameter reaches the other macro as a name. -/
def relay : Macro := ⟨"$relay", "$enclosed($p)", ["$p"]⟩

/-- Its parameter has the name of the other macro, which is not called then. -/
def shadow : Macro := ⟨"$shadow", "$enclosed($enclosed)", ["$enclosed"]⟩

theorem callPath_enclosed {path : List Macro} {last : Macro}
    (h : CallPath ⟨[enclosed]⟩ enclosed path last) : path = [enclosed] ∧ last = enclosed :=
  h.eq_singleton (by decide +kernel)

theorem forwards_enclosed (hg : g.IsMade) (harity : g.arity = 1) (hname : g.name ≠ enclosed.name)
    (hunreferenced : ∀ r ∈ Reference.all enclosed.body, r.name ≠ g.name)
    (hbody : g.body = enclosed.name ++ '(' :: (Text.commaSeparated g.params ++ [')'])) :
    Forwards ⟨[enclosed]⟩ enclosed g := by
  refine ⟨by decide, by decide, ?_, hg, harity, hname, fun path caller hpath => ?_, hbody⟩
  · exact ⟨enclosed.name, enclosed.params, by decide⟩
  · rwa [(callPath_enclosed hpath).2]

theorem forwarded_argument_is_not_seen :
    Forwards ⟨[enclosed]⟩ enclosed relay ∧ Forwards ⟨[enclosed]⟩ enclosed shadow ∧
      relay.params.Nodup ∧ shadow.params.Nodup ∧ (∀ arg ∈ (["1"] : List Text), sigil ∉ arg) ∧
      (∀ path last, CallPath ⟨[enclosed]⟩ enclosed path last → path.length < maxActiveCalls) ∧
      enclosed.evaluate ["1"] ⟨[enclosed]⟩ = .ok "<1>" ∧
      relay.evaluate ["1"] ⟨[enclosed]⟩ = .ok "<$p>" ∧
      shadow.evaluate ["1"] ⟨[enclosed]⟩ = .ok "1" := by
  refine ⟨forwards_enclosed ?_ rfl ?_ ?_ ?_, forwards_enclosed ?_ rfl ?_ ?_ ?_, ?_⟩
  · exact ⟨relay.name, relay.params, by decide⟩
  · decide
  · decide +kernel
  · decide
  · exact ⟨shadow.name, shadow.params, by decide⟩
  · decide
  · decide +kernel
  · decide
  · refine ⟨by decide, by decide, by decide, fun path last hpath => ?_, by decide +kernel⟩
    rw [(callPath_enclosed hpath).1]
    decide

end Macro

end TemplateSuite
