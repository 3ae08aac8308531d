import Mathlib.Data.List.Chain
import Mathlib.Data.List.Infix
import TemplateSuite.Proofs.Macro.NestedCall
import TemplateSuite.Proofs.Macro.Replacement

namespace TemplateSuite

namespace Macro

open Piece

variable {env : Environment} {m : Macro} {args : List Text} {r : Reference} {out : Text}

/-- What a reference in the body stands for: the argument bound to the parameter, the body of a macro
without parameters as it is, or what the macro called evaluates to on the arguments of the call. It
stands for nothing else, and is kept, if it is the one that may be undefined. -/
inductive StandsFor (env : Environment) (m : Macro) (args : List Text) (r : Reference) :
    Option Text → Prop
  | argument {value : Text} :
      m.binding? args r.name = some value → StandsFor env m args r (some value)
  | constant {callee : Macro} :
      r.name ∉ m.params → env.get? r.name = some callee → callee.params = [] →
        StandsFor env m args r (some callee.body)
  | call {callee : Macro} {out : Text} :
      r.name ∉ m.params → env.get? r.name = some callee → callee.params ≠ [] →
        callee.evaluate r.arguments env = .ok out → StandsFor env m args r (some out)
  | kept :
      r.name ∉ m.params → env.get? r.name = none → r.name = keptReference →
        StandsFor env m args r none

theorem standsFor_iff (hlength : args.length = m.arity) {found : Option Text} :
    StandsFor env m args r found ↔
      m.resolve env (fun callee args => callee.evaluate args env) args r = .ok found := by
  constructor
  · rintro (⟨hbinding⟩ | ⟨hparam, hget, hparams⟩ | ⟨hparam, hget, hparams, hout⟩ |
      ⟨hparam, hget, hkept⟩)
    · exact resolve_of_binding hbinding
    · exact resolve_of_constant ((binding?_eq_none_iff hlength r.name).mpr hparam) hget hparams
    · rw [resolve_of_call ((binding?_eq_none_iff hlength r.name).mpr hparam) hget hparams, hout]
      rfl
    · rw [resolve_of_unknown ((binding?_eq_none_iff hlength r.name).mpr hparam) hget, if_pos hkept]
  · intro h
    rcases resolve_eq_ok_cases h with ⟨value, hbinding, rfl⟩ | ⟨hbinding, hunbound⟩
    · exact .argument hbinding
    · have hparam : r.name ∉ m.params := (binding?_eq_none_iff hlength r.name).mp hbinding
      rcases hunbound with ⟨hget, hkept, rfl⟩ | ⟨callee, hget, ⟨hparams, rfl⟩ |
        ⟨hparams, out, hout, rfl⟩⟩
      · exact .kept hparam hget hkept
      · exact .constant hparam hget hparams
      · exact .call hparam hget hparams hout

/-- The steps of an evaluation: every reference is found to stand for something, and then the tokens
are replaced. -/
theorem exists_expansion_of_evaluate (h : m.evaluate args env = .ok out)
    (hsome : Reference.all m.body ≠ []) :
    ∃ expansion : Reference → Option Text,
      (∀ r ∈ Reference.all m.body, StandsFor env m args r (expansion r)) ∧
        out = substitute m.body ((Reference.all m.body).eraseDups.zip
          ((Reference.all m.body).eraseDups.map expansion)) := by
  have hexpand : m.expandWith env (env.enter [m.name] (maxActiveCalls - 1)) args = .ok out := by
    rw [← Environment.expand_eq]
    exact h
  have hlength : args.length = m.arity := (exists_expandWith_eq_ok_iff.mp ⟨out, hexpand⟩).1
  have hnot : (Reference.all m.body).eraseDups ≠ [] := by
    obtain ⟨r, hr⟩ := List.exists_mem_of_ne_nil _ hsome
    exact List.ne_nil_of_mem (List.mem_eraseDups.mpr hr)
  rw [expandWith_of_length env _ hlength] at hexpand
  cases hfound : (Reference.all m.body).eraseDups.mapM
      (m.resolve env (env.enter [m.name] (maxActiveCalls - 1)) args) with
  | error e =>
      rw [hfound] at hexpand
      cases hexpand
  | ok found =>
      rw [hfound] at hexpand
      have hout := Except.ok.inj hexpand
      simp only [if_neg hnot] at hout
      obtain ⟨expansion, hexpansion, rfl⟩ := Traversal.exists_map_of_mapM hfound
      refine ⟨expansion, fun r hr => ?_, hout.symm⟩
      rw [standsFor_iff hlength]
      exact resolve_mono (fun _ _ _ => Environment.evaluate_of_enter (Nat.sub_le _ _))
        (hexpansion r (List.mem_eraseDups.mpr hr))

theorem keepApart_of_isChain {text : Text}
    (h : (ofText text).IsChain fun piece next => piece.reference? = none ∨ next.reference? = none)
    (shown : Reference → Option Text) : KeepApart shown (ofText text) := by
  intro r after hsuffix _ hlist c hc
  cases after with
  | nil => cases hc
  | cons next rest =>
      cases next with
      | char d =>
          obtain rfl : d = c := Option.some.inj hc
          exact not_identifierChar_of_suffix hsuffix hlist
      | reference other =>
          have hpair := List.isChain_cons_cons.mp (h.suffix hsuffix)
          rcases hpair.1 with hnone | hnone <;> cases hnone

/-- If the expansion of a body succeeds, its only sigils begin references, no reference directly
follows another one, no name is referenced in both forms, and nothing that the references stand for
has a sigil, then the result is the body with every reference replaced by what it stands for, in one
pass; a reference that may be undefined stays. -/
theorem evaluate_replaces_references_in_one_pass (h : m.evaluate args env = .ok out)
    (hsome : Reference.all m.body ≠ []) (hplain : IsPlain (ofText m.body))
    (hchain : (ofText m.body).IsChain fun piece next =>
      piece.reference? = none ∨ next.reference? = none)
    (hvalues : ∀ r ∈ Reference.all m.body, ∀ value, StandsFor env m args r (some value) →
      sigil ∉ value) :
    ∃ expansion : Reference → Option Text,
      (∀ r ∈ Reference.all m.body, StandsFor env m args r (expansion r)) ∧
        out = render expansion (ofText m.body) := by
  obtain ⟨expansion, hexpansion, rfl⟩ := exists_expansion_of_evaluate h hsome
  refine ⟨expansion, hexpansion, ?_⟩
  apply substitute_eq_render hplain
  · intro r hr value hvalue
    exact hvalues r hr value (hvalue ▸ hexpansion r hr)
  · exact fun now _ => keepApart_of_isChain hchain _

/-- A call, a constant, a parameter and a reference that may be undefined. -/
def guarded : Macro := ⟨"$guarded", "if ($add(a, [b, c]) < $limit) $x; // $Id", ["$x"]⟩

def guards : Environment := ⟨[⟨"$add", "$l + $r", ["$l", "$r"]⟩, ⟨"$limit", "10", []⟩]⟩

theorem guarded_is_expanded_in_one_pass :
    ∃ expansion : Reference → Option Text,
      (∀ r ∈ Reference.all guarded.body, StandsFor guards guarded ["stop()"] r (expansion r)) ∧
        ("if (a + b, c < 10) stop(); // $Id" : Text) = render expansion (ofText guarded.body) := by
  have hforms : ∀ r ∈ Reference.all guarded.body, ∀ other ∈ Reference.all guarded.body,
      r.name = other.name → r.list.isSome = other.list.isSome := by decide +kernel
  have hvalues : ∀ r ∈ Reference.all guarded.body, sigil ∉
      (guarded.resolve guards (fun callee args => callee.evaluate args guards) ["stop()"]
        r).toOption.join.getD [] := by decide +kernel
  apply evaluate_replaces_references_in_one_pass
  · decide +kernel
  · decide +kernel
  · exact ⟨by decide +kernel, fun r other hr hother =>
      hforms r (mem_all_iff.mpr hr) other (mem_all_iff.mpr hother)⟩
  · decide +kernel
  · intro r hr value hvalue
    have hlength : (["stop()"] : List Text).length = guarded.arity := rfl
    have hnot := hvalues r hr
    rw [(standsFor_iff hlength).mp hvalue] at hnot
    exact hnot

/-- Every sigil in the text begins the name of one of the parameters, and no parenthesis follows the
name. -/
def RefersTo (params : List Text) (text : Text) : Prop :=
  ∀ after, sigil :: after <:+ text → after.takeWhile isIdentifierChar ≠ [] ∧
    sigil :: after.takeWhile isIdentifierChar ∈ params ∧
      (after.dropWhile isIdentifierChar).head? ≠ some '('

/-- The references of the text that stand before the first occurrence of the given one. -/
def standingBefore (text : Text) (r : Reference) : List Reference :=
  (Reference.all text).takeWhile (· != r)

/-- When it is the turn of a reference, that is when those standing before it have been replaced, none
of its occurrences is followed by a character of an identifier. -/
def ApartInTurn (expansion : Reference → Option Text) (text : Text) : Prop :=
  ∀ r after, reference r :: after <:+ ofText text →
    ∀ c ∈ (render (shownAfter expansion (standingBefore text r)) after).head?,
      isIdentifierChar c = false

theorem refersTo_iff {params : List Text} {text : Text} :
    RefersTo params text ↔ ∀ tail ∈ text.tails, tail.head? = some sigil →
      tail.tail.takeWhile isIdentifierChar ≠ [] ∧
        sigil :: tail.tail.takeWhile isIdentifierChar ∈ params ∧
        (tail.tail.dropWhile isIdentifierChar).head? ≠ some '(' := by
  constructor
  · intro h tail htail hhead
    obtain ⟨after, rfl⟩ := List.head?_eq_some_iff.mp hhead
    exact h after ((List.mem_tails _ _).mp htail)
  · exact fun h after hafter => h _ ((List.mem_tails _ _).mpr hafter) rfl

theorem apartInTurn_iff {expansion : Reference → Option Text} {text : Text} :
    ApartInTurn expansion text ↔
      ∀ tail ∈ (ofText text).tails, ∀ r ∈ tail.head?.bind Piece.reference?,
        (render (shownAfter expansion (standingBefore text r)) tail.tail).head?.all
          (!isIdentifierChar ·) := by
  simp only [Option.all_eq_true, Bool.not_eq_true']
  constructor
  · intro h tail htail r hr
    obtain ⟨piece, hhead, hpiece⟩ := Option.bind_eq_some_iff.mp hr
    obtain ⟨after, rfl⟩ := List.head?_eq_some_iff.mp hhead
    cases piece with
    | char c => cases hpiece
    | reference other =>
        cases hpiece
        exact h r after ((List.mem_tails _ _).mp htail)
  · exact fun h r after hafter => h _ ((List.mem_tails _ _).mpr hafter) r rfl

variable {params : List Text} {text : Text} {piece : Piece}

theorem RefersTo.suffix {rest : Text} (h : RefersTo params text) (hrest : rest <:+ text) :
    RefersTo params rest :=
  fun after hafter => h after (hafter.trans hrest)

theorem RefersTo.of_mem (h : RefersTo params text) (hpiece : piece ∈ ofText text) :
    sigil ∉ piece.inner ∧ ∀ r, piece = reference r → r.list = none ∧ r.name ∈ params := by
  fun_induction ofText text with
  | case1 => cases hpiece
  | case2 rest hname ih => exact absurd hname (h rest List.suffix_rfl).1
  | case3 rest hlist hname ih =>
      rcases List.mem_cons.mp hpiece with rfl | hmem
      · refine ⟨fun hsigil => ?_, ?_⟩
        · have hchar : isIdentifierChar sigil := List.mem_takeWhile_imp hsigil
          cases hchar
        · rintro r ⟨⟩
          exact ⟨rfl, (h rest List.suffix_rfl).2.1⟩
      · exact ih (h.suffix ((List.dropWhile_suffix _).trans (List.suffix_cons _ _))) hmem
  | case4 rest list after hlist hname ih =>
      obtain ⟨-, -, hparenthesis⟩ := h rest List.suffix_rfl
      rw [(eq_append_of_listAtStart? hlist).1] at hparenthesis
      exact absurd rfl hparenthesis
  | case5 c rest hc ih =>
      rcases List.mem_cons.mp hpiece with rfl | hmem
      · refine ⟨fun hsigil => hc (List.mem_singleton.mp hsigil).symm, ?_⟩
        rintro r ⟨⟩
      · exact ih (h.suffix (List.suffix_cons c rest)) hmem

theorem RefersTo.isPlain (h : RefersTo params text) : IsPlain (ofText text) where
  sigil_not_mem piece hpiece := (h.of_mem hpiece).1
  isSome_list r other hr hother _ := by
    rw [((h.of_mem hr).2 r rfl).1, ((h.of_mem hother).2 other rfl).1]

theorem head?_render_mono {shown more : Reference → Option Text} {pieces : List Piece} {c : Char}
    (hread : ∀ r, reference r ∈ pieces → r.IsRead)
    (hmore : ∀ r, reference r ∈ pieces → shown r = none ∨ shown r = more r)
    (hc : (render shown pieces).head? = some c) (hsigil : c ≠ sigil) :
    (render more pieces).head? = some c := by
  induction pieces with
  | nil => exact hc
  | cons piece rest ih =>
      have ih := ih (fun r hr => hread r (List.mem_cons_of_mem piece hr))
        fun r hr => hmore r (List.mem_cons_of_mem piece hr)
      cases piece with
      | char d => exact hc
      | reference r =>
          rw [render, List.head?_append] at hc ⊢
          cases hshown : shown r with
          | none =>
              rw [hshown, Option.getD_none, (hread r List.mem_cons_self).head?_token] at hc
              exact absurd (Option.some.inj hc).symm hsigil
          | some value =>
              have hvalue : more r = some value :=
                ((hmore r List.mem_cons_self).resolve_left (by simp [hshown])).symm.trans hshown
              rw [hshown, Option.getD_some] at hc
              rw [hvalue, Option.getD_some]
              cases value with
              | nil => exact ih hc
              | cons d value => exact hc

/-- While the tokens are replaced one after the other, the references that still stand keep apart. -/
theorem ApartInTurn.keepApart {expansion : Reference → Option Text} {now : List Reference}
    (h : ApartInTurn expansion text) (hnow : now <+: (Reference.all text).eraseDups)
    (hsome : ∀ r ∈ Reference.all text, expansion r ≠ none) :
    KeepApart (shownAfter expansion now) (ofText text) := by
  intro r after hsuffix hstands _ c hc
  have hsubset : after ⊆ ofText text := fun piece hpiece =>
    hsuffix.subset (List.mem_cons_of_mem _ hpiece)
  have hr : reference r ∈ ofText text := hsuffix.subset List.mem_cons_self
  have hnot : r ∉ now := by
    intro hmem
    rw [shownAfter, if_pos hmem] at hstands
    exact hsome r (mem_all_iff.mpr hr) hstands
  have hbefore : now ⊆ standingBefore text r := by
    obtain ⟨later, hlater⟩ := hnow
    intro other hother
    apply mem_takeWhile_of_eraseDups
    have hdiffer : ∀ x ∈ now, x != r := fun x hx => bne_iff_ne.mpr fun heq => hnot (heq ▸ hx)
    rw [← hlater, List.takeWhile_append_of_pos hdiffer]
    exact List.mem_append_left _ hother
  -- what follows by now would also follow at the turn of the reference, when more is replaced
  by_contra hchar
  have hsigil : c ≠ sigil := by
    rintro rfl
    exact hchar rfl
  refine hchar (h r after hsuffix c (head?_render_mono (fun r hr => isRead_of_mem (hsubset hr)) ?_
    hc hsigil))
  intro other _
  by_cases hother : other ∈ now
  · exact .inr (by simp [shownAfter, hother, hbefore hother])
  · exact .inl (if_neg hother)

theorem sigil_not_mem_render {pieces : List Piece} (hnone : ∀ r, reference r ∉ pieces)
    (hinner : ∀ piece ∈ pieces, sigil ∉ piece.inner) (shown : Reference → Option Text) :
    sigil ∉ render shown pieces := by
  induction pieces with
  | nil => exact List.not_mem_nil
  | cons piece rest ih =>
      obtain ⟨hpiece, hrest⟩ := List.forall_mem_cons.mp hinner
      have hrest := ih (fun r hr => hnone r (List.mem_cons_of_mem piece hr)) hrest
      cases piece with
      | char c =>
          intro hmem
          rcases List.mem_cons.mp hmem with heq | hmem
          · exact hpiece (List.mem_singleton.mpr heq)
          · exact hrest hmem
      | reference r => exact absurd List.mem_cons_self (hnone r)

theorem exists_binding? (hlength : args.length = m.arity) {name : Text} (hname : name ∈ m.params) :
    ∃ arg ∈ args, m.binding? args name = some arg := by
  cases hbinding : m.binding? args name with
  | none => exact absurd hname ((binding?_eq_none_iff hlength name).mp hbinding)
  | some arg =>
      obtain ⟨front, back, hsplit, -⟩ := List.lookup_eq_some_iff.mp hbinding
      have hmem : (name, arg) ∈ m.params.zip args := by
        rw [← List.mem_reverse, hsplit]
        exact List.mem_append_right front List.mem_cons_self
      exact ⟨arg, (List.of_mem_zip hmem).2, rfl⟩

theorem RefersTo.all_ne_nil (h : RefersTo params text) (hsigil : sigil ∈ text) :
    Reference.all text ≠ [] := by
  intro hnil
  have hnone : ∀ r, reference r ∉ ofText text := fun r hr =>
    List.not_mem_nil (hnil ▸ mem_all_iff.mpr hr)
  have hnot := sigil_not_mem_render hnone (fun piece hpiece => (h.of_mem hpiece).1) fun _ => none
  rw [render_ofText] at hnot
  exact hnot hsigil

theorem evaluate_of_bound (env : Environment) (hlength : args.length = m.arity)
    (hsome : Reference.all m.body ≠ [])
    (hbound : ∀ r ∈ Reference.all m.body, ∃ arg, m.binding? args r.name = some arg) :
    m.evaluate args env = .ok (substitute m.body ((Reference.all m.body).eraseDups.zip
      ((Reference.all m.body).eraseDups.map fun r => m.binding? args r.name))) := by
  obtain ⟨out, hout⟩ : ∃ out, m.evaluate args env = .ok out := by
    rw [evaluate, Environment.expand_eq, exists_expandWith_eq_ok_iff]
    refine ⟨hlength, fun r hr => ?_⟩
    obtain ⟨arg, harg⟩ := hbound r hr
    exact ⟨some arg, resolve_of_binding harg⟩
  obtain ⟨expansion, hexpansion, rfl⟩ := exists_expansion_of_evaluate hout hsome
  have hsame : ∀ r ∈ (Reference.all m.body).eraseDups, expansion r = m.binding? args r.name := by
    intro r hr
    obtain ⟨arg, harg⟩ := hbound r (List.mem_eraseDups.mp hr)
    have hresolve := (standsFor_iff hlength).mp (hexpansion r (List.mem_eraseDups.mp hr))
    rw [resolve_of_binding harg] at hresolve
    exact (Except.ok.inj hresolve).symm.trans harg.symm
  rw [hout, List.map_congr_left hsame]

/-- A body whose sigils all begin references to parameters expands, for arguments without sigils, to
the body with every reference replaced by the argument of the parameter, in one pass; provided that a
reference whose turn comes later is not followed by a character of an identifier by then. -/
theorem evaluate_substitutes_arguments_in_one_pass (env : Environment) (hsigil : sigil ∈ m.body)
    (hrefers : RefersTo m.params m.body) (hlength : args.length = m.arity)
    (hargs : ∀ arg ∈ args, sigil ∉ arg)
    (hapart : ApartInTurn (fun r => m.binding? args r.name) m.body) :
    m.evaluate args env = .ok (render (fun r => m.binding? args r.name) (ofText m.body)) := by
  have hbinding : ∀ r ∈ Reference.all m.body, ∃ arg ∈ args, m.binding? args r.name = some arg :=
    fun r hr => exists_binding? hlength ((hrefers.of_mem (mem_all_iff.mp hr)).2 r rfl).2
  have hbound : ∀ r ∈ Reference.all m.body, ∃ arg, m.binding? args r.name = some arg :=
    fun r hr => (hbinding r hr).imp fun _ => And.right
  have hvalues : ∀ r ∈ Reference.all m.body, ∀ value, m.binding? args r.name = some value →
      sigil ∉ value := by
    intro r hr value hvalue
    obtain ⟨arg, hmem, harg⟩ := hbinding r hr
    obtain rfl : arg = value := Option.some.inj (harg.symm.trans hvalue)
    exact hargs arg hmem
  rw [evaluate_of_bound env hlength (hrefers.all_ne_nil hsigil) hbound]
  congr 1
  refine substitute_eq_render hrefers.isPlain hvalues fun now hnow => hapart.keepApart hnow ?_
  intro r hr
  obtain ⟨arg, harg⟩ := hbound r hr
  simp [harg]

def bothOrders : Macro := ⟨"$both", "$a$b, $b$a", ["$a", "$b"]⟩

theorem neighbours_are_substituted_in_one_pass :
    bothOrders.evaluate ["<x>", "y"] .empty = .ok "<x>y, y<x>" := by
  have hrender : render (fun r => bothOrders.binding? ["<x>", "y"] r.name)
      (ofText bothOrders.body) = "<x>y, y<x>" := by decide +kernel
  rw [← hrender]
  apply evaluate_substitutes_arguments_in_one_pass
  · decide
  · exact refersTo_iff.mpr (by decide)
  · rfl
  · decide
  · exact apartInTurn_iff.mpr (by decide +kernel)

/-- `$b` is replaced first, and what it stands for makes `$a` the beginning of a longer name. -/
def secondFirst : Macro := ⟨"$second", "$b $a$b", ["$a", "$b"]⟩

theorem argument_put_in_hides_a_reference :
    secondFirst.params.Nodup ∧ sigil ∈ secondFirst.body ∧
      RefersTo secondFirst.params secondFirst.body ∧
      (["x", "y"] : List Text).length = secondFirst.arity ∧
      (∀ arg ∈ (["x", "y"] : List Text), sigil ∉ arg) ∧
      render (fun r => secondFirst.binding? ["x", "y"] r.name) (ofText secondFirst.body) = "y xy" ∧
      secondFirst.evaluate ["x", "y"] .empty = .ok "y $ay" := by
  rw [refersTo_iff]
  decide +kernel

end Macro

end TemplateSuite
