import TemplateSuite.Proofs.Macro.Piece

/-!
Replacing tokens one after the other. A token is replaced in the whole text, also in what earlier
replacements have put there. As long as no text put in has a sigil and every reference that still
stands keeps apart from what follows it, each replacement meets exactly the references with that
token, so that all of them together give what one pass over the pieces gives.
-/

namespace TemplateSuite

section FirstOccurrences

variable {α : Type} [DecidableEq α] {x y : α}

@[elab_as_elim]
theorem eraseDups_induction {motive : List α → Prop} (nil : motive [])
    (cons : ∀ first rest, motive (rest.filter fun z => !z == first) → motive (first :: rest))
    (xs : List α) : motive xs := by
  induction hlength : xs.length using Nat.strongRecOn generalizing xs with
  | _ length ih =>
      cases xs with
      | nil => exact nil
      | cons first rest =>
          have hshorter : (rest.filter fun z => !z == first).length < length := by
            have := List.length_filter_le (fun z => !z == first) rest
            rw [← hlength, List.length_cons]
            omega
          exact cons first rest (ih _ hshorter _ rfl)

theorem nodup_eraseDups (xs : List α) : xs.eraseDups.Nodup := by
  induction xs using eraseDups_induction with
  | nil => exact List.nodup_nil
  | cons first rest ih =>
      rw [List.eraseDups_cons, List.nodup_cons]
      exact ⟨by simp, ih⟩

theorem mem_takeWhile_of_eraseDups {xs : List α} (h : x ∈ xs.eraseDups.takeWhile (· != y)) :
    x ∈ xs.takeWhile (· != y) := by
  induction xs using eraseDups_induction with
  | nil => exact h
  | cons first rest ih =>
      rw [List.eraseDups_cons] at h
      by_cases hfirst : first = y
      · simp [hfirst] at h
      · rw [List.takeWhile_cons_of_pos (by simpa using hfirst)] at h ⊢
        refine List.mem_cons.mpr ((List.mem_cons.mp h).imp_right fun hmem => ?_)
        have hrest := ih hmem
        rw [List.takeWhile_filter] at hrest
        have hsame : (fun z => (!!z == first) || z != y) = (· != y) := by
          funext z
          by_cases hz : z = first
          · simp [hz, hfirst]
          · simp [hz]
        rw [hsame] at hrest
        exact List.mem_of_mem_filter hrest

end FirstOccurrences

variable {token value front rest : Text} {c : Char}

theorem replaceToken_cons
    (h : token <+: c :: rest → isWithinName token (rest.drop (token.length - 1))) :
    replaceToken token value (c :: rest) = c :: replaceToken token value rest := by
  rw [replaceToken, if_neg]
  rw [Bool.and_eq_true, List.isPrefixOf_iff_prefix, Bool.not_eq_true']
  rintro ⟨hbegins, hwithin⟩
  exact Bool.false_ne_true (hwithin.symm.trans (h hbegins))

theorem replaceToken_append (htoken : token.head? = some sigil) (hfront : sigil ∉ front) :
    replaceToken token value (front ++ rest) = front ++ replaceToken token value rest := by
  induction front with
  | nil => rfl
  | cons d front ih =>
      obtain ⟨hd, hfront⟩ := not_or.mp (List.mem_cons.not.mp hfront)
      rw [List.cons_append, replaceToken_cons, ih hfront, List.cons_append]
      rintro ⟨after, hafter⟩
      obtain ⟨name, rfl⟩ := List.head?_eq_some_iff.mp htoken
      exact absurd (List.cons.inj hafter).1 hd

theorem replaceToken_token_append (htoken : token.head? = some sigil)
    (hrest : isWithinName token rest = false) :
    replaceToken token value (token ++ rest) = value ++ replaceToken token value rest := by
  obtain ⟨name, rfl⟩ := List.head?_eq_some_iff.mp htoken
  have hdrop : (name ++ rest).drop ((sigil :: name).length - 1) = rest := by simp
  rw [List.cons_append, replaceToken, if_pos, hdrop]
  rw [hdrop, hrest, Bool.not_false, Bool.and_true, List.isPrefixOf_iff_prefix]
  exact List.prefix_append (sigil :: name) rest

theorem IsMacroName.any_getLast? {name : Text} (h : IsMacroName name) :
    name.getLast?.any isIdentifierChar := by
  obtain ⟨identifier, rfl, -⟩ := id h
  obtain ⟨c, hc⟩ : ∃ c, (sigil :: identifier).getLast? = some c := ⟨_, List.getLast?_cons⟩
  rw [hc]
  exact h.getLast? c hc

namespace Reference

variable {r other : Reference} {after : Text}

def listText (r : Reference) : Text :=
  r.list.elim [] fun list => '(' :: (list ++ [')'])

theorem token_eq (r : Reference) : r.token = r.name ++ r.listText := by
  unfold token listText
  cases r.list with
  | none => simp
  | some list => simp

theorem IsRead.head?_token (h : r.IsRead) : r.token.head? = some sigil := by
  rw [token_eq, List.head?_append, h.isMacroName.head?, Option.some_or]

theorem not_identifierChar_after_name
    (h : r.list = none → ∀ c ∈ after.head?, isIdentifierChar c = false) :
    ∀ c ∈ (r.listText ++ after).head?, isIdentifierChar c = false := by
  unfold listText
  cases hlist : r.list with
  | none => exact h hlist
  | some list =>
      rintro c ⟨⟩
      rfl

theorem list_eq_of_listText_append (hr : r.IsRead) (hother : other.IsRead)
    (hform : r.list.isSome = other.list.isSome) {rest : Text}
    (h : r.listText ++ rest = other.listText ++ after) : r.list = other.list := by
  unfold listText at h
  cases hlist : r.list with
  | none =>
      rw [hlist] at hform
      exact (Option.not_isSome_iff_eq_none.mp (ne_true_of_eq_false hform.symm)).symm
  | some list =>
      rw [hlist] at hform
      obtain ⟨otherList, hotherList⟩ := Option.isSome_iff_exists.mp hform.symm
      rw [hlist, hotherList] at h
      have htail : list ++ ')' :: rest = otherList ++ ')' :: after := by simpa using h
      have hsplit := Text.splitAt?_append (hr.parenthesis_not_mem list hlist) rest
      rw [htail, Text.splitAt?_append (hother.parenthesis_not_mem otherList hotherList)] at hsplit
      cases hsplit
      exact hotherList.symm

theorem takeWhile_ne_nil_of_token_append (hr : r.IsRead) (hother : other.IsRead) (hne : r ≠ other)
    (hform : r.name = other.name → r.list.isSome = other.list.isSome)
    (hafter : other.list = none → ∀ c ∈ after.head?, isIdentifierChar c = false) {rest : Text}
    (h : r.token ++ rest = other.token ++ after) :
    (r.listText ++ rest).takeWhile isIdentifierChar ≠ [] := by
  obtain ⟨name, hname, hidentifier⟩ := hr.isMacroName
  obtain ⟨otherName, hotherName, hotherIdentifier⟩ := hother.isMacroName
  rw [token_eq, token_eq, hname, hotherName, List.append_assoc, List.append_assoc] at h
  have htail : name ++ (r.listText ++ rest) = otherName ++ (other.listText ++ after) :=
    (List.cons.inj h).2
  have hrun : name ++ (r.listText ++ rest).takeWhile isIdentifierChar = otherName := by
    rw [← List.takeWhile_append_of_pos (identifierChar_of_isIdentifier hidentifier).2, htail]
    exact Text.takeWhile_run (identifierChar_of_isIdentifier hotherIdentifier).2
      (not_identifierChar_after_name hafter)
  intro hnil
  rw [hnil, List.append_nil] at hrun
  have hnames : r.name = other.name := by rw [hname, hotherName, hrun]
  rw [hrun] at htail
  have hlists := list_eq_of_listText_append hr hother (hform hnames)
    (List.append_cancel_left htail)
  cases r
  cases other
  exact hne (congrArg₂ Reference.mk hnames hlists)

theorem isWithinName_of_prefix (hr : r.IsRead) (hother : other.IsRead) (hne : r ≠ other)
    (hform : r.name = other.name → r.list.isSome = other.list.isSome)
    (hafter : other.list = none → ∀ c ∈ after.head?, isIdentifierChar c = false)
    (h : r.token <+: other.token ++ after) :
    isWithinName r.token ((other.token ++ after).drop r.token.length) := by
  obtain ⟨rest, hrest⟩ := h
  have hlonger := takeWhile_ne_nil_of_token_append hr hother hne hform hafter hrest
  obtain ⟨c, hc, hchar⟩ : ∃ c, (r.listText ++ rest).head? = some c ∧ isIdentifierChar c := by
    cases hfirst : r.listText ++ rest with
    | nil => simp [hfirst] at hlonger
    | cons c more =>
        refine ⟨c, rfl, ?_⟩
        by_contra hc
        simp [hfirst, hc] at hlonger
  rw [← hrest, List.drop_left]
  -- an argument list does not begin like the rest of a name
  cases hlist : r.list with
  | none =>
      have hempty : r.listText = [] := by rw [listText, hlist]; rfl
      rw [hempty, List.nil_append] at hc
      rw [isWithinName, token_eq, hempty, List.append_nil, hc, hr.isMacroName.any_getLast?]
      exact hchar
  | some list =>
      rw [listText, hlist] at hc
      cases hc
      cases hchar

/-- Another reference that stands is passed over: its own sigil is the only place in it where the
token could begin. -/
theorem replaceToken_other_append (hr : r.IsRead) (hother : other.IsRead) (hne : r ≠ other)
    (hform : r.name = other.name → r.list.isSome = other.list.isSome)
    (hsigil : sigil ∉ other.token.tail)
    (hafter : other.list = none → ∀ c ∈ after.head?, isIdentifierChar c = false) :
    replaceToken r.token value (other.token ++ after) =
      other.token ++ replaceToken r.token value after := by
  have hwithin := isWithinName_of_prefix hr hother hne hform hafter
  obtain ⟨name, hname⟩ := List.head?_eq_some_iff.mp hr.head?_token
  obtain ⟨inside, hinside⟩ := List.head?_eq_some_iff.mp hother.head?_token
  rw [hinside, List.tail_cons] at hsigil
  rw [hinside, hname, List.cons_append] at hwithin
  rw [hinside, List.cons_append, hname, replaceToken_cons hwithin, replaceToken_append rfl hsigil,
    List.cons_append]

theorem isWithinName_eq_false (h : r.list = none → ∀ c ∈ after.head?, isIdentifierChar c = false) :
    isWithinName r.token after = false := by
  rw [isWithinName, Bool.and_eq_false_iff]
  cases hlist : r.list with
  | none =>
      right
      cases hfirst : after.head? with
      | none => rfl
      | some c => exact h hlist c hfirst
  | some list =>
      left
      rw [token, hlist]
      simp only [List.getLast?_concat]
      rfl

end Reference

namespace Piece

/-- What the piece has besides the sigil of a reference. -/
def inner : Piece → Text
  | char c => [c]
  | reference r => r.token.tail

/-- Every sigil begins a reference, and no name is referenced both with a list of arguments and
without one. -/
structure IsPlain (pieces : List Piece) : Prop where
  sigil_not_mem : ∀ piece ∈ pieces, sigil ∉ piece.inner
  isSome_list : ∀ r other, reference r ∈ pieces → reference other ∈ pieces → r.name = other.name →
    r.list.isSome = other.list.isSome

/-- The names that still stand end where they did: none is followed by a character of an
identifier. -/
def KeepApart (shown : Reference → Option Text) (pieces : List Piece) : Prop :=
  ∀ r after, reference r :: after <:+ pieces → shown r = none → r.list = none →
    ∀ c ∈ (render shown after).head?, isIdentifierChar c = false

variable {pieces rest : List Piece} {shown shown' : Reference → Option Text} {r : Reference}
  {value : Text}

theorem replaceToken_render (hread : ∀ r, reference r ∈ pieces → r.IsRead) (hplain : IsPlain pieces)
    (hvalues : ∀ r, reference r ∈ pieces → ∀ value, shown r = some value → sigil ∉ value)
    (hapart : KeepApart shown pieces) (hr : reference r ∈ pieces) (hstands : shown r = none)
    (hvalue : shown' r = some value) (hothers : ∀ other, other ≠ r → shown' other = shown other)
    (hrest : rest <:+ pieces) :
    replaceToken r.token value (render shown rest) = render shown' rest := by
  have htoken : r.token.head? = some sigil := (hread r hr).head?_token
  induction rest with
  | nil => rw [render, render, replaceToken]
  | cons piece rest ih =>
      have hpiece : piece ∈ pieces := hrest.subset List.mem_cons_self
      have ih := ih ((List.suffix_cons piece rest).trans hrest)
      cases piece with
      | char c =>
          have hc : sigil ∉ [c] := hplain.sigil_not_mem _ hpiece
          rw [render, render, ← ih]
          exact replaceToken_append htoken hc
      | reference other =>
          have hafter : shown other = none → other.list = none →
              ∀ c ∈ (render shown rest).head?, isIdentifierChar c = false := hapart other rest hrest
          rw [render, render]
          by_cases hsame : other = r
          · subst hsame
            have hwithin := Reference.isWithinName_eq_false (hafter hstands)
            rw [hstands, hvalue, Option.getD_none, Option.getD_some,
              replaceToken_token_append htoken hwithin, ih]
          · rw [hothers other hsame]
            cases hother : shown other with
            | some text =>
                rw [Option.getD_some, replaceToken_append htoken (hvalues other hpiece text hother),
                  ih]
            | none =>
                have hsigil : sigil ∉ other.token.tail := hplain.sigil_not_mem _ hpiece
                rw [Option.getD_none, Reference.replaceToken_other_append (hread r hr)
                  (hread other hpiece) (Ne.symm hsame) (hplain.isSome_list r other hr hpiece) hsigil
                  (hafter hother), ih]

/-- What is shown when only some of the references have been replaced. -/
def shownAfter (expansion : Reference → Option Text) (done : List Reference) (r : Reference) :
    Option Text :=
  if r ∈ done then expansion r else none

variable {text : Text} {expansion : Reference → Option Text} {done todo : List Reference}

theorem render_congr (h : ∀ r, reference r ∈ pieces → shown r = shown' r) :
    render shown pieces = render shown' pieces := by
  induction pieces with
  | nil => rfl
  | cons piece rest ih =>
      have ih := ih fun r hr => h r (List.mem_cons_of_mem piece hr)
      cases piece with
      | char c => rw [render, render, ih]
      | reference r => rw [render, render, h r List.mem_cons_self, ih]

theorem shownAfter_eq_some (h : shownAfter expansion done r = some value) :
    expansion r = some value := by
  unfold shownAfter at h
  split at h
  · exact h
  · cases h

theorem shownAfter_concat_of_ne {other : Reference} (h : other ≠ r) :
    shownAfter expansion (done ++ [r]) other = shownAfter expansion done other := by
  simp [shownAfter, h]

theorem substitute_none (text : Text) (r : Reference) : Macro.substitute text [(r, none)] = text := rfl

theorem substitute_some (text : Text) (r : Reference) (value : Text) :
    Macro.substitute text [(r, some value)] = replaceToken r.token value text := rfl

theorem substitute_cons (text : Text) (first : Reference × Option Text)
    (rest : List (Reference × Option Text)) :
    Macro.substitute text (first :: rest) = Macro.substitute (Macro.substitute text [first]) rest :=
  rfl

/-- The references still to be replaced are replaced one after the other, and each replacement goes
through the whole text. -/
theorem substitute_render (hread : ∀ r, reference r ∈ pieces → r.IsRead) (hplain : IsPlain pieces)
    (hvalues : ∀ r, reference r ∈ pieces → ∀ value, expansion r = some value → sigil ∉ value)
    (hmem : ∀ r ∈ todo, reference r ∈ pieces) (hnodup : (done ++ todo).Nodup)
    (hapart : ∀ now, now <+: done ++ todo → KeepApart (shownAfter expansion now) pieces) :
    Macro.substitute (render (shownAfter expansion done) pieces) (todo.zip (todo.map expansion)) =
      render (shownAfter expansion (done ++ todo)) pieces := by
  induction todo generalizing done with
  | nil => rw [List.append_nil]; rfl
  | cons r todo ih =>
      obtain ⟨hr, htodo⟩ := List.forall_mem_cons.mp hmem
      have hmove : done ++ r :: todo = done ++ [r] ++ todo := by simp
      have hnot : r ∉ done := fun hdone =>
        (List.disjoint_of_nodup_append hnodup) hdone List.mem_cons_self
      have hstands : shownAfter expansion done r = none := if_neg hnot
      have hstep : Macro.substitute (render (shownAfter expansion done) pieces) [(r, expansion r)] =
          render (shownAfter expansion (done ++ [r])) pieces := by
        cases hvalue : expansion r with
        | none =>
            rw [substitute_none]
            refine render_congr fun other _ => ?_
            by_cases hsame : other = r
            · simp [shownAfter, hsame, hvalue]
            · exact (shownAfter_concat_of_ne hsame).symm
        | some value =>
            rw [substitute_some]
            refine replaceToken_render hread hplain ?_ (hapart done (List.prefix_append _ _)) hr
              hstands (by simp [shownAfter, hvalue]) (fun other => shownAfter_concat_of_ne)
              List.suffix_rfl
            exact fun other hother value hshown => hvalues other hother value (shownAfter_eq_some hshown)
      rw [hmove] at hnodup hapart ⊢
      rw [← ih htodo hnodup hapart, List.map_cons, List.zip_cons_cons, substitute_cons, hstep]

theorem substitute_eq_render {body : Text} (hplain : IsPlain (ofText body))
    (hvalues : ∀ r ∈ Reference.all body, ∀ value, expansion r = some value → sigil ∉ value)
    (hapart : ∀ now, now <+: (Reference.all body).eraseDups →
      KeepApart (shownAfter expansion now) (ofText body)) :
    Macro.substitute body ((Reference.all body).eraseDups.zip
        ((Reference.all body).eraseDups.map expansion)) =
      render expansion (ofText body) := by
  have hmem : ∀ r ∈ (Reference.all body).eraseDups, reference r ∈ ofText body := fun r hr =>
    mem_all_iff.mp (List.mem_eraseDups.mp hr)
  have hnodup : ([] ++ (Reference.all body).eraseDups).Nodup := nodup_eraseDups _
  have hstart : render (shownAfter expansion []) (ofText body) = body :=
    (render_congr fun r _ => if_neg List.not_mem_nil).trans (render_ofText body)
  have hrun := substitute_render (fun r => isRead_of_mem) hplain
    (fun r hr => hvalues r (mem_all_iff.mpr hr)) hmem hnodup hapart
  rw [hstart] at hrun
  rw [hrun]
  exact render_congr fun r hr => if_pos (List.mem_eraseDups.mpr (mem_all_iff.mpr hr))

end Piece

end TemplateSuite
