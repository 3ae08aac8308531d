import TemplateSuite.Proofs.Macro.Piece

/-!
The places of the references in a text. Wherever a sigil is followed by a character of an identifier, a
reference begins, unless the place lies in the argument list of another one; each goes as far as it
can, and there is only one way to read a text like this.
-/

namespace TemplateSuite

/-- A reference, and the position of its sigil. -/
structure PlacedReference where
  start : Nat
  reference : Reference
  deriving DecidableEq, Repr

/-- The position after the last character of the reference. -/
def PlacedReference.stop (p : PlacedReference) : Nat :=
  p.start + p.reference.token.length

/-- The text begins with a sigil and a character of an identifier. -/
def StartsReference (text : Text) : Prop :=
  ∃ c rest, text = sigil :: c :: rest ∧ isIdentifierChar c

namespace Reference

variable {r r' : Reference} {list? list?' : Option Text} {text after : Text} {c : Char}

/-- The argument list directly after a name, which ends at the next closing parenthesis; without one
there is no list. -/
inductive ListFollows : Option Text → Text → Prop
  | list {list rest : Text} : ')' ∉ list → ListFollows (some list) ('(' :: (list ++ ')' :: rest))
  | bare {after : Text} : (∀ rest, after = '(' :: rest → ')' ∉ rest) → ListFollows none after

/-- The text begins with the reference, the name of which goes as far as an identifier can. -/
def Begins (r : Reference) (text : Text) : Prop :=
  IsMacroName r.name ∧ ∃ after, text = r.name ++ after ∧
    (∀ c ∈ after.head?, isIdentifierChar c = false) ∧ ListFollows r.list after

theorem splitAt?_eq_none_iff : Text.splitAt? c text = none ↔ c ∉ text := by
  induction text with
  | nil => simp [Text.splitAt?]
  | cons d rest ih =>
      rw [Text.splitAt?]
      split
      · rename_i hd
        simp [hd]
      · rename_i hd
        rw [Option.map_eq_none_iff, ih, List.mem_cons, not_or, and_iff_right (Ne.symm hd)]

theorem listFollows_iff : ListFollows list? after ↔ (listAtStart? after).map Prod.fst = list? := by
  constructor
  · rintro (hlist | hbare)
    · rw [listAtStart?, Text.splitAt?_append hlist]
      rfl
    · unfold listAtStart?
      split
      · rename_i rest
        rw [splitAt?_eq_none_iff.mpr (hbare rest rfl)]
        rfl
      · rfl
  · rintro rfl
    cases hfound : listAtStart? after with
    | some found =>
        obtain ⟨rfl, hlist⟩ := Piece.eq_append_of_listAtStart? hfound
        exact .list hlist
    | none =>
        refine .bare fun rest hrest => ?_
        rw [hrest, listAtStart?] at hfound
        exact splitAt?_eq_none_iff.mp hfound

theorem Begins.unique (h : r.Begins text) (h' : r'.Begins text) : r = r' := by
  obtain ⟨⟨identifier, hname, hidentifier⟩, after, rfl, hafter, hlist⟩ := h
  obtain ⟨⟨identifier', hname', hidentifier'⟩, after', htext, hafter', hlist'⟩ := h'
  rw [hname, hname', List.cons_append, List.cons_append] at htext
  obtain ⟨rfl, rfl⟩ := Text.append_inj_of_run (identifierChar_of_isIdentifier hidentifier).2
    (identifierChar_of_isIdentifier hidentifier').2 hafter hafter' (List.cons.inj htext).2
  have hlists : r.list = r'.list :=
    (listFollows_iff.mp hlist).symm.trans (listFollows_iff.mp hlist')
  cases r
  cases r'
  rw [mk.injEq]
  exact ⟨hname.trans hname'.symm, hlists⟩

theorem Begins.length_pos (h : r.Begins text) : 0 < r.token.length := by
  obtain ⟨⟨identifier, hname, -⟩, -⟩ := h
  unfold token
  split <;> simp [hname]

theorem Begins.startsReference (h : r.Begins text) : StartsReference text := by
  obtain ⟨⟨identifier, hname, hidentifier⟩, after, rfl, -⟩ := h
  obtain ⟨hne, hchars⟩ := identifierChar_of_isIdentifier hidentifier
  obtain ⟨c, rest, rfl⟩ := List.exists_cons_of_ne_nil hne
  exact ⟨c, rest ++ after, by rw [hname]; rfl, hchars c List.mem_cons_self⟩

theorem exists_begins_of_startsReference (h : StartsReference text) :
    ∃ r : Reference, r.Begins text := by
  obtain ⟨c, rest, rfl, hc⟩ := h
  have hne : (c :: rest).takeWhile isIdentifierChar ≠ [] := by simp [hc]
  refine ⟨⟨sigil :: (c :: rest).takeWhile isIdentifierChar, _⟩, ⟨_, rfl, isIdentifier_takeWhile hne⟩,
    (c :: rest).dropWhile isIdentifierChar, ?_, Text.not_of_head?_dropWhile _,
    listFollows_iff.mpr rfl⟩
  exact congrArg (sigil :: ·) List.takeWhile_append_dropWhile.symm

theorem all_of_begins (h : r.Begins text) : all text = r :: all (text.drop r.token.length) := by
  obtain ⟨name, list?⟩ := r
  obtain ⟨⟨identifier, rfl, hidentifier⟩, after, rfl, hafter, hlist⟩ := h
  obtain ⟨hne, hchars⟩ := identifierChar_of_isIdentifier hidentifier
  have htake := Text.takeWhile_run hchars hafter
  have hdrop := Text.dropWhile_run hchars hafter
  rw [listFollows_iff] at hlist
  dsimp only at hlist
  generalize hfound : all (List.drop _ _) = found
  rw [List.cons_append]
  unfold all
  rw [if_pos rfl]
  split
  · rename_i hnil
    exact absurd (htake.symm.trans hnil) hne
  · split
    · rename_i hnone
      rw [hdrop] at hnone
      rw [hnone] at hlist
      subst hlist hfound
      rw [htake, hdrop, Option.map_none, token, List.drop_left]
    · rename_i list rest hsome
      rw [hdrop] at hsome
      rw [hsome] at hlist
      subst hlist hfound
      obtain ⟨rfl, -⟩ := Piece.eq_append_of_listAtStart? hsome
      have htoken : sigil :: identifier ++ '(' :: (list ++ ')' :: rest) =
          (⟨sigil :: identifier, some list⟩ : Reference).token ++ rest := by simp [token]
      rw [htake, htoken, Option.map_some, List.drop_left]

theorem all_of_not_startsReference (h : ¬ StartsReference text) : all text = all (text.drop 1) := by
  cases text with
  | nil => rfl
  | cons c rest =>
      generalize hfound : all (List.drop _ _) = found
      unfold all
      split
      · rename_i hc
        split
        · exact hfound
        · rename_i hne
          cases rest with
          | nil => exact absurd rfl hne
          | cons d others =>
              have hd : isIdentifierChar d = false := by
                rw [← Bool.not_eq_true]
                exact fun hd => h ⟨d, others, by rw [hc], hd⟩
              exact absurd (List.takeWhile_cons_of_neg (by simp [hd])) hne
      · exact hfound

end Reference

/-- The places are those of the references from the position on: at each of them the text goes on with
the reference, they do not overlap, and no other place is left at which a reference starts. -/
structure IsReading (text : Text) (position : Nat) (places : List PlacedReference) : Prop where
  begins : ∀ p ∈ places, p.reference.Begins (text.drop p.start)
  position_le : ∀ p ∈ places, position ≤ p.start
  apart : places.Pairwise fun p q => p.stop ≤ q.start
  covers : ∀ i, position ≤ i → StartsReference (text.drop i) →
    ∃ p ∈ places, p.start ≤ i ∧ i < p.stop

namespace IsReading

variable {text : Text} {position : Nat} {places places' : List PlacedReference} {r : Reference}

theorem nil (h : text.length ≤ position) : IsReading text position [] where
  begins := nofun
  position_le := nofun
  apart := .nil
  covers := by
    intro i hi hstarts
    obtain ⟨c, rest, htext, -⟩ := hstarts
    rw [List.drop_eq_nil_of_le (h.trans hi)] at htext
    cases htext

theorem skip (h : ¬ StartsReference (text.drop position))
    (hplaces : IsReading text (position + 1) places) : IsReading text position places where
  begins := hplaces.begins
  position_le := fun p hp => (Nat.le_succ position).trans (hplaces.position_le p hp)
  apart := hplaces.apart
  covers := by
    intro i hi hstarts
    have hne : position ≠ i := fun heq => h (heq ▸ hstarts)
    exact hplaces.covers i (by omega) hstarts

theorem cons (h : r.Begins (text.drop position))
    (hplaces : IsReading text (position + r.token.length) places) :
    IsReading text position (⟨position, r⟩ :: places) where
  begins := List.forall_mem_cons.mpr ⟨h, hplaces.begins⟩
  position_le := List.forall_mem_cons.mpr
    ⟨Nat.le_refl _, fun p hp => (Nat.le_add_right _ _).trans (hplaces.position_le p hp)⟩
  apart := .cons hplaces.position_le hplaces.apart
  covers := by
    intro i hi hstarts
    by_cases hin : i < position + r.token.length
    · exact ⟨_, List.mem_cons_self, hi, hin⟩
    · obtain ⟨p, hp, hcovers⟩ := hplaces.covers i (by omega) hstarts
      exact ⟨p, List.mem_cons_of_mem _ hp, hcovers⟩

/-- The search finds the references of a reading, in their order. -/
theorem exists_reading (text : Text) (position : Nat) :
    ∃ places, IsReading text position places ∧
      places.map (·.reference) = Reference.all (text.drop position) := by
  induction hlength : text.length - position using Nat.strongRecOn generalizing position with
  | _ n ih =>
      by_cases hend : text.length ≤ position
      · refine ⟨[], nil hend, ?_⟩
        rw [List.drop_eq_nil_of_le hend, Reference.all]
        rfl
      · by_cases hstarts : StartsReference (text.drop position)
        · obtain ⟨r, hr⟩ := Reference.exists_begins_of_startsReference hstarts
          have hpos := hr.length_pos
          obtain ⟨places, hplaces, hreferences⟩ := ih _ (by omega) (position + r.token.length) rfl
          refine ⟨⟨position, r⟩ :: places, hplaces.cons hr, ?_⟩
          rw [Reference.all_of_begins hr, List.drop_drop, List.map_cons, hreferences]
        · obtain ⟨places, hplaces, hreferences⟩ := ih _ (by omega) (position + 1) rfl
          refine ⟨places, hplaces.skip hstarts, ?_⟩
          rw [Reference.all_of_not_startsReference hstarts, List.drop_drop, hreferences]

theorem tail {p : PlacedReference} (h : IsReading text position (p :: places)) :
    IsReading text p.stop places where
  begins := (List.forall_mem_cons.mp h.begins).2
  position_le := (List.pairwise_cons.mp h.apart).1
  apart := (List.pairwise_cons.mp h.apart).2
  covers := by
    intro i hi hstarts
    have hfirst := (List.forall_mem_cons.mp h.position_le).1
    obtain ⟨q, hq, hcovers⟩ := h.covers i (by unfold PlacedReference.stop at hi; omega) hstarts
    rcases List.mem_cons.mp hq with rfl | hrest
    · omega
    · exact ⟨q, hrest, hcovers⟩

theorem start_le {p : PlacedReference} (h : IsReading text position (p :: places)) {i : Nat}
    (hi : position ≤ i) (hstarts : StartsReference (text.drop i)) : p.start ≤ i := by
  obtain ⟨q, hq, hstart, -⟩ := h.covers i hi hstarts
  rcases List.mem_cons.mp hq with rfl | hrest
  · exact hstart
  · have hapart : p.stop ≤ q.start := (List.pairwise_cons.mp h.apart).1 q hrest
    unfold PlacedReference.stop at hapart
    omega

theorem head_startsReference {p : PlacedReference} (h : IsReading text position (p :: places)) :
    position ≤ p.start ∧ StartsReference (text.drop p.start) :=
  ⟨h.position_le p List.mem_cons_self, (h.begins p List.mem_cons_self).startsReference⟩

theorem unique (h : IsReading text position places) (h' : IsReading text position places') :
    places = places' := by
  induction places generalizing position places' with
  | nil =>
      cases places' with
      | nil => rfl
      | cons q rest' =>
          obtain ⟨hle, hstarts⟩ := h'.head_startsReference
          obtain ⟨p, hp, -⟩ := h.covers q.start hle hstarts
          cases hp
  | cons p rest ih =>
      obtain ⟨hle, hstarts⟩ := h.head_startsReference
      cases places' with
      | nil =>
          obtain ⟨q, hq, -⟩ := h'.covers p.start hle hstarts
          cases hq
      | cons q rest' =>
          obtain ⟨hle', hstarts'⟩ := h'.head_startsReference
          have hstart : p.start = q.start :=
            Nat.le_antisymm (h.start_le hle' hstarts') (h'.start_le hle hstarts)
          have hbegins := h'.begins q List.mem_cons_self
          rw [← hstart] at hbegins
          have hreference := (h.begins p List.mem_cons_self).unique hbegins
          obtain rfl : p = q := by
            cases p
            cases q
            rw [PlacedReference.mk.injEq]
            exact ⟨hstart, hreference⟩
          rw [ih h.tail h'.tail]

end IsReading

end TemplateSuite
