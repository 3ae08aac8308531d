import TemplateSuite.Proofs.Macro.Places
import TemplateSuite.Proofs.Macro.Replacement

namespace TemplateSuite

/-- The token stands at the position; if it ends like a name, the name does not go on. -/
def IsReplacedAt (token text : Text) (i : Nat) : Prop :=
  token <+: text.drop i ∧ ((∃ c ∈ token.getLast?, isIdentifierChar c) →
    ∀ c ∈ (text.drop (i + token.length)).head?, isIdentifierChar c = false)

/-- The starts are the places from the position on at which the token is replaced, one after the
other. -/
structure AreStarts (token text : Text) (position : Nat) (starts : List Nat) : Prop where
  mem_iff : ∀ i, i ∈ starts ↔ position ≤ i ∧ IsReplacedAt token text i
  apart : starts.Pairwise fun i j => i + token.length ≤ j

/-- The text from a position on, with the value in the place of that many characters at each of the
starts. -/
def replaceAt (length : Nat) (value text : Text) : (position : Nat) → (starts : List Nat) → Text
  | position, [] => text.drop position
  | position, start :: rest =>
    (text.take start).drop position ++ value ++ replaceAt length value text (start + length) rest

variable {token value text rest : Text} {c : Char} {position : Nat} {starts : List Nat} {r : Reference}

theorem drop_succ_of_drop (h : text.drop position = c :: rest) : text.drop (position + 1) = rest := by
  rw [← List.drop_drop, h]
  rfl

theorem isWithinName_eq_false_iff {after : Text} :
    isWithinName token after = false ↔ ((∃ c ∈ token.getLast?, isIdentifierChar c) →
      ∀ c ∈ after.head?, isIdentifierChar c = false) := by
  rw [isWithinName, Bool.and_eq_false_iff, ← Bool.not_eq_true, ← Bool.not_eq_true,
    Option.any_eq_true, Option.any_eq_true, ← imp_iff_not_or]
  simp

theorem replaceAt_cons {length : Nat} (hdrop : text.drop position = c :: rest)
    (hstarts : ∀ i ∈ starts, position < i) :
    replaceAt length value text position starts =
      c :: replaceAt length value text (position + 1) starts := by
  have htail := drop_succ_of_drop hdrop
  cases starts with
  | nil => rw [replaceAt, replaceAt, hdrop, htail]
  | cons start others =>
      have hstart := hstarts start List.mem_cons_self
      have htake : (text.take start).drop position = c :: (text.take start).drop (position + 1) := by
        obtain ⟨k, rfl⟩ : ∃ k, start = position + (k + 1) := ⟨start - position - 1, by omega⟩
        have hbefore : position + (k + 1) - (position + 1) = k := by omega
        rw [List.drop_take, List.drop_take, hdrop, htail, Nat.add_sub_cancel_left, hbefore,
          List.take_succ_cons]
      rw [replaceAt, replaceAt, htake]
      rfl

theorem IsReplacedAt.replaceToken (h : IsReplacedAt token text position)
    (htoken : token.head? = some sigil) :
    TemplateSuite.replaceToken token value (text.drop position) =
      value ++ TemplateSuite.replaceToken token value (text.drop (position + token.length)) := by
  obtain ⟨⟨after, hafter⟩, hname⟩ := h
  have hdrop : text.drop (position + token.length) = after := by
    rw [← List.drop_drop, ← hafter, List.drop_left]
  rw [hdrop] at hname ⊢
  rw [← hafter, replaceToken_token_append htoken (isWithinName_eq_false_iff.mpr hname)]

theorem replaceToken_of_not_isReplacedAt (h : ¬ IsReplacedAt token text position)
    (hpos : 0 < token.length) (hdrop : text.drop position = c :: rest) :
    replaceToken token value (text.drop position) =
      c :: replaceToken token value (text.drop (position + 1)) := by
  rw [hdrop, drop_succ_of_drop hdrop]
  refine replaceToken_cons fun hstart => ?_
  have hafter : rest.drop (token.length - 1) = text.drop (position + token.length) := by
    rw [← drop_succ_of_drop hdrop, List.drop_drop]
    congr 1
    omega
  rw [← Bool.not_eq_false, hafter, isWithinName_eq_false_iff]
  exact fun hname => h ⟨hdrop ▸ hstart, hname⟩

namespace AreStarts

theorem nil (hpos : 0 < token.length) (h : text.length ≤ position) :
    AreStarts token text position [] where
  mem_iff := by
    refine fun i => iff_of_false nofun ?_
    rintro ⟨hle, hstart, -⟩
    rw [List.drop_eq_nil_of_le (h.trans hle), List.prefix_nil] at hstart
    simp [hstart] at hpos
  apart := .nil

theorem skip (h : ¬ IsReplacedAt token text position)
    (hstarts : AreStarts token text (position + 1) starts) : AreStarts token text position starts where
  mem_iff := by
    intro i
    rw [hstarts.mem_iff]
    refine and_congr_left fun hreplaced => ⟨fun hle => by omega, fun hle => ?_⟩
    exact Nat.lt_of_le_of_ne hle fun heq => h (heq ▸ hreplaced)
  apart := hstarts.apart

theorem cons (h : IsReplacedAt token text position)
    (hapart : ∀ i, position < i → IsReplacedAt token text i → position + token.length ≤ i)
    (hstarts : AreStarts token text (position + token.length) starts) :
    AreStarts token text position (position :: starts) where
  mem_iff := by
    intro i
    rw [List.mem_cons, hstarts.mem_iff]
    constructor
    · rintro (rfl | ⟨hle, hreplaced⟩)
      · exact ⟨Nat.le_refl _, h⟩
      · exact ⟨by omega, hreplaced⟩
    · rintro ⟨hle, hreplaced⟩
      rcases Nat.eq_or_lt_of_le hle with heq | hlt
      · exact .inl heq.symm
      · exact .inr ⟨hapart i hlt hreplaced, hreplaced⟩
  apart := .cons (fun i hi => ((hstarts.mem_iff i).mp hi).1) hstarts.apart

end AreStarts

namespace Reference

/-- The token of a reference does not begin again before its end: it has no second sigil, or its only
closing parenthesis is its last character. -/
theorem IsRead.not_drop_prefix (h : r.IsRead) {k : Nat} (hpos : 0 < k) (hk : k < r.token.length) :
    ¬ r.token.drop k <+: r.token := by
  obtain ⟨name, list?⟩ := r
  obtain ⟨⟨identifier, hname, hidentifier⟩, hlist⟩ := id h
  dsimp only at hname hlist
  cases list? with
  | none =>
      -- the token begins with the only sigil in it
      have htoken : (⟨name, none⟩ : Reference).token = sigil :: identifier := hname
      rw [htoken] at hk ⊢
      obtain ⟨m, rfl⟩ : ∃ m, k = m + 1 := ⟨k - 1, by omega⟩
      rw [List.drop_succ_cons]
      cases hdrop : identifier.drop m with
      | nil => simp [List.drop_eq_nil_iff] at hdrop hk; omega
      | cons d rest =>
          rintro ⟨after, hafter⟩
          have hd : d ∈ identifier := List.mem_of_mem_drop (hdrop ▸ List.mem_cons_self)
          have hchar := (identifierChar_of_isIdentifier hidentifier).2 d hd
          rw [(List.cons.inj hafter).1] at hchar
          cases hchar
  | some list =>
      -- the token ends with the only closing parenthesis in it
      have htoken : (⟨name, some list⟩ : Reference).token = (name ++ '(' :: list) ++ [')'] := by
        simp [token]
      have hname' : ')' ∉ name := h.isMacroName.not_mem (by decide) rfl
      have hfront : ')' ∉ name ++ '(' :: list := by simp [hname', hlist list rfl]
      rw [htoken] at hk ⊢
      rw [List.length_append, List.length_singleton] at hk
      rw [List.drop_append_of_le_length (by omega), List.prefix_concat_iff]
      rintro (heq | hstart)
      · have hlength := congrArg List.length heq
        simp only [List.length_append, List.length_drop] at hlength hk
        omega
      · exact hfront (hstart.subset (by simp))

theorem IsRead.not_overlapping (h : r.IsRead) {i j : Nat} (hij : i < j)
    (hi : r.token <+: text.drop i) (hj : r.token <+: text.drop j) : i + r.token.length ≤ j := by
  by_contra hover
  refine h.not_drop_prefix (k := j - i) (by omega) (by omega) ?_
  have hrest : r.token.drop (j - i) <+: text.drop j := by
    obtain ⟨after, hafter⟩ := hi
    refine ⟨after, ?_⟩
    rw [← List.drop_append_of_le_length (by omega), hafter, List.drop_drop,
      Nat.add_sub_cancel' hij.le]
  exact List.prefix_of_prefix_length_le hrest hj (by simp)

theorem IsRead.exists_starts (h : r.IsRead) (text : Text) (position : Nat) :
    ∃ starts, AreStarts r.token text position starts ∧
      ∀ value, replaceToken r.token value (text.drop position) =
        replaceAt r.token.length value text position starts := by
  have htoken := h.head?_token
  have hpos : 0 < r.token.length := List.length_pos_of_mem (List.mem_of_mem_head? htoken)
  induction hlength : text.length - position using Nat.strongRecOn generalizing position with
  | _ n ih =>
      cases hdrop : text.drop position with
      | nil =>
          refine ⟨[], .nil hpos (List.drop_eq_nil_iff.mp hdrop), fun value => ?_⟩
          rw [replaceAt, hdrop, replaceToken]
      | cons c rest =>
          have hroom : position < text.length := by
            by_contra hend
            rw [List.drop_eq_nil_of_le (by omega)] at hdrop
            cases hdrop
          rw [← hdrop]
          by_cases hhere : IsReplacedAt r.token text position
          · obtain ⟨starts, hstarts, hvalue⟩ := ih _ (by omega) (position + r.token.length) rfl
            refine ⟨position :: starts, hstarts.cons hhere fun i hlt hreplaced => ?_, fun value => ?_⟩
            · exact h.not_overlapping hlt hhere.1 hreplaced.1
            · rw [hhere.replaceToken htoken, hvalue, replaceAt,
                List.drop_eq_nil_of_le (List.length_take_le _ _), List.nil_append]
          · obtain ⟨starts, hstarts, hvalue⟩ := ih _ (by omega) (position + 1) rfl
            refine ⟨starts, hstarts.skip hhere, fun value => ?_⟩
            rw [replaceToken_of_not_isReplacedAt hhere hpos hdrop, hvalue,
              replaceAt_cons hdrop fun i hi => ((hstarts.mem_iff i).mp hi).1]

/-- A text is read in one way: the references found do not overlap, each goes as far as it can, and no
other place is left at which one starts. The token of each is replaced in any text at exactly the
places where it stands and does not begin a longer name, and these do not overlap. -/
theorem found_and_replaced_exactly (body : Text) :
    (∃ places, IsReading body 0 places ∧ places.map (·.reference) = all body ∧
      ∀ other, IsReading body 0 other → other = places) ∧
    ∀ r ∈ all body, ∀ text : Text,
      (∀ i j, i < j → r.token <+: text.drop i → r.token <+: text.drop j →
        i + r.token.length ≤ j) ∧
      ∃ starts, AreStarts r.token text 0 starts ∧
        ∀ value, replaceToken r.token value text = replaceAt r.token.length value text 0 starts := by
  obtain ⟨places, hplaces, hreferences⟩ := IsReading.exists_reading body 0
  refine ⟨⟨places, hplaces, hreferences, fun other hother => hother.unique hplaces⟩,
    fun r hr text => ?_⟩
  have hread : r.IsRead := Piece.isRead_of_mem (Piece.mem_all_iff.mp hr)
  exact ⟨fun i j hij => hread.not_overlapping hij, hread.exists_starts text 0⟩

theorem reference_with_a_sigil_in_its_list :
    (⟨"$f", some "$f(1"⟩ : Reference) ∈ all "$f($f(1) $f" ∧
      ∃ starts, AreStarts "$f($f(1)" "$f($f($f(1)$f($f(1)" 0 starts ∧
        ∀ value, replaceToken "$f($f(1)" value "$f($f($f(1)$f($f(1)" =
          replaceAt 8 value "$f($f($f(1)$f($f(1)" 0 starts := by
  have hmem : (⟨"$f", some "$f(1"⟩ : Reference) ∈ all "$f($f(1) $f" := by
    decide +kernel
  exact ⟨hmem, ((found_and_replaced_exactly _).2 _ hmem _).2⟩

end Reference

end TemplateSuite
