import Mathlib.Data.List.TakeWhile
import TemplateSuite.Proofs.Text.Blank

namespace TemplateSuite.Text

variable {p : Char → Bool} {run after front text : Text} {c : Char}

theorem takeWhile_run (hrun : ∀ d ∈ run, p d) (hafter : ∀ d ∈ after.head?, p d = false) :
    (run ++ after).takeWhile p = run := by
  rw [List.takeWhile_append_of_pos hrun]
  cases after with
  | nil => simp
  | cons d rest => simp [hafter d rfl]

theorem dropWhile_run (hrun : ∀ d ∈ run, p d) (hafter : ∀ d ∈ after.head?, p d = false) :
    (run ++ after).dropWhile p = after := by
  rw [List.dropWhile_append_of_pos hrun]
  cases after with
  | nil => rfl
  | cons d rest => simp [hafter d rfl]

theorem after?_eq_some_iff {opening rest : Text} :
    after? opening text = some rest ↔ text = opening ++ rest := by
  rw [after?, Option.ite_none_right_eq_some, List.isPrefixOf_iff_prefix, Option.some.injEq,
    List.prefix_iff_eq_append, and_comm]
  constructor
  · rintro ⟨rfl, htext⟩
    exact htext.symm
  · rintro rfl
    rw [List.drop_left]
    exact ⟨rfl, rfl⟩

theorem before?_eq_some_iff {ending kept : Text} :
    before? ending text = some kept ↔ text = kept ++ ending := by
  rw [before?, Option.ite_none_right_eq_some, List.isSuffixOf_iff_suffix, Option.some.injEq]
  constructor
  · rintro ⟨⟨front, rfl⟩, hkept⟩
    rw [← hkept, List.length_append, Nat.add_sub_cancel, List.take_left]
  · rintro rfl
    rw [List.length_append, Nat.add_sub_cancel, List.take_left]
    exact ⟨List.suffix_append _ _, rfl⟩

theorem not_of_head?_dropWhile (text : Text) : ∀ d ∈ (text.dropWhile p).head?, p d = false := by
  intro d hd
  have hnot := List.head?_dropWhile_not p text
  rwa [Option.mem_def.mp hd] at hnot

theorem append_inj_of_run {run' after' : Text} (hrun : ∀ d ∈ run, p d) (hrun' : ∀ d ∈ run', p d)
    (hafter : ∀ d ∈ after.head?, p d = false) (hafter' : ∀ d ∈ after'.head?, p d = false)
    (h : run ++ after = run' ++ after') : run = run' ∧ after = after' := by
  have htake := congrArg (List.takeWhile p) h
  have hdrop := congrArg (List.dropWhile p) h
  rw [takeWhile_run hrun hafter, takeWhile_run hrun' hafter'] at htake
  rw [dropWhile_run hrun hafter, dropWhile_run hrun' hafter'] at hdrop
  exact ⟨htake, hdrop⟩

theorem splitAt?_append (h : c ∉ front) (back : Text) :
    splitAt? c (front ++ c :: back) = some (front, back) := by
  induction front with
  | nil => simp [splitAt?]
  | cons d rest ih =>
      have hne : d ≠ c := fun heq => h (heq ▸ List.mem_cons_self)
      have hrest : c ∉ rest := fun hmem => h (List.mem_cons_of_mem d hmem)
      rw [List.cons_append, splitAt?, if_neg hne, ih hrest]
      rfl

theorem eq_append_of_splitAt? {back : Text} (h : splitAt? c text = some (front, back)) :
    text = front ++ c :: back ∧ c ∉ front := by
  induction text generalizing front with
  | nil => cases h
  | cons d rest ih =>
      unfold splitAt? at h
      split at h
      · rename_i hd
        cases h
        exact ⟨by rw [hd]; rfl, List.not_mem_nil⟩
      · rename_i hd
        obtain ⟨⟨before, after⟩, hfound, hpair⟩ := Option.map_eq_some_iff.mp h
        cases hpair
        obtain ⟨hrest, hbefore⟩ := ih hfound
        exact ⟨congrArg (d :: ·) hrest, by simp [hbefore, Ne.symm hd]⟩

theorem trimLeft_of_head? (h : ∀ d ∈ text.head?, isBlank d = false) : trimLeft text = text := by
  cases text with
  | nil => rfl
  | cons d rest => simp [trimLeft, h d rfl]

theorem trim_of_ends (hfirst : ∀ d ∈ text.head?, isBlank d = false)
    (hlast : ∀ d ∈ text.getLast?, isBlank d = false) : trim text = text := by
  rw [trim, trimLeft_of_head? hfirst]
  rcases List.eq_nil_or_concat text with rfl | ⟨kept, d, rfl⟩
  · rfl
  · rw [List.concat_eq_append] at hlast ⊢
    exact trimRight_append_of_not_blank kept (hlast d (by simp))

/-- The texts with a comma and a space between neighbours. -/
def commaSeparated (texts : List Text) : Text :=
  List.intercalate (", " : Text) texts

theorem commaSeparated_cons_cons (first next : Text) (rest : List Text) :
    commaSeparated (first :: next :: rest) =
      first ++ ',' :: ' ' :: commaSeparated (next :: rest) := by
  rw [commaSeparated, List.intercalate_cons_cons]
  simp [commaSeparated]

theorem not_mem_commaSeparated {texts : List Text} (hcomma : c ≠ ',') (hspace : c ≠ ' ')
    (h : ∀ text ∈ texts, c ∉ text) : c ∉ commaSeparated texts := by
  induction texts with
  | nil => simp [commaSeparated]
  | cons first rest ih =>
      obtain ⟨hfirst, hrest⟩ := List.forall_mem_cons.mp h
      cases rest with
      | nil => simpa [commaSeparated] using hfirst
      | cons next others =>
          rw [commaSeparated_cons_cons]
          simp [hcomma, hspace, hfirst, ih hrest]

theorem splitOn_commaSeparated {first : Text} {rest : List Text}
    (h : ∀ text ∈ first :: rest, ',' ∉ text) :
    (commaSeparated (first :: rest)).splitOn ',' = first :: rest.map (' ' :: ·) := by
  induction rest generalizing first with
  | nil => simp [commaSeparated, List.splitOn_eq_singleton (h first List.mem_cons_self)]
  | cons next others ih =>
      have hrest : ∀ text ∈ next :: others, ',' ∉ text := fun text hmem =>
        h text (List.mem_cons_of_mem first hmem)
      rw [commaSeparated_cons_cons, List.splitOn_append_cons_self,
        List.splitOn_eq_singleton (h first List.mem_cons_self), List.splitOn_cons_eq_if_modifyHead,
        ih hrest]
      rfl

end TemplateSuite.Text
