import Mathlib.Data.List.TakeWhile
import TemplateSuite.Text.Blank

namespace TemplateSuite.Text

theorem trimRight_eq_nil_of_blank {blanks : Text} (h : ∀ c ∈ blanks, isBlank c) :
    trimRight blanks = [] := by
  induction blanks with
  | nil => rfl
  | cons c rest ih =>
      have hc : isBlank c := h c (by simp)
      have hrest : trimRight rest = [] := ih fun d hd => h d (by simp [hd])
      simp [trimRight, hrest, hc]

theorem trimRight_append_blank (text : Text) {blanks : Text} (h : ∀ c ∈ blanks, isBlank c) :
    trimRight (text ++ blanks) = trimRight text := by
  induction text with
  | nil => simpa [trimRight] using trimRight_eq_nil_of_blank h
  | cons c rest ih => simp only [List.cons_append, trimRight, ih]

theorem trim_append_blank (text : Text) {blanks : Text} (h : ∀ c ∈ blanks, isBlank c) :
    trim (text ++ blanks) = trim text := by
  by_cases hblank : ∀ c ∈ text, isBlank c
  · have hleft : trimLeft text = [] := List.dropWhile_eq_nil_iff.mpr hblank
    have hboth : trimLeft (text ++ blanks) = [] :=
      List.dropWhile_eq_nil_iff.mpr fun c hc =>
        (List.mem_append.mp hc).elim (hblank c) (h c)
    rw [trim, trim, hleft, hboth]
  · have hleft : trimLeft (text ++ blanks) = trimLeft text ++ blanks := by
      unfold trimLeft
      rw [List.dropWhile_append]
      rw [if_neg (by rwa [List.isEmpty_iff, List.dropWhile_eq_nil_iff])]
    rw [trim, trim, hleft, trimRight_append_blank _ h]

theorem eq_trimRight_append (text : Text) :
    ∃ blanks : Text, (∀ c ∈ blanks, isBlank c) ∧ text = trimRight text ++ blanks := by
  induction text with
  | nil => exact ⟨[], by simp, rfl⟩
  | cons c rest ih =>
      obtain ⟨blanks, hblanks, hrest⟩ := ih
      unfold trimRight
      split
      · rename_i hnil
        rw [hnil, List.nil_append] at hrest
        split
        · rename_i hc
          refine ⟨c :: rest, ?_, by simp⟩
          intro d hd
          rcases List.mem_cons.mp hd with rfl | hmem
          · exact hc
          · exact hblanks d (hrest ▸ hmem)
        · exact ⟨blanks, hblanks, by rw [← hrest]; rfl⟩
      · exact ⟨blanks, hblanks, congrArg (List.cons c) hrest⟩

theorem trimRight_append_of_not_blank (text : Text) {c : Char} (h : isBlank c = false) :
    trimRight (text ++ [c]) = text ++ [c] := by
  induction text with
  | nil => simp [trimRight, h]
  | cons d rest ih =>
      simp only [List.cons_append, trimRight, ih]
      split
      · rename_i hnil
        simp at hnil
      · rfl

theorem head?_trimRight_eq {text : Text} {c : Char} (h : (trimRight text).head? = some c) :
    text.head? = some c := by
  cases text with
  | nil => exact h
  | cons d rest =>
      unfold trimRight at h
      split at h
      · split at h
        · cases h
        · exact h
      · exact h

theorem isBlank_of_head?_trim {text : Text} {c : Char} (h : (trim text).head? = some c) :
    isBlank c = false := by
  have hleft : (text.dropWhile isBlank).head? = some c := head?_trimRight_eq h
  have hnot := List.head?_dropWhile_not isBlank text
  rw [hleft] at hnot
  simpa using hnot

theorem trim_trim (text : Text) : trim (trim text) = trim text := by
  have hleft : trimLeft (trim text) = trim text := by
    cases htrim : trim text with
    | nil => rfl
    | cons c rest =>
        have hc : isBlank c = false := isBlank_of_head?_trim (by rw [htrim]; rfl)
        exact List.dropWhile_cons_of_neg (by simp [hc])
  obtain ⟨blanks, hblanks, htext⟩ := eq_trimRight_append (trimLeft text)
  have hright := trimRight_append_blank (trimRight (trimLeft text)) hblanks
  rw [← htext] at hright
  rw [trim, hleft]
  exact hright.symm

theorem allBlank_append_blank (text : Text) {blanks : Text} (h : ∀ c ∈ blanks, isBlank c) :
    allBlank (text ++ blanks) = allBlank text := by
  have : blanks.all isBlank = true := List.all_eq_true.mpr h
  simp [allBlank, this]

theorem takeWhile_append_of_not {p : Char → Bool} (text : Text) {after : Text}
    (h : ∀ c ∈ after, p c = false) : (text ++ after).takeWhile p = text.takeWhile p := by
  have hafter : after.takeWhile p = [] := by
    cases after with
    | nil => rfl
    | cons c rest => simp [h c (by simp)]
  rw [List.takeWhile_append, hafter]
  split
  · rename_i hlength
    rw [List.append_nil]
    exact ((List.takeWhile_prefix p).eq_of_length hlength).symm
  · rfl

theorem dropWhile_append_of_not {p : Char → Bool} (text : Text) {after : Text}
    (h : ∀ c ∈ after, p c = false) :
    (text ++ after).dropWhile p = text.dropWhile p ++ after := by
  have hafter : after.dropWhile p = after := by
    cases after with
    | nil => rfl
    | cons c rest => simp [h c (by simp)]
  rw [List.dropWhile_append, hafter]
  split
  · rename_i hempty
    rw [List.isEmpty_iff.mp hempty, List.nil_append]
  · rfl

end TemplateSuite.Text
