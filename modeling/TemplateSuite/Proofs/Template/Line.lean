import TemplateSuite.Proofs.Text.Lines
import TemplateSuite.Proofs.Text.Reading
import TemplateSuite.Template.Line

namespace TemplateSuite.Line

/-- A text that can be the tag of a section. -/
def IsTag (tag : Text) : Prop :=
  tag ≠ [] ∧ ∀ c ∈ tag, isTagChar c

theorem isTagChar_of_blank {c : Char} (h : Text.isBlank c) : isTagChar c = false := by
  simp [isTagChar, h]

theorem head?_append_blank_ne {c : Char} (hc : Text.isBlank c = false) {text blanks : Text}
    (htext : text.head? ≠ some c) (h : ∀ d ∈ blanks, Text.isBlank d) :
    (text ++ blanks).head? ≠ some c := by
  cases text with
  | cons d rest => simpa using htext
  | nil =>
      intro hhead
      have hblank := h c (List.mem_of_head? hhead)
      simp [hc] at hblank

theorem ofOpening_append_blank (tag after : Text) {blanks : Text}
    (h : ∀ c ∈ blanks, Text.isBlank c) :
    ofOpening tag (after ++ blanks) = ofOpening tag after := by
  simp only [ofOpening, Text.trim_append_blank after h]

theorem ofTagged_of_head?_ne {tag after : Text} (h : after.head? ≠ some '_') :
    ofTagged tag after = ofOpening tag after := by
  unfold ofTagged
  split
  · simp at h
  · rfl

theorem ofTagged_append_blank (tag after : Text) {blanks : Text}
    (h : ∀ c ∈ blanks, Text.isBlank c) :
    ofTagged tag (after ++ blanks) = ofTagged tag after := by
  by_cases hmark : after.head? = some '_'
  · obtain ⟨trailing, rfl⟩ := List.head?_eq_some_iff.mp hmark
    simp only [List.cons_append, ofTagged, Text.allBlank_append_blank trailing h]
  · rw [ofTagged_of_head?_ne (head?_append_blank_ne rfl hmark h), ofTagged_of_head?_ne hmark,
      ofOpening_append_blank tag after h]

theorem classify_of_head?_ne {line : Text} (h : line.head? ≠ some '@') :
    classify line = .text := by
  unfold classify
  split
  · simp at h
  · rfl

theorem classify_append_blank (line : Text) {blanks : Text}
    (h : ∀ c ∈ blanks, Text.isBlank c) : classify (line ++ blanks) = classify line := by
  have htag : ∀ c ∈ blanks, isTagChar c = false := fun c hc => isTagChar_of_blank (h c hc)
  by_cases hmark : line.head? = some '@'
  · obtain ⟨rest, rfl⟩ := List.head?_eq_some_iff.mp hmark
    simp only [List.cons_append, classify, Text.takeWhile_append_of_not rest htag,
      Text.dropWhile_append_of_not rest htag, ofTagged_append_blank _ _ h]
  · rw [classify_of_head?_ne (head?_append_blank_ne rfl hmark h), classify_of_head?_ne hmark]

theorem classify_dropReturn (line : Text) : classify (Text.dropReturn line) = classify line := by
  obtain ⟨blanks, hblanks, hline⟩ := Text.eq_dropReturn_append line
  conv => rhs; rw [hline]
  exact (classify_append_blank _ hblanks).symm

theorem classify_trimRight (line : Text) : classify (Text.trimRight line) = classify line := by
  obtain ⟨blanks, hblanks, hline⟩ := Text.eq_trimRight_append line
  conv => rhs; rw [hline]
  exact (classify_append_blank _ hblanks).symm

theorem exists_kinds_eq_append (pieces : List Text) :
    ∃ ending : List Text, (ending = [] ∨ ending = [[]]) ∧
      pieces.map classify = (Text.linesOfPieces pieces ++ ending).map classify := by
  induction pieces with
  | nil => exact ⟨[], .inl rfl, rfl⟩
  | cons piece rest ih =>
      cases rest with
      | nil =>
          by_cases hempty : piece = []
          · exact ⟨[[]], .inr rfl, by simp [Text.linesOfPieces, hempty]⟩
          · exact ⟨[], .inl rfl, by simp [Text.linesOfPieces, hempty]⟩
      | cons next others =>
          obtain ⟨ending, hending, hkinds⟩ := ih
          refine ⟨ending, hending, ?_⟩
          rw [List.map_cons, hkinds, Text.linesOfPieces, List.cons_append, List.map_cons,
            classify_dropReturn]

theorem classify_eq_text_or_ofTagged (line : Text) :
    classify line = .text ∨ ∃ tag after, IsTag tag ∧ classify line = ofTagged tag after := by
  unfold classify
  split
  · rename_i rest
    split
    · exact .inl rfl
    · rename_i hne
      exact .inr ⟨_, _, ⟨hne, fun c hc => List.mem_takeWhile_imp hc⟩, rfl⟩
  · exact .inl rfl

theorem ofTagged_cases (tag after : Text) :
    ofTagged tag after = .text ∨ ofTagged tag after = .closing tag ∨
      ∃ argument closed, ofTagged tag after = .opening tag argument closed := by
  unfold ofTagged ofOpening
  grind

theorem isTag_of_classify_opening {line tag argument : Text} {closed : Bool}
    (h : classify line = .opening tag argument closed) : IsTag tag := by
  rcases classify_eq_text_or_ofTagged line with htext | ⟨found, after, hfound, hline⟩
  · simp [htext] at h
  · rw [hline] at h
    rcases ofTagged_cases found after with hcase | hcase | ⟨_, _, hcase⟩ <;> rw [hcase] at h
    · simp at h
    · simp at h
    · obtain ⟨rfl, -, -⟩ := Line.opening.inj h
      exact hfound

theorem classify_cons_tag {tag after : Text} (htag : IsTag tag)
    (hafter : ∀ c ∈ after.head?, isTagChar c = false) :
    classify ('@' :: (tag ++ after)) = ofTagged tag after := by
  rw [classify, Text.takeWhile_run htag.2 hafter, Text.dropWhile_run htag.2 hafter]
  split
  · exact absurd rfl htag.1
  · rfl

theorem classify_closeMarker {tag : Text} (h : IsTag tag) :
    classify (closeMarker tag) = .closing tag :=
  classify_cons_tag h (by simp [isTagChar])

theorem newline_not_mem_closeMarker {tag : Text} (h : IsTag tag) : '\n' ∉ closeMarker tag := by
  have htag : '\n' ∉ tag := fun hmem => absurd (h.2 _ hmem) (by decide)
  simp [closeMarker, htag]

theorem exists_trim_eq_append_closeMarker (tag : Text) {argument : Text}
    (h : Text.trim argument = argument) :
    ∃ inner, Text.trim (' ' :: (argument ++ ' ' :: closeMarker tag)) = inner ++ closeMarker tag ∧
      Text.trim inner = argument := by
  have hright : ∀ text : Text, Text.trimRight (text ++ closeMarker tag) =
      text ++ closeMarker tag := by
    intro text
    rw [closeMarker, ← List.append_assoc]
    exact Text.trimRight_append_of_not_blank _ rfl
  cases argument with
  | nil => exact ⟨[], hright [], rfl⟩
  | cons c rest =>
      have hhead : (Text.trim (c :: rest)).head? = some c := by rw [h, List.head?_cons]
      have hc : Text.isBlank c = false := Text.isBlank_of_head?_trim hhead
      refine ⟨c :: rest ++ [' '], ?_, ?_⟩
      · have hleft : Text.trimLeft (' ' :: (c :: rest ++ ' ' :: closeMarker tag)) =
            c :: rest ++ [' '] ++ closeMarker tag := by
          rw [List.append_assoc, List.singleton_append, Text.trimLeft,
            List.dropWhile_cons_of_pos rfl, List.cons_append,
            List.dropWhile_cons_of_neg (by simp [hc])]
        rw [Text.trim, hleft, hright]
      · have hblank : ∀ d ∈ [' '], Text.isBlank d := List.all_eq_true.mp rfl
        rw [Text.trim_append_blank _ hblank, h]

theorem classify_tag_space {tag : Text} (htag : IsTag tag) (after : Text) :
    classify ('@' :: (tag ++ ' ' :: after)) = ofOpening tag (' ' :: after) := by
  rw [classify_cons_tag htag (by simp [isTagChar, Text.isBlank])]
  exact ofTagged_of_head?_ne (by simp)

theorem classify_opening {tag argument : Text} (htag : IsTag tag)
    (hargument : Text.trim argument = argument) (hmarker : ¬ closeMarker tag <:+ argument) :
    classify ('@' :: (tag ++ ' ' :: argument)) = .opening tag argument false := by
  have htrim : Text.trim (' ' :: argument) = argument := hargument
  have hbefore : Text.before? (closeMarker tag) argument = none :=
    if_neg (by rwa [List.isSuffixOf_iff_suffix])
  rw [classify_tag_space htag, ofOpening, htrim]
  simp only [hbefore]

theorem classify_selfClosing {tag argument : Text} (htag : IsTag tag)
    (hargument : Text.trim argument = argument) :
    classify ('@' :: (tag ++ ' ' :: (argument ++ ' ' :: closeMarker tag))) =
      .opening tag argument true := by
  obtain ⟨inner, htrim, hinner⟩ := exists_trim_eq_append_closeMarker tag hargument
  have hmarker : Text.before? (closeMarker tag) (inner ++ closeMarker tag) = some inner := by
    simp [Text.before?]
  rw [classify_tag_space htag, ofOpening, htrim]
  simp only [hmarker, hinner]

end TemplateSuite.Line
