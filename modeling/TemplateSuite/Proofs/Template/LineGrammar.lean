import TemplateSuite.Proofs.Template.Line

namespace TemplateSuite.Line

variable {line tag after argument : Text} {closed : Bool}

/-- `@tag_` and white space after it. -/
def IsClosing (line tag : Text) : Prop :=
  IsTag tag ∧ ∃ blanks, (∀ c ∈ blanks, Text.isBlank c) ∧ line = '@' :: (tag ++ '_' :: blanks)

/-- `@tag` and then `after`, which is empty or begins with white space. -/
def IsOpening (line tag after : Text) : Prop :=
  IsTag tag ∧ (∀ c ∈ after.head?, Text.isBlank c) ∧ line = '@' :: (tag ++ after)

/-- What is said after a tag: the trimmed text, without the close marker of the tag if it ends with
one. -/
inductive Says (tag after : Text) : (argument : Text) → (closed : Bool) → Prop
  | closed {inner : Text} : Text.trim after = inner ++ closeMarker tag →
      Says tag after (Text.trim inner) true
  | open : ¬ closeMarker tag <:+ Text.trim after → Says tag after (Text.trim after) false

theorem isBlank_of_not_isTagChar {c : Char} (h : isTagChar c = false) (hc : c ≠ '_') :
    Text.isBlank c := by
  simpa [isTagChar, hc] using h

theorem exists_tag_of_classify (h : classify line ≠ .text) :
    ∃ tag after, IsTag tag ∧ (∀ c ∈ after.head?, isTagChar c = false) ∧
      line = '@' :: (tag ++ after) := by
  unfold classify at h
  split at h
  · rename_i rest
    split at h
    · exact absurd rfl h
    · rename_i hne
      exact ⟨_, _, ⟨hne, fun c hc => List.mem_takeWhile_imp hc⟩, Text.not_of_head?_dropWhile rest,
        congrArg ('@' :: ·) List.takeWhile_append_dropWhile.symm⟩
  · exact absurd rfl h

theorem ofOpening_eq_opening_iff :
    ofOpening tag after = .opening tag argument closed ↔ Says tag after argument closed := by
  unfold ofOpening
  dsimp only
  split
  · rename_i inner hinner
    rw [Text.before?_eq_some_iff] at hinner
    constructor
    · intro h
      cases h
      exact .closed hinner
    · rintro (hinner' | hopen)
      · rw [List.append_cancel_right (hinner'.symm.trans hinner)]
      · exact absurd ⟨inner, hinner.symm⟩ hopen
  · rename_i hnone
    have hopen : ¬ closeMarker tag <:+ Text.trim after := by
      rintro ⟨inner, hinner⟩
      rw [Text.before?_eq_some_iff.mpr hinner.symm] at hnone
      cases hnone
    constructor
    · intro h
      cases h
      exact .open hopen
    · rintro (hinner' | hopen')
      · exact absurd ⟨_, hinner'.symm⟩ hopen
      · rfl

theorem exists_ofOpening (tag after : Text) :
    ∃ argument closed, ofOpening tag after = .opening tag argument closed := by
  unfold ofOpening
  dsimp only
  split <;> exact ⟨_, _, rfl⟩

theorem ofTagged_underscore {found trailing : Text} :
    ofTagged found ('_' :: trailing) = .closing tag ↔
      found = tag ∧ ∀ c ∈ trailing, Text.isBlank c := by
  rw [ofTagged, Text.allBlank]
  split
  · rename_i hblank
    simpa using fun _ => List.all_eq_true.mp hblank
  · rename_i hblank
    simpa using fun _ => by simpa using hblank

theorem classify_eq_closing_iff : classify line = .closing tag ↔ IsClosing line tag := by
  constructor
  · intro h
    have hne : classify line ≠ .text := by simp [h]
    obtain ⟨found, after, hfound, hafter, rfl⟩ := exists_tag_of_classify hne
    rw [classify_cons_tag hfound hafter] at h
    by_cases hmark : after.head? = some '_'
    · obtain ⟨trailing, rfl⟩ := List.head?_eq_some_iff.mp hmark
      obtain ⟨rfl, hblanks⟩ := ofTagged_underscore.mp h
      exact ⟨hfound, trailing, hblanks, rfl⟩
    · obtain ⟨argument, closed, hopening⟩ := exists_ofOpening found after
      rw [ofTagged_of_head?_ne hmark, hopening] at h
      cases h
  · rintro ⟨htag, blanks, hblanks, rfl⟩
    rw [classify_cons_tag htag (by simp [isTagChar])]
    exact ofTagged_underscore.mpr ⟨rfl, hblanks⟩

theorem IsOpening.classify (h : IsOpening line tag after) :
    Line.classify line = ofOpening tag after := by
  obtain ⟨htag, hafter, rfl⟩ := h
  rw [classify_cons_tag htag fun c hc => isTagChar_of_blank (hafter c hc)]
  refine ofTagged_of_head?_ne fun hmark => ?_
  have hblank := hafter _ hmark
  cases hblank

theorem classify_eq_opening_iff :
    classify line = .opening tag argument closed ↔
      ∃ after, IsOpening line tag after ∧ Says tag after argument closed := by
  constructor
  · intro h
    have hne : classify line ≠ .text := by simp [h]
    obtain ⟨found, after, hfound, hafter, rfl⟩ := exists_tag_of_classify hne
    rw [classify_cons_tag hfound hafter] at h
    by_cases hmark : after.head? = some '_'
    · obtain ⟨trailing, rfl⟩ := List.head?_eq_some_iff.mp hmark
      rw [ofTagged] at h
      split at h <;> cases h
    · rw [ofTagged_of_head?_ne hmark] at h
      have htag : found = tag := by
        obtain ⟨_, _, hopening⟩ := exists_ofOpening found after
        rw [hopening] at h
        cases h
        rfl
      subst htag
      refine ⟨after, ⟨hfound, fun c hc => ?_, rfl⟩, ofOpening_eq_opening_iff.mp h⟩
      exact isBlank_of_not_isTagChar (hafter c hc) fun heq => hmark (heq ▸ hc)
  · rintro ⟨after, hopening, hsays⟩
    rw [hopening.classify]
    exact ofOpening_eq_opening_iff.mpr hsays

theorem exists_opening_iff :
    (∃ argument closed, classify line = .opening tag argument closed) ↔
      ∃ after, IsOpening line tag after := by
  constructor
  · rintro ⟨_, _, hline⟩
    obtain ⟨after, hafter, -⟩ := classify_eq_opening_iff.mp hline
    exact ⟨after, hafter⟩
  · rintro ⟨after, hafter⟩
    obtain ⟨argument, closed, hkind⟩ := exists_ofOpening tag after
    exact ⟨argument, closed, hafter.classify.trans hkind⟩

theorem classify_eq_text_iff :
    classify line = .text ↔
      (∀ tag, ¬ IsClosing line tag) ∧ ∀ tag after, ¬ IsOpening line tag after := by
  constructor
  · intro h
    refine ⟨fun tag hclosing => ?_, fun tag after hopening => ?_⟩
    · cases h.symm.trans (classify_eq_closing_iff.mpr hclosing)
    · obtain ⟨_, _, hkind⟩ := exists_ofOpening tag after
      cases h.symm.trans (hopening.classify.trans hkind)
  · rintro ⟨hclosing, hopening⟩
    cases hline : classify line with
    | text => rfl
    | closing tag => exact absurd (classify_eq_closing_iff.mp hline) (hclosing tag)
    | opening tag argument closed =>
        obtain ⟨after, hafter, -⟩ := classify_eq_opening_iff.mp hline
        exact absurd hafter (hopening tag after)

end TemplateSuite.Line
