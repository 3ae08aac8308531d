import TemplateSuite.Proofs.Template.NestingRun

namespace TemplateSuite.Nesting

/-- The section is opened by one of the lines, the first of which has the given number, and no
later line closes it. -/
def Unclosed (number : Nat) (lines : List Text) (s : OpenSection) : Prop :=
  ∃ before opener argument after, lines = before ++ opener :: after ∧
    s.line = number + before.length ∧
    Line.classify opener = .opening s.tag argument false ∧ ¬ ClosedBy s.tag after

theorem unclosed_cons_iff {number : Nat} {line : Text} {rest : List Text} {s : OpenSection} :
    Unclosed number (line :: rest) s ↔
      (s.line = number ∧ (∃ argument, Line.classify line = .opening s.tag argument false) ∧
        ¬ ClosedBy s.tag rest) ∨ Unclosed (number + 1) rest s := by
  constructor
  · rintro ⟨before, opener, argument, after, hlines, hnumber, hopen, hclosed⟩
    cases before with
    | nil =>
        obtain ⟨rfl, rfl⟩ := List.cons.inj hlines
        exact .inl ⟨hnumber, ⟨argument, hopen⟩, hclosed⟩
    | cons first before =>
        obtain ⟨rfl, rfl⟩ := List.cons.inj hlines
        refine .inr ⟨before, opener, argument, after, rfl, ?_, hopen, hclosed⟩
        rw [hnumber, List.length_cons]
        omega
  · rintro (⟨hnumber, ⟨argument, hopen⟩, hclosed⟩ |
      ⟨before, opener, argument, after, rfl, hnumber, hopen, hclosed⟩)
    · exact ⟨[], line, argument, rest, rfl, hnumber, hopen, hclosed⟩
    · refine ⟨line :: before, opener, argument, after, rfl, ?_, hopen, hclosed⟩
      rw [hnumber, List.length_cons]
      omega

theorem le_line_of_unclosed {number : Nat} {lines : List Text} {s : OpenSection}
    (h : Unclosed number lines s) : number ≤ s.line := by
  obtain ⟨before, -, -, -, -, hnumber, -, -⟩ := h
  omega

/-- The stack is made of sections from lines before `number`, the later ones further in. -/
structure Ordered (stack : List OpenSection) (number : Nat) : Prop where
  below : ∀ s ∈ stack, s.line < number
  decreasing : stack.Pairwise fun inner outer => outer.line < inner.line

theorem Ordered.next {stack : List OpenSection} {number : Nat} (h : Ordered stack number) :
    Ordered stack (number + 1) :=
  ⟨fun s hs => Nat.lt_succ_of_lt (h.below s hs), h.decreasing⟩

theorem Ordered.push {stack : List OpenSection} {number : Nat} (h : Ordered stack number)
    (tag : Text) : Ordered (⟨tag, number⟩ :: stack) (number + 1) := by
  refine ⟨?_, List.pairwise_cons.mpr ⟨h.below, h.decreasing⟩⟩
  intro s hs
  rcases List.mem_cons.mp hs with rfl | hmem
  · exact Nat.lt_succ_self number
  · exact h.next.below s hmem

theorem Ordered.pop {innermost : OpenSection} {outer : List OpenSection} {number : Nat}
    (h : Ordered (innermost :: outer) number) : Ordered outer (number + 1) :=
  ⟨fun s hs => h.next.below s (List.mem_cons_of_mem _ hs), (List.pairwise_cons.mp h.decreasing).2⟩

theorem ordered_of_run {stack final : List OpenSection} {number : Nat} {lines : List Text}
    (hordered : Ordered stack number) (h : run stack number lines = .ok final) :
    Ordered final (number + lines.length) := by
  induction lines generalizing stack number with
  | nil =>
      cases h
      exact hordered
  | cons line rest ih =>
      rw [List.length_cons, show number + (rest.length + 1) = number + 1 + rest.length by omega]
      rcases run_cons_cases h with ⟨-, hrest⟩ | ⟨tag, _, -, hrest⟩ | ⟨_, _, rfl, -, hrest⟩
      · exact ih hordered.next hrest
      · exact ih (hordered.push tag) hrest
      · exact ih hordered.pop hrest

theorem mem_or_le_line_of_run {stack final : List OpenSection} {number : Nat}
    {lines : List Text} (h : run stack number lines = .ok final) {s : OpenSection}
    (hs : s ∈ final) : s ∈ stack ∨ number ≤ s.line := by
  induction lines generalizing stack number with
  | nil =>
      cases h
      exact .inl hs
  | cons line rest ih =>
      rcases run_cons_cases h with ⟨-, hrest⟩ | ⟨tag, _, -, hrest⟩ | ⟨_, _, rfl, -, hrest⟩
      · exact (ih hrest).imp_right (by omega)
      · rcases ih hrest with hmem | hle
        · rcases List.mem_cons.mp hmem with rfl | hmem
          · exact .inr (Nat.le_refl _)
          · exact .inl hmem
        · exact .inr (by omega)
      · rcases ih hrest with hmem | hle
        · exact .inl (List.mem_cons_of_mem _ hmem)
        · exact .inr (by omega)

theorem mem_iff_of_line_eq {stack final : List OpenSection} {number : Nat} {line : Text}
    {rest : List Text} (hordered : Ordered stack number)
    (h : run stack number (line :: rest) = .ok final) {s : OpenSection} (hs : s.line = number) :
    s ∈ final ↔ (∃ argument, Line.classify line = .opening s.tag argument false) ∧
      ¬ ClosedBy s.tag rest := by
  have hstack : s ∉ stack := fun hmem => by
    have := hordered.below s hmem
    omega
  rcases run_cons_cases h with ⟨hline, hrest⟩ | ⟨tag, argument, hopen, hrest⟩ |
    ⟨_, outer, rfl, hclose, hrest⟩
  -- sections opened later have greater numbers
  · refine iff_of_false (fun hmem => ?_) ?_
    · rcases mem_or_le_line_of_run hrest hmem with hmem | hle
      · exact hstack hmem
      · omega
    · rintro ⟨⟨argument, hopen⟩, -⟩
      simp [hopen, Line.delimiter?] at hline
  · constructor
    · intro hmem
      rcases mem_or_le_line_of_run hrest hmem with hnext | hle
      · rcases List.mem_cons.mp hnext with rfl | hnext
        · refine ⟨⟨argument, hopen⟩, ?_⟩
          rintro ⟨inner, closer, after, rfl, hinner, hcloser⟩
          rw [run_enclose hopen hcloser (wellNested_delimiters_iff.mp hinner)] at h
          rcases mem_or_le_line_of_run h hmem with hmem | hle
          · exact hstack hmem
          · simp only at hle
            omega
        · exact absurd hnext hstack
      · omega
    · rintro ⟨⟨_, hopen'⟩, hclosed⟩
      obtain ⟨rfl, -, -⟩ := Line.opening.inj (hopen.symm.trans hopen')
      subst hs
      exact ((suffix_or_closedBy hrest).resolve_right hclosed).subset List.mem_cons_self
  · refine iff_of_false (fun hmem => ?_) ?_
    · rcases mem_or_le_line_of_run hrest hmem with hmem | hle
      · exact hstack (List.mem_cons_of_mem _ hmem)
      · omega
    · rintro ⟨⟨argument, hopen⟩, -⟩
      simp [hopen] at hclose

theorem mem_iff_unclosed {stack final : List OpenSection} {number : Nat} {lines : List Text}
    (hordered : Ordered stack number) (h : run stack number lines = .ok final)
    {s : OpenSection} (hs : number ≤ s.line) : s ∈ final ↔ Unclosed number lines s := by
  induction lines generalizing stack number with
  | nil =>
      cases h
      refine iff_of_false (fun hmem => ?_) ?_
      · have := hordered.below s hmem
        omega
      · rintro ⟨before, _, _, _, hlines, -⟩
        simp at hlines
  | cons line rest ih =>
      rw [unclosed_cons_iff]
      -- only the section numbered like the first line can have been opened by it
      rcases Nat.eq_or_lt_of_le hs with heq | hlt
      · have hlater : ¬ Unclosed (number + 1) rest s := fun hunclosed => by
          have := le_line_of_unclosed hunclosed
          omega
        rw [or_iff_left hlater, mem_iff_of_line_eq hordered h heq.symm]
        exact (and_iff_right heq.symm).symm
      · rw [or_iff_right (by rintro ⟨hnumber, -⟩; omega)]
        rcases run_cons_cases h with ⟨-, hrest⟩ | ⟨tag, _, -, hrest⟩ | ⟨_, _, rfl, -, hrest⟩
        · exact ih hordered.next hrest hlt
        · exact ih (hordered.push tag) hrest hlt
        · exact ih hordered.pop hrest hlt

end TemplateSuite.Nesting
