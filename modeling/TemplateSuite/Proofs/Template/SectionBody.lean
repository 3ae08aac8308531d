import TemplateSuite.Proofs.Template.CommentTree

namespace TemplateSuite

/-- A section at top level of the lines, the first of which has the given number, and the lines
strictly between the one that opens it and the one that closes it. -/
inductive Section.Encloses (s : Section) (number : Nat) : List Text → List Text → Prop
  /-- The opening line closes the section. -/
  | closed {front after : List Text} {opener : Text} :
      Nested front → Line.classify opener = .opening s.tag s.argument true →
        s.line = number + front.length → Encloses s number (front ++ opener :: after) []
  | between {front inner after : List Text} {opener closer : Text} :
      Nested front → Line.classify opener = .opening s.tag s.argument false →
        Line.classify closer = .closing s.tag → Nested inner → s.line = number + front.length →
          Encloses s number (front ++ opener :: (inner ++ closer :: after)) inner

namespace Section.Encloses

variable {s : Section} {number : Nat} {front lines inner inner' : List Text}

theorem nested (h : s.Encloses number lines inner) : Nested inner := by
  cases h with
  | closed => exact .nil
  | between _ _ _ hinner _ => exact hinner

theorem subset (h : s.Encloses number lines inner) : inner ⊆ lines := by
  cases h with
  | closed => exact List.nil_subset _
  | between =>
      intro line hline
      simp [hline]

theorem append (hfront : Nested front) (h : s.Encloses (number + front.length) lines inner) :
    s.Encloses number (front ++ lines) inner := by
  cases h with
  | @closed front' after opener hfront' hopen hline =>
      rw [← List.append_assoc]
      refine .closed (hfront.append hfront') hopen ?_
      rw [hline, List.length_append, Nat.add_assoc]
  | @between front' inner after opener closer hfront' hopen hclose hinner hline =>
      rw [← List.append_assoc]
      refine .between (hfront.append hfront') hopen hclose hinner ?_
      rw [hline, List.length_append, Nat.add_assoc]

theorem unique (h : s.Encloses number lines inner) (h' : s.Encloses number lines inner') :
    inner = inner' := by
  generalize hlines : lines = lines' at h'
  cases h with
  | closed hfront hopen hline =>
      cases h' with
      | closed => rfl
      | between hfront' hopen' _ _ hline' =>
          obtain ⟨-, hrest⟩ := List.append_inj hlines (by omega)
          rw [(List.cons.inj hrest).1, hopen'] at hopen
          cases hopen
  | @between front inner after opener closer hfront hopen hclose hinner hline =>
      cases h' with
      | closed hfront' hopen' hline' =>
          obtain ⟨-, hrest⟩ := List.append_inj hlines (by omega)
          rw [(List.cons.inj hrest).1, hopen'] at hopen
          cases hopen
      | @between front' inner' after' opener' closer' hfront' hopen' hclose' hinner' hline' =>
          -- the same lines follow the opening, and both times they are split where the scanner does
          obtain ⟨-, hrest⟩ := List.append_inj hlines (by omega)
          have hsplit : some (inner, after) = some (inner', after') := by
            rw [← Scan.splitAtClose?_of_nested hinner hclose,
              ← Scan.splitAtClose?_of_nested hinner' hclose', (List.cons.inj hrest).2]
          cases hsplit
          rfl

open Comment in
theorem mem_leftOut_iff (h : s.Encloses number lines inner) (htag : s.tag ≠ Comment.tag) {x : Nat}
    (hfirst : s.bodyLine ≤ x) (hlast : x < s.bodyLine + inner.length) :
    x ∈ leftOut 0 number lines ↔ x ∈ leftOut 0 s.bodyLine inner := by
  cases h with
  | closed =>
      rw [List.length_nil] at hlast
      omega
  | @between front inner after opener closer hfront hopen hclose hinner hline =>
      -- lines outside the section have other numbers
      rw [bodyLine] at hfirst hlast
      have hbefore : x ∉ leftOut 0 number front := fun hx => by
        have := mem_leftOut_bounds hx
        omega
      have hafter : x ∉ leftOut 0 (number + front.length + inner.length + 2) after := fun hx => by
        have := mem_leftOut_bounds hx
        omega
      rw [leftOut_append_of_nested hfront, leftOut_section hopen htag hclose hinner, List.mem_append,
        List.mem_append, or_iff_right hbefore, or_iff_left hafter, bodyLine, hline]

end Section.Encloses

namespace Scan

open Comment

variable {number : Nat} {lines front back inner : List Text} {numbers : List Nat}

/-- The scanner takes the body of a section from between its opening and its closing line. -/
theorem Finds.exists_encloses {items : List Item} (h : Finds number lines items) :
    ∀ s, .block s ∈ items → ∃ inner, s.Encloses number lines inner ∧ s.body = Text.unlines inner := by
  have hnone : Nested [] := .nil
  induction h with
  | nil => exact nofun
  | text hkind _ ih =>
      intro s hs
      rcases List.mem_cons.mp hs with heq | hrest
      · cases heq
      · obtain ⟨inner, hinner, hbody⟩ := ih s hrest
        exact ⟨inner, hinner.append (.text hkind .nil), hbody⟩
  | selfClosing hkind _ ih =>
      intro s hs
      rcases List.mem_cons.mp hs with heq | hrest
      · cases heq
        exact ⟨[], .closed hnone hkind rfl, rfl⟩
      · obtain ⟨inner, hinner, hbody⟩ := ih s hrest
        exact ⟨inner, hinner.append (.selfClosing hkind .nil), hbody⟩
  | @enclose number opener closer tag argument inner after items hopen hclose hinner _ ih =>
      intro s hs
      rcases List.mem_cons.mp hs with heq | hrest
      · cases heq
        exact ⟨inner, .between hnone hopen hclose hinner rfl, rfl⟩
      · obtain ⟨inside, hinside, hbody⟩ := ih s hrest
        have hfront : Nested (opener :: (inner ++ [closer])) := .enclose hopen hclose hinner .nil
        have hlength : number + inner.length + 2 =
            number + (opener :: (inner ++ [closer])).length := by
          rw [List.length_cons, List.length_append, List.length_singleton]
          omega
        rw [hlength] at hinside
        have happend := hinside.append hfront
        rw [List.cons_append, List.append_assoc, List.singleton_append] at happend
        exact ⟨inside, happend, hbody⟩

theorem linesExcept_append (numbers : List Nat) (number : Nat) (front back : List Text) :
    linesExcept numbers number (front ++ back) =
      linesExcept numbers number front ++ linesExcept numbers (number + front.length) back := by
  simp [linesExcept, List.zipIdx_append]

theorem linesExcept_map (change : Text → Text) (numbers : List Nat) (number : Nat)
    (lines : List Text) :
    linesExcept numbers number (lines.map change) = (linesExcept numbers number lines).map change := by
  induction lines generalizing number with
  | nil => rfl
  | cons line rest ih =>
      have hrest := ih (number + 1)
      simp only [linesExcept, List.map_cons, List.zipIdx_cons, List.filter_cons] at hrest ⊢
      split
      · rw [List.map_cons, List.map_cons, List.map_cons, hrest]
      · exact hrest

theorem linesExcept_congr {numbers' : List Nat}
    (h : ∀ x, number ≤ x → x < number + lines.length → (x ∈ numbers ↔ x ∈ numbers')) :
    linesExcept numbers number lines = linesExcept numbers' number lines := by
  refine congrArg (List.map Prod.fst) (List.filter_congr fun p hp => decide_eq_decide.mpr ?_)
  have hlow := List.le_snd_of_mem_zipIdx hp
  have hhigh := List.snd_lt_add_of_mem_zipIdx hp
  exact not_congr (h p.2 hlow (by omega))

theorem linesExcept_singleton {line : Text} (h : number ∉ numbers) :
    linesExcept numbers number [line] = [line] := by
  simp [linesExcept, h]

theorem mem_of_mem_linesExcept {line : Text} (h : line ∈ linesExcept numbers number lines) :
    line ∈ lines := by
  obtain ⟨⟨found, x⟩, hp, rfl⟩ := List.mem_map.mp h
  exact List.fst_mem_of_mem_zipIdx (List.mem_filter.mp hp).1

theorem dropReturn_eq_self_iff {line : Text} : Text.dropReturn line = line ↔ ¬ ['\r'] <:+ line := by
  refine ⟨?_, Text.dropReturn_of_not_suffix⟩
  rintro h ⟨kept, rfl⟩
  have hkept : Text.dropReturn (kept ++ ['\r']) = kept := by simp [Text.dropReturn, Text.before?]
  have hlength := congrArg List.length (hkept.symm.trans h)
  rw [List.length_append, List.length_singleton] at hlength
  omega

theorem unlines_inj (hfront : ∀ line ∈ front, '\n' ∉ line) (hback : ∀ line ∈ back, '\n' ∉ line)
    (hne : front ≠ []) (hne' : back ≠ []) (h : Text.unlines front = Text.unlines back) :
    front = back := by
  rw [← List.splitOn_intercalate '\n' hfront hne, ← List.splitOn_intercalate '\n' hback hne']
  exact congrArg (List.splitOn '\n') h

theorem newline_not_mem_map_dropReturn (h : ∀ line ∈ front, '\n' ∉ line) :
    ∀ line ∈ front.map Text.dropReturn, '\n' ∉ line :=
  List.forall_mem_map.mpr fun line hline hmem => h line hline (Text.mem_of_mem_dropReturn hmem)

theorem unlines_map_dropReturn_eq_append_blank_iff (h : ∀ line ∈ front, '\n' ∉ line) :
    Text.unlines (front.map Text.dropReturn) = Text.unlines (front ++ [[]]) ↔ front = [] := by
  refine ⟨fun hjoined => ?_, fun hnil => by rw [hnil]; rfl⟩
  by_contra hne
  have hlines : front.map Text.dropReturn = front ++ [[]] :=
    unlines_inj (newline_not_mem_map_dropReturn h)
      (List.forall_mem_append.mpr ⟨h, by simp⟩) (by simpa using hne) (by simp) hjoined
  have hlength := congrArg List.length hlines
  rw [List.length_map, List.length_append, List.length_singleton] at hlength
  omega

theorem unlines_map_dropReturn_append_iff (hfront : ∀ line ∈ front, '\n' ∉ line)
    (hback : ∀ line ∈ back, '\n' ∉ line) :
    Text.unlines (front.map Text.dropReturn ++ back) = Text.unlines (front ++ back) ↔
      ∀ line ∈ front, ¬ ['\r'] <:+ line := by
  have hmap : front.map Text.dropReturn = front ↔ ∀ line ∈ front, ¬ ['\r'] <:+ line := by
    conv => lhs; rhs; rw [← List.map_id front]
    rw [List.map_inj_left]
    exact forall₂_congr fun line _ => dropReturn_eq_self_iff
  rw [← hmap]
  refine ⟨fun hjoined => ?_, fun hsame => by rw [hsame]⟩
  by_cases hnil : front = []
  · rw [hnil]
    rfl
  · have hlines : front.map Text.dropReturn ++ back = front ++ back :=
      unlines_inj (List.forall_mem_append.mpr ⟨newline_not_mem_map_dropReturn hfront, hback⟩)
        (List.forall_mem_append.mpr ⟨hfront, hback⟩) (by simp [hnil]) (by simp [hnil]) hjoined
    exact List.append_cancel_right hlines

/-- The lines without the given numbers come through joining and splitting: at the end there is no
blank line, unless nothing else is kept, and before the last line none ends in a carriage return. -/
structure Intact (numbers : List Nat) (number : Nat) (inner : List Text) : Prop where
  blank_end : inner.getLast? = some [] → linesExcept numbers number inner = [[]]
  no_return : ∀ line ∈ linesExcept numbers number inner.dropLast, ¬ ['\r'] <:+ line

theorem unlines_linesExcept_linesOfPieces_iff (hnewline : ∀ line ∈ inner, '\n' ∉ line)
    (hlast : inner.getLast? = some [] → number + (inner.length - 1) ∉ numbers) :
    Text.unlines (linesExcept numbers number (Text.linesOfPieces inner)) =
        Text.unlines (linesExcept numbers number inner) ↔ Intact numbers number inner := by
  rcases List.eq_nil_or_concat inner with rfl | ⟨front, last, rfl⟩
  · exact iff_of_true rfl ⟨nofun, nofun⟩
  · simp only [List.concat_eq_append] at hnewline hlast ⊢
    have hkept : ∀ line ∈ linesExcept numbers number front, '\n' ∉ line := fun line hline =>
      hnewline line (List.mem_append_left _ (mem_of_mem_linesExcept hline))
    have hdropLast : (front ++ [last]).dropLast = front := List.dropLast_concat
    rw [Text.linesOfPieces_append front (List.cons_ne_nil last []), linesExcept_append,
      linesExcept_append, linesExcept_map, List.length_map]
    by_cases hblank : last = []
    · -- the blank line is kept, but it is not among the lines after splitting
      subst hblank
      have hsplit : linesExcept numbers (number + front.length) (Text.linesOfPieces [[]]) = [] := rfl
      have hend : linesExcept numbers (number + front.length) [[]] = [[]] :=
        linesExcept_singleton (by simpa using hlast (by simp))
      rw [hsplit, hend, List.append_nil, unlines_map_dropReturn_eq_append_blank_iff hkept]
      constructor
      · intro hnone
        refine ⟨fun _ => ?_, ?_⟩
        · rw [linesExcept_append, hnone, hend]
          rfl
        · rw [hdropLast, hnone]
          nofun
      · intro hintact
        have hwhole := hintact.blank_end (by simp)
        rw [linesExcept_append, hend] at hwhole
        exact List.append_cancel_right (hwhole.trans (List.nil_append _).symm)
    · have hsplit : Text.linesOfPieces [last] = [last] := if_neg hblank
      have hend : ∀ line ∈ linesExcept numbers (number + front.length) [last], '\n' ∉ line :=
        fun line hline =>
          hnewline line (List.mem_append_right _ (mem_of_mem_linesExcept hline))
      rw [hsplit, unlines_map_dropReturn_append_iff hkept hend]
      constructor
      · exact fun hreturn => ⟨fun hnil => by simp [hblank] at hnil, by rwa [hdropLast]⟩
      · exact fun hintact => by simpa [hdropLast] using hintact.no_return

example : Text.unlines (linesExcept [] 1 (Text.linesOfPieces ["a\r", "b\r", ""])) = "a\nb" := by
  decide

theorem length_linesOfPieces_le (pieces : List Text) :
    (Text.linesOfPieces pieces).length ≤ pieces.length := by
  induction pieces with
  | nil => exact Nat.le_refl 0
  | cons piece rest ih =>
      cases rest with
      | nil =>
          unfold Text.linesOfPieces
          split <;> simp
      | cons next others =>
          simp only [Text.linesOfPieces, List.length_cons] at ih ⊢
          omega

theorem not_mem_leftOut_of_blank_end (h : Nested inner) (hlast : inner.getLast? = some []) :
    number + (inner.length - 1) ∉ leftOut 0 number inner := by
  obtain ⟨front, rfl⟩ := List.getLast?_eq_some_iff.mp hlast
  have hfront : Nested front := .of_append_blank h
  have hnone : leftOut 0 (number + front.length) [[]] = [] := rfl
  rw [leftOut_append_of_nested hfront, hnone, List.append_nil, List.length_append,
    List.length_singleton, Nat.add_sub_cancel]
  intro hmem
  have := mem_leftOut_bounds hmem
  omega

/-- The filtered body of a section has the lines outside comments, as far as they come through joining
and splitting. -/
theorem stripComments_body {text : Text} (h : checkNesting text = .ok ()) {firstLine : Nat}
    {items : List Item} (hscan : scan text firstLine = .ok items) {found : List Nat}
    (hfound : commentLines text firstLine = .ok found) {s : Section} (hs : .block s ∈ items)
    (htag : s.tag ≠ Comment.tag) {inner : List Text}
    (hinner : s.Encloses firstLine (Text.lines text) inner) :
    stripComments s.body = Text.unlines (linesExcept found s.bodyLine (Text.linesOfPieces inner)) ∧
      (stripComments s.body = Text.unlines (linesExcept found s.bodyLine inner) ↔
        Intact found s.bodyLine inner) := by
  obtain ⟨_, hfound', hmem⟩ := commentLines_of_checkNesting h firstLine
  obtain rfl := Except.ok.inj (hfound.symm.trans hfound')
  obtain ⟨_, hfinds⟩ := exists_finds_of_checkNesting h firstLine
  obtain rfl := Except.ok.inj (hscan.symm.trans hfinds.scanLines_eq)
  obtain ⟨_, hinner', hbody⟩ := hfinds.exists_encloses s hs
  obtain rfl := hinner.unique hinner'
  have hnewline : ∀ line ∈ inner, '\n' ∉ line := fun line hline =>
    Text.newline_not_mem_of_mem_lines (hinner.subset hline)
  have hinside : ∀ x, s.bodyLine ≤ x → x < s.bodyLine + inner.length →
      (x ∈ found ↔ x ∈ leftOut 0 s.bodyLine inner) := fun x hfirst hlast =>
    (hmem x).trans (hinner.mem_leftOut_iff htag hfirst hlast)
  have hkept : stripComments s.body =
      Text.unlines (linesExcept found s.bodyLine (Text.linesOfPieces inner)) := by
    have hshort := length_linesOfPieces_le inner
    rw [stripComments, hbody, Text.lines_unlines hnewline, keep_eq_linesExcept 0 s.bodyLine,
      leftOut_linesOfPieces hinner.nested]
    refine congrArg Text.unlines (linesExcept_congr fun x hfirst hlast => ?_)
    exact (hinside x hfirst (by omega)).symm
  refine ⟨hkept, ?_⟩
  rw [hkept]
  refine unlines_linesExcept_linesOfPieces_iff hnewline fun hblank => ?_
  have hpos : 0 < inner.length := List.length_pos_of_mem (List.mem_of_getLast? hblank)
  rw [hinside _ (by omega) (by omega)]
  exact not_mem_leftOut_of_blank_end hinner.nested hblank

end Scan

end TemplateSuite
