import Mathlib.Data.List.Infix
import TemplateSuite.Proofs.Template.Numbering

/-!
Blocks of lines. The scanner cuts the lines of any text, well nested or not, into one block for each
element: a line, or the lines from an opening to the first line at which more sections of its tag
have been closed than opened. It fails only at an opening for which there is no such line.
-/

namespace TemplateSuite

/-- The line opens a section with the tag and does not close it. -/
def Line.opens (tag : Text) : Line → Bool
  | .opening found _ closed => decide (found = tag) && !closed
  | _ => false

/-- The line closes a section with the tag. -/
def Line.closes (tag : Text) : Line → Bool
  | .closing found => decide (found = tag)
  | _ => false

namespace Scan

/-- The lines close more sections with the tag than they open and were open before. -/
def Outnumbered (tag : Text) (depth : Nat) (lines : List Text) : Prop :=
  lines.countP (fun line => (Line.classify line).opens tag) + depth <
    lines.countP fun line => (Line.classify line).closes tag

/-- Nowhere in the lines the closes of the tag outnumber its openings. -/
def StaysOpen (tag : Text) (depth : Nat) (lines : List Text) : Prop :=
  ∀ front, front <+: lines → ¬ Outnumbered tag depth front

/-- The line after `body` is the first at which the closes of the tag outnumber its openings. -/
def ClosedFirst (tag : Text) (depth : Nat) (body : List Text) (close : Text) : Prop :=
  StaysOpen tag depth body ∧ Outnumbered tag depth (body ++ [close])

instance (tag : Text) (depth : Nat) (lines : List Text) : Decidable (Outnumbered tag depth lines) :=
  inferInstanceAs (Decidable (_ < _))

instance (tag : Text) (depth : Nat) (lines : List Text) : Decidable (StaysOpen tag depth lines) :=
  decidable_of_iff (∀ front ∈ lines.inits, ¬ Outnumbered tag depth front) <| by
    simp only [StaysOpen, List.mem_inits]

instance (tag : Text) (depth : Nat) (body : List Text) (close : Text) :
    Decidable (ClosedFirst tag depth body close) :=
  inferInstanceAs (Decidable (_ ∧ _))

theorem not_outnumbered_nil (tag : Text) (depth : Nat) : ¬ Outnumbered tag depth [] := by
  simp [Outnumbered]

/-- The search goes on after the line, where `next` sections count as open. -/
structure GoesOn (tag line : Text) (depth next : Nat) : Prop where
  count : ∀ lines, Outnumbered tag depth (line :: lines) ↔ Outnumbered tag next lines
  search : ∀ rest, splitAtClose? tag depth (line :: rest) =
    (splitAtClose? tag next rest).map fun (body, after) => (line :: body, after)

theorem goesOn_or_closes (tag line : Text) (depth : Nat) :
    (Line.classify line = .closing tag ∧ depth = 0) ∨ ∃ next, GoesOn tag line depth next := by
  -- a line that is no delimiter of this tag leaves the count as it is
  have hother (hopens : (Line.classify line).opens tag = false)
      (hcloses : (Line.classify line).closes tag = false)
      (hnone : (Line.classify line).delimits? tag = none) : ∃ next, GoesOn tag line depth next :=
    ⟨depth, fun lines => by simp [Outnumbered, hopens, hcloses],
      splitAtClose?_cons_of_none hnone depth⟩
  cases hline : Line.classify line with
  | text =>
      rw [hline] at hother
      exact .inr (hother rfl rfl rfl)
  | opening found argument closed =>
      rw [hline] at hother
      cases closed with
      | true => exact .inr (hother (by simp [Line.opens]) rfl rfl)
      | false =>
          by_cases htag : found = tag
          · subst htag
            refine .inr ⟨depth + 1, fun lines => ?_, splitAtClose?_cons_opening hline depth⟩
            simp only [Outnumbered, List.countP_cons, hline, Line.opens, Line.closes, decide_true,
              Bool.not_false, Bool.and_self, if_true, Bool.false_eq_true, if_false]
            omega
          · refine .inr (hother ?_ rfl ?_)
            · simp [Line.opens, htag]
            · simp [Line.delimits?, htag]
  | closing found =>
      rw [hline] at hother
      by_cases htag : found = tag
      · subst htag
        cases depth with
        | zero => exact .inl ⟨rfl, rfl⟩
        | succ outer =>
            refine .inr ⟨outer, fun lines => ?_, splitAtClose?_cons_closing hline outer⟩
            simp only [Outnumbered, List.countP_cons, hline, Line.opens, Line.closes, decide_true,
              if_true, Bool.false_eq_true, if_false]
            omega
      · refine .inr (hother rfl ?_ ?_)
        · simp [Line.closes, htag]
        · simp [Line.delimits?, htag]

theorem outnumbered_singleton {tag line : Text} (h : Line.classify line = .closing tag) :
    Outnumbered tag 0 [line] := by
  simp [Outnumbered, h, Line.opens, Line.closes]

theorem staysOpen_nil (tag : Text) (depth : Nat) : StaysOpen tag depth [] := by
  intro front hfront
  rw [List.prefix_nil.mp hfront]
  exact not_outnumbered_nil tag depth

theorem GoesOn.staysOpen_cons_iff {tag line : Text} {depth next : Nat}
    (h : GoesOn tag line depth next) (rest : List Text) :
    StaysOpen tag depth (line :: rest) ↔ StaysOpen tag next rest := by
  constructor
  · intro hstays front hfront
    rw [← h.count]
    exact hstays _ (List.prefix_cons_inj line |>.mpr hfront)
  · intro hstays front hfront
    rcases List.prefix_cons_iff.mp hfront with rfl | ⟨front', rfl, hfront'⟩
    · exact not_outnumbered_nil tag depth
    · rw [h.count]
      exact hstays front' hfront'

theorem GoesOn.closedFirst_cons_iff {tag line : Text} {depth next : Nat}
    (h : GoesOn tag line depth next) (body : List Text) (close : Text) :
    ClosedFirst tag depth (line :: body) close ↔ ClosedFirst tag next body close := by
  rw [ClosedFirst, ClosedFirst, h.staysOpen_cons_iff, List.cons_append, h.count]

/-- The search fails exactly if the closes never outnumber the openings. -/
theorem splitAtClose?_eq_none_iff {tag : Text} {depth : Nat} {lines : List Text} :
    splitAtClose? tag depth lines = none ↔ StaysOpen tag depth lines := by
  induction lines generalizing depth with
  | nil => exact iff_of_true rfl (staysOpen_nil tag depth)
  | cons line rest ih =>
      rcases goesOn_or_closes tag line depth with ⟨hclose, rfl⟩ | ⟨next, hnext⟩
      · rw [splitAtClose?_cons_close hclose]
        refine iff_of_false (by simp) fun hstays => ?_
        exact hstays [line] (by simp) (outnumbered_singleton hclose)
      · rw [hnext.search, Option.map_eq_none_iff, ih, hnext.staysOpen_cons_iff]

/-- The search finds the first line at which the closes outnumber the openings. -/
theorem splitAtClose?_eq_some_iff {tag : Text} {depth : Nat} {lines body after : List Text} :
    splitAtClose? tag depth lines = some (body, after) ↔
      ∃ close, lines = body ++ close :: after ∧ ClosedFirst tag depth body close := by
  induction lines generalizing depth body with
  | nil => simp [splitAtClose?]
  | cons line rest ih =>
      rcases goesOn_or_closes tag line depth with ⟨hclose, rfl⟩ | ⟨next, hnext⟩
      · rw [splitAtClose?_cons_close hclose]
        constructor
        · intro h
          cases h
          exact ⟨line, rfl, staysOpen_nil tag 0, outnumbered_singleton hclose⟩
        · rintro ⟨close, hlines, hstays, -⟩
          cases body with
          | nil =>
              cases hlines
              rfl
          | cons first inner =>
              cases hlines
              exact absurd (outnumbered_singleton hclose) (hstays [line] (by simp))
      · rw [hnext.search, Option.map_eq_some_iff]
        constructor
        · rintro ⟨⟨inner, after'⟩, hrest, hpair⟩
          cases hpair
          obtain ⟨close, rfl, hfirst⟩ := ih.mp hrest
          exact ⟨close, rfl, (hnext.closedFirst_cons_iff inner close).mpr hfirst⟩
        · rintro ⟨close, hlines, hfirst⟩
          cases body with
          | nil =>
              cases hlines
              exact absurd ((hnext.count []).mp hfirst.2) (not_outnumbered_nil tag next)
          | cons first inner =>
              cases hlines
              exact ⟨(inner, after),
                ih.mpr ⟨close, rfl, (hnext.closedFirst_cons_iff inner close).mp hfirst⟩, rfl⟩

/-- The lines of one element, the first of which has the given number. -/
inductive Block (number : Nat) : List Text → Item → Prop
  | text {line : Text} (hline : ∀ tag argument closed,
      Line.classify line ≠ .opening tag argument closed) : Block number [line] (.text number line)
  | selfClosing {line tag argument : Text}
      (hline : Line.classify line = .opening tag argument true) :
      Block number [line] (.block ⟨tag, argument, [], number⟩)
  | enclosing {opener close tag argument : Text} {body : List Text}
      (hopen : Line.classify opener = .opening tag argument false)
      (hclose : ClosedFirst tag 0 body close) :
      Block number (opener :: (body ++ [close]))
        (.block ⟨tag, argument, Text.unlines body, number⟩)

/-- One block for each element, the numbers going on from block to block. -/
inductive Blocks : Nat → List (List Text) → List Item → Prop
  | nil (number : Nat) : Blocks number [] []
  | cons {number : Nat} {block : List Text} {blocks : List (List Text)} {item : Item}
      {items : List Item} (hblock : Block number block item)
      (hblocks : Blocks (number + block.length) blocks items) :
      Blocks number (block :: blocks) (item :: items)

/-- An opening without a line at which the closes of its tag outnumber the openings. -/
structure NeverClosed (tag opener : Text) (rest : List Text) : Prop where
  opens : ∃ argument, Line.classify opener = .opening tag argument false
  staysOpen : StaysOpen tag 0 rest

theorem Block.ne_nil {number : Nat} {block : List Text} {item : Item}
    (h : Block number block item) : block ≠ [] := by
  cases h <;> exact List.cons_ne_nil _ _

theorem Blocks.ne_nil {number : Nat} {blocks : List (List Text)} {items : List Item}
    (h : Blocks number blocks items) : ∀ block ∈ blocks, block ≠ [] := by
  induction h with
  | nil => simp
  | cons hblock _ ih => exact List.forall_mem_cons.mpr ⟨hblock.ne_nil, ih⟩

theorem scanLines_block_append {number : Nat} {block : List Text} {item : Item}
    (h : Block number block item) (rest : List Text) :
    scanLines number (block ++ rest) =
      (scanLines (number + block.length) rest).map (item :: ·) := by
  cases h with
  | text hline => exact scanLines_cons_of_not_opening hline number rest
  | selfClosing hline => exact scanLines_cons_selfClosing hline number rest
  | @enclosing opener close tag argument body hopen hclose =>
      have hsplit : splitAtClose? tag 0 (body ++ close :: rest) = some (body, rest) :=
        splitAtClose?_eq_some_iff.mpr ⟨close, rfl, hclose⟩
      rw [List.cons_append, List.append_assoc, List.singleton_append,
        scanLines_cons_opening hopen, hsplit]
      simp [Nat.add_assoc]

theorem scanLines_blocks_append {number : Nat} {blocks : List (List Text)} {items : List Item}
    (h : Blocks number blocks items) (rest : List Text) :
    scanLines number (blocks.flatten ++ rest) =
      (scanLines (number + blocks.flatten.length) rest).map (items ++ ·) := by
  induction h with
  | nil number =>
      rw [List.flatten_nil, List.nil_append, List.length_nil, Nat.add_zero]
      cases scanLines number rest <;> rfl
  | @cons number block blocks item items hblock _ ih =>
      rw [List.flatten_cons, List.append_assoc, scanLines_block_append hblock, ih,
        List.length_append, Nat.add_assoc]
      cases scanLines (number + (block.length + blocks.flatten.length)) rest <;> rfl

/-- The lines are blocks up to their end, or up to an opening that is never closed. -/
inductive CutUp (number : Nat) (lines : List Text) : Prop
  | ended {blocks : List (List Text)} {items : List Item} (hblocks : Blocks number blocks items)
      (hlines : lines = blocks.flatten) : CutUp number lines
  | stuck {blocks : List (List Text)} {items : List Item} {tag opener : Text} {rest : List Text}
      (hblocks : Blocks number blocks items) (hnever : NeverClosed tag opener rest)
      (hlines : lines = blocks.flatten ++ opener :: rest) : CutUp number lines

theorem CutUp.cons {number : Nat} {block rest : List Text} {item : Item}
    (hblock : Block number block item) (h : CutUp (number + block.length) rest) :
    CutUp number (block ++ rest) := by
  cases h with
  | ended hblocks hlines =>
      refine .ended (.cons hblock hblocks) ?_
      rw [hlines, List.flatten_cons]
  | stuck hblocks hnever hlines =>
      refine .stuck (.cons hblock hblocks) hnever ?_
      rw [hlines, List.flatten_cons, List.append_assoc]

theorem cutUp (number : Nat) (lines : List Text) : CutUp number lines := by
  -- the lines after the first block are fewer
  induction hlength : lines.length using Nat.strongRecOn generalizing number lines with
  | _ n ih =>
      cases lines with
      | nil => exact .ended (.nil number) rfl
      | cons line rest =>
          simp only [List.length_cons] at hlength
          have hrest : CutUp (number + 1) rest := ih rest.length (by omega) _ rest rfl
          cases hline : Line.classify line with
          | text => exact .cons (.text (by simp [hline])) hrest
          | closing tag => exact .cons (.text (by simp [hline])) hrest
          | opening tag argument closed =>
              cases closed with
              | true => exact .cons (.selfClosing hline) hrest
              | false =>
                  cases hsplit : splitAtClose? tag 0 rest with
                  | none =>
                      exact .stuck (.nil number)
                        ⟨⟨argument, hline⟩, splitAtClose?_eq_none_iff.mp hsplit⟩ rfl
                  | some found =>
                      obtain ⟨body, after⟩ := found
                      have hshorter := length_lt_of_splitAtClose? hsplit
                      obtain ⟨close, rfl, hclose⟩ := splitAtClose?_eq_some_iff.mp hsplit
                      rw [List.append_cons]
                      exact .cons (.enclosing hline hclose) (ih after.length (by omega) _ after rfl)

theorem scanLines_of_blocks {number : Nat} {blocks : List (List Text)} {items : List Item}
    (h : Blocks number blocks items) : scanLines number blocks.flatten = .ok items := by
  have happend := scanLines_blocks_append h []
  rw [List.append_nil, scanLines] at happend
  rw [happend]
  simp [Except.map]

theorem scanLines_of_neverClosed {number : Nat} {blocks : List (List Text)} {items : List Item}
    {tag opener : Text} {rest : List Text} (h : Blocks number blocks items)
    (hnever : NeverClosed tag opener rest) :
    scanLines number (blocks.flatten ++ opener :: rest) =
      .error (.unterminated [⟨tag, number + blocks.flatten.length⟩]) := by
  obtain ⟨argument, hopen⟩ := hnever.opens
  rw [scanLines_blocks_append h, scanLines_cons_opening hopen,
    splitAtClose?_eq_none_iff.mpr hnever.staysOpen]
  rfl

/-- Scanning splits the lines of any text into one block for each element, and fails exactly where
an opening that it comes to is never closed. -/
theorem scan_partitions_lines (text : Text) (number : Nat) :
    (∀ items, scan text number = .ok items ↔
      ∃ blocks, blocks.flatten = Text.lines text ∧ (∀ block ∈ blocks, block ≠ []) ∧
        Blocks number blocks items) ∧
      ∀ e, scan text number = .error e ↔
        ∃ blocks items tag opener rest, Text.lines text = blocks.flatten ++ opener :: rest ∧
          (∀ block ∈ blocks, block ≠ []) ∧ Blocks number blocks items ∧
          NeverClosed tag opener rest ∧
          e = .unterminated [⟨tag, number + blocks.flatten.length⟩] := by
  refine ⟨fun items => ⟨fun h => ?_, ?_⟩, fun e => ⟨fun h => ?_, ?_⟩⟩
  · cases cutUp number (Text.lines text) with
    | ended hblocks hlines =>
        rw [scan, hlines, scanLines_of_blocks hblocks] at h
        cases h
        exact ⟨_, hlines.symm, hblocks.ne_nil, hblocks⟩
    | stuck hblocks hnever hlines =>
        rw [scan, hlines, scanLines_of_neverClosed hblocks hnever] at h
        cases h
  · rintro ⟨blocks, hlines, -, hblocks⟩
    rw [scan, ← hlines]
    exact scanLines_of_blocks hblocks
  · cases cutUp number (Text.lines text) with
    | ended hblocks hlines =>
        rw [scan, hlines, scanLines_of_blocks hblocks] at h
        cases h
    | stuck hblocks hnever hlines =>
        rw [scan, hlines, scanLines_of_neverClosed hblocks hnever] at h
        cases h
        exact ⟨_, _, _, _, _, hlines, hblocks.ne_nil, hblocks, hnever, rfl⟩
  · rintro ⟨blocks, items, tag, opener, rest, hlines, -, hblocks, hnever, rfl⟩
    rw [scan, hlines]
    exact scanLines_of_neverClosed hblocks hnever

theorem blocks_before_an_open_section :
    scan "@x\nb\n@x_\n@y z @y_\n" 1 =
        .ok [.block ⟨"x", [], "b", 1⟩, .block ⟨"y", "z", [], 4⟩] ∧
      scan "@x\nb\n@x_\n@y z @y_\n@w\nc\n" 1 = .error (.unterminated [⟨"w", 5⟩]) := by
  let blocks : List (List Text) := [["@x", "b", "@x_"], ["@y z @y_"]]
  have hblocks : Blocks 1 blocks [.block ⟨"x", [], "b", 1⟩, .block ⟨"y", "z", [], 4⟩] := by
    have henclosing : Block 1 ("@x" :: (["b"] ++ ["@x_"])) (.block ⟨"x", [], "b", 1⟩) :=
      .enclosing (by decide) (by decide)
    exact .cons henclosing (.cons (.selfClosing (by decide)) (.nil 5))
  have hnever : NeverClosed "w" "@w" ["c"] := ⟨⟨[], by decide⟩, by decide⟩
  constructor
  · exact ((scan_partitions_lines _ 1).1 _).mpr ⟨blocks, by decide, hblocks.ne_nil, hblocks⟩
  · exact ((scan_partitions_lines _ 1).2 _).mpr
      ⟨blocks, _, "w", "@w", ["c"], by decide, hblocks.ne_nil, hblocks, hnever, rfl⟩

end Scan

end TemplateSuite
