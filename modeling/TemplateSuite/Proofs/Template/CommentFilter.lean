import TemplateSuite.Proofs.Template.Concatenation
import TemplateSuite.Template.Definition

/-!
Texts without their comments. In well-nested lines the filter takes out whole comment sections and
leaves everything else, so the elements of what is left are those of the text without the comments,
each with its body filtered.
-/

namespace TemplateSuite

namespace Comment

open Line

/-- The number of open comments after a line. -/
def openAfter (depth : Nat) : Line → Nat
  | .opening found _ false => if found = tag then depth + 1 else depth
  | .closing found => if found = tag then depth - 1 else depth
  | _ => depth

/-- The filter leaves the line out when `depth` comments are open before it. -/
def hides (depth : Nat) : Line → Bool
  | .opening found _ _ => decide (found = tag) || decide (0 < depth)
  | _ => decide (0 < depth)

variable {line tag argument : Text} {closed : Bool} {front back lines : List Text}

theorem hides_succ (depth : Nat) (line : Line) : hides (depth + 1) line = true := by
  cases line <;> simp [hides]

@[simp] theorem keep_nil (depth : Nat) : keep depth [] = [] := by
  rw [keep]

theorem keep_cons (depth : Nat) (line : Text) (rest : List Text) :
    keep depth (line :: rest) =
      (if hides depth (classify line) then [] else [line]) ++
        keep (openAfter depth (classify line)) rest := by
  rw [keep.eq_def]
  cases hkind : classify line with
  | text => cases depth <;> simp [hkind, hides, openAfter]
  | closing found => cases depth <;> simp [hkind, hides, openAfter]
  | opening found argument closed =>
      by_cases hfound : found = Comment.tag
      · cases closed <;> simp [hkind, hides, openAfter, hfound]
      · cases depth <;> cases closed <;> simp [hkind, hides, openAfter, hfound]

theorem keep_cons_comment (h : classify line = .opening Comment.tag argument closed) (depth : Nat)
    (rest : List Text) :
    keep depth (line :: rest) = keep (if closed then depth else depth + 1) rest := by
  rw [keep_cons, h]
  cases closed <;> simp [hides, openAfter]

theorem keep_zero_cons_opening (h : classify line = .opening tag argument closed)
    (htag : tag ≠ Comment.tag) (rest : List Text) :
    keep 0 (line :: rest) = line :: keep 0 rest := by
  rw [keep_cons, h]
  cases closed <;> simp [hides, openAfter, htag]

theorem keep_zero_cons_closing (h : classify line = .closing tag) (rest : List Text) :
    keep 0 (line :: rest) = line :: keep 0 rest := by
  rw [keep_cons, h]
  simp [hides, openAfter]

theorem keep_zero_cons_text (h : classify line = .text) (rest : List Text) :
    keep 0 (line :: rest) = line :: keep 0 rest := by
  rw [keep_cons, h]
  simp [hides, openAfter]

theorem keep_succ_cons (depth : Nat) (line : Text) (rest : List Text) :
    keep (depth + 1) (line :: rest) = keep (openAfter (depth + 1) (classify line)) rest := by
  rw [keep_cons, if_pos (hides_succ depth _), List.nil_append]

theorem keep_sublist (depth : Nat) (lines : List Text) : (keep depth lines).Sublist lines := by
  induction lines generalizing depth with
  | nil => rw [keep_nil]
  | cons line rest ih =>
      rw [keep_cons]
      split
      · exact (ih _).cons line
      · exact (ih _).cons_cons line

/-- The number of open comments after some lines. -/
def openAfterLines (depth : Nat) (lines : List Text) : Nat :=
  lines.foldl (fun depth line => openAfter depth (classify line)) depth

theorem openAfterLines_cons (depth : Nat) (line : Text) (rest : List Text) :
    openAfterLines depth (line :: rest) =
      openAfterLines (openAfter depth (classify line)) rest :=
  rfl

theorem openAfterLines_append (depth : Nat) (front back : List Text) :
    openAfterLines depth (front ++ back) = openAfterLines (openAfterLines depth front) back :=
  List.foldl_append

theorem openAfter_of_none {line : Line} (h : line.delimiter? = none) (depth : Nat) :
    openAfter depth line = depth := by
  rcases Line.delimiter?_eq_none.mp h with rfl | ⟨found, argument, rfl⟩
  · rfl
  · rfl

theorem openAfter_closing (depth : Nat) (found argument : Text) :
    openAfter (openAfter depth (.opening found argument false)) (.closing found) = depth := by
  simp only [openAfter]
  split <;> rfl

theorem exists_openAfter_succ_opening (depth : Nat) (found argument : Text) :
    ∃ more, openAfter (depth + 1) (.opening found argument false) = more + 1 := by
  simp only [openAfter]
  split
  · exact ⟨_, rfl⟩
  · exact ⟨_, rfl⟩

theorem openAfterLines_of_nested (h : Nested lines) (depth : Nat) :
    openAfterLines depth lines = depth := by
  induction h generalizing depth with
  | nil => rfl
  | plain hline _ ih =>
      rw [openAfterLines_cons, openAfter_of_none hline, ih]
  | enclose hopen hclose _ _ ihInner ihAfter =>
      rw [openAfterLines_cons, openAfterLines_append, ihInner, openAfterLines_cons, hopen, hclose,
        openAfter_closing, ihAfter]

theorem keep_append (depth : Nat) (front back : List Text) :
    keep depth (front ++ back) = keep depth front ++ keep (openAfterLines depth front) back := by
  induction front generalizing depth with
  | nil =>
      rw [keep_nil]
      rfl
  | cons line rest ih =>
      rw [List.cons_append, keep_cons, keep_cons, ih, List.append_assoc]
      rfl

theorem keep_append_of_nested (h : Nested front) (depth : Nat) (back : List Text) :
    keep depth (front ++ back) = keep depth front ++ keep depth back := by
  rw [keep_append, openAfterLines_of_nested h]

theorem keep_succ_of_nested (h : Nested lines) (depth : Nat) : keep (depth + 1) lines = [] := by
  induction h generalizing depth with
  | nil => exact keep_nil _
  | plain hline _ ih => rw [keep_succ_cons, openAfter_of_none hline, ih]
  | @enclose opener closer tag argument inner after hopen hclose hinner _ ihInner ihAfter =>
      obtain ⟨more, hmore⟩ := exists_openAfter_succ_opening depth tag argument
      have hback := openAfter_closing (depth + 1) tag argument
      rw [hmore] at hback
      rw [keep_succ_cons, hopen, hmore, keep_append_of_nested hinner, ihInner, List.nil_append,
        keep_succ_cons, hclose, hback, ihAfter]

theorem keep_zero_enclose {opener closer : Text} {inner : List Text}
    (hopen : classify opener = .opening Comment.tag argument false)
    (hclose : classify closer = .closing Comment.tag) (hinner : Nested inner)
    (after : List Text) : keep 0 (opener :: (inner ++ closer :: after)) = keep 0 after := by
  rw [keep_cons_comment hopen, if_neg Bool.false_ne_true, keep_append_of_nested hinner,
    keep_succ_of_nested hinner, List.nil_append, keep_succ_cons, hclose]
  simp [openAfter]

theorem keep_zero_section {opener closer : Text} {inner : List Text}
    (hopen : classify opener = .opening tag argument false) (htag : tag ≠ Comment.tag)
    (hclose : classify closer = .closing tag) (hinner : Nested inner) (after : List Text) :
    keep 0 (opener :: (inner ++ closer :: after)) =
      opener :: (keep 0 inner ++ closer :: keep 0 after) := by
  rw [keep_zero_cons_opening hopen htag, keep_append_of_nested hinner,
    keep_zero_cons_closing hclose]

theorem nested_keep (h : Nested lines) : Nested (keep 0 lines) := by
  induction h with
  | nil => exact .nil
  | plain hline _ ih =>
      rw [keep_cons, openAfter_of_none hline]
      split
      · exact ih
      · exact .plain hline ih
  | @enclose opener closer tag argument inner after hopen hclose hinner _ ihInner ihAfter =>
      by_cases htag : tag = Comment.tag
      · subst htag
        rwa [keep_zero_enclose hopen hclose hinner]
      · rw [keep_zero_section hopen htag hclose hinner]
        exact .enclose hopen hclose ihInner ihAfter

theorem keep_keep (h : Nested lines) : keep 0 (keep 0 lines) = keep 0 lines := by
  induction h with
  | nil => rfl
  | @plain line rest hline _ ih =>
      rw [keep_cons 0 line rest, openAfter_of_none hline]
      split
      · exact ih
      · rename_i hshown
        rw [List.singleton_append, keep_cons, if_neg hshown, openAfter_of_none hline, ih]
        rfl
  | @enclose opener closer tag argument inner after hopen hclose hinner _ ihInner ihAfter =>
      by_cases htag : tag = Comment.tag
      · subst htag
        rw [keep_zero_enclose hopen hclose hinner, ihAfter]
      · rw [keep_zero_section hopen htag hclose hinner,
          keep_zero_section hopen htag hclose (nested_keep hinner), ihInner, ihAfter]

end Comment

/-- The lines lose a carriage return at their end, the last one perhaps not. -/
inductive LosesReturns : List Text → List Text → Prop
  | nil : LosesReturns [] []
  | last (line : Text) : LosesReturns [line] [line]
  | cons (line : Text) {rest rest' : List Text} :
      LosesReturns rest rest' → LosesReturns (line :: rest) (Text.dropReturn line :: rest')

namespace LosesReturns

variable {line line' : Text} {lines lines' rest front front' back : List Text}

theorem of_map (lines : List Text) : LosesReturns lines (lines.map Text.dropReturn) := by
  induction lines with
  | nil => exact .nil
  | cons line rest ih => exact .cons line ih

theorem of_dropReturns (lines : List Text) : LosesReturns lines (Text.dropReturns lines) := by
  induction lines with
  | nil => exact .nil
  | cons line rest ih =>
      cases rest with
      | nil => exact .last line
      | cons next others => exact .cons line ih

theorem map_classify (h : LosesReturns lines lines') :
    lines'.map Line.classify = lines.map Line.classify := by
  induction h with
  | nil => rfl
  | last line => rfl
  | cons line _ ih => rw [List.map_cons, List.map_cons, Line.classify_dropReturn, ih]

theorem nested (h : LosesReturns lines lines') (hnested : Nested lines) : Nested lines' := by
  have hdelimiters : delimiters lines' = delimiters lines := by
    have hkinds := congrArg (List.filterMap Line.delimiter?) h.map_classify
    rwa [List.filterMap_map, List.filterMap_map] at hkinds
  rwa [← wellNested_delimiters_iff, hdelimiters, wellNested_delimiters_iff]

theorem exists_cons (h : LosesReturns (line :: rest) lines') :
    ∃ line' rest', lines' = line' :: rest' ∧ Line.classify line' = Line.classify line ∧
      LosesReturns rest rest' := by
  cases h with
  | last => exact ⟨line, [], rfl, rfl, .nil⟩
  | cons _ hrest => exact ⟨_, _, rfl, Line.classify_dropReturn line, hrest⟩

theorem exists_append (h : LosesReturns (front ++ line :: back) lines') :
    ∃ back', lines' = front.map Text.dropReturn ++ back' ∧ LosesReturns (line :: back) back' := by
  induction front generalizing lines' with
  | nil => exact ⟨lines', rfl, h⟩
  | cons first others ih =>
      obtain ⟨rest, hrest⟩ : ∃ rest, others ++ line :: back = rest := ⟨_, rfl⟩
      rw [List.cons_append, hrest] at h
      cases h with
      | last => simp at hrest
      | cons _ htail =>
          obtain ⟨back', rfl, hback⟩ := ih (hrest ▸ htail)
          exact ⟨back', rfl, hback⟩

theorem of_concat (h : LosesReturns (front ++ [line]) (front' ++ [line'])) :
    LosesReturns front front' := by
  obtain ⟨back, hback, hline⟩ := h.exists_append
  obtain ⟨last, rest, rfl, -, hrest⟩ := hline.exists_cons
  cases hrest
  rw [(List.append_inj' hback rfl).1]
  exact of_map front

theorem eq_of_noReturns (h : LosesReturns lines lines') (hnone : Text.NoReturns lines) :
    lines' = lines := by
  induction h with
  | nil => rfl
  | last line => rfl
  | cons line _ ih =>
      rw [ih fun other hother => hnone other (List.mem_cons_of_mem line hother),
        Text.dropReturn_of_not_suffix (hnone line List.mem_cons_self)]

/-- The filter keeps the same lines with and without their carriage returns. -/
theorem keep (h : LosesReturns lines lines') (depth : Nat) :
    LosesReturns (Comment.keep depth lines) (Comment.keep depth lines') := by
  induction h generalizing depth with
  | nil =>
      rw [Comment.keep_nil]
      exact .nil
  | last line =>
      rw [Comment.keep_cons, Comment.keep_nil, List.append_nil]
      split
      · exact .nil
      · exact .last line
  | cons line _ ih =>
      rw [Comment.keep_cons, Comment.keep_cons, Line.classify_dropReturn]
      split
      · exact ih _
      · exact .cons line (ih _)

/-- Lines that lost a carriage return before are one ahead. -/
theorem map_dropReturn (h : LosesReturns lines lines') :
    LosesReturns lines' (Text.dropReturns (lines.map Text.dropReturn)) := by
  induction h with
  | nil => exact .nil
  | last line => exact .cons line .nil
  | cons line hrest ih =>
      cases hrest with
      | nil => exact .last _
      | last next => exact .cons _ ih
      | cons next _ => exact .cons _ ih

end LosesReturns

/-- The element is text or a comment. -/
inductive Item.Idle : Item → Prop
  | text (line : Nat) (content : Text) : Idle (.text line content)
  | comment {s : Section} : s.tag = Comment.tag → Idle (.block s)

/-- The sections are the same, but in the second one the body is filtered, and its lines were joined
and split once more. -/
inductive Section.Filtered : Section → Section → Prop
  | intro {number number' : Nat} (tag argument : Text) {inner : List Text} :
      Nested inner → (∀ line ∈ inner, '\n' ∉ line) →
        Filtered ⟨tag, argument, Text.unlines inner, number⟩
          ⟨tag, argument, Text.unlines ((Comment.keep 0 inner).map Text.dropReturn), number'⟩

/-- Apart from text and comments, the second elements are the first ones with filtered bodies. -/
inductive Thinned : List Item → List Item → Prop
  | nil : Thinned [] []
  | left {item : Item} {items items' : List Item} :
      item.Idle → Thinned items items' → Thinned (item :: items) items'
  | right {item : Item} {items items' : List Item} :
      item.Idle → Thinned items items' → Thinned items (item :: items')
  | both {s s' : Section} {items items' : List Item} :
      s.Filtered s' → Thinned items items' → Thinned (.block s :: items) (.block s' :: items')

theorem Thinned.of_append_text {items items' : List Item} {line : Nat} {content : Text}
    (h : Thinned items (items' ++ [.text line content])) : Thinned items items' := by
  generalize hback : items' ++ [.text line content] = back at h
  induction h generalizing items' with
  | nil => simp at hback
  | left hidle _ ih => exact .left hidle (ih hback)
  | @right item items rest hidle hrest ih =>
      rcases List.append_eq_cons_iff.mp hback with ⟨rfl, hlast⟩ | ⟨more, rfl, hmore⟩
      · obtain ⟨-, rfl⟩ := List.cons.inj hlast
        exact hrest
      · exact .right hidle (ih hmore.symm)
  | @both s s' items rest hfiltered hrest ih =>
      rcases List.append_eq_cons_iff.mp hback with ⟨rfl, hlast⟩ | ⟨more, rfl, hmore⟩
      · cases hlast
      · exact .both hfiltered (ih hmore.symm)

namespace Scan

open Comment

variable {lines : List Text}

theorem Finds.exists_thinned {items : List Item} {number : Nat} (h : Finds number lines items)
    (hnewline : ∀ line ∈ lines, '\n' ∉ line) {kept : List Text}
    (hkept : LosesReturns (keep 0 lines) kept) (number' : Nat) :
    ∃ items', Finds number' kept items' ∧ Thinned items items' := by
  induction h generalizing kept number' with
  | nil number =>
      rw [keep_nil] at hkept
      cases hkept
      exact ⟨[], .nil number', .nil⟩
  | text hkind _ ih =>
      rw [keep_zero_cons_text hkind] at hkept
      obtain ⟨line', rest', rfl, hkind', hrest⟩ := hkept.exists_cons
      obtain ⟨items', hfinds, hitems⟩ := ih (List.forall_mem_cons.mp hnewline).2 hrest (number' + 1)
      exact ⟨_, .text (hkind'.trans hkind) hfinds, .left (.text _ _) (.right (.text _ _) hitems)⟩
  | @selfClosing number line tag argument rest items hkind _ ih =>
      have hafter := (List.forall_mem_cons.mp hnewline).2
      by_cases htag : tag = Comment.tag
      · subst htag
        rw [keep_cons_comment hkind, if_pos rfl] at hkept
        obtain ⟨items', hfinds, hitems⟩ := ih hafter hkept number'
        exact ⟨items', hfinds, .left (.comment rfl) hitems⟩
      · rw [keep_zero_cons_opening hkind htag] at hkept
        obtain ⟨line', rest', rfl, hkind', hrest⟩ := hkept.exists_cons
        obtain ⟨items', hfinds, hitems⟩ := ih hafter hrest (number' + 1)
        have hfiltered : Section.Filtered ⟨tag, argument, [], number⟩ ⟨tag, argument, [], number'⟩ :=
          .intro tag argument .nil (by simp)
        exact ⟨_, .selfClosing (hkind'.trans hkind) hfinds, .both hfiltered hitems⟩
  | @enclose number opener closer tag argument inner after items hopen hclose hinner _ ih =>
      obtain ⟨hinside, hbehind⟩ := List.forall_mem_append.mp (List.forall_mem_cons.mp hnewline).2
      have hafter := (List.forall_mem_cons.mp hbehind).2
      by_cases htag : tag = Comment.tag
      · subst htag
        rw [keep_zero_enclose hopen hclose hinner] at hkept
        obtain ⟨items', hfinds, hitems⟩ := ih hafter hkept number'
        exact ⟨items', hfinds, .left (.comment rfl) hitems⟩
      · rw [keep_zero_section hopen htag hclose hinner] at hkept
        obtain ⟨opener', body', rfl, hopen', hbody⟩ := hkept.exists_cons
        obtain ⟨behind, rfl, hlast⟩ := hbody.exists_append
        obtain ⟨closer', after', rfl, hclose', hrest⟩ := hlast.exists_cons
        have hinner' : Nested ((keep 0 inner).map Text.dropReturn) :=
          (LosesReturns.of_map _).nested (nested_keep hinner)
        obtain ⟨items', hfinds, hitems⟩ := ih hafter hrest _
        exact ⟨_, .enclose (hopen'.trans hopen) (hclose'.trans hclose) hinner' hfinds,
          .both (.intro tag argument hinner hinside) hitems⟩

end Scan

theorem Nested.of_append_blank {lines : List Text} (h : Nested (lines ++ [[]])) : Nested lines := by
  rw [← wellNested_delimiters_iff] at h ⊢
  have hblank : delimiters [[]] = [] := by decide
  rwa [delimiters_append, hblank, List.append_nil] at h

namespace Scan

open Comment

theorem thinned_scan {text text' : Text} {ending : List Text} (hnested : Nested (Text.lines text))
    (hkept : LosesReturns (keep 0 (Text.lines text)) (Text.lines text' ++ ending))
    (hending : ending = [] ∨ ending = [[]]) (number number' : Nat) :
    ∃ items items', scan text number = .ok items ∧ scan text' number' = .ok items' ∧
      Thinned items items' := by
  obtain ⟨items, hfinds⟩ := exists_finds hnested number
  obtain ⟨found, hkeeps, hitems⟩ :=
    hfinds.exists_thinned (fun _ => Text.newline_not_mem_of_mem_lines) hkept number'
  have hfound := hkeeps.scanLines_eq
  rcases hending with rfl | rfl
  · rw [List.append_nil] at hfound
    exact ⟨items, found, hfinds.scanLines_eq, hfound, hitems⟩
  · have hnested' : Nested (Text.lines text') := .of_append_blank (hkept.nested (nested_keep hnested))
    obtain ⟨items', hfinds'⟩ := exists_finds hnested' number'
    have hlast : ∀ n, scanLines n [[]] = .ok [.text n []] := fun n => by
      rw [scanLines_cons_text rfl, scanLines]
      rfl
    rw [hfinds'.scanLines_append, hlast] at hfound
    cases hfound
    exact ⟨items, items', hfinds.scanLines_eq, hfinds'.scanLines_eq, hitems.of_append_text⟩

end Scan

namespace Comment

variable {inner : List Text}

theorem nested_linesOfPieces (h : Nested inner) : Nested (Text.linesOfPieces inner) := by
  obtain ⟨ending, hlines, hending⟩ := Text.exists_dropReturns_eq inner
  have hnested := (LosesReturns.of_dropReturns inner).nested h
  rw [hlines] at hnested
  rcases hending with ⟨rfl, -⟩ | ⟨rfl, -⟩
  · rwa [List.append_nil] at hnested
  · exact .of_append_blank hnested

theorem keep_zero_blank : keep 0 [[]] = [[]] :=
  keep_zero_cons_text rfl []

theorem getLast?_keep_zero (h : Nested inner) (hlast : inner.getLast? = some []) :
    (keep 0 inner).getLast? = some [] := by
  obtain ⟨front, rfl⟩ := List.getLast?_eq_some_iff.mp hlast
  rw [keep_append_of_nested h.of_append_blank, keep_zero_blank]
  exact List.getLast?_concat

/-- Joining lines and splitting them again before the filter or after it makes a difference where
the lines that are kept end in a blank line and the others do not. -/
theorem exists_keep_linesOfPieces (h : Nested inner) :
    ∃ ending, LosesReturns (keep 0 (Text.linesOfPieces inner))
        (Text.linesOfPieces ((keep 0 inner).map Text.dropReturn) ++ ending) ∧
      (ending = [] ∨ ending = [[]] ∧ inner.getLast? ≠ some []) := by
  obtain ⟨ending, hlines, hending⟩ := Text.exists_dropReturns_eq inner
  obtain ⟨ending', hlines', hending'⟩ :=
    Text.exists_dropReturns_eq ((keep 0 inner).map Text.dropReturn)
  have hloses := ((LosesReturns.of_dropReturns inner).keep 0).map_dropReturn
  rw [hlines, hlines', keep_append_of_nested (nested_linesOfPieces h)] at hloses
  rcases hending with ⟨rfl, hlast⟩ | ⟨rfl, hlast⟩
  · rw [keep_nil, List.append_nil] at hloses
    exact ⟨ending', hloses, hending'.imp And.left fun hblank => ⟨hblank.1, hlast⟩⟩
  · rw [keep_zero_blank] at hloses
    rcases hending' with ⟨-, hlast'⟩ | ⟨rfl, -⟩
    · rw [List.getLast?_map, getLast?_keep_zero h hlast] at hlast'
      exact absurd rfl hlast'
    · exact ⟨[], by simpa using hloses.of_concat, .inl rfl⟩

end Comment

namespace Section

open Comment

/-- No comment stands in the body. -/
def HasNoComment (s : Section) : Prop :=
  keep 0 (s.body.splitOn '\n') = s.body.splitOn '\n'

/-- No line of the body ends with a carriage return. -/
def HasNoReturn (s : Section) : Prop :=
  Text.NoReturns (s.body.splitOn '\n')

/-- Only comments follow the last line of the body that is kept, and this line is blank and not the
only one. -/
def EndsInBareBlank (s : Section) : Prop :=
  (keep 0 (Text.lines s.body)).getLast? = some [] ∧ keep 0 (Text.lines s.body) ≠ [[]] ∧
    (s.body.splitOn '\n').getLast? ≠ some []

instance (s : Section) : Decidable s.HasNoComment :=
  inferInstanceAs (Decidable (_ = _))

instance (s : Section) : Decidable s.HasNoReturn :=
  inferInstanceAs (Decidable (Text.NoReturns _))

instance (s : Section) : Decidable s.EndsInBareBlank :=
  inferInstanceAs (Decidable (_ ∧ _))

variable {s s' : Section}

theorem Filtered.tag_eq (h : s.Filtered s') : s'.tag = s.tag := by
  cases h
  rfl

theorem Filtered.argument_eq (h : s.Filtered s') : s'.argument = s.argument := by
  cases h
  rfl

theorem Filtered.body_eq (h : s.Filtered s') (hnone : s.HasNoComment) (hreturn : s.HasNoReturn) :
    s'.body = s.body := by
  obtain ⟨tag, argument, hnested, hnewline⟩ := h
  rename_i inner
  by_cases hinner : inner = []
  · subst hinner
    rfl
  · have hsplit := Text.splitOn_unlines hinner hnewline
    rw [HasNoComment, hsplit] at hnone
    rw [HasNoReturn, hsplit] at hreturn
    show Text.unlines ((keep 0 inner).map Text.dropReturn) = Text.unlines inner
    rw [hnone, hreturn.map_dropReturn]

theorem Filtered.exists_losesReturns (h : s.Filtered s') :
    ∃ ending, Nested (Text.lines s.body) ∧
      LosesReturns (keep 0 (Text.lines s.body)) (Text.lines s'.body ++ ending) ∧
        (ending = [] ∨ ending = [[]] ∧
          (Text.lines s.body ≠ [] → (s.body.splitOn '\n').getLast? ≠ some [])) := by
  obtain ⟨tag, argument, hnested, hnewline⟩ := h
  rename_i inner
  have hnewline' : ∀ line ∈ (keep 0 inner).map Text.dropReturn, '\n' ∉ line := by
    intro line hline
    obtain ⟨kept, hkept, rfl⟩ := List.mem_map.mp hline
    exact fun hmem => hnewline kept ((keep_sublist 0 inner).subset hkept)
      (Text.mem_of_mem_dropReturn hmem)
  obtain ⟨ending, hloses, hending⟩ := exists_keep_linesOfPieces hnested
  rw [← Text.lines_unlines hnewline, ← Text.lines_unlines hnewline'] at hloses
  refine ⟨ending, ?_, hloses, hending.imp_right fun hblank => ⟨hblank.1, fun hne => ?_⟩⟩
  · rw [Text.lines_unlines hnewline]
    exact nested_linesOfPieces hnested
  · have hinner : inner ≠ [] := by
      rintro rfl
      exact hne rfl
    rw [Text.splitOn_unlines hinner hnewline]
    exact hblank.2

theorem Filtered.thinned_scan (h : s.Filtered s') (number number' : Nat) :
    ∃ items items', scan s.body number = .ok items ∧ scan s'.body number' = .ok items' ∧
      Thinned items items' := by
  obtain ⟨ending, hnested, hloses, hending⟩ := h.exists_losesReturns
  exact Scan.thinned_scan hnested hloses (hending.imp_right And.left) number number'

theorem Filtered.stripComments_eq (h : s.Filtered s') (hblank : ¬ s.EndsInBareBlank)
    (hreturns : Text.NoReturns (keep 0 (Text.lines s.body))) :
    stripComments s'.body = stripComments s.body := by
  obtain ⟨ending, hnested, hloses, hending⟩ := h.exists_losesReturns
  have hkept := hloses.eq_of_noReturns hreturns
  have hagain := keep_keep hnested
  rw [← hkept] at hagain
  simp only [stripComments]
  rcases hending with rfl | ⟨rfl, hlast⟩
  · rw [List.append_nil] at hkept hagain
    rw [hagain, hkept]
  · have hnested' : Nested (Text.lines s'.body) := by
      refine .of_append_blank ?_
      rw [hkept]
      exact nested_keep hnested
    rw [keep_append_of_nested hnested', keep_zero_blank] at hagain
    have hone : keep 0 (Text.lines s.body) = [[]] := by
      by_contra hmore
      refine hblank ⟨?_, hmore, hlast fun hnil => ?_⟩
      · rw [← hkept, List.getLast?_concat]
      · rw [hnil, keep_nil] at hkept
        simp at hkept
    rw [List.append_cancel_right hagain, hone]
    rw [hone] at hkept
    rw [(List.append_inj' (hkept.trans (List.nil_append _).symm) rfl).1]
    rfl

end Section

end TemplateSuite
