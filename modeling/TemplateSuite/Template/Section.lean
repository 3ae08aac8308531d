import TemplateSuite.Template.Nesting

/-!
Top-level sections. `scan` cuts a text into the lines outside all sections and the sections
themselves, whose bodies are kept as text: a section ends at the first later line that closes its
tag, once the sections of the same tag in between are skipped.
-/

namespace TemplateSuite

/-- A section: its tag, what follows the tag on the opening line, and the lines up to its close. -/
structure Section where
  tag : Text
  argument : Text
  /-- The lines between the opening and the closing line, joined by newlines. -/
  body : Text
  /-- The number of the opening line. -/
  line : Nat
  deriving DecidableEq, Repr, Inhabited

namespace Section

/-- The number of the first body line. -/
def bodyLine (s : Section) : Nat :=
  s.line + 1

end Section

/-- One top-level element of a text. -/
inductive Item where
  /-- A line outside any section. -/
  | text (line : Nat) (content : Text)
  /-- A whole section. -/
  | block (content : Section)
  deriving DecidableEq, Repr, Inhabited

/-- How a line changes the number of open sections with the given tag: `some true` opens one, `some
false` closes one. -/
def Line.delimits? (tag : Text) : Line → Option Bool
  | .opening inner _ false => if inner = tag then some true else none
  | .closing inner => if inner = tag then some false else none
  | _ => none

/-- Split the lines after an opening line at the line that closes its tag, while `depth` inner
sections of the same tag are open. -/
def splitAtClose? (tag : Text) : (depth : Nat) → List Text → Option (List Text × List Text)
  | _, [] => none
  | depth, line :: rest =>
    match (Line.classify line).delimits? tag, depth with
    | some false, 0 => some ([], rest)
    | some false, outer + 1 =>
      (splitAtClose? tag outer rest).map fun (body, after) => (line :: body, after)
    | some true, _ =>
      (splitAtClose? tag (depth + 1) rest).map fun (body, after) => (line :: body, after)
    | none, _ => (splitAtClose? tag depth rest).map fun (body, after) => (line :: body, after)

theorem eq_append_of_splitAtClose? {tag : Text} {depth : Nat} {lines body after : List Text}
    (h : splitAtClose? tag depth lines = some (body, after)) :
    ∃ close, lines = body ++ close :: after ∧ Line.classify close = .closing tag := by
  induction lines generalizing depth body after with
  | nil => simp [splitAtClose?] at h
  | cons line rest ih =>
    have step : ∀ {d}, (splitAtClose? tag d rest).map
        (fun p => (line :: p.1, p.2)) = some (body, after) →
        ∃ close, line :: rest = body ++ close :: after ∧ Line.classify close = .closing tag := by
      intro d hd
      obtain ⟨⟨inner, after'⟩, hfound, hpair⟩ := Option.map_eq_some_iff.1 hd
      obtain ⟨rfl, rfl⟩ := Prod.mk.inj hpair
      obtain ⟨close, hrest, hclose⟩ := ih hfound
      exact ⟨close, by simp [hrest], hclose⟩
    unfold splitAtClose? at h
    split at h
    · rename_i hline
      obtain ⟨rfl, rfl⟩ := Prod.mk.inj (Option.some.inj h)
      refine ⟨line, rfl, ?_⟩
      unfold Line.delimits? at hline
      split at hline <;> simp_all
    · exact step h
    · exact step h
    · exact step h

theorem length_lt_of_splitAtClose? {tag : Text} {depth : Nat} {lines body after : List Text}
    (h : splitAtClose? tag depth lines = some (body, after)) : after.length < lines.length := by
  obtain ⟨close, rfl, -⟩ := eq_append_of_splitAtClose? h
  simp
  omega

/-- The top-level elements of the given lines, the first of which has the given number. -/
def scanLines (number : Nat) (lines : List Text) : Except NestingError (List Item) :=
  match lines with
  | [] => .ok []
  | line :: rest =>
    match Line.classify line with
    | .opening tag argument true => do
      let items ← scanLines (number + 1) rest
      return .block ⟨tag, argument, [], number⟩ :: items
    | .opening tag argument false =>
      match h : splitAtClose? tag 0 rest with
      | none => .error (.unterminated [⟨tag, number⟩])
      | some (body, after) => do
        let items ← scanLines (number + body.length + 2) after
        return .block ⟨tag, argument, Text.unlines body, number⟩ :: items
    | _ => do
      let items ← scanLines (number + 1) rest
      return .text number line :: items
termination_by lines.length
decreasing_by
  · simp
  · have := length_lt_of_splitAtClose? h
    simp only [List.length_cons]
    omega
  · simp

/-- The top-level elements of a text whose first line has the given number. -/
def scan (text : Text) (firstLine : Nat) : Except NestingError (List Item) :=
  scanLines firstLine (Text.lines text)

theorem exists_of_cons_eq_ok {found : Except NestingError (List Item)} {item : Item}
    {items : List Item} (h : (do let rest ← found; return item :: rest) = Except.ok items) :
    ∃ rest, found = .ok rest ∧ items = item :: rest := by
  cases found with
  | error e => cases h
  | ok rest => exact ⟨rest, rfl, (Except.ok.inj h).symm⟩

theorem length_body_lt_weight {number : Nat} {lines : List Text} {items : List Item}
    {content : Section} (hscan : scanLines number lines = .ok items)
    (hmem : Item.block content ∈ items) : content.body.length + 1 < Text.weight lines := by
  fun_induction scanLines number lines generalizing items with
  | case1 =>
    cases hscan
    cases hmem
  | case2 number line rest tag argument hline ih =>
    obtain ⟨found, hrest, rfl⟩ := exists_of_cons_eq_ok hscan
    have hpos :=
      Line.length_pos_of_classify_ne_text (show Line.classify line ≠ .text by simp [hline])
    rw [Text.weight]
    rcases List.mem_cons.1 hmem with heq | htail
    · cases heq
      simp only [List.length_nil]
      omega
    · have := ih hrest htail
      omega
  | case3 => cases hscan
  | case4 number line rest tag argument hline body after hsplit ih =>
    obtain ⟨found, hrest, rfl⟩ := exists_of_cons_eq_ok hscan
    have hpos :=
      Line.length_pos_of_classify_ne_text (show Line.classify line ≠ .text by simp [hline])
    obtain ⟨close, rfl, -⟩ := eq_append_of_splitAtClose? hsplit
    rw [Text.weight, Text.weight_append, Text.weight]
    rcases List.mem_cons.1 hmem with heq | htail
    · cases heq
      have := Text.length_unlines_le body
      simp only
      omega
    · have := ih hrest htail
      omega
  | case5 number line rest _ _ ih =>
    obtain ⟨found, hrest, rfl⟩ := exists_of_cons_eq_ok hscan
    rw [Text.weight]
    rcases List.mem_cons.1 hmem with heq | htail
    · cases heq
    · have := ih hrest htail
      omega

theorem length_body_lt_of_mem_scan {text : Text} {firstLine : Nat} {items : List Item}
    {content : Section} (hscan : scan text firstLine = .ok items)
    (hmem : Item.block content ∈ items) : content.body.length < text.length := by
  have := length_body_lt_weight hscan hmem
  have := Text.weight_lines_le text
  omega

/-- Induction over texts and the bodies of the sections that are found in them. -/
@[elab_as_elim]
theorem scan_induction {motive : Text → Nat → Prop}
    (step : ∀ text firstLine, (∀ {items : List Item} {s : Section},
      scan text firstLine = .ok items → .block s ∈ items → motive s.body s.bodyLine) →
        motive text firstLine) (text : Text) (firstLine : Nat) : motive text firstLine := by
  induction hlength : text.length using Nat.strongRecOn generalizing text firstLine with
  | _ n ih =>
    refine step text firstLine fun hscan hmem => ?_
    exact ih _ (hlength ▸ length_body_lt_of_mem_scan hscan hmem) _ _ rfl

/-- Induction over sections and the sections that are found in their bodies. -/
@[elab_as_elim]
theorem Section.induction {motive : Section → Prop}
    (step : ∀ s, (∀ {items : List Item} {inner : Section},
      scan s.body s.bodyLine = .ok items → .block inner ∈ items → motive inner) → motive s)
    (s : Section) : motive s := by
  induction hlength : s.body.length using Nat.strongRecOn generalizing s with
  | _ n ih =>
    refine step s fun hscan hmem => ?_
    exact ih _ (hlength ▸ length_body_lt_of_mem_scan hscan hmem) _ rfl

end TemplateSuite
