import Mathlib.Data.List.Forall2
import TemplateSuite.Document.Json.Writer
import TemplateSuite.Proofs.Document.Json.Grammar
import TemplateSuite.Proofs.Text.Decimal

namespace TemplateSuite.Json

variable {α : Type} {spells : α → Text → Prop} {parts : List α} {pieces : List Text}
  {blanks ending piece : Text} {c letter : Char} {value : Value} {items : List Value}
  {members : List (Text × Value)}

theorem isNumber_decimal (n : Nat) : IsNumber (Text.decimal n) := by
  have hwhole : IsWhole (Text.decimal n) := by
    refine ⟨⟨Text.decimal_ne_nil n, fun c => Text.isDigit_ascii_of_mem_decimal⟩, fun hzero => ?_⟩
    cases Text.eq_zero_of_head?_decimal hzero
    rfl
  simpa using IsNumber.parts (.inl rfl) hwhole .absent .absent

theorem mem_shortEscapes (h : shortEscapeOf? c = some letter) : (letter, c) ∈ shortEscapes := by
  unfold shortEscapeOf? at h
  split at h <;> cases h <;> decide

theorem isCode_writeChar (h : c.toNat < 0x20) :
    IsCode ['0', '0', Nat.digitChar (c.toNat / 16), Nat.digitChar (c.toNat % 16)] c.toNat := by
  have hcode : ∀ n < 0x20,
      IsCode ['0', '0', Nat.digitChar (n / 16), Nat.digitChar (n % 16)] n := by
    unfold IsCode
    decide
  exact hcode _ h

theorem spellsChar_writeChar (c : Char) : SpellsChar c (writeChar c) := by
  unfold writeChar
  split
  · rename_i letter hletter
    exact .short (mem_shortEscapes hletter)
  · rename_i hnone
    split
    · rename_i hcontrol
      exact .code (isCode_writeChar hcontrol)
    · rename_i hplain
      refine .plain (Nat.le_of_not_lt hplain) ?_ ?_ <;> rintro rfl <;> cases hnone

theorem spellsChars_flatMap (text : Text) : SpellsChars text (text.flatMap writeChar) := by
  induction text with
  | nil => exact .nil
  | cons c rest ih => exact .cons (spellsChar_writeChar c) ih

theorem spellsText_writeText (text : Text) : SpellsText text (writeText text) :=
  .quoted (spellsChars_flatMap text)

theorem areBlank_nil : AreBlank [] :=
  List.forall_mem_nil _

theorem areBlank_newline (depth : Nat) : AreBlank (newline depth) := by
  intro c hc
  rcases List.mem_cons.mp hc with rfl | hspace
  · rfl
  · rw [List.eq_of_mem_replicate hspace]
    rfl

theorem separated_intercalate (hblanks : AreBlank blanks) (hending : AreBlank ending)
    (hpieces : pieces ≠ []) (h : List.Forall₂ spells parts pieces) :
    Separated spells parts (blanks ++ (',' :: blanks).intercalate pieces ++ ending) := by
  induction h with
  | nil => exact absurd rfl hpieces
  | cons hpiece hrest ih =>
      cases hrest with
      | nil =>
          rw [List.intercalate_singleton]
          exact .last hblanks hpiece hending
      | cons hnext hothers =>
          have hmore := ih (List.cons_ne_nil _ _)
          rw [List.intercalate_cons_cons]
          simpa using Separated.cons hblanks hpiece areBlank_nil hmore

theorem separated_line (h : List.Forall₂ spells parts pieces) :
    Separated spells parts ([','].intercalate pieces) := by
  cases h with
  | nil => exact .nil areBlank_nil
  | cons hpiece hrest =>
      simpa using separated_intercalate areBlank_nil areBlank_nil (List.cons_ne_nil _ _)
        (.cons hpiece hrest)

theorem exists_separated_spread (opening closing : Char) (depth : Nat)
    (h : List.Forall₂ spells parts pieces) :
    ∃ inner, Separated spells parts inner ∧
      spread opening closing depth pieces = opening :: inner ++ [closing] := by
  unfold spread
  split
  · rename_i hnil
    cases hnil
    cases h
    exact ⟨[], .nil areBlank_nil, rfl⟩
  · rename_i hpieces
    exact ⟨_, separated_intercalate (areBlank_newline (depth + 1)) (areBlank_newline depth) hpieces h,
      by simp⟩

theorem forall₂_map {write : α → Text} (h : ∀ a ∈ parts, spells a (write a)) :
    List.Forall₂ spells parts (parts.map write) :=
  List.forall₂_map_right_iff.mpr (List.forall₂_same.mpr h)

theorem writeItems_eq (items : List Value) : writeItems items = items.map write := by
  induction items with
  | nil => rfl
  | cons item rest ih => rw [writeItems, ih, List.map_cons]

theorem writeMembers_eq (members : List (Text × Value)) :
    writeMembers members = members.map fun member => writeText member.1 ++ ':' :: write member.2 := by
  induction members with
  | nil => rfl
  | cons member rest ih => rw [writeMembers, ih, List.map_cons]

theorem prettyItems_eq (depth : Nat) (items : List Value) :
    prettyItems depth items = items.map (writePretty depth) := by
  induction items with
  | nil => rfl
  | cons item rest ih => rw [prettyItems, ih, List.map_cons]

theorem prettyMembers_eq (depth : Nat) (members : List (Text × Value)) :
    prettyMembers depth members =
      members.map fun member => writeText member.1 ++ ':' :: ' ' :: writePretty depth member.2 := by
  induction members with
  | nil => rfl
  | cons member rest ih => rw [prettyMembers, ih, List.map_cons]

theorem spellsMember_writeText {member : Text × Value} (hblanks : AreBlank blanks)
    (h : Spells member.2 piece) :
    SpellsMember Spells member (writeText member.1 ++ ':' :: (blanks ++ piece)) := by
  simpa using SpellsMember.named (spellsText_writeText member.1) areBlank_nil hblanks h

theorem spells_write_list (h : ∀ item ∈ items, Spells item (write item)) :
    Spells (.list items) (write (.list items)) := by
  rw [write, writeItems_eq]
  exact .list (separated_line (forall₂_map h))

theorem spells_write_record (h : ∀ member ∈ members, Spells member.2 (write member.2)) :
    Spells (.record members) (write (.record members)) := by
  rw [write, writeMembers_eq]
  exact .record (separated_line (forall₂_map fun member hmember =>
    spellsMember_writeText areBlank_nil (h member hmember)))

theorem Spells.bool (b : Bool) : Spells (.bool b) (writeScalar (.bool b)) := by
  cases b with
  | false => exact .false
  | true => exact .true

theorem spells_write (h : value.HasSpelling) : Spells value (write value) := by
  refine h.induct .null .bool (fun _ => .number) (fun text => .string (spellsText_writeText text))
    ?list ?record
  case list => exact fun items ih => spells_write_list ih
  case record => exact fun members ih => spells_write_record ih

theorem spells_writePretty (h : value.HasSpelling) :
    ∀ depth, Spells value (writePretty depth value) := by
  refine h.induct (fun _ => .null) (fun b _ => .bool b) (fun _ hdigits _ => .number hdigits)
    (fun text _ => .string (spellsText_writeText text)) ?list ?record
  case list =>
    intro items ih depth
    have hitems : ∀ item ∈ items, Spells item (writePretty (depth + 1) item) :=
      fun item hitem => ih item hitem (depth + 1)
    obtain ⟨inner, hinner, htext⟩ := exists_separated_spread '[' ']' depth (forall₂_map hitems)
    rw [writePretty, prettyItems_eq, htext]
    exact .list hinner
  case record =>
    intro members ih depth
    have hspace : AreBlank [' '] := List.forall_mem_singleton.mpr rfl
    have hmembers : ∀ member ∈ members, SpellsMember Spells member
        (writeText member.1 ++ ':' :: ' ' :: writePretty (depth + 1) member.2) :=
      fun member hmember => spellsMember_writeText hspace (ih member hmember (depth + 1))
    obtain ⟨inner, hinner, htext⟩ := exists_separated_spread '{' '}' depth (forall₂_map hmembers)
    rw [writePretty, prettyMembers_eq]
    exact htext ▸ .record hinner

end TemplateSuite.Json

namespace TemplateSuite.Value

theorem hasSpelling_null : null.HasSpelling :=
  ⟨_, .null⟩

theorem hasSpelling_bool (b : Bool) : (bool b).HasSpelling :=
  ⟨_, .bool b⟩

theorem hasSpelling_ofNat (n : Nat) : (ofNat n).HasSpelling :=
  ⟨_, .number (Json.isNumber_decimal n)⟩

theorem hasSpelling_string (text : Text) : (string text).HasSpelling :=
  ⟨_, .string (Json.spellsText_writeText text)⟩

theorem hasSpelling_ofOption {α : Type} {encode : α → Value} (h : ∀ a, (encode a).HasSpelling)
    (a? : Option α) : (ofOption encode a?).HasSpelling := by
  cases a? with
  | none => exact hasSpelling_null
  | some a => exact h a

theorem hasSpelling_list {items : List Value} (h : ∀ item ∈ items, item.HasSpelling) :
    (list items).HasSpelling :=
  ⟨_, Json.spells_write_list fun item hitem => Json.spells_write (h item hitem)⟩

theorem hasSpelling_ofTexts (texts : List Text) : (ofTexts texts).HasSpelling :=
  hasSpelling_list (List.forall_mem_map.mpr fun text _ => hasSpelling_string text)

theorem hasSpelling_record {members : List (Text × Value)}
    (h : ∀ member ∈ members, member.2.HasSpelling) : (record members).HasSpelling :=
  ⟨_, Json.spells_write_record fun member hmember => Json.spells_write (h member hmember)⟩

end TemplateSuite.Value
