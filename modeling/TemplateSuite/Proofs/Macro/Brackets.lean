import Mathlib.Data.List.Forall2
import Mathlib.Data.List.Infix
import TemplateSuite.Macro.Argument
import TemplateSuite.Proofs.Text.Blank

namespace TemplateSuite

namespace Argument

/-- With `depth` brackets open before it, the text closes these and its own, and never one that is
not open. -/
structure ClosesFrom (depth : Nat) (text : Text) : Prop where
  stays : ∀ front, front <+: text → front.count ']' ≤ depth + front.count '['
  ends : text.count ']' = depth + text.count '['

/-- The brackets of the text are properly nested. -/
def IsNested (text : Text) : Prop :=
  ClosesFrom 0 text

/-- The number of commas outside all brackets, `depth` of which are open before the text. -/
def outerCommas (depth : Nat) (text : Text) : Nat :=
  (List.range text.length).countP fun i =>
    text[i]? = some ',' ∧ (text.take i).count ']' = depth + (text.take i).count '['

/-- If the piece begins with an opening and ends with a closing bracket, these belong together. -/
def OuterMatch (piece : Text) : Prop :=
  ∀ inner, Text.trim piece = '[' :: (inner ++ [']']) → IsNested inner

/-- What becomes of a piece without quotes: it is trimmed, and loses the brackets that it begins and
ends with. -/
inductive Unwraps (piece : Text) : Text → Prop
  | bare : (∀ inner, Text.trim piece ≠ '[' :: (inner ++ [']'])) → Unwraps piece (Text.trim piece)
  | bracketed {inner : Text} :
      Text.trim piece = '[' :: (inner ++ [']']) → Unwraps piece (Text.trim inner)

instance (depth : Nat) (text : Text) : Decidable (ClosesFrom depth text) :=
  decidable_of_iff
    ((∀ front ∈ text.inits, front.count ']' ≤ depth + front.count '[') ∧
      text.count ']' = depth + text.count '[')
    ⟨fun h => ⟨fun front hfront => h.1 front ((List.mem_inits front text).mpr hfront), h.2⟩,
      fun h => ⟨fun front hfront => h.stays front ((List.mem_inits front text).mp hfront), h.ends⟩⟩

instance (text : Text) : Decidable (IsNested text) :=
  inferInstanceAs (Decidable (ClosesFrom 0 text))

variable {depth : Nat} {c : Char} {rest text front : Text}

/-- The character takes the search from `depth` open brackets to `next`. -/
structure Leads (c : Char) (depth next : Nat) : Prop where
  position : Position.next ⟨false, depth⟩ c = ⟨false, next⟩
  count : next + [c].count ']' = depth + [c].count '['

theorem closesFrom_nil_iff : ClosesFrom depth [] ↔ depth = 0 := by
  constructor
  · intro h
    simpa [eq_comm] using h.ends
  · rintro rfl
    exact ⟨fun front hfront => by simp [List.prefix_nil.mp hfront], rfl⟩

theorem count_cons_eq (b c : Char) (front : Text) :
    (c :: front).count b = [c].count b + front.count b := by
  rw [← List.count_append, List.singleton_append]

namespace Leads

variable {next : Nat}

theorem closesFrom_cons_iff (h : Leads c depth next) :
    ClosesFrom depth (c :: rest) ↔ ClosesFrom next rest := by
  have hcount := h.count
  constructor
  · intro hcloses
    refine ⟨fun front hfront => ?_, ?_⟩
    · have hstays := hcloses.stays (c :: front) ((List.prefix_cons_inj c).mpr hfront)
      rw [count_cons_eq ']' c front, count_cons_eq '[' c front] at hstays
      omega
    · have hends := hcloses.ends
      rw [count_cons_eq ']' c rest, count_cons_eq '[' c rest] at hends
      omega
  · intro hcloses
    refine ⟨fun front hfront => ?_, ?_⟩
    · rcases List.prefix_cons_iff.mp hfront with rfl | ⟨front', rfl, hfront'⟩
      · simp
      · have hstays := hcloses.stays front' hfront'
        rw [count_cons_eq ']' c front', count_cons_eq '[' c front']
        omega
    · have hends := hcloses.ends
      rw [count_cons_eq ']' c rest, count_cons_eq '[' c rest]
      omega

theorem outerCommas_cons (h : Leads c depth next) (rest : Text) :
    outerCommas depth (c :: rest) =
      (if c = ',' ∧ depth = 0 then 1 else 0) + outerCommas next rest := by
  have hcount := h.count
  have hlater : ∀ i, (((c :: rest)[i + 1]? = some ',' ∧
      ((c :: rest).take (i + 1)).count ']' = depth + ((c :: rest).take (i + 1)).count '[') ↔
        (rest[i]? = some ',' ∧ (rest.take i).count ']' = next + (rest.take i).count '[')) := by
    intro i
    rw [List.getElem?_cons_succ, List.take_succ_cons, count_cons_eq ']' c (rest.take i),
      count_cons_eq '[' c (rest.take i)]
    refine and_congr_right fun _ => ?_
    omega
  rw [outerCommas, List.length_cons, List.range_succ_eq_map, List.countP_cons, List.countP_map,
    Nat.add_comm]
  congr 1
  · simp [@eq_comm _ 0 depth]
  · simp only [Function.comp_def, Nat.succ_eq_add_one, hlater]
    rfl

end Leads

theorem leads_of_ne (hquote : c ≠ '"') (hopen : c ≠ '[') (hclose : c ≠ ']') :
    Leads c depth depth :=
  ⟨by simp [Position.next, hquote, hopen, hclose], by simp [hopen, hclose]⟩

theorem leads_of_isBlank (h : Text.isBlank c) : Leads c depth depth := by
  refine leads_of_ne ?_ ?_ ?_ <;>
  · rintro rfl
    cases h

theorem exists_leads (hquote : c ≠ '"') (h : ClosesFrom depth (c :: rest)) :
    ∃ next, Leads c depth next := by
  by_cases hopen : c = '['
  · subst hopen
    exact ⟨depth + 1, rfl, rfl⟩
  · by_cases hclose : c = ']'
    · subst hclose
      have hone := h.stays [']'] (by simp)
      obtain ⟨outer, rfl⟩ := Nat.exists_eq_add_of_le' (show 1 ≤ depth by simpa using hone)
      exact ⟨outer, rfl, rfl⟩
    · exact ⟨depth, leads_of_ne hquote hopen hclose⟩

theorem closesFrom_blank_append {blanks : Text} (h : ∀ c ∈ blanks, Text.isBlank c) :
    ClosesFrom depth (blanks ++ text) ↔ ClosesFrom depth text := by
  induction blanks with
  | nil => rfl
  | cons c blanks ih =>
      obtain ⟨hc, hblanks⟩ := List.forall_mem_cons.mp h
      rw [List.cons_append, (leads_of_isBlank hc).closesFrom_cons_iff, ih hblanks]

theorem closesFrom_append_blank {blanks : Text} (h : ∀ c ∈ blanks, Text.isBlank c) :
    ClosesFrom depth (text ++ blanks) ↔ ClosesFrom depth text := by
  have hnone : ∀ b, Text.isBlank b = false → ∀ front, front <+: blanks → front.count b = 0 :=
    fun b hb front hfront => List.count_eq_zero.mpr fun hmem =>
      Bool.false_ne_true (hb.symm.trans (h b (hfront.subset hmem)))
  constructor
  · intro hcloses
    refine ⟨fun front hfront => hcloses.stays front (hfront.trans (List.prefix_append _ _)), ?_⟩
    have hends := hcloses.ends
    rwa [List.count_append, List.count_append, hnone ']' rfl _ (List.prefix_refl _),
      hnone '[' rfl _ (List.prefix_refl _)] at hends
  · intro hcloses
    refine ⟨fun front hfront => ?_, ?_⟩
    · rcases List.prefix_or_prefix_of_prefix hfront (List.prefix_append text blanks) with
        hfront | ⟨more, rfl⟩
      · exact hcloses.stays front hfront
      · have hmore : more <+: blanks := (List.prefix_append_right_inj text).mp hfront
        rw [List.count_append, List.count_append, hnone ']' rfl _ hmore, hnone '[' rfl _ hmore]
        exact hcloses.ends.le
    · rw [List.count_append, List.count_append, hnone ']' rfl _ (List.prefix_refl _),
        hnone '[' rfl _ (List.prefix_refl _)]
      exact hcloses.ends

theorem isNested_trim_iff : IsNested (Text.trim text) ↔ IsNested text := by
  have hleft : text.takeWhile Text.isBlank ++ Text.trimLeft text = text :=
    List.takeWhile_append_dropWhile
  obtain ⟨blanks, hblanks, hright⟩ := Text.eq_trimRight_append (Text.trimLeft text)
  calc IsNested (Text.trim text)
      ↔ IsNested (Text.trimRight (Text.trimLeft text) ++ blanks) :=
        (closesFrom_append_blank hblanks).symm
    _ ↔ IsNested (text.takeWhile Text.isBlank ++ Text.trimLeft text) := by
        rw [← hright]
        exact (closesFrom_blank_append fun c hc => List.mem_takeWhile_imp hc).symm
    _ ↔ IsNested text := by rw [hleft]

example : IsNested (Text.trim " [a, [b]] [c] ") ∧ ¬ IsNested (Text.trim " a] [c ") := by decide

theorem exists_cut_eq_cons (p : Position) (text : Text) :
    ∃ first others, cut p text = first :: others := by
  cases text with
  | nil => exact ⟨[], [], rfl⟩
  | cons c rest =>
      rw [cut]
      split
      · exact ⟨_, _, rfl⟩
      · cases cut (p.next c) rest <;> exact ⟨_, _, rfl⟩

theorem intercalate_cut (p : Position) (text : Text) : [','].intercalate (cut p text) = text := by
  induction text generalizing p with
  | nil => rfl
  | cons c rest ih =>
      rw [cut]
      split
      · rename_i hcomma
        obtain ⟨first, others, hcut⟩ := exists_cut_eq_cons p rest
        have hrest := ih p
        rw [hcut] at hrest ⊢
        rw [List.intercalate_cons_cons, hrest]
        simp at hcomma
        simp [hcomma]
      · obtain ⟨first, others, hcut⟩ := exists_cut_eq_cons (p.next c) rest
        have hrest := ih (p.next c)
        rw [hcut] at hrest ⊢
        rw [← hrest, addToFirst]
        cases others <;> simp [List.intercalate]

theorem mem_intercalate {sep piece : Text} {pieces : List Text} (hpiece : piece ∈ pieces)
    (hc : c ∈ piece) : c ∈ sep.intercalate pieces := by
  induction pieces with
  | nil => cases hpiece
  | cons first others ih =>
      cases others with
      | nil => simpa [List.mem_singleton.mp hpiece] using hc
      | cons next rest =>
          rw [List.intercalate_cons_cons, List.append_assoc, List.mem_append, List.mem_append]
          rcases List.mem_cons.mp hpiece with rfl | hmem
          · exact .inl hc
          · exact .inr (.inr (ih hmem))

/-- What cutting gives while `depth` brackets are open: the first piece closes them. -/
structure Pieces (depth : Nat) (text first : Text) (others : List Text) : Prop where
  cut_eq : cut ⟨false, depth⟩ text = first :: others
  first_closes : ClosesFrom depth first
  first_commas : outerCommas depth first = 0
  others_nested : ∀ piece ∈ others, IsNested piece ∧ outerCommas 0 piece = 0
  length_others : others.length = outerCommas depth text

theorem exists_pieces (hquote : '"' ∉ text) (h : ClosesFrom depth text) :
    ∃ first others, Pieces depth text first others := by
  induction text generalizing depth with
  | nil =>
      obtain rfl := closesFrom_nil_iff.mp h
      exact ⟨[], [], rfl, h, rfl, nofun, rfl⟩
  | cons c rest ih =>
      rw [List.mem_cons, not_or] at hquote
      obtain ⟨next, hleads⟩ := exists_leads (Ne.symm hquote.1) h
      obtain ⟨first, others, hrest⟩ := ih hquote.2 (hleads.closesFrom_cons_iff.mp h)
      -- only a comma outside all brackets ends the first piece; any other character belongs to it
      by_cases hcomma : c = ',' ∧ depth = 0
      · obtain ⟨rfl, rfl⟩ := hcomma
        obtain rfl : next = 0 := by simpa using hleads.count
        refine ⟨[], first :: others, ?_, closesFrom_nil_iff.mpr rfl, rfl,
          List.forall_mem_cons.mpr ⟨⟨hrest.first_closes, hrest.first_commas⟩, hrest.others_nested⟩,
          ?_⟩
        · rw [cut, if_pos (by decide), hrest.cut_eq]
        · rw [hleads.outerCommas_cons, if_pos ⟨rfl, rfl⟩, List.length_cons, hrest.length_others,
            Nat.add_comm]
      · refine ⟨c :: first, others, ?_, hleads.closesFrom_cons_iff.mpr hrest.first_closes, ?_,
          hrest.others_nested, ?_⟩
        · have hpasses : (decide (c = ',') && (⟨false, depth⟩ : Position).separates) ≠ true := by
            simpa [Position.separates] using hcomma
          rw [cut, if_neg hpasses, hleads.position, hrest.cut_eq]
          rfl
        · rw [hleads.outerCommas_cons, if_neg hcomma, Nat.zero_add, hrest.first_commas]
        · rw [hleads.outerCommas_cons, if_neg hcomma, Nat.zero_add, hrest.length_others]

theorem mem_of_mem_trim (h : c ∈ Text.trim text) : c ∈ text := by
  obtain ⟨blanks, -, hright⟩ := Text.eq_trimRight_append (Text.trimLeft text)
  refine (List.dropWhile_suffix Text.isBlank).subset (?_ : c ∈ Text.trimLeft text)
  rw [hright]
  exact List.mem_append_left blanks h

theorem isBetween_iff {first last : Char} :
    isBetween first last text = true ↔ ∃ inner, text = first :: (inner ++ [last]) := by
  constructor
  · intro h
    simp only [isBetween, Bool.and_eq_true, decide_eq_true_eq, beq_iff_eq] at h
    obtain ⟨⟨hlength, hhead⟩, hlast⟩ := h
    obtain ⟨rest, rfl⟩ := List.head?_eq_some_iff.mp hhead
    rw [List.getLast?_cons_of_ne_nil (by rintro rfl; simp at hlength)] at hlast
    obtain ⟨inner, rfl⟩ := List.getLast?_eq_some_iff.mp hlast
    exact ⟨inner, rfl⟩
  · rintro ⟨inner, rfl⟩
    rw [isBetween, ← List.cons_append, List.getLast?_concat]
    simp

theorem unwraps_unwrap {piece : Text} (hquote : '"' ∉ piece) : Unwraps piece (unwrap piece) := by
  have hquotes : isBetween '"' '"' (Text.trim piece) = false := by
    rw [← Bool.not_eq_true, isBetween_iff]
    rintro ⟨inner, hinner⟩
    exact hquote (mem_of_mem_trim (hinner ▸ List.mem_cons_self))
  unfold unwrap
  dsimp only
  rw [hquotes, Bool.false_or]
  split
  · rename_i hbrackets
    obtain ⟨inner, hinner⟩ := isBetween_iff.mp hbrackets
    have htail : (Text.trim piece).tail.dropLast = inner := by simp [hinner]
    rw [htail]
    exact .bracketed hinner
  · rename_i hbrackets
    exact .bare fun inner hinner => hbrackets (isBetween_iff.mpr ⟨inner, hinner⟩)

/-- An argument is properly nested exactly if it has not lost brackets of two groups. -/
theorem Unwraps.isNested_iff {piece arg : Text} (h : Unwraps piece arg) (hnested : IsNested piece) :
    IsNested arg ↔ OuterMatch piece := by
  cases h with
  | bare hbare =>
      exact iff_of_true (isNested_trim_iff.mpr hnested) fun inner hinner =>
        absurd hinner (hbare inner)
  | @bracketed inner hinner =>
      rw [isNested_trim_iff]
      constructor
      · intro hnested inner' hinner'
        obtain ⟨-, hsame⟩ := List.cons.inj (hinner.symm.trans hinner')
        rwa [← List.append_cancel_right hsame]
      · exact fun hmatch => hmatch inner hinner

end Argument

open Argument

/-- A list without quotes whose brackets are properly nested is cut at the commas outside all
brackets, and each argument is properly nested exactly if the brackets that its piece begins and ends
with belong together. -/
theorem splitArguments_cuts_at_outer_commas {list : Text} (hblank : Text.allBlank list = false)
    (hquote : '"' ∉ list) (hnested : IsNested list) :
    (splitArguments list).length = outerCommas 0 list + 1 ∧
      ∃ pieces, [','].intercalate pieces = list ∧
        List.Forall₂ (fun piece arg => IsNested piece ∧ outerCommas 0 piece = 0 ∧
          Unwraps piece arg ∧ (IsNested arg ↔ OuterMatch piece)) pieces (splitArguments list) := by
  obtain ⟨first, others, hpieces⟩ := exists_pieces hquote hnested
  have hjoin : [','].intercalate (first :: others) = list := by
    rw [← hpieces.cut_eq, intercalate_cut]
  have hsplit : splitArguments list = (first :: others).map unwrap := by
    rw [splitArguments, hblank, if_neg Bool.false_ne_true, ← hpieces.cut_eq]
    rfl
  have hall : ∀ piece ∈ first :: others, IsNested piece ∧ outerCommas 0 piece = 0 :=
    List.forall_mem_cons.mpr ⟨⟨hpieces.first_closes, hpieces.first_commas⟩, hpieces.others_nested⟩
  refine ⟨?_, first :: others, hjoin, ?_⟩
  · rw [hsplit, List.length_map, List.length_cons, hpieces.length_others]
  · rw [hsplit, List.forall₂_map_right_iff, List.forall₂_same]
    intro piece hpiece
    obtain ⟨hpieceNested, hcommas⟩ := hall piece hpiece
    have hunwraps : Unwraps piece (unwrap piece) := by
      refine unwraps_unwrap fun hmem => hquote ?_
      rw [← hjoin]
      exact mem_intercalate hpiece hmem
    exact ⟨hpieceNested, hcommas, hunwraps, hunwraps.isNested_iff hpieceNested⟩

theorem groups_of_one_piece_are_kept :
    Text.allBlank "[a, [b]], c[1, 2], [d]" = false ∧ '"' ∉ ("[a, [b]], c[1, 2], [d]" : Text) ∧
      IsNested "[a, [b]], c[1, 2], [d]" ∧ (splitArguments "[a, [b]], c[1, 2], [d]").length = 3 ∧
      ∃ pieces, [','].intercalate pieces = ("[a, [b]], c[1, 2], [d]" : Text) ∧
        List.Forall₂ (fun piece arg => IsNested arg ↔ OuterMatch piece) pieces
          (["a, [b]", "c[1, 2]", "d"] : List Text) := by
  obtain ⟨hlength, pieces, hjoin, hpieces⟩ :=
    @splitArguments_cuts_at_outer_commas "[a, [b]], c[1, 2], [d]" (by decide) (by decide) (by decide)
  exact ⟨by decide, by decide, by decide, hlength.trans (by decide), pieces, hjoin,
    hpieces.imp fun _ _ h => h.2.2.2⟩

/-- Brackets that do not belong together are taken off. -/
theorem brackets_of_two_groups_are_taken_off :
    Text.allBlank "[1] + [2]" = false ∧ '"' ∉ ("[1] + [2]" : Text) ∧ IsNested "[1] + [2]" ∧
      splitArguments "[1] + [2]" = (["1] + [2"] : List Text) ∧ ¬ IsNested "1] + [2" ∧
      ¬ OuterMatch "[1] + [2]" := by
  have hcrossed : ¬ IsNested "1] + [2" := by decide
  exact ⟨by decide, by decide, by decide, by decide, hcrossed,
    fun hmatch => hcrossed (hmatch "1] + [2" rfl)⟩

end TemplateSuite
