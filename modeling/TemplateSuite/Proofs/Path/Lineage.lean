import TemplateSuite.Proofs.FileSystem.Steps
import TemplateSuite.Proofs.Path.Course

namespace TemplateSuite.Path

open FileSystem

variable {path above first : Text} {pieces more : List Text}

/-- Apart from slashes at its end, the path ends with `.`. -/
def EndsIdly (path : Text) : Prop :=
  (steps (Change.dropEndSlashes path)).getLast? = some ['.']

instance (path : Text) : Decidable (EndsIdly path) :=
  inferInstanceAs (Decidable (_ = _))

theorem intercalate_prefix (first : Text) (rest more : List Text) :
    ['/'].intercalate (first :: rest) <+: ['/'].intercalate (first :: (rest ++ more)) := by
  induction rest generalizing first with
  | nil =>
      cases more with
      | nil => exact List.prefix_rfl
      | cons next others =>
          simp only [List.nil_append, List.intercalate_cons_cons, List.intercalate_singleton,
            List.append_assoc]
          exact List.prefix_append _ _
  | cons next others ih =>
      simp only [List.cons_append, List.intercalate_cons_cons]
      exact (List.prefix_append_right_inj _).mpr (ih next)

theorem ofPieces_prefix (hmore : more ≠ []) :
    ofPieces first pieces <+: ['/'].intercalate (first :: (pieces.reverse ++ more)) := by
  unfold ofPieces
  cases hkept : pieces.dropWhile isIdle with
  | nil =>
      obtain ⟨next, others, hothers⟩ :=
        List.exists_cons_of_ne_nil (List.append_ne_nil_of_right_ne_nil pieces.reverse hmore)
      by_cases hfirst : first = []
      · subst hfirst
        simp only [if_true, hothers, List.intercalate_cons_cons, List.nil_append]
        exact List.prefix_append _ _
      · simp only [if_neg hfirst, hothers, List.intercalate_cons_cons, List.append_assoc]
        exact List.prefix_append _ _
  | cons piece kept =>
      obtain ⟨others, hothers⟩ : (piece :: kept).reverse <+: pieces.reverse := by
        rw [List.reverse_prefix, ← hkept]
        exact List.dropWhile_suffix _
      rw [← hothers, List.append_assoc]
      exact intercalate_prefix _ _ _

theorem eq_of_mem_ancestorsOfPieces (h : above ∈ ancestorsOfPieces first pieces) :
    above = [] ∨ ∃ before others, pieces = others ++ before ∧ others ≠ [] ∧
      above = ofPieces first before := by
  induction pieces with
  | nil =>
      rw [ancestorsOfPieces] at h
      split at h
      · cases h
      · exact .inl (List.mem_singleton.mp h)
  | cons piece before ih =>
      have hlonger : (above = [] ∨ ∃ start others, before = others ++ start ∧ others ≠ [] ∧
          above = ofPieces first start) → above = [] ∨ ∃ start others,
            piece :: before = others ++ start ∧ others ≠ [] ∧ above = ofPieces first start := by
        rintro (hnil | ⟨start, others, rfl, -, habove⟩)
        · exact .inl hnil
        · exact .inr ⟨start, piece :: others, rfl, List.cons_ne_nil _ _, habove⟩
      rw [ancestorsOfPieces] at h
      split at h
      · exact hlonger (ih h)
      · rcases List.mem_cons.mp h with habove | hmem
        · exact .inr ⟨before, [piece], rfl, List.cons_ne_nil _ _, habove⟩
        · exact hlonger (ih hmem)

theorem prefix_of_mem_ancestors (h : above ∈ ancestors path) : above <+: path := by
  obtain ⟨first, rest, hsplit, -, -⟩ := exists_splitOn path
  rw [ancestors, hsplit] at h
  rcases eq_of_mem_ancestorsOfPieces h with rfl | ⟨before, others, hpieces, hothers, rfl⟩
  · exact List.nil_prefix
  · have hrest : rest = before.reverse ++ others.reverse := by
      rw [← List.reverse_reverse rest, hpieces, List.reverse_append]
    have hpath : path = ['/'].intercalate (first :: (before.reverse ++ others.reverse)) := by
      rw [← hrest, ← hsplit, List.intercalate_splitOn]
    rw [hpath]
    exact ofPieces_prefix (by simpa using hothers)

theorem dropEndSlashes_of_not_endsInSlash (h : endsInSlash path = false) :
    Change.dropEndSlashes path = path := by
  rw [endsInSlash, ← List.head?_reverse] at h
  rw [Change.dropEndSlashes]
  cases hreverse : path.reverse with
  | nil => simp [List.reverse_eq_nil_iff.mp hreverse]
  | cons last front =>
      rw [hreverse] at h
      rw [List.dropWhile_cons_of_neg (by simpa using h)]
      dsimp only
      rw [← hreverse, List.reverse_reverse]

theorem exists_steps_of_getLast? {piece : Text}
    (hlast : (path.splitOn '/').getLast? = some piece) (hne : piece ≠ []) :
    endsInSlash path = false ∧ ∃ front, steps path = front ++ [piece] := by
  obtain ⟨front, hsplit⟩ := List.getLast?_eq_some_iff.mp hlast
  have hslash : endsInSlash path = false := by
    by_contra hend
    obtain ⟨before, rfl⟩ := List.getLast?_eq_some_iff.mp (by simpa [endsInSlash] using hend)
    rw [List.splitOn_append_cons_self, List.splitOn_nil] at hsplit
    exact hne (List.singleton_inj.mp (List.append_inj' hsplit rfl).2).symm
  refine ⟨hslash, front.filter (· ≠ []), ?_⟩
  rw [steps, hslash, hsplit, List.filter_append]
  simp [hne]

theorem not_endsIdly_of_getLast? {piece : Text} (hlast : (path.splitOn '/').getLast? = some piece)
    (hidle : isIdle piece = false) : ¬ EndsIdly path := by
  obtain ⟨hempty, hcurrent⟩ : piece ≠ [] ∧ piece ≠ ['.'] := by simpa [isIdle] using hidle
  obtain ⟨hslash, front, hsteps⟩ := exists_steps_of_getLast? hlast hempty
  rw [EndsIdly, dropEndSlashes_of_not_endsInSlash hslash, hsteps, List.getLast?_concat]
  exact fun hend => hcurrent (Option.some.inj hend)

theorem not_endsIdly_ofPieces (hfirst : '/' ∉ first) (hpieces : ∀ piece ∈ pieces, '/' ∉ piece)
    (hcourse : course (ofPieces first pieces) ≠ []) : ¬ EndsIdly (ofPieces first pieces) := by
  unfold ofPieces at hcourse ⊢
  cases hkept : pieces.dropWhile isIdle with
  | nil =>
      simp only [hkept] at hcourse ⊢
      by_cases hempty : first = []
      · rw [if_pos hempty] at hcourse
        exact absurd rfl hcourse
      · rw [if_neg hempty] at hcourse ⊢
        rw [course_of_slash_not_mem hfirst] at hcourse
        have hidle : isIdle first = false := by
          by_contra hidle
          exact hcourse (List.filter_eq_nil_iff.mpr (by simpa using hidle))
        refine not_endsIdly_of_getLast? ?_ hidle
        rw [List.splitOn_eq_singleton hfirst]
        rfl
  | cons piece kept =>
      have hidle : isIdle piece = false := by
        have hhead := List.head?_dropWhile_not isIdle pieces
        rw [hkept] at hhead
        simpa using hhead
      dsimp only
      refine not_endsIdly_of_getLast? ?_ hidle
      rw [List.splitOn_intercalate '/' _ (List.cons_ne_nil _ _)]
      · rw [List.reverse_cons, ← List.cons_append, List.getLast?_concat]
      · intro other hother
        rcases List.mem_cons.mp hother with rfl | hin
        · exact hfirst
        · exact hpieces other
            ((List.dropWhile_sublist _).subset (hkept ▸ List.mem_reverse.mp hin))

/-- Each path has one piece more than the next one, as far as that goes. -/
inductive Lineage : List Text → Prop
  | origin {path : Text} {above : List Text} : course path = [] → Lineage (path :: above)
  | descend {path parent : Text} {above : List Text} :
      course path ≠ [] → course parent = (course path).dropLast →
        isAbsolute parent = isAbsolute path → (course parent ≠ [] → ¬ EndsIdly parent) →
          Lineage (parent :: above) → Lineage (path :: parent :: above)

theorem Ancestry.lineage {absolute : Bool} {whole paths : List Text}
    (h : Ancestry absolute whole paths)
    (hends : ∀ above ∈ paths, course above ≠ [] → ¬ EndsIdly above) (hcourse : course path = whole)
    (habsolute : isAbsolute path = absolute) : Lineage (path :: paths) := by
  induction h generalizing path with
  | none => exact .origin hcourse
  | idle => exact .origin hcourse
  | @step above front piece higher habove hhigher _ ih =>
      obtain ⟨hfirst, hrest⟩ := List.forall_mem_cons.mp hends
      refine .descend ?_ ?_ ?_ hfirst (ih hrest habove hhigher)
      · simp [hcourse]
      · rw [hcourse, List.dropLast_concat, habove]
      · rw [hhigher, habsolute]

theorem not_endsIdly_of_mem_ancestors (h : above ∈ ancestors path) (hcourse : course above ≠ []) :
    ¬ EndsIdly above := by
  obtain ⟨first, rest, hsplit, hfirst, hrest⟩ := exists_splitOn path
  rw [ancestors, hsplit] at h
  rcases eq_of_mem_ancestorsOfPieces h with rfl | ⟨before, others, hpieces, -, rfl⟩
  · exact absurd rfl hcourse
  · refine not_endsIdly_ofPieces hfirst (fun piece hmem => hrest piece ?_) hcourse
    exact List.mem_reverse.mp (hpieces ▸ List.mem_append_right _ hmem)

theorem lineage_ancestors (path : Text) : Lineage (path :: ancestors path) :=
  (ancestry_ancestors path).lineage (fun _ => not_endsIdly_of_mem_ancestors) rfl rfl

end TemplateSuite.Path
