import TemplateSuite.Proofs.Path.Below
import TemplateSuite.Proofs.Path.Lineage

namespace TemplateSuite.Path

open FileSystem

/-- Between the slashes of the path stand ordinary names. -/
def IsPlain (path : Text) : Prop :=
  ∀ piece ∈ path.splitOn '/', piece ≠ [] ∧ piece ≠ ['.'] ∧ piece ≠ ['.', '.']

instance (path : Text) : Decidable (IsPlain path) :=
  inferInstanceAs (Decidable (∀ piece ∈ _, _))

variable {base path part : Text}

theorem ofPiece_of_ne_parent {piece : Text} (h : piece ≠ ['.', '.']) :
    Component.ofPiece piece = .name piece :=
  if_neg h

namespace IsPlain

theorem ne_nil (h : IsPlain path) : path ≠ [] := by
  rintro rfl
  exact (h [] List.mem_cons_self).1 rfl

theorem components_eq (h : IsPlain path) :
    components path = (path.splitOn '/').map .name := by
  obtain ⟨first, rest, hsplit, -, -⟩ := exists_splitOn path
  rw [IsPlain, hsplit] at h
  obtain ⟨⟨hempty, hcurrent, hparent⟩, hrest⟩ := List.forall_mem_cons.mp h
  have hkept : rest.filter (!isIdle ·) = rest := by
    refine List.filter_eq_self.mpr fun piece hmem => ?_
    simp [isIdle, (hrest piece hmem).1, (hrest piece hmem).2.1]
  have hnames : rest.map Component.ofPiece = rest.map .name :=
    List.map_congr_left fun piece hmem => ofPiece_of_ne_parent (hrest piece hmem).2.2
  rw [components, hsplit]
  dsimp only
  rw [leadingComponents, if_neg hempty, if_neg hcurrent, ofPiece_of_ne_parent hparent, hkept,
    hnames]
  rfl

theorem checkRelative_eq_ok (h : IsPlain path) : checkRelative path = .ok () := by
  obtain ⟨first, rest, hsplit, -, -⟩ := exists_splitOn path
  rw [checkRelative_eq_ok_iff, isRooted, h.components_eq]
  refine ⟨by simp, by simp, .name first, ?_, rfl⟩
  rw [hsplit]
  exact List.mem_cons_self

theorem exists_steps_join (h : IsPlain part) (base : Text) :
    ∃ front name, steps (join base part) = front ++ [name] ∧ isName name := by
  obtain ⟨before, name, hsplit⟩ : ∃ before name, part.splitOn '/' = before ++ [name] := by
    rcases List.eq_nil_or_concat (part.splitOn '/') with hnil | ⟨before, name, hconcat⟩
    · exact absurd hnil (List.splitOn_ne_nil '/' part)
    · exact ⟨before, name, by rw [hconcat, List.concat_eq_append]⟩
  obtain ⟨hempty, hcurrent, hparent⟩ := h name (by simp [hsplit])
  have hrelative := (course_of_checkRelative h.checkRelative_eq_ok).1
  have hlast : ((join base part).splitOn '/').getLast? = some name := by
    rcases join_cases base hrelative with ⟨-, hjoin⟩ | ⟨front, -, hjoin⟩ | ⟨-, hjoin⟩
    · rw [hjoin, hsplit, List.getLast?_concat]
    · rw [hjoin, List.splitOn_append_cons_self, hsplit, ← List.append_assoc, List.getLast?_concat]
    · rw [hjoin, List.splitOn_append_cons_self, hsplit, ← List.append_assoc, List.getLast?_concat]
  obtain ⟨-, front, hsteps⟩ := exists_steps_of_getLast? hlast hempty
  exact ⟨front, name, hsteps, by simp [isName, hcurrent, hparent]⟩

end IsPlain

end TemplateSuite.Path
