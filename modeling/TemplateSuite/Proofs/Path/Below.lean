import TemplateSuite.Proofs.FileSystem.Steps
import TemplateSuite.Proofs.Path.Course

namespace TemplateSuite.Path

/-- The path goes down from the root by the given names. -/
structure Descends (root path : Text) (names : List Text) : Prop where
  absolute : isAbsolute path = isAbsolute root
  course : course path = course root ++ names
  parent_not_mem : ['.', '.'] ∉ names

/-- Apart from `.`, the path has the components of the root, and then names, at least one. -/
def Below (root path : Text) : Prop :=
  ∃ names, names ≠ [] ∧ properComponents path = properComponents root ++ names.map .name

variable {root base path part above name : Text} {names : List Text}

theorem map_ofPiece (h : ['.', '.'] ∉ names) : names.map Component.ofPiece = names.map .name := by
  refine List.map_congr_left fun piece hmem => ?_
  rw [Component.ofPiece, if_neg]
  rintro rfl
  exact h hmem

theorem Descends.properComponents_eq (h : Descends root path names) :
    properComponents path = properComponents root ++ names.map .name := by
  rw [Path.properComponents_eq, Path.properComponents_eq root, h.absolute, h.course,
    List.map_append, map_ofPiece h.parent_not_mem, List.append_assoc]

theorem Descends.below (h : Descends root path names) (hnames : names ≠ []) : Below root path :=
  ⟨names, hnames, h.properComponents_eq⟩

theorem Descends.refl (root : Text) : Descends root root [] where
  absolute := rfl
  course := (List.append_nil _).symm
  parent_not_mem := List.not_mem_nil

theorem checkRelative_eq_ok_iff :
    checkRelative path = .ok () ↔ isRooted path = false ∧ .parent ∉ components path ∧
      ∃ component ∈ components path, component.isName = true := by
  unfold checkRelative
  cases isRooted path with
  | true => simp
  | false =>
      by_cases hparent : .parent ∈ components path
      · simp [hparent]
      · by_cases hname : (components path).any Component.isName = true
        · simp only [Bool.false_eq_true, if_false, List.contains_iff_mem, if_neg hparent,
            if_pos hname, true_and]
          simpa [hparent] using List.any_eq_true.mp hname
        · simp only [Bool.false_eq_true, if_false, List.contains_iff_mem, if_neg hparent,
            if_neg hname, true_and]
          refine ⟨nofun, fun h => absurd (List.any_eq_true.mpr h.2) hname⟩

theorem mem_course_iff_of_relative (h : isAbsolute path = false) {component : Component} :
    (component ∈ components path ∧ component ≠ .current) ↔
      component ∈ (course path).map Component.ofPiece := by
  have heq := Path.properComponents_eq path
  rw [h, if_neg Bool.false_ne_true, List.nil_append, properComponents] at heq
  rw [← heq, List.mem_filter]
  simp

theorem course_of_checkRelative (h : checkRelative path = .ok ()) :
    isAbsolute path = false ∧ course path ≠ [] ∧ ['.', '.'] ∉ course path := by
  obtain ⟨hrooted, hparent, component, hmem, hname⟩ := checkRelative_eq_ok_iff.mp h
  have hrelative : isAbsolute path = false := by
    by_contra habsolute
    rw [isRooted_of_isAbsolute (by simpa using habsolute)] at hrooted
    cases hrooted
  refine ⟨hrelative, ?_, fun hclimb => ?_⟩
  · have hcurrent : component ≠ .current := by
      rintro rfl
      cases hname
    have hin := (mem_course_iff_of_relative hrelative).mp ⟨hmem, hcurrent⟩
    rintro hnil
    rw [hnil] at hin
    cases hin
  · have hin : Component.parent ∈ (course path).map Component.ofPiece :=
      List.mem_map.mpr ⟨_, hclimb, rfl⟩
    exact hparent ((mem_course_iff_of_relative hrelative).mpr hin).1

theorem Descends.join (h : Descends root base names) (hpart : checkRelative part = .ok ()) :
    Descends root (join base part) (names ++ Path.course part) := by
  obtain ⟨hrelative, -, hclimb⟩ := course_of_checkRelative hpart
  constructor
  · rw [isAbsolute_join base hrelative, h.absolute]
  · rw [course_join base hrelative, h.course, List.append_assoc]
  · intro hmem
    rcases List.mem_append.mp hmem with hbase | hlast
    · exact h.parent_not_mem hbase
    · exact hclimb hlast

/-- The directory that a path below the root is in is reached by all names but the last. -/
theorem Descends.parent (h : Descends root path names) (hnames : names ≠ [])
    (hparent : parent? path = some above) : Descends root above names.dropLast where
  absolute := (begins_of_mem_ancestors (List.mem_of_head? hparent)).1.trans h.absolute
  course := by rw [course_of_parent? hparent, h.course, List.dropLast_append_of_ne_nil hnames]
  parent_not_mem := fun hmem => h.parent_not_mem (List.dropLast_subset _ hmem)

/-- The name is empty or absolute, or it climbs, or it names nothing. -/
def IsUnfit (name : Text) : Prop :=
  name = [] ∨ isAbsolute name = true ∨ .parent ∈ components name ∨
    ∀ component ∈ components name, component.isName = false

theorem exists_fault_of_isUnfit (h : IsUnfit name) : ∃ fault, checkRelative name = .error fault := by
  cases hcheck : checkRelative name with
  | error fault => exact ⟨fault, rfl⟩
  | ok _ =>
      obtain ⟨hrooted, hparent, component, hmem, hname⟩ := checkRelative_eq_ok_iff.mp hcheck
      rcases h with rfl | habsolute | hclimb | hnone
      · cases hmem
      · rw [isRooted_of_isAbsolute habsolute] at hrooted
        cases hrooted
      · exact absurd hclimb hparent
      · rw [hnone component hmem] at hname
        cases hname

end TemplateSuite.Path
