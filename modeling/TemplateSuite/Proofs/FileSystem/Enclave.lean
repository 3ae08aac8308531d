import TemplateSuite.Proofs.FileSystem.Confinement
import TemplateSuite.Proofs.FileSystem.Renewal

namespace TemplateSuite.FileSystem

/-- The root leads to the top, through directories as far as the way is not below the top itself,
and there are no links at the top or below. -/
structure Enclave (fs : FileSystem) (root : Text) (top : Location) : Prop where
  goal_eq : fs.goal root = top
  way : ∀ place ∈ fs.way root, top <+: place ∨ fs.entryAt place = some .directory
  linkFree : fs.LinkFree top

variable {fs fs' : FileSystem} {root path other : Text} {top place : Location} {names : List Text}

namespace Enclave

theorem mem_way (h : fs.Enclave root top) (hpath : Path.Descends root path names)
    (hmem : place ∈ fs.way path) : top <+: place ∨ fs.entryAt place = some .directory := by
  rcases (mem_way_of_descends hpath).mp hmem with hroot | ⟨front, -, -, rfl⟩
  · exact h.way place hroot
  · rw [h.goal_eq]
    exact .inl (List.prefix_append _ _)

theorem ne_link (h : fs.Enclave root top) (hpath : Path.Descends root path names)
    (hmem : place ∈ fs.way path) (target : Text) : fs.entryAt place ≠ some (.link target) := by
  rcases h.mem_way hpath hmem with hbelow | hdirectory
  · exact h.linkFree place target hbelow
  · simp [hdirectory]

theorem place_eq (h : fs.Enclave root top) (hpath : Path.Descends root path names)
    (hother : other ∈ path :: Path.ancestors path) (hdenotes : fs.Denotes other place) :
    place = fs.goal other := by
  refine Resolves.unique hdenotes (resolves_of_ne_link fun passed hmem => ?_)
  exact h.ne_link hpath (Change.way_subset_of_mem_ancestors fs hother hmem)

theorem isTop (h : fs.Enclave root top) : fs.IsTop root top where
  denotes := by
    rw [← h.goal_eq]
    exact resolves_of_ne_link fun _ => h.ne_link (.refl root)
  linkFree := h.linkFree

theorem of_keptOutside (h : fs.Enclave root top) (hkept : KeptOutside top fs fs') :
    fs'.Enclave root top where
  goal_eq := (goal_congr hkept.workingDirectory root).trans h.goal_eq
  way := by
    rw [way_congr hkept.workingDirectory]
    intro place hmem
    by_cases hbelow : top <+: place
    · exact .inl hbelow
    · rw [hkept.outside place hbelow]
      exact h.way place hmem
  linkFree := hkept.linkFree

theorem keptOutside_makeDirectories (h : fs.Enclave root top)
    (hpath : Path.Descends root path names) :
    KeptOutside top fs (Change.makeDirectories path fs).2 := by
  have hadds := Change.makes_makeDirectories path fs
  refine ⟨hadds.kept.workingDirectory, fun place hplace => ?_, fun place target hplace hlink => ?_⟩
  · cases hold : fs.entryAt place with
    | some entry => exact hadds.kept.entries hold
    | none =>
        cases hnew : (Change.makeDirectories path fs).2.entryAt place with
        | none => rfl
        | some entry =>
            rcases hadds.added hnew with hfound | ⟨-, other, hother, hends, hdenotes⟩
            · cases hold.symm.trans hfound
            · obtain rfl := h.place_eq hpath hother hdenotes
              have hmem := Change.way_subset_of_mem_ancestors fs hother
                (Change.goal_mem_way_of_endsInName fs hends)
              rcases h.mem_way hpath hmem with hbelow | hdirectory
              · exact absurd hbelow hplace
              · cases hold.symm.trans hdirectory
  · exact h.linkFree place target hplace ((hadds.sameLinks place target).mpr hlink)

end Enclave

end TemplateSuite.FileSystem
