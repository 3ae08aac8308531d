import TemplateSuite.FileSystem.Change
import TemplateSuite.Path.Relative
import TemplateSuite.Proofs.FileSystem.Route

namespace TemplateSuite

open FileSystem

/-- What stands between the slashes of a path. -/
def Path.pieces (path : Text) : List Text :=
  (path.splitOn '/').filter (· ≠ [])

namespace Path

variable {base part path : Text}

theorem pieces_append_slash (before after : Text) :
    pieces (before ++ '/' :: after) = pieces before ++ pieces after := by
  rw [pieces, List.splitOn_append_cons_self, List.filter_append]
  rfl

theorem pieces_append_slashes (path : Text) (n : Nat) :
    pieces (path ++ List.replicate n '/') = pieces path := by
  induction n generalizing path with
  | zero => rw [List.replicate_zero, List.append_nil]
  | succ n ih =>
      have hslashes : pieces (List.replicate n '/') = [] := ih []
      rw [List.replicate_succ, pieces_append_slash, hslashes, List.append_nil]

theorem steps_eq (path : Text) :
    steps path = pieces path ++ if endsInSlash path then [['.']] else [] := rfl

theorem steps_slashes (n : Nat) : steps (List.replicate (n + 1) '/') = [['.']] := by
  have hpieces : pieces (List.replicate (n + 1) '/') = [] := pieces_append_slashes [] (n + 1)
  have hend : endsInSlash (List.replicate (n + 1) '/') = true := by
    simp [endsInSlash, List.getLast?_replicate]
  rw [steps_eq, hpieces, hend]
  rfl

theorem exists_eq_append_slashes (path : Text) :
    ∃ n, path = (path.reverse.dropWhile (· == '/')).reverse ++ List.replicate n '/' := by
  refine ⟨(path.reverse.takeWhile (· == '/')).length, ?_⟩
  have hslashes : path.reverse.takeWhile (· == '/') =
      List.replicate (path.reverse.takeWhile (· == '/')).length '/' := by
    refine List.eq_replicate_of_mem fun c hc => ?_
    simpa using List.all_eq_true.mp List.all_takeWhile c hc
  rw [← List.reverse_replicate, ← hslashes, ← List.reverse_append,
    List.takeWhile_append_dropWhile, List.reverse_reverse]

theorem steps_dropEndSlashes (path : Text) :
    ∃ more, steps path = steps (Change.dropEndSlashes path) ++ more ∧
      (more = [] ∨ more = [['.']]) := by
  obtain ⟨n, hpath⟩ := exists_eq_append_slashes path
  cases hkept : path.reverse.dropWhile (· == '/') with
  | nil =>
      refine ⟨[], ?_, .inl rfl⟩
      rw [List.append_nil, Change.dropEndSlashes, hkept]
      rw [hkept, List.reverse_nil, List.nil_append] at hpath
      subst hpath
      cases n with
      | zero => rfl
      | succ n => exact steps_slashes n
  | cons last front =>
      rw [hkept] at hpath
      have hend : endsInSlash (last :: front).reverse = false := by
        have hlast := List.head?_dropWhile_not (· == '/') path.reverse
        rw [hkept] at hlast
        simpa [endsInSlash] using hlast
      have hpieces : pieces path = pieces (last :: front).reverse := by
        rw [hpath, pieces_append_slashes]
      refine ⟨if endsInSlash path then [['.']] else [], ?_, ?_⟩
      · rw [Change.dropEndSlashes, hkept]
        simp only [steps_eq, hpieces, hend, Bool.false_eq_true, if_false, List.append_nil]
      · split
        · exact .inr rfl
        · exact .inl rfl

/-- The number of names in a path. -/
def nameCount (path : Text) : Nat :=
  (steps path).countP isName

theorem nameCount_eq (path : Text) : nameCount path = (pieces path).countP isName := by
  rw [nameCount, steps_eq, List.countP_append]
  split
  · rfl
  · rfl

theorem nameCount_join (hpart : isAbsolute part = false) :
    nameCount (join base part) = nameCount base + nameCount part := by
  rw [join, hpart]
  rcases base.eq_nil_or_concat with rfl | ⟨front, last, rfl⟩
  · exact (Nat.zero_add _).symm
  · rw [List.concat_eq_append]
    simp only [nameCount_eq]
    rw [if_neg (by simp)]
    by_cases hlast : last = '/'
    · subst hlast
      rw [if_pos (by simp [endsInSlash]), List.append_assoc, List.singleton_append,
        pieces_append_slash, pieces_append_slash, List.countP_append, List.countP_append]
      rfl
    · rw [if_neg (by simpa [endsInSlash] using hlast), pieces_append_slash, List.countP_append]

theorem isRooted_of_isAbsolute (h : isAbsolute path = true) : isRooted path = true := by
  cases path with
  | nil => cases h
  | cons c rest =>
      obtain rfl : c = '/' := by simpa [isAbsolute] using h
      have hsplit : ('/' :: rest).splitOn '/' = [] :: rest.splitOn '/' :=
        List.splitOn_append_cons_self [] rest
      rw [isRooted, components, hsplit]
      rfl

theorem isName_of_ofPiece {piece : Text} (hidle : isIdle piece = false)
    (h : (Component.ofPiece piece).isName = true) : piece ≠ [] ∧ isName piece = true := by
  unfold Component.ofPiece at h
  split at h
  · cases h
  · rename_i hparent
    simp only [isIdle, Bool.or_eq_false_iff, beq_eq_false_iff_ne] at hidle
    exact ⟨hidle.1, by simp [isName, hidle.2, hparent]⟩

theorem nameCount_pos (h : (components path).any Component.isName) : 0 < nameCount path := by
  obtain ⟨component, hmem, hname⟩ := List.any_eq_true.mp h
  have hpiece : ∃ piece ∈ path.splitOn '/', piece ≠ [] ∧ isName piece = true := by
    unfold components at hmem
    split at hmem
    · cases hmem
    · rename_i first rest hsplit
      rcases List.mem_append.mp hmem with hleading | hrest
      · refine ⟨first, hsplit ▸ List.mem_cons_self, ?_⟩
        unfold leadingComponents at hleading
        split at hleading
        · split at hleading
          · cases hleading
          · rw [List.mem_singleton.mp hleading] at hname
            cases hname
        · split at hleading
          · rw [List.mem_singleton.mp hleading] at hname
            cases hname
          · rename_i hempty hcurrent
            rw [List.mem_singleton.mp hleading] at hname
            exact isName_of_ofPiece (by simp [isIdle, hempty, hcurrent]) hname
      · obtain ⟨piece, hfilter, rfl⟩ := List.mem_map.mp hrest
        obtain ⟨hin, hidle⟩ := List.mem_filter.mp hfilter
        exact ⟨piece, hsplit ▸ List.mem_cons_of_mem _ hin,
          isName_of_ofPiece (by simpa using hidle) hname⟩
  obtain ⟨piece, hin, hne, hisName⟩ := hpiece
  rw [nameCount_eq, List.countP_pos_iff]
  exact ⟨piece, List.mem_filter.mpr ⟨hin, by simpa using hne⟩, hisName⟩

theorem of_checkRelative (h : checkRelative path = .ok ()) :
    isAbsolute path = false ∧ 0 < nameCount path := by
  unfold checkRelative at h
  split at h
  · cases h
  · rename_i hrooted
    split at h
    · cases h
    · split at h
      · rename_i hnames
        refine ⟨?_, nameCount_pos hnames⟩
        simpa using mt isRooted_of_isAbsolute hrooted
      · cases h

end Path

end TemplateSuite
