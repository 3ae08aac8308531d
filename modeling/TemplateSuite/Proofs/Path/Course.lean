import TemplateSuite.Path.Relative
import TemplateSuite.Proofs.Text.Lines

namespace TemplateSuite.Path

/-- The pieces of a path that lead on. -/
def course (path : Text) : List Text :=
  (path.splitOn '/').filter (!isIdle ·)

/-- The components of a path, apart from `.`. -/
def properComponents (path : Text) : List Component :=
  (components path).filter (· ≠ .current)

variable {base part path above first : Text} {pieces : List Text}

theorem course_append_slash (before after : Text) :
    course (before ++ '/' :: after) = course before ++ course after := by
  rw [course, List.splitOn_append_cons_self, List.filter_append]
  rfl

theorem course_of_slash_not_mem (h : '/' ∉ path) : course path = [path].filter (!isIdle ·) := by
  rw [course, List.splitOn_eq_singleton h]

theorem join_cases (base : Text) (hpart : isAbsolute part = false) :
    base = [] ∧ join base part = part ∨
      (∃ front, base = front ++ ['/'] ∧ join base part = front ++ '/' :: part) ∨
        base ≠ [] ∧ join base part = base ++ '/' :: part := by
  rw [join, hpart]
  by_cases hbase : base = []
  · exact .inl ⟨hbase, by simp [hbase]⟩
  · by_cases hslash : endsInSlash base = true
    · obtain ⟨front, rfl⟩ := List.getLast?_eq_some_iff.mp (by simpa [endsInSlash] using hslash)
      exact .inr (.inl ⟨front, rfl, by simp [hslash]⟩)
    · exact .inr (.inr ⟨hbase, by simp [hbase, hslash]⟩)

theorem course_join (base : Text) (hpart : isAbsolute part = false) :
    course (join base part) = course base ++ course part := by
  rcases join_cases base hpart with ⟨rfl, hjoin⟩ | ⟨front, rfl, hjoin⟩ | ⟨-, hjoin⟩
  · rw [hjoin]
    rfl
  · have hnil : course [] = [] := rfl
    rw [hjoin, course_append_slash, course_append_slash, hnil, List.append_nil]
  · rw [hjoin, course_append_slash]

theorem isAbsolute_join (base : Text) (hpart : isAbsolute part = false) :
    isAbsolute (join base part) = isAbsolute base := by
  rcases join_cases base hpart with ⟨rfl, hjoin⟩ | ⟨front, rfl, hjoin⟩ | ⟨hbase, hjoin⟩
  · rw [hjoin, hpart]
    rfl
  · rw [hjoin]
    cases front <;> rfl
  · rw [hjoin]
    obtain ⟨c, rest, rfl⟩ := List.exists_cons_of_ne_nil hbase
    rfl

theorem ofPiece_ne_current {piece : Text} : Component.ofPiece piece ≠ .current := by
  unfold Component.ofPiece
  split
  · exact Component.noConfusion
  · exact Component.noConfusion

theorem exists_splitOn (path : Text) :
    ∃ first rest, path.splitOn '/' = first :: rest ∧ '/' ∉ first ∧ ∀ piece ∈ rest, '/' ∉ piece := by
  obtain ⟨first, rest, hsplit⟩ := List.exists_cons_of_ne_nil (List.splitOn_ne_nil '/' path)
  refine ⟨first, rest, hsplit, ?_, fun piece hpiece => ?_⟩
  · exact Text.not_mem_of_mem_splitOn (hsplit ▸ List.mem_cons_self)
  · exact Text.not_mem_of_mem_splitOn (hsplit ▸ List.mem_cons_of_mem _ hpiece)

theorem isAbsolute_iff {rest : List Text} (hsplit : path.splitOn '/' = first :: rest) :
    isAbsolute path = true ↔ first = [] ∧ path ≠ [] := by
  cases path with
  | nil => simp [isAbsolute]
  | cons c tail =>
      rw [List.splitOn_cons_eq_if_modifyHead] at hsplit
      by_cases hc : c = '/'
      · subst hc
        obtain ⟨rfl, -⟩ := List.cons.inj hsplit
        simp [isAbsolute]
      · obtain ⟨next, others, hnext⟩ :=
          List.exists_cons_of_ne_nil (List.splitOn_ne_nil '/' tail)
        rw [if_neg (by simpa using hc), hnext, List.modifyHead_cons] at hsplit
        obtain ⟨rfl, -⟩ := List.cons.inj hsplit
        simp [isAbsolute, hc]

theorem properComponents_eq (path : Text) :
    properComponents path =
      (if isAbsolute path then [.root] else []) ++ (course path).map Component.ofPiece := by
  obtain ⟨first, rest, hsplit, -, -⟩ := exists_splitOn path
  have hrest : ((rest.filter (!isIdle ·)).map Component.ofPiece).filter (· ≠ .current) =
      (rest.filter (!isIdle ·)).map Component.ofPiece := by
    refine List.filter_eq_self.mpr fun component hmem => ?_
    obtain ⟨piece, -, rfl⟩ := List.mem_map.mp hmem
    simpa using ofPiece_ne_current
  have habsolute := isAbsolute_iff hsplit
  simp only [properComponents, components, course, hsplit, List.filter_append, hrest,
    List.filter_cons]
  by_cases hempty : first = []
  · subst hempty
    by_cases hpath : path = []
    · subst hpath
      rfl
    · rw [if_pos (habsolute.mpr ⟨rfl, hpath⟩)]
      simp [leadingComponents, hpath, isIdle]
  · rw [if_neg fun h => hempty (habsolute.mp h).1]
    by_cases hcurrent : first = ['.']
    · subst hcurrent
      simp [leadingComponents, isIdle]
    · simp [leadingComponents, hempty, hcurrent, isIdle, ofPiece_ne_current]

theorem filter_reverse_dropWhile_isIdle (pieces : List Text) :
    (pieces.dropWhile isIdle).reverse.filter (!isIdle ·) = pieces.reverse.filter (!isIdle ·) := by
  have hidle : (pieces.takeWhile isIdle).reverse.filter (!isIdle ·) = [] := by
    refine List.filter_eq_nil_iff.mpr fun piece hmem => ?_
    simpa using List.mem_takeWhile_imp (List.mem_reverse.mp hmem)
  conv => rhs; rw [← List.takeWhile_append_dropWhile (p := isIdle) (l := pieces)]
  rw [List.reverse_append, List.filter_append, hidle, List.append_nil]

theorem course_ofPieces (hfirst : '/' ∉ first) (hpieces : ∀ piece ∈ pieces, '/' ∉ piece) :
    course (ofPieces first pieces) = (first :: pieces.reverse).filter (!isIdle ·) := by
  have hkept := filter_reverse_dropWhile_isIdle pieces
  have hslash : ∀ piece ∈ pieces.dropWhile isIdle, '/' ∉ piece := fun piece hmem =>
    hpieces piece ((List.dropWhile_sublist _).subset hmem)
  unfold ofPieces
  rw [List.filter_cons, ← hkept]
  cases hdrop : pieces.dropWhile isIdle with
  | nil =>
      by_cases hempty : first = []
      · subst hempty
        rfl
      · simp only [if_neg hempty, course_of_slash_not_mem hfirst, List.filter_cons]
        rfl
  | cons piece kept =>
      rw [hdrop] at hslash
      have hsplit : (['/'].intercalate (first :: (piece :: kept).reverse)).splitOn '/' =
          first :: (piece :: kept).reverse := by
        refine List.splitOn_intercalate '/' ?_ (List.cons_ne_nil _ _)
        intro other hother
        rcases List.mem_cons.mp hother with rfl | hmem
        · exact hfirst
        · exact hslash other (List.mem_reverse.mp hmem)
      rw [course, hsplit, List.filter_cons]

theorem isAbsolute_ofPieces (hfirst : '/' ∉ first) (pieces : List Text) :
    isAbsolute (ofPieces first pieces) = decide (first = []) := by
  unfold ofPieces
  cases first with
  | nil =>
      cases pieces.dropWhile isIdle with
      | nil => rfl
      | cons piece kept =>
          obtain ⟨next, others, hreverse⟩ :=
            List.exists_cons_of_ne_nil (l := (piece :: kept).reverse) (by simp)
          simp [hreverse, isAbsolute]
  | cons c rest =>
      have hc : c ≠ '/' := fun h => hfirst (by simp [h])
      cases pieces.dropWhile isIdle with
      | nil => simp [isAbsolute, hc]
      | cons piece kept =>
          obtain ⟨next, others, hreverse⟩ :=
            List.exists_cons_of_ne_nil (l := (piece :: kept).reverse) (by simp)
          simp [hreverse, isAbsolute, hc]

/-- The ancestors of a path with the given course. Each has one piece less than the one before. -/
inductive Ancestry (absolute : Bool) : List Text → List Text → Prop
  | none : Ancestry absolute [] []
  /-- The empty path is above a path that leads nowhere. -/
  | idle : absolute = false → Ancestry absolute [] [[]]
  | step {above : Text} {front : List Text} (piece : Text) {higher : List Text} :
      course above = front → isAbsolute above = absolute → Ancestry absolute front higher →
        Ancestry absolute (front ++ [piece]) (above :: higher)

theorem ancestry_ancestorsOfPieces (hfirst : '/' ∉ first) (hpieces : ∀ piece ∈ pieces, '/' ∉ piece) :
    Ancestry (decide (first = [])) ((first :: pieces.reverse).filter (!isIdle ·))
      (ancestorsOfPieces first pieces) := by
  induction pieces with
  | nil =>
      rw [ancestorsOfPieces, List.reverse_nil]
      by_cases hempty : first = []
      · subst hempty
        exact .none
      · rw [if_neg hempty, decide_eq_false hempty]
        by_cases hidle : isIdle first = true
        · rw [List.filter_cons_of_neg (by simp [hidle])]
          exact .idle rfl
        · rw [List.filter_cons_of_pos (by simp [hidle])]
          have hnowhere : course ([] : Text) = [] := rfl
          exact Ancestry.step first hnowhere rfl .none
  | cons piece before ih =>
      have hbefore : ∀ other ∈ before, '/' ∉ other := fun other hmem =>
        hpieces other (List.mem_cons_of_mem _ hmem)
      rw [List.reverse_cons, ← List.cons_append, List.filter_append, ancestorsOfPieces]
      by_cases hidle : isIdle piece = true
      · have hnone : [piece].filter (!isIdle ·) = [] := by simp [hidle]
        rw [if_pos hidle, hnone, List.append_nil]
        exact ih hbefore
      · have hone : [piece].filter (!isIdle ·) = [piece] := by simp [hidle]
        rw [if_neg hidle, hone]
        exact .step piece (course_ofPieces hfirst hbefore) (isAbsolute_ofPieces hfirst before)
          (ih hbefore)

theorem ancestry_ancestors (path : Text) :
    Ancestry (isAbsolute path) (course path) (ancestors path) := by
  by_cases hpath : path = []
  · subst hpath
    exact .none
  · obtain ⟨first, rest, hsplit, hfirst, hrest⟩ := exists_splitOn path
    have hpieces : ∀ piece ∈ rest.reverse, '/' ∉ piece := fun piece hmem =>
      hrest piece (List.mem_reverse.mp hmem)
    have habsolute : isAbsolute path = decide (first = []) := by
      rw [Bool.eq_iff_iff, isAbsolute_iff hsplit]
      simp [hpath]
    have hancestry := ancestry_ancestorsOfPieces hfirst hpieces
    rw [List.reverse_reverse] at hancestry
    rwa [habsolute, course, ancestors, hsplit]

/-- The beginnings of a course, without the whole of it. -/
def Begins (front whole : List Text) : Prop :=
  front <+: whole ∧ (front = whole → whole = [])

namespace Ancestry

variable {absolute : Bool} {whole paths : List Text}

theorem begins (h : Ancestry absolute whole paths) :
    ∀ above ∈ paths, isAbsolute above = absolute ∧ Begins (course above) whole := by
  induction h with
  | none => exact List.forall_mem_nil _
  | idle habsolute =>
      refine List.forall_mem_singleton.mpr ⟨habsolute.symm, ?_⟩
      exact ⟨List.nil_prefix, Eq.symm⟩
  | step piece hcourse habsolute _ ih =>
      refine List.forall_mem_cons.mpr ⟨⟨habsolute, ?_, ?_⟩, fun above hmem => ?_⟩
      · rw [hcourse]
        exact List.prefix_append _ _
      · simp [hcourse]
      · obtain ⟨habove, hprefix, -⟩ := ih above hmem
        refine ⟨habove, hprefix.trans (List.prefix_append _ _), fun heq => ?_⟩
        have hlength := hprefix.length_le
        rw [heq, List.length_append, List.length_singleton] at hlength
        omega

theorem exists_mem (h : Ancestry absolute whole paths) {front back : List Text} (hback : back ≠ [])
    (hwhole : whole = front ++ back) : ∃ above ∈ paths, course above = front := by
  induction h generalizing back with
  | none => exact absurd (List.append_eq_nil_iff.mp hwhole.symm).2 hback
  | idle => exact absurd (List.append_eq_nil_iff.mp hwhole.symm).2 hback
  | @step above start piece higher hcourse _ _ ih =>
      obtain ⟨others, last, rfl⟩ := (List.eq_nil_or_concat back).resolve_left hback
      rw [List.concat_eq_append, ← List.append_assoc] at hwhole
      obtain ⟨hfront, -⟩ := List.append_inj' hwhole rfl
      by_cases hothers : others = []
      · subst hothers
        exact ⟨above, List.mem_cons_self, by rw [hcourse, hfront, List.append_nil]⟩
      · obtain ⟨found, hmem, hfound⟩ := ih hothers hfront
        exact ⟨found, List.mem_cons_of_mem _ hmem, hfound⟩

theorem course_of_head? (h : Ancestry absolute whole paths) (hhead : paths.head? = some above) :
    course above = whole.dropLast := by
  cases h with
  | none => cases hhead
  | idle =>
      cases hhead
      rfl
  | step piece hcourse =>
      cases hhead
      rw [hcourse, List.dropLast_concat]

end Ancestry

theorem begins_of_mem_ancestors (h : above ∈ ancestors path) :
    isAbsolute above = isAbsolute path ∧ Begins (course above) (course path) :=
  (ancestry_ancestors path).begins above h

theorem properComponents_prefix_of_mem_ancestors (h : above ∈ ancestors path) :
    properComponents above <+: properComponents path := by
  obtain ⟨habsolute, ⟨more, hmore⟩, -⟩ := begins_of_mem_ancestors h
  refine ⟨more.map Component.ofPiece, ?_⟩
  rw [properComponents_eq, properComponents_eq path, habsolute, ← hmore, List.map_append,
    List.append_assoc]

/-- Every beginning of a course is that of an ancestor. -/
theorem exists_mem_ancestors {front back : List Text} (hback : back ≠ [])
    (h : course path = front ++ back) : ∃ above ∈ ancestors path, course above = front :=
  (ancestry_ancestors path).exists_mem hback h

theorem course_of_parent? (h : parent? path = some above) :
    course above = (course path).dropLast :=
  (ancestry_ancestors path).course_of_head? h

end TemplateSuite.Path
