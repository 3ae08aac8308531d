import TemplateSuite.FileSystem.Basic

namespace TemplateSuite

theorem Node.at?_append (above below : Location) (node : Node) :
    at? (above ++ below) node = (at? above node).bind (at? below) := by
  induction above generalizing node with
  | nil => rfl
  | cons name rest ih =>
      rw [List.cons_append, at?, at?, Option.bind_assoc]
      congr 1
      funext child
      exact ih child

theorem Node.entries_subset_childEntries {name : Text} {child : Node}
    {children : List (Text × Node)} (place : Location) (h : children.lookup name = some child) :
    child.entries (place ++ [name]) ⊆ childEntries place children := by
  induction children with
  | nil => cases h
  | cons first rest ih =>
      obtain ⟨other, node⟩ := first
      rw [childEntries]
      by_cases hname : name = other
      · subst hname
        rw [List.lookup_cons_self] at h
        cases h
        exact List.subset_append_left _ _
      · rw [List.lookup_cons, beq_false_of_ne hname] at h
        exact List.subset_append_of_subset_right _ (ih h)

theorem Node.mem_entries {node found : Node} {below : Location} (place : Location)
    (h : node.at? below = some found) : (place ++ below, found.entry) ∈ node.entries place := by
  induction below generalizing node place with
  | nil =>
      cases h
      rw [List.append_nil]
      cases found <;> exact List.mem_cons_self
  | cons name rest ih =>
      obtain ⟨child, hlookup, hchild⟩ := Option.bind_eq_some_iff.mp h
      cases node with
      | file content executable => cases hlookup
      | link target => cases hlookup
      | directory children =>
          have hmem := ih (place ++ [name]) hchild
          rw [List.append_assoc, List.singleton_append] at hmem
          exact List.mem_cons_of_mem _ (entries_subset_childEntries place hlookup hmem)

namespace FileSystem

variable {fs fs' : FileSystem} {place other above : Location} {entry found : Entry}

theorem entryAt_of_encloses (hplace : place.Encloses other)
    (h : fs.entryAt other = some entry) : fs.entryAt place = some .directory := by
  obtain ⟨⟨below, rfl⟩, hne⟩ := hplace
  rw [entryAt, Node.at?_append] at h
  obtain ⟨child, hchild, -⟩ := Option.map_eq_some_iff.mp h
  obtain ⟨node, hnode, hbelow⟩ := Option.bind_eq_some_iff.mp hchild
  cases below with
  | nil => exact absurd (List.append_nil place).symm hne
  | cons name rest =>
      by_cases hdir : node.entry = .directory
      · rw [entryAt, hnode, Option.map_some, hdir]
      · simp [Node.at?, Node.children_of_entry_ne_directory hdir] at hbelow

theorem entryAt_above {name : Text} (h : fs.entryAt (above ++ [name]) = some entry) :
    fs.entryAt above = some .directory :=
  entryAt_of_encloses ⟨List.prefix_append _ _, by simp⟩ h

theorem entryAt_dropLast (h : fs.entryAt place = some .directory) :
    fs.entryAt place.dropLast = some .directory := by
  rcases List.eq_nil_or_concat place with rfl | ⟨above, name, rfl⟩
  · exact h
  · rw [List.concat_eq_append, List.dropLast_concat]
    rw [List.concat_eq_append] at h
    exact entryAt_above h

/-- At the location there is a file with the text. -/
def HasText (fs : FileSystem) (place : Location) (text : Text) : Prop :=
  ∃ executable, fs.entryAt place = some (.file (.text text) executable)

/-- Everything is still there as it was. -/
structure Extends (fs fs' : FileSystem) : Prop where
  entries : ∀ {place entry}, fs.entryAt place = some entry → fs'.entryAt place = some entry
  workingDirectory : fs'.workingDirectory = fs.workingDirectory

theorem Extends.refl (fs : FileSystem) : fs.Extends fs :=
  ⟨fun h => h, rfl⟩

theorem Extends.trans {fs'' : FileSystem} (hfirst : fs.Extends fs') (hsecond : fs'.Extends fs'') :
    fs.Extends fs'' :=
  ⟨fun h => hsecond.entries (hfirst.entries h),
    hsecond.workingDirectory.trans hfirst.workingDirectory⟩

theorem entryAt_put_of_ne (hplace : fs.entryAt place ≠ some .directory) (hne : other ≠ place)
    (h : fs.entryAt other = some found) :
    (fs.put place entry).entryAt other = some found := by
  have hkept : ¬ place <+: other := fun hbelow =>
    hplace (entryAt_of_encloses ⟨hbelow, hne.symm⟩ h)
  exact (fs.entryAt_change_of_not_prefix _ hkept).trans h

theorem extends_put (h : fs.entryAt place = none) : fs.Extends (fs.put place entry) where
  entries := by
    intro other found hother
    refine entryAt_put_of_ne (by simp [h]) ?_ hother
    rintro rfl
    simp [h] at hother
  workingDirectory := rfl

theorem entryAt_put_of_some (hne : place ≠ []) (h : fs.entryAt place = some found) :
    (fs.put place entry).entryAt place = some entry := by
  obtain ⟨above, name, rfl⟩ := (List.eq_nil_or_concat place).resolve_left hne
  rw [List.concat_eq_append] at h ⊢
  exact entryAt_put_self fs above name entry (entryAt_above h)

theorem eq_or_of_entryAt_put (hplace : fs.entryAt place ≠ some .directory)
    (h : (fs.put place entry).entryAt other = some found) :
    other = place ∧ found = entry ∨ fs.entryAt other = some found := by
  by_cases hprefix : place <+: other
  · obtain ⟨below, rfl⟩ := hprefix
    rcases List.eq_nil_or_concat place with rfl | ⟨above, name, rfl⟩
    · exact absurd (entryAt_root fs) hplace
    · rw [List.concat_eq_append] at hplace h ⊢
      have habove : fs.entryAt above = some .directory := by
        have hkept : ¬ above ++ [name] <+: above := fun hprefix => by
          have hlength := hprefix.length_le
          rw [List.length_append, List.length_singleton] at hlength
          omega
        rw [← fs.entryAt_put_of_not_prefix entry hkept]
        exact entryAt_of_encloses ⟨⟨name :: below, by simp⟩, by simp⟩ h
      obtain ⟨children, hat⟩ := (fs.entryAt_eq_directory_iff above).mp habove
      have hchange := Node.at?_change_append
        (fun old => some (entry.toNode (old.elim [] Node.children))) above name below fs.tree hat
      -- what was at the place was no directory, so nothing is below the new entry
      have hold : (children.lookup name).elim [] Node.children = [] := by
        cases hlookup : children.lookup name with
        | none => rfl
        | some node =>
            refine Node.children_of_entry_ne_directory fun hdirectory => hplace ?_
            rw [entryAt, Node.at?_append, hat, Option.bind_some, Node.at?_cons_directory, hlookup]
            exact congrArg some hdirectory
      rw [entryAt, put, tree_change fs _ (by simp), List.append_assoc, List.singleton_append,
        hchange, hold, Option.bind_some] at h
      cases below with
      | nil =>
          refine .inl ⟨List.append_nil _, ?_⟩
          rw [← Option.some.inj h]
          exact Node.entry_toNode entry []
      | cons next rest =>
          have hempty : (entry.toNode []).children = [] := by cases entry <;> rfl
          rw [Node.at?, hempty] at h
          cases h
  · exact .inr ((fs.entryAt_put_of_not_prefix entry hprefix).symm.trans h)

theorem erase_extends (fs : FileSystem) (place : Location) : (fs.erase place).Extends fs where
  entries := by
    intro other entry h
    by_cases hprefix : place <+: other
    · by_cases hplace : place = []
      · subst hplace
        exact h
      · rw [fs.entryAt_erase_of_prefix hplace hprefix] at h
        cases h
    · exact (fs.entryAt_erase_of_not_prefix hprefix).symm.trans h
  workingDirectory := rfl

theorem clearBelow_extends (fs : FileSystem) (place : Location) :
    (fs.clearBelow place).Extends fs where
  entries := by
    intro other entry h
    rw [entryAt_clearBelow] at h
    split at h
    · cases h
    · exact h
  workingDirectory := rfl

theorem mem_entries (hplace : place ≠ []) (h : fs.entryAt place = some entry) :
    (place, entry) ∈ fs.entries := by
  obtain ⟨node, hnode, rfl⟩ := Option.map_eq_some_iff.mp h
  have hmem := Node.mem_entries [] hnode
  rw [List.nil_append, tree, Node.entries] at hmem
  refine (List.mem_cons.mp hmem).resolve_left fun heq => hplace ?_
  exact congrArg Prod.fst heq

theorem entryAt_ne_link (h : fs.entries.all fun listed => !listed.2.isLink) (place : Location)
    (target : Text) : fs.entryAt place ≠ some (.link target) := by
  intro hlink
  by_cases hplace : place = []
  · subst hplace
    cases hlink
  · have hlisted := List.all_eq_true.mp h _ (mem_entries hplace hlink)
    cases hlisted

end FileSystem

end TemplateSuite
