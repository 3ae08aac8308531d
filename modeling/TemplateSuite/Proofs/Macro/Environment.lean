import TemplateSuite.Proofs.Macro.Locality
import TemplateSuite.Proofs.Macro.Name

namespace TemplateSuite

namespace Environment

variable {env : Environment} {m : Macro} {macros : List Macro} {name : Text}

/-- The last macro of the name among those that were defined one after the other. -/
def lastOf? (macros : List Macro) (name : Text) : Option Macro :=
  macros.reverse.find? (·.name = name)

theorem lastOf?_cons (m : Macro) (rest : List Macro) (name : Text) :
    lastOf? (m :: rest) name = (lastOf? rest name).or (if m.name = name then some m else none) := by
  rw [lastOf?, List.reverse_cons, List.find?_append, lastOf?]
  by_cases h : m.name = name <;> simp [h]

theorem find?_extend (env : Environment) (macros : List Macro) (name : Text) :
    (env.extend macros).find? name = (lastOf? macros name).or (env.find? name) := by
  induction macros generalizing env with
  | nil => rfl
  | cons m rest ih =>
      have hdefine : (env.define m).find? name =
          (if m.name = name then some m else none).or (env.find? name) := by
        rw [find?_define]
        split <;> rfl
      calc (env.extend (m :: rest)).find? name
          = (lastOf? rest name).or ((env.define m).find? name) := ih (env.define m)
        _ = (lastOf? (m :: rest) name).or (env.find? name) := by
          rw [hdefine, lastOf?_cons, Option.or_assoc]

theorem extend_append (env : Environment) (macros more : List Macro) :
    env.extend (macros ++ more) = (env.extend macros).extend more :=
  List.foldl_append

theorem isSome_find?_extend (h : (env.find? name).isSome) (macros : List Macro) :
    ((env.extend macros).find? name).isSome := by
  rw [find?_extend, Option.isSome_or, h, Bool.or_true]

/-- The macros stand in the order of their names, no two of them under the same. -/
def IsOrdered (env : Environment) : Prop :=
  env.macros.Pairwise fun earlier later => earlier.name < later.name

theorem mem_insert {other : Macro} (h : other ∈ insert m macros) : other = m ∨ other ∈ macros := by
  induction macros with
  | nil => exact .inl (List.mem_singleton.mp h)
  | cons first rest ih =>
      rw [insert] at h
      split at h
      · exact (List.mem_cons.mp h).imp_right (List.mem_cons_of_mem first)
      · split at h
        · exact List.mem_cons.mp h
        · rcases List.mem_cons.mp h with rfl | hrest
          · exact .inr List.mem_cons_self
          · exact (ih hrest).imp_right (List.mem_cons_of_mem first)

theorem pairwise_insert (h : macros.Pairwise fun earlier later => earlier.name < later.name) :
    (insert m macros).Pairwise fun earlier later => earlier.name < later.name := by
  induction macros with
  | nil => exact List.pairwise_singleton _ _
  | cons first rest ih =>
      obtain ⟨hfirst, hrest⟩ := List.pairwise_cons.mp h
      rw [insert]
      split
      · rename_i hsame
        exact List.pairwise_cons.mpr ⟨fun later hlater => hsame ▸ hfirst later hlater, hrest⟩
      · rename_i hdifferent
        split
        · rename_i hbefore
          refine List.pairwise_cons.mpr ⟨fun later hlater => ?_, h⟩
          rcases List.mem_cons.mp hlater with rfl | hlater
          · exact hbefore
          · exact List.lt_trans hbefore (hfirst later hlater)
        · rename_i hafter
          refine List.pairwise_cons.mpr ⟨fun later hlater => ?_, ih hrest⟩
          rcases mem_insert hlater with rfl | hlater
          · exact (List.le_iff_lt_or_eq.mp hafter).resolve_right (Ne.symm hdifferent)
          · exact hfirst later hlater

theorem IsOrdered.define (h : env.IsOrdered) (m : Macro) : (env.define m).IsOrdered :=
  pairwise_insert h

theorem isOrdered_empty : empty.IsOrdered := .nil

theorem IsOrdered.find?_of_mem (h : env.IsOrdered) (hm : m ∈ env.macros) :
    env.find? m.name = some m := by
  obtain ⟨front, back, hsplit⟩ := List.append_of_mem hm
  have hfront : ∀ other ∈ front, other.name ≠ m.name := by
    intro other hother
    rw [IsOrdered, hsplit] at h
    have hbefore := (List.pairwise_append.mp h).2.2 other hother m List.mem_cons_self
    exact fun heq => List.lt_irrefl m.name (heq ▸ hbefore)
  rw [find?, hsplit, List.find?_append, List.find?_eq_none.mpr (by simpa using hfront)]
  simp

theorem name_of_find? (h : env.find? name = some m) : m.name = name := by
  simpa using List.find?_some h

theorem perm_insert (h : ∀ other ∈ macros, m.name ≠ other.name) :
    (insert m macros).Perm (m :: macros) := by
  induction macros with
  | nil => exact .refl _
  | cons first rest ih =>
      obtain ⟨hfirst, hrest⟩ := List.forall_mem_cons.mp h
      rw [insert, if_neg hfirst]
      split
      · exact .refl _
      · exact ((ih hrest).cons first).trans (.swap m first rest)

theorem perm_extend (h : ((env.macros ++ macros).map (·.name)).Nodup) :
    (env.extend macros).macros.Perm (env.macros ++ macros) := by
  induction macros generalizing env with
  | nil => simp [extend]
  | cons m rest ih =>
      have hmiddle : (env.macros ++ m :: rest).Perm (m :: (env.macros ++ rest)) := List.perm_middle
      have hnodup := (hmiddle.map (·.name)).nodup_iff.mp h
      have hnew : ∀ other ∈ env.macros, m.name ≠ other.name := fun other hother heq =>
        (List.nodup_cons.mp hnodup).1
          (List.mem_map.mpr ⟨other, List.mem_append_left rest hother, heq.symm⟩)
      have hinsert : ((env.define m).macros ++ rest).Perm (m :: (env.macros ++ rest)) :=
        (perm_insert hnew).append_right rest
      have hrest : ((env.define m).extend rest).macros.Perm ((env.define m).macros ++ rest) :=
        ih ((hinsert.map (·.name)).nodup_iff.mpr hnodup)
      exact hrest.trans (hinsert.trans hmiddle.symm)

/-- The macros stand in order, and all of them can be made. -/
structure IsSound (env : Environment) : Prop where
  isOrdered : env.IsOrdered
  isMade : ∀ m ∈ env.macros, m.IsMade

theorem isSound_empty : empty.IsSound := ⟨isOrdered_empty, nofun⟩

theorem IsSound.define (h : env.IsSound) (hm : m.IsMade) : (env.define m).IsSound where
  isOrdered := h.isOrdered.define m
  isMade other hother := by
    rcases mem_insert hother with rfl | hmem
    · exact hm
    · exact h.isMade other hmem

theorem IsSound.extend (h : env.IsSound) (hmacros : ∀ m ∈ macros, m.IsMade) :
    (env.extend macros).IsSound := by
  induction macros generalizing env with
  | nil => exact h
  | cons m rest ih =>
      obtain ⟨hm, hrest⟩ := List.forall_mem_cons.mp hmacros
      exact ih (h.define hm) hrest

theorem IsSound.get?_of_mem (h : env.IsSound) (hm : m ∈ env.macros) :
    env.get? m.name = some m ∧ env.get? m.name.tail = some m := by
  obtain ⟨hname, -⟩ := Macro.isMade_iff.mp (h.isMade m hm)
  rw [get?, get?, hname.withSigil, hname.withSigil_tail]
  exact ⟨h.isOrdered.find?_of_mem hm, h.isOrdered.find?_of_mem hm⟩

end Environment

end TemplateSuite
