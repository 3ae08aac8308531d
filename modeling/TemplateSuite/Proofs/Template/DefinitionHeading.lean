import TemplateSuite.Proofs.Macro.WrittenCall
import TemplateSuite.Template.Definition

namespace TemplateSuite

namespace Definition

/-- A heading as it is written. -/
structure WrittenHeading where
  name : Text
  list : Option WrittenList

namespace WrittenHeading

variable (w : WrittenHeading)

def text : Text :=
  w.name ++ WrittenList.optionalText w.list

/-- The parameters, perhaps without their sigil. -/
def params : List Text :=
  ((w.list.map (·.list)).map parameters).getD []

/-- The macro with this heading and the given body. -/
def define (body : Text) : Macro :=
  ⟨withSigil w.name, body, w.params.map withSigil⟩

structure HasForm : Prop where
  name : IsMacroName (withSigil w.name)
  list : ∀ l ∈ w.list, l.HasForm

structure IsValid : Prop extends w.HasForm where
  params : ∀ param ∈ w.params, IsMacroName (withSigil param)

end WrittenHeading

variable {text name after list : Text}

theorem nameAtStart?_append (h : IsMacroName (withSigil name))
    (hafter : ∀ c ∈ after.head?, isIdentifierChar c = false) :
    nameAtStart? (name ++ after) = some (name, after) := by
  rcases isMacroName_or_isIdentifier h with hname | hidentifier
  · have hread := hname.nameAtStart?_append hafter
    obtain ⟨identifier, rfl, -⟩ := hname
    exact hread
  · obtain ⟨hne, hchars⟩ := identifierChar_of_isIdentifier hidentifier
    obtain ⟨c, rest, rfl⟩ := List.exists_cons_of_ne_nil hne
    unfold nameAtStart?
    split
    · rename_i heq
      cases heq
      cases hchars '$' List.mem_cons_self
    · rw [Text.takeWhile_run hchars hafter, Text.dropWhile_run hchars hafter]

theorem eq_append_of_nameAtStart? (h : nameAtStart? text = some (name, after)) :
    text = name ++ after ∧ IsMacroName (withSigil name) := by
  unfold nameAtStart? at h
  split at h
  · obtain ⟨htext, hname, -⟩ := TemplateSuite.eq_append_of_nameAtStart? h
    exact ⟨htext, hname.isMacroName_withSigil⟩
  · rename_i hsigil
    split at h
    · cases h
    · rename_i hne
      cases h
      refine ⟨List.takeWhile_append_dropWhile.symm, ?_⟩
      have hidentifier := isIdentifier_takeWhile hne
      have hhead : (text.takeWhile isIdentifierChar).head? ≠ some sigil := fun hhead => by
        cases (identifierChar_of_isIdentifier hidentifier).2 sigil (List.mem_of_head? hhead)
      exact ⟨_, if_neg hhead, hidentifier⟩

theorem WrittenHeading.HasForm.heading?_text {w : WrittenHeading} (h : w.HasForm) :
    heading? w.text = some (w.name, w.list.map (·.list)) := by
  have hstart : nameAtStart? (w.name ++ (WrittenList.optionalText w.list ++ [])) =
      some (w.name, WrittenList.optionalText w.list ++ []) :=
    nameAtStart?_append h.name (WrittenList.not_identifierChar_optionalText h.list nofun)
  rw [List.append_nil] at hstart
  rw [heading?, WrittenHeading.text, hstart]
  unfold WrittenList.optionalText
  cases hlist : w.list with
  | none => rfl
  | some l => simp only [Option.map_some, Option.getD_some, (h.list l hlist).listAtStart?_text]

theorem exists_of_heading? {list? : Option Text}
    (h : heading? (Text.trim text) = some (name, list?)) :
    ∃ w : WrittenHeading, w.HasForm ∧ w.text = Text.trim text ∧ w.name = name ∧
      w.list.map (·.list) = list? := by
  unfold heading? at h
  split at h
  · cases h
  · rename_i found after hstart
    obtain ⟨htext, hname⟩ := eq_append_of_nameAtStart? hstart
    split at h
    · rename_i list hlist
      cases h
      obtain ⟨l, hl, rfl, rfl⟩ := WrittenList.listAtStart?_trimLeft_eq_some_iff.mp hlist
      refine ⟨⟨name, some l⟩, ⟨hname, by rintro _ ⟨⟩; exact hl⟩, ?_, rfl, rfl⟩
      rw [htext, List.append_nil]
      rfl
    · cases h
    · split at h
      · rename_i hblank
        cases h
        -- nothing blank stands at the end of a trimmed text
        have htrim := Text.trim_append_blank name (List.all_eq_true.mp hblank)
        rw [← htext, Text.trim_trim, trim_of_withSigil hname] at htrim
        refine ⟨⟨name, none⟩, ⟨hname, nofun⟩, ?_, rfl, rfl⟩
        rw [htrim]
        exact List.append_nil _
      · cases h

theorem trim_of_mem_parameters {param : Text} (h : param ∈ parameters list) :
    Text.trim param = param := by
  obtain ⟨piece, -, rfl⟩ := List.mem_map.mp (List.mem_filter.mp h).1
  exact Text.trim_trim piece

theorem WrittenHeading.trim_of_mem_params {w : WrittenHeading} {param : Text}
    (h : param ∈ w.params) : Text.trim param = param := by
  unfold WrittenHeading.params at h
  cases hlist : w.list with
  | none =>
      rw [hlist] at h
      cases h
  | some l =>
      rw [hlist] at h
      exact trim_of_mem_parameters h

theorem WrittenHeading.HasForm.make_eq_ok_iff {w : WrittenHeading} (h : w.HasForm) {body : Text}
    {m : Macro} :
    Macro.make w.name body w.params = .ok m ↔ w.IsValid ∧ w.define body = m := by
  rw [Macro.make_eq_ok_iff (trim_of_withSigil h.name) fun param => w.trim_of_mem_params]
  constructor
  · rintro ⟨-, hparams, hm⟩
    exact ⟨⟨h, hparams⟩, hm⟩
  · rintro ⟨hvalid, hm⟩
    exact ⟨h.name, hvalid.params, hm⟩

/-- A section defines a macro exactly if its argument is a valid heading. -/
theorem ofSection_eq_ok_iff {s : Section} {m : Macro} :
    ofSection s = .ok m ↔
      ∃ w : WrittenHeading, w.IsValid ∧ w.text = Text.trim s.argument ∧
        w.define (stripComments s.body) = m := by
  unfold ofSection
  dsimp only
  constructor
  · intro h
    split at h
    · cases h
    · rename_i name list? hheading
      obtain ⟨w, hw, htext, rfl, rfl⟩ := exists_of_heading? hheading
      obtain ⟨hvalid, hm⟩ := hw.make_eq_ok_iff.mp (Traversal.mapError_eq_ok_iff.mp h)
      exact ⟨w, hvalid, htext, hm⟩
  · rintro ⟨w, hvalid, htext, hm⟩
    rw [← htext, hvalid.toHasForm.heading?_text]
    exact Traversal.mapError_eq_ok_iff.mpr (hvalid.toHasForm.make_eq_ok_iff.mpr ⟨hvalid, hm⟩)

end Definition

end TemplateSuite
