import TemplateSuite.Macro.Call
import TemplateSuite.Proofs.Text.Reading
import TemplateSuite.Proofs.Traversal

namespace TemplateSuite

/-- The sigil and an identifier after it. -/
def IsMacroName (name : Text) : Prop :=
  ∃ identifier, name = sigil :: identifier ∧ isIdentifier identifier

/-- The macro can be made. -/
def Macro.IsMade (m : Macro) : Prop :=
  ∃ name params, Macro.make name m.body params = .ok m

variable {name text after : Text} {c : Char}

theorem isBlank_of_isIdentifierChar (h : isIdentifierChar c) : Text.isBlank c = false := by
  have hrange : 48 ≤ c.toNat ∧ c.toNat ≤ 122 := by
    have hends : 'A'.val.toNat = 65 ∧ 'Z'.val.toNat = 90 ∧ 'a'.val.toNat = 97 ∧
        'z'.val.toNat = 122 ∧ '0'.val.toNat = 48 ∧ '9'.val.toNat = 57 := by decide
    have hunderscore : '_'.toNat = 95 := rfl
    have hval : c.val.toNat = c.toNat := rfl
    simp only [isIdentifierChar, Char.isAlphanum] at h
    delta Char.isAlpha Char.isUpper Char.isLower at h
    simp only [Char.isDigit, Bool.or_eq_true, Bool.and_eq_true, decide_eq_true_eq, beq_iff_eq,
      ge_iff_le, UInt32.le_iff_toNat_le, hval] at h
    rcases h with hletter | rfl <;> omega
  simp [Text.isBlank]
  omega

theorem isIdentifierChar_of_isBlank (h : Text.isBlank c) : isIdentifierChar c = false := by
  rw [← Bool.not_eq_true]
  intro hidentifier
  exact Bool.false_ne_true ((isBlank_of_isIdentifierChar hidentifier).symm.trans h)

theorem identifierChar_of_isIdentifier {identifier : Text} (h : isIdentifier identifier) :
    identifier ≠ [] ∧ ∀ c ∈ identifier, isIdentifierChar c := by
  simpa [isIdentifier] using h

namespace IsMacroName

theorem head? (h : IsMacroName name) : name.head? = some sigil := by
  obtain ⟨identifier, rfl, -⟩ := h
  rfl

theorem not_mem (h : IsMacroName name) (hsigil : c ≠ sigil) (hc : isIdentifierChar c = false) :
    c ∉ name := by
  obtain ⟨identifier, rfl, hidentifier⟩ := h
  intro hmem
  rcases List.mem_cons.mp hmem with heq | hmem
  · exact hsigil heq
  · have hchar : isIdentifierChar c := (identifierChar_of_isIdentifier hidentifier).2 c hmem
    exact Bool.false_ne_true (hc.symm.trans hchar)

theorem getLast? (h : IsMacroName name) : ∀ c ∈ name.getLast?, isIdentifierChar c := by
  obtain ⟨identifier, rfl, hidentifier⟩ := h
  obtain ⟨hne, hchars⟩ := identifierChar_of_isIdentifier hidentifier
  intro c hc
  rw [List.getLast?_cons_of_ne_nil hne] at hc
  exact hchars c (List.mem_of_getLast? hc)

theorem trim (h : IsMacroName name) : Text.trim name = name := by
  apply Text.trim_of_ends
  · intro c hc
    obtain rfl : sigil = c := Option.some.inj (h.head?.symm.trans hc)
    rfl
  · exact fun c hc => isBlank_of_isIdentifierChar (h.getLast? c hc)

theorem withSigil (h : IsMacroName name) : withSigil name = name := if_pos h.head?

theorem isMacroName_withSigil (h : IsMacroName name) :
    IsMacroName (TemplateSuite.withSigil name) := by
  rwa [h.withSigil]

theorem withSigil_tail (h : IsMacroName name) : TemplateSuite.withSigil name.tail = name := by
  obtain ⟨identifier, rfl, hidentifier⟩ := h
  obtain ⟨-, hchars⟩ := identifierChar_of_isIdentifier hidentifier
  refine if_neg fun hhead => ?_
  have hsigil := hchars sigil (List.mem_of_head? hhead)
  cases hsigil

theorem nameAtStart?_append (h : IsMacroName name)
    (hafter : ∀ c ∈ after.head?, isIdentifierChar c = false) :
    Call.nameAtStart? (name ++ after) = some (name, after) := by
  obtain ⟨identifier, rfl, hidentifier⟩ := h
  obtain ⟨hne, hchars⟩ := identifierChar_of_isIdentifier hidentifier
  rw [List.cons_append, sigil, Call.nameAtStart?, Text.takeWhile_run hchars hafter,
    Text.dropWhile_run hchars hafter]
  cases identifier with
  | nil => exact absurd rfl hne
  | cons c rest => rfl

theorem parse? (h : IsMacroName name) : Call.parse? name = some ⟨name, []⟩ := by
  have hleft : Text.trimLeft name = name := by
    apply Text.trimLeft_of_head?
    intro c hc
    obtain rfl : sigil = c := Option.some.inj (h.head?.symm.trans hc)
    rfl
  have hread : Call.nameAtStart? name = some (name, []) := by
    have happend : Call.nameAtStart? (name ++ []) = some (name, []) :=
      h.nameAtStart?_append nofun
    rwa [List.append_nil] at happend
  rw [Call.parse?, hleft, hread]
  rfl

end IsMacroName

theorem isMacroName_or_isIdentifier (h : IsMacroName (withSigil name)) :
    IsMacroName name ∨ isIdentifier name := by
  unfold withSigil at h
  split at h
  · exact .inl h
  · obtain ⟨identifier, hname, hidentifier⟩ := h
    cases hname
    exact .inr hidentifier

theorem trim_of_withSigil (h : IsMacroName (withSigil name)) : Text.trim name = name := by
  rcases isMacroName_or_isIdentifier h with hname | hidentifier
  · exact hname.trim
  · obtain ⟨-, hchars⟩ := identifierChar_of_isIdentifier hidentifier
    exact Text.trim_of_ends
      (fun c hc => isBlank_of_isIdentifierChar (hchars c (List.mem_of_head? hc)))
      fun c hc => isBlank_of_isIdentifierChar (hchars c (List.mem_of_getLast? hc))

theorem isIdentifier_takeWhile {rest : Text} (h : rest.takeWhile isIdentifierChar ≠ []) :
    isIdentifier (rest.takeWhile isIdentifierChar) := by
  rw [isIdentifier, List.all_takeWhile, Bool.and_true, Bool.not_eq_true', List.isEmpty_eq_false_iff]
  exact h

theorem eq_append_of_nameAtStart? (h : Call.nameAtStart? text = some (name, after)) :
    text = name ++ after ∧ IsMacroName name ∧ ∀ d ∈ after.head?, isIdentifierChar d = false := by
  unfold Call.nameAtStart? at h
  split at h
  · rename_i rest
    split at h
    · cases h
    · rename_i hidentifier
      cases h
      exact ⟨congrArg (sigil :: ·) List.takeWhile_append_dropWhile.symm,
        ⟨_, rfl, isIdentifier_takeWhile hidentifier⟩, Text.not_of_head?_dropWhile rest⟩
  · cases h

namespace Macro

theorem isMacroName_of_checkName (h : checkName text = .ok name) : IsMacroName name := by
  unfold checkName at h
  dsimp only at h
  split at h
  · rename_i hidentifier
    cases h
    refine ⟨_, ?_, hidentifier⟩
    unfold withSigil
    split
    · rename_i hhead
      obtain ⟨rest, hrest⟩ := List.head?_eq_some_iff.mp hhead
      rw [hrest]
      rfl
    · rfl
  · cases h

theorem checkName_eq_ok_iff {full : Text} (h : Text.trim name = name) :
    checkName name = .ok full ↔ IsMacroName (withSigil name) ∧ withSigil name = full := by
  constructor
  · intro hcheck
    have hfull : withSigil name = full := by
      unfold checkName at hcheck
      dsimp only at hcheck
      rw [h] at hcheck
      split at hcheck
      · exact Except.ok.inj hcheck
      · cases hcheck
    exact ⟨hfull ▸ isMacroName_of_checkName hcheck, hfull⟩
  · rintro ⟨⟨identifier, hname, hidentifier⟩, rfl⟩
    rw [checkName, h, hname]
    exact if_pos hidentifier

theorem mapM_checkName_eq_ok_iff {params found : List Text}
    (h : ∀ param ∈ params, Text.trim param = param) :
    params.mapM checkName = .ok found ↔
      (∀ param ∈ params, IsMacroName (withSigil param)) ∧ params.map withSigil = found := by
  rw [Traversal.mapM_eq_ok_iff]
  induction params generalizing found with
  | nil => simp [List.forall₂_nil_left_iff, eq_comm]
  | cons param rest ih =>
      obtain ⟨hparam, hrest⟩ := List.forall_mem_cons.mp h
      rw [List.forall₂_cons_left_iff, List.forall_mem_cons, List.map_cons]
      constructor
      · rintro ⟨full, others, hcheck, hothers, rfl⟩
        obtain ⟨hname, rfl⟩ := (checkName_eq_ok_iff hparam).mp hcheck
        obtain ⟨hnames, rfl⟩ := (ih hrest).mp hothers
        exact ⟨⟨hname, hnames⟩, rfl⟩
      · rintro ⟨⟨hname, hnames⟩, rfl⟩
        exact ⟨_, _, (checkName_eq_ok_iff hparam).mpr ⟨hname, rfl⟩, (ih hrest).mpr ⟨hnames, rfl⟩, rfl⟩

/-- Trimmed names make a macro exactly if they are valid once they have the sigil. -/
theorem make_eq_ok_iff {body : Text} {params : List Text} {m : Macro} (hname : Text.trim name = name)
    (hparams : ∀ param ∈ params, Text.trim param = param) :
    make name body params = .ok m ↔
      IsMacroName (withSigil name) ∧ (∀ param ∈ params, IsMacroName (withSigil param)) ∧
        ⟨withSigil name, body, params.map withSigil⟩ = m := by
  unfold make
  constructor
  · intro h
    split at h
    · cases h
    · obtain ⟨own, hown, h⟩ := Traversal.bind_eq_ok h
      obtain ⟨found, hfound, h⟩ := Traversal.bind_eq_ok h
      obtain ⟨hvalid, rfl⟩ := (checkName_eq_ok_iff hname).mp hown
      obtain ⟨hnames, rfl⟩ := (mapM_checkName_eq_ok_iff hparams).mp hfound
      cases h
      exact ⟨hvalid, hnames, rfl⟩
  · rintro ⟨hvalid, hnames, rfl⟩
    have hne : Text.trim name ≠ [] := by
      rw [hname]
      rintro rfl
      obtain ⟨identifier, heq, hidentifier⟩ := hvalid
      cases heq
      cases hidentifier
    rw [if_neg hne, (checkName_eq_ok_iff hname).mpr ⟨hvalid, rfl⟩,
      (mapM_checkName_eq_ok_iff hparams).mpr ⟨hnames, rfl⟩]
    rfl

theorem map_withSigil {params : List Text} (h : ∀ param ∈ params, IsMacroName param) :
    params.map withSigil = params :=
  (List.map_congr_left fun param hparam => (h param hparam).withSigil).trans (List.map_id params)

theorem make_of_names {m : Macro} (hname : IsMacroName m.name)
    (hparams : ∀ param ∈ m.params, IsMacroName param) :
    make m.name m.body m.params = .ok m := by
  refine (make_eq_ok_iff hname.trim fun param hparam => (hparams param hparam).trim).mpr
    ⟨hname.isMacroName_withSigil, fun param hparam => (hparams param hparam).isMacroName_withSigil, ?_⟩
  rw [hname.withSigil, map_withSigil hparams]

theorem isMacroName_of_make {body : Text} {params : List Text} {m : Macro}
    (h : make name body params = .ok m) :
    IsMacroName m.name ∧ ∀ param ∈ m.params, IsMacroName param := by
  unfold make at h
  split at h
  · cases h
  · obtain ⟨own, hown, h⟩ := Traversal.bind_eq_ok h
    obtain ⟨found, hfound, h⟩ := Traversal.bind_eq_ok h
    cases h
    refine ⟨isMacroName_of_checkName hown, fun param hparam => ?_⟩
    have hpairs := (Traversal.mapM_eq_ok_iff.mp hfound).flip
    obtain ⟨given, hgiven⟩ := Traversal.exists_forall₂_iff.mp ⟨_, hpairs⟩ param hparam
    exact isMacroName_of_checkName hgiven

theorem isMade_iff {m : Macro} :
    m.IsMade ↔ IsMacroName m.name ∧ ∀ param ∈ m.params, IsMacroName param := by
  constructor
  · rintro ⟨given, params, hmake⟩
    exact isMacroName_of_make hmake
  · rintro ⟨hname, hparams⟩
    exact ⟨m.name, m.params, make_of_names hname hparams⟩

theorem isMade_of_make {body : Text} {params : List Text} {m : Macro}
    (h : make name body params = .ok m) : m.IsMade :=
  isMade_iff.mpr (isMacroName_of_make h)

end Macro

end TemplateSuite
