import TemplateSuite.Config.Predefined
import TemplateSuite.Proofs.Macro.Environment

namespace TemplateSuite

namespace Predefined

variable {macros : List Macro}

theorem isMade_of_limitMacros {complement : Complement} {typeName : Text} {bits : Nat}
    (h : limitMacros complement typeName bits = .ok macros) : ∀ m ∈ macros, m.IsMade := by
  unfold limitMacros at h
  split at h
  · cases h
  · obtain ⟨signedMin, hsignedMin, h⟩ := Traversal.bind_eq_ok h
    obtain ⟨signedMax, hsignedMax, h⟩ := Traversal.bind_eq_ok h
    obtain ⟨unsignedMin, hunsignedMin, h⟩ := Traversal.bind_eq_ok h
    obtain ⟨unsignedMax, hunsignedMax, h⟩ := Traversal.bind_eq_ok h
    cases h
    simp only [List.forall_mem_cons]
    exact ⟨Macro.isMade_of_make hsignedMin, Macro.isMade_of_make hsignedMax,
      Macro.isMade_of_make hunsignedMin, Macro.isMade_of_make hunsignedMax, nofun⟩

theorem isMade_of_toolchainMacros {config : Config} (h : toolchainMacros config = .ok macros) :
    ∀ m ∈ macros, m.IsMade := by
  unfold toolchainMacros at h
  obtain ⟨compiler, hcompiler, h⟩ := Traversal.bind_eq_ok h
  obtain ⟨language, hlanguage, h⟩ := Traversal.bind_eq_ok h
  obtain ⟨options, hoptions, h⟩ := Traversal.bind_eq_ok h
  cases h
  simp only [List.forall_mem_cons]
  exact ⟨Macro.isMade_of_make hcompiler, Macro.isMade_of_make hlanguage,
    Macro.isMade_of_make hoptions, nofun⟩

end Predefined

theorem Config.isSound_of_predefinedMacros {config : Config} {env : Environment}
    (h : config.predefinedMacros = .ok env) : env.IsSound := by
  unfold predefinedMacros at h
  obtain ⟨limits, hlimits, h⟩ := Traversal.bind_eq_ok h
  obtain ⟨tools, htools, h⟩ := Traversal.bind_eq_ok h
  cases h
  refine Environment.isSound_empty.extend fun m hm => ?_
  rcases List.mem_append.mp hm with hmem | hmem
  · obtain ⟨macros, hmacros, hmem⟩ := List.mem_flatten.mp hmem
    have hpairs := (Traversal.mapM_eq_ok_iff.mp hlimits).flip
    obtain ⟨type, hmade⟩ := Traversal.exists_forall₂_iff.mp ⟨_, hpairs⟩ macros hmacros
    exact Predefined.isMade_of_limitMacros hmade m hmem
  · exact Predefined.isMade_of_toolchainMacros htools m hmem

theorem Macro.constant_of_isIdentifier {name : Text} (h : isIdentifier name) (body : Text) :
    constant name body = .ok ⟨sigil :: name, body, []⟩ := by
  obtain ⟨hne, hchars⟩ := identifierChar_of_isIdentifier h
  have hname : IsMacroName (sigil :: name) := ⟨name, rfl, h⟩
  have htrim : Text.trim name = name := by
    apply Text.trim_of_ends
    · exact fun c hc => isBlank_of_isIdentifierChar (hchars c (List.mem_of_head? hc))
    · exact fun c hc => isBlank_of_isIdentifierChar (hchars c (List.mem_of_getLast? hc))
  have hcheck : checkName name = .ok (sigil :: name) := by
    have hfull : withSigil name = sigil :: name := hname.withSigil_tail
    rw [checkName, htrim, hfull]
    exact if_pos h
  rw [constant, make, htrim, if_neg hne, hcheck]
  rfl

namespace Predefined

theorem isIdentifier_append {front back : Text} (hfront : ∀ c ∈ front, isIdentifierChar c)
    (hback : isIdentifier back) : isIdentifier (front ++ back) := by
  simp only [isIdentifier, Bool.and_eq_true, Bool.not_eq_true', List.isEmpty_eq_false_iff,
    List.all_eq_true] at hback ⊢
  refine ⟨List.append_ne_nil_of_right_ne_nil front hback.1, fun c hc => ?_⟩
  exact (List.mem_append.mp hc).elim (hfront c) (hback.2 c)

theorem limitMacros_of_limits {typeName : Text} {bits : Nat} {complement : Complement}
    {limits : IntegerLimits} (hstem : ∀ c ∈ stem typeName, isIdentifierChar c)
    (hlimits : integerLimits? typeName bits complement = some limits) :
    limitMacros complement typeName bits = .ok [
      ⟨sigil :: (stem typeName ++ "MIN"), limits.signedMin, []⟩,
      ⟨sigil :: (stem typeName ++ "MAX"), limits.signedMax, []⟩,
      ⟨sigil :: ('U' :: stem typeName ++ "MIN"), limits.unsignedMin, []⟩,
      ⟨sigil :: ('U' :: stem typeName ++ "MAX"), limits.unsignedMax, []⟩] := by
  have hunsigned : ∀ c ∈ 'U' :: stem typeName, isIdentifierChar c :=
    List.forall_mem_cons.mpr ⟨rfl, hstem⟩
  have hmin : isIdentifier "MIN" := rfl
  have hmax : isIdentifier "MAX" := rfl
  unfold limitMacros
  rw [hlimits]
  dsimp only
  rw [Macro.constant_of_isIdentifier (isIdentifier_append hstem hmin),
    Macro.constant_of_isIdentifier (isIdentifier_append hstem hmax),
    Macro.constant_of_isIdentifier (isIdentifier_append hunsigned hmin),
    Macro.constant_of_isIdentifier (isIdentifier_append hunsigned hmax)]
  rfl

theorem toolchainMacros_eq (config : Config) :
    toolchainMacros config = .ok [⟨"$COMPILER", config.compiler, []⟩,
      ⟨"$LANG", config.language, []⟩,
      ⟨"$OPTIONS", config.optionSeparator.intercalate config.options, []⟩] := by
  unfold toolchainMacros
  rw [Macro.constant_of_isIdentifier rfl, Macro.constant_of_isIdentifier rfl,
    Macro.constant_of_isIdentifier rfl]
  rfl

end Predefined

namespace Sizes

variable {s : Sizes} {typeName : Text} {bits : Nat}

theorem isIdentifierChar_of_mem_stem (h : (typeName, bits) ∈ s.integerTypes) :
    ∀ c ∈ Predefined.stem typeName, isIdentifierChar c := by
  have hname : typeName ∈ (["char", "short", "int", "long", "long long"] : List Text) := by
    unfold integerTypes at h
    cases hlong : s.longLong <;> simp [hlong] at h ⊢ <;> tauto
  have hall : ∀ name ∈ (["char", "short", "int", "long", "long long"] : List Text),
      (Predefined.stem name).all isIdentifierChar := by decide
  exact List.all_eq_true.mp (hall typeName hname)

theorem isIntegerWidth_of_fault? (h : s.fault? = none) (hmem : (typeName, bits) ∈ s.integerTypes) :
    isIntegerWidth bits := by
  unfold fault? at h
  split at h
  · cases h
  · rename_i hnone
    simpa using List.find?_eq_none.mp hnone _ hmem

end Sizes

namespace Config

variable {config : Config}

theorem fault?_of_validate (h : config.validate = .ok ()) : config.sizes.fault? = none := by
  unfold validate at h
  split at h
  · cases h
  · split at h
    · cases h
    · split at h
      · cases h
      · assumption

theorem exists_predefinedMacros (h : config.validate = .ok ()) :
    ∃ env, config.predefinedMacros = .ok env := by
  have hlimits : ∀ type ∈ config.sizes.integerTypes, ∃ macros,
      Predefined.limitMacros (.ofNumber config.complement.toNat) type.1 type.2 = .ok macros := by
    intro type hmem
    have hwidth := Sizes.isIntegerWidth_of_fault? (fault?_of_validate h) hmem
    exact ⟨_, Predefined.limitMacros_of_limits (Sizes.isIdentifierChar_of_mem_stem hmem)
      (if_pos hwidth)⟩
  obtain ⟨limits, hlimits⟩ := Traversal.exists_mapM_eq_ok_iff.mpr hlimits
  exact ⟨_, (Traversal.bind_of_ok hlimits _).trans
    (Traversal.bind_of_ok (Predefined.toolchainMacros_eq config) _)⟩

end Config

end TemplateSuite
