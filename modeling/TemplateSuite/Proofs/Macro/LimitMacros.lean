import TemplateSuite.Proofs.Macro.Predefined
import TemplateSuite.Proofs.Text.Decimal

namespace TemplateSuite

open Traversal

/-- The limits of an integer type that there are macros for. -/
inductive Limit where
  | signedMin
  | signedMax
  | unsignedMin
  | unsignedMax
  deriving DecidableEq, Repr

namespace Limit

def all : List Limit :=
  [.signedMin, .signedMax, .unsignedMin, .unsignedMax]

def macroName (typeName : Text) : Limit → Text
  | .signedMin => sigil :: (Predefined.stem typeName ++ "MIN")
  | .signedMax => sigil :: (Predefined.stem typeName ++ "MAX")
  | .unsignedMin => sigil :: ('U' :: Predefined.stem typeName ++ "MIN")
  | .unsignedMax => sigil :: ('U' :: Predefined.stem typeName ++ "MAX")

/-- The limit of a type of the given width. -/
def value (complement : UInt8) (bits : Nat) : Limit → Int
  | .signedMin => -(2 ^ (bits - 1)) + if complement = 1 then 1 else 0
  | .signedMax => 2 ^ (bits - 1) - 1
  | .unsignedMin => 0
  | .unsignedMax => 2 ^ bits - 1

/-- What the literal has after its digits. -/
def ending (typeName : Text) : Limit → Text
  | .unsignedMin => []
  | _ => literalEnding typeName

theorem mem_all (limit : Limit) : limit ∈ all := by
  cases limit <;> decide

variable (complement : UInt8) (bits : Nat)

theorem signedMin_le_signedMax :
    value complement bits .signedMin ≤ value complement bits .signedMax := by
  have hhalf : (1 : Int) ≤ 2 ^ (bits - 1) := one_le_pow₀ (by decide)
  simp only [value]
  split <;> omega

theorem signedMax_le_unsignedMax :
    value complement bits .signedMax ≤ value complement bits .unsignedMax := by
  have hmono : (2 : Int) ^ (bits - 1) ≤ 2 ^ bits :=
    pow_le_pow_right₀ (by decide) (Nat.sub_le bits 1)
  simp only [value]
  omega

end Limit

namespace Sizes

theorem integerTypes_eq (s : Sizes) :
    s.integerTypes =
      ([("char", s.char.toNat), ("short", s.short.toNat), ("int", s.int.toNat),
        ("long", s.long.toNat)] : List (Text × Nat)) ++
        (s.longLong.map fun bits => (("long long" : Text), bits.toNat)).toList := by
  unfold integerTypes
  cases s.longLong with
  | none => rfl
  | some bits => rfl

theorem map_fst_integerTypes (s : Sizes) :
    s.integerTypes.map Prod.fst = (["char", "short", "int", "long"] : List Text) ∨
      s.integerTypes.map Prod.fst =
        (["char", "short", "int", "long", "long long"] : List Text) := by
  rw [s.integerTypes_eq]
  cases s.longLong with
  | none => exact .inl rfl
  | some bits => exact .inr rfl

end Sizes

namespace Predefined

variable {config : Config} {typeName : Text} {bits : Nat}

/-- The macro for a limit of a type. -/
def limitMacro (complement : UInt8) (type : Text × Nat) (limit : Limit) : Macro :=
  ⟨limit.macroName type.1,
    Text.signedDecimal (limit.value complement type.2) ++ limit.ending type.1, []⟩

/-- The macros of the toolchain. -/
def toolMacros (config : Config) : List Macro :=
  [⟨"$COMPILER", config.compiler, []⟩, ⟨"$LANG", config.language, []⟩,
    ⟨"$OPTIONS", config.optionSeparator.intercalate config.options, []⟩]

/-- The macros of a configuration, in the order in which they are defined. -/
def definitions (config : Config) : List Macro :=
  (config.sizes.integerTypes.flatMap fun type =>
    Limit.all.map (limitMacro config.complement type)) ++ toolMacros config

/-- The names of the predefined macros if these types have limits. -/
def names (typeNames : List Text) : List Text :=
  (typeNames.flatMap fun typeName => Limit.all.map (Limit.macroName typeName)) ++
    (["$COMPILER", "$LANG", "$OPTIONS"] : List Text)

theorem params_of_mem_definitions {m : Macro} (h : m ∈ definitions config) : m.params = [] := by
  rcases List.mem_append.mp h with hlimit | htool
  · obtain ⟨type, -, hlimit⟩ := List.mem_flatMap.mp hlimit
    obtain ⟨limit, -, rfl⟩ := List.mem_map.mp hlimit
    rfl
  · simp only [toolMacros, List.mem_cons, List.not_mem_nil, or_false] at htool
    rcases htool with rfl | rfl | rfl <;> rfl

theorem map_name_definitions (config : Config) :
    (definitions config).map (·.name) = names (config.sizes.integerTypes.map Prod.fst) := by
  simp only [definitions, names, List.map_append, List.map_flatMap, List.flatMap_map, List.map_map]
  rfl

theorem nodup_names (config : Config) : (names (config.sizes.integerTypes.map Prod.fst)).Nodup := by
  rcases config.sizes.map_fst_integerTypes with h | h <;> rw [h] <;> decide

example : names ["int", "long long"] =
    (["$INTMIN", "$INTMAX", "$UINTMIN", "$UINTMAX", "$LONGLONGMIN", "$LONGLONGMAX",
      "$ULONGLONGMIN", "$ULONGLONGMAX", "$COMPILER", "$LANG", "$OPTIONS"] : List Text) := by decide

theorem ofNumber_least (complement : UInt8) (bits : Nat) :
    (Complement.ofNumber complement.toNat).least bits = Limit.signedMin.value complement bits := by
  by_cases h : complement = 1
  · subst h
    simp [Complement.ofNumber, Complement.least, Limit.value]
  · have hnumber : complement.toNat ≠ 1 := fun heq => h (UInt8.toNat_inj.mp heq)
    simp [Complement.ofNumber, Complement.least, Limit.value, h, hnumber]

theorem decimal_pow_sub_one (n : Nat) :
    Text.decimal (Nat.pow 2 n - 1) = Text.signedDecimal (2 ^ n - 1) := by
  have hcast : (2 ^ n - 1 : Int) = ((2 ^ n - 1 : Nat) : Int) := by
    rw [Nat.cast_sub Nat.one_le_two_pow]
    push_cast
    rfl
  rw [hcast]
  rfl

theorem integerLimits?_eq (complement : UInt8) (h : isIntegerWidth bits) :
    integerLimits? typeName bits (.ofNumber complement.toNat) = some {
      signedMin := (limitMacro complement (typeName, bits) .signedMin).body
      signedMax := (limitMacro complement (typeName, bits) .signedMax).body
      unsignedMin := (limitMacro complement (typeName, bits) .unsignedMin).body
      unsignedMax := (limitMacro complement (typeName, bits) .unsignedMax).body } := by
  rw [integerLimits?, if_pos h, ofNumber_least, decimal_pow_sub_one, decimal_pow_sub_one]
  rfl

theorem limitMacros_eq {type : Text × Nat} (complement : UInt8)
    (hstem : ∀ c ∈ stem type.1, isIdentifierChar c) (h : isIntegerWidth type.2) :
    limitMacros (.ofNumber complement.toNat) type.1 type.2 =
      .ok (Limit.all.map (limitMacro complement type)) :=
  limitMacros_of_limits hstem (integerLimits?_eq complement h)

theorem limitMacros_eq_error (complement : Complement) (h : isIntegerWidth bits = false) :
    limitMacros complement typeName bits = .error (.badWidth typeName bits) := by
  have hnone : integerLimits? typeName bits complement = none := by
    rw [integerLimits?, h, if_neg Bool.false_ne_true]
  rw [limitMacros, hnone]
  rfl

end Predefined

theorem isIntegerWidth_eq_false_iff {bits : Nat} :
    isIntegerWidth bits = false ↔ bits = 0 ∨ 64 < bits := by
  rw [← Bool.not_eq_true, isIntegerWidth, maxIntegerBits, Bool.and_eq_true, decide_eq_true_eq,
    decide_eq_true_eq]
  omega

theorem isIntegerWidth_iff {bits : Nat} : isIntegerWidth bits ↔ 1 ≤ bits ∧ bits ≤ 64 := by
  rw [isIntegerWidth, maxIntegerBits, Bool.and_eq_true, decide_eq_true_eq, decide_eq_true_eq,
    Nat.succ_le_iff]

namespace Config

open Predefined

variable {config : Config}

theorem predefinedMacros_eq (config : Config) :
    config.predefinedMacros =
      (config.sizes.integerTypes.mapM fun type =>
        limitMacros (.ofNumber config.complement.toNat) type.1 type.2).map fun limits =>
          Environment.empty.extend (limits.flatten ++ toolMacros config) := by
  unfold predefinedMacros
  rw [toolchainMacros_eq]
  rfl

theorem predefinedMacros_eq_ok
    (h : ∀ type ∈ config.sizes.integerTypes, isIntegerWidth type.2) :
    config.predefinedMacros = .ok (Environment.empty.extend (definitions config)) := by
  have hlimits : config.sizes.integerTypes.mapM (fun type =>
      limitMacros (.ofNumber config.complement.toNat) type.1 type.2) =
        .ok (config.sizes.integerTypes.map fun type =>
          Limit.all.map (limitMacro config.complement type)) := by
    rw [mapM_eq_ok_iff, List.forall₂_map_right_iff, List.forall₂_same]
    exact fun type hmem =>
      limitMacros_eq _ (Sizes.isIdentifierChar_of_mem_stem hmem) (h type hmem)
  rw [predefinedMacros_eq, hlimits, definitions, List.flatMap_def]
  rfl

/-- The first type whose width is out of range is named. -/
theorem predefinedMacros_eq_error_iff {fault : MacroFault} :
    config.predefinedMacros = .error fault ↔
      ∃ front type back, config.sizes.integerTypes = front ++ type :: back ∧
        (∀ earlier ∈ front, isIntegerWidth earlier.2) ∧ isIntegerWidth type.2 = false ∧
        fault = .badWidth type.1 type.2 := by
  have hmap : config.predefinedMacros = .error fault ↔
      config.sizes.integerTypes.mapM (fun type =>
        limitMacros (.ofNumber config.complement.toNat) type.1 type.2) = .error fault := by
    rw [predefinedMacros_eq]
    cases config.sizes.integerTypes.mapM fun type =>
      limitMacros (.ofNumber config.complement.toNat) type.1 type.2 <;> simp [Except.map]
  have hlimits : ∀ type ∈ config.sizes.integerTypes,
      limitMacros (.ofNumber config.complement.toNat) type.1 type.2 =
        if isIntegerWidth type.2 then .ok (Limit.all.map (limitMacro config.complement type))
        else .error (.badWidth type.1 type.2) := by
    intro type hmem
    split
    · exact limitMacros_eq _ (Sizes.isIdentifierChar_of_mem_stem hmem) ‹_›
    · exact limitMacros_eq_error _ (Bool.eq_false_of_not_eq_true ‹_›)
  rw [hmap, mapM_eq_error_iff]
  refine exists_congr fun front => exists_congr fun type => exists_congr fun back =>
    and_congr_right fun hsplit => and_congr (forall₂_congr fun earlier hmem => ?_) ?_
  · rw [hlimits earlier (hsplit ▸ List.mem_append_left _ hmem)]
    split <;> simp [*]
  · rw [hlimits type (hsplit ▸ by simp)]
    split <;> simp [*, eq_comm]

theorem isIntegerWidth_of_predefinedMacros {env : Environment}
    (h : config.predefinedMacros = .ok env) :
    ∀ type ∈ config.sizes.integerTypes, isIntegerWidth type.2 := by
  rw [predefinedMacros_eq] at h
  cases hlimits : config.sizes.integerTypes.mapM fun type =>
      limitMacros (.ofNumber config.complement.toNat) type.1 type.2 with
  | error fault =>
      rw [hlimits] at h
      cases h
  | ok limits =>
      intro type hmem
      obtain ⟨macros, hmacros⟩ := exists_mapM_eq_ok_iff.mp ⟨limits, hlimits⟩ type hmem
      by_contra hwidth
      cases (limitMacros_eq_error _ (Bool.eq_false_of_not_eq_true hwidth)).symm.trans hmacros

theorem perm_of_predefinedMacros {env : Environment} (h : config.predefinedMacros = .ok env) :
    env.macros.Perm (definitions config) := by
  rw [predefinedMacros_eq_ok (isIntegerWidth_of_predefinedMacros h)] at h
  cases h
  refine Environment.perm_extend ?_
  rw [Environment.empty, List.nil_append, map_name_definitions]
  exact nodup_names config

/-- The integer types are `char`, `short`, `int`, `long` and, if the configuration gives it a width,
`long long`, in this order. The predefined macros fail at the first width that is out of range;
otherwise every type has macros for its exact limits, and there are the macros of the toolchain and
no others. -/
theorem predefinedMacros_match_configuration (config : Config) :
    config.sizes.integerTypes =
      ([("char", config.sizes.char.toNat), ("short", config.sizes.short.toNat),
        ("int", config.sizes.int.toNat), ("long", config.sizes.long.toNat)] : List (Text × Nat)) ++
        (config.sizes.longLong.map fun bits => (("long long" : Text), bits.toNat)).toList ∧
    (∀ fault, config.predefinedMacros = .error fault ↔
      ∃ front typeName bits back, config.sizes.integerTypes = front ++ (typeName, bits) :: back ∧
        (∀ type ∈ front, 1 ≤ type.2 ∧ type.2 ≤ 64) ∧ (bits = 0 ∨ 64 < bits) ∧
        fault = .badWidth typeName bits) ∧
    (config.validate = .ok () → ∃ env, config.predefinedMacros = .ok env) ∧
    ∀ env, config.predefinedMacros = .ok env →
      (env.macros.map (·.name)).Perm (names (config.sizes.integerTypes.map Prod.fst)) ∧
      (names (config.sizes.integerTypes.map Prod.fst)).Nodup ∧
      (∀ m ∈ env.macros, m.params = []) ∧
      (∀ m ∈ toolMacros config, env.get? m.name = some m) ∧
      ∀ typeName bits, (typeName, bits) ∈ config.sizes.integerTypes →
        (∀ limit : Limit, ∃ digits,
          env.get? (limit.macroName typeName) =
            some ⟨limit.macroName typeName, digits ++ limit.ending typeName, []⟩ ∧
          Text.readSignedDecimal? digits = some (limit.value config.complement bits)) ∧
        Limit.signedMin.value config.complement bits ≤ Limit.signedMax.value config.complement bits ∧
        Limit.signedMax.value config.complement bits ≤
          Limit.unsignedMax.value config.complement bits := by
  refine ⟨config.sizes.integerTypes_eq, fun fault => ?_, exists_predefinedMacros, fun env h => ?_⟩
  · simp only [predefinedMacros_eq_error_iff, isIntegerWidth_eq_false_iff, isIntegerWidth_iff,
      Prod.exists]
  · have hperm := perm_of_predefinedMacros h
    have hget : ∀ m ∈ definitions config, env.get? m.name = some m := fun m hm =>
      ((isSound_of_predefinedMacros h).get?_of_mem (hperm.mem_iff.mpr hm)).1
    refine ⟨?_, nodup_names config, fun m hm => ?_, fun m hm => ?_, fun typeName bits hmem => ?_⟩
    · rw [← map_name_definitions]
      exact hperm.map _
    · exact params_of_mem_definitions (hperm.mem_iff.mp hm)
    · exact hget m (List.mem_append_right _ hm)
    · refine ⟨fun limit => ?_, Limit.signedMin_le_signedMax _ _, Limit.signedMax_le_unsignedMax _ _⟩
      refine ⟨_, hget (limitMacro config.complement (typeName, bits) limit) ?_,
        Text.readSignedDecimal?_signedDecimal _⟩
      exact List.mem_append_left _ (List.mem_flatMap.mpr
        ⟨_, hmem, List.mem_map_of_mem (Limit.mem_all limit)⟩)

/-- A configuration with a type of one bit and with types of all bits. -/
def onesComplement : Config where
  compiler := "cc"
  testDirectory := "out"
  sizes := ⟨1, 16, 32, 64, some 64, none⟩
  complement := 1

theorem limits_of_one_bit_and_of_all_bits : onesComplement.validate = .ok () ∧
    ∃ env, onesComplement.predefinedMacros = .ok env ∧
      (∃ digits, env.get? "$CHARMIN" = some ⟨"$CHARMIN", digits, []⟩ ∧
        Text.readSignedDecimal? digits = some 0) ∧
      (∃ digits, env.get? "$SHORTMIN" = some ⟨"$SHORTMIN", digits, []⟩ ∧
        Text.readSignedDecimal? digits = some (-32767)) ∧
      (∃ digits, env.get? "$INTMAX" = some ⟨"$INTMAX", digits, []⟩ ∧
        Text.readSignedDecimal? digits = some 2147483647) ∧
      (∃ digits, env.get? "$LONGMIN" = some ⟨"$LONGMIN", digits ++ ("L" : Text), []⟩ ∧
        Text.readSignedDecimal? digits = some (-9223372036854775807)) ∧
      ∃ digits, env.get? "$ULONGLONGMAX" =
          some ⟨"$ULONGLONGMAX", digits ++ ("LL" : Text), []⟩ ∧
        Text.readSignedDecimal? digits = some 18446744073709551615 := by
  obtain ⟨-, -, hsucceeds, hmatch⟩ := predefinedMacros_match_configuration onesComplement
  obtain ⟨env, henv⟩ := hsucceeds (by decide)
  obtain ⟨-, -, -, -, hlimits⟩ := hmatch env henv
  obtain ⟨char, hchar, hreadChar⟩ := (hlimits "char" 1 (by decide)).1 .signedMin
  obtain ⟨short, hshort, hreadShort⟩ := (hlimits "short" 16 (by decide)).1 .signedMin
  obtain ⟨int, hint, hreadInt⟩ := (hlimits "int" 32 (by decide)).1 .signedMax
  obtain ⟨long, hlong, hreadLong⟩ := (hlimits "long" 64 (by decide)).1 .signedMin
  obtain ⟨longLong, hlongLong, hreadLongLong⟩ :=
    (hlimits "long long" 64 (by decide)).1 .unsignedMax
  -- the shorter types have no literal ending
  have hnone : ∀ digits : Text, digits ++ Limit.signedMin.ending "char" = digits ∧
      digits ++ Limit.signedMin.ending "short" = digits ∧
        digits ++ Limit.signedMax.ending "int" = digits :=
    fun digits => ⟨List.append_nil digits, List.append_nil digits, List.append_nil digits⟩
  rw [(hnone char).1] at hchar
  rw [(hnone short).2.1] at hshort
  rw [(hnone int).2.2] at hint
  exact ⟨by decide, env, henv, ⟨char, hchar, hreadChar⟩, ⟨short, hshort, hreadShort⟩,
    ⟨int, hint, hreadInt⟩, ⟨long, hlong, hreadLong⟩, longLong, hlongLong, hreadLongLong⟩

end Config

end TemplateSuite
