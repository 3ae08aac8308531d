import TemplateSuite.Config.Encode
import TemplateSuite.Proofs.Config.Fields

namespace TemplateSuite

open Decode

/-- The members of a record. -/
def Value.members : Value → List (Text × Value)
  | .record members => members
  | _ => []

namespace Sizes

/-- The value is a record of the widths, each under its name, and perhaps of more. -/
def IsSaidBy (s : Sizes) (value : Value) : Prop :=
  ∃ members, value = .record members ∧ Beside SizesDraft.names s.encode.members members

end Sizes

namespace SizesDraft

variable {s : Sizes} {seen : List Text} {name : Text} {value : Value}

/-- The draft of the widths after members of these names. -/
def ofSeen (s : Sizes) (seen : List Text) : SizesDraft where
  char := given seen "char" s.char
  short := given seen "short" s.short
  int := given seen "int" s.int
  long := given seen "long" s.long
  longLong := given seen "long_long" s.longLong
  pointer := given seen "pointer" s.pointer

theorem nodup_names : names.Nodup := by decide

theorem optional_width (width? : Option UInt32) :
    optional uint32 (.ofOption (.ofNat ·.toNat) width?) = .ok width? :=
  optional_ofOption uint32_ofNat (fun _ h => by cases h) width?

theorem add_own (hmem : (name, value) ∈ s.encode.members) (hseen : name ∉ seen) :
    (ofSeen s seen).add name value = .ok (ofSeen s (name :: seen)) := by
  simp only [Sizes.encode, Value.members, List.mem_cons, Prod.mk.injEq, List.not_mem_nil,
    or_false] at hmem
  rcases hmem with ⟨rfl, rfl⟩ | ⟨rfl, rfl⟩ | ⟨rfl, rfl⟩ | ⟨rfl, rfl⟩ | ⟨rfl, rfl⟩ | ⟨rfl, rfl⟩ <;>
    simp only [add, ofSeen, given_cons, fill_given, hseen, uint32_ofNat, optional_width,
      String.toList_inj, String.reduceEq, ↓reduceIte, not_false_eq_true] <;> rfl

theorem add_other (hname : name ∉ names) (hvalue : value.isWhole) :
    (ofSeen s seen).add name value = .ok (ofSeen s (name :: seen)) := by
  simp only [names, List.mem_cons, List.not_mem_nil, or_false, not_or] at hname
  simp only [add, ofSeen, given_cons, hname, skip, hvalue, ↓reduceIte]

theorem finish_ofSeen (h : ∀ name ∈ names, name ∈ seen) : (ofSeen s seen).finish = .ok s := by
  simp only [names, List.forall_mem_cons] at h
  simp only [finish, ofSeen, given_of_mem, h, require, Option.join_some]
  rfl

end SizesDraft

theorem Sizes.IsSaidBy.decode {s : Sizes} {value : Value} (h : s.IsSaidBy value)
    (hspelling : value.HasSpelling) (format : DocumentFormat) :
    Sizes.decode format value = .ok s := by
  obtain ⟨members, rfl, hmembers⟩ := h
  obtain ⟨seen, hvisit, hseen⟩ := hmembers.visit_eq_ok (SizesDraft.ofSeen s) rfl
    SizesDraft.nodup_names hspelling.of_mem_record (fun _ hmem _ => SizesDraft.add_own hmem)
    fun _ _ _ => SizesDraft.add_other
  have hempty : SizesDraft.ofSeen s [] = {} := rfl
  rw [Sizes.decode, ← hempty, hvisit]
  exact SizesDraft.finish_ofSeen hseen

namespace Config

/-- The members that are encoded for the configuration, with the given value for the widths. -/
def membersWith (config : Config) (sizes : Value) : List (Text × Value) :=
  config.encode.members.map fun member =>
    if member.1 = ("size" : Text) then (member.1, sizes) else member

/-- The value is a record of the fields, each under its name, and perhaps of more. -/
def IsSaidBy (config : Config) (value : Value) : Prop :=
  ∃ sizes members, config.sizes.IsSaidBy sizes ∧ value = .record members ∧
    Beside ConfigDraft.names (config.membersWith sizes) members

end Config

namespace ConfigDraft

variable {config : Config} {seen : List Text} {name : Text} {value sizes : Value}
  {format : DocumentFormat}

/-- The draft of the configuration after members of these names. -/
def ofSeen (config : Config) (seen : List Text) : ConfigDraft where
  compiler := given seen "compiler" config.compiler
  simulator := given seen "simulator" config.simulator
  compilerFlags := given seen "c_flags" config.compilerFlags
  linkerFlags := given seen "ld_flags" config.linkerFlags
  options := given seen "options" config.options
  testDirectory := given seen "testdir" config.testDirectory
  compileOnly := given seen "compile_only" config.compileOnly
  sizes := given seen "size" config.sizes
  timeout := given seen "timeout" config.timeout
  parallels := given seen "parallels" config.parallels
  color := given seen "color" config.color
  language := given seen "lang" config.language
  expect := given seen "expect" config.expect
  complement := given seen "complement" config.complement
  outputOption := given seen "output_option" config.outputOption
  optionSeparator := given seen "option_separator" config.optionSeparator
  hasPrintf := given seen "has_printf" config.hasPrintf
  includePaths := given seen "include_paths" config.includePaths

theorem nodup_names : names.Nodup := by decide

theorem optional_string (text? : Option Text) :
    optional text (.ofOption .string text?) = .ok text? :=
  optional_ofOption text_string (fun _ h => by cases h) text?

theorem add_own (hsizes : Sizes.decode format sizes = .ok config.sizes)
    (hmem : (name, value) ∈ config.membersWith sizes) (hseen : name ∉ seen) :
    (ofSeen config seen).add format name value = .ok (ofSeen config (name :: seen)) := by
  simp only [Config.membersWith, Config.encode, Value.members, List.map_cons, List.map_nil,
    String.toList_inj, String.reduceEq, ↓reduceIte, List.mem_cons, Prod.mk.injEq,
    List.not_mem_nil, or_false] at hmem
  rcases hmem with ⟨rfl, rfl⟩ | ⟨rfl, rfl⟩ | ⟨rfl, rfl⟩ | ⟨rfl, rfl⟩ | ⟨rfl, rfl⟩ | ⟨rfl, rfl⟩ |
    ⟨rfl, rfl⟩ | ⟨rfl, rfl⟩ | ⟨rfl, rfl⟩ | ⟨rfl, rfl⟩ | ⟨rfl, rfl⟩ | ⟨rfl, rfl⟩ | ⟨rfl, rfl⟩ |
    ⟨rfl, rfl⟩ | ⟨rfl, rfl⟩ | ⟨rfl, rfl⟩ | ⟨rfl, rfl⟩ | ⟨rfl, rfl⟩ <;>
    simp only [add, ofSeen, given_cons, fill_given, hseen, hsizes, optional_string, texts_ofTexts,
      uint8_ofNat, uint64_ofNat, text_string, bool_bool, String.toList_inj, String.reduceEq,
      ↓reduceIte, not_false_eq_true] <;> rfl

theorem add_other (hname : name ∉ names) (hvalue : value.isWhole) :
    (ofSeen config seen).add format name value = .ok (ofSeen config (name :: seen)) := by
  simp only [names, List.mem_cons, List.not_mem_nil, or_false, not_or] at hname
  simp only [add, ofSeen, given_cons, hname, skip, hvalue, ↓reduceIte]

theorem finish_ofSeen (h : ∀ name ∈ names, name ∈ seen) :
    (ofSeen config seen).finish = .ok config := by
  simp only [names, List.forall_mem_cons] at h
  simp only [finish, ofSeen, given_of_mem, h, require, Option.join_some, Option.getD_some]
  rfl

end ConfigDraft

theorem Config.IsSaidBy.decode {config : Config} {value : Value} (h : config.IsSaidBy value)
    (hspelling : value.HasSpelling) (format : DocumentFormat) :
    Config.decode format value = .ok config := by
  obtain ⟨sizes, members, hsizes, rfl, hmembers⟩ := h
  have hall := hspelling.of_mem_record
  have hsize : (("size" : Text), sizes) ∈ config.membersWith sizes :=
    List.mem_map.mpr ⟨(("size" : Text), config.sizes.encode), by simp [encode, Value.members], rfl⟩
  have hdecode : Sizes.decode format sizes = .ok config.sizes :=
    hsizes.decode (hall _ (hmembers.own_mem _ hsize)) format
  obtain ⟨seen, hvisit, hseen⟩ := hmembers.visit_eq_ok (ConfigDraft.ofSeen config) rfl
    ConfigDraft.nodup_names hall (fun _ hmem _ => ConfigDraft.add_own hdecode hmem)
    fun _ _ _ => ConfigDraft.add_other
  have hempty : ConfigDraft.ofSeen config [] = {} := rfl
  rw [Config.decode, ← hempty, hvisit]
  exact ConfigDraft.finish_ofSeen hseen

end TemplateSuite
