import TemplateSuite.Config.Read
import TemplateSuite.Proofs.Config.Drafts
import TemplateSuite.Proofs.Document.Json.Reading
import TemplateSuite.Proofs.Document.Json.Writing

namespace TemplateSuite

open Value

theorem Sizes.hasSpelling_encode (s : Sizes) : s.encode.HasSpelling := by
  refine hasSpelling_record ?_
  have hwidth := fun width? : Option UInt32 =>
    hasSpelling_ofOption (fun width => hasSpelling_ofNat width.toNat) width?
  simp only [List.forall_mem_cons, hasSpelling_ofNat, hwidth, true_and]
  exact List.forall_mem_nil _

theorem Sizes.isSaidBy_encode (s : Sizes) : s.IsSaidBy s.encode :=
  ⟨_, rfl, .refl _ _⟩

namespace Config

variable {config : Config} {value : Value} {text before after : Text}

theorem hasSpelling_encode (config : Config) : config.encode.HasSpelling := by
  refine hasSpelling_record ?_
  simp only [List.forall_mem_cons, hasSpelling_ofNat, hasSpelling_ofOption hasSpelling_string,
    hasSpelling_bool, hasSpelling_string, hasSpelling_ofTexts, config.sizes.hasSpelling_encode,
    true_and]
  exact List.forall_mem_nil _

theorem hasSpelling_membersWith {sizes : Value} (h : sizes.HasSpelling) :
    ∀ member ∈ config.membersWith sizes, member.2.HasSpelling := by
  intro member hmember
  obtain ⟨own, hown, rfl⟩ := List.mem_map.mp hmember
  split
  · exact h
  · exact config.hasSpelling_encode.of_mem_record own hown

theorem isSaidBy_encode (config : Config) : config.IsSaidBy config.encode := by
  have hmembers : config.membersWith config.sizes.encode = config.encode.members := by
    simp only [membersWith, encode, Value.members, List.map_cons, List.map_nil, String.toList_inj,
      String.reduceEq, ↓reduceIte]
  exact ⟨_, _, config.sizes.isSaidBy_encode, rfl, hmembers ▸ .refl _ _⟩

/-- From the text comes the configuration if it is valid, and else its fault. -/
def IsReadFrom (config : Config) (text : Text) : Prop :=
  (config.validate = .ok () → ofText .json text = .ok config) ∧
    ∀ fault, config.validate = .error fault → ofText .json text = .error (.configInvalid fault)

theorem IsSaidBy.decodeJson (h : config.IsSaidBy value) (hspells : Json.Spells value text)
    (hbefore : Json.AreBlank before) (hafter : Json.AreBlank after) :
    Config.decodeJson (before ++ text ++ after) = .ok config := by
  have hdecode : Config.decode .json value = .ok config := h.decode ⟨text, hspells⟩ .json
  rw [Config.decodeJson, hspells.read hbefore hafter]
  dsimp only
  rw [hdecode, Json.skipSpace_eq_nil hafter]
  rfl

theorem isReadFrom_of_decodeJson (h : decodeJson text = .ok config) : config.IsReadFrom text := by
  have hread : ofText .json text = (config.validate.mapError .configInvalid).map fun _ => config := by
    rw [ofText, decodeText, h]
    rfl
  constructor
  · intro hvalid
    rw [hread, hvalid]
    rfl
  · intro fault hfault
    rw [hread, hfault]
    rfl

theorem IsSaidBy.isReadFrom (h : config.IsSaidBy value) (hspells : Json.Spells value text)
    (hbefore : Json.AreBlank before) (hafter : Json.AreBlank after) :
    config.IsReadFrom (before ++ text ++ after) :=
  isReadFrom_of_decodeJson (h.decodeJson hspells hbefore hafter)

theorem IsSaidBy.isReadFrom_written (h : config.IsSaidBy value) (hspelling : value.HasSpelling) :
    config.IsReadFrom (Json.write value) ∧ config.IsReadFrom (Json.writePretty 0 value) := by
  constructor
  · simpa using h.isReadFrom (Json.spells_write hspelling) Json.areBlank_nil Json.areBlank_nil
  · simpa using h.isReadFrom (Json.spells_writePretty hspelling 0) Json.areBlank_nil Json.areBlank_nil

/-- A configuration written as JSON is read back, or its fault is found; and so it is with every other
text for a record of the same fields, in whatever order and whatever else the record has. -/
theorem written_as_json_is_read_back (config : Config) :
    (config.IsReadFrom (Json.write config.encode) ∧
      config.IsReadFrom (Json.writePretty 0 config.encode)) ∧
    ∀ value, config.IsSaidBy value → value.HasSpelling →
      (config.IsReadFrom (Json.write value) ∧ config.IsReadFrom (Json.writePretty 0 value)) ∧
      ∀ text before after, Json.Spells value text → Json.AreBlank before → Json.AreBlank after →
        config.IsReadFrom (before ++ text ++ after) := by
  refine ⟨config.isSaidBy_encode.isReadFrom_written config.hasSpelling_encode, ?_⟩
  intro value hsaid hspelling
  refine ⟨hsaid.isReadFrom_written hspelling, ?_⟩
  exact fun text before after hspells hbefore hafter => hsaid.isReadFrom hspells hbefore hafter

/-- A valid configuration with a quote, a line end and the greatest timeout. -/
def quotedConfig : Config where
  compiler := "cc \"x\"\n"
  testDirectory := "out"
  sizes := ⟨8, 16, 32, 64, none, some 64⟩
  timeout := 18446744073709551615

/-- Its fields from the last to the first, with a width and a field that are not known. -/
def quotedValue : Value :=
  .record ((("note" : Text), .list [.null, .ofNat 3]) ::
    (quotedConfig.membersWith
      (.record ((("bool" : Text), .ofNat 1) :: quotedConfig.sizes.encode.members))).reverse)

theorem fields_in_another_order_are_read :
    quotedConfig.IsSaidBy quotedValue ∧ quotedValue.HasSpelling ∧
      quotedValue.member? "note" = some (.list [.null, .ofNat 3]) ∧
      ofText .json ((" \n" : Text) ++ Json.write quotedValue ++ ("\t" : Text)) = .ok quotedConfig ∧
      ofText .json (Json.write { quotedConfig with complement := 3 }.encode) =
        .error (.configInvalid (.badComplement 3)) := by
  have hsizes : quotedConfig.sizes.IsSaidBy
      (.record ((("bool" : Text), .ofNat 1) :: quotedConfig.sizes.encode.members)) :=
    ⟨_, rfl, [(("bool" : Text), .ofNat 1)], (List.perm_append_singleton _ _).symm, by simp; decide⟩
  have hsaid : quotedConfig.IsSaidBy quotedValue :=
    ⟨_, _, hsizes, rfl, [(("note" : Text), .list [.null, .ofNat 3])],
      ((List.reverse_perm _).cons _).trans (List.perm_append_singleton _ _).symm, by simp; decide⟩
  have hspelling : quotedValue.HasSpelling := by
    refine hasSpelling_record (List.forall_mem_cons.mpr ⟨?_, fun member hmember => ?_⟩)
    · exact hasSpelling_list (by simp [hasSpelling_null, hasSpelling_ofNat])
    · refine hasSpelling_membersWith ?_ member (List.mem_reverse.mp hmember)
      refine hasSpelling_record (List.forall_mem_cons.mpr ⟨hasSpelling_ofNat 1, ?_⟩)
      exact quotedConfig.sizes.hasSpelling_encode.of_mem_record
  have hblank : Json.AreBlank (" \n" : Text) ∧ Json.AreBlank ("\t" : Text) := by
    constructor <;> exact List.all_eq_true.mp (by decide)
  refine ⟨hsaid, hspelling, rfl, ?_, ?_⟩
  · exact (((written_as_json_is_read_back quotedConfig).2 _ hsaid hspelling).2 _ _ _
      (Json.spells_write hspelling) hblank.1 hblank.2).1 (by decide)
  · exact (written_as_json_is_read_back _).1.1.2 _ (by decide)

end Config

end TemplateSuite
