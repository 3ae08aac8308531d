import Mathlib.Data.Nat.Digits.Lemmas
import TemplateSuite.Text.Basic

namespace TemplateSuite.Text

variable {text other : Text}

/-- The bytes of the text in UTF-8. -/
def bytes (text : Text) : List UInt8 :=
  text.flatMap String.utf8EncodeChar

theorem length_bytes (text : Text) : (bytes text).length = byteCount text := by
  induction text with
  | nil => rfl
  | cons c rest ih =>
      rw [bytes, List.flatMap_cons, List.length_append, String.length_utf8EncodeChar, byteCount]
      exact congrArg (c.utf8Size + ·) ih

theorem eq_of_bytes_eq (h : bytes text = bytes other) : text = other := by
  have hencode : text.utf8Encode = other.utf8Encode := congrArg List.toByteArray h
  have hdecode := congrArg ByteArray.utf8Decode? hencode
  rw [List.utf8Decode?_utf8Encode, List.utf8Decode?_utf8Encode] at hdecode
  exact List.toArray_inj (Option.some.inj hdecode)

/-- The number with the bytes as digits of base 256, below a leading one. -/
def code (text : Text) : Nat :=
  Nat.ofDigits 256 ((bytes text).map UInt8.toNat ++ [1])

theorem digit_lt {digit : Nat} (h : digit ∈ (bytes text).map UInt8.toNat ++ [1]) : digit < 256 := by
  rcases List.mem_append.mp h with hbyte | hone
  · obtain ⟨byte, -, rfl⟩ := List.mem_map.mp hbyte
    exact byte.toNat_lt
  · rw [List.mem_singleton.mp hone]
    decide

theorem digits_code (text : Text) :
    Nat.digits 256 (code text) = (bytes text).map UInt8.toNat ++ [1] := by
  refine Nat.digits_ofDigits 256 (by decide) _ (fun digit => digit_lt) fun hne => ?_
  rw [List.getLast_append_singleton]
  decide

theorem eq_of_code_eq (h : code text = code other) : text = other := by
  have hdigits := congrArg (Nat.digits 256) h
  rw [digits_code, digits_code] at hdigits
  apply eq_of_bytes_eq
  exact List.map_injective_iff.mpr (fun _ _ => UInt8.toNat_inj.mp) (List.append_cancel_right hdigits)

theorem code_pos (text : Text) : 0 < code text := by
  apply Nat.pos_of_ne_zero
  intro hzero
  have hdigits := digits_code text
  rw [hzero, Nat.digits_zero] at hdigits
  exact List.append_ne_nil_of_right_ne_nil _ (List.cons_ne_nil 1 []) hdigits.symm

theorem code_lt {limit : Nat} (h : byteCount text ≤ limit) : code text < 256 ^ (limit + 1) := by
  have hlength : ((bytes text).map UInt8.toNat ++ [1]).length = byteCount text + 1 := by
    rw [List.length_append, List.length_map, length_bytes, List.length_singleton]
  calc code text
      < 256 ^ ((bytes text).map UInt8.toNat ++ [1]).length :=
        Nat.ofDigits_lt_base_pow_length (by decide) fun digit => digit_lt
    _ ≤ 256 ^ (limit + 1) := by
        rw [hlength]
        exact Nat.pow_le_pow_right (by decide) (Nat.succ_le_succ h)

theorem length_lt_of_byteCount_le {texts : List Text} {limit : Nat} (hnodup : texts.Nodup)
    (h : ∀ text ∈ texts, byteCount text ≤ limit) : texts.length < 256 ^ (limit + 1) := by
  have hcodes : (0 :: texts.map code).Nodup := by
    refine List.nodup_cons.mpr ⟨fun hzero => ?_, hnodup.map fun _ _ => eq_of_code_eq⟩
    obtain ⟨text, -, htext⟩ := List.mem_map.mp hzero
    exact absurd htext (Nat.ne_of_gt (code_pos text))
  have hbounded : 0 :: texts.map code ⊆ List.range (256 ^ (limit + 1)) := by
    intro number hnumber
    rw [List.mem_range]
    rcases List.mem_cons.mp hnumber with rfl | hmem
    · exact Nat.pow_pos (by decide)
    · obtain ⟨text, htext, rfl⟩ := List.mem_map.mp hmem
      exact code_lt (h text htext)
  have hlength := (hcodes.subperm hbounded).length_le
  rwa [List.length_cons, List.length_map, List.length_range] at hlength

end TemplateSuite.Text
