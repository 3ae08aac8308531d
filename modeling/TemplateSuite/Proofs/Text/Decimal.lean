import Mathlib.Data.Nat.Digits.Defs
import TemplateSuite.Text.Blank
import TemplateSuite.Text.Digit

namespace TemplateSuite.Text

/-- The code points of white space. -/
def blankCodes : List Nat :=
  [0x09, 0x0a, 0x0b, 0x0c, 0x0d, 0x20, 0x85, 0xa0, 0x1680, 0x2000, 0x2001, 0x2002, 0x2003, 0x2004,
    0x2005, 0x2006, 0x2007, 0x2008, 0x2009, 0x200a, 0x2028, 0x2029, 0x202f, 0x205f, 0x3000]

theorem toNat_mem_blankCodes {c : Char} (h : isBlank c) : c.toNat ∈ blankCodes := by
  simp only [isBlank, Bool.or_eq_true, Bool.and_eq_true, decide_eq_true_eq, beq_iff_eq] at h
  simp only [blankCodes, List.mem_cons, List.not_mem_nil, or_false]
  omega

theorem isBlank_of_isDigit {c : Char} (h : isDigit c) : isBlank c = false := by
  have hnone : ∀ code ∈ blankCodes, (digitZeros.any fun first =>
      decide (first ≤ code) && decide (code < first + 10)) = false := by decide
  rw [← Bool.not_eq_true]
  intro hblank
  exact Bool.false_ne_true ((hnone _ (toNat_mem_blankCodes hblank)).symm.trans h)

theorem digitValue?_of_isDigit {c : Char} (h : c.isDigit) :
    digitValue? c = some (c.toNat - '0'.toNat) :=
  if_pos (by simpa [Char.isDigit, Char.le_def] using h)

theorem isDigit_of_digitValue? {c : Char} {digit : Nat} (h : digitValue? c = some digit)
    (hsmall : digit < 10) : c.isDigit := by
  unfold digitValue? at h
  split at h
  · rename_i hrange
    simpa [Char.isDigit, Char.le_def] using hrange
  · split at h
    · cases h
      omega
    · split at h
      · cases h
        omega
      · cases h

theorem toNat_sub_lt_of_isDigit {c : Char} (h : c.isDigit) : c.toNat - '0'.toNat < 10 := by
  have hlast : '9'.toNat = 57 := rfl
  have hzero : '0'.toNat = 48 := rfl
  have hle : c.toNat ≤ '9'.toNat := by
    simp only [Char.isDigit, Bool.and_eq_true, decide_eq_true_eq] at h
    exact h.2
  omega

theorem readDigitsFrom_eq_some_iff {text : Text} {value n : Nat} :
    readDigitsFrom 10 value text = some n ↔
      (∀ c ∈ text, c.isDigit) ∧ Nat.ofDigitChars 10 text value = n := by
  induction text generalizing value with
  | nil => simp [readDigitsFrom]
  | cons c rest ih =>
      rw [readDigitsFrom, List.forall_mem_cons, Nat.ofDigitChars_cons]
      by_cases hc : c.isDigit
      · rw [digitValue?_of_isDigit hc]
        dsimp only
        rw [if_pos (toNat_sub_lt_of_isDigit hc), ih, and_iff_right hc, Nat.mul_comm]
      · refine iff_of_false (fun h => ?_) fun h => hc h.1.1
        split at h
        · rename_i digit hdigit
          split at h
          · rename_i hsmall
            exact hc (isDigit_of_digitValue? hdigit hsmall)
          · cases h
        · cases h

theorem readDecimal?_eq_some_iff {text : Text} {n : Nat} :
    readDecimal? text = some n ↔
      text ≠ [] ∧ (∀ c ∈ text, c.isDigit) ∧ Nat.ofDigitChars 10 text 0 = n := by
  rw [readDecimal?, readDigits?]
  split
  · rename_i hnone
    exact iff_of_false nofun fun h => h.1 hnone
  · rename_i hsome
    rw [readDigitsFrom_eq_some_iff]
    exact (and_iff_right hsome).symm

theorem decimal_ne_nil (n : Nat) : decimal n ≠ [] := Nat.toDigits_ne_nil

theorem isDigit_ascii_of_mem_decimal {n : Nat} {c : Char} (h : c ∈ decimal n) : c.isDigit :=
  Nat.isDigit_of_mem_toDigits (by decide) (by decide) h

theorem isDigit_of_mem_decimal {n : Nat} {c : Char} (h : c ∈ decimal n) : isDigit c :=
  isDigit_of_ascii (isDigit_ascii_of_mem_decimal h)

theorem readDecimal?_decimal (n : Nat) : readDecimal? (decimal n) = some n :=
  readDecimal?_eq_some_iff.mpr ⟨decimal_ne_nil n, fun _ => isDigit_ascii_of_mem_decimal,
    Nat.ofDigitChars_toDigits (by decide) (by decide)⟩

theorem eq_zero_of_head?_decimal {n : Nat} (h : (decimal n).head? = some '0') : n = 0 := by
  induction n using Nat.strongRecOn with
  | ind n ih =>
      rw [decimal, Nat.toDigits_eq_if (by decide)] at h
      split at h
      · rename_i hlt
        have hzero : ∀ m < 10, Nat.digitChar m = '0' → m = 0 := by decide
        exact hzero n hlt (Option.some.inj h)
      · rename_i hge
        have hquotient : (decimal (n / 10)).head? = some '0' := by
          obtain ⟨c, others, hdigits⟩ := List.exists_cons_of_ne_nil (decimal_ne_nil (n / 10))
          rw [← decimal, hdigits] at h
          rw [hdigits]
          exact h
        have hnone : n / 10 = 0 := ih (n / 10) (by omega) hquotient
        omega

/-- The integer that decimal digits denote, which is negative after a minus sign. -/
def readSignedDecimal? : Text → Option Int
  | '-' :: digits => (readDecimal? digits).map fun n => -(n : Int)
  | digits => (readDecimal? digits).map fun n => (n : Int)

theorem readSignedDecimal?_signedDecimal (n : Int) :
    readSignedDecimal? (signedDecimal n) = some n := by
  cases n with
  | ofNat n =>
      have hsign : ∀ digits, decimal n ≠ '-' :: digits := fun digits heq => by
        have hminus : '-' ∈ decimal n := heq ▸ List.mem_cons_self
        cases isDigit_ascii_of_mem_decimal hminus
      rw [signedDecimal, readSignedDecimal?.eq_2 _ hsign, readDecimal?_decimal]
      rfl
  | negSucc n =>
      rw [signedDecimal, readSignedDecimal?, readDecimal?_decimal]
      rfl

end TemplateSuite.Text
