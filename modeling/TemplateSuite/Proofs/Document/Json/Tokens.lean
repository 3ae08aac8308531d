import Mathlib.Data.List.DropRight
import TemplateSuite.Proofs.Document.Json.Grammar
import TemplateSuite.Proofs.Text.Reading

namespace TemplateSuite.Json

variable {text rest blanks piece pieces digits : Text} {c : Char}

theorem skipSpace_append (h : AreBlank blanks) (text : Text) :
    skipSpace (blanks ++ text) = skipSpace text :=
  List.dropWhile_append_of_pos h

theorem skipSpace_eq_nil (h : AreBlank blanks) : skipSpace blanks = [] :=
  List.dropWhile_eq_nil_iff.mpr h

theorem skipSpace_cons (h : isSpace c = false) (text : Text) : skipSpace (c :: text) = c :: text :=
  List.dropWhile_cons_of_neg (by simp [h])

theorem skipSpace_skipSpace (text : Text) : skipSpace (skipSpace text) = skipSpace text :=
  List.dropWhile_idempotent isSpace text

/-- What can stand after a value: white space, a comma, a closing bracket or nothing. -/
def CanFollow (rest : Text) : Prop :=
  ∀ c ∈ rest.head?, isSpace c ∨ c = ',' ∨ c = ']' ∨ c = '}'

/-- The character continues no number, whichever part of it comes last. -/
def EndsNumber (c : Char) : Prop :=
  c.isDigit = false ∧ c ≠ '.' ∧ c ≠ 'e' ∧ c ≠ 'E'

theorem CanFollow.endsNumber (h : CanFollow rest) : ∀ c ∈ rest.head?, EndsNumber c := by
  intro c hc
  have hnext := h c hc
  simp only [isSpace, Bool.or_eq_true, beq_iff_eq] at hnext
  rcases hnext with (((rfl | rfl) | rfl) | rfl) | rfl | rfl | rfl <;>
    exact ⟨rfl, by decide, by decide, by decide⟩

theorem spanDigits_append (h : ∀ c ∈ digits, c.isDigit)
    (hrest : ∀ c ∈ rest.head?, c.isDigit = false) : spanDigits (digits ++ rest) = (digits, rest) := by
  rw [spanDigits, Text.takeWhile_run h hrest, Text.dropWhile_run h hrest]

theorem AreDigits.exists_cons (h : AreDigits digits) :
    ∃ c rest, digits = c :: rest ∧ c.isDigit := by
  obtain ⟨c, rest, rfl⟩ := List.exists_cons_of_ne_nil h.1
  exact ⟨c, rest, rfl, h.2 c List.mem_cons_self⟩

theorem readWhole?_append {whole : Text} (h : IsWhole whole)
    (hrest : ∀ c ∈ rest.head?, c.isDigit = false) :
    readWhole? (whole ++ rest) = some (whole, rest) := by
  obtain ⟨hdigits, hzero⟩ := h
  obtain ⟨c, others, rfl, -⟩ := hdigits.exists_cons
  by_cases hc : c = '0'
  · cases hzero (congrArg some hc)
    rfl
  · have hne : ∀ after, (c :: others) ++ rest ≠ '0' :: after :=
      fun after heq => hc (List.cons.inj heq).1
    rw [readWhole?.eq_2 _ hne, spanDigits_append hdigits.2 hrest]

theorem readFraction?_append {fraction : Text} (h : IsFraction fraction)
    (hrest : ∀ c ∈ rest.head?, c.isDigit = false ∧ c ≠ '.') :
    readFraction? (fraction ++ rest) = some (fraction, rest) := by
  cases h with
  | absent =>
      refine readFraction?.eq_2 _ fun after hafter => ?_
      rw [List.nil_append] at hafter
      exact (hrest '.' (by simp [hafter])).2 rfl
  | digits hdigits =>
      obtain ⟨c, others, rfl, -⟩ := hdigits.exists_cons
      rw [List.cons_append, readFraction?, spanDigits_append hdigits.2 fun d hd => (hrest d hd).1]

theorem spanSign_append {sign : Text} (h : sign = [] ∨ sign = ['+'] ∨ sign = ['-'])
    (hc : c.isDigit) : spanSign (sign ++ c :: rest) = (sign, c :: rest) := by
  rcases h with rfl | rfl | rfl
  · have hplus : c ≠ '+' := by
      rintro rfl
      cases hc
    have hminus : c ≠ '-' := by
      rintro rfl
      cases hc
    exact spanSign.eq_3 _ (fun after heq => hplus (List.cons.inj heq).1)
      fun after heq => hminus (List.cons.inj heq).1
  · rfl
  · rfl

theorem readExponent?_append {exponent : Text} (h : IsExponent exponent)
    (hrest : ∀ c ∈ rest.head?, EndsNumber c) :
    readExponent? (exponent ++ rest) = some (exponent, rest) := by
  cases h with
  | absent =>
      cases rest with
      | nil => rfl
      | cons c after =>
          obtain ⟨-, -, hlower, hupper⟩ := hrest c rfl
          simp [readExponent?, hlower, hupper]
  | digits he hsign hdigits =>
      rename_i e sign digits
      obtain ⟨c, others, rfl, hc⟩ := hdigits.exists_cons
      have hmark : (e == 'e' || e == 'E') = true := by simpa using he
      have hspan : spanSign (sign ++ (c :: others ++ rest)) = (sign, c :: others ++ rest) :=
        spanSign_append hsign hc
      rw [List.append_assoc, List.cons_append, readExponent?, if_pos hmark, hspan]
      dsimp only
      rw [spanDigits_append hdigits.2 fun d hd => (hrest d hd).1]

theorem head?_exponent {exponent : Text} (h : IsExponent exponent)
    (hrest : ∀ c ∈ rest.head?, EndsNumber c) :
    ∀ c ∈ (exponent ++ rest).head?, c.isDigit = false ∧ c ≠ '.' := by
  intro c hc
  cases h with
  | absent => exact ⟨(hrest c hc).1, (hrest c hc).2.1⟩
  | digits he hsign hdigits =>
      cases hc
      rcases he with rfl | rfl <;> decide

theorem head?_fraction {fraction : Text} (h : IsFraction fraction)
    (hrest : ∀ c ∈ rest.head?, c.isDigit = false ∧ c ≠ '.') :
    ∀ c ∈ (fraction ++ rest).head?, c.isDigit = false := by
  intro c hc
  cases h with
  | absent => exact (hrest c hc).1
  | digits _ =>
      cases hc
      rfl

theorem readNumber?_append (h : IsNumber digits) (hrest : CanFollow rest) :
    readNumber? (digits ++ rest) = some (digits, rest) := by
  obtain ⟨hsign, hwhole, hfraction, hexponent⟩ := h
  rename_i sign whole fraction exponent
  have hdot := head?_exponent hexponent hrest.endsNumber
  have hread := readWhole?_append hwhole (head?_fraction hfraction hdot)
  have hreadFraction := readFraction?_append hfraction hdot
  have hreadExponent := readExponent?_append hexponent hrest.endsNumber
  rw [List.append_assoc, List.append_assoc, List.append_assoc]
  rcases hsign with rfl | rfl
  · obtain ⟨c, others, rfl, hc⟩ := hwhole.1.exists_cons
    have hminus : ∀ after,
        [] ++ (c :: others ++ (fraction ++ (exponent ++ rest))) ≠ '-' :: after := by
      rintro after heq
      cases (List.cons.inj heq).1
      cases hc
    rw [readNumber?.eq_2 _ hminus, List.nil_append, hread]
    simp only [Option.bind_eq_bind, Option.bind_some, hreadFraction, hreadExponent, Option.pure_def]
  · rw [List.singleton_append, readNumber?, hread]
    simp only [Option.bind_eq_bind, Option.bind_some, hreadFraction, hreadExponent, Option.pure_def]

theorem not_isHalf (c : Char) : isHighHalf c.toNat = false ∧ isLowHalf c.toNat = false := by
  have hvalid : c.toNat < 0xd800 ∨ 0xdfff < c.toNat ∧ c.toNat < 0x110000 := c.valid
  constructor
  · simp only [isHighHalf, Bool.and_eq_false_iff, decide_eq_false_iff_not]
    omega
  · simp only [isLowHalf, Bool.and_eq_false_iff, decide_eq_false_iff_not]
    omega

theorem joinPieces?_unit (c : Char) (later : List Piece) :
    joinPieces? (.unit c.toNat :: later) = (joinPieces? later).map (c :: ·) := by
  obtain ⟨hhigh, hlow⟩ := not_isHalf c
  cases later with
  | nil => simp [joinPieces?, hhigh, hlow]
  | cons next others =>
      cases next <;> simp [joinPieces?, hhigh, hlow]

theorem joinPieces?_halves {high low : Nat} (hhigh : isHighHalf high) (hlow : isLowHalf low)
    (hc : c.toNat = 0x10000 + (high - 0xd800) * 0x400 + (low - 0xdc00)) (later : List Piece) :
    joinPieces? (.unit high :: .unit low :: later) = (joinPieces? later).map (c :: ·) := by
  have hchar : ofHalves high low = c := by rw [ofHalves, ← hc, Char.ofNat_toNat]
  rw [joinPieces?, if_pos hhigh, if_pos hlow, hchar]

theorem shortEscape?_of_mem {letter : Char} (h : (letter, c) ∈ shortEscapes) :
    shortEscape? letter = some c ∧ letter ≠ 'u' := by
  have hall : ∀ escape ∈ shortEscapes,
      shortEscape? escape.1 = some escape.2 ∧ escape.1 ≠ 'u' := by decide
  exact hall _ h

theorem readPieces_code {code : Nat} (h : IsCode digits code) (text : Text) :
    readPieces ('\\' :: 'u' :: digits ++ text) =
      (readPieces text).map fun (pieces, rest) => (.unit code :: pieces, rest) := by
  obtain ⟨hlength, hcode⟩ := h
  match digits, hlength with
  | [a, b, c, d], _ =>
      simp only [List.cons_append, List.nil_append, readPieces, hcode]
      cases readPieces text <;> rfl

theorem SpellsChar.exists_pieces (h : SpellsChar c piece) :
    ∃ read,
      (∀ text, readPieces (piece ++ text) =
        (readPieces text).map fun (pieces, rest) => (read ++ pieces, rest)) ∧
      ∀ later, joinPieces? (read ++ later) = (joinPieces? later).map (c :: ·) := by
  cases h with
  | plain hcontrol hquote hslash =>
      refine ⟨[.char c], fun text => ?_, fun later => rfl⟩
      have hplain : ¬ (c.toNat < 0x20 || c == '\\') = true := by
        simpa using ⟨hcontrol, hslash⟩
      rw [List.cons_append, List.nil_append, readPieces.eq_5 _ _ hquote, if_neg hplain]
      · cases readPieces text <;> rfl
      · exact fun a b d e after heq _ => hslash heq
      · exact fun d after heq _ => hslash heq
  | short hmem =>
      rename_i letter
      obtain ⟨hescape, hu⟩ := shortEscape?_of_mem hmem
      refine ⟨[.char c], fun text => ?_, fun later => rfl⟩
      rw [List.cons_append, List.cons_append, List.nil_append, readPieces.eq_4, hescape]
      · cases readPieces text <;> rfl
      · exact fun a b d e after heq _ => hu heq
  | code hcode =>
      exact ⟨[.unit c.toNat], fun text => readPieces_code hcode text, joinPieces?_unit c⟩
  | halves hhigh hlow hishigh hislow hc =>
      rename_i digits digits' high low
      refine ⟨[.unit high, .unit low], fun text => ?_, joinPieces?_halves hishigh hislow hc⟩
      rw [List.append_assoc, readPieces_code hhigh, readPieces_code hlow]
      cases readPieces text <;> rfl

theorem SpellsChars.exists_pieces (h : SpellsChars text pieces) :
    ∃ read, (∀ rest, readPieces (pieces ++ '"' :: rest) = some (read, rest)) ∧
      joinPieces? read = some text := by
  induction h with
  | nil => exact ⟨[], fun rest => rfl, rfl⟩
  | cons hchar hchars ih =>
      obtain ⟨first, hfirst, hjoin⟩ := hchar.exists_pieces
      obtain ⟨read, hread, htext⟩ := ih
      refine ⟨first ++ read, fun rest => ?_, ?_⟩
      · rw [List.append_assoc, hfirst, hread]
        rfl
      · rw [hjoin, htext]
        rfl

theorem SpellsText.readScalar (h : SpellsText text piece) (rest : Text) :
    Json.readScalar (piece ++ rest) = (.string text, rest) := by
  obtain ⟨hchars⟩ := h
  obtain ⟨read, hread, htext⟩ := hchars.exists_pieces
  simp only [List.cons_append, List.append_assoc, List.nil_append, Json.readScalar, hread, htext]

theorem SpellsText.readName? (h : SpellsText text piece) (hblanks : AreBlank blanks) (rest : Text) :
    Json.readName? (piece ++ (blanks ++ ':' :: rest)) = some (some text, rest) := by
  obtain ⟨hchars⟩ := h
  obtain ⟨read, hread, htext⟩ := hchars.exists_pieces
  simp only [List.cons_append, List.append_assoc, List.nil_append, Json.readName?, hread,
    skipSpace_append hblanks, htext, Option.bind_eq_bind, Option.bind_some]
  rfl

end TemplateSuite.Json
