import TemplateSuite.Proofs.Document.Json.Tokens

namespace TemplateSuite.Json

variable {text rest blanks piece pieces digits before after : Text} {c : Char} {fuel : Nat}
  {value : Value}

theorem after?_eq_none {opening : Text} {d : Char} (hd : opening.head? = some d) (h : c ≠ d) :
    Text.after? opening (c :: text) = none := by
  obtain ⟨others, rfl⟩ := List.head?_eq_some_iff.mp hd
  simp [Text.after?, h.symm]

theorem IsNumber.exists_cons (h : IsNumber digits) :
    ∃ c others, digits = c :: others ∧ (c.isDigit ∨ c = '-') := by
  obtain ⟨hsign, hwhole, -, -⟩ := h
  rename_i sign whole fraction exponent
  obtain ⟨c, others, rfl, hc⟩ := hwhole.1.exists_cons
  rcases hsign with rfl | rfl
  · exact ⟨c, others ++ fraction ++ exponent, rfl, .inl hc⟩
  · exact ⟨'-', c :: others ++ fraction ++ exponent, rfl, .inr rfl⟩

theorem ne_of_startsNumber {d : Char} (h : c.isDigit ∨ c = '-') (hdigit : d.isDigit = false)
    (hminus : d ≠ '-') : c ≠ d := by
  rintro rfl
  rcases h with hc | hc
  · exact Bool.false_ne_true (hdigit.symm.trans hc)
  · exact hminus hc

theorem IsNumber.readScalar (h : IsNumber digits) (hrest : CanFollow rest) :
    Json.readScalar (digits ++ rest) = (.number digits, rest) := by
  have hnumber := readNumber?_append h hrest
  obtain ⟨c, others, rfl, hc⟩ := h.exists_cons
  have hquote : ∀ after, c :: others ++ rest ≠ '"' :: after :=
    fun after heq => ne_of_startsNumber hc rfl (by decide) (List.cons.inj heq).1
  have hnull : Text.after? "null" (c :: others ++ rest) = none :=
    after?_eq_none rfl (ne_of_startsNumber hc rfl (by decide))
  have htrue : Text.after? "true" (c :: others ++ rest) = none :=
    after?_eq_none rfl (ne_of_startsNumber hc rfl (by decide))
  have hfalse : Text.after? "false" (c :: others ++ rest) = none :=
    after?_eq_none rfl (ne_of_startsNumber hc rfl (by decide))
  rw [readScalar.eq_2 _ hquote, hnull, htrue, hfalse, hnumber]

/-- The character is not what an empty list or record has after its opening bracket. -/
def StartsPart (c : Char) : Prop :=
  isSpace c = false ∧ c ≠ ']' ∧ c ≠ '}'

theorem startsPart_of_startsNumber (h : c.isDigit ∨ c = '-') : StartsPart c := by
  refine ⟨?_, ne_of_startsNumber h rfl (by decide), ne_of_startsNumber h rfl (by decide)⟩
  rw [← Bool.not_eq_true]
  intro hspace
  simp only [isSpace, Bool.or_eq_true, beq_iff_eq] at hspace
  rcases hspace with ((hc | hc) | hc) | hc <;> exact ne_of_startsNumber h rfl (by decide) hc

theorem Spells.exists_cons (h : Spells value piece) :
    ∃ c others, piece = c :: others ∧ StartsPart c := by
  cases h with
  | null => exact ⟨_, _, rfl, by decide, by decide, by decide⟩
  | true => exact ⟨_, _, rfl, by decide, by decide, by decide⟩
  | false => exact ⟨_, _, rfl, by decide, by decide, by decide⟩
  | number hnumber =>
      obtain ⟨c, others, rfl, hc⟩ := hnumber.exists_cons
      exact ⟨c, others, rfl, startsPart_of_startsNumber hc⟩
  | string hstring =>
      obtain ⟨_⟩ := hstring
      exact ⟨_, _, rfl, by decide, by decide, by decide⟩
  | list _ => exact ⟨_, _, rfl, by decide, by decide, by decide⟩
  | record _ => exact ⟨_, _, rfl, by decide, by decide, by decide⟩

theorem SpellsMember.exists_cons {member : Text × Value} (h : SpellsMember Spells member piece) :
    ∃ c others, piece = c :: others ∧ StartsPart c := by
  obtain ⟨⟨_⟩, _, _, _⟩ := h
  exact ⟨_, _, rfl, by decide, by decide, by decide⟩

theorem Separated.exists_skipSpace {α : Type} {spells : α → Text → Prop} {a : α} {others : List α}
    (h : Separated spells (a :: others) pieces)
    (hstart : ∀ {piece}, spells a piece → ∃ c others, piece = c :: others ∧ StartsPart c)
    (text : Text) : ∃ c later, skipSpace (pieces ++ text) = c :: later ∧ StartsPart c := by
  obtain ⟨before, piece, after, rfl, hbefore, hpiece⟩ : ∃ before piece after,
      pieces = before ++ (piece ++ after) ∧ AreBlank before ∧ spells a piece := by
    cases h with
    | last hbefore hpiece _ => exact ⟨_, _, _, List.append_assoc _ _ _, hbefore, hpiece⟩
    | cons hbefore hpiece _ _ =>
        exact ⟨_, _, _, by rw [List.append_assoc, List.append_assoc], hbefore, hpiece⟩
  obtain ⟨c, later, rfl, hc⟩ := hstart hpiece
  refine ⟨c, later ++ after ++ text, ?_, hc⟩
  rw [List.append_assoc, skipSpace_append hbefore]
  exact skipSpace_cons hc.1 _

theorem canFollow_append (h : AreBlank blanks) (hc : c = ',' ∨ c = ']' ∨ c = '}') (text : Text) :
    CanFollow (blanks ++ c :: text) := by
  intro d hd
  cases blanks with
  | nil =>
      cases hd
      exact .inr hc
  | cons e others =>
      cases hd
      exact .inl (h d List.mem_cons_self)

theorem skipSpace_append_cons (h : AreBlank blanks) (hc : c = ',' ∨ c = ']' ∨ c = '}')
    (text : Text) : skipSpace (blanks ++ c :: text) = c :: text := by
  rw [skipSpace_append h]
  refine skipSpace_cons ?_ text
  rcases hc with rfl | rfl | rfl <;> decide

theorem readValue_skipSpace (fuel : Nat) (text : Text) :
    readValue fuel (skipSpace text) = readValue fuel text := by
  cases fuel with
  | zero => rfl
  | succ fuel => rw [readValue, readValue, skipSpace_skipSpace]

theorem readValue_append (h : AreBlank blanks) (fuel : Nat) (text : Text) :
    readValue fuel (blanks ++ text) = readValue fuel text := by
  rw [← readValue_skipSpace, skipSpace_append h, readValue_skipSpace]

theorem readItems_skipSpace (fuel : Nat) (text : Text) :
    readItems fuel (skipSpace text) = readItems fuel text := by
  cases fuel with
  | zero => rfl
  | succ fuel => rw [readItems, readItems, readValue_skipSpace]

theorem readMembers_skipSpace (fuel : Nat) (text : Text) :
    readMembers fuel (skipSpace text) = readMembers fuel text := by
  cases fuel with
  | zero => rfl
  | succ fuel => rw [readMembers, readMembers, skipSpace_skipSpace]

theorem readValue_scalar (hspace : isSpace c = false) (hlist : c ≠ '[') (hrecord : c ≠ '{') :
    readValue (fuel + 1) (c :: text) = readScalar (c :: text) := by
  rw [readValue, skipSpace_cons hspace]
  split
  · rename_i heq
    exact absurd (List.cons.inj heq).1 hlist
  · rename_i heq
    exact absurd (List.cons.inj heq).1 hrecord
  · rfl

theorem readValue_emptyList (h : AreBlank blanks) :
    readValue (fuel + 1) ('[' :: (blanks ++ ']' :: rest)) = (.list [], rest) := by
  have hbracket : isSpace '[' = false := by decide
  simp only [readValue, skipSpace_cons hbracket, skipSpace_append_cons h (.inr (.inl rfl))]

theorem readValue_list (h : skipSpace text = c :: before) (hc : StartsPart c) :
    readValue (fuel + 1) ('[' :: text) =
      (.list (readItems fuel text).1, (readItems fuel text).2) := by
  have hbracket : isSpace '[' = false := by decide
  rw [← readItems_skipSpace fuel text, h]
  simp only [readValue, skipSpace_cons hbracket, h]
  split
  · rename_i heq
    exact absurd (List.cons.inj heq).1 hc.2.1
  · rfl

theorem readValue_emptyRecord (h : AreBlank blanks) :
    readValue (fuel + 1) ('{' :: (blanks ++ '}' :: rest)) = (.record [], rest) := by
  have hbrace : isSpace '{' = false := by decide
  simp only [readValue, skipSpace_cons hbrace, skipSpace_append_cons h (.inr (.inr rfl))]

theorem readValue_record (h : skipSpace text = c :: before) (hc : StartsPart c) :
    readValue (fuel + 1) ('{' :: text) =
      (.record (readMembers fuel text).1, (readMembers fuel text).2) := by
  have hbrace : isSpace '{' = false := by decide
  rw [← readMembers_skipSpace fuel text, h]
  simp only [readValue, skipSpace_cons hbrace, h]
  split
  · rename_i heq
    exact absurd (List.cons.inj heq).1 hc.2.2
  · rfl

theorem readItems_last (hbefore : AreBlank before) (hafter : AreBlank after)
    (hpiece : ∀ {text}, CanFollow text → readValue fuel (piece ++ text) = (value, text)) :
    readItems (fuel + 1) (before ++ piece ++ after ++ ']' :: rest) = ([value], rest) := by
  have hvalue := hpiece (canFollow_append hafter (.inr (.inl rfl)) rest)
  simp only [List.append_assoc, readItems, readValue_append hbefore, hvalue,
    skipSpace_append_cons hafter (.inr (.inl rfl))]

theorem readItems_cons {items : List Value} (hbefore : AreBlank before) (hafter : AreBlank after)
    (hpiece : ∀ {text}, CanFollow text → readValue fuel (piece ++ text) = (value, text))
    (hpieces : readItems fuel (pieces ++ ']' :: rest) = (items, rest)) :
    readItems (fuel + 1) (before ++ piece ++ after ++ ',' :: pieces ++ ']' :: rest) =
      (value :: items, rest) := by
  have hvalue := hpiece (canFollow_append hafter (.inl rfl) (pieces ++ ']' :: rest))
  simp only [List.append_assoc, List.cons_append, readItems, readValue_append hbefore, hvalue,
    skipSpace_append_cons hafter (.inl rfl), hpieces]

theorem readName?_member {name front quoted : Text} (hfront : AreBlank front)
    (hname : SpellsText name quoted) (hbefore : AreBlank before) (text : Text) :
    readName? (skipSpace (front ++ (quoted ++ (before ++ ':' :: text)))) =
      some (some name, text) := by
  have hread := hname.readName? hbefore text
  obtain ⟨_⟩ := hname
  rw [skipSpace_append hfront]
  exact (congrArg readName? (skipSpace_cons (by decide) _)).trans hread

theorem readMembers_last {name front quoted back : Text} (hfront : AreBlank front)
    (hback : AreBlank back) (hname : SpellsText name quoted) (hbefore : AreBlank before)
    (hafter : AreBlank after)
    (hpiece : ∀ {text}, CanFollow text → readValue fuel (piece ++ text) = (value, text)) :
    readMembers (fuel + 1)
        (front ++ (quoted ++ before ++ ':' :: after ++ piece) ++ back ++ '}' :: rest) =
      ([(name, value)], rest) := by
  have hvalue := hpiece (canFollow_append hback (.inr (.inr rfl)) rest)
  simp only [List.append_assoc, List.cons_append, readMembers, readName?_member hfront hname hbefore,
    readValue_append hafter, hvalue, skipSpace_append_cons hback (.inr (.inr rfl)), toMember]

theorem readMembers_cons {name front quoted back : Text} {members : List (Text × Value)}
    (hfront : AreBlank front) (hback : AreBlank back) (hname : SpellsText name quoted)
    (hbefore : AreBlank before) (hafter : AreBlank after)
    (hpiece : ∀ {text}, CanFollow text → readValue fuel (piece ++ text) = (value, text))
    (hpieces : readMembers fuel (pieces ++ '}' :: rest) = (members, rest)) :
    readMembers (fuel + 1)
        (front ++ (quoted ++ before ++ ':' :: after ++ piece) ++ back ++ ',' :: pieces ++
          '}' :: rest) =
      ((name, value) :: members, rest) := by
  have hvalue := hpiece (canFollow_append hback (.inl rfl) (pieces ++ '}' :: rest))
  simp only [List.append_assoc, List.cons_append, readMembers, readName?_member hfront hname hbefore,
    readValue_append hafter, hvalue, skipSpace_append_cons hback (.inl rfl), toMember, hpieces]

mutual

theorem Spells.readValue : ∀ {value : Value} {piece rest : Text} {fuel : Nat}, Spells value piece →
    piece.length ≤ fuel → CanFollow rest → Json.readValue fuel (piece ++ rest) = (value, rest)
  | _, _, _, 0, h, hfuel, _ => by
      -- No value is spelled by the empty text.
      obtain ⟨c, others, rfl, -⟩ := h.exists_cons
      cases hfuel
  | .null, _, _, _ + 1, .null, _, _ => readValue_scalar (by decide) (by decide) (by decide)
  | .bool _, _, _, _ + 1, .true, _, _ => readValue_scalar (by decide) (by decide) (by decide)
  | .bool _, _, _, _ + 1, .false, _, _ => readValue_scalar (by decide) (by decide) (by decide)
  | .number _, _, rest, _ + 1, .number hnumber, _, hrest => by
      have hscalar := hnumber.readScalar hrest
      obtain ⟨c, others, rfl, hc⟩ := hnumber.exists_cons
      rw [← hscalar]
      exact readValue_scalar (startsPart_of_startsNumber hc).1
        (ne_of_startsNumber hc rfl (by decide)) (ne_of_startsNumber hc rfl (by decide))
  | .string _, _, rest, _ + 1, .string hstring, _, _ => by
      have hscalar := hstring.readScalar rest
      obtain ⟨_⟩ := hstring
      rw [← hscalar]
      exact readValue_scalar (by decide) (by decide) (by decide)
  | .list [], _, _, _ + 1, .list (.nil hblank), _, _ => by
      rw [List.append_assoc, List.cons_append]
      exact readValue_emptyList hblank
  | .list (item :: others), _, rest, fuel + 1, .list hitems, hfuel, _ => by
      obtain ⟨c, later, hskip, hc⟩ := hitems.exists_skipSpace Spells.exists_cons (']' :: rest)
      have hread : readItems fuel (_ ++ ']' :: rest) = (item :: others, rest) :=
        readItems_append hitems (by simpa using hfuel)
      rw [List.append_assoc, List.cons_append]
      exact (readValue_list hskip hc).trans (by rw [hread])
  | .record [], _, _, _ + 1, .record (.nil hblank), _, _ => by
      rw [List.append_assoc, List.cons_append]
      exact readValue_emptyRecord hblank
  | .record (member :: others), _, rest, fuel + 1, .record hmembers, hfuel, _ => by
      obtain ⟨c, later, hskip, hc⟩ :=
        hmembers.exists_skipSpace SpellsMember.exists_cons ('}' :: rest)
      have hread : readMembers fuel (_ ++ '}' :: rest) = (member :: others, rest) :=
        readMembers_append hmembers (by simpa using hfuel)
      rw [List.append_assoc, List.cons_append]
      exact (readValue_record hskip hc).trans (by rw [hread])

theorem readItems_append : ∀ {item : Value} {others : List Value} {pieces rest : Text} {fuel : Nat},
    Separated Spells (item :: others) pieces → pieces.length + 1 ≤ fuel →
      readItems fuel (pieces ++ ']' :: rest) = (item :: others, rest)
  | _, [], _, _, _ + 1, .last hbefore hitem hafter, hfuel => by
      simp only [List.length_append] at hfuel
      exact readItems_last hbefore hafter fun hrest => hitem.readValue (by omega) hrest
  | _, _ :: _, _, _, _ + 1, .cons hbefore hitem hafter hothers, hfuel => by
      simp only [List.length_append, List.length_cons] at hfuel
      exact readItems_cons hbefore hafter (fun hrest => hitem.readValue (by omega) hrest)
        (readItems_append hothers (by omega))

theorem readMembers_append : ∀ {member : Text × Value} {others : List (Text × Value)}
    {pieces rest : Text} {fuel : Nat}, Separated (SpellsMember Spells) (member :: others) pieces →
      pieces.length + 1 ≤ fuel →
        readMembers fuel (pieces ++ '}' :: rest) = (member :: others, rest)
  | (_, _), [], _, _, _ + 1, .last hfront (.named hname hbefore hafter hvalue) hback, hfuel => by
      simp only [List.length_append, List.length_cons] at hfuel
      exact readMembers_last hfront hback hname hbefore hafter fun hrest =>
        hvalue.readValue (by omega) hrest
  | (_, _), _ :: _, _, _, _ + 1, .cons hfront (.named hname hbefore hafter hvalue) hback hothers,
      hfuel => by
      simp only [List.length_append, List.length_cons] at hfuel
      exact readMembers_cons hfront hback hname hbefore hafter
        (fun hrest => hvalue.readValue (by omega) hrest) (readMembers_append hothers (by omega))

end

/-- Whatever white space stands around the value, it is read, and the white space after it is left. -/
theorem Spells.read (h : Spells value text) (hbefore : AreBlank before) (hafter : AreBlank after) :
    Json.read (before ++ text ++ after) = (value, after) := by
  have hfollow : CanFollow after := fun c hc => .inl (hafter c (List.mem_of_mem_head? hc))
  rw [Json.read, List.append_assoc, readValue_append hbefore]
  refine h.readValue ?_ hfollow
  simp only [List.length_append]
  omega

end TemplateSuite.Json
