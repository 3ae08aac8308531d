import TemplateSuite.Config.Decode
import TemplateSuite.Proofs.Document.Json.Grammar
import TemplateSuite.Proofs.Text.Decimal
import TemplateSuite.Proofs.Traversal

namespace TemplateSuite.Decode

variable {α δ : Type}

theorem text_string (t : Text) : text (.string t) = .ok t := by
  rw [text]

theorem bool_bool (b : Bool) : bool (.bool b) = .ok b := by
  rw [bool]

theorem natBelow_ofNat {n bound : Nat} (h : n < bound) : natBelow bound (.ofNat n) = .ok n := by
  rw [Value.ofNat, natBelow, Text.readDecimal?_decimal]
  exact if_pos h

theorem uint8_ofNat (n : UInt8) : uint8 (.ofNat n.toNat) = .ok n := by
  rw [uint8, natBelow_ofNat n.toNat_lt]
  exact congrArg Except.ok UInt8.ofNat_toNat

theorem uint32_ofNat (n : UInt32) : uint32 (.ofNat n.toNat) = .ok n := by
  rw [uint32, natBelow_ofNat n.toNat_lt]
  exact congrArg Except.ok UInt32.ofNat_toNat

theorem uint64_ofNat (n : UInt64) : uint64 (.ofNat n.toNat) = .ok n := by
  rw [uint64, natBelow_ofNat n.toNat_lt]
  exact congrArg Except.ok UInt64.ofNat_toNat

theorem optional_ofOption {decode : Value → Result α} {encode : α → Value}
    (hdecode : ∀ a, decode (encode a) = .ok a) (hnull : ∀ a, encode a ≠ .null) (a? : Option α) :
    optional decode (.ofOption encode a?) = .ok a? := by
  cases a? with
  | none => rfl
  | some a =>
      rw [Value.ofOption, optional.eq_2 _ _ (hnull a), hdecode]
      rfl

theorem texts_ofTexts (ts : List Text) : texts (.ofTexts ts) = .ok ts := by
  refine Traversal.mapM_eq_ok_iff.mpr (List.forall₂_map_left_iff.mpr ?_)
  exact List.forall₂_same.mpr fun t _ => text_string t

/-- The members are the given ones in any order, and beside them members of unknown names. -/
def Beside (names : List Text) (own members : List (Text × Value)) : Prop :=
  ∃ others, members.Perm (own ++ others) ∧ ∀ member ∈ others, member.1 ∉ names

/-- The field has been given, if its name has been seen. -/
def given (seen : List Text) (name : Text) (a : α) : Option α :=
  if seen.contains name then some a else none

variable {names seen : List Text} {name other : Text} {a : α} {value : Value}
  {own members : List (Text × Value)}

theorem given_of_mem (h : name ∈ seen) : given seen name a = some a :=
  if_pos (List.contains_iff_mem.mpr h)

theorem given_of_not_mem (h : name ∉ seen) : given seen name a = none :=
  if_neg fun hcontains => h (List.contains_iff_mem.mp hcontains)

theorem given_cons :
    given (other :: seen) name a = if other = name then some a else given seen name a := by
  split
  · rename_i heq
    exact given_of_mem (heq ▸ List.mem_cons_self)
  · rename_i hne
    simp [given, Ne.symm hne]

theorem fill_given {decode : Value → Result α} (hdecode : decode value = .ok a)
    (hseen : name ∉ seen) : fill decode (given seen name a) value = .ok (some a) := by
  rw [given_of_not_mem hseen, fill, hdecode]
  rfl

theorem visit_eq_ok {add : δ → Text → Value → Result δ} {draft : List Text → δ}
    (hadd : ∀ member ∈ members, ∀ seen, (member.1 ∈ names → member.1 ∉ seen) →
      add (draft seen) member.1 member.2 = .ok (draft (member.1 :: seen)))
    (hnamed : ∀ member ∈ members, ∀ inner, member.2 ≠ .misnamed inner)
    (honce : members.Pairwise fun a b => a.1 ∈ names → a.1 ≠ b.1)
    (hseen : ∀ member ∈ members, member.1 ∈ names → member.1 ∉ seen) :
    visit add (draft seen) members = .ok (draft ((members.map Prod.fst).reverse ++ seen)) := by
  induction members generalizing seen with
  | nil => rfl
  | cons member rest ih =>
      obtain ⟨name, value⟩ := member
      obtain ⟨haddFirst, haddRest⟩ := List.forall_mem_cons.mp hadd
      obtain ⟨hnamedFirst, hnamedRest⟩ := List.forall_mem_cons.mp hnamed
      obtain ⟨hseenFirst, hseenRest⟩ := List.forall_mem_cons.mp hseen
      obtain ⟨honceFirst, honceRest⟩ := List.pairwise_cons.mp honce
      have hrest : ∀ member ∈ rest, member.1 ∈ names → member.1 ∉ name :: seen := by
        intro member hmember hname
        rw [List.mem_cons, not_or]
        exact ⟨fun heq => honceFirst member hmember (heq ▸ hname) heq.symm,
          hseenRest member hmember hname⟩
      rw [visit.eq_3 _ _ _ _ _ hnamedFirst, haddFirst seen hseenFirst]
      refine (ih haddRest hnamedRest honceRest hrest).trans ?_
      simp

theorem Beside.refl (names : List Text) (own : List (Text × Value)) : Beside names own own :=
  ⟨[], by rw [List.append_nil], List.forall_mem_nil _⟩

theorem Beside.mem_or (h : Beside names own members) :
    ∀ member ∈ members, member ∈ own ∨ member.1 ∉ names := by
  obtain ⟨others, hperm, hothers⟩ := h
  intro member hmember
  exact (List.mem_append.mp (hperm.mem_iff.mp hmember)).imp_right (hothers member)

theorem Beside.own_mem (h : Beside names own members) : ∀ member ∈ own, member ∈ members := by
  obtain ⟨others, hperm, -⟩ := h
  exact fun member hmember => hperm.mem_iff.mpr (List.mem_append_left others hmember)

theorem Beside.pairwise (h : Beside names own members) (hnames : own.map Prod.fst = names)
    (hnodup : names.Nodup) : members.Pairwise fun a b => a.1 ∈ names → a.1 ≠ b.1 := by
  obtain ⟨others, hperm, hothers⟩ := h
  have hsymm : ∀ {a b : Text × Value}, (a.1 ∈ names → a.1 ≠ b.1) → b.1 ∈ names → b.1 ≠ a.1 :=
    fun hne hb heq => hne (heq ▸ hb) heq.symm
  rw [hperm.pairwise_iff hsymm, List.pairwise_append]
  refine ⟨?_, ?_, fun a _ b hb ha heq => hothers b hb (heq ▸ ha)⟩
  · rw [← hnames] at hnodup
    refine (List.pairwise_map.mp hnodup).imp ?_
    exact fun hne _ => hne
  · exact List.pairwise_of_forall_mem_list fun a ha b _ hname => absurd hname (hothers a ha)

/-- If each own member can be taken in before its name has been seen, and every other member is passed
over, all are taken in. -/
theorem Beside.visit_eq_ok {add : δ → Text → Value → Result δ} (h : Beside names own members)
    (draft : List Text → δ) (hnames : own.map Prod.fst = names) (hnodup : names.Nodup)
    (hspelling : ∀ member ∈ members, member.2.HasSpelling)
    (hown : ∀ member ∈ own, ∀ seen, member.1 ∉ seen →
      add (draft seen) member.1 member.2 = .ok (draft (member.1 :: seen)))
    (hother : ∀ name value seen, name ∉ names → value.isWhole →
      add (draft seen) name value = .ok (draft (name :: seen))) :
    ∃ seen, visit add (draft []) members = .ok (draft seen) ∧ ∀ name ∈ names, name ∈ seen := by
  have hadd : ∀ member ∈ members, ∀ seen, (member.1 ∈ names → member.1 ∉ seen) →
      add (draft seen) member.1 member.2 = .ok (draft (member.1 :: seen)) := by
    intro member hmember seen hnew
    rcases h.mem_or member hmember with hmem | hname
    · have hname : member.1 ∈ names := hnames ▸ List.mem_map_of_mem hmem
      exact hown member hmem seen (hnew hname)
    · exact hother member.1 member.2 seen hname (hspelling member hmember).isWhole
  refine ⟨_, Decode.visit_eq_ok hadd (fun member hmember => (hspelling member hmember).ne_misnamed)
    (h.pairwise hnames hnodup) (fun _ _ _ => List.not_mem_nil), fun name hname => ?_⟩
  rw [← hnames] at hname
  obtain ⟨member, hmember, rfl⟩ := List.mem_map.mp hname
  rw [List.append_nil, List.mem_reverse]
  exact List.mem_map_of_mem (h.own_mem member hmember)

end TemplateSuite.Decode
