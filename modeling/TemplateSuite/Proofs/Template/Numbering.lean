import Mathlib.Data.List.Forall2
import TemplateSuite.Proofs.Template.Scan

namespace TemplateSuite

/-- Both give a value, and these are related, or both fail; if the comparison is exact, with the
same error. -/
inductive SameEnd {ε α β : Type} (exact : Prop) (R : α → β → Prop) :
    Except ε α → Except ε β → Prop
  | done {a : α} {b : β} : R a b → SameEnd exact R (.ok a) (.ok b)
  | stopped {e e' : ε} : (exact → e = e') → SameEnd exact R (.error e) (.error e')

/-- The elements differ in their numbers only; if the comparison is exact, they are equal. -/
inductive Item.Alike (exact : Prop) : Item → Item → Prop
  | text {number number' : Nat} (content : Text) :
      (exact → number = number') → Alike exact (.text number content) (.text number' content)
  | block {number number' : Nat} (tag argument body : Text) :
      (exact → number = number') →
        Alike exact (.block ⟨tag, argument, body, number⟩) (.block ⟨tag, argument, body, number'⟩)

/-- The elements are made of lines that are related one by one; if the comparison is exact, their
numbers are equal. -/
inductive Item.Related (exact : Prop) (R : Text → Text → Prop) : Item → Item → Prop
  | text {number number' : Nat} {content content' : Text} :
      (exact → number = number') → R content content' →
        Related exact R (.text number content) (.text number' content')
  | block {number number' : Nat} (tag argument : Text) {body body' : List Text} :
      (exact → number = number') → List.Forall₂ R body body' →
        Related exact R (.block ⟨tag, argument, Text.unlines body, number⟩)
          (.block ⟨tag, argument, Text.unlines body', number'⟩)

theorem Item.Related.alike {exact : Prop} {item item' : Item} (h : item.Related exact Eq item') :
    item.Alike exact item' := by
  cases h with
  | text hnumber hcontent =>
      subst hcontent
      exact .text _ hnumber
  | block tag argument hnumber hbody =>
      rw [List.forall₂_eq_eq_eq] at hbody
      subst hbody
      exact .block tag argument _ hnumber

theorem SameEnd.imp {ε α β : Type} {exact : Prop} {R S : α → β → Prop} {x : Except ε α}
    {y : Except ε β} (h : SameEnd exact R x y) (hRS : ∀ a b, R a b → S a b) :
    SameEnd exact S x y := by
  cases h with
  | done hR => exact .done (hRS _ _ hR)
  | stopped he => exact .stopped he

theorem SameEnd.map {ε α β γ δ : Type} {exact : Prop} {R : α → β → Prop} {S : γ → δ → Prop}
    {x : Except ε α} {y : Except ε β} {f : α → γ} {g : β → δ} (h : SameEnd exact R x y)
    (hfg : ∀ a b, R a b → S (f a) (g b)) : SameEnd exact S (x.map f) (y.map g) := by
  cases h with
  | done hR => exact .done (hfg _ _ hR)
  | stopped he => exact .stopped he

namespace Scan

theorem scanLines_cons_of_not_opening {line : Text}
    (h : ∀ tag argument closed, Line.classify line ≠ .opening tag argument closed) (number : Nat)
    (rest : List Text) :
    scanLines number (line :: rest) =
      (scanLines (number + 1) rest).map (.text number line :: ·) := by
  rw [scanLines]
  cases hline : Line.classify line with
  | opening tag argument closed => exact absurd hline (h tag argument closed)
  | closing tag => rfl
  | text => rfl

theorem scanLines_cons_opening {line tag argument : Text}
    (h : Line.classify line = .opening tag argument false) (number : Nat) (rest : List Text) :
    scanLines number (line :: rest) =
      match splitAtClose? tag 0 rest with
      | none => .error (.unterminated [⟨tag, number⟩])
      | some (body, after) =>
        (scanLines (number + body.length + 2) after).map
          (.block ⟨tag, argument, Text.unlines body, number⟩ :: ·) := by
  rw [scanLines]
  simp only [h]
  split
  · rename_i hsplit
    rw [hsplit]
  · rename_i hsplit
    rw [hsplit]
    rfl

variable {exact : Prop} {number number' : Nat} {R : Text → Text → Prop}

/-- Both splits are there and their parts are related, or both are missing. -/
def SplitsRelated (R : Text → Text → Prop) :
    Option (List Text × List Text) → Option (List Text × List Text) → Prop :=
  Option.Rel fun found found' => List.Forall₂ R found.1 found'.1 ∧ List.Forall₂ R found.2 found'.2

theorem SplitsRelated.cons {line line' : Text} {found found' : Option (List Text × List Text)}
    (h : SplitsRelated R found found') (hline : R line line') :
    SplitsRelated R (found.map fun (body, after) => (line :: body, after))
      (found'.map fun (body, after) => (line' :: body, after)) := by
  cases h with
  | none => exact .none
  | some hparts => exact .some ⟨.cons hline hparts.1, hparts.2⟩

theorem splitAtClose?_related
    (hR : ∀ line line', R line line' → Line.classify line = Line.classify line') (tag : Text)
    {lines lines' : List Text} (h : List.Forall₂ R lines lines') (depth : Nat) :
    SplitsRelated R (splitAtClose? tag depth lines) (splitAtClose? tag depth lines') := by
  induction h generalizing depth with
  | nil => exact .none
  | @cons line line' rest rest' hline hrest ih =>
      rw [splitAtClose?.eq_def, splitAtClose?.eq_def]
      dsimp only
      rw [← hR line line' hline]
      split
      · exact .some ⟨.nil, hrest⟩
      · exact (ih _).cons hline
      · exact (ih _).cons hline
      · exact (ih _).cons hline

theorem scanLines_related
    (hR : ∀ line line', R line line' → Line.classify line = Line.classify line')
    (h : exact → number = number') {lines lines' : List Text} (hlines : List.Forall₂ R lines lines') :
    SameEnd exact (List.Forall₂ (Item.Related exact R)) (scanLines number lines)
      (scanLines number' lines') := by
  have hnext : ∀ {number number' : Nat}, (exact → number = number') → exact →
      number + 1 = number' + 1 :=
    fun h hexact => congrArg (· + 1) (h hexact)
  induction number, lines using scanLines.induct generalizing number' lines' with
  | case1 number =>
      cases hlines
      rw [scanLines, scanLines]
      exact .done .nil
  | case2 number line rest tag argument hfirst ih =>
      obtain _ | ⟨hline, hrest⟩ := hlines
      rw [scanLines_cons_selfClosing hfirst,
        scanLines_cons_selfClosing ((hR _ _ hline).symm.trans hfirst)]
      exact (ih (hnext h) hrest).map fun _ _ => .cons (.block tag argument h .nil)
  | case3 number line rest tag argument hfirst hfound =>
      obtain _ | ⟨hline, hrest⟩ := hlines
      rw [scanLines_cons_opening hfirst,
        scanLines_cons_opening ((hR _ _ hline).symm.trans hfirst)]
      have hsplit := splitAtClose?_related hR tag hrest 0
      rw [hfound] at hsplit ⊢
      generalize splitAtClose? tag 0 _ = found' at hsplit ⊢
      cases hsplit
      exact .stopped fun hexact => by rw [h hexact]
  | case4 number line rest tag argument hfirst body after hfound ih =>
      obtain _ | ⟨hline, hrest⟩ := hlines
      rw [scanLines_cons_opening hfirst,
        scanLines_cons_opening ((hR _ _ hline).symm.trans hfirst)]
      have hsplit := splitAtClose?_related hR tag hrest 0
      rw [hfound] at hsplit ⊢
      generalize splitAtClose? tag 0 _ = found' at hsplit ⊢
      cases hsplit with
      | some hparts =>
          refine (ih (fun hexact => ?_) hparts.2).map fun _ _ =>
            .cons (.block tag argument h hparts.1)
          rw [h hexact, hparts.1.length_eq]
  | case5 number line rest hselfClosing hopening ih =>
      obtain _ | ⟨hline, hrest⟩ := hlines
      have hother : ∀ tag argument closed, Line.classify line ≠ .opening tag argument closed := by
        rintro tag argument (_ | _) hfirst
        · exact hopening tag argument hfirst
        · exact hselfClosing tag argument hfirst
      rw [scanLines_cons_of_not_opening hother,
        scanLines_cons_of_not_opening (hR _ _ hline ▸ hother)]
      exact (ih (hnext h) hrest).map fun _ _ => .cons (.text h hline)

theorem scanLines_alike (h : exact → number = number') (lines : List Text) :
    SameEnd exact (List.Forall₂ (Item.Alike exact)) (scanLines number lines)
      (scanLines number' lines) :=
  (scanLines_related (fun _ _ => congrArg Line.classify) h (List.forall₂_refl lines)).imp
    fun _ _ => List.Forall₂.imp fun _ _ => Item.Related.alike

theorem scan_alike (h : exact → number = number') (text : Text) :
    SameEnd exact (List.Forall₂ (Item.Alike exact)) (scan text number) (scan text number') :=
  scanLines_alike h (Text.lines text)

theorem elements_alike {text : Text} {items items' : List Item} (h : exact → number = number')
    (hscan : scan text number = .ok items) (hscan' : scan text number' = .ok items') :
    List.Forall₂ (Item.Alike exact) items items' := by
  have halike := scan_alike h text
  rw [hscan, hscan'] at halike
  cases halike with
  | done hitems => exact hitems

end Scan

end TemplateSuite
