import TemplateSuite.Proofs.FileSystem.Walk
import TemplateSuite.Proofs.Generation.Contract

namespace TemplateSuite

/-- The template that begins or ends. -/
def Event.template? : Event → Option Text
  | .enteringTemplate path => some path
  | .leavingTemplate path => some path
  | _ => none

/-- While the given templates are open, each template that begins ends again before those around it
do, and none begins that is open. -/
inductive Visits : List Text → List Event → Prop
  | nil {opened : List Text} : Visits opened []
  | skip {opened : List Text} {event : Event} {rest : List Event} :
      event.template? = none → Visits opened rest → Visits opened (event :: rest)
  | visit {opened : List Text} {file : Text} {inner rest : List Event} :
      file ∉ opened → Visits (file :: opened) inner → Visits opened rest →
        Visits opened (.enteringTemplate file :: (inner ++ .leavingTemplate file :: rest))

theorem Event.template?_of_isRemark {event : Event} (h : event.isRemark) :
    event.template? = none := by
  cases event <;> first | rfl | cases h

theorem Visits.append {opened : List Text} {front back : List Event} (hfront : Visits opened front)
    (hback : Visits opened back) : Visits opened (front ++ back) := by
  induction hfront with
  | nil => exact hback
  | skip hevent _ ih => exact .skip hevent (ih hback)
  | visit hfile hinner _ _ ih =>
      rw [List.cons_append, List.append_assoc, List.cons_append]
      exact .visit hfile hinner (ih hback)

theorem Visits.single {opened : List Text} {event : Event} (h : event.template? = none) :
    Visits opened [event] :=
  .skip h .nil

/-- What is open stays open, and what was opened in between has been closed. -/
structure ClosesAgain (before after : Progress) : Prop where
  opened : after.opened = before.opened
  events : ∃ new, after.events = before.events ++ new ∧ Visits before.opened new

namespace ClosesAgain

theorem refl (p : Progress) : ClosesAgain p p where
  opened := rfl
  events := ⟨[], (List.append_nil _).symm, .nil⟩

theorem trans {p q r : Progress} (hfirst : ClosesAgain p q) (hsecond : ClosesAgain q r) :
    ClosesAgain p r where
  opened := hsecond.opened.trans hfirst.opened
  events := by
    obtain ⟨front, hfront, hvisits⟩ := hfirst.events
    obtain ⟨back, hback, hvisits'⟩ := hsecond.events
    rw [hfirst.opened] at hvisits'
    exact ⟨front ++ back, by rw [hback, hfront, List.append_assoc], hvisits.append hvisits'⟩

theorem of_event {p q : Progress} {event : Event} (hopened : q.opened = p.opened)
    (hevents : q.events = p.events ++ [event]) (h : event.template? = none) :
    ClosesAgain p q where
  opened := hopened
  events := ⟨[event], hevents, .single h⟩

def contract : Contract where
  done := ClosesAgain
  stopped := ClosesAgain
  refl := refl
  trans := trans
  stopped_refl := refl
  stopped_after := trans

open Processing Contract

theorem holds_change {α : Type} (operation : FileOperation) (path : Text) (action : Change α) :
    contract.Holds (change operation path action) :=
  Contract.holds_change (fun _ _ _ _ => of_event rfl rfl rfl) (fun _ _ _ _ => of_event rfl rfl rfl)

theorem leaving {p after : Progress} {file : Text} (hfile : file ∉ p.opened)
    (h : ClosesAgain (p.entering file) after) : ClosesAgain p (after.leaving file) where
  opened := congrArg List.tail h.opened
  events := by
    obtain ⟨new, hnew, hvisits⟩ := h.events
    refine ⟨.enteringTemplate file :: (new ++ [.leavingTemplate file]), ?_,
      .visit hfile hvisits .nil⟩
    simp only [Progress.leaving, hnew, Progress.entering, List.append_assoc, List.cons_append,
      List.nil_append]

theorem admits (setup : Setup) : contract.Admits setup where
  remark event p h := of_event rfl rfl (Event.template?_of_isRemark h)
  define m p := ⟨rfl, [], (List.append_nil _).symm, .nil⟩
  clear _ _ := holds_clearPath fun _ _ => holds_change _ _ _
  makeDirectories path _ := holds_change _ _ _
  store file content _ := by
    refine holds_bind (holds_change _ _ _) fun _ => holds_bind ?_ fun _ => ?_
    · exact fun p => holdsAt_of_eq_ok rfl (of_event rfl rfl rfl)
    · exact fun p => holdsAt_of_eq_ok rfl ⟨rfl, [], (List.append_nil _).symm, .nil⟩
  visit file p action hfile h :=
    holdsAt_whileOpen (h _) (fun _ => leaving hfile) (fun _ => leaving hfile)

theorem of_holds {α : Type} {x : Processing α} (h : contract.Holds x) (p : Progress) :
    ClosesAgain p (x p).2 :=
  (h p).done_or_stopped.elim id id

end ClosesAgain

end TemplateSuite
