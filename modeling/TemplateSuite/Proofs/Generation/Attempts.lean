import Mathlib
import TemplateSuite.Proofs.Generation.History
import TemplateSuite.Proofs.Generation.IncludeChain

/-!
The record of generated files. While templates are processed, `file` directives are attempted, one
after the other. The record holds those that wrote their file, in this order, and nothing else.
-/

namespace TemplateSuite

open StateAction Processing

/-- A `file` section whose turn has come. -/
structure Attempt where
  /-- The directory that is being filled. -/
  directory : Text
  request : Section
  /-- How far processing has come. -/
  before : Progress

namespace Attempt

def run (a : Attempt) : Except TemplateError Unit × Progress :=
  generateFile a.directory a.request a.before

/-- The macro call cannot be read or expanded. -/
def FailsInText (a : Attempt) : Prop :=
  (∃ e, directiveOf a.request = .error e) ∨
    ∃ directive e, directiveOf a.request = .ok directive ∧
      directive.call.expand a.before.macros = .error e

/-- The file, if its directory can be made and it can be written. -/
def stored? (file : GeneratedFile) (content : Text) (p : Progress) : Option GeneratedFile :=
  match makeParent file.path p with
  | (.error _, _) => none
  | (.ok _, q) =>
    match Change.writeFile file.path content q.files with
    | (.error _, _) => none
    | (.ok _, _) => some file

/-- The file that is written, if it is. -/
def written? (a : Attempt) : Option GeneratedFile :=
  match directiveOf a.request with
  | .error _ => none
  | .ok directive =>
    match directive.call.expand a.before.macros with
    | .error _ => none
    | .ok content =>
      stored? ⟨Path.join a.directory directive.name, directive.expect⟩ content a.before

/-- The file that the directive asks for, and what its call expands to with the macros that there
are when its turn comes. -/
def asked? (a : Attempt) : Option (GeneratedFile × Text) :=
  match directiveOf a.request with
  | .error _ => none
  | .ok directive =>
    match directive.call.expand a.before.macros with
    | .error _ => none
    | .ok content => some (⟨Path.join a.directory directive.name, directive.expect⟩, content)

/-- The file that is written, if it is, and what its call expands to. -/
def wrote? (a : Attempt) : Option (GeneratedFile × Text) :=
  match a.run with
  | (.ok (), _) => a.asked?
  | (.error _, _) => none

end Attempt

/-- What is attempted from a given progress on, in order. -/
abbrev Trace := Progress → List Attempt

namespace Trace

variable {α : Type}

def none : Trace := fun _ => []

/-- An action attempts nothing itself, and its result leads to something that may. -/
def after (x : Processing α) (next : α → Trace) : Trace := fun p =>
  match x p with
  | (.ok a, q) => next a q
  | (.error _, _) => []

/-- One thing is done after the other, until something fails. -/
def each (action : α → Processing Unit) (trace : α → Trace) : List α → Trace
  | [] => none
  | x :: rest => fun p => trace x p ++ after (action x) (fun _ => each action trace rest) p

theorem after_ofExcept_ok {ε : Type} (wrap : ε → TemplateError) (a : α) (next : α → Trace) :
    after (ofExcept wrap (.ok a)) next = next a := rfl

theorem each_map {β : Type} (f : β → α) (action : α → Processing Unit) (trace : α → Trace)
    (xs : List β) :
    each action trace (xs.map f) = each (fun x => action (f x)) (fun x => trace (f x)) xs := by
  induction xs with
  | nil => rfl
  | cons x rest ih => simp only [List.map_cons, each, ih]

def ofItem (fill : Text → Section → Trace) (target : Text) : Item → Trace
  | .text .. => none
  | .block inner =>
    if inner.tag = ("file" : Text) then fun p => [⟨target, inner, p⟩]
    else if inner.tag = Comment.tag then none
    else if inner.tag = ("dir" : Text) then
      after (ofExcept (.invalidSection inner.tag inner.line) (childDirectory target inner))
        fun nested => fill nested inner
    else none

/-- The sections in a body have shorter bodies. -/
def ofDirectory (target : Text) (s : Section) : Trace :=
  after (recreateDirectory target) fun _ =>
    after (note (.createdDirectory target)) fun _ =>
      match _hscan : scan s.body s.bodyLine with
      | .error _ => none
      | .ok items =>
        each (fun item => fillItem fillDirectory target item.val)
          (fun
            | ⟨.text .., _⟩ => none
            | ⟨.block inner, _hmem⟩ =>
              ofItem (fun nested _ => ofDirectory nested inner) target (.block inner))
          items.attach
termination_by s.body.length
decreasing_by exact length_body_lt_of_mem_scan _hscan _hmem

theorem ofDirectory_eq (target : Text) (s : Section) :
    ofDirectory target s =
      after (recreateDirectory target) fun _ => after (note (.createdDirectory target)) fun _ =>
        after (ofExcept .nesting (scan s.body s.bodyLine)) fun items =>
          each (fillItem fillDirectory target) (ofItem ofDirectory target) items := by
  rw [ofDirectory]
  congr 1
  funext _
  congr 1
  funext _
  split
  next e hscan =>
    rw [hscan]
    rfl
  next items hscan =>
    have heach : after (ofExcept .nesting (scan s.body s.bodyLine))
        (each (fillItem fillDirectory target) (ofItem ofDirectory target)) =
          each (fillItem fillDirectory target) (ofItem ofDirectory target)
            (items.attach.map Subtype.val) := by
      rw [hscan, List.attach_map_subtype_val]
      rfl
    refine Eq.trans ?_ heach.symm
    rw [each_map]
    congr 1
    funext ⟨item, hmem⟩
    cases item <;> rfl

section Templates

variable (setup : Setup) (enter : Text → Processing Unit) (inside : Text → Trace)

def ofInclude (s : Section) : Trace :=
  if includeTarget s = [] then none
  else
    after get fun p =>
      after (ofExcept id (resolveInclude setup p.opened p.files (includeTarget s))) fun path =>
        after (note (.including path s.line)) fun _ => inside path

def ofSection (s : Section) : Trace :=
  match setup.table.get? s.tag with
  | Option.none => none
  | some handler =>
    after (note (.handlingSection s.tag s.line)) fun _ =>
      match handler with
      | .definition => none
      | .directory =>
        after (ofExcept (.invalidSection s.tag s.line) (childDirectory setup.outputRoot s))
          fun target => ofDirectory target s
      | .inclusion => ofInclude setup inside s
      | .comment => none

def ofTopItem : Item → Trace
  | .text .. => none
  | .block s => ofSection setup inside s

def ofText (text : Text) : Trace :=
  after (ofExcept .nesting (checkNesting text)) fun _ =>
    after (ofExcept .nesting (scan text 1)) fun items =>
      each (handleItem setup enter) (ofTopItem setup inside) items

def ofTemplate (path : Text) : Trace :=
  after (observe .resolveTemplate path (·.canonicalPath path)) fun file =>
    after get fun p =>
      if p.opened.contains file then none
      else
        after (observe .readTemplate file (·.readText file)) fun text q =>
          ofText setup enter inside text (q.entering file)

end Templates

def ofFileWithin (setup : Setup) : (room : Nat) → Text → Trace
  | 0, _ => none
  | room + 1, path =>
    ofTemplate setup (processFileWithin setup room) (ofFileWithin setup room) path

def ofFile (setup : Setup) (path : Text) : Trace :=
  ofFileWithin setup openLimit path

end Trace

/-- What is attempted while a template is processed. -/
def Request.attempts (setup : Setup) : Request → Trace
  | .file path => Trace.ofFile setup path
  | .text content => Trace.ofText setup (processFile setup) (Trace.ofFile setup) content

/-- These files were written in between, with these texts: they were put on the record, and there
are events for them. -/
structure Adds (written : List (GeneratedFile × Text)) (p q : Progress) : Prop where
  generated : q.generated = p.generated ++ written.map Prod.fst
  writes : writesOf q.events = writesOf p.events ++ written

namespace Adds

variable {front back : List (GeneratedFile × Text)} {p q r : Progress}

theorem of_eq (hevents : q.events = p.events) (hgenerated : q.generated = p.generated) :
    Adds [] p q := by
  refine ⟨hgenerated.trans (List.append_nil _).symm, ?_⟩
  rw [hevents, List.append_nil]

theorem append (hfront : Adds front p q) (hback : Adds back q r) : Adds (front ++ back) p r := by
  constructor
  · rw [hback.generated, hfront.generated, List.map_append, List.append_assoc]
  · rw [hback.writes, hfront.writes, List.append_assoc]

theorem of_event {event : Event} (h : event.write? = none)
    (hevents : q.events = p.events ++ [event]) (hgenerated : q.generated = p.generated) :
    Adds [] p q := by
  refine ⟨hgenerated.trans (List.append_nil _).symm, ?_⟩
  rw [hevents, writesOf_append, writesOf_singleton, h]
  rfl

end Adds

/-- Nothing is written. -/
def recordKept : Contract where
  done := Adds []
  stopped := Adds []
  refl _ := .of_eq rfl rfl
  trans h h' := h.append h'
  stopped_refl _ := .of_eq rfl rfl
  stopped_after h h' := h.append h'

namespace recordKept

theorem adds {α : Type} {x : Processing α} (h : recordKept.Holds x) (p : Progress) :
    Adds [] p (x p).2 :=
  (h p).done_or_stopped.elim id id

theorem holds_note {event : Event} (h : event.write? = none) : recordKept.Holds (note event) :=
  fun _ => Contract.holdsAt_of_eq_ok rfl (.of_event h rfl rfl)

theorem holds_change {α : Type} (operation : FileOperation) (path : Text) (action : Change α) :
    recordKept.Holds (change operation path action) :=
  Contract.holds_change (fun _ _ _ _ => .of_event rfl rfl rfl) fun _ _ _ _ => .of_event rfl rfl rfl

theorem holds_recreateDirectory (path : Text) : recordKept.Holds (recreateDirectory path) :=
  Contract.holds_recreateDirectory (Contract.holds_clearPath fun _ _ => holds_change _ _ _)
    (holds_change _ _ _)

theorem holds_makeParent (path : Text) : recordKept.Holds (makeParent path) :=
  Contract.holds_makeParent fun _ _ => holds_change _ _ _

theorem holds_defineMacro (s : Section) : recordKept.Holds (defineMacro s) := by
  refine Contract.holds_defineMacro (fun event p hremark => ?_) (fun m p => ?_) s
  · exact .of_event (Event.write?_of_isRemark hremark) rfl rfl
  · exact .of_eq rfl rfl

end recordKept

namespace Attempt

theorem store_cases (file : GeneratedFile) (content : Text) (p : Progress)
    {store : Except TemplateError Unit × Progress}
    (hstore : store = (makeParent file.path >>= fun _ => storeFile file content) p) :
    (stored? file content p = none ∧ (∃ e, store.1 = .error e) ∧ Adds [] p store.2) ∨
      stored? file content p = some file ∧ store.1 = .ok () ∧
        Adds [(file, content)] p store.2 := by
  have hkept := recordKept.adds (recordKept.holds_makeParent file.path) p
  unfold stored?
  rcases hparent : makeParent file.path p with ⟨e | _, q⟩
  · rw [hparent] at hkept
    rw [bind_of_error hparent] at hstore
    subst hstore
    exact .inl ⟨rfl, ⟨e, rfl⟩, hkept⟩
  · rw [hparent] at hkept
    rw [bind_of_ok hparent] at hstore
    dsimp only
    rcases hwrite : Change.writeFile file.path content q.files with ⟨e | _, files⟩
    · rw [storeFile, bind_of_error (change_of_error hwrite _ _)] at hstore
      subst hstore
      exact .inl ⟨rfl, ⟨_, rfl⟩, hkept.append (.of_event rfl rfl rfl)⟩
    · rw [storeFile_of_ok hwrite] at hstore
      subst hstore
      have hstored : Adds [(file, content)] q { q with
          files
          events := q.events ++ [.changing .writeFile file.path] ++ [.generated file content]
          generated := q.generated ++ [file] } := by
        refine ⟨rfl, ?_⟩
        rw [writesOf_append, writesOf_append, List.append_assoc]
        rfl
      exact .inr ⟨rfl, rfl, hkept.append hstored⟩

variable (a : Attempt)

theorem run_of_failsInText (h : a.FailsInText) :
    a.written? = none ∧ ∃ e, a.run = (.error e, a.before) := by
  unfold written?
  rcases h with ⟨e, hparse⟩ | ⟨directive, e, hparse, hexpand⟩
  · rw [run, generateFile_eq, hparse]
    exact ⟨rfl, e, rfl⟩
  · rw [run, generateFile_eq, hparse, ofExcept_ok_bind, get_bind_apply, hexpand]
    dsimp only
    rw [hexpand]
    exact ⟨rfl, .expansion e, rfl⟩

variable {a}

theorem wrote?_of_error {e : TemplateError} (h : a.run.1 = .error e) : a.wrote? = none := by
  unfold wrote?
  rcases hrun : a.run with ⟨result, after⟩
  rw [hrun] at h
  cases h
  rfl

theorem wrote?_of_ok (h : a.run.1 = .ok ()) : a.wrote? = a.asked? := by
  unfold wrote?
  rcases hrun : a.run with ⟨result, after⟩
  rw [hrun] at h
  cases h
  rfl

variable (a)

/-- An attempt fails and nothing is put on the record, or its file is written and put there. -/
theorem run_cases :
    (a.written? = none ∧ a.wrote? = none ∧ (∃ e, a.run.1 = .error e) ∧ Adds [] a.before a.run.2) ∨
      ∃ directive content, directiveOf a.request = .ok directive ∧
        a.written? = some ⟨Path.join a.directory directive.name, directive.expect⟩ ∧
          a.wrote? = some (⟨Path.join a.directory directive.name, directive.expect⟩, content) ∧
            a.run.1 = .ok () ∧
              Adds [(⟨Path.join a.directory directive.name, directive.expect⟩, content)]
                a.before a.run.2 := by
  by_cases htext : a.FailsInText
  · obtain ⟨hnone, e, hrun⟩ := a.run_of_failsInText htext
    have herror : a.run.1 = .error e := congrArg Prod.fst hrun
    refine .inl ⟨hnone, wrote?_of_error herror, ⟨e, herror⟩, ?_⟩
    rw [hrun]
    exact .of_eq rfl rfl
  · cases hparse : directiveOf a.request with
    | error e => exact absurd (.inl ⟨e, hparse⟩) htext
    | ok directive =>
        cases hexpand : directive.call.expand a.before.macros with
        | error e => exact absurd (.inr ⟨directive, e, hparse, hexpand⟩) htext
        | ok content =>
            have hrun : a.run = (makeParent (Path.join a.directory directive.name) >>= fun _ =>
                storeFile ⟨Path.join a.directory directive.name, directive.expect⟩ content)
                  a.before := by
              rw [run, generateFile_eq, hparse, ofExcept_ok_bind, get_bind_apply, hexpand]
              rfl
            have hwritten : a.written? =
                stored? ⟨Path.join a.directory directive.name, directive.expect⟩ content
                  a.before := by
              simp only [written?, hparse, hexpand]
            have hasked : a.asked? =
                some (⟨Path.join a.directory directive.name, directive.expect⟩, content) := by
              simp only [asked?, hparse, hexpand]
            rw [hwritten]
            rcases store_cases _ content a.before hrun with ⟨hnone, ⟨e, herror⟩, hadds⟩ |
              ⟨hsome, hok, hadds⟩
            · exact .inl ⟨hnone, wrote?_of_error herror, ⟨e, herror⟩, hadds⟩
            · have hwrote := (wrote?_of_ok hok).trans hasked
              exact .inr ⟨directive, content, rfl, hsome, hwrote, hok, hadds⟩

theorem written?_eq : a.written? = a.wrote?.map Prod.fst := by
  rcases a.run_cases with ⟨hnone, hwrote, -, -⟩ | ⟨_, _, -, hsome, hwrote, -, -⟩
  · rw [hnone, hwrote]
    rfl
  · rw [hsome, hwrote]
    rfl

theorem filterMap_written? (attempts : List Attempt) :
    attempts.filterMap written? = (attempts.filterMap wrote?).map Prod.fst := by
  rw [List.map_filterMap]
  exact congrArg (List.filterMap · attempts) (funext written?_eq)

end Attempt

theorem Attempt.exists_of_filterMap_wrote? {attempts : List Attempt}
    {front back : List (GeneratedFile × Text)} {write : GeneratedFile × Text}
    (h : attempts.filterMap wrote? = front ++ write :: back) :
    ∃ earlier a later, attempts = earlier ++ a :: later ∧ earlier.filterMap wrote? = front ∧
      a.wrote? = some write ∧ later.filterMap wrote? = back := by
  obtain ⟨earlier, rest, rfl, hearlier, hrest⟩ := List.filterMap_eq_append_iff.mp h
  obtain ⟨silent, a, later, rfl, hsilent, hwrite, hlater⟩ := List.filterMap_eq_cons_iff.mp hrest
  refine ⟨earlier ++ silent, a, later, (List.append_assoc _ _ _).symm, ?_, hwrite, hlater⟩
  rw [List.filterMap_append, hearlier, List.filterMap_eq_nil_iff.mpr hsilent, List.append_nil]

/-- The action writes what the attempts write, and nothing else. -/
def Accounts {α : Type} (x : Processing α) (trace : Trace) : Prop :=
  ∀ p, Adds ((trace p).filterMap Attempt.wrote?) p (x p).2

namespace Accounts

variable {α : Type}

theorem of_recordKept {x : Processing α} (h : recordKept.Holds x) : Accounts x Trace.none :=
  recordKept.adds h

theorem bind {β : Type} {x : Processing α} {f : α → Processing β} {next : α → Trace}
    (hx : recordKept.Holds x) (hf : ∀ a, Accounts (f a) (next a)) :
    Accounts (x >>= f) (Trace.after x next) := by
  intro p
  have hkept := recordKept.adds hx p
  unfold Trace.after
  rcases hrun : x p with ⟨e | a, after⟩
  · rw [bind_of_error hrun]
    rw [hrun] at hkept
    exact hkept
  · rw [bind_of_ok hrun]
    rw [hrun] at hkept
    exact hkept.append (hf a after)

theorem get_bind {f : Progress → Processing α} {next : Progress → Trace}
    (h : ∀ p, Accounts (f p) (next p)) : Accounts (get >>= f) (Trace.after get next) :=
  bind (fun _ => Contract.holdsAt_of_eq_ok rfl (.of_eq rfl rfl)) h

theorem ofExcept_bind {β ε : Type} {wrap : ε → TemplateError} {result : Except ε α}
    {f : α → Processing β} {next : α → Trace} (h : ∀ a, Accounts (f a) (next a)) :
    Accounts (ofExcept wrap result >>= f) (Trace.after (ofExcept wrap result) next) :=
  bind (Contract.holds_ofExcept _ _) h

theorem note_bind {event : Event} {f : Unit → Processing α} {next : Unit → Trace}
    (hevent : event.write? = none) (h : ∀ a, Accounts (f a) (next a)) :
    Accounts (note event >>= f) (Trace.after (note event) next) :=
  bind (recordKept.holds_note hevent) h

theorem forM {f : α → Processing Unit} {trace : α → Trace} {xs : List α}
    (h : ∀ x ∈ xs, Accounts (f x) (trace x)) : Accounts (xs.forM f) (Trace.each f trace xs) := by
  induction xs with
  | nil => exact of_recordKept (Contract.holds_pure ())
  | cons x rest ih =>
      intro p
      have hfirst := h x List.mem_cons_self p
      have hrest := ih fun y hmem => h y (List.mem_cons_of_mem _ hmem)
      rw [forM_cons]
      simp only [Trace.each, Trace.after]
      rcases hrun : f x p with ⟨e | ⟨⟩, after⟩
      · rw [hrun] at hfirst
        rw [bind_of_error hrun, List.append_nil]
        exact hfirst
      · rw [hrun] at hfirst
        rw [bind_of_ok hrun, List.filterMap_append]
        exact hfirst.append (hrest after)

theorem whileOpen {file : Text} {action : Processing Unit} {trace : Trace}
    (h : Accounts action trace) :
    Accounts (whileOpen file action) fun p => trace (p.entering file) := by
  intro p
  have hentering : Adds [] p (p.entering file) := .of_event rfl rfl rfl
  have hleaving : ∀ after : Progress, Adds [] after (after.leaving file) :=
    fun _ => .of_event rfl rfl rfl
  rw [whileOpen_apply, ← List.append_nil (List.filterMap _ _)]
  exact (hentering.append (h _)).append (hleaving _)

theorem generateFile (directory : Text) (s : Section) :
    Accounts (generateFile directory s) fun p => [⟨directory, s, p⟩] := by
  intro p
  rcases (Attempt.mk directory s p).run_cases with ⟨-, hnone, -, hadds⟩ |
    ⟨_, _, -, -, hsome, -, hadds⟩
  · rw [List.filterMap_cons_none hnone]
    exact hadds
  · rw [List.filterMap_cons_some hsome]
    exact hadds

theorem fillItem {fill : Text → Section → Processing Unit} {trace : Text → Section → Trace}
    (target : Text) (item : Item)
    (h : ∀ inner nested, item = .block inner → Accounts (fill nested inner) (trace nested inner)) :
    Accounts (fillItem fill target item) (Trace.ofItem trace target item) := by
  cases item with
  | text line content =>
      refine of_recordKept ?_
      rw [Processing.fillItem]
      split
      · exact Contract.holds_pure ()
      · exact recordKept.holds_note rfl
  | block inner =>
      rw [Processing.fillItem, Trace.ofItem]
      split
      · exact generateFile target inner
      · split
        · exact of_recordKept (Contract.holds_pure ())
        · split
          · exact ofExcept_bind fun nested => h inner nested rfl
          · exact of_recordKept (recordKept.holds_note rfl)

theorem fillDirectory (target : Text) (s : Section) :
    Accounts (fillDirectory target s) (Trace.ofDirectory target s) := by
  induction s using Section.induction generalizing target with
  | step s ih =>
      rw [fillDirectory_eq, Trace.ofDirectory_eq]
      refine bind (recordKept.holds_recreateDirectory target) fun _ => note_bind rfl fun _ => ?_
      cases hscan : scan s.body s.bodyLine with
      | error e => exact of_recordKept (Contract.holds_throw _)
      | ok items =>
          rw [ofExcept_ok_bind, Trace.after_ofExcept_ok]
          refine forM fun item hmem => fillItem target item fun inner nested heq => ?_
          subst heq
          exact ih hscan hmem nested

theorem generateDirectory (root : Text) (s : Section) :
    Accounts (generateDirectory root s)
      (Trace.after (ofExcept (.invalidSection s.tag s.line) (childDirectory root s))
        fun target => Trace.ofDirectory target s) :=
  ofExcept_bind fun target => fillDirectory target s

variable {setup : Setup} {enter : Text → Processing Unit} {inside : Text → Trace}

theorem includeTemplate (h : ∀ path, Accounts (enter path) (inside path)) (s : Section) :
    Accounts (includeTemplate setup enter s) (Trace.ofInclude setup inside s) := by
  rw [includeTemplate_eq, Trace.ofInclude]
  split
  · exact of_recordKept (Contract.holds_throw _)
  · exact get_bind fun p => ofExcept_bind fun path => note_bind rfl fun _ => h path

theorem handleSection (h : ∀ path, Accounts (enter path) (inside path)) (s : Section) :
    Accounts (handleSection setup enter s) (Trace.ofSection setup inside s) := by
  unfold Processing.handleSection Trace.ofSection
  cases setup.table.get? s.tag with
  | none => exact of_recordKept (recordKept.holds_note rfl)
  | some handler =>
      refine note_bind rfl fun _ => ?_
      cases handler with
      | definition => exact of_recordKept (recordKept.holds_defineMacro s)
      | directory => exact generateDirectory setup.outputRoot s
      | inclusion => exact includeTemplate h s
      | comment => exact of_recordKept (Contract.holds_pure ())

theorem handleItem (h : ∀ path, Accounts (enter path) (inside path)) (item : Item) :
    Accounts (handleItem setup enter item) (Trace.ofTopItem setup inside item) := by
  cases item with
  | text line content => exact of_recordKept (Contract.holds_pure ())
  | block s => exact handleSection h s

theorem handleText (h : ∀ path, Accounts (enter path) (inside path)) (text : Text) :
    Accounts (handleText setup enter text) (Trace.ofText setup enter inside text) :=
  ofExcept_bind fun _ => ofExcept_bind fun _ => forM fun item _ => handleItem h item

theorem openTemplate (h : ∀ path, Accounts (enter path) (inside path)) (path : Text) :
    Accounts (openTemplate setup enter path) (Trace.ofTemplate setup enter inside path) := by
  refine bind (Contract.holds_observe _ _ _) fun file => get_bind fun p => ?_
  split
  · exact of_recordKept (Contract.holds_throw _)
  · exact bind (Contract.holds_observe _ _ _) fun text => whileOpen (handleText h text)

theorem processFileWithin (room : Nat) (path : Text) :
    Accounts (processFileWithin setup room path) (Trace.ofFileWithin setup room path) := by
  induction room generalizing path with
  | zero => exact of_recordKept (Contract.holds_throw _)
  | succ room ih => exact openTemplate ih path

theorem processFile (path : Text) :
    Accounts (processFile setup path) (Trace.ofFile setup path) := by
  rw [Processing.processFile, Trace.ofFile]
  exact processFileWithin openLimit path

theorem process (request : Request) :
    Accounts (request.process setup) (request.attempts setup) := by
  cases request with
  | file path => exact processFile path
  | text content =>
      rw [Request.process, Request.attempts, processText]
      exact handleText processFile content

theorem generated_eq {x : Processing α} {trace : Trace} (h : Accounts x trace) (p : Progress) :
    (x p).2.generated = p.generated ++ (trace p).filterMap Attempt.written? := by
  rw [Attempt.filterMap_written?]
  exact (h p).generated

end Accounts

inductive SessionCall where
  /-- Process a template, with success or without. -/
  | process (request : Request)
  /-- Take the files on the record. -/
  | take

namespace SessionCall

/-- The lists of files that a sequence of calls takes, and the progress after them. -/
def serve (setup : Setup) : List SessionCall → Progress → List (List GeneratedFile) × Progress
  | [], p => ([], p)
  | .process request :: rest, p => serve setup rest (request.process setup p).2
  | .take :: rest, p =>
    let (files, q) := p.takeGenerated
    let (lists, last) := serve setup rest q
    (files :: lists, last)

def attempts (setup : Setup) : List SessionCall → Trace
  | [] => Trace.none
  | .process request :: rest => fun p =>
    request.attempts setup p ++ attempts setup rest (request.process setup p).2
  | .take :: rest => fun p => attempts setup rest p.takeGenerated.2

theorem serve_accounts (setup : Setup) (calls : List SessionCall) (p : Progress) :
    (serve setup calls p).1.flatten ++ (serve setup calls p).2.generated =
      p.generated ++ (attempts setup calls p).filterMap Attempt.written? := by
  induction calls generalizing p with
  | nil => exact (List.append_nil _).symm
  | cons call rest ih =>
      cases call with
      | process request =>
          have hrequest : (request.process setup p).2.generated =
              p.generated ++ (request.attempts setup p).filterMap Attempt.written? :=
            (Accounts.process request).generated_eq p
          simp only [serve, attempts, List.filterMap_append]
          rw [ih, hrequest, List.append_assoc]
      | take =>
          have hrest := ih p.takeGenerated.2
          simp only [serve, attempts, List.flatten_cons]
          rw [List.append_assoc, hrest]
          rfl

/-- The lists taken in a session and the record held at its end are, together and in order, the
files of the `file` directives that wrote one; a directive that fails adds none, and one that fails
in its text leaves everything as it was. -/
theorem record_is_the_written_files (setup : Setup) (calls : List SessionCall) (p : Progress) :
    (serve setup calls p).1.flatten ++ (serve setup calls p).2.generated =
        p.generated ++ (attempts setup calls p).filterMap Attempt.written? ∧
      ∀ a : Attempt,
        (a.written? = none ↔ ∃ e, a.run.1 = .error e) ∧
          (∀ file, a.written? = some file → ∃ directive, directiveOf a.request = .ok directive ∧
            file = ⟨Path.join a.directory directive.name, directive.expect⟩ ∧
              a.run.2.generated = a.before.generated ++ [file]) ∧
          (a.written? = none → a.run.2.generated = a.before.generated) ∧
          (a.FailsInText → a.written? = none ∧ a.run.2 = a.before) := by
  refine ⟨serve_accounts setup calls p, fun a => ?_⟩
  refine and_assoc.mp (and_assoc.mp ⟨?_, fun htext => ?_⟩)
  · rcases a.run_cases with ⟨hnone, -, ⟨e, he⟩, hadds⟩ |
      ⟨directive, _, hparse, hsome, -, hok, hadds⟩
    · refine ⟨⟨iff_of_true hnone ⟨e, he⟩, fun file hfile => ?_⟩, fun _ => ?_⟩
      · cases hnone.symm.trans hfile
      · exact hadds.generated.trans (List.append_nil _)
    · refine ⟨⟨iff_of_false ?_ ?_, ?_⟩, ?_⟩
      · intro hnone
        cases hnone.symm.trans hsome
      · rintro ⟨e, he⟩
        cases he.symm.trans hok
      · intro file hfile
        cases hsome.symm.trans hfile
        exact ⟨directive, hparse, rfl, hadds.generated⟩
      · intro hnone
        cases hnone.symm.trans hsome
  · obtain ⟨hnone, e, hrun⟩ := a.run_of_failsInText htext
    rw [hrun]
    exact ⟨hnone, rfl⟩

/-- The macro of the second directive is not defined, and the third is not reached. -/
def brokenText : Text :=
  "@def $m($x)\n$x\n@def_\n@dir a\n@file x.c $m(1) @ok 0 @ok_ @file_\n" ++
    "@file y.c $n(2) @file_\n@file z.c $m(3) @file_\n@dir_\n"

def soundText : Text := "@dir b\n@file z.c $m(3) @file_\n@dir_\n"

def twoTexts : List SessionCall := [.process (.text brokenText), .take, .process (.text soundText)]

def nothingYet : Progress where
  files := ⟨[], []⟩

def undefinedMacro : Attempt where
  directory := "out/a"
  request := ⟨"file", "y.c $n(2)", [], 6⟩
  before := nothingYet

theorem failing_directives_are_not_recorded :
    (serve { outputRoot := "out" } twoTexts nothingYet).1 = [[⟨"out/a/x.c", some 0⟩]] ∧
      (attempts { outputRoot := "out" } twoTexts nothingYet).filterMap Attempt.written? =
        [⟨"out/a/x.c", some 0⟩, ⟨"out/b/z.c", none⟩] ∧
      undefinedMacro.FailsInText ∧ undefinedMacro.run.2 = nothingYet := by
  obtain ⟨hrecord, hattempts⟩ :=
    record_is_the_written_files { outputRoot := "out" } twoTexts nothingYet
  have hserved : (serve { outputRoot := "out" } twoTexts nothingYet).map id Progress.generated =
      ([[⟨"out/a/x.c", some 0⟩]], [⟨"out/b/z.c", none⟩]) := by
    simp only [twoTexts, serve, Request.process, processText]
    delta handleText handleItem handleSection generateDirectory
    simp only [fillDirectory_eq]
    cbv
  have htaken : (serve { outputRoot := "out" } twoTexts nothingYet).1 =
      [[⟨"out/a/x.c", some 0⟩]] := congrArg Prod.fst hserved
  have hheld : (serve { outputRoot := "out" } twoTexts nothingYet).2.generated =
      [⟨"out/b/z.c", none⟩] := congrArg Prod.snd hserved
  have hfails : undefinedMacro.FailsInText := by
    refine .inr ⟨⟨"y.c", ⟨"$n", ["2"]⟩, none⟩, .undefinedMacro "$n", ?_, ?_⟩
    · cbv
    · cbv
  refine ⟨htaken, ?_, hfails, ((hattempts undefinedMacro).2.2.2 hfails).2⟩
  rw [htaken, hheld] at hrecord
  exact hrecord.symm

end SessionCall

end TemplateSuite
