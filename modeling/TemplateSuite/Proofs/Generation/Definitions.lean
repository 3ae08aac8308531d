import TemplateSuite.Proofs.Generation.Following
import TemplateSuite.Proofs.Generation.IncludeChain
import TemplateSuite.Proofs.Macro.Predefined

namespace TemplateSuite

open StateAction Processing

/-- The macros defined from a given progress on, in order. -/
abbrev Ledger := Progress → List Macro

namespace Ledger

section Templates

variable (setup : Setup) (enter : Text → Processing Unit) (inside : Text → Ledger)

def ofSection (s : Section) : Ledger := fun p =>
  match setup.table.get? s.tag with
  | some .definition =>
    match Definition.ofSection s with
    | .ok m => [m]
    | .error _ => []
  | some .inclusion =>
    if includeTarget s = [] then []
    else
      match resolveInclude setup p.opened p.files (includeTarget s) with
      | .ok path => inside path (p.including s path)
      | .error _ => []
  | _ => []

def ofItem : Item → Ledger
  | .text .. => fun _ => []
  | .block s => ofSection setup inside s

/-- The elements have their turn one after the other, until one of them fails. -/
def ofItems : List Item → Ledger
  | [], _ => []
  | item :: rest, p =>
    ofItem setup inside item p ++
      match handleItem setup enter item p with
      | (.ok _, q) => ofItems rest q
      | (.error _, _) => []

def ofText (text : Text) : Ledger := fun p =>
  match checkNesting text, scan text 1 with
  | .ok _, .ok items => ofItems setup enter inside items p
  | _, _ => []

def ofTemplate (path : Text) : Ledger := fun p =>
  match p.files.canonicalPath path with
  | .error _ => []
  | .ok file =>
    if p.opened.contains file then []
    else
      match p.files.readText file with
      | .error _ => []
      | .ok text => ofText setup enter inside text (p.entering file)

end Templates

def ofFileWithin (setup : Setup) : (room : Nat) → Text → Ledger
  | 0, _ => fun _ => []
  | room + 1, path => ofTemplate setup (processFileWithin setup room) (ofFileWithin setup room) path

def ofFile (setup : Setup) (path : Text) : Ledger :=
  ofFileWithin setup openLimit path

end Ledger

/-- The macros that are defined while a template is processed. -/
def Request.definitions (setup : Setup) : Request → Ledger
  | .file path => Ledger.ofFile setup path
  | .text content => Ledger.ofText setup (processFile setup) (Ledger.ofFile setup) content

/-- From the given progress the action leads to the environment with these macros defined in order,
and all of them can be made. -/
structure Books (x : Processing Unit) (p : Progress) (defined : List Macro) : Prop where
  macros : (x p).2.macros = p.macros.extend defined
  isMade : ∀ m ∈ defined, m.IsMade

/-- The environment stays as it is. -/
def macrosKept : Contract where
  done p q := q.macros = p.macros
  stopped p q := q.macros = p.macros
  refl _ := rfl
  trans h h' := h'.trans h
  stopped_refl _ := rfl
  stopped_after h h' := h'.trans h

namespace macrosKept

theorem holds_change {α : Type} (operation : FileOperation) (path : Text) (action : Change α) :
    macrosKept.Holds (change operation path action) :=
  Contract.holds_change (fun _ _ _ _ => rfl) fun _ _ _ _ => rfl

theorem fills (setup : Setup) : macrosKept.Fills setup where
  remark _ _ _ := rfl
  clear _ _ := Contract.holds_clearPath fun _ _ => holds_change _ _ _
  makeDirectories _ _ := holds_change _ _ _
  store _ _ _ := by
    refine Contract.holds_bind (holds_change _ _ _) fun _ => Contract.holds_bind ?_ fun _ => ?_
    · exact fun p => Contract.holdsAt_of_eq_ok rfl rfl
    · exact fun p => Contract.holdsAt_of_eq_ok rfl rfl

theorem macros_eq {x : Processing Unit} (h : macrosKept.Holds x) (p : Progress) :
    (x p).2.macros = p.macros :=
  (h p).done_or_stopped.elim id id

end macrosKept

theorem Definition.isMade_of_ofSection {s : Section} {m : Macro} (h : ofSection s = .ok m) :
    m.IsMade := by
  unfold ofSection at h
  dsimp only at h
  split at h
  · cases h
  · rename_i name list _
    cases hmake : Macro.make name (stripComments s.body) ((list.map parameters).getD []) with
    | error fault =>
        rw [hmake] at h
        cases h
    | ok found =>
        rw [hmake] at h
        cases h
        exact Macro.isMade_of_make hmake

namespace Books

variable {setup : Setup} {enter : Text → Processing Unit} {inside : Text → Ledger} {p q : Progress}
  {defined : List Macro}

theorem of_macrosKept {x : Processing Unit} (h : macrosKept.Holds x) (p : Progress) :
    Books x p [] where
  macros := macrosKept.macros_eq h p
  isMade := nofun

theorem of_throw (e : TemplateError) (p : Progress) : Books (throw e) p [] :=
  of_macrosKept (Contract.holds_throw e) p

theorem bind_of_ok {α : Type} {x : Processing α} {f : α → Processing Unit} {a : α}
    (hrun : x p = (.ok a, q)) (hkept : q.macros = p.macros) (h : Books (f a) q defined) :
    Books (x >>= f) p defined where
  macros := by rw [StateAction.bind_of_ok hrun, h.macros, hkept]
  isMade := h.isMade

theorem bind_of_error {α : Type} {x : Processing α} {f : α → Processing Unit} {e : TemplateError}
    (hrun : x p = (.error e, p)) : Books (x >>= f) p [] where
  macros := by
    rw [StateAction.bind_of_error hrun]
    rfl
  isMade := nofun

theorem get_bind {f : Progress → Processing Unit} (h : Books (f p) p defined) :
    Books (get >>= f) p defined :=
  bind_of_ok (a := p) rfl rfl h

theorem note_bind {event : Event} {f : Unit → Processing Unit}
    (h : Books (f ()) { p with events := p.events ++ [event] } defined) :
    Books (note event >>= f) p defined :=
  bind_of_ok (a := ()) rfl rfl h

theorem defineMacro (s : Section) (p : Progress) :
    Books (defineMacro s) p
      (match Definition.ofSection s with
      | .ok m => [m]
      | .error _ => []) := by
  cases hdefinition : Definition.ofSection s with
  | error fault =>
      rw [Processing.defineMacro, hdefinition]
      exact of_throw _ p
  | ok m =>
      obtain ⟨events, -, hdefine⟩ := defineMacro_of_ok hdefinition p
      constructor
      · rw [hdefine p rfl]
        rfl
      · intro other hmem
        rw [List.mem_singleton.mp hmem]
        exact Definition.isMade_of_ofSection hdefinition

theorem includeTemplate (h : ∀ path q, Books (enter path) q (inside path q)) (s : Section)
    (p : Progress) :
    Books (includeTemplate setup enter s) p
      (if includeTarget s = [] then []
      else
        match resolveInclude setup p.opened p.files (includeTarget s) with
        | .ok path => inside path { p with events := p.events ++ [.including path s.line] }
        | .error _ => []) := by
  rw [includeTemplate_eq]
  split
  · exact of_throw _ p
  · apply get_bind
    cases resolveInclude setup p.opened p.files (includeTarget s) with
    | error e => exact of_throw _ p
    | ok path =>
        rw [ofExcept_ok_bind]
        exact note_bind (h path _)

theorem handleSection (h : ∀ path q, Books (enter path) q (inside path q)) (s : Section)
    (p : Progress) : Books (handleSection setup enter s) p (Ledger.ofSection setup inside s p) := by
  unfold Processing.handleSection Ledger.ofSection
  cases setup.table.get? s.tag with
  | none => exact of_macrosKept (Contract.holds_note fun _ => rfl) p
  | some handler =>
      refine note_bind ?_
      cases handler with
      | definition => exact defineMacro s _
      | directory => exact of_macrosKept ((macrosKept.fills setup).generateDirectory s) _
      | inclusion => exact includeTemplate h s _
      | comment => exact of_macrosKept (Contract.holds_pure ()) _

theorem handleItem (h : ∀ path q, Books (enter path) q (inside path q)) (item : Item)
    (p : Progress) : Books (handleItem setup enter item) p (Ledger.ofItem setup inside item p) := by
  cases item with
  | text line content => exact of_macrosKept (Contract.holds_pure ()) p
  | block s => exact handleSection h s p

theorem forM_handleItem (h : ∀ path q, Books (enter path) q (inside path q)) (items : List Item)
    (p : Progress) :
    Books (items.forM (Processing.handleItem setup enter)) p
      (Ledger.ofItems setup enter inside items p) := by
  induction items generalizing p with
  | nil => exact of_macrosKept (Contract.holds_pure ()) p
  | cons item rest ih =>
      have hfirst : Books (Processing.handleItem setup enter item) p _ := handleItem h item p
      rw [forM_cons, Ledger.ofItems]
      rcases hrun : Processing.handleItem setup enter item p with ⟨e | ⟨⟩, q⟩
      · rw [List.append_nil]
        refine ⟨?_, hfirst.isMade⟩
        rw [StateAction.bind_of_error hrun, ← hfirst.macros, hrun]
      · have hrest := ih q
        refine ⟨?_, fun m hm => ?_⟩
        · have hq : q.macros = p.macros.extend (Ledger.ofItem setup inside item p) := by
            rw [← hfirst.macros, hrun]
          rw [StateAction.bind_of_ok hrun, hrest.macros, hq, Environment.extend_append]
        · exact (List.mem_append.mp hm).elim (hfirst.isMade m) (hrest.isMade m)

theorem handleText (h : ∀ path q, Books (enter path) q (inside path q)) (text : Text)
    (p : Progress) :
    Books (handleText setup enter text) p (Ledger.ofText setup enter inside text p) := by
  rw [Processing.handleText, Ledger.ofText]
  cases checkNesting text with
  | error e => exact of_throw _ p
  | ok _ =>
      rw [ofExcept_ok_bind]
      cases scan text 1 with
      | error e => exact of_throw _ p
      | ok items =>
          rw [ofExcept_ok_bind]
          exact forM_handleItem h items p

theorem openTemplate (h : ∀ path q, Books (enter path) q (inside path q)) (path : Text)
    (p : Progress) :
    Books (openTemplate setup enter path) p (Ledger.ofTemplate setup enter inside path p) := by
  rw [openTemplate_eq, Ledger.ofTemplate]
  cases hfile : p.files.canonicalPath path with
  | error e => exact bind_of_error (observe_of_error hfile _ _)
  | ok file =>
      apply bind_of_ok (observe_of_ok hfile _ _) rfl
      apply get_bind
      simp only [List.contains_iff_mem]
      split
      · exact of_throw _ p
      · cases htext : p.files.readText file with
        | error e => exact bind_of_error (observe_of_error htext _ _)
        | ok text =>
            apply bind_of_ok (observe_of_ok htext _ _) rfl
            have hinner : Books (Processing.handleText setup enter text) (p.entering file) _ :=
              handleText h text (p.entering file)
            exact ⟨hinner.macros, hinner.isMade⟩

theorem processFileWithin (room : Nat) (path : Text) (p : Progress) :
    Books (processFileWithin setup room path) p (Ledger.ofFileWithin setup room path p) := by
  induction room generalizing path p with
  | zero => exact of_throw _ p
  | succ room ih => exact openTemplate ih path p

theorem process (setup : Setup) (request : Request) (p : Progress) :
    Books (request.process setup) p (request.definitions setup p) := by
  have hfile : ∀ path q, Books (processFile setup path) q (Ledger.ofFile setup path q) := by
    intro path q
    rw [processFile_eq_within, Ledger.ofFile]
    exact processFileWithin openLimit path q
  cases request with
  | file path => exact hfile path p
  | text content =>
      rw [Request.process, Request.definitions, processText]
      exact handleText hfile content p

end Books

/-- One thing that is done with an environment. A template is processed from a progress that is given
apart from the environment. -/
inductive Use where
  | define (m : Macro)
  | extend (macros : List Macro)
  | process (setup : Setup) (request : Request) (context : Progress)

namespace Use

def apply : Use → Environment → Environment
  | define m, env => env.define m
  | extend macros, env => env.extend macros
  | process setup request context, env =>
    (request.process setup { context with macros := env }).2.macros

/-- The macros whose definition is completed, in order, whether the use succeeds or fails. -/
def completed : Use → Environment → List Macro
  | define m, _ => [m]
  | extend macros, _ => macros
  | process setup request context, env => request.definitions setup { context with macros := env }

/-- The macros that are not made in a template. -/
def given : Use → List Macro
  | define m => [m]
  | extend macros => macros
  | process .. => []

def applyAll (uses : List Use) (env : Environment) : Environment :=
  uses.foldl (fun env use => use.apply env) env

def completedByAll : List Use → Environment → List Macro
  | [], _ => []
  | use :: rest, env => use.completed env ++ completedByAll rest (use.apply env)

variable {uses : List Use} {use : Use} {env start : Environment}

theorem apply_eq_extend (use : Use) (env : Environment) :
    use.apply env = env.extend (use.completed env) := by
  cases use with
  | define m => rfl
  | extend macros => rfl
  | process setup request context => exact (Books.process setup request _).macros

theorem isMade_of_completed (hgiven : ∀ m ∈ use.given, m.IsMade) :
    ∀ m ∈ use.completed env, m.IsMade := by
  cases use with
  | define m => exact hgiven
  | extend macros => exact hgiven
  | process setup request context => exact (Books.process setup request _).isMade

theorem applyAll_eq_extend (uses : List Use) (env : Environment) :
    applyAll uses env = env.extend (completedByAll uses env) := by
  induction uses generalizing env with
  | nil => rfl
  | cons use rest ih =>
      rw [completedByAll, Environment.extend_append, ← apply_eq_extend]
      exact ih (use.apply env)

theorem isMade_of_completedByAll (hgiven : ∀ use ∈ uses, ∀ m ∈ use.given, m.IsMade) :
    ∀ m ∈ completedByAll uses env, m.IsMade := by
  induction uses generalizing env with
  | nil => nofun
  | cons use rest ih =>
      obtain ⟨hfirst, hrest⟩ := List.forall_mem_cons.mp hgiven
      intro m hm
      rcases List.mem_append.mp hm with hmem | hmem
      · exact isMade_of_completed hfirst m hmem
      · exact ih hrest m hmem

/-- Whatever is done with an environment, its macros stand in the order of their names, each under a
proper name and with proper parameters, and each is found in every way its name can be written. A name
never loses its macro, and has the one of its last completed definition, also where what contained
that definition failed later. -/
theorem last_completed_definition_counts
    (hstart : start = .empty ∨ ∃ config : Config, config.predefinedMacros = .ok start)
    (hgiven : ∀ use ∈ uses, ∀ m ∈ use.given, m.IsMade) :
    (∀ m ∈ (applyAll uses start).macros,
        IsMacroName m.name ∧ ∀ param ∈ m.params, IsMacroName param) ∧
      (applyAll uses start).macros.Pairwise (fun earlier later => earlier.name < later.name) ∧
      (∀ name m, (applyAll uses start).find? name = some m → m.name = name) ∧
      (∀ m ∈ (applyAll uses start).macros,
        (applyAll uses start).get? m.name = some m ∧
          (applyAll uses start).get? m.name.tail = some m ∧
            Call.parse? m.name = some ⟨m.name, []⟩) ∧
      (∀ before after, uses = before ++ after → ∀ name,
        ((applyAll before start).find? name).isSome →
          ((applyAll uses start).find? name).isSome) ∧
      ∀ name, (applyAll uses start).find? name =
        (Environment.lastOf? (completedByAll uses start) name).or (start.find? name) := by
  have hsound : (applyAll uses start).IsSound := by
    rw [applyAll_eq_extend]
    refine Environment.IsSound.extend ?_ (isMade_of_completedByAll hgiven)
    rcases hstart with rfl | ⟨config, hconfig⟩
    · exact Environment.isSound_empty
    · exact Config.isSound_of_predefinedMacros hconfig
  refine ⟨fun m hm => Macro.isMade_iff.mp (hsound.isMade m hm), hsound.isOrdered,
    fun name m => Environment.name_of_find?, fun m hm => ?_, ?_, fun name => ?_⟩
  · obtain ⟨hfull, htail⟩ := hsound.get?_of_mem hm
    exact ⟨hfull, htail, (Macro.isMade_iff.mp (hsound.isMade m hm)).1.parse?⟩
  · rintro before after rfl name hbefore
    have hafter : applyAll (before ++ after) start = applyAll after (applyAll before start) :=
      List.foldl_append
    rw [hafter, applyAll_eq_extend]
    exact Environment.isSome_find?_extend hbefore _
  · rw [applyAll_eq_extend, Environment.find?_extend]

/-- A definition, and then a section that is none. -/
def brokenText : Text := "@def a($x)\n2\n@def_\n@def 0 0\n@def_\n@def b\n@def_\n"

/-- A macro is defined, and again in a text that fails. -/
def usesThatFail : List Use :=
  [.define ⟨"$a", "1", []⟩,
    .process { outputRoot := "out" } (.text brokenText) { files := ⟨[], []⟩ }]

theorem definition_in_failing_text_is_kept :
    (∀ use ∈ usesThatFail, ∀ m ∈ use.given, m.IsMade) ∧
      ((Request.text brokenText).process { outputRoot := "out" }
        { files := ⟨[], []⟩, macros := ⟨[⟨"$a", "1", []⟩]⟩ }).1.isOk = false ∧
      (applyAll usesThatFail .empty).find? "$a" = some ⟨"$a", "2", ["$x"]⟩ ∧
      (applyAll usesThatFail .empty).find? "$b" = none := by
  have hgiven : ∀ use ∈ usesThatFail, ∀ m ∈ use.given, m.IsMade := by
    intro use huse m hm
    simp only [usesThatFail, List.mem_cons, List.not_mem_nil, or_false] at huse
    rcases huse with rfl | rfl
    · rw [List.mem_singleton.mp hm]
      exact ⟨"a", [], rfl⟩
    · cases hm
  have hcompleted : completedByAll usesThatFail .empty =
      [⟨"$a", "1", []⟩, ⟨"$a", "2", ["$x"]⟩] := by
    delta usesThatFail brokenText completedByAll completed Request.definitions Ledger.ofText
    cbv
  obtain ⟨-, -, -, -, -, hfound⟩ := last_completed_definition_counts (.inl rfl) hgiven
  refine ⟨hgiven, ?_, ?_, ?_⟩
  · delta Request.process processText handleText handleItem handleSection defineMacro
    cbv
  · rw [hfound, hcompleted]
    rfl
  · rw [hfound, hcompleted]
    rfl

end Use

end TemplateSuite
