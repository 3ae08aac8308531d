import Mathlib
import TemplateSuite.Proofs.Generation.History
import TemplateSuite.Proofs.Generation.IncludeChain
import TemplateSuite.Proofs.Path.Below

namespace TemplateSuite

open TemplateSuite.Path StateAction Processing

variable {root directory content path : Text} {file : GeneratedFile} {s : Section}

theorem Processing.exists_join_of_childDirectory {parent : Text}
    (h : childDirectory parent s = .ok directory) :
    ∃ part, checkRelative part = .ok () ∧ directory = join parent part := by
  simp only [childDirectory] at h
  split at h
  · cases h
  · split at h
    · cases h
    · rename_i hrelative
      cases h
      exact ⟨_, hrelative, rfl⟩

theorem exists_descends_of_childDirectory {parent : Text} {names : List Text}
    (hparent : Descends root parent names) (h : childDirectory parent s = .ok directory) :
    ∃ names, names ≠ [] ∧ Descends root directory names := by
  obtain ⟨part, hpart, rfl⟩ := exists_join_of_childDirectory h
  exact ⟨_, List.append_ne_nil_of_right_ne_nil _ (course_of_checkRelative hpart).2.1,
    hparent.join hpart⟩

theorem OutputDirectory.exists_descends (h : OutputDirectory root directory) :
    ∃ names, names ≠ [] ∧ Descends root directory names := by
  induction h with
  | top htop => exact exists_descends_of_childDirectory (.refl root) htop
  | nested _ hnested ih =>
      obtain ⟨names, -, hdescends⟩ := ih
      exact exists_descends_of_childDirectory hdescends hnested

theorem AskedFor.exists_descends (h : AskedFor root file) :
    ∃ names, names.dropLast ≠ [] ∧ Descends root file.path names := by
  obtain ⟨hdirectory, hdirective⟩ := h
  obtain ⟨names, hnames, hdescends⟩ := hdirectory.exists_descends
  have hpart := checkRelative_of_directiveOf hdirective
  have hcourse := (course_of_checkRelative hpart).2.1
  refine ⟨_, ?_, hdescends.join hpart⟩
  rw [List.dropLast_append_of_ne_nil hcourse]
  exact List.append_ne_nil_of_left_ne_nil hnames _

theorem MadeDirectory.exists_descends (h : MadeDirectory root directory) :
    ∃ names, names ≠ [] ∧ Descends root directory names := by
  cases h with
  | output houtput => exact houtput.exists_descends
  | parent hasked hparent =>
      obtain ⟨names, hnames, hdescends⟩ := hasked.exists_descends
      exact ⟨_, hnames, hdescends.parent (fun hnil => hnames (by rw [hnil]; rfl)) hparent⟩

theorem OutputDirectory.lies_below (h : OutputDirectory root directory) : Below root directory := by
  obtain ⟨names, hnames, hdescends⟩ := h.exists_descends
  exact hdescends.below hnames

theorem AskedFor.lies_below (h : AskedFor root file) : Below root file.path := by
  obtain ⟨names, hnames, hdescends⟩ := h.exists_descends
  exact hdescends.below fun hnil => hnames (by rw [hnil]; rfl)

theorem MadeDirectory.lies_below (h : MadeDirectory root directory) : Below root directory := by
  obtain ⟨names, hnames, hdescends⟩ := h.exists_descends
  exact hdescends.below hnames

namespace Event

/-- The path at which the file system is changed, or was. -/
def path? : Event → Option Text
  | changing _ path => some path
  | generated file _ => some file.path
  | _ => none

end Event

/-- What happened since is told by the events, failures included, and all of it at paths below the
root. -/
structure StaysBelow (root : Text) (before after : Progress) : Prop where
  exists_events : ∃ new, after.events = before.events ++ new ∧
    after.files = replay before.files new ∧ after.generated = before.generated ++ filesOf new ∧
    ∀ event ∈ new, ∀ path ∈ event.path?, Below root path

namespace StaysBelow

variable {p q r : Progress}

theorem refl (root : Text) (p : Progress) : StaysBelow root p p :=
  ⟨[], (List.append_nil _).symm, rfl, (List.append_nil _).symm, fun _ h => nomatch h⟩

theorem trans (hfirst : StaysBelow root p q) (hsecond : StaysBelow root q r) :
    StaysBelow root p r := by
  obtain ⟨front, hfront, hfrontFiles, hfrontRecord, hfrontBelow⟩ := hfirst
  obtain ⟨back, hback, hbackFiles, hbackRecord, hbackBelow⟩ := hsecond
  refine ⟨front ++ back, ?_, ?_, ?_, ?_⟩
  · rw [hback, hfront, List.append_assoc]
  · rw [hbackFiles, hfrontFiles, replay, replay, replay, List.foldl_append]
  · rw [hbackRecord, hfrontRecord, filesOf_append, List.append_assoc]
  · intro event hmem
    rcases List.mem_append.mp hmem with hin | hin
    · exact hfrontBelow event hin
    · exact hbackBelow event hin

theorem of_event (event : Event) (hevents : q.events = p.events ++ [event])
    (hfiles : q.files = event.apply p.files)
    (hrecord : q.generated = p.generated ++ event.file?.toList)
    (hbelow : ∀ path ∈ event.path?, Below root path) : StaysBelow root p q := by
  refine ⟨[event], hevents, hfiles, ?_, ?_⟩
  · rw [hrecord, filesOf_singleton]
  · intro other hmem
    rwa [List.mem_singleton.mp hmem]

theorem of_quiet (event : Event) (hquiet : event.isQuiet)
    (hevents : q.events = p.events ++ [event]) (hfiles : q.files = p.files)
    (hrecord : q.generated = p.generated) (hbelow : ∀ path ∈ event.path?, Below root path) :
    StaysBelow root p q := by
  refine of_event event hevents ?_ ?_ hbelow
  · rw [hfiles, Event.apply_of_isQuiet hquiet]
  · rw [hrecord, Event.file?_of_isQuiet hquiet]
    exact (List.append_nil _).symm

def contract (root : Text) : Contract where
  done := StaysBelow root
  stopped := StaysBelow root
  refl := refl root
  trans := trans
  stopped_refl := refl root
  stopped_after := trans

open Contract

theorem holds_change {operation : FileOperation} {action : Change Unit} (hbelow : Below root path)
    (happly : ∀ fs, (Event.changing operation path).apply fs = (action fs).2) :
    (contract root).Holds (change operation path action) := by
  have hstays : ∀ p result files, action p.files = (result, files) → StaysBelow root p
      { p with files, events := p.events ++ [.changing operation path] } := by
    intro p result files hrun
    refine of_event (.changing operation path) rfl ?_ (List.append_nil _).symm ?_
    · rw [happly, hrun]
    · intro other hother
      rwa [← Option.some.inj hother]
  exact Contract.holds_change (fun a p files => hstays p _ files) (fun e p files => hstays p _ files)

theorem holds_storeFile (h : AskedFor root file) :
    (contract root).Holds (storeFile file content) := by
  have htry : ∀ p : Progress, StaysBelow root p
      { p with events := p.events ++ [.changing .writeFile file.path] } := by
    intro p
    refine of_quiet (.changing .writeFile file.path) rfl rfl rfl rfl ?_
    intro path hpath
    rw [← Option.some.inj hpath]
    exact h.lies_below
  intro p
  rcases hwrite : Change.writeFile file.path content p.files with ⟨e | _, files⟩
  · obtain rfl := Change.eq_of_writeFile_eq_error hwrite
    exact holdsAt_of_eq_error (bind_of_error (change_of_error hwrite _ _) _) (htry p)
  · refine holdsAt_of_eq_ok (storeFile_of_ok hwrite) ((htry p).trans ?_)
    refine of_event (.generated file content) rfl ?_ rfl ?_
    · rw [Event.apply, hwrite]
    · intro path hpath
      rw [← Option.some.inj hpath]
      exact h.lies_below

theorem admits (setup : Setup) : (contract setup.outputRoot).Admits setup where
  remark event p h := by
    refine of_quiet event (Event.isQuiet_of_isRemark h) rfl rfl rfl fun path hpath => ?_
    cases event <;> cases h <;> cases hpath
  define m p := ⟨[], (List.append_nil _).symm, rfl, (List.append_nil _).symm, fun _ h => nomatch h⟩
  clear directory h := by
    refine holds_get_bind fun p => ?_
    split
    · exact holds_change h.lies_below (fun _ => rfl) p
    · exact holds_change h.lies_below (fun _ => rfl) p
    · exact holds_pure () p
  makeDirectories path h := holds_change h.lies_below fun _ => rfl
  store file content h := holds_storeFile h
  visit file p action _ h := by
    have hentering : StaysBelow setup.outputRoot p (p.entering file) :=
      of_quiet (.enteringTemplate file) rfl rfl rfl rfl fun _ hpath => nomatch hpath
    have hleaving : ∀ after, StaysBelow setup.outputRoot (p.entering file) after →
        StaysBelow setup.outputRoot p (after.leaving file) := fun after hafter =>
      (hentering.trans hafter).trans
        (of_quiet (.leavingTemplate file) rfl rfl rfl rfl fun _ hpath => nomatch hpath)
    exact holdsAt_whileOpen (h _) hleaving hleaving

end StaysBelow

namespace Processing

variable {p : Progress}

theorem exists_fault_of_childDirectory (parent : Text) (h : IsUnfit (Text.trim s.argument)) :
    ∃ fault, childDirectory parent s = .error fault := by
  rw [childDirectory]
  by_cases hempty : Text.trim s.argument = []
  · exact ⟨_, if_pos hempty⟩
  · obtain ⟨fault, hfault⟩ := exists_fault_of_isUnfit h
    refine ⟨.unsafePath fault, ?_⟩
    simp only [if_neg hempty, hfault]

theorem name_eq_of_parts? {text : Text} {parts : FileDirective.Parts}
    (h : FileDirective.parts? text = some parts) : parts.name = text.takeWhile (!Text.isBlank ·) := by
  unfold FileDirective.parts? at h
  simp only [Option.bind_eq_bind, Option.bind_eq_some_iff] at h
  obtain ⟨⟨call, after⟩, -, hrest⟩ := h
  dsimp only at hrest
  by_cases hname : text.takeWhile (!Text.isBlank ·) = []
  · rw [if_pos hname] at hrest
    cases hrest
  · rw [if_neg hname] at hrest
    by_cases hafter : after = []
    · rw [if_pos hafter] at hrest
      cases hrest
      rfl
    · rw [if_neg hafter] at hrest
      obtain ⟨digits, -, hparts⟩ := Option.bind_eq_some_iff.mp hrest
      cases hparts
      rfl

/-- The name that a `file` section gives: the directive up to the first white space. -/
def fileName (s : Section) : Text :=
  (Text.trim (directiveText s)).takeWhile (!Text.isBlank ·)

theorem exists_fault_of_directiveOf (h : IsUnfit (fileName s)) :
    ∃ fault, directiveOf s =
      .error (.invalidDirective s.line (Text.trim (directiveText s)) fault) := by
  rw [directiveOf, FileDirective.parse]
  cases hparts : FileDirective.parts? (Text.trim (directiveText s)) with
  | none => exact ⟨.malformed, rfl⟩
  | some parts =>
      have hname : IsUnfit parts.name := by rwa [name_eq_of_parts? hparts]
      obtain ⟨fault, hfault⟩ := exists_fault_of_isUnfit hname
      refine ⟨.unsafePath fault, ?_⟩
      simp only [hfault]
      rfl

theorem generateDirectory_of_isUnfit (h : IsUnfit (Text.trim s.argument)) :
    ∃ fault, generateDirectory root s p = (.error (.invalidSection s.tag s.line fault), p) := by
  obtain ⟨fault, hfault⟩ := exists_fault_of_childDirectory root h
  refine ⟨fault, ?_⟩
  rw [generateDirectory, hfault]
  rfl

theorem fillItem_of_isUnfit {fill : Text → Section → Processing Unit} (htag : s.tag = "dir")
    (h : IsUnfit (Text.trim s.argument)) :
    ∃ fault, fillItem fill directory (.block s) p =
      (.error (.invalidSection s.tag s.line fault), p) := by
  obtain ⟨fault, hfault⟩ := exists_fault_of_childDirectory directory h
  refine ⟨fault, ?_⟩
  rw [fillItem, if_neg (by rw [htag]; decide), if_neg (by rw [htag]; decide), if_pos htag, hfault]
  rfl

theorem generateFile_of_isUnfit (h : IsUnfit (fileName s)) :
    ∃ fault, generateFile directory s p =
      (.error (.invalidDirective s.line (Text.trim (directiveText s)) fault), p) := by
  obtain ⟨fault, hfault⟩ := exists_fault_of_directiveOf h
  refine ⟨fault, ?_⟩
  rw [generateFile, hfault]
  rfl

end Processing

theorem Request.process_staysBelow (setup : Setup) (request : Request) (p : Progress) :
    StaysBelow setup.outputRoot p (request.process setup p).2 := by
  have hholds : (StaysBelow.contract setup.outputRoot).Holds (request.process setup) := by
    cases request with
    | file path => exact (StaysBelow.admits setup).processFile path
    | text content => exact (StaysBelow.admits setup).processText content
  rcases hrun : request.process setup p with ⟨e | _, after⟩
  · exact (hholds p).of_error hrun
  · exact (hholds p).of_ok hrun

/-- Whether a template succeeds or fails, the events tell all that was removed, made and written, and
the files on record, and each path has the components of the output root and then names, at least
one; what is made on the way to a directory has the first components of its path. A section that
gives any other name, or none, fails before anything is done for it. -/
theorem output_paths_lie_below_the_root (setup : Setup) :
    (∀ (request : Request) (p : Progress), ∃ new,
      let after := (request.process setup p).2
      after.events = p.events ++ new ∧ after.files = replay p.files new ∧
        after.generated = p.generated ++ filesOf new ∧
          (∀ event ∈ new, ∀ path ∈ event.path?, Below setup.outputRoot path) ∧
            ∀ file ∈ filesOf new, Below setup.outputRoot file.path) ∧
      (∀ path, ∀ above ∈ ancestors path, properComponents above <+: properComponents path) ∧
      ∀ (s : Section) (p : Progress),
        (IsUnfit (Text.trim s.argument) →
          (∃ fault, generateDirectory setup.outputRoot s p =
            (.error (.invalidSection s.tag s.line fault), p)) ∧
          (s.tag = "dir" → ∀ fill directory, ∃ fault, fillItem fill directory (.block s) p =
            (.error (.invalidSection s.tag s.line fault), p))) ∧
        (IsUnfit (fileName s) → ∀ directory, ∃ fault, generateFile directory s p =
          (.error (.invalidDirective s.line (Text.trim (directiveText s)) fault), p)) := by
  refine ⟨fun request p => ?_, fun path above => properComponents_prefix_of_mem_ancestors,
    fun s p => ⟨fun hunfit => ⟨?_, fun htag fill directory => ?_⟩, fun hunfit directory => ?_⟩⟩
  · obtain ⟨new, hevents, hfiles, hrecord, hbelow⟩ := (request.process_staysBelow setup p).exists_events
    refine ⟨new, hevents, hfiles, hrecord, hbelow, fun file hfile => ?_⟩
    obtain ⟨event, hevent, hwritten⟩ := List.mem_filterMap.mp hfile
    refine hbelow event hevent file.path ?_
    cases event <;> cases hwritten
    rfl
  · exact generateDirectory_of_isUnfit hunfit
  · exact fillItem_of_isUnfit htag hunfit
  · exact generateFile_of_isUnfit hunfit

theorem climbing_and_nameless_names_are_refused :
    let p : Progress := { files := ⟨[], []⟩ }
    (∃ fault, generateDirectory "out" ⟨"dir", "a/../b", [], 3⟩ p =
        (.error (.invalidSection "dir" 3 fault), p)) ∧
      (∃ fault, fillItem fillDirectory "out/a" (.block ⟨"dir", "/b", [], 4⟩) p =
        (.error (.invalidSection "dir" 4 fault), p)) ∧
      ∃ fault, generateFile "out/a" ⟨"file", "./. $m(1)", [], 5⟩ p =
        (.error (.invalidDirective 5 "./. $m(1)" fault), p) := by
  intro p
  have hnames := (output_paths_lie_below_the_root ⟨"out", [], .standard⟩).2.2
  refine ⟨?_, ?_, ?_⟩
  · exact ((hnames ⟨"dir", "a/../b", [], 3⟩ p).1 (.inr (.inr (.inl (by decide))))).1
  · exact ((hnames ⟨"dir", "/b", [], 4⟩ p).1 (.inr (.inl (by decide)))).2 rfl _ _
  · exact (hnames ⟨"file", "./. $m(1)", [], 5⟩ p).2 (.inr (.inr (.inr (by decide)))) _

end TemplateSuite
