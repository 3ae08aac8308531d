import TemplateSuite.Proofs.FileSystem.Change
import TemplateSuite.Proofs.Generation.Contract

namespace TemplateSuite

open FileSystem

theorem OutputDirectory.nameCount_pos {root directory : Text} (h : OutputDirectory root directory) :
    0 < Path.nameCount directory := by
  have hchild : ∀ {parent : Text} {s : Section},
      Processing.childDirectory parent s = .ok directory → 0 < Path.nameCount directory := by
    intro parent s hchild
    simp only [Processing.childDirectory] at hchild
    split at hchild
    · cases hchild
    · split at hchild
      · cases hchild
      · rename_i hrelative
        cases hchild
        obtain ⟨hpart, hnames⟩ := Path.of_checkRelative hrelative
        rw [Path.nameCount_join hpart]
        omega
  cases h with
  | top htop => exact hchild htop
  | nested _ hnested => exact hchild hnested

theorem AskedFor.one_lt_nameCount {root : Text} {file : GeneratedFile} (h : AskedFor root file) :
    1 < Path.nameCount file.path := by
  obtain ⟨hdirectory, hdirective⟩ := h
  obtain ⟨hpart, hnames⟩ := Path.of_checkRelative (Processing.checkRelative_of_directiveOf hdirective)
  have hbase := hdirectory.nameCount_pos
  rw [Path.nameCount_join hpart]
  omega

namespace Event

/-- The file that was written. -/
def file? : Event → Option GeneratedFile
  | generated file _ => some file
  | _ => none

/-- The file that was written, with its text. -/
def write? : Event → Option (GeneratedFile × Text)
  | generated file content => some (file, content)
  | _ => none

/-- The event does not change the file system. That a file is about to be written is such an event,
that it was written is none. -/
def isQuiet : Event → Bool
  | changing .writeFile _ => true
  | changing .. => false
  | generated .. => false
  | _ => true

/-- The file system after the event. -/
def apply (fs : FileSystem) : Event → FileSystem
  | changing .removeDirectory path => (Change.removeTree path fs).2
  | changing .removeFile path => (Change.removeFile path fs).2
  | changing .createDirectory path => (Change.makeDirectories path fs).2
  | generated file content => (Change.writeFile file.path content fs).2
  | _ => fs

/-- The location that the event takes away with everything below it. -/
def removed? (fs : FileSystem) : Event → Option Location
  | changing .removeDirectory path => (fs.status false path).toOption.map Prod.fst
  | changing .removeFile path => (fs.status false path).toOption.map Prod.fst
  | _ => none

/-- The text of the file at a location after the event, where it was the given one before. -/
def textAt (place : Location) (fs : FileSystem) (text : Text) : Event → Text
  | generated file content => if fs.destination file.path = some place then content else text
  | _ => text

/-- What the event tells was done with success; a file that was written is one that a `file` section
asks for. -/
inductive Succeeds (root : Text) (fs : FileSystem) : Event → Prop
  | quiet {event : Event} : event.isQuiet → Succeeds root fs event
  | removeDirectory {path : Text} {fs' : FileSystem} :
      Change.removeTree path fs = (.ok (), fs') →
        Succeeds root fs (changing .removeDirectory path)
  | removeFile {path : Text} {fs' : FileSystem} :
      Change.removeFile path fs = (.ok (), fs') → Succeeds root fs (changing .removeFile path)
  | createDirectory {path : Text} {fs' : FileSystem} :
      Change.makeDirectories path fs = (.ok (), fs') →
        Succeeds root fs (changing .createDirectory path)
  | writeFile {file : GeneratedFile} {content : Text} {fs' : FileSystem} :
      AskedFor root file → Change.writeFile file.path content fs = (.ok (), fs') →
        Succeeds root fs (generated file content)

variable {root text : Text} {fs : FileSystem} {place : Location} {event : Event}

theorem apply_of_isQuiet (h : event.isQuiet) (fs : FileSystem) : event.apply fs = fs := by
  cases event with
  | changing operation path => cases operation <;> first | rfl | cases h
  | generated file content => cases h
  | _ => rfl

theorem textAt_of_file?_eq_none (h : event.file? = none) : event.textAt place fs text = text := by
  cases event with
  | generated file content => cases h
  | _ => rfl

theorem textAt_eq_or_write? (event : Event) (place : Location) (fs : FileSystem) (text : Text) :
    event.textAt place fs text = text ∨
      ∃ file, event.write? = some (file, event.textAt place fs text) := by
  cases event with
  | generated file content =>
      rw [textAt]
      split
      · exact .inr ⟨file, rfl⟩
      · exact .inl rfl
  | _ => exact .inl rfl

theorem file?_of_isQuiet (h : event.isQuiet) : event.file? = none := by
  cases event with
  | generated file content => cases h
  | _ => rfl

theorem write?_of_isRemark (h : event.isRemark) : event.write? = none := by
  cases event with
  | generated file content => cases h
  | _ => rfl

theorem isQuiet_of_isRemark (h : event.isRemark) : event.isQuiet := by
  cases event with
  | changing operation path => cases h
  | generated file content => cases h
  | _ => rfl

theorem Succeeds.exists_writes {file : GeneratedFile} {content : Text}
    (h : (generated file content).Succeeds root fs) :
    ∃ place, Change.Writes file.path content place fs ((generated file content).apply fs) := by
  cases h with
  | quiet hquiet => cases hquiet
  | writeFile hasked hrun =>
      obtain ⟨place, hwrites⟩ := Change.exists_writes hrun hasked.one_lt_nameCount
      rw [apply, hrun]
      exact ⟨place, hwrites⟩

/-- What one event can do. -/
theorem Succeeds.effect (h : event.Succeeds root fs) :
    (event.file? = none ∧ fs.Extends (event.apply fs)) ∨
      (event.file? = none ∧ ∃ place, event.removed? fs = some place ∧
        Change.Removes place fs (event.apply fs)) ∨
      ∃ file content place, event = .generated file content ∧
        Change.Writes file.path content place fs (event.apply fs) := by
  cases h with
  | quiet hquiet =>
      rw [apply_of_isQuiet hquiet]
      exact .inl ⟨file?_of_isQuiet hquiet, .refl fs⟩
  | createDirectory hrun => exact .inl ⟨rfl, (Change.makes_makeDirectories _ fs).kept⟩
  | removeDirectory hrun =>
      obtain ⟨place, entry, hstatus, hremoves⟩ := (Change.removal_removeTree hrun).of_ok
      refine .inr (.inl ⟨rfl, place, ?_, ?_⟩)
      · rw [removed?, hstatus]
        rfl
      · rw [apply, hrun]
        exact hremoves
  | removeFile hrun =>
      obtain ⟨place, entry, hstatus, hremoves⟩ := (Change.removal_removeFile hrun).of_ok
      refine .inr (.inl ⟨rfl, place, ?_, ?_⟩)
      · rw [removed?, hstatus]
        rfl
      · rw [apply, hrun]
        exact hremoves
  | writeFile hasked hrun =>
      obtain ⟨place, hwrites⟩ := exists_writes (.writeFile hasked hrun)
      exact .inr (.inr ⟨_, _, place, rfl, hwrites⟩)

theorem Succeeds.workingDirectory (h : event.Succeeds root fs) :
    (event.apply fs).workingDirectory = fs.workingDirectory := by
  rcases h.effect with ⟨-, hextends⟩ | ⟨-, place, -, hremoves⟩ | ⟨file, content, place, -, hwrites⟩
  · exact hextends.workingDirectory
  · exact hremoves.workingDirectory
  · exact hwrites.workingDirectory

/-- A file that the event does not take away stays, and has the text that the event wrote to it, if
any. -/
theorem Succeeds.hasText (h : event.Succeeds root fs) (htext : fs.HasText place text)
    (hspared : ∀ removed ∈ event.removed? fs, ¬ removed <+: place) :
    (event.apply fs).HasText place (event.textAt place fs text) := by
  obtain ⟨executable, hentry⟩ := htext
  rcases h.effect with ⟨hfile, hextends⟩ | ⟨hfile, removed, hremoved, hremoves⟩ |
    ⟨file, content, written, rfl, hwrites⟩
  · rw [textAt_of_file?_eq_none hfile]
    exact ⟨executable, hextends.entries hentry⟩
  · rw [textAt_of_file?_eq_none hfile]
    exact ⟨executable, (hremoves.kept (hspared removed hremoved)).trans hentry⟩
  · rw [textAt, hwrites.destination]
    by_cases hplace : written = place
    · subst hplace
      rw [if_pos rfl]
      exact hwrites.hasText
    · rw [if_neg (by simpa using hplace)]
      exact ⟨executable, hwrites.kept (Ne.symm hplace) hentry⟩

end Event

/-- The events happen one after the other and lead from one file system to another. -/
inductive History (root : Text) : FileSystem → List Event → FileSystem → Prop
  | nil {fs : FileSystem} : History root fs [] fs
  | cons {fs fs' : FileSystem} {event : Event} {rest : List Event} :
      event.Succeeds root fs → History root (event.apply fs) rest fs' →
        History root fs (event :: rest) fs'

/-- The file system after the events. -/
def replay (fs : FileSystem) (events : List Event) : FileSystem :=
  events.foldl Event.apply fs

/-- No event takes the location away. -/
def Spares (place : Location) : FileSystem → List Event → Prop
  | _, [] => True
  | fs, event :: rest =>
    (∀ removed ∈ event.removed? fs, ¬ removed <+: place) ∧ Spares place (event.apply fs) rest

/-- The text of the file at a location after the events: what was written to it last, or else the
given text. -/
def lastText (place : Location) : FileSystem → Text → List Event → Text
  | _, text, [] => text
  | fs, text, event :: rest =>
    lastText place (event.apply fs) (event.textAt place fs text) rest

/-- The files that were written, in the order of writing. -/
def filesOf (events : List Event) : List GeneratedFile :=
  events.filterMap Event.file?

/-- The files that were written, each with its text, in the order of writing. -/
def writesOf (events : List Event) : List (GeneratedFile × Text) :=
  events.filterMap Event.write?

theorem filesOf_append (front back : List Event) :
    filesOf (front ++ back) = filesOf front ++ filesOf back :=
  List.filterMap_append

theorem filesOf_singleton (event : Event) : filesOf [event] = event.file?.toList := by
  rw [filesOf, List.filterMap_cons]
  cases event.file? <;> rfl

theorem writesOf_cons (event : Event) (rest : List Event) :
    writesOf (event :: rest) = event.write?.toList ++ writesOf rest := by
  rw [writesOf, List.filterMap_cons, writesOf]
  cases event.write? <;> rfl

theorem writesOf_generated (file : GeneratedFile) (content : Text) (rest : List Event) :
    writesOf (.generated file content :: rest) = (file, content) :: writesOf rest := rfl

theorem writesOf_singleton (event : Event) : writesOf [event] = event.write?.toList :=
  (writesOf_cons event []).trans (List.append_nil _)

theorem writesOf_append (front back : List Event) :
    writesOf (front ++ back) = writesOf front ++ writesOf back :=
  List.filterMap_append

theorem lastText_eq_or_mem_writesOf (place : Location) (fs : FileSystem) (text : Text)
    (events : List Event) : lastText place fs text events = text ∨
      ∃ file, (file, lastText place fs text events) ∈ writesOf events := by
  induction events generalizing fs text with
  | nil => exact .inl rfl
  | cons event rest ih =>
      rw [lastText, writesOf_cons]
      rcases ih (event.apply fs) (event.textAt place fs text) with hkept | ⟨file, hmem⟩
      · rw [hkept]
        rcases event.textAt_eq_or_write? place fs text with hsame | ⟨file, hwrite⟩
        · exact .inl hsame
        · refine .inr ⟨file, List.mem_append_left _ ?_⟩
          rw [hwrite]
          exact List.mem_singleton_self _
      · exact .inr ⟨file, List.mem_append_right _ hmem⟩

namespace History

variable {root text : Text} {fs fs' fs'' : FileSystem} {place : Location} {front back : List Event}

theorem single {event : Event} (h : event.Succeeds root fs) :
    History root fs [event] (event.apply fs) :=
  .cons h .nil

theorem quiet {event : Event} (h : event.isQuiet) : History root fs [event] fs := by
  have hsingle : History root fs [event] (event.apply fs) := .single (.quiet h)
  rwa [Event.apply_of_isQuiet h] at hsingle

theorem append (hfront : History root fs front fs') (hback : History root fs' back fs'') :
    History root fs (front ++ back) fs'' := by
  induction hfront with
  | nil => exact hback
  | cons hevent _ ih => exact .cons hevent (ih hback)

theorem of_append (h : History root fs (front ++ back) fs'') :
    ∃ fs', History root fs front fs' ∧ History root fs' back fs'' := by
  induction front generalizing fs with
  | nil => exact ⟨fs, .nil, h⟩
  | cons event rest ih =>
      cases h with
      | cons hevent hrest =>
          obtain ⟨fs', hmiddle, hback⟩ := ih hrest
          exact ⟨fs', .cons hevent hmiddle, hback⟩

theorem replay_eq (h : History root fs front fs') : replay fs front = fs' := by
  induction h with
  | nil => rfl
  | cons _ _ ih => exact ih

theorem workingDirectory (h : History root fs front fs') :
    fs'.workingDirectory = fs.workingDirectory := by
  induction h with
  | nil => rfl
  | cons hevent _ ih => exact ih.trans hevent.workingDirectory

theorem hasText (h : History root fs front fs') (htext : fs.HasText place text)
    (hspared : Spares place fs front) : fs'.HasText place (lastText place fs text front) := by
  induction h generalizing text with
  | nil => exact htext
  | cons hevent _ ih => exact ih (hevent.hasText htext hspared.1) hspared.2

end History

end TemplateSuite
