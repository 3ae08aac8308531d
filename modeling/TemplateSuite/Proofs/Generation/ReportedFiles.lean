import Mathlib
import TemplateSuite.Proofs.Generation.Attempts
import TemplateSuite.Proofs.Generation.Run

namespace TemplateSuite

open StateAction Processing Contract

/-- What was done in between, and with success, is told by the events since then. -/
structure Recounts (root : Text) (before after : Progress) : Prop where
  exists_history : ∃ new, after.events = before.events ++ new ∧
    History root before.files new after.files ∧ after.generated = before.generated ++ filesOf new

namespace Recounts

variable {root : Text} {p q r : Progress}

theorem refl (root : Text) (p : Progress) : Recounts root p p :=
  ⟨[], (List.append_nil _).symm, .nil, (List.append_nil _).symm⟩

theorem trans (hfirst : Recounts root p q) (hsecond : Recounts root q r) : Recounts root p r := by
  obtain ⟨front, hfront, hfrontHistory, hfrontFiles⟩ := hfirst
  obtain ⟨back, hback, hbackHistory, hbackFiles⟩ := hsecond
  refine ⟨front ++ back, ?_, hfrontHistory.append hbackHistory, ?_⟩
  · rw [hback, hfront, List.append_assoc]
  · rw [hbackFiles, hfrontFiles, List.append_assoc, filesOf_append]

theorem of_event (event : Event) (hsucceeds : event.Succeeds root p.files)
    (hevents : q.events = p.events ++ [event]) (hfiles : q.files = event.apply p.files)
    (hgenerated : q.generated = p.generated ++ event.file?.toList) : Recounts root p q := by
  refine ⟨[event], hevents, ?_, ?_⟩
  · rw [hfiles]
    exact .single hsucceeds
  · rw [hgenerated, filesOf_singleton]

theorem of_quiet (event : Event) (hquiet : event.isQuiet)
    (hevents : q.events = p.events ++ [event]) (hfiles : q.files = p.files)
    (hgenerated : q.generated = p.generated) : Recounts root p q := by
  refine ⟨[event], hevents, hfiles ▸ .quiet hquiet, ?_⟩
  rw [hgenerated, filesOf_singleton, Event.file?_of_isQuiet hquiet]
  exact (List.append_nil _).symm

def contract (root : Text) : Contract where
  done := Recounts root
  stopped _ _ := True
  refl := refl root
  trans := trans
  stopped_refl _ := trivial
  stopped_after _ _ := trivial

theorem holds_change {operation : FileOperation} {path : Text} {action : Change Unit}
    (hsucceeds : ∀ fs files, action fs = (.ok (), files) →
      (Event.changing operation path).Succeeds root fs)
    (happly : ∀ fs, (Event.changing operation path).apply fs = (action fs).2) :
    (contract root).Holds (change operation path action) := by
  refine Contract.holds_change ?_ fun _ _ _ _ => trivial
  intro _ p files hrun
  refine of_event (.changing operation path) (hsucceeds p.files files hrun) rfl ?_
    (List.append_nil _).symm
  rw [happly, hrun]

theorem holds_storeFile {file : GeneratedFile} {content : Text} (h : AskedFor root file) :
    (contract root).Holds (storeFile file content) := by
  intro p
  rcases hwrite : Change.writeFile file.path content p.files with ⟨e | _, files⟩
  · exact holdsAt_of_eq_error (bind_of_error (change_of_error hwrite _ _) _) trivial
  · refine holdsAt_of_eq_ok (storeFile_of_ok hwrite) ?_
    refine trans (q := { p with events := p.events ++ [.changing .writeFile file.path] }) ?_ ?_
    · exact of_quiet (.changing .writeFile file.path) rfl rfl rfl rfl
    · refine of_event (.generated file content) (.writeFile h hwrite) rfl ?_ rfl
      rw [Event.apply, hwrite]

theorem admits (setup : Setup) : (contract setup.outputRoot).Admits setup where
  remark event p h := of_quiet event (Event.isQuiet_of_isRemark h) rfl rfl rfl
  define m p := ⟨[], (List.append_nil _).symm, .nil, (List.append_nil _).symm⟩
  clear directory _ := by
    refine holds_get_bind fun p => ?_
    split
    · exact holds_change (fun _ _ => .removeDirectory) (fun _ => rfl) p
    · exact holds_change (fun _ _ => .removeFile) (fun _ => rfl) p
    · exact holds_pure () p
  makeDirectories path _ := holds_change (fun _ _ => .createDirectory) (fun _ => rfl)
  store file content h := holds_storeFile h
  visit file p action _ h := by
    refine holdsAt_whileOpen (h _) (fun after hdone => ?_) fun _ _ => trivial
    have hentering : Recounts setup.outputRoot p (p.entering file) :=
      of_quiet (.enteringTemplate file) rfl rfl rfl rfl
    have hleaving : Recounts setup.outputRoot after (after.leaving file) :=
      of_quiet (.leavingTemplate file) rfl rfl rfl rfl
    exact (hentering.trans hdone).trans hleaving

end Recounts

/-- What is attempted while templates are processed one after the other. -/
def Trace.ofTemplates (setup : Setup) : List Text → Trace :=
  Trace.each (fun path => note (.startingTemplate path) >>= fun _ => processFile setup path)
    fun path => Trace.after (note (.startingTemplate path)) fun _ => Trace.ofFile setup path

theorem Accounts.processTemplates (setup : Setup) (templates : List Text) :
    Accounts (Generator.processTemplates setup templates)
      (Trace.ofTemplates setup templates) := by
  rw [Generator.processTemplates_eq_forM]
  exact forM fun path _ => note_bind rfl fun _ => processFile path

namespace Generator

/-- The `file` directives whose turn comes in a run. -/
def attempts (g : Generator) (templates : List Text) (w : World) : List Attempt :=
  match g.config.predefinedMacros with
  | .error _ => []
  | .ok macros => Trace.ofTemplates g.setup templates (g.begun templates macros w)

variable {g : Generator} {templates : List Text} {w w' : World} {report : Report}

theorem run_eq_ok (h : g.run templates w = (.ok report, w')) :
    ∃ history, w'.events = w.events ++ history ∧
      History g.outputDirectory (g.start w.files) history w'.files ∧
        report.files = filesOf history ∧
          writesOf history = (g.attempts templates w).filterMap Attempt.wrote? := by
  obtain ⟨macros, after, -, -, -, hmacros, hprocess, rfl, rfl⟩ := run_eq_ok_iff.mp h
  obtain ⟨new, hevents, hhistory, hfiles⟩ :=
    ((holds_processTemplates (Recounts.admits g.setup) templates _).of_ok hprocess).exists_history
  have hwrites : writesOf new = (g.attempts templates w).filterMap Attempt.wrote? := by
    have hadds := Accounts.processTemplates g.setup templates (g.begun templates macros w)
    rw [hprocess] at hadds
    have happend := hadds.writes
    rw [hevents, writesOf_append] at happend
    rw [attempts, hmacros]
    exact List.append_cancel_left happend
  refine ⟨[.startingRun templates.length g.outputDirectory] ++ ([.predefinedMacros macros.size] ++
    (new ++ [.finishedRun after.generated.length])), ?_, ?_, ?_, ?_⟩
  · simp only [hevents, begun, List.append_assoc]
  · exact .append (.quiet rfl) (.append (.quiet rfl) (hhistory.append (.quiet rfl)))
  · simp only [hfiles, filesOf_append, filesOf_singleton]
    exact (List.append_nil _).symm
  · simp only [← hwrites, writesOf_append, writesOf_singleton]
    exact List.append_nil _

/-- The report of a run that succeeds lists the files that directives wrote, in order. What a
directive wrote is what its call expanded to when its turn came. Its file is there at the end, with
the text of the last directive that wrote to it, under whatever path, unless a directory section
handled later took it away; and the path of the report leads to it if the directories and links on
the way are there still. -/
theorem reported_files_have_their_last_content (h : g.run templates w = (.ok report, w')) :
    ∃ history, w'.events = w.events ++ history ∧
      History g.outputDirectory (g.start w.files) history w'.files ∧
      report.files = filesOf history ∧
      writesOf history = (g.attempts templates w).filterMap Attempt.wrote? ∧
      ∀ before file content after, history = before ++ .generated file content :: after →
        let fs := replay (g.start w.files) before
        let written := (Event.generated file content).apply fs
        ∃ earlier a later place, g.attempts templates w = earlier ++ a :: later ∧
          writesOf before = earlier.filterMap Attempt.wrote? ∧
          a.wrote? = some (file, content) ∧ fs.destination file.path = some place ∧
          (Spares place written after → ∃ last lastFile executable,
            let text := lastText place written content after
            last ∈ a :: later ∧ last.wrote? = some (lastFile, text) ∧
              w'.files.entryAt place = some (.file (.text text) executable) ∧
                (fs.KeepsWay w'.files file.path → w'.files.status true file.path =
                  .ok (place, .file (.text text) executable))) := by
  obtain ⟨history, hevents, hhistory, hfiles, hwrites⟩ := run_eq_ok h
  refine ⟨history, hevents, hhistory, hfiles, hwrites, ?_⟩
  rintro before file content after rfl
  obtain ⟨fs, hbefore, hwritten⟩ := hhistory.of_append
  rw [writesOf_append, writesOf_generated] at hwrites
  obtain ⟨earlier, a, later, hattempts, hearlier, ha, hlater⟩ :=
    Attempt.exists_of_filterMap_wrote? hwrites.symm
  rw [hbefore.replay_eq]
  cases hwritten with
  | cons hevent hafter =>
      obtain ⟨place, hplace⟩ := hevent.exists_writes
      refine ⟨earlier, a, later, place, hattempts, hearlier.symm, ha, hplace.destination, ?_⟩
      intro hspared
      obtain ⟨executable, hentry⟩ := hafter.hasText hplace.hasText hspared
      have hstatus := fun hway => hplace.status hway
        (hafter.workingDirectory.trans hevent.workingDirectory) hentry
      -- the last writer is the directive itself or one after it
      rcases lastText_eq_or_mem_writesOf place _ content after with hown | ⟨lastFile, hmem⟩
      · exact ⟨a, file, executable, List.mem_cons_self, ha.trans (by rw [hown]), hentry, hstatus⟩
      · obtain ⟨last, hlast, hwrote⟩ := List.mem_filterMap.mp (hlater ▸ hmem)
        exact ⟨last, lastFile, executable, List.mem_cons_of_mem a hlast, hwrote, hentry, hstatus⟩

def plain : Generator :=
  .ofConfig { compiler := "cc", testDirectory := "out", sizes := ⟨8, 16, 32, 64, none, none⟩ }

def plainMacros : Environment where
  macros := [("$CHARMAX", "127"), ("$CHARMIN", "-128"), ("$COMPILER", "cc"),
    ("$INTMAX", "2147483647"), ("$INTMIN", "-2147483648"), ("$LANG", "c"),
    ("$LONGMAX", "9223372036854775807L"), ("$LONGMIN", "-9223372036854775808L"),
    ("$OPTIONS", ""), ("$SHORTMAX", "32767"), ("$SHORTMIN", "-32768"), ("$UCHARMAX", "255"),
    ("$UCHARMIN", "0"), ("$UINTMAX", "4294967295"), ("$UINTMIN", "0"),
    ("$ULONGMAX", "18446744073709551615L"), ("$ULONGMIN", "0"), ("$USHORTMAX", "65535"),
    ("$USHORTMIN", "0")].map fun (name, body) => ⟨name, body, []⟩

theorem plain_predefinedMacros : plain.config.predefinedMacros = .ok plainMacros := by
  decide +kernel

/-- A template that writes one file under two paths between two sections of one directory. -/
def twoSections : Text :=
  "@def $m($x)\n$x\n@def_\n@dir a\n@file x.c $m(1) @file_\n@dir_\n@dir b\n" ++
    "@file y.c $m(2) @file_\n@file ./y.c $m(3) @file_\n@dir_\n@dir a\n@dir_\n"

def beforeRun : World where
  files := { root := [("t.tt", .file (.text twoSections) false)], workingDirectory := [] }

def eventsBefore : List Event := [
  .startingRun 1 "out", .predefinedMacros 19, .startingTemplate "t.tt", .enteringTemplate "/t.tt",
  .handlingSection "def" 1, .defined "$m" 1 1,
  .handlingSection "dir" 4, .changing .createDirectory "out/a", .createdDirectory "out/a",
  .changing .createDirectory "out/a", .changing .writeFile "out/a/x.c",
  .generated ⟨"out/a/x.c", none⟩ "1",
  .handlingSection "dir" 7, .changing .createDirectory "out/b", .createdDirectory "out/b",
  .changing .createDirectory "out/b", .changing .writeFile "out/b/y.c"]

def eventsAfter : List Event := [
  .changing .createDirectory "out/b", .changing .writeFile "out/b/./y.c",
  .generated ⟨"out/b/./y.c", none⟩ "3",
  .handlingSection "dir" 11, .changing .removeDirectory "out/a",
  .changing .createDirectory "out/a", .createdDirectory "out/a",
  .leavingTemplate "/t.tt", .finishedRun 3]

def afterRun : World where
  files := {
    root := [
      ("out", .directory [("a", .directory []),
        ("b", .directory [("y.c", .file (.text "3") false)])]),
      ("t.tt", .file (.text twoSections) false)]
    workingDirectory := [] }
  events := eventsBefore ++ .generated ⟨"out/b/y.c", none⟩ "2" :: eventsAfter

theorem run_twoSections : plain.run ["t.tt"] beforeRun =
    (.ok ⟨"out", ["t.tt"], [⟨"out/a/x.c", none⟩, ⟨"out/b/y.c", none⟩, ⟨"out/b/./y.c", none⟩]⟩,
      afterRun) := by
  obtain ⟨room, hroom⟩ := processFile_eq plain.setup
  delta run generateFiles
  simp only [plain_predefinedMacros, processTemplates, hroom]
  delta openTemplate handleText handleItem handleSection generateDirectory
  simp only [fillDirectory_eq]
  cbv

theorem second_section_drops_a_reported_file :
    plain.run ["t.tt"] beforeRun =
        (.ok ⟨"out", ["t.tt"], [⟨"out/a/x.c", none⟩, ⟨"out/b/y.c", none⟩, ⟨"out/b/./y.c", none⟩]⟩,
          afterRun) ∧
      afterRun.files.status true "out/a/x.c" = .error .notFound := by
  refine ⟨run_twoSections, ?_⟩
  cbv

/-- The directories for the files and the first of them, before the second is written. -/
def midRun : FileSystem where
  root := [
    ("out", .directory [("b", .directory []),
      ("a", .directory [("x.c", .file (.text "1") false)])]),
    ("t.tt", .file (.text twoSections) false)]
  workingDirectory := []

/-- What the three directives expand to. -/
def expansions : List (GeneratedFile × Text) :=
  [(⟨"out/a/x.c", none⟩, "1"), (⟨"out/b/y.c", none⟩, "2"), (⟨"out/b/./y.c", none⟩, "3")]

theorem spared_file_has_its_last_content :
    plain.run ["t.tt"] beforeRun =
        (.ok ⟨"out", ["t.tt"], [⟨"out/a/x.c", none⟩, ⟨"out/b/y.c", none⟩, ⟨"out/b/./y.c", none⟩]⟩,
          afterRun) ∧
      (plain.attempts ["t.tt"] beforeRun).filterMap Attempt.wrote? = expansions ∧
      ∃ executable, afterRun.files.status true "out/b/y.c" =
        .ok ([("out" : Text), "b", "y.c"], .file (.text "3") executable) := by
  obtain ⟨history, hevents, -, -, hwrites, hfiles⟩ :=
    reported_files_have_their_last_content run_twoSections
  have hhistory : eventsBefore ++ .generated ⟨"out/b/y.c", none⟩ "2" :: eventsAfter = history :=
    hevents
  subst hhistory
  refine ⟨run_twoSections, hwrites.symm, ?_⟩
  obtain ⟨_, _, _, place, -, -, -, hplace, hspared⟩ :=
    hfiles eventsBefore ⟨"out/b/y.c", none⟩ "2" eventsAfter rfl
  have hmid : replay (plain.start beforeRun.files) eventsBefore = midRun := by cbv
  rw [hmid] at hplace hspared
  have hdestination : midRun.destination "out/b/y.c" = some [("out" : Text), "b", "y.c"] := by cbv
  obtain rfl : [("out" : Text), "b", "y.c"] = place :=
    Option.some.inj (hdestination.symm.trans hplace)
  -- later on only the directory `a` is removed
  have hspares : Spares [("out" : Text), "b", "y.c"]
      ((Event.generated ⟨"out/b/y.c", none⟩ "2").apply midRun) eventsAfter := by
    have hnone : ∀ removed ∈ (none : Option Location),
        ¬ removed <+: [("out" : Text), "b", "y.c"] := by simp
    refine ⟨hnone, hnone, hnone, hnone, ?_, hnone, hnone, hnone, hnone, trivial⟩
    intro removed hremoved
    obtain rfl : [("out" : Text), "a"] = removed := by
      refine Option.some.inj (.trans ?_ hremoved)
      cbv
    decide
  have hway : midRun.KeepsWay afterRun.files "out/b/y.c" := by
    have hroute : midRun.route "out/b/y.c" =
        [[("out" : Text)], [("out" : Text), "b"], [("out" : Text), "b", "y.c"]] := by cbv
    intro passed hpassed entry hentry _
    rw [hroute] at hpassed
    simp only [List.mem_cons, List.not_mem_nil, or_false] at hpassed
    rcases hpassed with rfl | rfl | rfl
    · exact hentry
    · exact hentry
    · cases hentry
  have htext : lastText [("out" : Text), "b", "y.c"]
      ((Event.generated ⟨"out/b/y.c", none⟩ "2").apply midRun) "2" eventsAfter = "3" := by cbv
  obtain ⟨_, _, executable, -, -, -, hstatus⟩ := hspared hspares
  rw [htext] at hstatus
  exact ⟨executable, hstatus hway⟩

end Generator

end TemplateSuite
