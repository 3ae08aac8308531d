import TemplateSuite.Proofs.Generation.OpenTemplates
import TemplateSuite.Proofs.Generation.Oblivious
import TemplateSuite.Proofs.Generation.ReportedFiles

namespace TemplateSuite

open StateAction Processing

theorem checkTemplateNames_of_all {templates : List Text} (hne : templates ≠ [])
    (h : ∀ path ∈ templates, isTemplate path) : checkTemplateNames templates = .ok () := by
  have hnone : templates.find? (!isTemplate ·) = none := by
    rw [List.find?_eq_none]
    intro path hmem
    simp only [h path hmem, Bool.not_true, Bool.false_eq_true, not_false_eq_true]
  rw [checkTemplateNames, if_neg hne, hnone]

/-- The template cannot be found, be read, or be accepted for its nesting; the error says so. -/
inductive Refused (files : FileSystem) (path : Text) : TemplateError → Prop
  | resolve {fault : FileError} : files.canonicalPath path = .error fault →
      Refused files path (.file .resolveTemplate path fault)
  | read {file : Text} {fault : FileError} : files.canonicalPath path = .ok file →
      files.readText file = .error fault → Refused files path (.file .readTemplate file fault)
  | nesting {file text : Text} {fault : NestingError} : files.canonicalPath path = .ok file →
      files.readText file = .ok text → checkNesting text = .error fault →
        Refused files path (.inTemplate file (.nesting fault))

theorem Refused.processFile (setup : Setup) {path : Text} {e : TemplateError} {p : Progress}
    (h : Refused p.files path e) (hopened : p.opened = []) :
    ∃ q, processFile setup path p = (.error e, q) ∧ q.files = p.files := by
  obtain ⟨room, hroom⟩ := processFile_eq setup
  rw [hroom]
  cases h with
  | resolve hresolve =>
      rw [openTemplate_eq]
      exact ⟨p, bind_of_error (observe_of_error hresolve _ _) _, rfl⟩
  | read hresolve hread =>
      refine ⟨p, ?_, rfl⟩
      rw [openTemplate_eq, bind_of_ok (observe_of_ok hresolve _ _), get_bind_apply, hopened,
        if_neg List.not_mem_nil]
      exact bind_of_error (observe_of_error hread _ _) _
  | @nesting file text fault hresolve hread hnesting =>
      refine ⟨(p.entering file).leaving file, ?_, rfl⟩
      have hclosed : file ∉ p.opened := hopened ▸ List.not_mem_nil
      rw [openTemplate_of_read hresolve hclosed hread, whileOpen_apply, handleText, hnesting]
      rfl

namespace Generator

/-- What templates find before the first of them, apart from the events. -/
def ground (g : Generator) (macros : Environment) (w : World) : Progress where
  files := g.start w.files
  macros

variable {g : Generator} {templates : List Text} {macros : Environment} {w : World}

/-- The run comes to its templates, with these macros. -/
structure Prepares (g : Generator) (w : World) (macros : Environment) : Prop where
  validate : g.config.validate = .ok ()
  makeDirectories :
    Change.makeDirectories g.outputDirectory w.files = (.ok (), g.start w.files)
  predefinedMacros : g.config.predefinedMacros = .ok macros

theorem begun_eq_after (g : Generator) (templates : List Text) (macros : Environment) (w : World) :
    ∃ past, g.begun templates macros w = (g.ground macros w).after past := by
  refine ⟨w.events ++ [.startingRun templates.length g.outputDirectory] ++
    [.predefinedMacros macros.size], ?_⟩
  simp only [begun, ground, Progress.after, List.append_nil]

theorem Prepares.run_eq (h : g.Prepares w macros) (hnames : checkTemplateNames templates = .ok ())
    {result : Except TemplateError Unit} {q : Progress}
    (hprocess : processTemplates g.setup templates (g.ground macros w) = (result, q)) :
    ∃ events, g.run templates w =
      ((result.mapError .template).map fun _ => ⟨g.outputDirectory, templates, q.generated⟩,
        ⟨q.files, events⟩) := by
  obtain ⟨past, hbegun⟩ := begun_eq_after g templates macros w
  have hlater : processTemplates g.setup templates (g.begun templates macros w) =
      (result, q.after past) := by
    rw [hbegun, oblivious_processTemplates, hprocess]
  have hrun : g.run templates w = (g.generateFiles macros templates >>= fun files => do
      Making.note (.finishedRun files.length)
      return ⟨g.outputDirectory, templates, files⟩) (g.begun templates macros w).toWorld := by
    rw [run, bind_of_ok (Making.ofExcept_eq_ok_iff.mpr ⟨h.validate, rfl⟩),
      bind_of_ok (Making.ofExcept_eq_ok_iff.mpr ⟨hnames, rfl⟩),
      bind_of_ok (Making.change_eq_ok_iff.mpr ⟨_, h.makeDirectories, rfl⟩),
      Making.note_bind_apply,
      bind_of_ok (Making.ofExcept_eq_ok_iff.mpr ⟨h.predefinedMacros, rfl⟩),
      Making.note_bind_apply]
    rfl
  have hgenerate : g.generateFiles macros templates (g.begun templates macros w).toWorld =
      ((result.mapError .template).map fun _ => q.generated, (q.after past).toWorld) := by
    have hstart : ({ (g.begun templates macros w).toWorld with macros } : Progress) =
        g.begun templates macros w := rfl
    rw [generateFiles, hstart, hlater]
    rfl
  rw [hrun]
  cases result with
  | error e => exact ⟨_, bind_of_error hgenerate _⟩
  | ok value => exact ⟨_, bind_of_ok hgenerate _⟩

/-- A run that does not come to its templates fails in the same way whatever they are: the
configuration or the output directory is to blame. -/
theorem prepares_or_fails (g : Generator) (w : World) :
    (∃ macros, g.Prepares w macros) ∨ ∃ e files,
      (∀ cause, e = .template cause → ∃ fault, cause = .invalidMacro fault) ∧
        ∀ templates, checkTemplateNames templates = .ok () →
          ∃ events, g.run templates w = (.error e, ⟨files, events⟩) := by
  cases hvalid : g.config.validate with
  | error fault =>
      refine .inr ⟨.configInvalid fault, w.files, ?_, fun templates _ => ⟨w.events, ?_⟩⟩
      · intro cause hcause
        cases hcause
      · rw [run, hvalid]
        rfl
  | ok _ =>
      rcases hmake : Change.makeDirectories g.outputDirectory w.files with ⟨fault | _, files⟩
      · have hchange : Making.change .file (Change.makeDirectories g.outputDirectory) w =
            (.error (.file fault), { w with files }) := by
          rw [Making.change, hmake]
          rfl
        refine .inr ⟨.file fault, files, ?_, fun templates hnames => ⟨w.events, ?_⟩⟩
        · intro cause hcause
          cases hcause
        · rw [run, bind_of_ok (Making.ofExcept_eq_ok_iff.mpr ⟨hvalid, rfl⟩),
            bind_of_ok (Making.ofExcept_eq_ok_iff.mpr ⟨hnames, rfl⟩), bind_of_error hchange]
      · obtain rfl : g.start w.files = files := congrArg Prod.snd hmake
        cases hmacros : g.config.predefinedMacros with
        | ok macros => exact .inl ⟨macros, hvalid, hmake, hmacros⟩
        | error fault =>
            refine .inr ⟨.template (.invalidMacro fault), g.start w.files, ?_, ?_⟩
            · intro cause hcause
              cases hcause
              exact ⟨fault, rfl⟩
            · intro templates hnames
              refine ⟨w.events ++ [.startingRun templates.length g.outputDirectory], ?_⟩
              rw [run, bind_of_ok (Making.ofExcept_eq_ok_iff.mpr ⟨hvalid, rfl⟩),
                bind_of_ok (Making.ofExcept_eq_ok_iff.mpr ⟨hnames, rfl⟩),
                bind_of_ok (Making.change_eq_ok_iff.mpr ⟨_, hmake, rfl⟩), Making.note_bind_apply,
                hmacros]
              rfl

theorem processTemplates_append (setup : Setup) (front back : List Text) :
    processTemplates setup (front ++ back) =
      processTemplates setup front >>= fun _ => processTemplates setup back := by
  simp only [processTemplates_eq_forM, forM_append]

theorem record_begins {setup : Setup} {p q : Progress}
    (h : processTemplates setup templates p = (.ok (), q)) : p.generated <+: q.generated := by
  obtain ⟨new, -, -, hadded⟩ :=
    ((holds_processTemplates (Recounts.admits setup) templates p).of_ok h).exists_history
  exact ⟨_, hadded.symm⟩

theorem opened_of_processTemplates {setup : Setup} {result : Except TemplateError Unit}
    {p q : Progress} (h : processTemplates setup templates p = (result, q)) :
    q.opened = p.opened := by
  have hcloses :=
    ClosesAgain.of_holds (holds_processTemplates (ClosesAgain.admits setup) templates) p
  rw [h] at hcloses
  exact hcloses.opened

theorem processTemplates_of_refused {setup : Setup} {front : List Text} {path : Text}
    (back : List Text) {e : TemplateError} {p q : Progress} (hopened : p.opened = [])
    (hfront : processTemplates setup front p = (.ok (), q)) (h : Refused q.files path e) :
    ∃ q', processTemplates setup (front ++ path :: back) p = (.error e, q') ∧
      q'.files = q.files := by
  have hopened' : q.opened = [] := (opened_of_processTemplates hfront).trans hopened
  obtain ⟨q', hrefused, hfiles⟩ := Refused.processFile setup
    (p := { q with events := q.events ++ [.startingTemplate path] }) h hopened'
  refine ⟨q', ?_, hfiles⟩
  rw [processTemplates_append, bind_of_ok hfront, processTemplates, note_bind_apply]
  exact bind_of_error hrefused _

variable {ts us : List Text} {report : Report} {w₁ w' : World}

theorem exists_prepares_of_run_eq_ok (hnames : checkTemplateNames templates = .ok ())
    (h : g.run templates w = (.ok report, w')) :
    ∃ macros q, g.Prepares w macros ∧
      processTemplates g.setup templates (g.ground macros w) = (.ok (), q) ∧
        report.files = q.generated ∧ w'.files = q.files := by
  rcases prepares_or_fails g w with ⟨macros, hprepares⟩ | ⟨e, files, -, hfails⟩
  · rcases hprocess : processTemplates g.setup templates (g.ground macros w) with ⟨e | _, q⟩
    · obtain ⟨events, hrun⟩ := hprepares.run_eq hnames hprocess
      cases hrun.symm.trans h
    · obtain ⟨events, hrun⟩ := hprepares.run_eq hnames hprocess
      cases hrun.symm.trans h
      exact ⟨macros, q, hprepares, hprocess, rfl, rfl⟩
  · obtain ⟨events, hrun⟩ := hfails templates hnames
    cases hrun.symm.trans h

theorem run_of_run_append (hts : checkTemplateNames ts = .ok ())
    (hall : checkTemplateNames (ts ++ us) = .ok ())
    (h : g.run (ts ++ us) w = (.ok report, w')) :
    ∃ first w₁, g.run ts w = (.ok first, w₁) ∧ first.files <+: report.files := by
  obtain ⟨macros, q, hprepares, hprocess, hreport, -⟩ := exists_prepares_of_run_eq_ok hall h
  rw [processTemplates_append] at hprocess
  obtain ⟨_, q₁, hfront, hback⟩ := bind_eq_ok hprocess
  obtain ⟨events, hrun⟩ := hprepares.run_eq hts hfront
  exact ⟨_, _, hrun, hreport ▸ record_begins hback⟩

theorem run_append_of_error {e : SuiteError} (hts : checkTemplateNames ts = .ok ())
    (hall : checkTemplateNames (ts ++ us) = .ok ()) (h : g.run ts w = (.error e, w₁)) :
    ∃ w', g.run (ts ++ us) w = (.error e, w') ∧ w'.files = w₁.files := by
  rcases prepares_or_fails g w with ⟨macros, hprepares⟩ | ⟨e', files, -, hfails⟩
  · rcases hprocess : processTemplates g.setup ts (g.ground macros w) with ⟨fault | _, q⟩
    · have hlater : processTemplates g.setup (ts ++ us) (g.ground macros w) =
          (.error fault, q) := by
        rw [processTemplates_append, bind_of_error hprocess]
      obtain ⟨events, hrun⟩ := hprepares.run_eq hts hprocess
      obtain ⟨events', hrun'⟩ := hprepares.run_eq hall hlater
      cases hrun.symm.trans h
      exact ⟨_, hrun', rfl⟩
    · obtain ⟨events, hrun⟩ := hprepares.run_eq hts hprocess
      cases hrun.symm.trans h
  · obtain ⟨events, hrun⟩ := hfails ts hts
    obtain ⟨events', hrun'⟩ := hfails (ts ++ us) hall
    cases hrun.symm.trans h
    exact ⟨_, hrun', rfl⟩

theorem run_append_of_refused {path : Text} {rest : List Text} {e : TemplateError}
    (hts : checkTemplateNames ts = .ok ())
    (hall : checkTemplateNames (ts ++ path :: rest) = .ok ())
    (h : g.run ts w = (.ok report, w₁)) (hrefused : Refused w₁.files path e) :
    ∃ w', g.run (ts ++ path :: rest) w = (.error (.template e), w') ∧ w'.files = w₁.files := by
  obtain ⟨macros, q, hprepares, hprocess, -, hfiles⟩ := exists_prepares_of_run_eq_ok hts h
  rw [hfiles] at hrefused ⊢
  obtain ⟨q', hlater, hfiles'⟩ := processTemplates_of_refused rest rfl hprocess hrefused
  obtain ⟨events, hrun⟩ := hprepares.run_eq hall hlater
  exact ⟨_, hrun, hfiles'⟩

/-- A run over more templates is the run over the first of them, and then the others are processed:
it succeeds only if that run does and reports its files first, it fails like that run, and if the
first of the other templates is refused, nothing is changed after that run. -/
theorem run_is_sequential (g : Generator) (w : World) (hne : ts ≠ [])
    (hnames : ∀ path ∈ ts ++ us, isTemplate path) :
    (∀ report w', g.run (ts ++ us) w = (.ok report, w') →
      ∃ first w₁, g.run ts w = (.ok first, w₁) ∧ first.files <+: report.files) ∧
    (∀ e w₁, g.run ts w = (.error e, w₁) →
      ∃ w', g.run (ts ++ us) w = (.error e, w') ∧ w'.files = w₁.files) ∧
    ∀ first w₁ path rest e, g.run ts w = (.ok first, w₁) → us = path :: rest →
      Refused w₁.files path e →
        ∃ w', g.run (ts ++ us) w = (.error (.template e), w') ∧ w'.files = w₁.files := by
  have hts : checkTemplateNames ts = .ok () :=
    checkTemplateNames_of_all hne fun path hmem => hnames path (List.mem_append_left us hmem)
  have hall : checkTemplateNames (ts ++ us) = .ok () :=
    checkTemplateNames_of_all (List.append_ne_nil_of_left_ne_nil hne us) hnames
  refine ⟨fun _ _ => run_of_run_append hts hall, fun _ _ => run_append_of_error hts hall, ?_⟩
  intro first w₁ path rest e h hus hrefused
  subst hus
  exact run_append_of_refused hts hall h hrefused

def soundText : Text := "@def $m($x)\n$x\n@def_\n@dir a\n@file x.c $m(1) @file_\n@dir_\n"

/-- The second template has a section without an end. -/
def soundAndBroken : World where
  files := {
    root := [("t.tt", .file (.text soundText) false), ("u.tt", .file (.text "@dir b\n") false)]
    workingDirectory := [] }

def soundRun : FileSystem where
  root := ("out", .directory [("a", .directory [("x.c", .file (.text "1") false)])]) ::
    soundAndBroken.files.root
  workingDirectory := []

theorem run_sound : (plain.run ["t.tt"] soundAndBroken).1 =
      .ok ⟨"out", ["t.tt"], [⟨"out/a/x.c", none⟩]⟩ ∧
    (plain.run ["t.tt"] soundAndBroken).2.files = soundRun := by
  obtain ⟨room, hroom⟩ := processFile_eq plain.setup
  delta run generateFiles
  simp only [plain_predefinedMacros, processTemplates, hroom]
  delta openTemplate handleText handleItem handleSection generateDirectory
  simp only [fillDirectory_eq]
  refine ⟨?_, ?_⟩
  · cbv
  · cbv

theorem run_broken : (plain.run ["u.tt"] soundAndBroken).1 =
    .error (.template (.inTemplate "/u.tt" (.nesting (.unterminated [⟨"dir", 1⟩])))) := by
  obtain ⟨room, hroom⟩ := processFile_eq plain.setup
  delta run generateFiles
  simp only [plain_predefinedMacros, processTemplates, hroom]
  delta openTemplate handleText
  cbv

theorem broken_template_stops_the_run :
    (∃ w', plain.run ["t.tt", "u.tt"] soundAndBroken =
        (.error (.template (.inTemplate "/u.tt" (.nesting (.unterminated [⟨"dir", 1⟩])))), w') ∧
      w'.files = soundRun) ∧
    ∃ w', plain.run ["u.tt", "t.tt"] soundAndBroken =
        (.error (.template (.inTemplate "/u.tt" (.nesting (.unterminated [⟨"dir", 1⟩])))), w') ∧
      w'.files = (plain.run ["u.tt"] soundAndBroken).2.files := by
  obtain ⟨hsound, hfiles⟩ := run_sound
  refine ⟨?_, ?_⟩
  · have hrefused : Refused (plain.run ["t.tt"] soundAndBroken).2.files "u.tt"
        (.inTemplate "/u.tt" (.nesting (.unterminated [⟨"dir", 1⟩]))) := by
      rw [hfiles]
      have htext : soundRun.readText "/u.tt" = .ok "@dir b\n" := by cbv
      refine .nesting ?_ htext ?_
      · cbv
      · cbv
    have hnames : ∀ path ∈ [("t.tt" : Text)] ++ [("u.tt" : Text)], isTemplate path := by decide
    obtain ⟨-, -, hthird⟩ := run_is_sequential plain soundAndBroken (List.cons_ne_nil _ _) hnames
    obtain ⟨w', hrun, hkept⟩ := hthird _ _ "u.tt" [] _ (Prod.ext hsound rfl) rfl hrefused
    exact ⟨w', hrun, hkept.trans hfiles⟩
  · have hnames : ∀ path ∈ [("u.tt" : Text)] ++ [("t.tt" : Text)], isTemplate path := by decide
    obtain ⟨-, hsecond, -⟩ := run_is_sequential plain soundAndBroken (List.cons_ne_nil _ _) hnames
    exact hsecond _ _ (Prod.ext run_broken rfl)

end Generator

end TemplateSuite
