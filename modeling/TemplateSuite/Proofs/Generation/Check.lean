import TemplateSuite.Proofs.FileSystem.Acceptable
import TemplateSuite.Proofs.FileSystem.Canonical
import TemplateSuite.Proofs.Generation.Composition
import TemplateSuite.Proofs.Generation.ErrorChain

namespace TemplateSuite

open StateAction Processing FileSystem

theorem exists_name_of_isTemplate {path : Text} (h : isTemplate path) :
    ∃ step ∈ steps path, isName step := by
  have hname : ∃ name, Path.fileName? path = some name := by
    cases hfile : Path.fileName? path with
    | some name => exact ⟨name, rfl⟩
    | none =>
        rw [isTemplate, Path.extension?, hfile] at h
        cases h
  obtain ⟨name, hname⟩ := hname
  have hlast : (Path.components path).getLast? = some (.name name) := by
    unfold Path.fileName? at hname
    split at hname
    · rename_i hlast
      cases hname
      exact hlast
    · cases hname
  have hany : (Path.components path).any Path.Component.isName :=
    List.any_eq_true.mpr ⟨_, List.mem_of_getLast? hlast, rfl⟩
  exact List.countP_pos_iff.mp (Path.nameCount_pos hany)

theorem isTemplate_of_checkTemplateNames {templates : List Text} {path : Text}
    (h : checkTemplateNames templates = .ok ()) (hmem : path ∈ templates) : isTemplate path := by
  unfold checkTemplateNames at h
  split at h
  · cases h
  · split at h
    · cases h
    · rename_i hnone
      simpa using List.find?_eq_none.mp hnone path hmem

theorem FileSystem.checkPath_of_canonicalPath {fs : FileSystem} {path file : Text}
    (h : fs.canonicalPath path = .ok file) (hlength : Text.byteCount path ≤ maxPathBytes) :
    checkPath path = .ok () := by
  obtain ⟨htext, -⟩ := canonicalPath_eq_ok_iff.mp h
  rw [checkPath, htext]
  exact if_neg (Nat.not_lt.mpr hlength)

namespace Processing

theorem exists_text_of_processFile {setup : Setup} {path : Text} {p after : Progress}
    (h : processFile setup path p = (.ok (), after)) :
    ∃ file text, p.files.canonicalPath path = .ok file ∧ p.files.readText file = .ok text ∧
      checkNesting text = .ok () := by
  obtain ⟨room, hroom⟩ := processFile_eq setup
  rw [hroom] at h
  rcases openTemplate_cases setup (processFileWithin setup room) path p with
    ⟨_, _, _, hopen⟩ | ⟨file, -, hopen⟩ | ⟨file, text, hfile, -, htext, hopen⟩
  · cases hopen.symm.trans h
  · cases hopen.symm.trans h
  · refine ⟨file, text, hfile, htext, ?_⟩
    rw [hopen, whileOpen_apply] at h
    cases hcheck : checkNesting text with
    | ok _ => rfl
    | error n =>
        rw [handleText, hcheck] at h
        cases h

theorem Leaves.two_le_chain {setup : Setup} {room : Nat} {path : Text} {p : Progress}
    {e : TemplateError} {files : FileSystem} {n : NestingError}
    (h : Leaves setup room path p e files) (hcause : e.rootCause = .nesting n)
    (hsound : ∀ file text, p.files.canonicalPath path = .ok file →
      p.files.readText file = .ok text → checkNesting text = .ok ()) :
    2 ≤ e.templateChain.length := by
  cases h with
  | notRead => cases hcause
  | cycle => cases hcause
  | nesting hfile _ htext hcheck => cases hcheck.symm.trans (hsound _ _ hfile htext)
  | ofSection _ _ hlocal =>
      rw [TemplateError.rootCause, TemplateError.rootCause_of_ofSection hlocal] at hcause
      subst hcause
      cases hlocal
  | @included _ _ _ _ _ _ _ inside _ _ _ _ _ _ _ hinside =>
      obtain ⟨last, -, hlast, -⟩ := hinside.nesting_last hcause
      rw [TemplateError.templateChain, List.length_cons]
      cases hchain : inside.templateChain with
      | nil =>
          rw [hchain] at hlast
          cases hlast
      | cons next rest => exact Nat.succ_le_succ (Nat.succ_pos _)

end Processing

namespace Generator

variable {g : Generator} {templates : List Text} {macros : Environment} {w w' : World}

theorem checkTemplate_of_ok {path text : Text} (htext : w.files.readText path = .ok text)
    (hcheck : checkNesting text = .ok ()) :
    checkTemplate path w = (.ok (), { w with events := w.events ++ [.checkedTemplate path] }) := by
  have hread : Making.observe (.template <| .file .readTemplate path ·) (·.readText path) w =
      (.ok text, w) := by
    rw [Making.observe, get_bind_apply, htext]
    rfl
  rw [checkTemplate, bind_of_ok hread, hcheck]
  rfl

theorem exists_text_of_checkTemplate {path : Text} (h : checkTemplate path w = (.ok (), w')) :
    ∃ text, w.files.readText path = .ok text ∧ checkNesting text = .ok () ∧ w'.files = w.files := by
  obtain ⟨text, w₁, hread, hrest⟩ := bind_eq_ok h
  rw [Making.observe, get_bind_apply] at hread
  obtain ⟨htext, rfl⟩ := Making.ofExcept_eq_ok_iff.mp hread
  obtain ⟨_, w₂, hnesting, hnoted⟩ := bind_eq_ok hrest
  obtain ⟨hcheck, rfl⟩ := Making.ofExcept_eq_ok_iff.mp hnesting
  cases hnoted
  exact ⟨text, htext, hcheck, rfl⟩

theorem exists_forM_checkTemplate_eq_ok_iff :
    (∃ w', (templates.forM checkTemplate) w = (.ok (), w')) ↔
      ∀ path ∈ templates, ∃ text, w.files.readText path = .ok text ∧
        checkNesting text = .ok () := by
  induction templates generalizing w with
  | nil => exact iff_of_true ⟨w, rfl⟩ nofun
  | cons path rest ih =>
      have hcons : (path :: rest).forM checkTemplate =
        checkTemplate path >>= fun _ => rest.forM checkTemplate := rfl
      rw [hcons, List.forall_mem_cons]
      constructor
      · rintro ⟨w', h⟩
        obtain ⟨_, w₁, hfirst, hrest⟩ := bind_eq_ok h
        obtain ⟨text, htext, hcheck, hfiles⟩ := exists_text_of_checkTemplate hfirst
        exact ⟨⟨text, htext, hcheck⟩, hfiles ▸ ih.mp ⟨w', hrest⟩⟩
      · rintro ⟨⟨text, htext, hcheck⟩, hrest⟩
        rw [bind_of_ok (checkTemplate_of_ok htext hcheck)]
        exact ih.mpr hrest

theorem exists_check_eq_ok_iff :
    (∃ w', check templates w = (.ok (), w')) ↔ checkTemplateNames templates = .ok () ∧
      ∀ path ∈ templates, ∃ text, w.files.readText path = .ok text ∧
        checkNesting text = .ok () := by
  rw [← exists_forM_checkTemplate_eq_ok_iff]
  constructor
  · rintro ⟨w', h⟩
    obtain ⟨_, w₁, hchecked, hall⟩ := bind_eq_ok h
    obtain ⟨hnames, rfl⟩ := Making.ofExcept_eq_ok_iff.mp hchecked
    exact ⟨hnames, w', hall⟩
  · rintro ⟨hnames, w', hall⟩
    exact ⟨w', (bind_of_ok (Making.ofExcept_eq_ok_iff.mpr ⟨hnames, rfl⟩) _).trans hall⟩

/-- When the turn of a template has come, its path reads as it did before the run. -/
def KeepsTemplates (g : Generator) (templates : List Text) (w : World) : Prop :=
  ∀ macros before path rest q, g.Prepares w macros → templates = before ++ path :: rest →
    processTemplates g.setup before (g.ground macros w) = (.ok (), q) →
      q.files.readText path = w.files.readText path

theorem namedHere_of_processTemplates {q : Progress} (hprepares : g.Prepares w macros)
    (hhere : w.files.NamedHere)
    (hprocess : processTemplates g.setup templates (g.ground macros w) = (.ok (), q)) :
    q.files.NamedHere := by
  obtain ⟨new, -, hhistory, -⟩ :=
    ((holds_processTemplates (Recounts.admits g.setup) templates _).of_ok hprocess).exists_history
  have hmakes := Change.makes_makeDirectories g.outputDirectory w.files
  rw [hprepares.makeDirectories] at hmakes
  have hsame : q.files.workingDirectory = w.files.workingDirectory :=
    hhistory.workingDirectory.trans hmakes.kept.workingDirectory
  intro name hmem
  exact hhere name (hsame ▸ hmem)

section Agreement

variable {report : Report} {e : TemplateError} {n : NestingError} {w'' : World}
  (hhere : w.files.NamedHere) (hkeeps : g.KeepsTemplates templates w)

include hhere hkeeps

theorem readText_at_turn {before rest : List Text} {path file text : Text} {q : Progress}
    (hnames : checkTemplateNames templates = .ok ()) (hprepares : g.Prepares w macros)
    (hsplit : templates = before ++ path :: rest)
    (hbefore : processTemplates g.setup before (g.ground macros w) = (.ok (), q))
    (hfile : q.files.canonicalPath path = .ok file) (htext : q.files.readText file = .ok text)
    (hpath : checkPath path = .ok ()) : w.files.readText path = .ok text := by
  have hmem : path ∈ templates := by
    rw [hsplit]
    exact List.mem_append_right before List.mem_cons_self
  have hname := exists_name_of_isTemplate (isTemplate_of_checkTemplateNames hnames hmem)
  have hhere' := namedHere_of_processTemplates hprepares hhere hbefore
  have hread := readText_of_canonicalPath hhere' hname hfile htext hpath
  exact (hkeeps macros before path rest q hprepares hsplit hbefore).symm.trans hread

theorem check_of_run (hlength : ∀ path ∈ templates, Text.byteCount path ≤ maxPathBytes)
    (h : g.run templates w = (.ok report, w')) : ∃ w'', check templates w = (.ok (), w'') := by
  obtain ⟨_, _, -, hnames, -⟩ := run_eq_ok_iff.mp h
  obtain ⟨macros, q, hprepares, hprocess, -, -⟩ := exists_prepares_of_run_eq_ok hnames h
  refine exists_check_eq_ok_iff.mpr ⟨hnames, fun path hmem => ?_⟩
  have hshort := hlength path hmem
  obtain ⟨before, rest, rfl⟩ := List.append_of_mem hmem
  rw [processTemplates_append] at hprocess
  obtain ⟨_, q₁, hbefore, hrest⟩ := bind_eq_ok hprocess
  rw [processTemplates, note_bind_apply] at hrest
  obtain ⟨_, q₂, hpath, -⟩ := bind_eq_ok hrest
  obtain ⟨file, text, hfile, htext, hcheck⟩ := exists_text_of_processFile hpath
  exact ⟨text, readText_at_turn hhere hkeeps hnames hprepares rfl hbefore hfile htext
    (checkPath_of_canonicalPath hfile hshort), hcheck⟩

theorem exists_leaves_of_run (hcheck : check templates w = (.ok (), w''))
    (h : g.run templates w = (.error (.template e), w')) (hcause : e.rootCause = .nesting n) :
    ∃ path ∈ templates, ∃ p : Progress, Leaves g.setup openLimit path p e w'.files ∧
      ∀ file text, p.files.canonicalPath path = .ok file → p.files.readText file = .ok text →
        checkNesting text = .ok () := by
  obtain ⟨hnames, hsound⟩ := exists_check_eq_ok_iff.mp ⟨w'', hcheck⟩
  rcases prepares_or_fails g w with ⟨macros, hprepares⟩ | ⟨e', files, hother, hfails⟩
  · rcases hprocess : processTemplates g.setup templates (g.ground macros w) with ⟨cause | _, q⟩
    · obtain ⟨events, hrun⟩ := hprepares.run_eq hnames hprocess
      cases hrun.symm.trans h
      rw [processTemplates_eq_forM] at hprocess
      obtain ⟨before, path, rest, q₁, rfl, hbefore, hfails⟩ := exists_of_forM_eq_error hprocess
      rw [← processTemplates_eq_forM] at hbefore
      rw [note_bind_apply, processFile] at hfails
      have hmem : path ∈ before ++ path :: rest :=
        List.mem_append_right before List.mem_cons_self
      refine ⟨path, hmem, _, leaves_of_error hfails, fun file text hfile htext => ?_⟩
      obtain ⟨text', htext', hcheck'⟩ := hsound path hmem
      have hread := readText_at_turn hhere hkeeps hnames hprepares rfl hbefore hfile htext
        (checkPath_of_readText htext')
      cases htext'.symm.trans hread
      exact hcheck'
    · obtain ⟨events, hrun⟩ := hprepares.run_eq hnames hprocess
      cases hrun.symm.trans h
  · obtain ⟨events, hrun⟩ := hfails templates hnames
    cases hrun.symm.trans h
    obtain ⟨fault, rfl⟩ := hother e rfl
    cases hcause

end Agreement

/-- If each template reads as before the run when its turn has come, then a check succeeds where the
run does, provided that no path is too long for it; and after a check that succeeds, the run finds
wrong nesting only in a text that a template includes. -/
theorem check_agrees_with_run (hhere : w.files.NamedHere) (hkeeps : g.KeepsTemplates templates w) :
    ((∀ path ∈ templates, Text.byteCount path ≤ maxPathBytes) →
      ∀ report w', g.run templates w = (.ok report, w') →
        ∃ w'', check templates w = (.ok (), w'')) ∧
    ∀ e n w' w'', check templates w = (.ok (), w'') →
      g.run templates w = (.error (.template e), w') → e.rootCause = .nesting n →
        2 ≤ e.templateChain.length ∧
          (∃ path ∈ templates, ∃ p, IncludeChain g.setup openLimit path p e.templateChain) ∧
          ∃ last text, e.templateChain.getLast? = some last ∧ w'.files.readText last = .ok text ∧
            checkNesting text = .error n := by
  refine ⟨fun hlength report w' => check_of_run hhere hkeeps hlength, ?_⟩
  intro e n w' w'' hcheck hrun hcause
  obtain ⟨path, hmem, p, hleaves, hsound⟩ := exists_leaves_of_run hhere hkeeps hcheck hrun hcause
  have hlong := hleaves.two_le_chain hcause hsound
  have hne : e.templateChain ≠ [] := fun hnil => by
    rw [hnil] at hlong
    cases hlong
  exact ⟨hlong, ⟨path, hmem, p, hleaves.includeChain hne⟩, hleaves.nesting_last hcause⟩

theorem keepsTemplates_singleton {path : Text}
    (h : (g.start w.files).readText path = w.files.readText path) : g.KeepsTemplates [path] w := by
  intro macros before other rest q _ hsplit hprocess
  cases before with
  | nil =>
      cases hsplit
      cases hprocess
      exact h
  | cons first others =>
      have hlength := congrArg List.length hsplit
      simp only [List.length_append, List.length_cons, List.length_nil] at hlength
      omega

def includesBrokenWorld : World where
  files := includesBroken.files

theorem run_includesBroken :
    (plain.run ["t.tt"] includesBrokenWorld).1 = .error (.template brokenEnd) := by
  obtain ⟨room, hroom⟩ := Nat.exists_eq_add_of_lt one_lt_openLimit
  delta run generateFiles
  simp only [plain_predefinedMacros, processTemplates, processFile, hroom, Nat.add_comm 1 room,
    processFileWithin]
  delta openTemplate handleText handleItem handleSection includeTemplate
  cbv

theorem sound_templates_hide_a_broken_include :
    (∃ w', plain.run ["t.tt"] soundAndBroken =
        (.ok ⟨"out", ["t.tt"], [⟨"out/a/x.c", none⟩]⟩, w') ∧
      ∃ w'', check ["t.tt"] soundAndBroken = (.ok (), w'')) ∧
    (check ["t.tt"] includesBrokenWorld).1 = .ok () ∧
      ∃ w', plain.run ["t.tt"] includesBrokenWorld = (.error (.template brokenEnd), w') ∧
        2 ≤ brokenEnd.templateChain.length := by
  refine ⟨?_, ?_, ?_⟩
  · have hkeeps : plain.KeepsTemplates ["t.tt"] soundAndBroken :=
      keepsTemplates_singleton (by cbv)
    obtain ⟨hfirst, -⟩ := check_agrees_with_run (namedHere_of_root rfl) hkeeps
    rcases hrun : plain.run ["t.tt"] soundAndBroken with ⟨result, after⟩
    have hresult := run_sound.1
    rw [hrun] at hresult
    subst hresult
    exact ⟨after, rfl, hfirst (by decide) _ _ hrun⟩
  · cbv
  · have hkeeps : plain.KeepsTemplates ["t.tt"] includesBrokenWorld :=
      keepsTemplates_singleton (by cbv)
    obtain ⟨-, hsecond⟩ := check_agrees_with_run (namedHere_of_root rfl) hkeeps
    have hcheck : (check ["t.tt"] includesBrokenWorld).1 = .ok () := by cbv
    have hresult := run_includesBroken
    rcases hrun : plain.run ["t.tt"] includesBrokenWorld with ⟨result, after⟩
    rw [hrun] at hresult
    subst hresult
    exact ⟨after, rfl, (hsecond _ _ _ _ (Prod.ext hcheck rfl) hrun rfl).1⟩

theorem processFile_of_no_text (setup : Setup) {path file : Text} {p : Progress}
    (hopened : p.opened = []) (hfile : p.files.canonicalPath path = .ok file)
    (htext : p.files.readText file = .ok []) :
    ∃ q, processFile setup path p = (.ok (), q) ∧ q.files = p.files ∧
      q.generated = p.generated := by
  obtain ⟨room, hroom⟩ := processFile_eq setup
  have hcheck : checkNesting [] = .ok () := by cbv
  have hscan : scan [] 1 = .ok [] := by cbv
  refine ⟨(p.entering file).leaving file, ?_, rfl, rfl⟩
  have hclosed : file ∉ p.opened := hopened ▸ List.not_mem_nil
  rw [hroom, openTemplate_of_read hfile hclosed htext, whileOpen_apply, handleText, hcheck, hscan]
  rfl

theorem checkTemplateNames_singleton {path : Text} (hname : isTemplate path) :
    checkTemplateNames [path] = .ok () :=
  checkTemplateNames_of_all (List.cons_ne_nil _ _) fun _ hmem =>
    List.mem_singleton.mp hmem ▸ hname

theorem run_of_no_text {path file : Text} (hprepares : g.Prepares w macros)
    (hname : isTemplate path) (hfile : (g.start w.files).canonicalPath path = .ok file)
    (htext : (g.start w.files).readText file = .ok []) :
    ∃ events, g.run [path] w =
      (.ok ⟨g.outputDirectory, [path], []⟩, ⟨g.start w.files, events⟩) := by
  obtain ⟨q, hprocess, hfiles, hgenerated⟩ := processFile_of_no_text g.setup
    (p := { g.ground macros w with events := [.startingTemplate path] }) rfl hfile htext
  have hall : processTemplates g.setup [path] (g.ground macros w) = (.ok (), q) := by
    rw [processTemplates, note_bind_apply]
    exact bind_of_ok hprocess _
  obtain ⟨events, hrun⟩ := hprepares.run_eq (checkTemplateNames_singleton hname) hall
  rw [hfiles, hgenerated] at hrun
  exact ⟨events, hrun⟩

theorem check_of_not_read {path : Text} {fault : FileError} (hname : isTemplate path)
    (h : w.files.readText path = .error fault) :
    check [path] w = (.error (.template (.file .readTemplate path fault)), w) := by
  have hread : Making.observe (.template <| .file .readTemplate path ·) (·.readText path) w =
      (.error (.template (.file .readTemplate path fault)), w) := by
    rw [Making.observe, get_bind_apply, h]
    rfl
  have hnames := checkTemplateNames_singleton hname
  rw [check, bind_of_ok (Making.ofExcept_eq_ok_iff.mpr ⟨hnames, rfl⟩)]
  exact bind_of_error (bind_of_error hread _) _

/-- The path of a template, with steps before it that go nowhere. -/
def roundabout : Nat → Text
  | 0 => "t.tt"
  | n + 1 => '.' :: '/' :: roundabout n

theorem isAbsolute_roundabout (n : Nat) : Path.isAbsolute (roundabout n) = false := by
  cases n with
  | zero => rfl
  | succ n => rfl

theorem canonicalPath_roundabout (fs : FileSystem) (n : Nat) :
    fs.canonicalPath (roundabout n) = fs.canonicalPath "t.tt" := by
  induction n with
  | zero => rfl
  | succ n ih =>
      have hne : roundabout n ≠ [] := by
        cases n with
        | zero => exact List.cons_ne_nil _ _
        | succ n => exact List.cons_ne_nil _ _
      exact (canonicalPath_dot_slash (isAbsolute_roundabout n) hne).trans ih

/-- A path through the output directory, which is not there before the run. -/
def throughOutput : Text := "out/../t.tt"

def emptyTemplate : World where
  files := { root := [("t.tt", .file (.text []) false)], workingDirectory := [] }

/-- The output directory has been made. -/
def emptyRun : FileSystem where
  root := ("out", .directory []) :: emptyTemplate.files.root
  workingDirectory := []

theorem prepares_emptyTemplate : plain.Prepares emptyTemplate plainMacros where
  validate := rfl
  makeDirectories := by cbv
  predefinedMacros := plain_predefinedMacros

/-- A path through a link, which leads somewhere else once there is a directory in its place. -/
def throughLink : Text := "out/a/../t.tt"

/-- The files of a world in which what `out/a` is decides between two templates. -/
def twoWays (a : Node) : FileSystem where
  root := [
    ("out", .directory [("a", a), ("t.tt", .file (.text "@dir b\n") false)]),
    ("s.tt", .file (.text "@dir a\n@dir_\n") false),
    ("x", .directory [("t.tt", .file (.text []) false), ("y", .directory [])])]
  workingDirectory := []

theorem check_twoWays :
    (check ["s.tt", throughLink] ⟨twoWays (.link "../x/y"), []⟩).1 = .ok () := by
  cbv

theorem run_twoWays :
    (plain.run ["s.tt", throughLink] ⟨twoWays (.link "../x/y"), []⟩).1 =
        .error (.template (.inTemplate "/out/t.tt" (.nesting (.unterminated [⟨"dir", 1⟩])))) ∧
      (plain.run ["s.tt", throughLink] ⟨twoWays (.link "../x/y"), []⟩).2.files =
        twoWays (.directory []) := by
  obtain ⟨room, hroom⟩ := processFile_eq plain.setup
  delta run generateFiles
  simp only [plain_predefinedMacros, processTemplates, hroom]
  delta openTemplate handleText handleItem handleSection generateDirectory
  simp only [fillDirectory_eq]
  refine ⟨?_, ?_⟩
  · cbv
  · cbv

/-- A run follows a path that is too long for a check, and one that leads through the output
directory before that is made; and where a template replaces a link that the path of the next one
goes through, the run reads another file than the check. The files that the paths name, before the
run or in it, stay as they are. -/
theorem check_can_differ_from_run :
    ((∃ w', plain.run [roundabout 2046] emptyTemplate =
        (.ok ⟨"out", [roundabout 2046], []⟩, w') ∧
          w'.files = emptyRun) ∧
      check [roundabout 2046] emptyTemplate =
        (.error (.template (.file .readTemplate (roundabout 2046) .nameTooLong)),
          emptyTemplate)) ∧
    ((∃ w', plain.run [throughOutput] emptyTemplate = (.ok ⟨"out", [throughOutput], []⟩, w') ∧
        w'.files = emptyRun) ∧
      check [throughOutput] emptyTemplate =
        (.error (.template (.file .readTemplate throughOutput .notFound)), emptyTemplate)) ∧
    (check ["s.tt", throughLink] ⟨twoWays (.link "../x/y"), []⟩).1 = .ok () ∧
      (plain.run ["s.tt", throughLink] ⟨twoWays (.link "../x/y"), []⟩).1 =
        .error (.template (.inTemplate "/out/t.tt" (.nesting (.unterminated [⟨"dir", 1⟩])))) ∧
      (plain.run ["s.tt", throughLink] ⟨twoWays (.link "../x/y"), []⟩).2.files =
        twoWays (.directory []) := by
  have hprepares := prepares_emptyTemplate
  have hstart : plain.start emptyTemplate.files = emptyRun := by cbv
  have htext : (plain.start emptyTemplate.files).readText "/t.tt" = .ok [] := by cbv
  have hfile : (plain.start emptyTemplate.files).canonicalPath "t.tt" = .ok "/t.tt" := by cbv
  have hlong : isTemplate (roundabout 2046) := by decide +kernel
  have hpath : checkPath (roundabout 2046) = .error .nameTooLong := by decide +kernel
  have hthrough : isTemplate throughOutput := by decide
  refine ⟨⟨?_, check_of_not_read hlong ?_⟩, ⟨?_, check_of_not_read hthrough ?_⟩, check_twoWays,
    run_twoWays⟩
  · obtain ⟨events, hrun⟩ := run_of_no_text hprepares hlong
      ((canonicalPath_roundabout _ _).trans hfile) htext
    exact ⟨_, hrun, hstart⟩
  · rw [readText, status, find, hpath]
    rfl
  · have hfile : (plain.start emptyTemplate.files).canonicalPath throughOutput = .ok "/t.tt" := by
      cbv
    obtain ⟨events, hrun⟩ := run_of_no_text hprepares hthrough hfile htext
    exact ⟨_, hrun, hstart⟩
  · cbv

end Generator

end TemplateSuite
