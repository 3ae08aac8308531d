import Mathlib
import TemplateSuite.Proofs.Generation.Confinement
import TemplateSuite.Proofs.Generation.Following
import TemplateSuite.Proofs.Generation.ReportedFiles

namespace TemplateSuite

open FileSystem StateAction Processing

theorem FileSystem.directory_startOf {fs : FileSystem}
    (hhere : fs.entryAt fs.workingDirectory = some .directory) (path : Text) :
    fs.entryAt (startOf fs.workingDirectory path) = some .directory := by
  unfold startOf
  split
  · exact entryAt_root fs
  · exact hhere

namespace Change

variable {fs fs' : FileSystem} {path : Text}

theorem grounded_of_makeDirectories (hfree : fs.LinkFree [])
    (hhere : fs.entryAt fs.workingDirectory = some .directory)
    (h : makeDirectories path fs = (.ok (), fs')) : fs'.Grounded path := by
  have hadds := makes_makeDirectories path fs
  rw [h] at hadds
  have hbase : fs.entryAt (fs.base path) = some .directory :=
    directory_footing _ (directory_startOf hhere path)
  have hway : ∀ place ∈ fs.way path, fs'.entryAt place = some .directory := by
    by_cases hnil : path = []
    · subst hnil
      intro place hmem
      cases hmem
    · exact (directories_of_makeDirectoriesFrom hfree hnil hbase h).2
  have htop : fs'.entryAt (fs.goal path) = some .directory :=
    directory_arrival (hadds.kept.entries hbase) hway
  refine ⟨hadds.linkFree hfree, ?_, ?_⟩
  · rwa [hadds.way_eq]
  · rwa [hadds.goal_eq]

theorem makeDirectories_of_grounded (h : fs.Grounded path)
    (hacceptable : path ≠ [] → Acceptable path) : makeDirectories path fs = (.ok (), fs) := by
  by_cases hnil : path = []
  · rw [makeDirectories, makeDirectoriesFrom, if_pos hnil]
    rfl
  · rw [makeDirectories, makeDirectoriesFrom_cons hnil,
      makeDirectory_of_directories (hacceptable hnil) h.way]
    dsimp only
    rw [settled, isDirectory_of_directories (hacceptable hnil) h.way, if_pos rfl]

end Change

namespace Generator

variable {g : Generator} {templates : List Text} {macros : Environment} {w w' : World}
  {report : Report}

theorem followsAt_processTemplates {c : FirstRun} {p q : Progress} (h : InStep c [] p q)
    (hlookups : ∀ files path, TemplatesLookUp c.setup templates p files path →
      files.Avoids c.top path) :
    FollowsAt c [] (processTemplates c.setup templates) p q := by
  rw [processTemplates_eq_forM]
  have hholds := StaysBelow.admits c.setup
  refine followsAt_forM (fun path => Contract.holds_bind (hholds.note rfl) fun _ =>
    hholds.processFile path) h ?_
  intro before template after p' q' hsplit hbefore h'
  rw [← processTemplates_eq_forM] at hbefore
  refine followsAt_bind (followsAt_note h' nofun)
    (fun _ => hholds.processFile template) ?_
  rintro _ _ q'' hnote h''
  cases hnote
  exact followsAt_processFileWithin openLimit template h'' fun files path hlook =>
    hlookups files path ⟨before, template, after, p', hsplit, hbefore, hlook⟩

theorem entryAt_of_nothing {here place : Location} {entry : Entry}
    (h : (⟨[], here⟩ : FileSystem).entryAt place = some entry) : entry = .directory := by
  cases place with
  | nil =>
      cases h
      rfl
  | cons name rest => cases h

theorem waysAreClear_of_nothing (here : Location) (history : List Event) :
    WaysAreClear ⟨[], here⟩ history := by
  rintro before directory after - place ⟨-, -, -, -, -, -, -, -, -, content, executable, hfile⟩
  cases entryAt_of_nothing hfile

theorem inStep_of_catchesUp {c : FirstRun} {p q : Progress} {new : List Event}
    (hevents : p.events = c.past ++ new) (hnew : ∀ directory, .createdDirectory directory ∉ new)
    (hmacros : q.macros = p.macros) (hopened : q.opened = p.opened)
    (hgenerated : q.generated = p.generated)
    (hfiles : CatchesUp c.setup.outputRoot c.left [] p.files q.files) : InStep c [] p q where
  macros := hmacros
  opened := hopened
  generated := hgenerated
  since := ⟨new, [], hevents, fun directory hmem => absurd hmem (hnew directory), nofun, hfiles⟩
  filling := nofun

theorem directory_of_ancestor {fs : FileSystem} {root above : Text} (h : fs.Grounded root)
    (hhere : fs.entryAt fs.workingDirectory = some .directory)
    (habove : above ∈ Path.ancestors root) : fs.entryAt (fs.goal above) = some .directory := by
  have hstart := directory_startOf hhere above
  refine directory_arrival (directory_footing _ hstart) fun place hmem => h.way place ?_
  exact Change.way_subset_of_mem_ancestors fs (List.mem_cons_of_mem _ habove) hmem

theorem confined_of_processTemplates {setup : Setup} {p after : Progress}
    (hfree : p.files.LinkFree []) (hrun : processTemplates setup templates p = (.ok (), after)) :
    Confined setup.outputRoot (p.files.goal setup.outputRoot) p.files after.files := by
  have hholds := holds_processTemplates (Confinement.admits setup (p.files.goal setup.outputRoot))
  exact (hholds templates p).of_ok hrun
    ⟨(denotes_iff_goal hfree).mpr rfl, hfree.below List.nil_prefix⟩

theorem entryAt_of_confined {fs fs' : FileSystem} {root : Text} {place : Location}
    (h : Confined root (fs.goal root) fs fs') (hground : fs.Grounded root)
    (hhere : fs.entryAt fs.workingDirectory = some .directory)
    (hplace : ¬ fs.goal root <+: place) : fs'.entryAt place = fs.entryAt place := by
  rcases h.outside place hplace with hsame | ⟨hnone, -, above, habove, hdenotes⟩
  · exact hsame
  · obtain rfl := (denotes_iff_goal hground.linkFree).mp hdenotes
    cases hnone.symm.trans (directory_of_ancestor hground hhere habove)

/-- A run that has left nothing. -/
def leavingNothing (setup : Setup) (past history : List Event) (here : Location) : FirstRun :=
  ⟨setup, past, history, ⟨[], here⟩, waysAreClear_of_nothing _ _⟩

theorem inStep_leavingNothing {setup : Setup} {p : Progress} (history : List Event)
    (hground : p.files.Grounded setup.outputRoot) :
    InStep (leavingNothing setup p.events history p.files.workingDirectory) [] p p := by
  refine inStep_of_catchesUp (List.append_nil _).symm nofun rfl rfl rfl ?_
  exact {
    grounded := hground
    grounded' := hground
    workingDirectory := rfl
    old_linkFree := fun place target _ hlink => by cases entryAt_of_nothing hlink
    old_workingDirectory := rfl
    entryAt_cases := fun place => .inl rfl }

theorem grounded_of_processTemplates {setup : Setup} {p after : Progress}
    (hground : p.files.Grounded setup.outputRoot)
    (hlookups : ∀ files path, TemplatesLookUp setup templates p files path →
      files.Avoids (p.files.goal setup.outputRoot) path)
    (hrun : processTemplates setup templates p = (.ok (), after)) :
    after.files.Grounded setup.outputRoot := by
  have hholds := holds_processTemplates (StaysBelow.admits setup) templates
  obtain ⟨new, hevents, -⟩ := ((hholds p).of_ok hrun).exists_events
  -- the run follows itself where nothing was left
  obtain ⟨_, -, h⟩ := followsAt_processTemplates (inStep_leavingNothing new hground) hlookups ()
    after hrun (hevents ▸ List.prefix_rfl)
  obtain ⟨fresh, -, hafter⟩ := h.exists_catchesUp
  exact hafter.grounded

/-- What a run leaves differs from what it began with below the output directory only. -/
theorem catchesUp_of_confined {fs fs' : FileSystem} {root : Text}
    (h : Confined root (fs.goal root) fs fs') (hground : fs.Grounded root)
    (hground' : fs'.Grounded root) (hhere : fs.entryAt fs.workingDirectory = some .directory) :
    CatchesUp root fs' [] fs fs' where
  grounded := hground
  grounded' := hground'
  workingDirectory := h.workingDirectory
  old_linkFree := hground'.linkFree
  old_workingDirectory := h.workingDirectory
  entryAt_cases := by
    intro place
    by_cases hbelow : (fs.goal root).Encloses place
    · exact .inr ⟨rfl, hbelow, nofun⟩
    · by_cases hplace : fs.goal root <+: place
      · have heq : fs.goal root = place := by
          by_contra hne
          exact hbelow ⟨hplace, hne⟩
        have htop := hground'.top
        rw [goal, h.workingDirectory] at htop
        exact .inl (heq ▸ htop.trans hground.top.symm)
      · exact .inl (entryAt_of_confined h hground hhere hplace)

theorem adds_start (g : Generator) (fs : FileSystem) :
    Change.Adds (g.outputDirectory :: Path.ancestors g.outputDirectory) fs (g.start fs) :=
  Change.makes_makeDirectories g.outputDirectory fs

/-- The second run begins in step with the first one, if nothing has to be made for it. -/
theorem inStep_begun {history events : List Event} {left : FileSystem}
    (hways : WaysAreClear left history) (hstart : g.start left = left)
    (hcatches : CatchesUp g.outputDirectory left [] (g.start w.files) left) :
    InStep ⟨g.setup, w.events, history, left, hways⟩ [] (g.begun templates macros w)
      (g.begun templates macros ⟨left, events⟩) := by
  have hbegun : (g.begun templates macros w).events = w.events ++
      [.startingRun templates.length g.outputDirectory, .predefinedMacros macros.size] :=
    List.append_assoc _ _ _
  refine inStep_of_catchesUp hbegun (by simp) rfl rfl rfl ?_
  change CatchesUp g.outputDirectory left [] (g.start w.files) (g.start left)
  rwa [hstart]

/-- If a run succeeds, there are no links, nothing that is looked up lies below the output directory
or is reached through what is below it, and no file that is left is in the way of a directory that
is recreated (unless it is in one that was recreated before), then a second run gives the same
report and leaves everything as it is. -/
theorem second_run_repeats_the_first {top : Location} {history : List Event}
    (hrun : g.run templates w = (.ok report, w'))
    (hhere : w.files.entryAt w.files.workingDirectory = some .directory)
    (hlinks : ∀ place target, w.files.entryAt place ≠ some (.link target))
    (htop : w.files.Denotes g.outputDirectory top)
    (hlookups : ∀ files path, g.LooksUp templates w files path → files.Avoids top path)
    (hhistory : w'.events = w.events ++ history) (hways : WaysAreClear w'.files history)
    (events : List Event) :
    ∃ w'', g.run templates ⟨w'.files, events⟩ = (.ok report, w'') ∧
      w''.files.workingDirectory = w'.files.workingDirectory ∧
        ∀ place, w''.files.entryAt place = w'.files.entryAt place := by
  obtain ⟨macros, after, hvalid, hnames, hmake, hmacros, hprocess, rfl, rfl⟩ :=
    run_eq_ok_iff.mp hrun
  have hfree : w.files.LinkFree [] := fun place target _ => hlinks place target
  have hadds := adds_start g w.files
  obtain rfl : top = (g.start w.files).goal g.outputDirectory := by
    rw [hadds.goal_eq]
    exact (denotes_iff_goal hfree).mp htop
  -- the first run leaves the way to the output directory, and nothing new outside of it
  have hground : (g.start w.files).Grounded g.outputDirectory :=
    Change.grounded_of_makeDirectories hfree hhere hmake
  have hleft : after.files.Grounded g.outputDirectory :=
    grounded_of_processTemplates hground
      (fun files path hlook => hlookups files path ⟨macros, hmacros, hlook⟩) hprocess
  have hconfined : Confined g.outputDirectory ((g.start w.files).goal g.outputDirectory)
      (g.start w.files) after.files := confined_of_processTemplates hground.linkFree hprocess
  have hcatches : CatchesUp g.outputDirectory after.files [] (g.start w.files) after.files := by
    refine catchesUp_of_confined hconfined hground hleft ?_
    rw [hadds.kept.workingDirectory]
    exact hadds.kept.entries hhere
  -- the second run finds the output directory and follows the first one from there
  have hmake' : Change.makeDirectories g.outputDirectory after.files = (.ok (), after.files) :=
    Change.makeDirectories_of_grounded hleft fun hnil =>
      Change.acceptable_of_makeDirectoriesFrom hfree hnil hmake
  have hstart : g.start after.files = after.files := congrArg Prod.snd hmake'
  have hlookups' : ∀ files path,
      TemplatesLookUp g.setup templates (g.begun templates macros w) files path →
        files.Avoids (after.files.goal g.outputDirectory) path := by
    rw [goal_congr hconfined.workingDirectory]
    exact fun files path hlook => hlookups files path ⟨macros, hmacros, hlook⟩
  obtain ⟨after', hprocess', h'⟩ := followsAt_processTemplates
    (inStep_begun hways hstart hcatches) hlookups' () after hprocess
    ⟨[.finishedRun after.generated.length], hhistory⟩
  obtain ⟨fresh, -, hfinal⟩ := h'.exists_catchesUp
  refine ⟨_, run_eq_ok_iff.mpr ⟨macros, after', hvalid, hnames, ?_, hmacros, hprocess', ?_, rfl⟩,
    hfinal.workingDirectory, fun place => ?_⟩
  · rw [hstart]
    exact hmake'
  · rw [h'.generated]
  · rcases hfinal.entryAt_cases place with hsame | ⟨hsame, -⟩
    · exact hsame
    · exact hsame

/-- A world with one template. -/
def plainWorld (text : Text) : World where
  files := { root := [("t.tt", .file (.text text) false)], workingDirectory := [] }

theorem plain_lookups {text path : Text} {items : List Item} {files : FileSystem}
    (hscan : scan text 1 = .ok items)
    (hitems : ∀ s, .block s ∈ items → SectionTable.standard.get? s.tag ≠ some .inclusion)
    (h : plain.LooksUp ["t.tt"] (plainWorld text) files path) :
    files = plain.start (plainWorld text).files ∧ (path = "t.tt" ∨ path = "/t.tt") := by
  have hfile : (plain.start (plainWorld text).files).canonicalPath "t.tt" = .ok "/t.tt" := by cbv
  have htext : (plain.start (plainWorld text).files).readText "/t.tt" = .ok text := by cbv
  exact h.of_no_includes hfile htext hscan hitems

theorem twoSections_lookups {files : FileSystem} {path : Text}
    (h : plain.LooksUp ["t.tt"] beforeRun files path) : files.Avoids ["out"] path := by
  let items : List Item := [.block ⟨"def", "$m($x)", "$x", 1⟩,
    .block ⟨"dir", "a", "@file x.c $m(1) @file_", 4⟩,
    .block ⟨"dir", "b", "@file y.c $m(2) @file_\n@file ./y.c $m(3) @file_", 7⟩,
    .block ⟨"dir", "a", [], 11⟩]
  have hscan : scan twoSections 1 = .ok items := by cbv
  have hitems : ∀ s, .block s ∈ items → SectionTable.standard.get? s.tag ≠ some .inclusion := by
    intro s hmem
    simp only [items, List.mem_cons, Item.block.injEq, List.not_mem_nil, or_false] at hmem
    rcases hmem with rfl | rfl | rfl | rfl <;> decide
  obtain ⟨rfl, hpath⟩ := plain_lookups hscan hitems h
  have hroute : (plain.start (plainWorld twoSections).files).route path = [[("t.tt" : Text)]] := by
    rcases hpath with rfl | rfl
    · cbv
    · cbv
  intro passed hmem
  rw [hroute, List.mem_singleton] at hmem
  subst hmem
  decide

theorem not_blocks_afterRun {directory name : Text} {place : Location}
    (hsteps : steps directory = [("out" : Text), name]) :
    ¬ afterRun.files.Blocks directory place := by
  rintro ⟨front, step, back, above, hsplit, hback, -, hresolves, rfl, content, executable, hfile⟩
  have hstart : startOf afterRun.files.workingDirectory directory = [] := ite_self []
  rw [hsteps] at hsplit
  rw [hstart] at hresolves
  rcases front with _ | ⟨first, _ | ⟨second, rest⟩⟩
  · cases hsplit
    cases hresolves
    cases hfile
  · cases hsplit
    exact hback rfl
  · cases rest <;> cases hsplit

theorem waysAreClear_afterRun :
    WaysAreClear afterRun.files
      (eventsBefore ++ .generated ⟨"out/b/y.c", none⟩ "2" :: eventsAfter) := by
  rintro before directory after hsplit place hblocks
  have hmem : .createdDirectory directory ∈
      eventsBefore ++ .generated ⟨"out/b/y.c", none⟩ "2" :: eventsAfter :=
    hsplit ▸ List.mem_append_right before List.mem_cons_self
  have hname : directory = "out/a" ∨ directory = "out/b" ∨ directory = "out/a" := by
    simpa [eventsBefore, eventsAfter] using hmem
  have hsteps : steps "out/a" = [("out" : Text), "a"] := by cbv
  have hsteps' : steps "out/b" = [("out" : Text), "b"] := by cbv
  rcases hname with rfl | rfl | rfl
  · cases not_blocks_afterRun hsteps hblocks
  · cases not_blocks_afterRun hsteps' hblocks
  · cases not_blocks_afterRun hsteps hblocks

theorem run_twoSections_repeats :
    plain.run ["t.tt"] beforeRun =
        (.ok ⟨"out", ["t.tt"], [⟨"out/a/x.c", none⟩, ⟨"out/b/y.c", none⟩, ⟨"out/b/./y.c", none⟩]⟩,
          afterRun) ∧
      ∃ again, plain.run ["t.tt"] afterRun =
          (.ok ⟨"out", ["t.tt"],
            [⟨"out/a/x.c", none⟩, ⟨"out/b/y.c", none⟩, ⟨"out/b/./y.c", none⟩]⟩, again) ∧
        ∀ place, again.files.entryAt place = afterRun.files.entryAt place := by
  refine ⟨run_twoSections, ?_⟩
  have hlinks : ∀ place target, beforeRun.files.entryAt place ≠ some (.link target) :=
    entryAt_ne_link (by decide)
  have htop : beforeRun.files.Denotes plain.outputDirectory ["out"] := by
    refine (denotes_iff_goal fun place target _ => hlinks place target).mpr ?_
    cbv
  obtain ⟨again, hagain, -, hentries⟩ := second_run_repeats_the_first run_twoSections rfl hlinks
    htop (fun _ _ => twoSections_lookups) rfl waysAreClear_afterRun afterRun.events
  exact ⟨again, hagain, hentries⟩

/-- A template that leaves a file where it makes a directory first. -/
def clash : Text :=
  "@def $m($x)\n$x\n@def_\n@dir a/b/c\n@dir_\n@dir a\n@file b $m(1) @file_\n@dir_\n"

/-- The path of a template, through a directory that the template makes empty. -/
def detour : Text := "out/a/b/../../../t.tt"

def detourWorld : World where
  files := {
    root := [
      ("out", .directory [("a", .directory [("b", .directory [])])]),
      ("t.tt", .file (.text "@dir a\n@dir_\n") false)]
    workingDirectory := [] }

theorem outside_of_no_includes {g : Generator} {template file text : Text} {w : World}
    {items : List Item} {top : Location}
    (hfile : (g.start w.files).canonicalPath template = .ok file)
    (htext : (g.start w.files).readText file = .ok text) (hscan : scan text 1 = .ok items)
    (hitems : ∀ s, .block s ∈ items → g.setup.table.get? s.tag ≠ some .inclusion)
    (hlinks : (g.start w.files).entries.all fun listed => !listed.2.isLink)
    (htemplate : ¬ top <+: (g.start w.files).goal template)
    (hfileOut : ¬ top <+: (g.start w.files).goal file)
    (files : FileSystem) (path : Text) (h : g.LooksUp [template] w files path) (place : Location)
    (hplace : files.Denotes path place) : ¬ top <+: place := by
  obtain ⟨rfl, hpath⟩ := h.of_no_includes hfile htext hscan hitems
  have hfree : (g.start w.files).LinkFree [] := fun other target _ =>
    entryAt_ne_link hlinks other target
  rw [(denotes_iff_goal hfree).mp hplace]
  rcases hpath with rfl | rfl
  · exact htemplate
  · exact hfileOut

theorem plain_outcomes :
    (plain.run ["t.tt"] (plainWorld clash)).1 = .ok ⟨"out", ["t.tt"], [⟨"out/a/b", none⟩]⟩ ∧
    (plain.run ["t.tt"] (plain.run ["t.tt"] (plainWorld clash)).2).1 =
      .error (.template (.inTemplate "/t.tt"
        (.file .createDirectory "out/a/b/c" .notDirectory))) ∧
    (plain.run [detour] detourWorld).1 = .ok ⟨"out", [detour], []⟩ ∧
    (plain.run [detour] (plain.run [detour] detourWorld).2).1 =
      .error (.template (.file .resolveTemplate detour .notFound)) := by
  obtain ⟨room, hroom⟩ := processFile_eq plain.setup
  delta run generateFiles
  simp only [plain_predefinedMacros, processTemplates, hroom]
  delta openTemplate handleText handleItem handleSection generateDirectory
  simp only [fillDirectory_eq]
  refine ⟨?_, ?_, ?_, ?_⟩
  · cbv
  · cbv
  · cbv
  · cbv

/-- A second run can fail where the first one left a file in the way of a directory, and where the
path of a template leads through the output directory to a file outside of it. -/
theorem second_run_can_fail :
    ((plain.run ["t.tt"] (plainWorld clash)).1 = .ok ⟨"out", ["t.tt"], [⟨"out/a/b", none⟩]⟩ ∧
      (∀ place target, (plainWorld clash).files.entryAt place ≠ some (.link target)) ∧
      (∀ files path, plain.LooksUp ["t.tt"] (plainWorld clash) files path →
        ∀ place, files.Denotes path place → ¬ [("out" : Text)] <+: place) ∧
      (plain.run ["t.tt"] (plain.run ["t.tt"] (plainWorld clash)).2).1 =
        .error (.template (.inTemplate "/t.tt"
          (.file .createDirectory "out/a/b/c" .notDirectory)))) ∧
    (plain.run [detour] detourWorld).1 = .ok ⟨"out", [detour], []⟩ ∧
      (∀ place target, detourWorld.files.entryAt place ≠ some (.link target)) ∧
      (∀ files path, plain.LooksUp [detour] detourWorld files path →
        ∀ place, files.Denotes path place → ¬ [("out" : Text)] <+: place) ∧
      (plain.run [detour] (plain.run [detour] detourWorld).2).1 =
        .error (.template (.file .resolveTemplate detour .notFound)) := by
  obtain ⟨hclash, hclashAgain, hdetour, hdetourAgain⟩ := plain_outcomes
  refine ⟨⟨hclash, entryAt_ne_link (by decide), ?_, hclashAgain⟩, hdetour,
    entryAt_ne_link (by decide), ?_, hdetourAgain⟩
  · have hfile : (plain.start (plainWorld clash).files).canonicalPath "t.tt" = .ok "/t.tt" := by cbv
    have htext : (plain.start (plainWorld clash).files).readText "/t.tt" = .ok clash := by cbv
    have hscan : scan clash 1 = .ok [.block ⟨"def", "$m($x)", "$x", 1⟩,
        .block ⟨"dir", "a/b/c", [], 4⟩, .block ⟨"dir", "a", "@file b $m(1) @file_", 6⟩] := by cbv
    have hgoal : (plain.start (plainWorld clash).files).goal "t.tt" = ["t.tt"] := by cbv
    have hgoal' : (plain.start (plainWorld clash).files).goal "/t.tt" = ["t.tt"] := by cbv
    refine outside_of_no_includes hfile htext hscan ?_ ?_ ?_ ?_
    · intro s hmem
      simp only [List.mem_cons, Item.block.injEq, List.not_mem_nil, or_false] at hmem
      rcases hmem with rfl | rfl | rfl <;> decide
    · cbv
    · rw [hgoal]
      decide
    · rw [hgoal']
      decide
  · have hfile : (plain.start detourWorld.files).canonicalPath detour = .ok "/t.tt" := by cbv
    have htext : (plain.start detourWorld.files).readText "/t.tt" = .ok "@dir a\n@dir_\n" := by cbv
    have hscan : scan "@dir a\n@dir_\n" 1 = .ok [.block ⟨"dir", "a", [], 1⟩] := by cbv
    have hgoal : (plain.start detourWorld.files).goal detour = ["t.tt"] := by cbv
    have hgoal' : (plain.start detourWorld.files).goal "/t.tt" = ["t.tt"] := by cbv
    refine outside_of_no_includes hfile htext hscan ?_ ?_ ?_ ?_
    · intro s hmem
      cases List.mem_singleton.mp hmem
      decide
    · cbv
    · rw [hgoal]
      decide
    · rw [hgoal']
      decide

end Generator

end TemplateSuite
