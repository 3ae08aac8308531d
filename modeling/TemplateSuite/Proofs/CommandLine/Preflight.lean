import TemplateSuite.CommandLine.Run
import TemplateSuite.Proofs.Generation.Refusal

namespace TemplateSuite

open StateAction

namespace Making

variable {ε α : Type}

theorem preserves_note (event : Event) : Preserves World.files (note event) := fun _ => rfl

theorem preserves_ofExcept (wrap : ε → SuiteError) (result : Except ε α) :
    Preserves World.files (ofExcept wrap result) := by
  cases result with
  | ok a => exact .pure a
  | error e => exact .throw (wrap e)

theorem preserves_observe (wrap : FileError → SuiteError) (view : FileSystem → Except FileError α) :
    Preserves World.files (observe wrap view) :=
  .get_bind fun _ => preserves_ofExcept wrap _

end Making

theorem Toolchain.preserves_requireTool (searchPath : SearchPath) (command : Text) :
    Preserves World.files (requireTool searchPath command) := by
  refine .get_bind fun w => ?_
  cases find? w.files searchPath (programOf command) with
  | some path => exact Making.preserves_note _
  | none => exact .throw _

namespace Config

theorem preserves_ofFile (path : Text) : Preserves World.files (ofFile path) := by
  refine .bind (Making.preserves_observe _ _) fun text => ?_
  exact .bind (Making.preserves_ofExcept _ _) fun config =>
    .bind (Making.preserves_note _) fun _ => .pure config

theorem preserves_verifyToolchain (config : Config) (searchPath : Toolchain.SearchPath) :
    Preserves World.files (config.verifyToolchain searchPath) :=
  .forM (Toolchain.preserves_requireTool searchPath)

end Config

namespace CommandLine

open Running

variable {α : Type} {searchPath : Toolchain.SearchPath} {options : GenerateOptions}
  {verbose : Bool} {g : Generator} {templates : List Text} {w after : World} {c : Console}

theorem Running.preserves_make (wrap : SuiteError → CommandError) {action : Making α}
    (h : Preserves World.files action) :
    Preserves (fun c : Console => c.world.files) (make wrap action) :=
  fun c => h c.world

theorem Running.make_of_error {wrap : SuiteError → CommandError} {action : Making α}
    {e : SuiteError} (h : action c.world = (.error e, after)) :
    make wrap action c = (.error (wrap e), { c with world := after }) := by
  rw [make, h]
  rfl

theorem Running.make_of_ok {wrap : SuiteError → CommandError} {action : Making α} {a : α}
    (h : action c.world = (.ok a, after)) :
    make wrap action c = (.ok a, { c with world := after }) := by
  rw [make, h]
  rfl

/-- What the command does before the run. -/
def prepare (searchPath : Toolchain.SearchPath) (options : GenerateOptions) :
    Running (Generator × List Text) := do
  let config ← loadConfig options.config
  if options.checksToolchain then make .suite (config.verifyToolchain searchPath)
  let templates ← expandPatterns options.patterns
  return (generatorOf options config, templates)

/-- The run of the command and its report. -/
def generate (options : GenerateOptions) (verbose : Bool) (g : Generator) (templates : List Text) :
    Running Unit := do
  if verbose && !options.json then
    printStep ("Generating from " ++ count templates.length "template")
  let report ← make .suite (g.run templates)
  if options.json then print (Json.writePretty 0 (reportValue report))
  else printReport report

theorem runGenerate_eq (searchPath : Toolchain.SearchPath) (options : GenerateOptions)
    (verbose : Bool) :
    runGenerate searchPath options verbose =
      prepare searchPath options >>= fun run => generate options verbose run.1 run.2 := by
  unfold runGenerate prepare generate
  cases options.checksToolchain <;>
    simp only [bind_assoc, pure_bind, Bool.false_eq_true, if_true, if_false]

theorem preserves_expandPatterns (patterns : List Text) :
    Preserves (fun c : Console => c.world.files) (expandPatterns patterns) := by
  refine .get_bind fun c => ?_
  dsimp only
  split
  · exact .pure _
  · exact .throw _

theorem preserves_prepare (searchPath : Toolchain.SearchPath) (options : GenerateOptions) :
    Preserves (fun c : Console => c.world.files) (prepare searchPath options) := by
  refine .bind (preserves_make _ (Config.preserves_ofFile _)) fun config => ?_
  have hrest : Preserves (fun c : Console => c.world.files)
      (expandPatterns options.patterns >>= fun templates =>
        pure (generatorOf options config, templates)) :=
    .bind (preserves_expandPatterns _) fun _ => .pure _
  split
  · exact .bind (preserves_make _ (config.preserves_verifyToolchain searchPath)) fun _ => hrest
  · exact hrest

theorem generate_of_run_error {e : SuiteError} (h : g.run templates c.world = (.error e, after)) :
    ∃ c', generate options verbose g templates c = (.error (.suite e), c') ∧ c'.world = after := by
  have hmake : ∀ output : Text, make .suite (g.run templates) { c with output } =
      (.error (.suite e), { world := after, output }) := fun _ => make_of_error h
  unfold generate
  split
  · exact ⟨_, (bind_of_ok rfl _).trans (bind_of_error (hmake _) _), rfl⟩
  · exact ⟨_, bind_of_error (hmake c.output) _, rfl⟩

/-- The command fails while it loads its configuration, looks for the tools and expands its patterns,
or its run refuses. -/
inductive FailsEarly (searchPath : Toolchain.SearchPath) (options : GenerateOptions) (w : World) :
    CommandError → Prop
  | preparing {e : CommandError} {c : Console} :
      prepare searchPath options { world := w } = (.error e, c) →
        FailsEarly searchPath options w e
  | refused {e : SuiteError} {g : Generator} {templates : List Text} {c : Console} {after : World} :
      prepare searchPath options { world := w } = (.ok (g, templates), c) →
        g.run templates c.world = (.error e, after) → e.isRefusal →
          FailsEarly searchPath options w (.suite e)

theorem FailsEarly.runGenerate {e : CommandError} (h : FailsEarly searchPath options w e)
    (verbose : Bool) :
    ∃ c, runGenerate searchPath options verbose { world := w } = (.error e, c) ∧
      c.world.files = w.files := by
  have hfiles := preserves_prepare searchPath options { world := w }
  rw [runGenerate_eq]
  cases h with
  | preparing hprepare =>
      rw [hprepare] at hfiles
      exact ⟨_, bind_of_error hprepare _, hfiles⟩
  | refused hprepare hrun hrefusal =>
      rw [hprepare] at hfiles
      obtain ⟨-, rfl⟩ := (Generator.run_eq_refusal_iff hrefusal).mp hrun
      obtain ⟨c', hgenerate, hworld⟩ := generate_of_run_error hrun
      exact ⟨c', (bind_of_ok hprepare _).trans hgenerate, hworld ▸ hfiles⟩

/-- A failure of the command before its run, and a run that refuses, change no file; predefined macros
never fail; a template of the wrong name is reported from the names alone. -/
theorem early_failures_change_no_file :
    (∀ environment searchPath args options verbose w e,
      read environment args = .ok ⟨.generate options, verbose⟩ →
        FailsEarly searchPath options w e → ∃ output after,
          execute environment searchPath args w =
              (⟨1, output, some ("Error: " ++ e.message ++ "\n")⟩, after) ∧
            after.files = w.files) ∧
      ∀ (g : Generator) (templates : List Text),
        (∀ e w after, e.isRefusal → g.run templates w = (.error e, after) → after = w) ∧
        (g.config.validate = .ok () → ∃ macros, g.config.predefinedMacros = .ok macros) ∧
        (∀ cause fault w after, g.run templates w = (.error (.template cause), after) →
          cause.rootCause = .invalidMacro fault → ∃ file inside, cause = .inTemplate file inside) ∧
        (∀ path w after, g.run templates w = (.error (.notATemplate path), after) ↔
          (g.config.validate = .ok () ∧ IsFirstMisnamed templates path) ∧ after = w) ∧
        ∀ path w after, Generator.check templates w = (.error (.notATemplate path), after) ↔
          IsFirstMisnamed templates path ∧ after = w := by
  constructor
  · intro environment searchPath args options verbose w e hread hfails
    obtain ⟨c, hrun, hfiles⟩ := hfails.runGenerate verbose
    have hcommand : run searchPath ⟨.generate options, verbose⟩ { world := w } = (.error e, c) :=
      hrun
    refine ⟨c.output, c.world, ?_, hfiles⟩
    rw [execute, hread]
    simp only [hcommand]
  · intro g templates
    refine ⟨fun e w after hrefusal hrun => ?_, Config.exists_predefinedMacros,
      fun cause fault w after => Generator.inTemplate_of_rootCause, fun path w after => ?_,
      fun path w after => Generator.check_eq_notATemplate_iff⟩
    · exact ((Generator.run_eq_refusal_iff hrefusal).mp hrun).2
    · rw [Generator.run_eq_refusal_iff rfl, Generator.refuses_notATemplate_iff]

def plainText : Text :=
  "\x7b\"compiler\":\"cc\",\"testdir\":\"out\",\"size\":[8,16,32,64]\x7d"

def plainConfig : Config where
  compiler := "cc"
  testDirectory := "out"
  sizes := ⟨8, 16, 32, 64, none, none⟩

/-- The compiler of the configuration is not there. -/
def withoutTools : World where
  files := {
    root := [("c.json", .file (.text plainText) false), ("t.tt", .file (.text "@dir a\n") false)]
    workingDirectory := [] }

def checkingTools : GenerateOptions where
  config := "c.json"
  output := none
  includes := []
  checksToolchain := true
  json := false
  patterns := ["t.tt"]

theorem ofFile_withoutTools : Config.ofFile "c.json" withoutTools =
    (.ok plainConfig, { withoutTools with events := [.loadedConfig "c.json"] }) := by
  have hconfig : Config.ofText (Config.formatOf "c.json") plainText = .ok plainConfig := by
    decide +kernel
  have htext : withoutTools.files.readText "c.json" = .ok plainText := by cbv
  have hread : Making.observe (.configUnreadable "c.json") (·.readText "c.json") withoutTools =
      (.ok plainText, withoutTools) := by
    rw [Making.observe, get_bind_apply, htext]
    rfl
  rw [Config.ofFile, bind_of_ok hread, hconfig]
  rfl

theorem verifyToolchain_withoutTools (events : List Event) :
    plainConfig.verifyToolchain ⟨"/bin", "/"⟩ { withoutTools with events } =
      (.error (.toolNotFound "cc"), { withoutTools with events }) := by
  have hprogram : Toolchain.programOf plainConfig.compiler = "cc" := by decide +kernel
  have hnone : Toolchain.find? withoutTools.files ⟨"/bin", "/"⟩ "cc" = none := by cbv
  refine bind_of_error ?_ _
  rw [Toolchain.requireTool]
  dsimp only
  rw [get_bind_apply, hprogram, hnone]
  rfl

theorem prepare_withoutTools : ∃ c, prepare ⟨"/bin", "/"⟩ checkingTools { world := withoutTools } =
    (.error (.suite (.toolNotFound "cc")), c) := by
  have hload : loadConfig checkingTools.config { world := withoutTools } = (.ok plainConfig, _) :=
    make_of_ok ofFile_withoutTools
  have hverify : make .suite (plainConfig.verifyToolchain ⟨"/bin", "/"⟩)
      { world := { withoutTools with events := [.loadedConfig "c.json"] } } =
        (.error (.suite (.toolNotFound "cc")), _) :=
    make_of_error (verifyToolchain_withoutTools _)
  have hchecks : checkingTools.checksToolchain := rfl
  rw [prepare, bind_of_ok hload, if_pos hchecks]
  exact ⟨_, bind_of_error hverify _⟩

theorem missing_compiler_and_wrong_name_change_no_file :
    (∃ output after,
      execute none ⟨"/bin", "/"⟩ ["generate", "-c", "c.json", "t.tt"] withoutTools =
          (⟨1, output, some "Error: TOOL_NOT_FOUND: 'cc' is not found on PATH\n"⟩, after) ∧
        after.files = withoutTools.files) ∧
      (∃ macros, plainConfig.predefinedMacros = .ok macros) ∧
      (Generator.ofConfig plainConfig).run ["t.tt", "none.tt", "t.txt", "c.json"] withoutTools =
        (.error (.notATemplate "t.txt"), withoutTools) := by
  have hread : read none ["generate", "-c", "c.json", "t.tt"] =
      .ok ⟨.generate checkingTools, false⟩ := by cbv
  obtain ⟨c, hprepare⟩ := prepare_withoutTools
  obtain ⟨-, hmacros, -, hname, -⟩ := early_failures_change_no_file.2 (.ofConfig plainConfig)
    ["t.tt", "none.tt", "t.txt", "c.json"]
  refine ⟨?_, hmacros rfl, (hname _ _ _).mpr ⟨⟨rfl, ["t.tt", "none.tt"], ["c.json"], rfl, ?_, ?_⟩, rfl⟩⟩
  · exact early_failures_change_no_file.1 _ _ _ _ _ _ _ hread (.preparing hprepare)
  · decide
  · decide

end CommandLine

end TemplateSuite
