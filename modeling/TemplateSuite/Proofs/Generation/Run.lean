import TemplateSuite.Generation.Generator
import TemplateSuite.Proofs.Generation.Contract

namespace TemplateSuite

open StateAction Processing

namespace Making

theorem ofExcept_eq_ok_iff {ε α : Type} {wrap : ε → SuiteError} {result : Except ε α} {a : α}
    {w w' : World} : ofExcept wrap result w = (.ok a, w') ↔ result = .ok a ∧ w' = w := by
  cases result with
  | ok value =>
      constructor
      · intro h
        cases h
        exact ⟨rfl, rfl⟩
      · rintro ⟨hvalue, rfl⟩
        cases hvalue
        rfl
  | error e =>
      constructor
      · intro h
        cases h
      · rintro ⟨h, -⟩
        cases h

theorem note_bind_apply {α : Type} (event : Event) (f : Unit → Making α) (w : World) :
    (note event >>= f) w = f () { w with events := w.events ++ [event] } :=
  bind_of_ok rfl f

theorem change_eq_ok_iff {α : Type} {wrap : FileError → SuiteError} {action : Change α} {a : α}
    {w w' : World} : change wrap action w = (.ok a, w') ↔
      ∃ files, action w.files = (.ok a, files) ∧ w' = { w with files } := by
  unfold change
  rcases action w.files with ⟨e | b, files⟩
  · constructor
    · intro h
      cases h
    · rintro ⟨files', h, -⟩
      cases h
  · constructor
    · intro h
      cases h
      exact ⟨files, rfl, rfl⟩
    · rintro ⟨files', h, rfl⟩
      cases h
      rfl

end Making

namespace Generator

theorem processTemplates_eq_forM (setup : Setup) (templates : List Text) :
    processTemplates setup templates = templates.forM fun path =>
      Processing.note (.startingTemplate path) >>= fun _ => processFile setup path := by
  induction templates with
  | nil => rfl
  | cons path rest ih =>
      rw [processTemplates, ih, forM_cons, bind_assoc]

theorem holds_processTemplates {c : Contract} {setup : Setup} (h : c.Admits setup)
    (templates : List Text) : c.Holds (processTemplates setup templates) := by
  rw [processTemplates_eq_forM]
  exact Contract.holds_forM fun path _ =>
    Contract.holds_bind (h.note rfl) fun _ => h.processFile path

/-- Where a run begins to process templates. -/
def start (g : Generator) (fs : FileSystem) : FileSystem :=
  (Change.makeDirectories g.outputDirectory fs).2

/-- Where a run begins to process templates, with the predefined macros. -/
def begun (g : Generator) (templates : List Text) (macros : Environment) (w : World) :
    Progress where
  files := g.start w.files
  events := w.events ++ [.startingRun templates.length g.outputDirectory] ++
    [.predefinedMacros macros.size]
  macros

variable {g : Generator} {templates : List Text} {macros : Environment} {w w' : World}
  {report : Report}

theorem generateFiles_eq_ok_iff {files : List GeneratedFile} :
    g.generateFiles macros templates w = (.ok files, w') ↔
      ∃ after, processTemplates g.setup templates { w with macros } = (.ok (), after) ∧
        files = after.generated ∧ w' = after.toWorld := by
  unfold generateFiles
  rcases processTemplates g.setup templates { w with macros } with ⟨e | _, after⟩
  · constructor
    · intro h
      cases h
    · rintro ⟨after', h, -⟩
      cases h
  · constructor
    · intro h
      cases h
      exact ⟨after, rfl, rfl, rfl⟩
    · rintro ⟨after', h, rfl, rfl⟩
      cases h
      rfl

/-- What a run that succeeds does. -/
theorem run_eq_ok_iff : g.run templates w = (.ok report, w') ↔
    ∃ macros after, g.config.validate = .ok () ∧ checkTemplateNames templates = .ok () ∧
      Change.makeDirectories g.outputDirectory w.files = (.ok (), g.start w.files) ∧
        g.config.predefinedMacros = .ok macros ∧
          processTemplates g.setup templates (g.begun templates macros w) = (.ok (), after) ∧
            report = ⟨g.outputDirectory, templates, after.generated⟩ ∧
              w' = { after.toWorld with
                events := after.events ++ [.finishedRun after.generated.length] } := by
  constructor
  · intro h
    obtain ⟨_, w₁, hvalidated, h₁⟩ := bind_eq_ok h
    obtain ⟨hvalid, rfl⟩ := Making.ofExcept_eq_ok_iff.mp hvalidated
    obtain ⟨_, w₂, hchecked, h₂⟩ := bind_eq_ok h₁
    obtain ⟨hnames, rfl⟩ := Making.ofExcept_eq_ok_iff.mp hchecked
    obtain ⟨_, _, hchange, h₃⟩ := bind_eq_ok h₂
    obtain ⟨files, hmake, rfl⟩ := Making.change_eq_ok_iff.mp hchange
    obtain rfl : g.start w₂.files = files := congrArg Prod.snd hmake
    obtain ⟨_, _, hstarting, h₄⟩ := bind_eq_ok h₃
    cases hstarting
    obtain ⟨macros, _, hdefined, h₅⟩ := bind_eq_ok h₄
    obtain ⟨hmacros, rfl⟩ := Making.ofExcept_eq_ok_iff.mp hdefined
    obtain ⟨_, _, hpredefined, h₆⟩ := bind_eq_ok h₅
    cases hpredefined
    obtain ⟨files, w₃, hgenerate, h₇⟩ := bind_eq_ok h₆
    obtain ⟨after, hprocess, rfl, rfl⟩ := generateFiles_eq_ok_iff.mp hgenerate
    obtain ⟨_, _, hfinished, h₈⟩ := bind_eq_ok h₇
    cases hfinished
    cases h₈
    exact ⟨macros, after, hvalid, hnames, hmake, hmacros, hprocess, rfl, rfl⟩
  · rintro ⟨macros, after, hvalid, hnames, hmake, hmacros, hprocess, rfl, rfl⟩
    have hgenerate : g.generateFiles macros templates (g.begun templates macros w).toWorld =
        (.ok after.generated, after.toWorld) :=
      generateFiles_eq_ok_iff.mpr ⟨after, hprocess, rfl, rfl⟩
    rw [run, bind_of_ok (Making.ofExcept_eq_ok_iff.mpr ⟨hvalid, rfl⟩),
      bind_of_ok (Making.ofExcept_eq_ok_iff.mpr ⟨hnames, rfl⟩),
      bind_of_ok (Making.change_eq_ok_iff.mpr ⟨_, hmake, rfl⟩), Making.note_bind_apply,
      bind_of_ok (Making.ofExcept_eq_ok_iff.mpr ⟨hmacros, rfl⟩), Making.note_bind_apply]
    exact (bind_of_ok hgenerate _).trans (Making.note_bind_apply _ _ _)

end Generator

end TemplateSuite
