import TemplateSuite.Proofs.Generation.ErrorChain
import TemplateSuite.Proofs.Generation.Run
import TemplateSuite.Proofs.Macro.Predefined

namespace TemplateSuite

open StateAction

/-- What a run says before it begins. -/
def SuiteError.isRefusal : SuiteError → Bool
  | .configInvalid _ | .noTemplates | .notATemplate _ => true
  | _ => false

/-- The path is not named like a template, and all paths before it are. -/
def IsFirstMisnamed (templates : List Text) (path : Text) : Prop :=
  ∃ front back, templates = front ++ path :: back ∧ (∀ other ∈ front, isTemplate other) ∧
    isTemplate path = false

theorem checkTemplateNames_eq_notATemplate_iff {templates : List Text} {path : Text} :
    checkTemplateNames templates = .error (.notATemplate path) ↔
      IsFirstMisnamed templates path := by
  unfold checkTemplateNames
  constructor
  · intro h
    split at h
    · cases h
    · split at h
      · rename_i found hfound
        cases h
        obtain ⟨hname, front, back, hsplit, hfront⟩ := List.find?_eq_some_iff_append.mp hfound
        exact ⟨front, back, hsplit, fun other hother => by simpa using hfront other hother,
          by simpa using hname⟩
      · cases h
  · rintro ⟨front, back, rfl, hfront, hname⟩
    have hfound : (front ++ path :: back).find? (!isTemplate ·) = some path :=
      List.find?_eq_some_iff_append.mpr ⟨by simp [hname], front, back, rfl,
        fun other hother => by simp [hfront other hother]⟩
    rw [if_neg (List.append_ne_nil_of_right_ne_nil front (List.cons_ne_nil path back)), hfound]

theorem isRefusal_of_checkTemplateNames {templates : List Text} {e : SuiteError}
    (h : checkTemplateNames templates = .error e) : e.isRefusal := by
  unfold checkTemplateNames at h
  split at h
  · cases h
    rfl
  · split at h <;> cases h
    rfl

namespace Making

theorem ofExcept_eq_error_iff {ε α : Type} {wrap : ε → SuiteError} {result : Except ε α}
    {e : SuiteError} {w w' : World} :
    ofExcept wrap result w = (.error e, w') ↔
      ∃ cause, result = .error cause ∧ e = wrap cause ∧ w' = w := by
  cases result with
  | ok a =>
      constructor
      · intro h
        cases h
      · rintro ⟨_, h, -⟩
        cases h
  | error cause =>
      constructor
      · intro h
        cases h
        exact ⟨cause, rfl, rfl, rfl⟩
      · rintro ⟨_, h, rfl, rfl⟩
        cases h
        rfl

theorem exists_of_change_eq_error {α : Type} {wrap : FileError → SuiteError} {action : Change α}
    {e : SuiteError} {w w' : World} (h : change wrap action w = (.error e, w')) :
    ∃ fault, e = wrap fault := by
  unfold change at h
  rcases hresult : action w.files with ⟨fault | a, files⟩
  · rw [hresult] at h
    cases h
    exact ⟨fault, rfl⟩
  · rw [hresult] at h
    cases h

end Making

namespace Processing

theorem Leaves.inTemplate_of_invalidMacro {setup : Setup} {room : Nat} {path : Text}
    {p : Progress} {e : TemplateError} {files : FileSystem} {fault : MacroFault}
    (h : Leaves setup room path p e files) (hroot : e.rootCause = .invalidMacro fault) :
    ∃ file inside, e = .inTemplate file inside := by
  cases h with
  | notRead => cases hroot
  | cycle => cases hroot
  | nesting => exact ⟨_, _, rfl⟩
  | ofSection => exact ⟨_, _, rfl⟩
  | included => exact ⟨_, _, rfl⟩

end Processing

namespace Generator

variable {g : Generator} {templates : List Text} {e : SuiteError} {w w' : World}

/-- The run refuses the configuration or the choice of templates. -/
def Refuses (g : Generator) (templates : List Text) (e : SuiteError) : Prop :=
  (∃ fault, g.config.validate = .error fault ∧ e = .configInvalid fault) ∨
    g.config.validate = .ok () ∧ checkTemplateNames templates = .error e

theorem Refuses.isRefusal (h : g.Refuses templates e) : e.isRefusal := by
  rcases h with ⟨fault, -, rfl⟩ | ⟨-, hnames⟩
  · rfl
  · exact isRefusal_of_checkTemplateNames hnames

theorem Refuses.run (h : g.Refuses templates e) (w : World) :
    g.run templates w = (.error e, w) := by
  rcases h with ⟨fault, hfault, rfl⟩ | ⟨hvalid, hnames⟩
  · rw [Generator.run, hfault]
    rfl
  · rw [Generator.run, hvalid, hnames]
    rfl

/-- The error has come out of the processing of a template. -/
def FailsInTemplate (g : Generator) (cause : TemplateError) : Prop :=
  ∃ path p after, Processing.processFile g.setup path p = (.error cause, after)

theorem failsInTemplate_of_generateFiles {macros : Environment}
    (h : g.generateFiles macros templates w = (.error e, w')) :
    ∃ cause, e = .template cause ∧ g.FailsInTemplate cause := by
  unfold generateFiles at h
  rcases hprocess : processTemplates g.setup templates { w with macros } with ⟨cause | _, after⟩
  · rw [hprocess] at h
    cases h
    rw [processTemplates_eq_forM] at hprocess
    obtain ⟨before, path, rest, p, -, -, hfails⟩ := Processing.exists_of_forM_eq_error hprocess
    rw [Processing.note_bind_apply] at hfails
    exact ⟨cause, rfl, path, _, after, hfails⟩
  · rw [hprocess] at h
    cases h

/-- A run refuses, or it fails to make its directory, or a template fails. -/
theorem run_error_cases (h : g.run templates w = (.error e, w')) :
    (g.Refuses templates e ∧ w' = w) ∨ (∃ fault, e = .file fault) ∨
      ∃ cause, e = .template cause ∧ g.FailsInTemplate cause := by
  rcases bind_eq_error h with hvalidated | ⟨⟨⟩, _, hvalidated, h₁⟩
  · obtain ⟨fault, hfault, rfl, rfl⟩ := Making.ofExcept_eq_error_iff.mp hvalidated
    exact .inl ⟨.inl ⟨fault, hfault, rfl⟩, rfl⟩
  obtain ⟨hvalid, rfl⟩ := Making.ofExcept_eq_ok_iff.mp hvalidated
  rcases bind_eq_error h₁ with hchecked | ⟨⟨⟩, _, hchecked, h₂⟩
  · obtain ⟨cause, hnames, rfl, rfl⟩ := Making.ofExcept_eq_error_iff.mp hchecked
    exact .inl ⟨.inr ⟨hvalid, hnames⟩, rfl⟩
  obtain ⟨hnames, rfl⟩ := Making.ofExcept_eq_ok_iff.mp hchecked
  rcases bind_eq_error h₂ with hmade | ⟨⟨⟩, _, -, h₃⟩
  · exact .inr (.inl (Making.exists_of_change_eq_error hmade))
  rw [Making.note_bind_apply] at h₃
  -- a valid configuration has macros, so this step does not fail
  obtain ⟨macros, hmacros⟩ := Config.exists_predefinedMacros hvalid
  rw [hmacros] at h₃
  rcases bind_eq_error h₃ with hdefined | ⟨_, _, -, h₄⟩
  · cases hdefined
  rw [Making.note_bind_apply] at h₄
  rcases bind_eq_error h₄ with hgenerate | ⟨_, _, -, h₅⟩
  · exact .inr (.inr (failsInTemplate_of_generateFiles hgenerate))
  · cases h₅

/-- A run says that it refuses exactly if it does, and then the world is as before. -/
theorem run_eq_refusal_iff (hrefusal : e.isRefusal) :
    g.run templates w = (.error e, w') ↔ g.Refuses templates e ∧ w' = w := by
  constructor
  · intro h
    rcases run_error_cases h with hrefuses | ⟨fault, rfl⟩ | ⟨cause, rfl, -⟩
    · exact hrefuses
    · cases hrefusal
    · cases hrefusal
  · rintro ⟨hrefuses, rfl⟩
    exact hrefuses.run w'

theorem refuses_notATemplate_iff {path : Text} :
    g.Refuses templates (.notATemplate path) ↔
      g.config.validate = .ok () ∧ IsFirstMisnamed templates path := by
  rw [← checkTemplateNames_eq_notATemplate_iff]
  refine or_iff_right ?_
  rintro ⟨fault, -, h⟩
  cases h

theorem exists_of_checkTemplate_error {path : Text} (h : checkTemplate path w = (.error e, w')) :
    ∃ cause, e = .template cause := by
  rcases bind_eq_error h with hread | ⟨text, _, -, hrest⟩
  · rw [Making.observe, get_bind_apply] at hread
    obtain ⟨fault, -, rfl, -⟩ := Making.ofExcept_eq_error_iff.mp hread
    exact ⟨_, rfl⟩
  · rcases bind_eq_error hrest with hnesting | ⟨⟨⟩, _, -, hnoted⟩
    · obtain ⟨fault, -, rfl, -⟩ := Making.ofExcept_eq_error_iff.mp hnesting
      exact ⟨_, rfl⟩
    · cases hnoted

theorem exists_of_checkTemplates_error (h : (templates.forM checkTemplate) w = (.error e, w')) :
    ∃ cause, e = .template cause := by
  induction templates generalizing w with
  | nil => cases h
  | cons path rest ih =>
      rcases bind_eq_error h with hfirst | ⟨⟨⟩, _, -, hrest⟩
      · exact exists_of_checkTemplate_error hfirst
      · exact ih hrest

theorem check_eq_notATemplate_iff {path : Text} :
    check templates w = (.error (.notATemplate path), w') ↔
      IsFirstMisnamed templates path ∧ w' = w := by
  rw [← checkTemplateNames_eq_notATemplate_iff]
  constructor
  · intro h
    rcases bind_eq_error h with hchecked | ⟨⟨⟩, _, -, hall⟩
    · obtain ⟨cause, hnames, rfl, rfl⟩ := Making.ofExcept_eq_error_iff.mp hchecked
      exact ⟨hnames, rfl⟩
    · obtain ⟨cause, hcause⟩ := exists_of_checkTemplates_error hall
      cases hcause
  · rintro ⟨hnames, rfl⟩
    rw [check, hnames]
    rfl

theorem inTemplate_of_rootCause {cause : TemplateError} {fault : MacroFault}
    (h : g.run templates w = (.error (.template cause), w'))
    (hroot : cause.rootCause = .invalidMacro fault) :
    ∃ file inside, cause = .inTemplate file inside := by
  rcases run_error_cases h with ⟨hrefuses, -⟩ | ⟨_, hfile⟩ | ⟨_, hcause, path, p, after, hfails⟩
  · cases hrefuses.isRefusal
  · cases hfile
  · cases hcause
    rw [Processing.processFile] at hfails
    exact (Processing.leaves_of_error hfails).inTemplate_of_invalidMacro hroot

end Generator

end TemplateSuite
