import TemplateSuite.Proofs.Generation.Run

namespace TemplateSuite

/-- The progress when the file that a section asks for is about to be included. -/
def Progress.including (p : Progress) (s : Section) (path : Text) : Progress :=
  { p with events := p.events ++ [.handlingSection s.tag s.line] ++ [.including path s.line] }

namespace Processing

/-- The template under the path has the section at top level, and what stands before it is handled
with success and leads to the given progress. -/
def ComesTo (setup : Setup) (enter : Text → Processing Unit) (path : Text) (p : Progress)
    (s : Section) (q : Progress) : Prop :=
  ∃ file text before after, p.files.canonicalPath path = .ok file ∧
    p.files.readText file = .ok text ∧ scan text 1 = .ok (before ++ .block s :: after) ∧
      before.forM (handleItem setup enter) (p.entering file) = (.ok (), q)

/-- The paths tried for an include, in order. -/
def candidates (setup : Setup) (opened : List Text) (target : Text) : List Text :=
  if Path.isAbsolute target then [target]
  else (searchRoots setup opened).map (Path.join · target)

/-- While the template under a path is processed, a path is looked up among the files there are at
that time. -/
inductive LooksUp (setup : Setup) : Nat → Text → Progress → FileSystem → Text → Prop
  | template {room : Nat} {path : Text} {p : Progress} :
      LooksUp setup (room + 1) path p p.files path
  | canonical {room : Nat} {path file : Text} {p : Progress} :
      p.files.canonicalPath path = .ok file → LooksUp setup (room + 1) path p p.files file
  | candidate {room : Nat} {path candidate : Text} {before after : List Text} {p q : Progress}
      {s : Section} :
      ComesTo setup (processFileWithin setup room) path p s q →
        setup.table.get? s.tag = some .inclusion →
          candidates setup q.opened (includeTarget s) = before ++ candidate :: after →
            (∀ earlier ∈ before, q.files.isFile earlier = false) →
              LooksUp setup (room + 1) path p q.files candidate
  | included {room : Nat} {path inner other : Text} {p q : Progress} {s : Section}
      {files : FileSystem} :
      ComesTo setup (processFileWithin setup room) path p s q →
        setup.table.get? s.tag = some .inclusion →
          resolveInclude setup q.opened q.files (includeTarget s) = .ok inner →
            LooksUp setup room inner (q.including s inner) files other →
              LooksUp setup (room + 1) path p files other

variable {setup : Setup} {opened : List Text} {files files' : FileSystem} {target : Text}

theorem find?_congr_of_first {α : Type} {f f' : α → Bool} {xs : List α}
    (h : ∀ before x after, xs = before ++ x :: after → (∀ y ∈ before, f y = false) → f' x = f x) :
    xs.find? f' = xs.find? f := by
  induction xs with
  | nil => rfl
  | cons x rest ih =>
      have hfirst : f' x = f x := h [] x rest rfl nofun
      rw [List.find?_cons, List.find?_cons, hfirst]
      cases hx : f x with
      | true => rfl
      | false =>
          refine ih fun before y after hsplit hbefore => ?_
          refine h (x :: before) y after (congrArg (x :: ·) hsplit) fun z hz => ?_
          rcases List.mem_cons.mp hz with rfl | hmem
          · exact hx
          · exact hbefore z hmem

theorem resolveInclude_congr
    (h : ∀ before candidate after,
      candidates setup opened target = before ++ candidate :: after →
        (∀ earlier ∈ before, files.isFile earlier = false) →
          files'.isFile candidate = files.isFile candidate) :
    resolveInclude setup opened files' target = resolveInclude setup opened files target := by
  have hfind := find?_congr_of_first h
  unfold candidates at hfind
  simp only [resolveInclude, hfind]

theorem LooksUp.of_no_includes {room : Nat} {path file text other : Text} {items : List Item}
    {p : Progress} (hfile : p.files.canonicalPath path = .ok file)
    (htext : p.files.readText file = .ok text) (hscan : scan text 1 = .ok items)
    (hitems : ∀ s, .block s ∈ items → setup.table.get? s.tag ≠ some .inclusion)
    (h : LooksUp setup room path p files other) :
    files = p.files ∧ (other = path ∨ other = file) := by
  have hcomes : ∀ {enter s q}, ComesTo setup enter path p s q →
      setup.table.get? s.tag ≠ some .inclusion := by
    rintro enter s q ⟨file', text', before, after, hfile', htext', hscan', -⟩
    cases hfile.symm.trans hfile'
    cases htext.symm.trans htext'
    cases hscan.symm.trans hscan'
    exact hitems s (List.mem_append_right before List.mem_cons_self)
  cases h with
  | template => exact ⟨rfl, .inl rfl⟩
  | canonical hother => exact ⟨rfl, .inr (Except.ok.inj (hother.symm.trans hfile))⟩
  | candidate hsection hinclusion => exact absurd hinclusion (hcomes hsection)
  | included hsection hinclusion => exact absurd hinclusion (hcomes hsection)

end Processing

namespace Generator

open Processing

/-- While templates are processed in order, a path is looked up among the files there are at that
time. -/
def TemplatesLookUp (setup : Setup) (templates : List Text) (p : Progress) (files : FileSystem)
    (path : Text) : Prop :=
  ∃ before template after q, templates = before ++ template :: after ∧
    processTemplates setup before p = (.ok (), q) ∧
      Processing.LooksUp setup openLimit template
        { q with events := q.events ++ [.startingTemplate template] } files path

/-- In a run of the generator, a path is looked up among the files there are at that time. -/
def LooksUp (g : Generator) (templates : List Text) (w : World) (files : FileSystem)
    (path : Text) : Prop :=
  ∃ macros, g.config.predefinedMacros = .ok macros ∧
    TemplatesLookUp g.setup templates (g.begun templates macros w) files path

variable {g : Generator} {template file text path : Text} {w : World} {items : List Item}
  {files : FileSystem}

theorem LooksUp.of_no_includes (hfile : (g.start w.files).canonicalPath template = .ok file)
    (htext : (g.start w.files).readText file = .ok text) (hscan : scan text 1 = .ok items)
    (hitems : ∀ s, .block s ∈ items → g.setup.table.get? s.tag ≠ some .inclusion)
    (h : g.LooksUp [template] w files path) :
    files = g.start w.files ∧ (path = template ∨ path = file) := by
  obtain ⟨macros, -, before, _, after, p, hsplit, hbefore, hlook⟩ := h
  cases before with
  | nil =>
      cases hsplit
      cases hbefore
      exact Processing.LooksUp.of_no_includes hfile htext hscan hitems hlook
  | cons first rest => cases rest <;> cases hsplit

end Generator

end TemplateSuite
