import TemplateSuite.Proofs.FileSystem.Leftovers
import TemplateSuite.Proofs.Generation.Lookups
import TemplateSuite.Proofs.Generation.OutputPaths

/-!
Following a run. A second run starts with what a first one left. As long as the first one succeeds,
the second one can follow it step by step: every directory section recreates its directory, and from
then on both have the same there.
-/

namespace TemplateSuite

open FileSystem StateAction Processing

/-- No file that is left is in the way of a directory that was recreated, unless the place of the
file is in a directory that was recreated before. -/
def WaysAreClear (left : FileSystem) (history : List Event) : Prop :=
  ∀ before directory after, history = before ++ .createdDirectory directory :: after →
    ∀ place, left.Blocks directory place → ∃ earlier above,
      .createdDirectory earlier ∈ before ∧ left.Denotes earlier above ∧ above <+: place

/-- A run that succeeded: the events before it, its own events and what it left. -/
structure FirstRun where
  setup : Setup
  past : List Event
  history : List Event
  left : FileSystem
  waysAreClear : WaysAreClear left history

/-- What holds of everything that is done in the run. -/
abbrev FirstRun.contract (c : FirstRun) : Contract :=
  StaysBelow.contract c.setup.outputRoot

/-- The second run has come as far as the first one. The directories that are being filled have been
recreated. -/
structure InStep (c : FirstRun) (filling : List Text) (p q : Progress) : Prop where
  macros : q.macros = p.macros
  opened : q.opened = p.opened
  generated : q.generated = p.generated
  since : ∃ new fresh, p.events = c.past ++ new ∧
    (∀ directory, .createdDirectory directory ∈ new → c.left.goal directory ∈ fresh) ∧
      (∀ directory ∈ filling, c.left.goal directory ∈ fresh) ∧
        CatchesUp c.setup.outputRoot c.left fresh p.files q.files
  filling : ∀ directory ∈ filling, p.files.entryAt (c.left.goal directory) = some .directory

variable {α β : Type} {c : FirstRun} {filling more : List Text} {p q : Progress}

/-- Where the action succeeds in the first run, it does the same in the second one. -/
def FollowsAt (c : FirstRun) (filling : List Text) (x : Processing α) (p q : Progress) : Prop :=
  ∀ a p', x p = (.ok a, p') → p'.events <+: c.past ++ c.history →
    ∃ q', x q = (.ok a, q') ∧ InStep c filling p' q'

namespace InStep

theorem mono (h : InStep c filling p q) (hmore : more ⊆ filling) : InStep c more p q := by
  obtain ⟨new, fresh, hevents, hnew, hfilling, hfiles⟩ := h.since
  exact { h with
    since := ⟨new, fresh, hevents, hnew,
      fun directory hmem => hfilling directory (hmore hmem), hfiles⟩
    filling := fun directory hmem => h.filling directory (hmore hmem) }

theorem of_events (h : InStep c filling p q) {events : List Event}
    (hevents : ∀ directory, .createdDirectory directory ∉ events) (others : List Event) :
    InStep c filling { p with events := p.events ++ events } { q with events := others } := by
  obtain ⟨new, fresh, hpast, hnew, hfilling, hfiles⟩ := h.since
  refine { h with since := ⟨new ++ events, fresh, ?_, fun directory hmem => ?_, hfilling, hfiles⟩ }
  · rw [hpast, List.append_assoc]
  · exact hnew directory ((List.mem_append.mp hmem).resolve_right (hevents directory))

theorem of_files (h : InStep c filling p q) {files files' : FileSystem}
    (hfiles : ∀ fresh, (∀ directory ∈ filling, c.left.goal directory ∈ fresh) →
      CatchesUp c.setup.outputRoot c.left fresh p.files q.files →
        CatchesUp c.setup.outputRoot c.left fresh files files')
    (hkept : ∀ place, p.files.entryAt place = some .directory →
      files.entryAt place = some .directory) :
    InStep c filling { p with files } { q with files := files' } := by
  obtain ⟨new, fresh, hpast, hnew, hfilling, hcatches⟩ := h.since
  exact { h with
    since := ⟨new, fresh, hpast, hnew, hfilling, hfiles fresh hfilling hcatches⟩
    filling := fun directory hmem => hkept _ (h.filling directory hmem) }

theorem exists_catchesUp (h : InStep c filling p q) :
    ∃ fresh, (∀ directory ∈ filling, c.left.goal directory ∈ fresh) ∧
      CatchesUp c.setup.outputRoot c.left fresh p.files q.files := by
  obtain ⟨new, fresh, -, -, hfilling, hfiles⟩ := h.since
  exact ⟨fresh, hfilling, hfiles⟩

end InStep

theorem followsAt_pure (h : InStep c filling p q) (a : α) : FollowsAt c filling (pure a) p q := by
  intro b p' hrun _
  cases hrun
  exact ⟨q, rfl, h⟩

theorem followsAt_throw (e : TemplateError) :
    FollowsAt c filling (throw e : Processing α) p q := by
  intro b p' hrun
  cases hrun

theorem FollowsAt.mono {x : Processing α} (h : FollowsAt c filling x p q) (hmore : more ⊆ filling) :
    FollowsAt c more x p q := by
  intro a p' hrun hbegins
  obtain ⟨q', hrun', hinStep⟩ := h a p' hrun hbegins
  exact ⟨q', hrun', hinStep.mono hmore⟩

theorem events_prefix_of_holds {x : Processing α} {p' : Progress} {a : α}
    (h : c.contract.Holds x) (hrun : x p = (.ok a, p')) :
    p.events <+: p'.events := by
  obtain ⟨new, hevents, -⟩ := ((h p).of_ok hrun).exists_events
  exact ⟨new, hevents.symm⟩

theorem followsAt_bind {x : Processing α} {f : α → Processing β} (hx : FollowsAt c filling x p q)
    (hholds : ∀ a, c.contract.Holds (f a))
    (hf : ∀ a p' q', x p = (.ok a, p') → InStep c filling p' q' →
      FollowsAt c more (f a) p' q') : FollowsAt c more (x >>= f) p q := by
  intro b p' hrun hbegins
  obtain ⟨a, between, hfirst, hrest⟩ := bind_eq_ok hrun
  obtain ⟨between', hfirst', hinStep⟩ :=
    hx a between hfirst ((events_prefix_of_holds (hholds a) hrest).trans hbegins)
  rw [bind_of_ok hfirst']
  exact hf a between between' hfirst hinStep b p' hrest hbegins

theorem followsAt_get_bind {f : Progress → Processing α} (hsame : f q = f p)
    (h : FollowsAt c filling (f p) p q) : FollowsAt c filling (get >>= f) p q := by
  intro a p' hrun hbegins
  rw [get_bind_apply] at hrun ⊢
  rw [hsame]
  exact h a p' hrun hbegins

theorem followsAt_note (h : InStep c filling p q) {event : Event}
    (hevent : ∀ directory, event ≠ .createdDirectory directory) :
    FollowsAt c filling (note event) p q := by
  intro a p' hrun _
  cases hrun
  refine ⟨_, rfl, h.of_events (fun directory hmem => ?_) _⟩
  exact hevent directory (List.mem_singleton.mp hmem).symm

/-- Where both see the same, they go on with the same. -/
theorem followsAt_observe_bind {view : FileSystem → Except FileError α} {f : α → Processing β}
    (hview : view q.files = view p.files) (operation : FileOperation) (path : Text)
    (h : ∀ a, view p.files = .ok a → FollowsAt c filling (f a) p q) :
    FollowsAt c filling (observe operation path view >>= f) p q := by
  intro b p' hrun hbegins
  cases hfound : view p.files with
  | error e =>
      cases (bind_of_error (observe_of_error hfound operation path) f).symm.trans hrun
  | ok a =>
      rw [bind_of_ok (observe_of_ok hfound operation path)] at hrun
      rw [bind_of_ok (observe_of_ok (hview.trans hfound) operation path)]
      exact h a hfound b p' hrun hbegins

theorem followsAt_change {operation : FileOperation} {path : Text} {action : Change α}
    (h : InStep c filling p q)
    (haction : ∀ a files fresh, action p.files = (.ok a, files) →
      (∀ directory ∈ filling, c.left.goal directory ∈ fresh) →
        CatchesUp c.setup.outputRoot c.left fresh p.files q.files →
          ∃ files', action q.files = (.ok a, files') ∧
            CatchesUp c.setup.outputRoot c.left fresh files files')
    (hkept : ∀ a files place, action p.files = (.ok a, files) →
      p.files.entryAt place = some .directory → files.entryAt place = some .directory) :
    FollowsAt c filling (change operation path action) p q := by
  intro a p' hrun _
  rcases hfirst : action p.files with ⟨e | b, files⟩
  · cases (change_of_error hfirst operation path).symm.trans hrun
  · cases (change_of_ok hfirst operation path).symm.trans hrun
    obtain ⟨fresh, hfilling, hcatches⟩ := h.exists_catchesUp
    obtain ⟨files', hsecond, -⟩ := haction a files fresh hfirst hfilling hcatches
    refine ⟨_, change_of_ok hsecond operation path, ?_⟩
    have hfiles : InStep c filling { p with files } { q with files := files' } := by
      refine h.of_files (fun fresh hfilling hcatches => ?_) fun place => hkept a files place hfirst
      obtain ⟨other, hother, hsame⟩ := haction a files fresh hfirst hfilling hcatches
      obtain rfl := (Prod.mk.inj (hsecond.symm.trans hother)).2
      exact hsame
    exact hfiles.of_events (by simp) _

theorem change_eq_ok_iff {operation : FileOperation} {path : Text} {action : Change α} {a : α}
    {p' : Progress} : change operation path action p = (.ok a, p') ↔
      ∃ files, action p.files = (.ok a, files) ∧
        p' = { p with files, events := p.events ++ [.changing operation path] } := by
  constructor
  · intro hrun
    rcases haction : action p.files with ⟨e | b, files⟩
    · cases (change_of_error haction operation path).symm.trans hrun
    · cases (change_of_ok haction operation path).symm.trans hrun
      exact ⟨files, rfl, rfl⟩
  · rintro ⟨files, haction, rfl⟩
    exact change_of_ok haction operation path

theorem clearPath_eq_ok_iff (path : Text) (p : Progress) :
    ∃ events, (∀ directory, .createdDirectory directory ∉ events) ∧
      ∀ p', clearPath path p = (.ok (), p') ↔ ∃ files, Change.clear path p.files = (.ok (), files) ∧
        p' = { p with files, events := p.events ++ events } := by
  rw [clearPath, get_bind_apply]
  unfold Change.clear
  rcases p.files.status false path with e | ⟨place, entry⟩
  · refine ⟨[], nofun, fun p' => ⟨fun hrun => ?_, ?_⟩⟩
    · cases hrun
      exact ⟨p.files, rfl, by simp⟩
    · rintro ⟨files, hsame, rfl⟩
      cases hsame
      rw [List.append_nil]
      rfl
  · cases entry with
    | directory => exact ⟨[.changing .removeDirectory path], by simp, fun p' => change_eq_ok_iff⟩
    | file | link => exact ⟨[.changing .removeFile path], by simp, fun p' => change_eq_ok_iff⟩

theorem recreateDirectory_eq_ok_iff (path : Text) (p : Progress) :
    ∃ events, (∀ directory, .createdDirectory directory ∉ events) ∧
      ∀ p', recreateDirectory path p = (.ok (), p') ↔
        ∃ files, Change.renew path p.files = (.ok (), files) ∧
          p' = { p with files, events := p.events ++ events } := by
  obtain ⟨events, hevents, hclear⟩ := clearPath_eq_ok_iff path p
  refine ⟨events ++ [.changing .createDirectory path], by simpa using hevents, fun p' => ?_⟩
  rw [recreateDirectory_eq]
  constructor
  · intro hrun
    obtain ⟨_, between, hcleared, hmade⟩ := bind_eq_ok hrun
    obtain ⟨cleared, hfirst, rfl⟩ := (hclear between).mp hcleared
    obtain ⟨files, hlast, rfl⟩ := change_eq_ok_iff.mp hmade
    refine ⟨files, (bind_of_ok hfirst _).trans hlast, ?_⟩
    rw [List.append_assoc]
  · rintro ⟨files, hrenew, rfl⟩
    obtain ⟨_, cleared, hfirst, hlast⟩ := bind_eq_ok hrenew
    rw [bind_of_ok ((hclear _).mpr ⟨cleared, hfirst, rfl⟩)]
    refine change_eq_ok_iff.mpr ⟨files, hlast, ?_⟩
    rw [List.append_assoc]

variable {target path : Text} {first names : List Text}

/-- What is in the way of a directory that is recreated lies in one that was recreated before. -/
theorem FirstRun.exists_renewed_of_blocks {new events : List Event} {fresh : List Location}
    {place : Location} (hfree : c.left.LinkFree [])
    (hbegins : new ++ events ++ [.createdDirectory target] <+: c.history)
    (hevents : ∀ directory, .createdDirectory directory ∉ events)
    (hnew : ∀ directory, .createdDirectory directory ∈ new → c.left.goal directory ∈ fresh)
    (hblocks : c.left.Blocks target place) : ∃ renewed ∈ fresh, renewed <+: place := by
  obtain ⟨after, hafter⟩ := hbegins
  rw [List.append_assoc, List.singleton_append] at hafter
  obtain ⟨earlier, above, hmem, hdenotes, habove⟩ :=
    c.waysAreClear (new ++ events) target after hafter.symm place hblocks
  obtain rfl := (denotes_iff_goal hfree).mp hdenotes
  exact ⟨_, hnew earlier ((List.mem_append.mp hmem).resolve_right (hevents earlier)), habove⟩

theorem directory_of_renewed {fs fs' : FileSystem}
    (hover : Overlays (Change.renewed fs target) fs fs')
    (htarget : Path.Descends c.setup.outputRoot target first) (hfirst : first ≠ [])
    {place : Location} (hplace : place = fs.goal target ∨
      place.Encloses (fs.goal target) ∧ fs.entryAt place = some .directory) :
    fs'.entryAt place = some .directory := by
  rcases hplace with rfl | ⟨⟨hforth, hne⟩, hdirectory⟩
  · rw [hover.entryAt_eq, Change.renewed, if_pos (goal_mem_way_of_descends htarget hfirst)]
    rfl
  · refine hover.directory (Change.renewed_of_not_prefix fun hback => ?_) hdirectory
    exact hne (hforth.eq_of_length (hforth.length_le.antisymm hback.length_le))

theorem followsAt_recreateDirectory (h : InStep c filling p q)
    (htarget : Path.Descends c.setup.outputRoot target first) (hfirst : first ≠ [])
    (habove : ∀ directory ∈ filling, (c.left.goal directory).Encloses (c.left.goal target)) :
    FollowsAt c (target :: filling)
      (recreateDirectory target >>= fun _ => note (.createdDirectory target)) p q := by
  intro _ p' hrun hbegins
  obtain ⟨_, between, hrecreate, hnote⟩ := bind_eq_ok hrun
  obtain ⟨events, hevents, hiff⟩ := recreateDirectory_eq_ok_iff target p
  obtain ⟨files, hrenew, rfl⟩ := (hiff between).mp hrecreate
  cases hnote
  obtain ⟨new, fresh, hpast, hnew, hfilling, hcatches⟩ := h.since
  have hgoal : c.left.goal target = p.files.goal target :=
    goal_congr hcatches.old_workingDirectory target
  simp only [hpast, List.append_assoc, List.prefix_append_right_inj] at hbegins
  rw [← List.append_assoc] at hbegins
  -- what the first run left in the way stands in a directory that is renewed already
  obtain ⟨files', hrenew', hcatches', hover⟩ := hcatches.renew htarget hfirst hrenew fun place =>
    FirstRun.exists_renewed_of_blocks hcatches.old_linkFree hbegins hevents hnew
  obtain ⟨events', -, hiff'⟩ := recreateDirectory_eq_ok_iff target q
  refine ⟨_, (bind_of_ok ((hiff' _).mpr ⟨files', hrenew', rfl⟩) _).trans rfl, ?_⟩
  rw [← hgoal] at hcatches'
  refine { h with
    since := ⟨new ++ (events ++ [.createdDirectory target]), _, ?_, ?_, ?_, hcatches'⟩
    filling := fun directory hmem => directory_of_renewed hover htarget hfirst ?_ }
  · simp only [hpast, List.append_assoc]
  · intro directory hmem
    rcases List.mem_append.mp hmem with hearlier | hlast
    · exact List.mem_cons_of_mem _ (hnew directory hearlier)
    · have hself := (List.mem_append.mp hlast).resolve_left (hevents directory)
      cases List.mem_singleton.mp hself
      exact List.mem_cons_self
  · exact List.forall_mem_cons.mpr ⟨List.mem_cons_self, fun directory hmem =>
      List.mem_cons_of_mem _ (hfilling directory hmem)⟩
  · rw [← hgoal]
    rcases List.mem_cons.mp hmem with rfl | hearlier
    · exact .inl rfl
    · exact .inr ⟨habove directory hearlier, h.filling directory hearlier⟩

theorem InStep.within (h : InStep c filling p q) {fresh : List Location} (hmem : target ∈ filling)
    (hfresh : ∀ directory ∈ filling, c.left.goal directory ∈ fresh)
    (hcatches : CatchesUp c.setup.outputRoot c.left fresh p.files q.files)
    (htarget : Path.Descends c.setup.outputRoot target first)
    (hpath : Path.Descends c.setup.outputRoot path names) (hbegins : first <+: names) :
    Within p.files c.setup.outputRoot path names fresh first := by
  have hgoal : p.files.goal c.setup.outputRoot ++ first = c.left.goal target := by
    rw [← goal_of_descends _ htarget, goal_congr hcatches.old_workingDirectory]
  exact ⟨hpath, hbegins, hgoal ▸ hfresh target hmem, hgoal ▸ h.filling target hmem⟩

theorem followsAt_makeParent (h : InStep c filling p q) (hmem : target ∈ filling)
    (htarget : Path.Descends c.setup.outputRoot target first) (hfirst : first ≠ [])
    (hpath : Path.Descends c.setup.outputRoot path names) (hbegins : first <+: names.dropLast) :
    FollowsAt c filling (makeParent path) p q := by
  have hparent : names.dropLast ≠ [] := by
    intro hnil
    rw [hnil, List.prefix_nil] at hbegins
    exact hfirst hbegins
  have hnames : names ≠ [] := by
    rintro rfl
    exact hparent rfl
  unfold makeParent
  split
  · rename_i parent hfound
    refine followsAt_change h (fun _ files fresh hrun hfresh hcatches => ?_)
      fun _ files place hrun hentry => ?_
    · have hwithin := h.within hmem hfresh hcatches htarget (hpath.parent hnames hfound) hbegins
      exact hcatches.makeDirectories hwithin hparent hrun
    · have hadds := (Change.makes_makeDirectories parent p.files).kept
      rw [hrun] at hadds
      exact hadds.entries hentry
  · exact followsAt_pure h ()

theorem followsAt_storeFile {file : GeneratedFile} {content : Text} (h : InStep c filling p q)
    (hasked : AskedFor c.setup.outputRoot file) (hmem : target ∈ filling)
    (htarget : Path.Descends c.setup.outputRoot target first)
    (hpath : Path.Descends c.setup.outputRoot file.path names) (hbegins : first <+: names) :
    FollowsAt c filling (storeFile file content) p q := by
  intro _ p' hrun _
  rcases hwrite : Change.writeFile file.path content p.files with ⟨e | _, files⟩
  · cases (bind_of_error (change_of_error hwrite .writeFile file.path) _).symm.trans hrun
  · cases (storeFile_of_ok hwrite).symm.trans hrun
    obtain ⟨new, fresh, hpast, hnew, hfresh, hcatches⟩ := h.since
    obtain ⟨files', hwrite', hcatches'⟩ := hcatches.writeFile
      (h.within hmem hfresh hcatches htarget hpath hbegins) hasked.one_lt_nameCount hwrite
    refine ⟨_, storeFile_of_ok hwrite', { h with generated := ?_, since := ?_, filling := ?_ }⟩
    · rw [h.generated]
    · refine ⟨new ++ [.changing .writeFile file.path, .generated file content], fresh, ?_, ?_,
        hfresh, hcatches'⟩
      · simp only [hpast, List.append_assoc, List.cons_append, List.nil_append]
      · intro directory hcreated
        exact hnew directory (by simpa using hcreated)
    · exact fun directory hin =>
        Change.directory_of_writeFile hasked.one_lt_nameCount hwrite (h.filling directory hin)

theorem followsAt_generateFile (h : InStep c filling p q) (hmem : target ∈ filling)
    (htarget : OutputDirectory c.setup.outputRoot target) (s : Section) :
    FollowsAt c filling (generateFile target s) p q := by
  rw [generateFile_eq]
  cases hdirective : directiveOf s with
  | error e => exact followsAt_throw e
  | ok directive =>
      rw [ofExcept_ok_bind]
      refine followsAt_get_bind (by rw [h.macros]) ?_
      cases directive.call.expand p.macros with
      | error e => exact followsAt_throw _
      | ok content =>
          have hasked := AskedFor.intro htarget hdirective
          obtain ⟨first, hfirst, hdescends⟩ := htarget.exists_descends
          have hrelative := checkRelative_of_directiveOf hdirective
          have hcourse := (Path.course_of_checkRelative hrelative).2.1
          have hpath := hdescends.join hrelative
          have hparent :
              FollowsAt c filling (makeParent (Path.join target directive.name)) p q := by
            refine followsAt_makeParent h hmem hdescends hfirst hpath ?_
            rw [List.dropLast_append_of_ne_nil hcourse]
            exact List.prefix_append _ _
          rw [ofExcept_ok_bind]
          refine followsAt_bind hparent (fun _ => StaysBelow.holds_storeFile hasked) ?_
          exact fun _ p' q' _ h' =>
            followsAt_storeFile h' hasked hmem hdescends hpath (List.prefix_append _ _)

theorem followsAt_forM_after {f : α → Processing Unit} {begun : Progress} {xs : List α}
    (before : List α) (hholds : ∀ x, c.contract.Holds (f x)) (h : InStep c filling p q)
    (hbefore : before.forM f begun = (.ok (), p))
    (hf : ∀ front x back p q, before ++ xs = front ++ x :: back → front.forM f begun = (.ok (), p) →
      InStep c filling p q → FollowsAt c filling (f x) p q) :
    FollowsAt c filling (xs.forM f) p q := by
  induction xs generalizing p q before with
  | nil => exact followsAt_pure h ()
  | cons x rest ih =>
      have hrest : c.contract.Holds (rest.forM f) :=
        Contract.holds_forM fun y _ => hholds y
      rw [forM_cons]
      refine followsAt_bind (hf before x rest p q rfl hbefore h) (fun _ => hrest) ?_
      intro _ p' q' hrun h'
      refine ih (before ++ [x]) h' ?_ (by simpa using hf)
      rw [forM_append, forM_singleton, bind_of_ok hbefore]
      exact hrun

theorem followsAt_forM {f : α → Processing Unit} {xs : List α}
    (hholds : ∀ x, c.contract.Holds (f x)) (h : InStep c filling p q)
    (hf : ∀ front x back p' q', xs = front ++ x :: back → front.forM f p = (.ok (), p') →
      InStep c filling p' q' → FollowsAt c filling (f x) p' q') :
    FollowsAt c filling (xs.forM f) p q :=
  followsAt_forM_after [] hholds h rfl hf

theorem encloses_of_childDirectory {s : Section} {nested : Text} (fs : FileSystem)
    (htarget : OutputDirectory c.setup.outputRoot target)
    (hchild : childDirectory target s = .ok nested) :
    (fs.goal target).Encloses (fs.goal nested) := by
  obtain ⟨first, -, hdescends⟩ := htarget.exists_descends
  obtain ⟨part, hpart, rfl⟩ := exists_join_of_childDirectory hchild
  have hcourse := (Path.course_of_checkRelative hpart).2.1
  rw [goal_of_descends fs hdescends, goal_of_descends fs (hdescends.join hpart),
    ← List.append_assoc]
  exact ⟨List.prefix_append _ _, by simpa using hcourse⟩

theorem followsAt_fillItem {fill : Text → Section → Processing Unit} (h : InStep c filling p q)
    (hmem : target ∈ filling) (htarget : OutputDirectory c.setup.outputRoot target) (item : Item)
    (hfill : ∀ inner nested, item = .block inner → childDirectory target inner = .ok nested →
      FollowsAt c filling (fill nested inner) p q) :
    FollowsAt c filling (fillItem fill target item) p q := by
  cases item with
  | text line content =>
      rw [fillItem]
      split
      · exact followsAt_pure h ()
      · refine followsAt_note h ?_
        intro directory hevent
        cases hevent
  | block inner =>
      rw [fillItem]
      split
      · exact followsAt_generateFile h hmem htarget inner
      · split
        · exact followsAt_pure h ()
        · split
          · cases hchild : childDirectory target inner with
            | error fault => exact followsAt_throw _
            | ok nested => exact hfill inner nested rfl hchild
          · refine followsAt_note h ?_
            intro directory hevent
            cases hevent

theorem followsAt_fillDirectory (h : InStep c filling p q)
    (htarget : OutputDirectory c.setup.outputRoot target)
    (habove : ∀ directory ∈ filling, (c.left.goal directory).Encloses (c.left.goal target))
    (s : Section) : FollowsAt c filling (fillDirectory target s) p q := by
  induction s using Section.induction generalizing target filling p q with
  | step s ih =>
      have hadmits := StaysBelow.admits c.setup
      have hholds : ∀ item, c.contract.Holds (fillItem fillDirectory target item) := fun item =>
        hadmits.fillItem htarget item fun inner nested _ hnested =>
          hadmits.fillDirectory hnested inner
      obtain ⟨first, hfirst, hdescends⟩ := htarget.exists_descends
      have hrecreate := followsAt_recreateDirectory h hdescends hfirst habove
      rw [fillDirectory_eq, ← bind_assoc]
      refine FollowsAt.mono ?_ (List.subset_cons_self target filling)
      refine followsAt_bind hrecreate (fun _ => ?_) fun _ p' q' _ h' => ?_
      · exact Contract.holds_bind (Contract.holds_ofExcept _ _) fun items =>
          Contract.holds_forM fun item _ => hholds item
      · cases hscan : scan s.body s.bodyLine with
        | error e => exact followsAt_throw (.nesting e)
        | ok items =>
            rw [ofExcept_ok_bind]
            refine followsAt_forM hholds h' fun front item back p q hsplit _ h => ?_
            refine followsAt_fillItem h List.mem_cons_self htarget item
              fun inner nested heq hchild => ?_
            subst heq
            have hmem : .block inner ∈ items := by simp [hsplit]
            have hencloses := encloses_of_childDirectory c.left htarget hchild
            refine ih hscan hmem h (.nested htarget hchild) fun directory hin => ?_
            rcases List.mem_cons.mp hin with rfl | houter
            · exact hencloses
            · exact (habove directory houter).trans hencloses

theorem followsAt_generateDirectory (h : InStep c [] p q) (s : Section) :
    FollowsAt c [] (generateDirectory c.setup.outputRoot s) p q := by
  unfold generateDirectory
  cases hchild : childDirectory c.setup.outputRoot s with
  | error fault => exact followsAt_throw _
  | ok target => exact followsAt_fillDirectory h (.top hchild) nofun s

theorem defineMacro_of_ok {s : Section} {m : Macro} (h : Definition.ofSection s = .ok m)
    (p : Progress) : ∃ events, (∀ directory, .createdDirectory directory ∉ events) ∧
      ∀ q : Progress, q.macros = p.macros → defineMacro s q =
        (.ok (), { q with macros := q.macros.define m, events := q.events ++ events }) := by
  refine ⟨.defined m.name m.arity s.line ::
    if p.macros.contains m.name then [.redefined m.name] else [], ?_, fun q hmacros => ?_⟩
  · intro directory
    split <;> simp
  · unfold defineMacro
    rw [h, ofExcept_ok_bind, note_bind_apply, get_bind_apply, ← hmacros]
    refine (bind_of_ok rfl _).trans ?_
    by_cases hcontains : q.macros.contains m.name = true
    · rw [if_pos hcontains, if_pos hcontains, List.append_cons q.events _ [.redefined m.name]]
      rfl
    · rw [if_neg hcontains, if_neg hcontains]
      rfl

theorem followsAt_defineMacro (h : InStep c filling p q) (s : Section) :
    FollowsAt c filling (defineMacro s) p q := by
  intro _ p' hrun _
  cases hdefinition : Definition.ofSection s with
  | error fault =>
      unfold defineMacro at hrun
      rw [hdefinition] at hrun
      cases hrun
  | ok m =>
      obtain ⟨events, hevents, hdefine⟩ := defineMacro_of_ok hdefinition p
      cases (hdefine p rfl).symm.trans hrun
      refine ⟨_, hdefine q h.macros, ?_⟩
      have hsame : InStep c filling { p with macros := p.macros.define m }
          { q with macros := q.macros.define m } := { h with macros := by rw [h.macros] }
      exact hsame.of_events hevents _

/-- The location of the output root. -/
def FirstRun.top (c : FirstRun) : Location :=
  c.left.goal c.setup.outputRoot

theorem InStep.sameOnRoute (h : InStep c filling p q) (hpath : p.files.Avoids c.top path) :
    SameOnRoute p.files q.files path := by
  obtain ⟨fresh, -, hcatches⟩ := h.exists_catchesUp
  refine hcatches.sameOnRoute_of_avoids ?_
  rwa [goal, ← hcatches.old_workingDirectory]

theorem followsAt_includeTemplate {enter : Text → Processing Unit} {s : Section}
    (h : InStep c [] p q) (hholds : ∀ path, c.contract.Holds (enter path))
    (hcandidates : ∀ before candidate after,
      candidates c.setup p.opened (includeTarget s) = before ++ candidate :: after →
        (∀ earlier ∈ before, p.files.isFile earlier = false) → p.files.Avoids c.top candidate)
    (henter : ∀ inner q', resolveInclude c.setup p.opened p.files (includeTarget s) = .ok inner →
      let p' : Progress := { p with events := p.events ++ [.including inner s.line] }
      InStep c [] p' q' → FollowsAt c [] (enter inner) p' q') :
    FollowsAt c [] (includeTemplate c.setup enter s) p q := by
  rw [includeTemplate_eq]
  split
  · exact followsAt_throw _
  · have hresolve : resolveInclude c.setup q.opened q.files (includeTarget s) =
        resolveInclude c.setup p.opened p.files (includeTarget s) := by
      rw [h.opened]
      exact resolveInclude_congr fun before candidate after hsplit hbefore =>
        (h.sameOnRoute (hcandidates before candidate after hsplit hbefore)).isFile_eq
    refine followsAt_get_bind (by rw [hresolve]) ?_
    cases hinner : resolveInclude c.setup p.opened p.files (includeTarget s) with
    | error e => exact followsAt_throw e
    | ok inner =>
        rw [ofExcept_ok_bind]
        refine followsAt_bind (followsAt_note h nofun) (fun _ => hholds inner) ?_
        rintro _ p' q' hnote h'
        cases hnote
        exact henter inner q' hinner h'

theorem followsAt_handleSection {enter : Text → Processing Unit} {s : Section}
    (h : InStep c [] p q) (hholds : ∀ path, c.contract.Holds (enter path))
    (hcandidates : c.setup.table.get? s.tag = some .inclusion → ∀ before candidate after,
      candidates c.setup p.opened (includeTarget s) = before ++ candidate :: after →
        (∀ earlier ∈ before, p.files.isFile earlier = false) → p.files.Avoids c.top candidate)
    (henter : c.setup.table.get? s.tag = some .inclusion → ∀ inner q',
      resolveInclude c.setup p.opened p.files (includeTarget s) = .ok inner →
        InStep c [] (p.including s inner) q' →
          FollowsAt c [] (enter inner) (p.including s inner) q') :
    FollowsAt c [] (handleSection c.setup enter s) p q := by
  have hadmits := StaysBelow.admits c.setup
  unfold handleSection
  split
  · exact followsAt_note h nofun
  · rename_i handler hhandler
    refine followsAt_bind (followsAt_note h nofun) (fun _ => ?_) fun _ p' q' hnote h' => ?_
    · cases handler with
      | definition => exact hadmits.defineMacro s
      | directory => exact hadmits.generateDirectory s
      | inclusion => exact hadmits.includeTemplate hholds s
      | comment => exact Contract.holds_pure ()
    · cases hnote
      cases handler with
      | definition => exact followsAt_defineMacro h' s
      | directory => exact followsAt_generateDirectory h' s
      | inclusion =>
          exact followsAt_includeTemplate h' hholds (hcandidates hhandler) (henter hhandler)
      | comment => exact followsAt_pure h' ()

theorem followsAt_whileOpen {file : Text} {action : Processing Unit} (h : InStep c filling p q)
    (haction : InStep c filling (p.entering file) (q.entering file) →
      FollowsAt c filling action (p.entering file) (q.entering file)) :
    FollowsAt c filling (whileOpen file action) p q := by
  have hentering : InStep c filling (p.entering file) (q.entering file) := by
    have hopened : InStep c filling { p with opened := file :: p.opened }
        { q with opened := file :: q.opened } := { h with opened := by rw [h.opened] }
    exact hopened.of_events (by simp) _
  intro a p' hrun hbegins
  rw [whileOpen_apply] at hrun ⊢
  rcases hfirst : action (p.entering file) with ⟨e | _, after⟩
  · rw [hfirst] at hrun
    cases hrun
  · rw [hfirst] at hrun
    cases hrun
    obtain ⟨after', hsecond, h'⟩ := haction hentering () after hfirst
      ((List.prefix_append _ _).trans hbegins)
    rw [hsecond]
    refine ⟨_, rfl, ?_⟩
    have hclosed : InStep c filling { after with opened := after.opened.tail }
        { after' with opened := after'.opened.tail } := { h' with opened := by rw [h'.opened] }
    exact hclosed.of_events (by simp) _

theorem followsAt_handleText {enter : Text → Processing Unit} {text : Text} (h : InStep c [] p q)
    (hholds : ∀ path, c.contract.Holds (enter path))
    (hsection : ∀ front s back p' q', scan text 1 = .ok (front ++ .block s :: back) →
      front.forM (handleItem c.setup enter) p = (.ok (), p') → InStep c [] p' q' →
        FollowsAt c [] (handleSection c.setup enter s) p' q') :
    FollowsAt c [] (handleText c.setup enter text) p q := by
  unfold handleText
  cases hnesting : checkNesting text with
  | error e => exact followsAt_throw (.nesting e)
  | ok _ =>
      cases hscan : scan text 1 with
      | error e => exact followsAt_throw (.nesting e)
      | ok items =>
          rw [ofExcept_ok_bind, ofExcept_ok_bind]
          refine followsAt_forM ((StaysBelow.admits c.setup).handleItem hholds) h ?_
          intro front item back p' q' hsplit hfront h'
          cases item with
          | text line content => exact followsAt_pure h' ()
          | block s => exact hsection front s back p' q' (hsplit ▸ hscan) hfront h'

theorem followsAt_processFileWithin (room : Nat) (path : Text) (h : InStep c [] p q)
    (hlookups : ∀ files other, LooksUp c.setup room path p files other →
      files.Avoids c.top other) : FollowsAt c [] (processFileWithin c.setup room path) p q := by
  induction room generalizing path p q with
  | zero => exact followsAt_throw _
  | succ room ih =>
      have hholds := (StaysBelow.admits c.setup).processFileWithin room
      have hpath := (h.sameOnRoute (hlookups _ _ .template)).canonicalPath_eq
      rw [processFileWithin, openTemplate_eq]
      refine followsAt_observe_bind hpath _ _ fun file hfile => ?_
      refine followsAt_get_bind (by rw [h.opened]) ?_
      split
      · exact followsAt_throw _
      · have hread := (h.sameOnRoute (hlookups _ _ (.canonical hfile))).readText_eq
        refine followsAt_observe_bind hread _ _ fun text htext => ?_
        refine followsAt_whileOpen h fun hentering => followsAt_handleText hentering hholds ?_
        intro front s back p' q' hscan hfront h'
        have hcomes : ComesTo c.setup (processFileWithin c.setup room) path p s p' :=
          ⟨file, text, front, back, hfile, htext, hscan, hfront⟩
        refine followsAt_handleSection h' hholds ?_ ?_
        · exact fun hhandler before candidate after hcandidates hbefore =>
            hlookups _ _ (.candidate hcomes hhandler hcandidates hbefore)
        · exact fun hhandler inner q' hinner h' => ih inner h' fun files other hother =>
            hlookups files other (.included hcomes hhandler hinner hother)

end TemplateSuite
