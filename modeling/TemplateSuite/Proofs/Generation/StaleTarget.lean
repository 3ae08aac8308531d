import TemplateSuite.Proofs.FileSystem.Clearing
import TemplateSuite.Proofs.Generation.Confinement
import TemplateSuite.Proofs.Generation.Definitions
import TemplateSuite.Proofs.Generation.Following
import TemplateSuite.Proofs.Generation.Twins
import TemplateSuite.Proofs.Path.Plain

namespace TemplateSuite

open FileSystem StateAction Processing

/-- Nothing was changed but the entries at and below the top, the record and the events. -/
structure LeavesRest (top : Location) (before after : Progress) : Prop where
  macros : after.macros = before.macros
  opened : after.opened = before.opened
  workingDirectory : after.files.workingDirectory = before.files.workingDirectory
  outside : ∀ place, ¬ top <+: place → after.files.entryAt place = before.files.entryAt place

namespace Refilling

variable {target : Text} {top : Location} {names : List Text} {p q : Progress}

/-- What the action did to the files stays at and below the top. -/
def Keeps (target : Text) (top : Location) (p q : Progress) : Prop :=
  p.files.Enclave target top → KeptOutside top p.files q.files

theorem Keeps.of_eq (h : q.files = p.files) : Keeps target top p q := by
  intro henclave
  rw [h]
  exact .refl henclave.linkFree

theorem Keeps.trans {r : Progress} (hfirst : Keeps target top p q)
    (hsecond : Keeps target top q r) : Keeps target top p r := by
  intro henclave
  have hkept := hfirst henclave
  exact hkept.trans (hsecond (henclave.of_keptOutside hkept))

def contract (target : Text) (top : Location) : Contract where
  done := Keeps target top
  stopped := Keeps target top
  refl _ := .of_eq rfl
  trans := Keeps.trans
  stopped_refl _ := .of_eq rfl
  stopped_after := Keeps.trans

open Contract

theorem holds_change {operation : FileOperation} {path : Text} {action : Change Unit}
    (h : ∀ fs result fs', fs.Enclave target top → action fs = (result, fs') →
      KeptOutside top fs fs') :
    (contract target top).Holds (change operation path action) :=
  Contract.holds_change (fun _ p files hrun henclave => h p.files _ files henclave hrun)
    (fun _ p files hrun henclave => h p.files _ files henclave hrun)

theorem holds_makeDirectories {path : Text} (hpath : Path.Descends target path names) :
    (contract target top).Holds (change .createDirectory path (Change.makeDirectories path)) := by
  refine holds_change fun fs result fs' henclave hrun => ?_
  obtain rfl := congrArg Prod.snd hrun
  exact henclave.keptOutside_makeDirectories hpath

theorem holds_storeFile {file : GeneratedFile} {content : Text}
    (hpath : Path.Descends target file.path names) (hnames : names ≠ []) :
    (contract target top).Holds (storeFile file content) := by
  refine holds_bind (holds_change ?_) fun _ => holds_bind ?_ fun _ => ?_
  · exact fun fs result fs' henclave hrun => keptOutside_writeFile henclave.isTop hpath hnames hrun
  · exact fun p => holdsAt_of_eq_ok rfl (.of_eq rfl)
  · exact fun p => holdsAt_of_eq_ok rfl (.of_eq rfl)

theorem fills (target : Text) (top : Location) :
    (contract target top).Fills ⟨target, [], .standard⟩ where
  remark _ _ _ := .of_eq rfl
  clear directory h := by
    obtain ⟨names, hnames, hdescends⟩ := h.exists_descends
    refine holds_clearPath_of_removal fun operation action hremoval => ?_
    refine holds_change fun fs result fs' henclave hrun => ?_
    exact keptOutside_of_removal henclave.isTop hdescends hnames (hremoval _ _ _ hrun)
  makeDirectories path h := by
    obtain ⟨names, -, hdescends⟩ := h.exists_descends
    exact holds_makeDirectories hdescends
  store file content h := by
    obtain ⟨names, hnames, hdescends⟩ := h.exists_descends
    exact holds_storeFile hdescends fun hnil => hnames (by rw [hnil]; rfl)

theorem holds_generateFile (target : Text) (top : Location) (s : Section) :
    (contract target top).Holds (generateFile target s) := by
  rw [generateFile_eq]
  cases hdirective : directiveOf s with
  | error e => exact holds_throw e
  | ok directive =>
      have hrelative := checkRelative_of_directiveOf hdirective
      have hpath := (Path.Descends.refl target).join hrelative
      have hnames : [] ++ Path.course directive.name ≠ [] :=
        (Path.course_of_checkRelative hrelative).2.1
      rw [ofExcept_ok_bind]
      refine holds_get_bind fun p => ?_
      have hrest : (contract target top).Holds (makeParent (Path.join target directive.name)) := by
        unfold makeParent
        split
        · rename_i parent hparent
          exact holds_makeDirectories (hpath.parent hnames hparent)
        · exact holds_pure ()
      refine holds_bind (holds_ofExcept _ _) (fun content => ?_) p
      exact holds_bind hrest fun _ => holds_storeFile hpath hnames

theorem holds_refill (target : Text) (top : Location) (s : Section) :
    (contract target top).Holds (refill target s) := by
  have hfills := fills target top
  refine holds_bind (holds_makeDirectories (.refl target)) fun _ => ?_
  refine holds_bind (hfills.note rfl) fun _ => ?_
  refine holds_bind (holds_ofExcept _ _) fun items => holds_forM fun item _ => ?_
  refine holds_fillItem item (fun _ => hfills.note) (holds_generateFile target top) ?_
  exact fun inner nested _ hchild => hfills.fillDirectory (.top hchild) inner

end Refilling

variable {root target : Text} {s : Section} {p : Progress} {front : List Text} {name : Text}
  {cleared : FileSystem}

theorem childDirectory_of_isPlain (root : Text) (h : Path.IsPlain (Text.trim s.argument)) :
    childDirectory root s = .ok (Path.join root (Text.trim s.argument)) := by
  rw [childDirectory, if_neg h.ne_nil, h.checkRelative_eq_ok]

theorem fillDirectory_of_clear (h : Change.clear target p.files = (.ok (), cleared)) (s : Section) :
    ∃ events, fillDirectory target s p =
      refill target s { p with files := cleared, events := p.events ++ events } := by
  obtain ⟨events, -, hclear⟩ := clearPath_eq_ok_iff target p
  refine ⟨events, ?_⟩
  rw [fillDirectory_eq_refill, bind_of_ok ((hclear _).mpr ⟨cleared, h, rfl⟩)]

/-- Whatever a directory section does, the macros and the open templates stay as they are, and the
record only grows. -/
theorem generateDirectory_keeps (root : Text) (s : Section) (p : Progress) :
    (generateDirectory root s p).2.macros = p.macros ∧
      (generateDirectory root s p).2.opened = p.opened ∧
        ∃ new, (generateDirectory root s p).2.generated = p.generated ++ new := by
  refine ⟨?_, ?_, ?_⟩
  · exact macrosKept.macros_eq ((macrosKept.fills ⟨root, [], .standard⟩).generateDirectory s) p
  · exact (ClosesAgain.of_holds
      ((ClosesAgain.admits ⟨root, [], .standard⟩).generateDirectory s) p).opened
  · have hbelow := (StaysBelow.admits ⟨root, [], .standard⟩).generateDirectory s p
    obtain ⟨new, -, -, hrecord, -⟩ := (hbelow.done_or_stopped.elim id id).exists_events
    exact ⟨filesOf new, hrecord⟩

theorem fillDirectory_of_refused (h : p.files.Approached target front name)
    (hpath : ¬ Acceptable target) (s : Section) : ∃ events, fillDirectory target s p =
      (.error (.file .createDirectory target (refusal target)),
        { p with events := p.events ++ events }) := by
  obtain ⟨events, hrun⟩ := fillDirectory_of_clear (Change.clear_of_refused h hpath) s
  refine ⟨events ++ [.changing .createDirectory target], ?_⟩
  have hmake := change_of_error (p := { p with events := p.events ++ events })
    (Change.makeDirectories_of_refused h hpath) .createDirectory target
  rw [hrun, refill, bind_of_error hmake, List.append_assoc]

theorem fillDirectory_keepsOutside (h : p.files.Approached target front name) (s : Section) :
    (fillDirectory target s p).2.files.workingDirectory = p.files.workingDirectory ∧
      ∀ place, ¬ p.files.goal target <+: place →
        (fillDirectory target s p).2.files.entryAt place = p.files.entryAt place := by
  by_cases hpath : Acceptable target
  · obtain ⟨cleared, hclear, hcleared⟩ := Change.exists_clear_of_approached h hpath
    obtain ⟨events, hrun⟩ := fillDirectory_of_clear hclear s
    have hkept := (Refilling.holds_refill target (p.files.goal target) s
      { p with files := cleared, events := p.events ++ events }).done_or_stopped.elim id id
      (Change.enclave_of_clearsAll h hcleared)
    rw [hrun]
    refine ⟨hkept.workingDirectory.trans hcleared.removes.workingDirectory, fun place hplace => ?_⟩
    exact (hkept.outside place hplace).trans (hcleared.removes.kept hplace)
  · obtain ⟨events, hrun⟩ := fillDirectory_of_refused h hpath s
    rw [hrun]
    exact ⟨rfl, fun _ _ => rfl⟩

theorem twins_of_fillDirectory {other : FileSystem} {front' : List Text}
    (h : p.files.Approached target front name) (h' : other.Approached target front' name)
    (hpath : Acceptable target) (hdirectory : other.workingDirectory = p.files.workingDirectory)
    (hsame : ∀ place, ¬ p.files.goal target <+: place →
      other.entryAt place = p.files.entryAt place) (s : Section) :
    (fillDirectory target s { p with files := other }).1 = (fillDirectory target s p).1 ∧
      Twins (fillDirectory target s p).2 (fillDirectory target s { p with files := other }).2 := by
  obtain ⟨cleared, hclear, hcleared⟩ := Change.exists_clear_of_approached h hpath
  obtain ⟨cleared', hclear', hcleared'⟩ := Change.exists_clear_of_approached h' hpath
  obtain ⟨events, hrun⟩ := fillDirectory_of_clear hclear s
  obtain ⟨events', hrun'⟩ := fillDirectory_of_clear (p := { p with files := other }) hclear' s
  have hfiles := Change.sameEntries_of_clearsAll hcleared hcleared' hdirectory hsame
  have hagrees := twins_refill target s { p with files := cleared, events := p.events ++ events }
    { p with files := cleared', events := p.events ++ events' } ⟨hfiles, rfl, rfl⟩
  rw [hrun, hrun']
  exact ⟨hagrees.result_eq, hagrees.related⟩

/-- Two file systems differ at most at and below the target of a directory section, whose argument
consists of ordinary names, and in both the directory that the target goes into is there and no link
leads to it. Then the section ends in the same way in both, be it with an error, it puts the same
files on record, and it leaves the same at and below the target. If the system does not take the
path of the target, the section fails in both and changes nothing. Either way nothing else is
changed: neither the entries elsewhere nor the macros nor the open templates. -/
theorem directory_section_forgets_its_target (root : Text) (s : Section) (p : Progress)
    (other : FileSystem) (above : Location) (name : Text)
    (hargument : Path.IsPlain (Text.trim s.argument))
    (hparent : p.files.HasParent (Path.join root (Text.trim s.argument)) above name)
    (hparent' : other.HasParent (Path.join root (Text.trim s.argument)) above name)
    (hdirectory : other.workingDirectory = p.files.workingDirectory)
    (hsame : ∀ place, ¬ above ++ [name] <+: place →
      other.entryAt place = p.files.entryAt place) :
    let target := Path.join root (Text.trim s.argument)
    let first := generateDirectory root s p
    let second := generateDirectory root s { p with files := other }
    second.1 = first.1 ∧
      (∃ new, first.2.generated = p.generated ++ new ∧ second.2.generated = p.generated ++ new) ∧
      (Acceptable target → ∀ place, above ++ [name] <+: place →
        second.2.files.entryAt place = first.2.files.entryAt place) ∧
      (¬ Acceptable target → (∃ e, first.1 = .error (.file .createDirectory target e)) ∧
        first.2.files = p.files ∧ second.2.files = other) ∧
      LeavesRest (above ++ [name]) p first.2 ∧
      LeavesRest (above ++ [name]) { p with files := other } second.2 := by
  intro target
  have hrun : ∀ q, generateDirectory root s q = fillDirectory target s q := by
    intro q
    rw [generateDirectory, childDirectory_of_isPlain root hargument, ofExcept_ok_bind]
  obtain ⟨before, last, hsteps, hname⟩ := hargument.exists_steps_join root
  obtain rfl : last = name := by
    have hlast := hparent.name_eq
    rw [hsteps, List.getLast?_concat] at hlast
    exact Option.some.inj hlast
  obtain ⟨front, h, hgoal⟩ := Approached.of_hasParent hparent hname
  obtain ⟨front', h', hgoal'⟩ := Approached.of_hasParent hparent' hname
  have hkeeps := generateDirectory_keeps root s
  simp only [hrun] at hkeeps ⊢
  obtain ⟨hmacros, hopened, new, hgenerated⟩ := hkeeps p
  obtain ⟨hmacros', hopened', -⟩ := hkeeps { p with files := other }
  obtain ⟨hworking, houtside⟩ := fillDirectory_keepsOutside h s
  obtain ⟨hworking', houtside'⟩ :=
    fillDirectory_keepsOutside (p := { p with files := other }) h' s
  rw [hgoal] at houtside
  rw [hgoal'] at houtside'
  have hrests : LeavesRest (above ++ [last]) p (fillDirectory target s p).2 ∧
      LeavesRest (above ++ [last]) { p with files := other }
        (fillDirectory target s { p with files := other }).2 :=
    ⟨⟨hmacros, hopened, hworking, houtside⟩, ⟨hmacros', hopened', hworking', houtside'⟩⟩
  -- a path that the system refuses is not even cleared
  by_cases hpath : Acceptable target
  · obtain ⟨hresult, htwins⟩ :=
      twins_of_fillDirectory h h' hpath hdirectory (by rwa [hgoal]) s
    refine ⟨hresult, ⟨new, hgenerated, htwins.generated.trans hgenerated⟩,
      fun _ place _ => htwins.files.entryAt_eq place, fun hnot => absurd hpath hnot, hrests⟩
  · obtain ⟨events, hfirst⟩ := fillDirectory_of_refused h hpath s
    obtain ⟨events', hsecond⟩ :=
      fillDirectory_of_refused (p := { p with files := other }) h' hpath s
    rw [hfirst, hsecond] at hrests ⊢
    exact ⟨rfl, ⟨[], (List.append_nil _).symm, (List.append_nil _).symm⟩,
      fun hok => absurd hok hpath, fun _ => ⟨⟨_, rfl⟩, rfl, rfl⟩, hrests⟩

/-- A directory with a file in it, which has been there before. -/
def staleTree : FileSystem where
  root := [("out", .directory [("d", .directory [("stale.txt", .file (.text "x") false)])])]
  workingDirectory := []

/-- A file where the directory was. -/
def staleFile : FileSystem :=
  staleTree.put [("out" : Text), "d"] (.file (.text "x") false)

/-- A section that writes one file. -/
def oneFile : Section :=
  ⟨"dir", "d", "@file x.c $m(1) @file_\n", 1⟩

def withOneMacro (files : FileSystem) : Progress where
  files := files
  macros := ⟨[⟨"$m", "$x", ["$x"]⟩]⟩

theorem run_staleTree : generateDirectory "out" oneFile (withOneMacro staleTree) =
    (.ok (), { withOneMacro staleTree with
      files := {
        root := [("out", .directory [("d", .directory [("x.c", .file (.text "1") false)])])]
        workingDirectory := [] }
      events := [.changing .removeDirectory "out/d", .changing .createDirectory "out/d",
        .createdDirectory "out/d", .changing .createDirectory "out/d",
        .changing .writeFile "out/d/x.c", .generated ⟨"out/d/x.c", none⟩ "1"]
      generated := [⟨"out/d/x.c", none⟩] }) := by
  delta generateDirectory
  simp only [fillDirectory_eq]
  cbv

theorem stale_tree_and_stale_file_give_the_same :
    Path.IsPlain (Text.trim oneFile.argument) ∧ staleTree.HasParent "out/d" ["out"] "d" ∧
      staleFile.HasParent "out/d" ["out"] "d" ∧
        staleFile.workingDirectory = staleTree.workingDirectory ∧
          (∀ place, ¬ [("out" : Text), "d"] <+: place →
            staleFile.entryAt place = staleTree.entryAt place) ∧
          (generateDirectory "out" oneFile (withOneMacro staleFile)).1 = .ok () ∧
            (generateDirectory "out" oneFile (withOneMacro staleFile)).2.files.entryAt
              [("out" : Text), "d", "x.c"] = some (.file (.text "1") false) := by
  have hplain : Path.IsPlain (Text.trim oneFile.argument) := by decide
  have hparent : staleTree.HasParent "out/d" ["out"] "d" := ⟨by cbv, by cbv, by cbv⟩
  have hparent' : staleFile.HasParent "out/d" ["out"] "d" := ⟨by cbv, by cbv, by cbv⟩
  have hsame : ∀ place, ¬ [("out" : Text), "d"] <+: place →
      staleFile.entryAt place = staleTree.entryAt place :=
    fun place hplace => staleTree.entryAt_put_of_not_prefix _ hplace
  have hacceptable : Acceptable "out/d" := by
    refine ⟨by cbv, ?_⟩
    unfold NamesFit
    decide
  obtain ⟨hresult, -, hsubtree, -⟩ := directory_section_forgets_its_target "out" oneFile
    (withOneMacro staleTree) staleFile ["out"] "d" hplain hparent hparent' rfl hsame
  refine ⟨hplain, hparent, hparent', rfl, hsame, ?_, ?_⟩
  · exact hresult.trans (congrArg Prod.fst run_staleTree)
  · refine (hsubtree hacceptable _ ⟨[("x.c" : Text)], rfl⟩).trans ?_
    rw [run_staleTree]
    cbv

/-- An output root that ends with many slashes. -/
def slashedRoot (n : Nat) : Text :=
  "out" ++ List.replicate (n + 1) '/'

theorem join_slashedRoot (n : Nat) : Path.join (slashedRoot n) "d" = slashedRoot n ++ "d" := by
  have hend : Path.endsInSlash (slashedRoot n) = true := by
    rw [Path.endsInSlash, slashedRoot, List.replicate_succ', ← List.append_assoc,
      List.getLast?_concat]
    rfl
  have hne : (slashedRoot n == []) = false := by simp [slashedRoot]
  rw [Path.join, hend, hne]
  rfl

theorem steps_slashedRoot (n : Nat) : steps (slashedRoot n ++ "d") = [("out" : Text), "d"] := by
  have hpieces : Path.pieces (slashedRoot n ++ "d") = [("out" : Text), "d"] := by
    rw [slashedRoot, List.replicate_succ', ← List.append_assoc, List.append_assoc,
      List.singleton_append, Path.pieces_append_slash, Path.pieces_append_slashes]
    decide
  have hend : Path.endsInSlash (slashedRoot n ++ "d") = false := by
    have hlast : (slashedRoot n ++ "d").getLast? = some 'd' := List.getLast?_concat
    rw [Path.endsInSlash, hlast]
    rfl
  rw [Path.steps_eq, hpieces, hend]
  rfl

theorem byteCount_slashes (n : Nat) : Text.byteCount (List.replicate n '/') = n := by
  induction n with
  | zero => rfl
  | succ n ih =>
      rw [List.replicate_succ, Text.byteCount, ih, Nat.add_comm]
      rfl

theorem not_acceptable_slashedRoot {n : Nat} (h : maxPathBytes < n + 5) :
    ¬ Acceptable (slashedRoot n ++ "d") := by
  intro hpath
  have hlength := (checkPath_eq_ok_iff.mp hpath.checkPath_eq).2.2
  have hfront : Text.byteCount "out" = 3 := rfl
  have hback : Text.byteCount "d" = 1 := rfl
  rw [slashedRoot, byteCount_append, byteCount_append, byteCount_slashes, hfront, hback] at hlength
  omega

theorem hasParent_slashedRoot {fs : FileSystem} (n : Nat) (hworking : fs.workingDirectory = [])
    (hout : fs.entryAt [("out" : Text)] = some .directory) :
    fs.HasParent (slashedRoot n ++ "d") [("out" : Text)] "d" := by
  refine ⟨?_, ?_, hout⟩
  · rw [steps_slashedRoot]
    rfl
  · have hstart : startOf fs.workingDirectory (slashedRoot n ++ "d") = [] := by
      rw [hworking, startOf, ite_self]
    have hfits : Fits { followLast := true } [] "out" := fits_of_isName rfl (by decide)
    rw [steps_slashedRoot, hstart]
    exact walk_eq_ok_iff.mpr (.enter hfits hout .arrive)

theorem refused_target_keeps_what_was_there :
    let root := slashedRoot 4091
    let target := Path.join root (Text.trim oneFile.argument)
    let gone := staleTree.erase [("out" : Text), "d"]
    let stale : Location := ["out", "d", "stale.txt"]
    let first := generateDirectory root oneFile (withOneMacro staleTree)
    let second := generateDirectory root oneFile (withOneMacro gone)
    Path.IsPlain (Text.trim oneFile.argument) ∧ staleTree.HasParent target ["out"] "d" ∧
      gone.HasParent target ["out"] "d" ∧ gone.workingDirectory = staleTree.workingDirectory ∧
        (∀ place, ¬ [("out" : Text), "d"] <+: place →
          gone.entryAt place = staleTree.entryAt place) ∧
        second.1 = first.1 ∧ first.2.files.entryAt stale = some (.file (.text "x") false) ∧
          second.2.files.entryAt stale = none := by
  intro root target gone stale first second
  have hplain : Path.IsPlain (Text.trim oneFile.argument) := by decide
  have htrim : Text.trim oneFile.argument = "d" := by decide
  have htarget : target = slashedRoot 4091 ++ "d" := by
    simp only [target, root, htrim, join_slashedRoot]
  have hparent : staleTree.HasParent target ["out"] "d" := by
    rw [htarget]
    exact hasParent_slashedRoot 4091 rfl rfl
  have hparent' : gone.HasParent target ["out"] "d" := by
    rw [htarget]
    exact hasParent_slashedRoot 4091 rfl rfl
  have hrefused : ¬ Acceptable target := by
    rw [htarget]
    exact not_acceptable_slashedRoot (by decide)
  have hrun : ∀ {fs : FileSystem}, fs.HasParent target ["out"] "d" →
      ∃ events, generateDirectory root oneFile (withOneMacro fs) =
        (.error (.file .createDirectory target (refusal target)),
          { withOneMacro fs with events := events }) := by
    intro fs hfs
    obtain ⟨front, happroached, -⟩ := Approached.of_hasParent hfs rfl
    rw [generateDirectory, childDirectory_of_isPlain root hplain, ofExcept_ok_bind]
    exact fillDirectory_of_refused (p := withOneMacro fs) happroached hrefused oneFile
  obtain ⟨events, hfirst⟩ := hrun hparent
  obtain ⟨events', hsecond⟩ := hrun hparent'
  refine ⟨hplain, hparent, hparent', rfl, fun place hplace => ?_, ?_, ?_, ?_⟩
  · exact staleTree.entryAt_erase_of_not_prefix hplace
  · simp only [first, second, hfirst, hsecond]
  · simp only [first, hfirst]
    rfl
  · simp only [second, hsecond]
    rfl

end TemplateSuite
