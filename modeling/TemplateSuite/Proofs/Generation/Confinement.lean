import Mathlib
import TemplateSuite.Proofs.FileSystem.Confinement
import TemplateSuite.Proofs.Generation.OutputPaths

namespace TemplateSuite

open FileSystem Processing

theorem Contract.holds_clearPath_of_removal {c : Contract} {path : Text}
    (h : ∀ operation (action : Change Unit),
      (∀ fs result fs', action fs = (result, fs') → Change.Removal path result fs fs') →
        c.Holds (change operation path action)) :
    c.Holds (clearPath path) := by
  refine holds_get_bind fun p => ?_
  split
  · exact h _ _ (fun _ _ _ => Change.removal_removeTree) p
  · exact h _ _ (fun _ _ _ => Change.removal_removeFile) p
  · exact holds_pure () p

namespace Confinement

variable {root : Text} {top : Location} {p q : Progress}

/-- What the action did to the files is confined to the output root. -/
def Keeps (root : Text) (top : Location) (p q : Progress) : Prop :=
  p.files.IsTop root top → Confined root top p.files q.files

theorem Keeps.of_eq (h : q.files = p.files) : Keeps root top p q := by
  intro htop
  rw [h]
  exact .refl htop.linkFree

theorem Keeps.trans {r : Progress} (hfirst : Keeps root top p q) (hsecond : Keeps root top q r) :
    Keeps root top p r := by
  intro htop
  have hconfined := hfirst htop
  exact .trans htop.linkFree hconfined (hsecond (hconfined.isTop htop))

def contract (root : Text) (top : Location) : Contract where
  done := Keeps root top
  stopped := Keeps root top
  refl _ := .of_eq rfl
  trans := Keeps.trans
  stopped_refl _ := .of_eq rfl
  stopped_after := Keeps.trans

open Contract

theorem holds_change {operation : FileOperation} {path : Text} {action : Change Unit}
    (h : ∀ fs result fs', fs.IsTop root top → action fs = (result, fs') →
      Confined root top fs fs') :
    (contract root top).Holds (change operation path action) :=
  Contract.holds_change (fun _ p files hrun htop => h p.files _ files htop hrun)
    (fun _ p files hrun htop => h p.files _ files htop hrun)

theorem holds_storeFile {file : GeneratedFile} {content : Text} (h : AskedFor root file) :
    (contract root top).Holds (storeFile file content) := by
  obtain ⟨names, hnames, hdescends⟩ := h.exists_descends
  have hne : names ≠ [] := by
    rintro rfl
    exact hnames rfl
  refine holds_bind (holds_change ?_) fun _ => holds_bind ?_ fun _ => ?_
  · exact fun fs result fs' htop hrun => confined_writeFile htop hdescends hne hrun
  · exact fun p => holdsAt_of_eq_ok rfl (.of_eq rfl)
  · exact fun p => holdsAt_of_eq_ok rfl (.of_eq rfl)

theorem admits (setup : Setup) (top : Location) : (contract setup.outputRoot top).Admits setup where
  remark _ _ _ := .of_eq rfl
  define _ _ := .of_eq rfl
  clear directory h := by
    obtain ⟨names, hnames, hdescends⟩ := h.exists_descends
    refine holds_clearPath_of_removal fun operation action hremoval => ?_
    refine holds_change fun fs result fs' htop hrun => ?_
    exact confined_of_removal htop hdescends hnames (hremoval _ _ _ hrun)
  makeDirectories path h := by
    obtain ⟨names, -, hdescends⟩ := h.exists_descends
    refine holds_change fun fs result fs' htop hrun => ?_
    obtain rfl := congrArg Prod.snd hrun
    exact confined_makeDirectories htop hdescends
  store file content h := holds_storeFile h
  visit file p action _ h := by
    refine holdsAt_whileOpen (h _) (fun after hafter => ?_) fun after hafter => ?_
    · exact hafter
    · exact hafter

end Confinement

namespace Request

open Confinement

variable {setup : Setup}

theorem process_confined (request : Request) {p : Progress} {top : Location}
    (htop : p.files.IsTop setup.outputRoot top) :
    Confined setup.outputRoot top p.files (request.process setup p).2.files := by
  have hholds : (contract setup.outputRoot top).Holds (request.process setup) := by
    cases request with
    | file path => exact (admits setup top).processFile path
    | text content => exact (admits setup top).processText content
  rcases hrun : request.process setup p with ⟨e | _, after⟩
  · exact (hholds p).of_error hrun htop
  · exact (hholds p).of_ok hrun htop

/-- If no link is at or below the location that the output root stands for, then, whatever the
template says and whether it succeeds or fails, nothing is changed that is neither there nor below,
except that directories which were missing on the way to the output root may have been made. The
location is the one that the output root leads to, if it leads to one. -/
theorem only_the_output_root_is_touched (setup : Setup) (request : Request) (p : Progress)
    (top : Location) (hroot : p.files.Denotes setup.outputRoot top)
    (hlinks : ∀ place target, top <+: place → p.files.entryAt place ≠ some (.link target)) :
    let after := (request.process setup p).2.files
    (∀ place entry, p.files.status true setup.outputRoot = .ok (place, entry) → place = top) ∧
      after.workingDirectory = p.files.workingDirectory ∧
      (∀ place, ¬ top <+: place → after.entryAt place = p.files.entryAt place ∨
        p.files.entryAt place = none ∧ after.entryAt place = some .directory ∧
          ∃ above ∈ Path.ancestors setup.outputRoot, p.files.Denotes above place) ∧
      ∀ place target, top <+: place → after.entryAt place ≠ some (.link target) := by
  have hconfined := request.process_confined ⟨hroot, hlinks⟩
  refine ⟨fun place entry hstatus => ?_, hconfined.workingDirectory, hconfined.outside,
    hconfined.linkFree⟩
  exact (denotes_of_status hstatus).unique hroot

/-- A directory with a file in it, and a link to the directory. -/
def besideVictim : Progress where
  files := {
    root := [
      ("out", .directory [("link", .link "../victim")]),
      ("victim", .directory [("sub", .directory [("keep.txt", .file (.text "x") false)])])]
    workingDirectory := [] }

theorem file_above_the_output_root_stays :
    let top : Location := ["victim", "sub", "new"]
    let keep : Location := ["victim", "sub", "keep.txt"]
    besideVictim.files.Denotes "victim/sub/new" top ∧
      (∀ place target, top <+: place → besideVictim.files.entryAt place ≠ some (.link target)) ∧
      ((text "@dir a/b\n@dir_\n").process ⟨"victim/sub/new", [], .standard⟩
        besideVictim).2.files.entryAt keep = some (.file (.text "x") false) := by
  intro top keep
  have hroot : besideVictim.files.Denotes "victim/sub/new" top := by
    have hcourse : Path.course "victim/sub/new" = [("victim" : Text), "sub", "new"] := by cbv
    rw [Denotes, hcourse]
    refine .enter rfl ?_ (.enter rfl ?_ (.enter rfl ?_ .arrive))
    all_goals
      intro target hlink
      cases hlink
  have hlinks : ∀ place target, top <+: place →
      besideVictim.files.entryAt place ≠ some (.link target) := by
    rintro _ target ⟨below, rfl⟩ hlink
    cases hlink
  refine ⟨hroot, hlinks, ?_⟩
  obtain ⟨-, -, houtside, -⟩ := only_the_output_root_is_touched ⟨"victim/sub/new", [], .standard⟩
    (text "@dir a/b\n@dir_\n") besideVictim top hroot hlinks
  rcases houtside keep (by decide) with hsame | ⟨hnone, -⟩
  · exact hsame
  · cases hnone

theorem link_below_the_output_root_is_followed :
    let run := (text "@dir link/sub\n@dir_\n").process ⟨"out", [], .standard⟩ besideVictim
    let keep : Location := ["victim", "sub", "keep.txt"]
    besideVictim.files.status true "out" = .ok (["out"], .directory) ∧
      besideVictim.files.entryAt keep = some (.file (.text "x") false) ∧
        run.1 = .ok () ∧ run.2.files.entryAt keep = none := by
  have hrun : (text "@dir link/sub\n@dir_\n").process ⟨"out", [], .standard⟩ besideVictim =
      (.ok (), {
        files := {
          root := [
            ("victim", .directory [("sub", .directory [])]),
            ("out", .directory [("link", .link "../victim")])]
          workingDirectory := [] }
        events := [.handlingSection "dir" 1, .changing .removeDirectory "out/link/sub",
          .changing .createDirectory "out/link/sub", .createdDirectory "out/link/sub"] }) := by
    delta process processText handleText handleItem handleSection generateDirectory
    simp only [fillDirectory_eq]
    cbv
  intro run keep
  refine ⟨by cbv, rfl, ?_, ?_⟩
  · exact congrArg Prod.fst hrun
  · simp only [run, hrun]
    rfl

end Request

end TemplateSuite
