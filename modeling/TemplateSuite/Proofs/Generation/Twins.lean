import TemplateSuite.Proofs.FileSystem.SameEntries
import TemplateSuite.Proofs.Generation.Contract

namespace TemplateSuite

/-- The states agree in the entries of the file system, in the macros and in the record. -/
structure Twins (p q : Progress) : Prop where
  files : FileSystem.SameEntries p.files q.files
  macros : q.macros = p.macros
  generated : q.generated = p.generated

namespace Processing

open FileSystem StateAction

variable {α : Type}

theorem twins_note (event : Event) : Respects Twins (note event) :=
  fun _ _ h => ⟨rfl, h.files, h.macros, h.generated⟩

theorem twins_record (file : GeneratedFile) : Respects Twins (record file) :=
  fun _ _ h => ⟨rfl, h.files, h.macros, congrArg (· ++ [file]) h.generated⟩

theorem twins_ofExcept {ε : Type} (wrap : ε → TemplateError) (result : Except ε α) :
    Respects Twins (ofExcept wrap result) := by
  cases result with
  | ok a => exact .pure a
  | error e => exact .throw (wrap e)

theorem twins_change {action : Change α} (h : Respects SameEntries action)
    (operation : FileOperation) (path : Text) : Respects Twins (change operation path action) := by
  intro p q htwins
  have hfiles := h p.files q.files htwins.files
  refine ⟨?_, hfiles.related, htwins.macros, htwins.generated⟩
  exact congrArg (Except.mapError (TemplateError.file operation path)) hfiles.result_eq

theorem twins_clearPath (path : Text) : Respects Twins (clearPath path) := by
  intro p q h
  refine AgreesAt.get_bind ?_ ?_
  · rw [(h.files.sameOnRoute path).status_eq]
  · split
    · exact twins_change (Change.respects_removeTree path) _ _ p q h
    · exact twins_change (Change.respects_removeFile path) _ _ p q h
    · exact Respects.pure () p q h

theorem twins_makeParent (path : Text) : Respects Twins (makeParent path) := by
  unfold makeParent
  split
  · exact twins_change (Change.respects_makeDirectories _) _ _
  · exact .pure ()

theorem twins_storeFile (file : GeneratedFile) (content : Text) :
    Respects Twins (storeFile file content) :=
  (twins_change (Change.respects_writeFile _ _) _ _).bind fun _ =>
    (twins_note _).bind fun _ => twins_record file

theorem twins_generateFile (directory : Text) (s : Section) :
    Respects Twins (generateFile directory s) := by
  rw [generateFile_eq]
  refine (twins_ofExcept _ _).bind fun directive p q h => ?_
  refine AgreesAt.get_bind (by rw [h.macros]) ?_
  cases directive.call.expand p.macros with
  | error e => exact Respects.throw (TemplateError.expansion e) p q h
  | ok content =>
      rw [ofExcept_ok_bind]
      exact (twins_makeParent _).bind (fun _ => twins_storeFile _ content) p q h

theorem twins_fillItem {fill : Text → Section → Processing Unit} (target : Text) (item : Item)
    (hfill : ∀ inner nested, item = .block inner → Respects Twins (fill nested inner)) :
    Respects Twins (fillItem fill target item) := by
  cases item with
  | text line content =>
      rw [fillItem]
      split
      · exact .pure ()
      · exact twins_note _
  | block inner =>
      rw [fillItem]
      split
      · exact twins_generateFile target inner
      · split
        · exact .pure ()
        · split
          · exact (twins_ofExcept _ _).bind fun nested => hfill inner nested rfl
          · exact twins_note _

/-- What a directory section does once its directory has been cleared away. -/
def refill (target : Text) (s : Section) : Processing Unit := do
  change .createDirectory target (Change.makeDirectories target)
  note (.createdDirectory target)
  let items ← ofExcept .nesting (scan s.body s.bodyLine)
  items.forM (fillItem fillDirectory target)

theorem fillDirectory_eq_refill (target : Text) (s : Section) :
    fillDirectory target s = clearPath target >>= fun _ => refill target s := by
  rw [fillDirectory_eq, recreateDirectory_eq, bind_assoc]
  rfl

theorem twins_refill (target : Text) (s : Section) : Respects Twins (refill target s) := by
  induction s using Section.induction generalizing target with
  | step s ih =>
      refine (twins_change (Change.respects_makeDirectories target) _ _).bind fun _ => ?_
      refine (twins_note _).bind fun _ => ?_
      cases hscan : scan s.body s.bodyLine with
      | error e => exact .throw (TemplateError.nesting e)
      | ok items =>
          rw [ofExcept_ok_bind]
          refine .forM fun item hmem => twins_fillItem target item fun inner nested heq => ?_
          subst heq
          rw [fillDirectory_eq_refill]
          exact (twins_clearPath nested).bind fun _ => ih hscan hmem nested

end Processing

end TemplateSuite
