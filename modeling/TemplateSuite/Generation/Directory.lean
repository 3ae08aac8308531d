import TemplateSuite.Generation.World
import TemplateSuite.Template.Comment

namespace TemplateSuite

namespace Processing

/-- The directory of a `dir` section that stands in the given directory. -/
def childDirectory (parent : Text) (s : Section) : Except SectionFault Text :=
  let name := Text.trim s.argument
  if name = [] then .error .missingDirectory
  else
    match Path.checkRelative name with
    | .error fault => .error (.unsafePath fault)
    | .ok () => .ok (Path.join parent name)

/-- Remove what is at the path and make an empty directory there. -/
def recreateDirectory (path : Text) : Processing Unit := do
  match (← get).files.status false path with
  | .ok (_, .directory) => change .removeDirectory path (Change.removeTree path)
  | .ok _ => change .removeFile path (Change.removeFile path)
  | .error _ => pure ()
  change .createDirectory path (Change.makeDirectories path)

/-- The text of the directive a `file` section gives: its argument, and its body unless that is
blank. -/
def directiveText (s : Section) : Text :=
  if Text.allBlank s.body then s.argument else s.argument ++ '\n' :: s.body

/-- The directive of a `file` section. -/
def directiveOf (s : Section) : Except TemplateError FileDirective :=
  (FileDirective.parse (directiveText s)).mapError
    (.invalidDirective s.line (Text.trim (directiveText s)) ·)

/-- Write the file that a `file` section asks for below the given directory. -/
def generateFile (directory : Text) (s : Section) : Processing Unit := do
  let directive ← ofExcept id (directiveOf s)
  let content ← ofExcept .expansion (directive.call.expand (← get).macros)
  let path := Path.join directory directive.name
  match Path.parent? path with
  | some parent => change .createDirectory parent (Change.makeDirectories parent)
  | none => pure ()
  change .writeFile path (Change.writeFile path content)
  let file : GeneratedFile := ⟨path, directive.expect⟩
  note (.generated file content)
  record file

/-- Handle one element of a directory section; `fill` handles the directory sections among them. -/
def fillItem (fill : Text → Section → Processing Unit) (target : Text) : Item → Processing Unit
  | .text line content => if Text.allBlank content then pure () else note (.ignoredText line)
  | .block inner => do
    if inner.tag = ("file" : Text) then generateFile target inner
    else if inner.tag = Comment.tag then pure ()
    else if inner.tag = ("dir" : Text) then
      let nested ← ofExcept (.invalidSection inner.tag inner.line) (childDirectory target inner)
      fill nested inner
    else note (.ignoredSection inner.tag inner.line)

/-- Recreate the directory `target` and fill it as the section says. -/
def fillDirectory (target : Text) (s : Section) : Processing Unit := do
  recreateDirectory target
  note (.createdDirectory target)
  match _hscan : scan s.body s.bodyLine with
  | .error e => throw (.nesting e)
  | .ok items =>
    -- the sections inside have shorter bodies
    items.attach.forM fun
      | ⟨.text line content, _⟩ => fillItem (fun _ _ => pure ()) target (.text line content)
      | ⟨.block inner, _hmem⟩ =>
        fillItem (fun nested _ => fillDirectory nested inner) target (.block inner)
termination_by s.body.length
decreasing_by exact length_body_lt_of_mem_scan _hscan _hmem

/-- Every element is handled with `fillDirectory` itself. -/
theorem fillDirectory_eq (target : Text) (s : Section) :
    fillDirectory target s = (do
      recreateDirectory target
      note (.createdDirectory target)
      let items ← ofExcept .nesting (scan s.body s.bodyLine)
      items.forM (fillItem fillDirectory target)) := by
  rw [fillDirectory]
  congr 1
  funext _
  congr 1
  funext _
  split
  next e hscan =>
    rw [hscan]
    rfl
  next items hscan =>
    rw [hscan]
    simp only [ofExcept, pure_bind]
    conv => rhs; rw [← List.attach_map_subtype_val items]
    rw [List.forM_eq_forM, List.forM_eq_forM, List.forM_map]
    congr 1
    funext ⟨item, hmem⟩
    cases item <;> rfl

/-- Handle a `dir` section at top level: its directory is below the output root. -/
def generateDirectory (outputRoot : Text) (s : Section) : Processing Unit := do
  let target ← ofExcept (.invalidSection s.tag s.line) (childDirectory outputRoot s)
  fillDirectory target s

end Processing

end TemplateSuite
