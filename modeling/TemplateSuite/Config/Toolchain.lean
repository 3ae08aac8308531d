import TemplateSuite.Generation.Making
import TemplateSuite.Path.Basic

namespace TemplateSuite

namespace Toolchain

/-- Where programs are searched. -/
structure SearchPath where
  /-- The directories, which are separated by colons. -/
  text : Text
  /-- The home directory. -/
  home : Text
  deriving DecidableEq, Repr, Inhabited

/-- The directories of a search path. One that begins with `~` is below the home directory. -/
def SearchPath.directories (searchPath : SearchPath) : List Text :=
  (searchPath.text.splitOn ':').map (Path.expandHome searchPath.home)

/-- The places where a program may be. -/
def candidates (workingDirectory : Text) (searchPath : SearchPath) (program : Text) : List Text :=
  if 1 < (Path.components program).length then [Path.join workingDirectory program]
  else searchPath.directories.map (Path.join · program)

/-- The first place where an executable file of this name is. -/
def find? (fs : FileSystem) (searchPath : SearchPath) (program : Text) : Option Text :=
  (candidates fs.workingDirectory.toPath searchPath program).find? fs.isExecutable

/-- The program that a command starts: its first word. -/
def programOf (command : Text) : Text :=
  (Text.firstWord? command).getD command

/-- Check that the program of a command can be found. -/
def requireTool (searchPath : SearchPath) (command : Text) : Making Unit := do
  let program := programOf command
  match find? (← get).files searchPath program with
  | some path => Making.note (.foundTool program path)
  | none => throw (.toolNotFound program)

end Toolchain

/-- Check that the compiler can be found, and the simulator if there is one. -/
def Config.verifyToolchain (config : Config) (searchPath : Toolchain.SearchPath) : Making Unit :=
  (config.compiler :: config.simulator.toList).forM (Toolchain.requireTool searchPath)

end TemplateSuite
