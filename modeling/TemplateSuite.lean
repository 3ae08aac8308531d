import TemplateSuite.CommandLine.Arguments
import TemplateSuite.CommandLine.Run
import TemplateSuite.Config.Basic
import TemplateSuite.Config.Decode
import TemplateSuite.Config.Encode
import TemplateSuite.Config.Predefined
import TemplateSuite.Config.Read
import TemplateSuite.Config.Toolchain
import TemplateSuite.Document.Json.Reader
import TemplateSuite.Document.Json.Writer
import TemplateSuite.Document.Toml.Number
import TemplateSuite.Document.Toml.Reader
import TemplateSuite.Document.Toml.Scalar
import TemplateSuite.Document.Toml.Table
import TemplateSuite.Document.Value
import TemplateSuite.FileSystem.Basic
import TemplateSuite.FileSystem.Change
import TemplateSuite.FileSystem.Node
import TemplateSuite.FileSystem.Walk
import TemplateSuite.Generation.Directory
import TemplateSuite.Generation.Error
import TemplateSuite.Generation.Event
import TemplateSuite.Generation.Generator
import TemplateSuite.Generation.Making
import TemplateSuite.Generation.SectionTable
import TemplateSuite.Generation.Template
import TemplateSuite.Generation.World
import TemplateSuite.Glob.Pattern
import TemplateSuite.Glob.Search
import TemplateSuite.Macro.Argument
import TemplateSuite.Macro.Basic
import TemplateSuite.Macro.Call
import TemplateSuite.Macro.Environment
import TemplateSuite.Macro.Expansion
import TemplateSuite.Macro.Reference
import TemplateSuite.Main
import TemplateSuite.Path.Basic
import TemplateSuite.Path.Relative
import TemplateSuite.Template.Comment
import TemplateSuite.Template.Definition
import TemplateSuite.Template.Directive
import TemplateSuite.Template.Error
import TemplateSuite.Template.Line
import TemplateSuite.Template.Nesting
import TemplateSuite.Template.Section
import TemplateSuite.Text.Basic
import TemplateSuite.Text.Blank
import TemplateSuite.Text.Digit
import TemplateSuite.Text.Invisible
import TemplateSuite.Text.Lines
import TemplateSuite.Text.Quoted
import TemplateSuite.Proofs.Text.Blank
import TemplateSuite.Proofs.Text.Lines
import TemplateSuite.Proofs.Template.Line
import TemplateSuite.Proofs.Template.WellNested
import TemplateSuite.Proofs.Template.Nesting
import TemplateSuite.Proofs.Template.Scan
import TemplateSuite.Proofs.Traversal
import TemplateSuite.Proofs.Template.SectionTree
import TemplateSuite.Proofs.Macro.Calls
import TemplateSuite.Proofs.Macro.Expansion
import TemplateSuite.Proofs.Macro.ArgumentValues
import TemplateSuite.Proofs.Macro.Locality
import TemplateSuite.Proofs.Generation.Contract
import TemplateSuite.Proofs.FileSystem.Walk
import TemplateSuite.Proofs.Generation.OpenTemplates
import TemplateSuite.Proofs.Generation.Alike
import TemplateSuite.Proofs.Template.Numbering
import TemplateSuite.Proofs.Generation.IncludeChain
import TemplateSuite.Proofs.Template.Concatenation
import TemplateSuite.Proofs.Generation.Inclusion
import TemplateSuite.Proofs.FileSystem.Entries
import TemplateSuite.Proofs.FileSystem.Route
import TemplateSuite.Proofs.StateAction
import TemplateSuite.Proofs.FileSystem.Steps
import TemplateSuite.Proofs.FileSystem.Change
import TemplateSuite.Proofs.Generation.History
import TemplateSuite.Proofs.Generation.ReportedFiles
import TemplateSuite.Proofs.Path.Course
import TemplateSuite.Proofs.Path.Below
import TemplateSuite.Proofs.FileSystem.Resolve
import TemplateSuite.Proofs.FileSystem.Confinement
import TemplateSuite.Proofs.Generation.OutputPaths
import TemplateSuite.Proofs.Generation.Confinement
import TemplateSuite.Proofs.Template.CommentFilter
import TemplateSuite.Proofs.Generation.Comments
import TemplateSuite.Proofs.FileSystem.Acceptable
import TemplateSuite.Proofs.FileSystem.Leftovers
import TemplateSuite.Proofs.Generation.Following
import TemplateSuite.Proofs.Generation.Regeneration
import TemplateSuite.Proofs.Generation.Attempts
import TemplateSuite.Proofs.Generation.Composition
import TemplateSuite.Proofs.Generation.ErrorChain
import TemplateSuite.Proofs.FileSystem.Canonical
import TemplateSuite.Proofs.Generation.Check
import TemplateSuite.Proofs.Text.Reading
import TemplateSuite.Proofs.Macro.Name
import TemplateSuite.Proofs.Macro.Piece
import TemplateSuite.Proofs.Macro.Environment
import TemplateSuite.Proofs.Macro.Predefined
import TemplateSuite.Proofs.Macro.Replacement
import TemplateSuite.Proofs.Macro.NestedCall
import TemplateSuite.Proofs.Text.Decimal
import TemplateSuite.Proofs.Text.Bytes
import TemplateSuite.Proofs.FileSystem.RegularFiles
import TemplateSuite.Proofs.Macro.CallText
import TemplateSuite.Proofs.Template.DefinitionText
import TemplateSuite.Proofs.Template.DirectiveLine
import TemplateSuite.Proofs.Generation.DefinitionTexts
import TemplateSuite.Proofs.Generation.Definitions
import TemplateSuite.Proofs.Generation.Recursion
import TemplateSuite.Proofs.Macro.Substitution
import TemplateSuite.Proofs.Macro.Forwarding
import TemplateSuite.Proofs.Generation.Refusal
import TemplateSuite.Proofs.CommandLine.Preflight
import TemplateSuite.Proofs.Template.LineOffset
import TemplateSuite.Proofs.Template.Blocks
import TemplateSuite.Proofs.Template.CommentTree
import TemplateSuite.Proofs.FileSystem.SameEntries
import TemplateSuite.Proofs.FileSystem.Enclave
import TemplateSuite.Proofs.FileSystem.Clearing
import TemplateSuite.Proofs.Path.Plain
import TemplateSuite.Proofs.Generation.Twins
import TemplateSuite.Proofs.Generation.StaleTarget
import TemplateSuite.Proofs.Macro.WrittenCall
import TemplateSuite.Proofs.Macro.LimitMacros
import TemplateSuite.Proofs.Macro.Brackets
import TemplateSuite.Proofs.Template.DirectiveGrammar
import TemplateSuite.Proofs.Template.SectionBody
import TemplateSuite.Proofs.Template.DefinitionHeading
import TemplateSuite.Proofs.Generation.DefinedBody
import TemplateSuite.Proofs.Template.LineGrammar
import TemplateSuite.Proofs.Template.TrailingBlanks
import TemplateSuite.Proofs.Macro.Occurrence
import TemplateSuite.Proofs.Macro.Places
import TemplateSuite.Proofs.Document.Json.Grammar
import TemplateSuite.Proofs.Document.Json.Reading
import TemplateSuite.Proofs.Document.Json.Writing
import TemplateSuite.Proofs.Config.Drafts
import TemplateSuite.Proofs.Config.RoundTrip
import TemplateSuite.Proofs.Document.Json.Tokens
import TemplateSuite.Proofs.Config.Fields
