import Schemata.Codec.Decode
import Schemata.Codec.Encode
import Schemata.Codec.Value
import Schemata.Command.Invocation
import Schemata.Command.Option
import Schemata.Command.Run
import Schemata.Component
import Schemata.Decimal.Double
import Schemata.Decimal.Notation
import Schemata.Decimal.Round
import Schemata.Decimal.Shortest
import Schemata.Diagnostic
import Schemata.Emit.Backend
import Schemata.Emit.Code
import Schemata.Emit.Name
import Schemata.Json.Basic
import Schemata.Json.Parser
import Schemata.Json.Printer
import Schemata.Main
import Schemata.Namespace
import Schemata.Naming.Casing
import Schemata.Naming.Reserved
import Schemata.Naming.Words
import Schemata.Number
import Schemata.Package
import Schemata.Path
import Schemata.Primitive
import Schemata.Project.Build
import Schemata.Project.Compile
import Schemata.Project.Config
import Schemata.Project.Discover
import Schemata.Project.Error
import Schemata.Project.FileTree
import Schemata.Project.Select
import Schemata.Proofs.Codec.Choice
import Schemata.Proofs.Codec.Content
import Schemata.Proofs.Codec.Descent
import Schemata.Proofs.Codec.Dispatch
import Schemata.Proofs.Codec.Encode
import Schemata.Proofs.Codec.Entry
import Schemata.Proofs.Codec.Inhabited
import Schemata.Proofs.Codec.Key
import Schemata.Proofs.Codec.Location
import Schemata.Proofs.Codec.Object
import Schemata.Proofs.Codec.Placement
import Schemata.Proofs.Codec.Presence
import Schemata.Proofs.Codec.RoundTrip
import Schemata.Proofs.Codec.Soundness
import Schemata.Proofs.Codec.Typing
import Schemata.Proofs.Component.Invariant
import Schemata.Proofs.Component.Search
import Schemata.Proofs.Decimal.Finite
import Schemata.Proofs.Emit.Account
import Schemata.Proofs.Emit.Code
import Schemata.Proofs.Emit.Line
import Schemata.Proofs.Except
import Schemata.Proofs.Json.DistinctKeys
import Schemata.Proofs.Naming.Capital
import Schemata.Proofs.Naming.Idempotence
import Schemata.Proofs.Naming.Legal
import Schemata.Proofs.Naming.Namespace
import Schemata.Proofs.Naming.Segment
import Schemata.Proofs.Naming.Spelling
import Schemata.Proofs.Naming.Words
import Schemata.Proofs.Number.Literal
import Schemata.Proofs.Package.Maximum
import Schemata.Proofs.Package.Notation
import Schemata.Proofs.Package.Selection
import Schemata.Proofs.Project.Build
import Schemata.Proofs.Project.Discover
import Schemata.Proofs.Project.FileTree
import Schemata.Proofs.Project.Identity
import Schemata.Proofs.Project.Path
import Schemata.Proofs.Project.Plan
import Schemata.Proofs.Resolve.Address
import Schemata.Proofs.Resolve.Arena
import Schemata.Proofs.Resolve.Assembly
import Schemata.Proofs.Resolve.Checked
import Schemata.Proofs.Resolve.Convert
import Schemata.Proofs.Resolve.Cycle
import Schemata.Proofs.Resolve.CyclePath
import Schemata.Proofs.Resolve.DuplicatePackage
import Schemata.Proofs.Resolve.FileOrder
import Schemata.Proofs.Resolve.Forest
import Schemata.Proofs.Resolve.ImportName
import Schemata.Proofs.Resolve.Local
import Schemata.Proofs.Resolve.Occurrence
import Schemata.Proofs.Resolve.Path
import Schemata.Proofs.Resolve.Reference
import Schemata.Proofs.Resolve.Renaming
import Schemata.Proofs.Resolve.Requirement
import Schemata.Proofs.Resolve.Scope
import Schemata.Proofs.Resolve.WellFormed
import Schemata.Proofs.Schema.Ancestry
import Schemata.Proofs.Schema.Containment
import Schemata.Proofs.Schema.Descendants
import Schemata.Proofs.Schema.Nesting
import Schemata.Proofs.Schema.WellFormed
import Schemata.Proofs.Target.CSharpMention
import Schemata.Proofs.Target.CSharpScope
import Schemata.Proofs.Target.Capture
import Schemata.Proofs.Target.CaseName
import Schemata.Proofs.Target.Comment
import Schemata.Proofs.Target.Condition
import Schemata.Proofs.Target.File
import Schemata.Proofs.Target.FileName
import Schemata.Proofs.Target.Identifier
import Schemata.Proofs.Target.Import
import Schemata.Proofs.Target.JavaScriptMention
import Schemata.Proofs.Target.JavaScriptScope
import Schemata.Proofs.Target.Member
import Schemata.Proofs.Target.Module
import Schemata.Proofs.Target.NestedClass
import Schemata.Proofs.Target.Rendering
import Schemata.Proofs.Target.Scope
import Schemata.Proofs.Target.SelfContainment
import Schemata.Proofs.Target.Site
import Schemata.Proofs.Target.Specifier
import Schemata.Proofs.Target.SwiftLiteral
import Schemata.Proofs.Target.SwiftScope
import Schemata.Proofs.Target.Untagged
import Schemata.Proofs.Text.Cut
import Schemata.Proofs.Text.Digits
import Schemata.Proofs.Text.Hexadecimal
import Schemata.Proofs.Text.Line
import Schemata.Proofs.Text.Literal
import Schemata.Proofs.Token.Denotation
import Schemata.Proofs.Token.Documentation
import Schemata.Proofs.Token.Escape
import Schemata.Proofs.Token.Line
import Schemata.Proofs.Token.Rule
import Schemata.Proofs.Token.Step
import Schemata.Proofs.Token.Tiling
import Schemata.Proofs.Tree.Agreement
import Schemata.Proofs.Tree.Completeness
import Schemata.Proofs.Tree.Counter
import Schemata.Proofs.Tree.Cursor
import Schemata.Proofs.Tree.Exact
import Schemata.Proofs.Tree.Extent
import Schemata.Proofs.Tree.Failure
import Schemata.Proofs.Tree.Grammar
import Schemata.Proofs.Tree.Name
import Schemata.Proofs.Tree.Place
import Schemata.Proofs.Tree.Progress
import Schemata.Proofs.Tree.Reading
import Schemata.Proofs.Tree.Recovery
import Schemata.Proofs.Tree.Soundness
import Schemata.Proofs.Tree.Span
import Schemata.Proofs.Version.Notation
import Schemata.Proofs.Version.Order
import Schemata.Resolve.Basic
import Schemata.Resolve.Checked
import Schemata.Resolve.Convert
import Schemata.Resolve.Cycle
import Schemata.Resolve.Error
import Schemata.Resolve.Table
import Schemata.Resolve.Untagged
import Schemata.Schema.Basic
import Schemata.Schema.Lookup
import Schemata.Schema.Nesting
import Schemata.Source
import Schemata.Target.Basic
import Schemata.Target.CSharp
import Schemata.Target.CSharpClass
import Schemata.Target.CSharpConverter
import Schemata.Target.CSharpName
import Schemata.Target.JavaScript
import Schemata.Target.JavaScriptClass
import Schemata.Target.JavaScriptExpr
import Schemata.Target.JavaScriptName
import Schemata.Target.JavaScriptPrelude
import Schemata.Target.Swift
import Schemata.Target.SwiftCodec
import Schemata.Target.SwiftName
import Schemata.Target.SwiftType
import Schemata.Text.Basic
import Schemata.Text.CaseMap
import Schemata.Text.CharRun
import Schemata.Text.Letter
import Schemata.Text.Quoted
import Schemata.Text.Visible
import Schemata.Token.Basic
import Schemata.Token.Lexer
import Schemata.Token.StringLiteral
import Schemata.Toml.Basic
import Schemata.Toml.Parser
import Schemata.Tree.Basic
import Schemata.Tree.Error
import Schemata.Tree.Lexeme
import Schemata.Tree.Parser
import Schemata.Version.Basic
import Schemata.Version.Parser
import Schemata.Version.Range
