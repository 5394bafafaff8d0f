import SceneAudit.Text.Basic
import SceneAudit.Text.Blank
import SceneAudit.Text.CaseTable
import SceneAudit.Text.Decimal
import SceneAudit.Text.Lines
import SceneAudit.Text.LowerCase
import SceneAudit.Text.Order
import SceneAudit.Text.Utf8
import SceneAudit.Number.Binary64
import SceneAudit.Files.Path
import SceneAudit.Files.Tree
import SceneAudit.Yaml.Cursor
import SceneAudit.Yaml.PlainScalar
import SceneAudit.Yaml.BlockScalar
import SceneAudit.Yaml.QuotedScalar
import SceneAudit.Yaml.Tag
import SceneAudit.Yaml.Token
import SceneAudit.Yaml.Node
import SceneAudit.Yaml.Anchors
import SceneAudit.Yaml.Scalar
import SceneAudit.Yaml.Value
import SceneAudit.Toml.Layout
import SceneAudit.Toml.Literal
import SceneAudit.Toml.Quoted
import SceneAudit.Toml.Value
import SceneAudit.Toml.Statement
import SceneAudit.Toml.Document
import SceneAudit.Json.Value
import SceneAudit.Registry.Identifier
import SceneAudit.Registry.Basic
import SceneAudit.Registry.UsedSet
import SceneAudit.Usage.MemberName
import SceneAudit.Usage.Policy
import SceneAudit.Usage.Resolver
import SceneAudit.Script.Lexeme
import SceneAudit.Script.Token
import SceneAudit.Script.Extent
import SceneAudit.Script.TypeName
import SceneAudit.Script.SyntaxTree
import SceneAudit.Script.Declaration
import SceneAudit.Script.Outline
import SceneAudit.Config.Basic
import SceneAudit.Config.Exclusion
import SceneAudit.Config.Settings
import SceneAudit.Config.FromToml
import SceneAudit.Config.FromYaml
import SceneAudit.Config.Load
import SceneAudit.Scene.Reference
import SceneAudit.Scene.WrittenText
import SceneAudit.Scene.Entity
import SceneAudit.Scene.RawBlock
import SceneAudit.Scene.Basic
import SceneAudit.Hierarchy.AnchorOrder
import SceneAudit.Hierarchy.Arena
import SceneAudit.Hierarchy.Walk
import SceneAudit.Discovery.Glob
import SceneAudit.Discovery.IgnoreRule
import SceneAudit.Discovery.IgnoreFiles
import SceneAudit.Discovery.SourceFile
import SceneAudit.Discovery.Finder
import SceneAudit.Audit.DumpPlan
import SceneAudit.Audit.UnusedScript
import SceneAudit.Audit.Report
import SceneAudit.Audit.Run
import SceneAudit.Report.Csv
import SceneAudit.Report.JsonReport
import SceneAudit.Report.Terminal
import SceneAudit.Report.Publish
import SceneAudit.CommandLine.Argument
import SceneAudit.CommandLine.Options
import SceneAudit.CommandLine.Program
import SceneAudit.Main
import SceneAudit.Proofs.Hierarchy.AnchorOrder
import SceneAudit.Proofs.Hierarchy.Arena
import SceneAudit.Proofs.Hierarchy.Visits
import SceneAudit.Proofs.Hierarchy.Emission
import SceneAudit.Proofs.Hierarchy.Forest
import SceneAudit.Proofs.Scene.Blocks
import SceneAudit.Proofs.Hierarchy.BlockOrder
import SceneAudit.Proofs.Files.Locate
import SceneAudit.Proofs.Files.WellFormed
import SceneAudit.Proofs.Discovery.Found
import SceneAudit.Proofs.Files.Frame
import SceneAudit.Proofs.Audit.Schedule
import SceneAudit.Proofs.Audit.Sequential
import SceneAudit.Proofs.Registry.Basic
import SceneAudit.Proofs.Audit.Invariant
import SceneAudit.Proofs.Audit.Unused
import SceneAudit.Proofs.Scene.PropertyTexts
import SceneAudit.Proofs.Scene.Seams
import SceneAudit.Proofs.Scene.RoundTrip
import SceneAudit.Proofs.Hierarchy.References
import SceneAudit.Proofs.Registry.Identifiers
import SceneAudit.Proofs.Usage.Session
import SceneAudit.Proofs.Audit.Reports
import SceneAudit.Proofs.Audit.Accounting
import SceneAudit.Proofs.Files.Trail
import SceneAudit.Proofs.Audit.Dumps
import SceneAudit.Proofs.Files.Making
import SceneAudit.Proofs.Discovery.Order
import SceneAudit.Proofs.Audit.Isolation
import SceneAudit.Proofs.Audit.TwoRuns
import SceneAudit.Proofs.Discovery.Ignoring
import SceneAudit.Proofs.Discovery.Growth
import SceneAudit.Proofs.Audit.Monotone
import SceneAudit.Proofs.Hierarchy.Cycles
import SceneAudit.Proofs.Hierarchy.Revisits
import SceneAudit.Proofs.Hierarchy.Siblings
import SceneAudit.Proofs.Csv.Reader
import SceneAudit.Proofs.Csv.RoundTrip
import SceneAudit.Proofs.Text.Utf8
import SceneAudit.Proofs.Json.Grammar
import SceneAudit.Proofs.Json.Reader
import SceneAudit.Proofs.Json.RoundTrip
import SceneAudit.Proofs.Report.JsonReport
import SceneAudit.Proofs.Audit.Ownership
import SceneAudit.Proofs.Audit.DumpCount
import SceneAudit.Proofs.CommandLine.ClosingLine
import SceneAudit.Proofs.Registry.History
import SceneAudit.Proofs.Hierarchy.DumpLines
import SceneAudit.Proofs.Yaml.Meaning
import SceneAudit.Proofs.Scene.ObjectNames
import SceneAudit.Proofs.Files.Below
import SceneAudit.Proofs.Files.Mirror
import SceneAudit.Proofs.Discovery.Arrangement
import SceneAudit.Proofs.Discovery.Relocation
import SceneAudit.Proofs.Audit.Relocation
import SceneAudit.Proofs.Audit.RelocatedRuns
import SceneAudit.Proofs.Audit.Location
import SceneAudit.Proofs.Scene.Recognized
import SceneAudit.Proofs.Usage.Verdict
import SceneAudit.Proofs.Yaml.TypedKeys
import SceneAudit.Proofs.Scene.FieldKeys
import SceneAudit.Proofs.Script.Collection
import SceneAudit.Proofs.Script.CommentsAsBases
import SceneAudit.Proofs.Script.QualifiedNames
import SceneAudit.Proofs.Scene.Sections
import SceneAudit.Proofs.Scene.LineEnds
import SceneAudit.Proofs.Text.Pieces
import SceneAudit.Proofs.Registry.SidecarLines
import SceneAudit.Proofs.Text.Occurrences
import SceneAudit.Proofs.Config.Exclusion
import SceneAudit.Proofs.Config.Fallback
import SceneAudit.Proofs.Files.Stripping
import SceneAudit.Proofs.Discovery.Union
import SceneAudit.Proofs.Usage.Spellings
