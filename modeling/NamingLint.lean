import NamingLint.Analyzer
import NamingLint.Cli.Arguments
import NamingLint.Cli.Failure
import NamingLint.Cli.Output
import NamingLint.Cli.Run
import NamingLint.Cli.Settings
import NamingLint.Cli.Trees
import NamingLint.Concrete.Binding
import NamingLint.Concrete.Node
import NamingLint.Concrete.Outline
import NamingLint.Concrete.Table
import NamingLint.Config
import NamingLint.Convention.Criteria
import NamingLint.Convention.Declaration
import NamingLint.Convention.Rule
import NamingLint.Convention.Tip
import NamingLint.Discovery
import NamingLint.Exclusion
import NamingLint.FileSystem
import NamingLint.Glob
import NamingLint.Ignore.Level
import NamingLint.Ignore.Pattern
import NamingLint.Json.Printer
import NamingLint.Json.Reader
import NamingLint.Json.Value
import NamingLint.Main
import NamingLint.Parser
import NamingLint.Path
import NamingLint.Proofs.Analyzer.Anchors
import NamingLint.Proofs.Analyzer.Exclusion
import NamingLint.Proofs.Analyzer.FileNames
import NamingLint.Proofs.Analyzer.Outcome
import NamingLint.Proofs.Analyzer.ParserChoice
import NamingLint.Proofs.Analyzer.Source
import NamingLint.Proofs.Analyzer.TreeSafety
import NamingLint.Proofs.Analyzer.WholeNames
import NamingLint.Proofs.Cli.SourceCache
import NamingLint.Proofs.Concrete.Bindings
import NamingLint.Proofs.Concrete.Comments
import NamingLint.Proofs.Concrete.Coverage
import NamingLint.Proofs.Concrete.FaultPosition
import NamingLint.Proofs.Concrete.Faults
import NamingLint.Proofs.Concrete.Grammar
import NamingLint.Proofs.Concrete.Image
import NamingLint.Proofs.Concrete.Members
import NamingLint.Proofs.Concrete.Order
import NamingLint.Proofs.Concrete.Origin
import NamingLint.Proofs.Concrete.Place
import NamingLint.Proofs.Concrete.Ranges
import NamingLint.Proofs.Concrete.Shape
import NamingLint.Proofs.Concrete.Trace
import NamingLint.Proofs.Concrete.Visit
import NamingLint.Proofs.Concrete.WellFormed
import NamingLint.Proofs.Config.Settings
import NamingLint.Proofs.Convention.Locality
import NamingLint.Proofs.Convention.Names
import NamingLint.Proofs.Convention.Prescription
import NamingLint.Proofs.Convention.Reach
import NamingLint.Proofs.Convention.Reading
import NamingLint.Proofs.Convention.Recording
import NamingLint.Proofs.Convention.Renumbering
import NamingLint.Proofs.Convention.Resemblance
import NamingLint.Proofs.Convention.Scope
import NamingLint.Proofs.Convention.Table
import NamingLint.Proofs.Convention.Unnamed
import NamingLint.Proofs.Convention.Views
import NamingLint.Proofs.Except
import NamingLint.Proofs.Exclusion
import NamingLint.Proofs.Glob.Matching
import NamingLint.Proofs.Glob.Reading
import NamingLint.Proofs.Json.Literals
import NamingLint.Proofs.Json.RoundTrip
import NamingLint.Proofs.Path.Below
import NamingLint.Proofs.Path.Extension
import NamingLint.Proofs.Path.Join
import NamingLint.Proofs.Path.Order
import NamingLint.Proofs.Path.Ways
import NamingLint.Proofs.Report.RoundTrip
import NamingLint.Proofs.Syntax.Connected
import NamingLint.Proofs.Syntax.Layout
import NamingLint.Proofs.Syntax.Leaves
import NamingLint.Proofs.Syntax.Links
import NamingLint.Proofs.Syntax.Nesting
import NamingLint.Proofs.Syntax.Offenders
import NamingLint.Proofs.Syntax.Resemblance
import NamingLint.Proofs.Syntax.Subtrees
import NamingLint.Proofs.Syntax.Validity
import NamingLint.Proofs.Text.Boundary
import NamingLint.Proofs.Text.ByteColumns
import NamingLint.Proofs.Text.Lines
import NamingLint.Proofs.Text.Position
import NamingLint.Proofs.Toml.DistinctKeys
import NamingLint.Proofs.Toml.Lookup
import NamingLint.Report
import NamingLint.Report.Json
import NamingLint.Rule
import NamingLint.Snippet.Frame
import NamingLint.Snippet.Line
import NamingLint.Syntax.Kind
import NamingLint.Syntax.Modifier
import NamingLint.Syntax.Outline
import NamingLint.Syntax.Tree
import NamingLint.Syntax.Validity
import NamingLint.Text.Bytes
import NamingLint.Text.Characters
import NamingLint.Text.Layout
import NamingLint.Text.Position
import NamingLint.Toml.Document
import NamingLint.Toml.Draft
import NamingLint.Toml.Float
import NamingLint.Toml.Number
import NamingLint.Toml.Scan
import NamingLint.Toml.Text
import NamingLint.Toml.Value
