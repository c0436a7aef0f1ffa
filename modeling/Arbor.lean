import Arbor.Binding
import Arbor.Chain
import Arbor.Comparison.Account
import Arbor.Comparison.Difference
import Arbor.Comparison.Options
import Arbor.Comparison.OwnText
import Arbor.Config
import Arbor.Construct
import Arbor.Datum
import Arbor.Decimal
import Arbor.Error
import Arbor.Flow.Analysis
import Arbor.Flow.Builder
import Arbor.Flow.Context
import Arbor.Flow.Draft
import Arbor.Flow.Expression
import Arbor.Flow.Graph
import Arbor.Flow.Literal
import Arbor.Flow.Options
import Arbor.Flow.Scopes
import Arbor.Flow.Statement
import Arbor.Flow.Trace
import Arbor.Json.Reader
import Arbor.Json.Writer
import Arbor.Node
import Arbor.Node.Below
import Arbor.Pattern.Basic
import Arbor.Pattern.Options
import Arbor.Pattern.Score
import Arbor.Pattern.Search
import Arbor.Regex.Basic
import Arbor.Regex.CharClass
import Arbor.Regex.Flags
import Arbor.Regex.Place
import Arbor.Regex.Reader
import Arbor.Regex.Search
import Arbor.Regex.Size
import Arbor.Span
import Arbor.Symbols.Analysis
import Arbor.Symbols.Declare
import Arbor.Symbols.Model
import Arbor.Symbols.Options
import Arbor.Symbols.Outline
import Arbor.Table
import Arbor.Text.Break
import Arbor.Text.Category
import Arbor.Text.CharSet
import Arbor.Text.Edition
import Arbor.Text.Encoding
import Arbor.Text.Fold
import Arbor.Text.Printable
import Arbor.Text.Property
import Arbor.Text.Script
import Arbor.Text.Trait
import Arbor.Toml.Reader
import Arbor.Toml.Scalar
import Arbor.Toml.Table
import Arbor.Toml.Text
import Arbor.Traversal
import Arbor.Tree
import Arbor.Tree.Json
import Arbor.Proofs.Flow.Edges
import Arbor.Proofs.Flow.Simulation
import Arbor.Proofs.Flow.Threading
import Arbor.Proofs.Flow.Construction
import Arbor.Proofs.Flow.WellFormed
import Arbor.Proofs.Subtree
import Arbor.Proofs.Height
import Arbor.Proofs.Flow.Trace
import Arbor.Proofs.Flow.Report
import Arbor.Proofs.Flow.BackEdges
import Arbor.Proofs.Flow.Outcome
import Arbor.Proofs.Flow.Reach
import Arbor.Proofs.Flow.Liveness
import Arbor.Proofs.Flow.Completion
import Arbor.Proofs.Flow.FallOff
import Arbor.Proofs.Flow.Site
import Arbor.Proofs.Flow.Lexical
import Arbor.Proofs.Flow.Jumps
import Arbor.Proofs.Flow.Agreement
import Arbor.Proofs.Flow.Findings
import Arbor.Proofs.Flow.Isolation
import Arbor.Proofs.Flow.EntryPoints
import Arbor.Proofs.Flow.Detectors
import Arbor.Proofs.Flow.Scoping
import Arbor.Proofs.Flow.Variables
import Arbor.Proofs.Flow.Usage
import Arbor.Proofs.Flow.Finally
import Arbor.Proofs.Symbols.WellFormed
import Arbor.Proofs.Flow.BackMarks
import Arbor.Proofs.Flow.Constructs
import Arbor.Proofs.Flow.Endless
import Arbor.Proofs.Flow.Orderly
import Arbor.Proofs.Flow.Dominance
import Arbor.Proofs.Symbols.Lookup
import Arbor.Proofs.Symbols.Visits
import Arbor.Proofs.Symbols.Records
import Arbor.Proofs.Symbols.Builtins
import Arbor.Proofs.Symbols.Layout
import Arbor.Proofs.Symbols.Passes
import Arbor.Proofs.Symbols.Embedding
import Arbor.Proofs.Symbols.Truncation
import Arbor.Proofs.Symbols.Nesting
import Arbor.Proofs.Symbols.Positions
import Arbor.Proofs.Symbols.Shadowing
import Arbor.Proofs.Symbols.Declared
import Arbor.Proofs.Comments
import Arbor.Proofs.Flow.Counterparts
import Arbor.Proofs.Flow.Alike
import Arbor.Proofs.Flow.Comments
import Arbor.Proofs.Symbols.Comments
import Arbor.Proofs.Transparency
import Arbor.Proofs.Comparison.Children
import Arbor.Proofs.Comparison.Symmetry
import Arbor.Proofs.Comparison.Differences
import Arbor.Proofs.Comparison.Equivalence
import Arbor.Proofs.Pattern.Search
import Arbor.Proofs.Json.RoundTrip
import Arbor.Proofs.Json.Trees
import Arbor.Proofs.Flow.StraightLine
import Arbor.Proofs.Flow.Switches
import Arbor.Proofs.Flow.Depth
import Arbor.Proofs.Flow.Captures
import Arbor.Proofs.Flow.Occurrences
import Arbor.Proofs.Flow.Defaults
import Arbor.Proofs.Flow.Entered
import Arbor.Proofs.Flow.Joins
import Arbor.Proofs.Symbols.Visible
import Arbor.Proofs.Symbols.Toggles
import Arbor.Proofs.Pattern.Captures
import Arbor.Proofs.Comparison.Exclusions
import Arbor.Proofs.Pattern.Weakening
import Arbor.Proofs.Symbols.Exports
import Arbor.Proofs.Spans
import Arbor.Proofs.Ancestors
import Arbor.Proofs.Comparison.Cuts
import Arbor.Proofs.Comparison.Offsets
import Arbor.Proofs.Bindings
