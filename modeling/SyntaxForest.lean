import SyntaxForest.Analysis.Analyzer
import SyntaxForest.Analysis.Failure
import SyntaxForest.Analysis.Registry
import SyntaxForest.Analysis.Report
import SyntaxForest.Batch.Aggregate
import SyntaxForest.Batch.Options
import SyntaxForest.Batch.Work
import SyntaxForest.Bytes
import SyntaxForest.Calendar
import SyntaxForest.CommandLine.Arguments
import SyntaxForest.CommandLine.Display
import SyntaxForest.CommandLine.Run
import SyntaxForest.Dialect.CSharp
import SyntaxForest.Dialect.Java
import SyntaxForest.Files.Discovery
import SyntaxForest.Files.Path
import SyntaxForest.Files.Pattern
import SyntaxForest.Files.Store
import SyntaxForest.Forest
import SyntaxForest.Inventory.Asynchrony
import SyntaxForest.Inventory.Declarations
import SyntaxForest.Journal
import SyntaxForest.Main
import SyntaxForest.Manifest.Fault
import SyntaxForest.Manifest.MSBuild
import SyntaxForest.Manifest.Project
import SyntaxForest.Manifest.Solution
import SyntaxForest.Number.Binary64
import SyntaxForest.Number.Integer
import SyntaxForest.Number.Layout
import SyntaxForest.Number.Reading
import SyntaxForest.Number.Shortest
import SyntaxForest.ParseTree
import SyntaxForest.ParseTree.Conversion
import SyntaxForest.ParseTree.WorkList
import SyntaxForest.Proofs.Analysis.Registry
import SyntaxForest.Proofs.Analysis.Support
import SyntaxForest.Proofs.Batch.Cancellation
import SyntaxForest.Proofs.Batch.Dealing
import SyntaxForest.Proofs.Batch.Discovered
import SyntaxForest.Proofs.Batch.Members
import SyntaxForest.Proofs.Batch.Outcome
import SyntaxForest.Proofs.Batch.Solution
import SyntaxForest.Proofs.Comments.Adding
import SyntaxForest.Proofs.Comments.Analysis
import SyntaxForest.Proofs.Comments.Describe
import SyntaxForest.Proofs.Comments.Inventories
import SyntaxForest.Proofs.Files.Discovery
import SyntaxForest.Proofs.Files.Names
import SyntaxForest.Proofs.Files.Paths
import SyntaxForest.Proofs.Files.Pattern
import SyntaxForest.Proofs.Forest.Links
import SyntaxForest.Proofs.Forest.Ownership
import SyntaxForest.Proofs.Forest.Session
import SyntaxForest.Proofs.Forest.Trees
import SyntaxForest.Proofs.Forest.Walk
import SyntaxForest.Proofs.Inventory.Lists
import SyntaxForest.Proofs.Inventory.Members
import SyntaxForest.Proofs.Inventory.References
import SyntaxForest.Proofs.Inventory.Suspensions
import SyntaxForest.Proofs.Inventory.Walks
import SyntaxForest.Proofs.LineIndex
import SyntaxForest.Proofs.Manifest.Entries
import SyntaxForest.Proofs.Manifest.Items
import SyntaxForest.Proofs.Manifest.Listed
import SyntaxForest.Proofs.Manifest.Order
import SyntaxForest.Proofs.Manifest.Parts
import SyntaxForest.Proofs.Manifest.Sources
import SyntaxForest.Proofs.Manifest.Stops
import SyntaxForest.Proofs.ParseTree.Accounts
import SyntaxForest.Proofs.ParseTree.Skeleton
import SyntaxForest.Proofs.ParseTree.WorkList
import SyntaxForest.Proofs.Places
import SyntaxForest.Proofs.Preorder
import SyntaxForest.Proofs.Rounding
import SyntaxForest.Proofs.Schedule.Agreement
import SyntaxForest.Proofs.Schedule.Bounded
import SyntaxForest.Proofs.Schedule.Interleaving
import SyntaxForest.Proofs.Schedule.Results
import SyntaxForest.Proofs.Schedule.Safety
import SyntaxForest.Proofs.Schedule.Settled
import SyntaxForest.Proofs.Schedule.Simulation
import SyntaxForest.Proofs.Schedule.Stopping
import SyntaxForest.Proofs.Settings.Acceptance
import SyntaxForest.Proofs.Template.Agreement
import SyntaxForest.Proofs.Template.Balance
import SyntaxForest.Proofs.Template.Boundaries
import SyntaxForest.Proofs.Template.Braces
import SyntaxForest.Proofs.Template.Census
import SyntaxForest.Proofs.Template.Chain
import SyntaxForest.Proofs.Template.Characters
import SyntaxForest.Proofs.Template.Clearance
import SyntaxForest.Proofs.Template.Commuting
import SyntaxForest.Proofs.Template.Control
import SyntaxForest.Proofs.Template.Depth
import SyntaxForest.Proofs.Template.Descent
import SyntaxForest.Proofs.Template.Elements
import SyntaxForest.Proofs.Template.Escapes
import SyntaxForest.Proofs.Template.Expressions
import SyntaxForest.Proofs.Template.Extent
import SyntaxForest.Proofs.Template.Faults
import SyntaxForest.Proofs.Template.Kept
import SyntaxForest.Proofs.Template.Laminar
import SyntaxForest.Proofs.Template.Layout
import SyntaxForest.Proofs.Template.Lexemes
import SyntaxForest.Proofs.Template.Lineage
import SyntaxForest.Proofs.Template.Matching
import SyntaxForest.Proofs.Template.Merge
import SyntaxForest.Proofs.Template.Nesting
import SyntaxForest.Proofs.Template.Order
import SyntaxForest.Proofs.Template.Passage
import SyntaxForest.Proofs.Template.Path
import SyntaxForest.Proofs.Template.Pieces
import SyntaxForest.Proofs.Template.Points
import SyntaxForest.Proofs.Template.Position
import SyntaxForest.Proofs.Template.Reading
import SyntaxForest.Proofs.Template.Recorded
import SyntaxForest.Proofs.Template.Rereading
import SyntaxForest.Proofs.Template.Settling
import SyntaxForest.Proofs.Template.Share
import SyntaxForest.Proofs.Template.Shortening
import SyntaxForest.Proofs.Template.Siblings
import SyntaxForest.Proofs.Template.Soundness
import SyntaxForest.Proofs.Template.Spelling
import SyntaxForest.Proofs.Template.Stack
import SyntaxForest.Proofs.Template.Statements
import SyntaxForest.Proofs.Template.Texts
import SyntaxForest.Proofs.Template.Uncut
import SyntaxForest.Proofs.Template.Views
import SyntaxForest.Proofs.Template.Window
import SyntaxForest.Proofs.Template.Wrapping
import SyntaxForest.Proofs.Text.Decoding
import SyntaxForest.Proofs.Text.Joining
import SyntaxForest.Proofs.Traversal
import SyntaxForest.Proofs.Tree.RoundTrip
import SyntaxForest.Proofs.Tree.WorkList
import SyntaxForest.Proofs.Value.Escapes
import SyntaxForest.Proofs.Value.Keys
import SyntaxForest.Proofs.Value.Unambiguous
import SyntaxForest.Proofs.Value.WorkList
import SyntaxForest.Proofs.Weight
import SyntaxForest.Proofs.Work
import SyntaxForest.Schedule
import SyntaxForest.Settings.Basic
import SyntaxForest.Settings.Environment
import SyntaxForest.Settings.Load
import SyntaxForest.Template.Construct
import SyntaxForest.Template.Document
import SyntaxForest.Template.Insertion
import SyntaxForest.Template.Lexical
import SyntaxForest.Template.Scanner
import SyntaxForest.Template.Stack
import SyntaxForest.Template.View
import SyntaxForest.Text.Case
import SyntaxForest.Text.CaseTable
import SyntaxForest.Text.Class
import SyntaxForest.Text.ClassTable
import SyntaxForest.Text.Quoted
import SyntaxForest.Text.Split
import SyntaxForest.Text.Utf8
import SyntaxForest.Tree
import SyntaxForest.Tree.Record
import SyntaxForest.Tree.WorkList
import SyntaxForest.Value
import SyntaxForest.Value.Json
import SyntaxForest.Value.WorkList
import SyntaxForest.Vocabulary
import SyntaxForest.Xml.CodePage
import SyntaxForest.Xml.Content
import SyntaxForest.Xml.Definitions
import SyntaxForest.Xml.Document
import SyntaxForest.Xml.Element
import SyntaxForest.Xml.Encoding
import SyntaxForest.Xml.Fault
import SyntaxForest.Xml.Lexical
import SyntaxForest.Xml.NameTable
import SyntaxForest.Xml.Prolog
import SyntaxForest.Xml.Subset
import SyntaxForest.Xml.Symbol
import SyntaxForest.Yaml.Cursor
import SyntaxForest.Yaml.Document
import SyntaxForest.Yaml.Fault
import SyntaxForest.Yaml.Node
import SyntaxForest.Yaml.Scalar
import SyntaxForest.Yaml.Schema
import SyntaxForest.Yaml.Token
