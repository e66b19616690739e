import FeatureAtlas.Basic
import FeatureAtlas.Json.Value
import FeatureAtlas.Json.Quoting
import FeatureAtlas.Json.Token
import FeatureAtlas.Json.Reader
import FeatureAtlas.Json.Printer
import FeatureAtlas.Json.Decode
import FeatureAtlas.Annotation
import FeatureAtlas.Source.Element
import FeatureAtlas.Source.Outline
import FeatureAtlas.Source.Tree
import FeatureAtlas.Source.Scan
import FeatureAtlas.Model.Node
import FeatureAtlas.Model.Diagnostic
import FeatureAtlas.Model.FailurePolicy
import FeatureAtlas.Model.Graph
import FeatureAtlas.Model.Cycles
import FeatureAtlas.Model.Assembly
import FeatureAtlas.Model.NestedView
import FeatureAtlas.Export.Document
import FeatureAtlas.Export.Drawing
import FeatureAtlas.Export.Diagram
import FeatureAtlas.Export.Format
import FeatureAtlas.Export.Sink
import FeatureAtlas.Store.Cell
import FeatureAtlas.Store.Table
import FeatureAtlas.Store.Database
import FeatureAtlas.Store.Schema
import FeatureAtlas.Store.Snapshot
import FeatureAtlas.Store.Load
import FeatureAtlas.Files.Path
import FeatureAtlas.Files.Disk
import FeatureAtlas.Export.File
import FeatureAtlas.Settings
import FeatureAtlas.Store.Identifier
import FeatureAtlas.CommandLine.Arguments
import FeatureAtlas.CommandLine.Run
import FeatureAtlas.Store.Archive
import FeatureAtlas.Main
import FeatureAtlas.Proofs.Source.Walk
import FeatureAtlas.Proofs.Source.Tables
import FeatureAtlas.Proofs.Source.Forest
import FeatureAtlas.Proofs.Distinct
import FeatureAtlas.Proofs.Model.Indexing
import FeatureAtlas.Proofs.Model.Bookkeeping
import FeatureAtlas.Proofs.Model.Mapping
import FeatureAtlas.Proofs.Model.Placement
import FeatureAtlas.Proofs.Model.Linking
import FeatureAtlas.Proofs.Model.Containment
import FeatureAtlas.Proofs.Model.Descent
import FeatureAtlas.Proofs.Model.CycleSearch
import FeatureAtlas.Proofs.Model.CycleReports
import FeatureAtlas.Proofs.Model.Reporting
import FeatureAtlas.Proofs.Model.CycleCoverage
import FeatureAtlas.Proofs.Model.Coherence
import FeatureAtlas.Proofs.Model.Refusals
import FeatureAtlas.Proofs.Model.Expansion
import FeatureAtlas.Proofs.Model.Occurrences
import FeatureAtlas.Proofs.Json.Texts
import FeatureAtlas.Proofs.Json.Reading
import FeatureAtlas.Proofs.Json.Records
import FeatureAtlas.Proofs.Store.Tables
import FeatureAtlas.Proofs.Store.Ledger
import FeatureAtlas.Proofs.Store.DocumentRows
import FeatureAtlas.Proofs.Store.Loading
import FeatureAtlas.Proofs.Store.Migrations
import FeatureAtlas.Proofs.Store.Stock
import FeatureAtlas.Proofs.Store.Shelf
import FeatureAtlas.Proofs.Model.Mirroring
import FeatureAtlas.Proofs.Model.Cleaning
import FeatureAtlas.Proofs.Source.Layout
import FeatureAtlas.Proofs.Export.Numbers
import FeatureAtlas.Proofs.Export.DocumentText
import FeatureAtlas.Proofs.Model.Wrapping
import FeatureAtlas.Proofs.Model.Declarations
import FeatureAtlas.Proofs.Source.Reach
import FeatureAtlas.Proofs.Source.Preorder
import FeatureAtlas.Proofs.Source.OutlineText
import FeatureAtlas.Proofs.CommandLine.Scanning
import FeatureAtlas.Proofs.Model.RootOrder
import FeatureAtlas.Proofs.Model.Growth
import FeatureAtlas.Proofs.Files.Writing
import FeatureAtlas.Proofs.Files.StoreKeeping
import FeatureAtlas.Proofs.Model.Severities
import FeatureAtlas.Proofs.Model.Attribution
import FeatureAtlas.Proofs.CommandLine.ExitStatus
import FeatureAtlas.Proofs.Store.Sharing
import FeatureAtlas.Proofs.Store.Resumption
import FeatureAtlas.Proofs.Source.Traversal
import FeatureAtlas.Proofs.Model.CycleMarks
import FeatureAtlas.Proofs.Model.Levels
import FeatureAtlas.Proofs.CommandLine.Showing
import FeatureAtlas.Proofs.Source.Rejection
import FeatureAtlas.Proofs.Source.Concatenation
import FeatureAtlas.Proofs.Source.Ancestry
import FeatureAtlas.Proofs.Model.NearestPlaced
import FeatureAtlas.Proofs.Model.FeatureNames
import FeatureAtlas.Proofs.Model.Membership
import FeatureAtlas.Proofs.Text.Lines
import FeatureAtlas.Proofs.Export.DrawingText
import FeatureAtlas.Proofs.Export.DiagramText
import FeatureAtlas.Proofs.Export.Receiving
import FeatureAtlas.Proofs.Export.DiagramPicture
import FeatureAtlas.Proofs.Store.Transactions
import FeatureAtlas.Proofs.Source.Rearrangement
import FeatureAtlas.Proofs.Source.MemberOrder
import FeatureAtlas.Proofs.Number.Range
import FeatureAtlas.Proofs.Source.DocumentOrder
import FeatureAtlas.Proofs.Files.Directories
import FeatureAtlas.Proofs.Files.SavedSettings
import FeatureAtlas.Proofs.Model.SearchCourse
