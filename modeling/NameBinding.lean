import NameBinding.Capture.Basic
import NameBinding.Capture.Stream
import NameBinding.Command.Inspect
import NameBinding.Command.Project
import NameBinding.Command.Stats
import NameBinding.CommandLine.Basic
import NameBinding.CommandLine.Options
import NameBinding.Construction
import NameBinding.Error
import NameBinding.Event
import NameBinding.Fault
import NameBinding.Files.Basic
import NameBinding.Files.Path
import NameBinding.Format
import NameBinding.Graph.Basic
import NameBinding.Graph.Binding
import NameBinding.Graph.Counts
import NameBinding.Graph.Scope
import NameBinding.Ignore.Filter
import NameBinding.Ignore.Rule
import NameBinding.Json.Basic
import NameBinding.Language.Basic
import NameBinding.Language.Registry
import NameBinding.Main
import NameBinding.Node
import NameBinding.Node.Json
import NameBinding.Outline.Basic
import NameBinding.Outline.Context
import NameBinding.Outline.Json
import NameBinding.Outline.Text
import NameBinding.Pattern.Basic
import NameBinding.Pattern.Glob
import NameBinding.Program
import NameBinding.Proofs.CaptureOrder
import NameBinding.Proofs.Containment
import NameBinding.Proofs.Descent
import NameBinding.Proofs.Growth
import NameBinding.Proofs.Inventory
import NameBinding.Proofs.LexicalScoping
import NameBinding.Proofs.Lookup
import NameBinding.Proofs.Placement
import NameBinding.Proofs.Recording
import NameBinding.Proofs.Regions
import NameBinding.Proofs.Representation
import NameBinding.Proofs.Structure
import NameBinding.Report
import NameBinding.Resolution
import NameBinding.Session
import NameBinding.Settings
import NameBinding.SortedMap
import NameBinding.SourceTree
import NameBinding.Span
import NameBinding.Symbol
import NameBinding.Terminal.Console
import NameBinding.Terminal.Duration
import NameBinding.Terminal.Icon
import NameBinding.Terminal.Output
import NameBinding.Terminal.Percent
import NameBinding.Terminal.Style
import NameBinding.Terminal.Table
import NameBinding.Text.Blank
import NameBinding.Text.Lines
import NameBinding.Text.Lowercase
import NameBinding.Text.Offset
import NameBinding.Text.Position
import NameBinding.Text.Ranges
import NameBinding.Text.Width
import NameBinding.Toml.Basic
import NameBinding.Toml.Datetime
import NameBinding.Toml.Document
import NameBinding.Toml.Number
import NameBinding.Toml.Parser
import NameBinding.Toml.Printer
import NameBinding.Toml.Quoted
import NameBinding.Proofs.Totality
import NameBinding.Proofs.Frame
import NameBinding.Proofs.Bracketing
import NameBinding.Proofs.Addresses
import NameBinding.Proofs.Denotation
import NameBinding.Proofs.Outlines
import NameBinding.Proofs.SiblingOrder
import NameBinding.Proofs.Totals
import NameBinding.Proofs.Workers
import NameBinding.Proofs.Interference
import NameBinding.Proofs.Quoting
import NameBinding.Proofs.WrittenValues
import NameBinding.Proofs.Documents
import NameBinding.Proofs.Storage
import NameBinding.Proofs.SavedSettings
import NameBinding.Proofs.Acceptance
import NameBinding.Proofs.Streams
import NameBinding.Proofs.Enclosure
import NameBinding.Proofs.Ancestry
import NameBinding.Proofs.OutlineContents
import NameBinding.Proofs.Usages
import NameBinding.Proofs.Statistics
import NameBinding.Proofs.Batches
import NameBinding.Proofs.Positions
import NameBinding.Proofs.Lines
import NameBinding.Proofs.Contexts
import NameBinding.Proofs.Selection
import NameBinding.Proofs.SymbolLookup
import NameBinding.Proofs.CaptureNames
import NameBinding.Proofs.Exclusion
import NameBinding.Proofs.NodeForms
import NameBinding.Proofs.Ordinals
