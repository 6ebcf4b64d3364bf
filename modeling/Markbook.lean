import Markbook.Status
import Markbook.TextMap
import Markbook.Trigger.Block
import Markbook.Task
import Markbook.Decimal.Notation
import Markbook.Json.Basic
import Markbook.Yaml.Value
import Markbook.Yaml.Cursor
import Markbook.Yaml.Scalar
import Markbook.Yaml.Node
import Markbook.Yaml.Resolve
import Markbook.Text.Lower
import Markbook.Dialect.Basic
import Markbook.Dialect.Read
import Markbook.Dialect.Write
import Markbook.Heading
import Markbook.Document
import Markbook.Entity
import Markbook.Outline
import Markbook.Disk
import Markbook.Scan
import Markbook.Store.Files
import Markbook.Store.Projection
import Markbook.Toml.Read
import Markbook.Toml.Write
import Markbook.Log.Filter
import Markbook.Config.Strict
import Markbook.Config.Load
import Markbook.Table
import Markbook.Main
import Markbook.Command.Arguments
import Markbook.Proofs.Text.Lines
import Markbook.Proofs.Text.Copied
import Markbook.Proofs.TextMap
import Markbook.Proofs.Dialect.Block
import Markbook.Proofs.Dialect.FieldLines
import Markbook.Proofs.WriteBack.LineDialect
import Markbook.Proofs.WriteBack.NoChange
import Markbook.Proofs.WriteBack.Durable
import Markbook.Proofs.WriteBack.SingleFile
import Markbook.Proofs.Store.LastWriter
import Markbook.Proofs.Store.Sound
import Markbook.Proofs.Store.Provenance
import Markbook.Proofs.Store.Order
import Markbook.Proofs.WriteBack.Scanned
import Markbook.Proofs.WriteBack.Untouched
import Markbook.Proofs.WriteBack.Prose
import Markbook.Proofs.Dialect.RoundTrip
import Markbook.Proofs.Parents
import Markbook.Proofs.Store.Hierarchy
import Markbook.Proofs.Dialect.Fenced
import Markbook.Proofs.Trigger.Condition
import Markbook.Proofs.Config.Statuses
import Markbook.Proofs.Store.Created
import Markbook.Proofs.WriteBack.AnyOrder
import Markbook.Proofs.Store.Projection
import Markbook.Proofs.Trigger.Lines
import Markbook.Proofs.Trigger.Blocks
import Markbook.Proofs.Trigger.Commands
import Markbook.Proofs.Trigger.Calls
import Markbook.Proofs.Disk.Tree
import Markbook.Proofs.Scan.Complete
import Markbook.Proofs.Store.Rooted
import Markbook.Proofs.Preamble.Exact
import Markbook.Proofs.Section.Aligned
import Markbook.Proofs.Heading.Canonical
import Markbook.Proofs.Trigger.Listing
import Markbook.Proofs.Workspace.Frame
import Markbook.Proofs.WriteBack.Conserved
