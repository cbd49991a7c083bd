import RecordArchive.Archive
import RecordArchive.Buffer
import RecordArchive.ByteSize
import RecordArchive.Bytes
import RecordArchive.Codec
import RecordArchive.CommandLine
import RecordArchive.Connector.Exchange
import RecordArchive.Connector.Queue
import RecordArchive.Connector.Turns
import RecordArchive.Coordinator
import RecordArchive.Decimal.Binary64
import RecordArchive.Decimal.Parts
import RecordArchive.Decimal.Notation
import RecordArchive.Decimal.Shortest
import RecordArchive.Dictionary
import RecordArchive.Error
import RecordArchive.Json.Parser
import RecordArchive.Json.Printer
import RecordArchive.Json.Token
import RecordArchive.Json.Value
import RecordArchive.Main
import RecordArchive.Naming.ObjectKey
import RecordArchive.Naming.Pattern
import RecordArchive.Naming.Template
import RecordArchive.Naming.Uuid
import RecordArchive.Pipeline
import RecordArchive.Record
import RecordArchive.Report
import RecordArchive.Retrier
import RecordArchive.Settings.Archive
import RecordArchive.Settings.Decoder
import RecordArchive.Settings.Environment
import RecordArchive.Settings.Layer
import RecordArchive.Settings.Load
import RecordArchive.Settings.Toml.Definition
import RecordArchive.Settings.Toml.Document
import RecordArchive.Settings.Toml.Scalar
import RecordArchive.Sink
import RecordArchive.Source
import RecordArchive.Staging
import RecordArchive.Store.Configured
import RecordArchive.Store.Directory
import RecordArchive.Store.FileTree
import RecordArchive.Store.Memory
import RecordArchive.Store.ObjectStore
import RecordArchive.Store.Path
import RecordArchive.Text.Blank
import RecordArchive.Text.Hex
import RecordArchive.Text.Numeral
import RecordArchive.Text.Reader
import RecordArchive.Text.Segments
import RecordArchive.Text.Utf8
import RecordArchive.Threshold
import RecordArchive.Time.Calendar
import RecordArchive.Time.Clock
import RecordArchive.Time.Duration
import RecordArchive.Time.Instant
import RecordArchive.World
import RecordArchive.Proofs.Dictionary
import RecordArchive.Proofs.Buffer.Contents
import RecordArchive.Proofs.Buffer.Upload
import RecordArchive.Proofs.Coordinator.Course
import RecordArchive.Proofs.Coordinator.Ledger
import RecordArchive.Proofs.Coordinator.Contents
import RecordArchive.Proofs.Coordinator.Balance
import RecordArchive.Proofs.Coordinator.Admission
import RecordArchive.Proofs.Pipeline.Delivery
import RecordArchive.Proofs.Buffer.Ample
import RecordArchive.Proofs.Coordinator.Partition
import RecordArchive.Proofs.Coordinator.Calm
import RecordArchive.Proofs.Coordinator.Session
import RecordArchive.Proofs.Buffer.Steady
import RecordArchive.Proofs.Coordinator.Settled
import RecordArchive.Proofs.Coordinator.Expiry
import RecordArchive.Proofs.Json.Plain
import RecordArchive.Proofs.Text.Utf8
import RecordArchive.Proofs.Json.Lexing
import RecordArchive.Proofs.Json.Reading
import RecordArchive.Proofs.Source.Lines
import RecordArchive.Proofs.Source.ReadBack
import RecordArchive.Proofs.Text.Numeral
import RecordArchive.Proofs.Buffer.Footprint
import RecordArchive.Proofs.Coordinator.Dialogue
import RecordArchive.Proofs.Coordinator.Kinds
import RecordArchive.Proofs.Coordinator.StagingFiles
import RecordArchive.Proofs.Connector.Step
import RecordArchive.Proofs.Connector.Parts
import RecordArchive.Proofs.Connector.Traffic
import RecordArchive.Proofs.Connector.Order
import RecordArchive.Proofs.Connector.Stopping
import RecordArchive.Proofs.Connector.Schedule
import RecordArchive.Proofs.Naming.Distinct
import RecordArchive.Proofs.Store.Objects
import RecordArchive.Proofs.Coordinator.Objects
import RecordArchive.Proofs.Coordinator.Sharing
import RecordArchive.Proofs.Coordinator.Cancellation
import RecordArchive.Proofs.Settings.Precedence
import RecordArchive.Proofs.Pipeline.Exhaustion
import RecordArchive.Proofs.Settings.Startup
import RecordArchive.Proofs.Pipeline.Calls
import RecordArchive.Proofs.Pipeline.Progress
import RecordArchive.Proofs.Pipeline.Status
import RecordArchive.Proofs.Coordinator.Unhindered
import RecordArchive.Proofs.Pipeline.Quiet
import RecordArchive.Proofs.Source.PlainText
import RecordArchive.Proofs.Pipeline.PassThrough
import RecordArchive.Proofs.Retrier.Pauses
import RecordArchive.Proofs.Retrier.Timeline
import RecordArchive.Proofs.Retrier.Budget
import RecordArchive.Proofs.Retrier.Cancelling
import RecordArchive.Proofs.Store.Outage
import RecordArchive.Proofs.Coordinator.Outage
import RecordArchive.Proofs.Text.Search
import RecordArchive.Proofs.Naming.Template
import RecordArchive.Proofs.Naming.Pattern
import RecordArchive.Proofs.Naming.Rendering
import RecordArchive.Proofs.Text.Segments
import RecordArchive.Proofs.Time.Calendar
import RecordArchive.Proofs.Naming.Namer
import RecordArchive.Proofs.Naming.KeyParts
import RecordArchive.Proofs.Text.Order
import RecordArchive.Proofs.Naming.KeyOrder
import RecordArchive.Proofs.Naming.Joining
import RecordArchive.Proofs.Naming.Meaning
import RecordArchive.Proofs.Source.Batches
import RecordArchive.Proofs.Source.Agreement
import RecordArchive.Proofs.Coordinator.LineFeeds
import RecordArchive.Proofs.Coordinator.Torn
import RecordArchive.Proofs.Store.Paths
import RecordArchive.Proofs.Store.Tree
import RecordArchive.Proofs.Store.Mirror
import RecordArchive.Proofs.Store.Descent
import RecordArchive.Proofs.Naming.KeyNames
import RecordArchive.Proofs.Pipeline.StoreInvariant
import RecordArchive.Proofs.Store.Confinement
import RecordArchive.Proofs.Connector.Undrained
