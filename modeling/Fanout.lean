import Fanout.Changed.Sinks
import Fanout.Changed.UnitSet
import Fanout.Disk.Basic
import Fanout.Disk.Host
import Fanout.Emission.EntryPoint
import Fanout.Emission.Result
import Fanout.Emission.Sequence
import Fanout.Emission.Wire
import Fanout.Fault.Basic
import Fanout.Handle
import Fanout.Install.Bench
import Fanout.Install.Multiplexer
import Fanout.Json.Reader
import Fanout.Json.Record
import Fanout.Json.Value
import Fanout.Json.Writer
import Fanout.ModuleKind
import Fanout.Options.Basic
import Fanout.Options.OutputPath
import Fanout.Options.Wire
import Fanout.Path.Basic
import Fanout.Path.Bytes
import Fanout.Path.Order
import Fanout.Pipeline.Basic
import Fanout.Pipeline.Wire
import Fanout.Project.Config
import Fanout.Project.Load
import Fanout.Project.OfToml
import Fanout.Project.Validation
import Fanout.Project.Wire
import Fanout.Proofs.Changed.Recording
import Fanout.Proofs.Changed.SharingGroups
import Fanout.Proofs.Changed.UnitSet
import Fanout.Proofs.Disk.Directories
import Fanout.Proofs.Disk.Enclosing
import Fanout.Proofs.Disk.Refusal
import Fanout.Proofs.Disk.Replay
import Fanout.Proofs.Disk.Tree
import Fanout.Proofs.Disk.WriteLog
import Fanout.Proofs.Disk.WrittenFiles
import Fanout.Proofs.Emission.Again
import Fanout.Proofs.Emission.Contract
import Fanout.Proofs.Emission.FanOut
import Fanout.Proofs.Emission.Invocation
import Fanout.Proofs.Emission.Memoryless
import Fanout.Proofs.Emission.Nested
import Fanout.Proofs.Emission.PassThrough
import Fanout.Proofs.Emission.Plan
import Fanout.Proofs.Emission.VariantLists
import Fanout.Proofs.Install.Blocks
import Fanout.Proofs.Install.ManyMultiplexers
import Fanout.Proofs.Install.OneMultiplexer
import Fanout.Proofs.Install.Refusals
import Fanout.Proofs.Install.Transitions
import Fanout.Proofs.Install.Visits
import Fanout.Proofs.Json.Grammar
import Fanout.Proofs.Json.Reading
import Fanout.Proofs.Json.Records
import Fanout.Proofs.Json.RoundTrips
import Fanout.Proofs.Options.Layers
import Fanout.Proofs.Options.Mirroring
import Fanout.Proofs.Options.OutputPath
import Fanout.Proofs.Path.Bytes
import Fanout.Proofs.Path.Components
import Fanout.Proofs.Path.Order
import Fanout.Proofs.Path.Parents
import Fanout.Proofs.Path.Relative
import Fanout.Proofs.Path.Respelling
import Fanout.Proofs.Path.Trees
import Fanout.Proofs.Project.Overrides
import Fanout.Proofs.Project.Root
import Fanout.Proofs.Project.Search
import Fanout.Proofs.Project.Soundness
import Fanout.Proofs.Project.Validation
import Fanout.Proofs.Session.Aggregation
import Fanout.Proofs.Session.CacheDirectories
import Fanout.Proofs.Session.ChangedFiles
import Fanout.Proofs.Session.ExactlyOnce
import Fanout.Proofs.Session.OfProject
import Fanout.Proofs.Session.OutputDirectory
import Fanout.Proofs.Session.ReportText
import Fanout.Proofs.Session.Rerun
import Fanout.Proofs.Session.Restoration
import Fanout.Proofs.Session.SingleVariant
import Fanout.Proofs.Text.AnyCase
import Fanout.Proofs.Text.Utf8
import Fanout.Proofs.Variant.Acceptance
import Fanout.Proofs.Variant.Directories
import Fanout.Proofs.Variant.Representation
import Fanout.Proofs.Variant.Resolution
import Fanout.Proofs.Variant.Separation
import Fanout.Session.Basic
import Fanout.Session.Report
import Fanout.Text.Lowering
import Fanout.Text.Reader
import Fanout.Text.Utf8
import Fanout.Toml.Document
import Fanout.Toml.Record
import Fanout.Toml.Scalar
import Fanout.Toml.Table
import Fanout.Toml.Value
import Fanout.Variant.Basic
import Fanout.Variant.Registry
import Fanout.Variant.Wire
