import ClusterBlueprint.Text.Blank
import ClusterBlueprint.Text.Quoted
import ClusterBlueprint.Text.Utf8
import ClusterBlueprint.OrderedMap
import ClusterBlueprint.SortedMap
import ClusterBlueprint.Json.Double
import ClusterBlueprint.Json.Shortest
import ClusterBlueprint.Json.Value
import ClusterBlueprint.Json.Printer
import ClusterBlueprint.Json.Error
import ClusterBlueprint.Json.Failure
import ClusterBlueprint.Json.Token.Number
import ClusterBlueprint.Json.Token.Text
import ClusterBlueprint.Json.Reader
import ClusterBlueprint.Json.Skip
import ClusterBlueprint.Json.Decoder
import ClusterBlueprint.Json.Record
import ClusterBlueprint.StackId
import ClusterBlueprint.Configuration
import ClusterBlueprint.Configuration.Wire
import ClusterBlueprint.Blueprint.Basic
import ClusterBlueprint.Blueprint.Wire
import ClusterBlueprint.Blueprint.Structure
import ClusterBlueprint.Files.Path
import ClusterBlueprint.Files.Tree
import ClusterBlueprint.Stack.Metadata
import ClusterBlueprint.Stack.Registry
import ClusterBlueprint.Store.Entity
import ClusterBlueprint.Store.Basic
import ClusterBlueprint.Store.Memory
import ClusterBlueprint.Store.Files
import ClusterBlueprint.Codec.Error
import ClusterBlueprint.Codec.HostGroupKinds
import ClusterBlueprint.Codec.Basic
import ClusterBlueprint.Codec.PropertyBag
import ClusterBlueprint.Compiler.Resolution
import ClusterBlueprint.Compiler.Options
import ClusterBlueprint.Compiler.Basic
import ClusterBlueprint.Blueprint.Schema
import ClusterBlueprint.Proofs.Result
import ClusterBlueprint.Proofs.Text.Utf8
import ClusterBlueprint.Proofs.Text.Pattern
import ClusterBlueprint.Proofs.OrderedMap
import ClusterBlueprint.Proofs.OrderedMap.Overlay
import ClusterBlueprint.Proofs.SortedMap
import ClusterBlueprint.Proofs.Json.Text
import ClusterBlueprint.Proofs.Json.Number
import ClusterBlueprint.Proofs.Json.Value
import ClusterBlueprint.Proofs.Json.Reader
import ClusterBlueprint.Proofs.Json.Sorted
import ClusterBlueprint.Proofs.Json.Depth
import ClusterBlueprint.Proofs.Json.Decoder
import ClusterBlueprint.Proofs.Json.Record
import ClusterBlueprint.Proofs.Json.Form
import ClusterBlueprint.Proofs.Json.Local.Basic
import ClusterBlueprint.Proofs.Json.Local.Token
import ClusterBlueprint.Proofs.Json.Local.Reader
import ClusterBlueprint.Proofs.Json.Local.Skip
import ClusterBlueprint.Proofs.Json.Local.Decoder
import ClusterBlueprint.Proofs.Configuration.Overlay
import ClusterBlueprint.Proofs.Configuration.Basic
import ClusterBlueprint.Proofs.Configuration.Wire
import ClusterBlueprint.Proofs.Configuration.Entries
import ClusterBlueprint.Proofs.Configuration.Written
import ClusterBlueprint.Proofs.StackId
import ClusterBlueprint.Proofs.StackId.Written
import ClusterBlueprint.Proofs.Blueprint.Wire
import ClusterBlueprint.Proofs.Blueprint.Shown
import ClusterBlueprint.Proofs.Blueprint.Structure
import ClusterBlueprint.Proofs.Blueprint.Violations
import ClusterBlueprint.Proofs.Blueprint.Canonical
import ClusterBlueprint.Proofs.Blueprint.Normal
import ClusterBlueprint.Proofs.Blueprint.Schema
import ClusterBlueprint.Proofs.Codec.PropertyBag
import ClusterBlueprint.Proofs.Codec.BagDocument
import ClusterBlueprint.Proofs.Codec
import ClusterBlueprint.Proofs.Codec.Decoded
import ClusterBlueprint.Proofs.Codec.Plain
import ClusterBlueprint.Proofs.Codec.Dispatch
import ClusterBlueprint.Proofs.Codec.Schema
import ClusterBlueprint.Proofs.Codec.Resaving
import ClusterBlueprint.Proofs.Codec.EffectiveConfiguration
import ClusterBlueprint.Proofs.Files.Path
import ClusterBlueprint.Proofs.Files.Tree
import ClusterBlueprint.Proofs.Files.Component
import ClusterBlueprint.Proofs.Stack.Files
import ClusterBlueprint.Proofs.Stack.Metadata
import ClusterBlueprint.Proofs.Stack.Catalog
import ClusterBlueprint.Proofs.Store.Entity
import ClusterBlueprint.Proofs.Store.Commands
import ClusterBlueprint.Proofs.Store.Files
import ClusterBlueprint.Proofs.Compiler.Resolution
import ClusterBlueprint.Proofs.Compiler.Lookups
import ClusterBlueprint.Proofs.Compiler.Staging
import ClusterBlueprint.Proofs.Compiler.Requests
import ClusterBlueprint.Proofs.Compiler.Properties
import ClusterBlueprint.Proofs.Compiler.Stored
import ClusterBlueprint.Proofs.Compiler.Entities
import ClusterBlueprint.Proofs.Compiler.Documents
import ClusterBlueprint.Proofs.Compiler.Security
import ClusterBlueprint.Proofs.Compiler.History
import ClusterBlueprint.Proofs.Files.Places
import ClusterBlueprint.Proofs.Stack.Published
import ClusterBlueprint.Proofs.Compiler.Interchange
