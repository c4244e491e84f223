import RuleFlow.Broker
import RuleFlow.Chain
import RuleFlow.Decimal.Shortest
import RuleFlow.Engine
import RuleFlow.Envelope
import RuleFlow.Error
import RuleFlow.Failures
import RuleFlow.Graph.Basic
import RuleFlow.Graph.Compile
import RuleFlow.Graph.Cycle
import RuleFlow.Graph.Payload
import RuleFlow.Graph.Shape
import RuleFlow.Http
import RuleFlow.Hub
import RuleFlow.Instances
import RuleFlow.Jobs
import RuleFlow.Json.Decoder
import RuleFlow.Json.Fault
import RuleFlow.Json.Path
import RuleFlow.Json.Reader
import RuleFlow.Json.Render
import RuleFlow.Json.Value
import RuleFlow.KeyCache
import RuleFlow.KeyCache.Address
import RuleFlow.Lifecycle
import RuleFlow.Locks
import RuleFlow.LogFilter
import RuleFlow.Message
import RuleFlow.Mqtt
import RuleFlow.Node.Category
import RuleFlow.Node.External
import RuleFlow.Node.Log
import RuleFlow.Node.Plan
import RuleFlow.Node.Probe
import RuleFlow.Node.Registry
import RuleFlow.Node.Scripted
import RuleFlow.Node.Services
import RuleFlow.Node.Store
import RuleFlow.Node.World
import RuleFlow.Proofs.Adaptors
import RuleFlow.Proofs.Broker
import RuleFlow.Proofs.Envelope
import RuleFlow.Proofs.Failures
import RuleFlow.Proofs.Graph.Compile
import RuleFlow.Proofs.Graph.Cycle
import RuleFlow.Proofs.Graph.Definition
import RuleFlow.Proofs.Graph.Exploration
import RuleFlow.Proofs.Graph.Format
import RuleFlow.Proofs.Graph.Relisting
import RuleFlow.Proofs.Graph.Report
import RuleFlow.Proofs.Graph.Routes
import RuleFlow.Proofs.Graph.Sound
import RuleFlow.Proofs.Hub
import RuleFlow.Proofs.Instances
import RuleFlow.Proofs.Jobs.Alone
import RuleFlow.Proofs.Jobs.Concourse
import RuleFlow.Proofs.Jobs.Overtaking
import RuleFlow.Proofs.Jobs.Ownership
import RuleFlow.Proofs.Json.Digits
import RuleFlow.Proofs.Json.Numberless
import RuleFlow.Proofs.Json.Path
import RuleFlow.Proofs.Json.Quoted
import RuleFlow.Proofs.Json.Record
import RuleFlow.Proofs.Json.Sorted
import RuleFlow.Proofs.Json.Written
import RuleFlow.Proofs.KeyCache
import RuleFlow.Proofs.Locks
import RuleFlow.Proofs.Outcome
import RuleFlow.Proofs.Pattern
import RuleFlow.Proofs.Plan
import RuleFlow.Proofs.Script.Heap
import RuleFlow.Proofs.Script.Literal
import RuleFlow.Proofs.Script.Scan
import RuleFlow.Proofs.Script.Splice
import RuleFlow.Proofs.Script.Unchanged
import RuleFlow.Proofs.Script.Units
import RuleFlow.Proofs.Scripted
import RuleFlow.Proofs.Service.Agreement
import RuleFlow.Proofs.Service.Checking
import RuleFlow.Proofs.Service.Consistent
import RuleFlow.Proofs.Service.History
import RuleFlow.Proofs.Service.Isolation
import RuleFlow.Proofs.Service.Nameless
import RuleFlow.Proofs.Service.Names
import RuleFlow.Proofs.Service.Operations
import RuleFlow.Proofs.Service.Paging
import RuleFlow.Proofs.Service.Recovery
import RuleFlow.Proofs.Service.Restoring
import RuleFlow.Proofs.Service.Rollback
import RuleFlow.Proofs.Service.Salvage
import RuleFlow.Proofs.Services
import RuleFlow.Proofs.Stores
import RuleFlow.Proofs.Table
import RuleFlow.Proofs.Template
import RuleFlow.Proofs.Traversal.Course
import RuleFlow.Proofs.Traversal.CutShort
import RuleFlow.Proofs.Traversal.Debug
import RuleFlow.Proofs.Traversal.Failure
import RuleFlow.Proofs.Traversal.Lineage
import RuleFlow.Proofs.Traversal.Log
import RuleFlow.Proofs.Traversal.Run
import RuleFlow.Proofs.Traversal.Trail
import RuleFlow.Proofs.Traversal.Walk
import RuleFlow.Proofs.Traversal.Ways
import RuleFlow.Repository
import RuleFlow.Script.Convert
import RuleFlow.Script.Evaluate
import RuleFlow.Script.Fault
import RuleFlow.Script.Object
import RuleFlow.Script.Parse
import RuleFlow.Script.Run
import RuleFlow.Script.Syntax
import RuleFlow.Script.Token
import RuleFlow.Service
import RuleFlow.Settings
import RuleFlow.Settings.Environment
import RuleFlow.Settings.Given
import RuleFlow.Settings.Load
import RuleFlow.Stores
import RuleFlow.Subject
import RuleFlow.Table
import RuleFlow.Template
import RuleFlow.Text.Blank
import RuleFlow.Text.Hex
import RuleFlow.Text.Letter
import RuleFlow.Text.Printable
import RuleFlow.Text.Quoted
import RuleFlow.Text.Split
import RuleFlow.Text.Units
import RuleFlow.Toml.Document
import RuleFlow.Toml.Quoted
import RuleFlow.Toml.Scalar
import RuleFlow.Toml.Value
import RuleFlow.Traversal
import RuleFlow.Url.Basic
import RuleFlow.Url.Escape
import RuleFlow.Url.Host
import RuleFlow.Url.Punycode
import RuleFlow.Uuid
