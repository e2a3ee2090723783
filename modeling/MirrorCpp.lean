import MirrorCpp.Lib.Text
import MirrorCpp.Lib.Json
import MirrorCpp.Lib.JsonCompact
import MirrorCpp.Lib.JsonGuard
import MirrorCpp.Lib.Descriptors
import MirrorCpp.Lib.BigInt
import MirrorCpp.Lib.Fallible
import MirrorCpp.Lib.SortedMap
import MirrorCpp.Lib.Run
import MirrorCpp.Lib.Monitor
import MirrorCpp.Lib.PrefixTree
import MirrorCpp.Names
import MirrorCpp.Sync.State
import MirrorCpp.Sync.Hook
import MirrorCpp.Sync.Execution
import MirrorCpp.Sync.Frame
import MirrorCpp.Sync.Construct
import MirrorCpp.Sync.Handshake
import MirrorCpp.Sync.Live
import MirrorCpp.Sync.Resources
import MirrorCpp.Sync.Texts
import MirrorCpp.Sync.Settled
import MirrorCpp.Sync.Book
import MirrorCpp.Sync.Sticky
import MirrorCpp.Sync.Containment
import MirrorCpp.Sync.Verdict
import MirrorCpp.Sync.Budget
import MirrorCpp.Sync.Evidence
import MirrorCpp.Sync.Receipt
import MirrorCpp.Sync.Drive
import MirrorCpp.Sync.Programs
import MirrorCpp.Sync.Explore
import MirrorCpp.Sync.Rows
import MirrorCpp.Sync.Replay
import MirrorCpp.Itf.Value
import MirrorCpp.Itf.Codec
import MirrorCpp.Itf.Equality
import MirrorCpp.Exploration.Canonical
import MirrorCpp.Exploration.CanonicalKey
import MirrorCpp.Protocol.Message
import MirrorCpp.Protocol.Total
import MirrorCpp.Protocol.Integers
import MirrorCpp.Protocol.Texts
import MirrorCpp.Protocol.Request
import MirrorCpp.Protocol.Phase
import MirrorCpp.Protocol.Hints
import MirrorCpp.Interface.Strict
import MirrorCpp.Interface.Digest
import MirrorCpp.Interface.Nesting
import MirrorCpp.Interface.Grammar
import MirrorCpp.Interface.Contract
import MirrorCpp.Interface.Registration
import MirrorCpp.Client.Flow
import MirrorCpp.Client.Stepping
import MirrorCpp.Client.Conformance
import MirrorCpp.Client.Session
import MirrorCpp.Client.SessionTraffic
import MirrorCpp.Client.Jobs
import MirrorCpp.Client.Frames
import MirrorCpp.Client.Negotiated
import MirrorCpp.Client.FailClosed
import MirrorCpp.Schedule.Document
import MirrorCpp.Schedule.Codec
import MirrorCpp.Schedule.State
import MirrorCpp.Schedule.Execution
import MirrorCpp.Schedule.Frame
import MirrorCpp.Schedule.Admission
import MirrorCpp.Schedule.Course
import MirrorCpp.Schedule.Places
import MirrorCpp.Schedule.WellFormed
import MirrorCpp.Schedule.Quiescence
import MirrorCpp.Schedule.Lifecycle
import MirrorCpp.Schedule.Receipt
import MirrorCpp.Schedule.Binding
import MirrorCpp.Schedule.Retention
import MirrorCpp.Schedule.Texts
import MirrorCpp.Schedule.Comparison
import MirrorCpp.Schedule.Log
import MirrorCpp.Schedule.RunSchedule
import MirrorCpp.Schedule.Identity
import MirrorCpp.Lib.Merge
import MirrorCpp.Lib.Interleaving
import MirrorCpp.Exploration.Space
import MirrorCpp.Exploration.Admissible
import MirrorCpp.Exploration.Enumeration
import MirrorCpp.Exploration.Evidence
import MirrorCpp.Exploration.Qualified
import MirrorCpp.Exploration.Campaign
import MirrorCpp.Exploration.Attempts
import MirrorCpp.Exploration.Covering
import MirrorCpp.Exploration.Completeness
import MirrorCpp.Exploration.Accounting
import MirrorCpp.Exploration.Visited
import MirrorCpp.Exploration.Verdict
import MirrorCpp.Exploration.LocalRunner
import MirrorCpp.Transport.Line
import MirrorCpp.Transport.Http
import MirrorCpp.Registry.Discovery
import MirrorCpp.Transport.Tls
import MirrorCpp.Transport.Readers
import MirrorCpp.Transport.Spawn
import MirrorCpp.Registry.Connect
import MirrorCpp.Lib.Worklist
import MirrorCpp.Spec.Sources
import MirrorCpp.Spec.Comments
import MirrorCpp.Spec.Closure
import MirrorCpp.Lib.Settling
import MirrorCpp.Schedule.Programs
import MirrorCpp.Schedule.Replay
