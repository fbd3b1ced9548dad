import Arenyxa.Audit.Evidence
import Arenyxa.Audit.FailOperational
import Arenyxa.Capture.Authority
import Arenyxa.Capture.CaptureExact
import Arenyxa.Capture.ChunkedGrammar
import Arenyxa.Capture.DnsCompression
import Arenyxa.Capture.FilterSafety
import Arenyxa.Capture.Finality
import Arenyxa.Capture.Http2Reassembly
import Arenyxa.Capture.Http2Stream
import Arenyxa.Capture.Independence
import Arenyxa.Capture.MatchFraming
import Arenyxa.Capture.NativeCapture
import Arenyxa.Capture.PersistenceOrder
import Arenyxa.Capture.QuicInitial
import Arenyxa.Capture.Reassembled
import Arenyxa.Capture.Relay
import Arenyxa.Capture.RequestFraming
import Arenyxa.Capture.RuleFraming
import Arenyxa.Capture.WebSocketStream
import Arenyxa.Crawler.CacheEntries
import Arenyxa.Crawler.Distance
import Arenyxa.Distributed.BatchLease
import Arenyxa.Distributed.Budget
import Arenyxa.Distributed.Capacity
import Arenyxa.Distributed.CrawlIsolation
import Arenyxa.Distributed.Equivalence
import Arenyxa.Distributed.Fencing
import Arenyxa.Distributed.Idempotency
import Arenyxa.Distributed.Journal
import Arenyxa.Distributed.LeaseClock
import Arenyxa.Distributed.Receipts
import Arenyxa.Distributed.Restart
import Arenyxa.Distributed.SideEffects
import Arenyxa.Distributed.StorageCircuit
import Arenyxa.Enterprise.Atomicity
import Arenyxa.Enterprise.Challenges
import Arenyxa.Enterprise.Credentials
import Arenyxa.Enterprise.PasswordGuessing
import Arenyxa.Enterprise.RateLimits
import Arenyxa.Enterprise.Reissue
import Arenyxa.Enterprise.Sessions
import Arenyxa.Enterprise.Submissions
import Arenyxa.Enterprise.VaultHandles
import Arenyxa.Export.Lossless
import Arenyxa.Fetch.Reach
import Arenyxa.Fetch.Retry
import Arenyxa.Jobs.Finality
import Arenyxa.Jobs.Retirement
import Arenyxa.Lib.Chain
import Arenyxa.Lib.Cursor
import Arenyxa.Lib.History
import Arenyxa.Lib.Loop
import Arenyxa.Lib.Machine
import Arenyxa.Lib.Outcome
import Arenyxa.Lib.Records
import Arenyxa.Lib.Retention
import Arenyxa.Lib.Search
import Arenyxa.Lib.Segments
import Arenyxa.Lib.SortedSet
import Arenyxa.Lib.Table
import Arenyxa.Lib.Topological
import Arenyxa.Lib.Trace
import Arenyxa.Lib.Words
import Arenyxa.Lineage.Graph
import Arenyxa.Lineage.Versions
import Arenyxa.Network.Budgets
import Arenyxa.Network.Protection
import Arenyxa.Pipeline.Checkpoints
import Arenyxa.Pipeline.Immutability
import Arenyxa.Pipeline.Paging
import Arenyxa.Pipeline.Resumption
import Arenyxa.Project.Unpacked
import Arenyxa.Replay.JsonDiff
import Arenyxa.Replay.Slots
import Arenyxa.Requests.Curl
import Arenyxa.Runs.Conservation
import Arenyxa.Runs.Handle
import Arenyxa.Runs.RateSpacing
import Arenyxa.Runs.RequestSlots
import Arenyxa.Runs.Results
import Arenyxa.Runs.Shutdown
import Arenyxa.Runs.Snapshots
import Arenyxa.Runs.Waiting
import Arenyxa.Scheduler.Exclusion
import Arenyxa.Security.Authorization
import Arenyxa.Workflow.Edits
import Arenyxa.Workflow.OrderIndependence
import Arenyxa.ZeroTrust.FailClosed
