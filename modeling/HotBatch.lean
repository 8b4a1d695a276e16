import HotBatch.Bench.Streaming
import HotBatch.Bench.Wire
import HotBatch.Core.IncrementalDecoding
import HotBatch.Core.KvRefinement
import HotBatch.Core.PrivateRun
import HotBatch.Core.RandomPeriod
import HotBatch.Core.RandomStream
import HotBatch.Core.RationalKernels
import HotBatch.Core.Sequence
import HotBatch.Core.SequenceStates
import HotBatch.Core.SlabInvariant
import HotBatch.Core.StopEmission
import HotBatch.Core.StuckSeed
import HotBatch.Foundation.Permits
import HotBatch.Foundation.StableSort
import HotBatch.Foundation.Stops
import HotBatch.Foundation.Str
import HotBatch.Foundation.Utf8Encoding
import HotBatch.Foundation.Utf8Lossy
import HotBatch.Scheduler.Allowance
import HotBatch.Scheduler.Cancellation
import HotBatch.Scheduler.Draining
import HotBatch.Scheduler.FaultIsolation
import HotBatch.Scheduler.Following
import HotBatch.Scheduler.FullAnswers
import HotBatch.Scheduler.Gauges
import HotBatch.Scheduler.Metering
import HotBatch.Scheduler.Protocol
import HotBatch.Scheduler.QueueHistories
import HotBatch.Scheduler.Wakeups
import HotBatch.Scheduler.WithinCapacity
import HotBatch.Server.Admission
import HotBatch.Server.Agreement
import HotBatch.Server.Cancellation
import HotBatch.Server.FallbackTokenizer
import HotBatch.Server.FilterChains
import HotBatch.Server.Limits
import HotBatch.Server.MatchedStop
import HotBatch.Server.Membership
import HotBatch.Server.NaiveFullAnswers
import HotBatch.Server.NaiveLedger
import HotBatch.Server.Resting
import HotBatch.Server.ShortRequests
import HotBatch.Server.StableDecoding
import HotBatch.Server.TextFilter
import HotBatch.Server.Usage
import HotBatch.Server.VisibleText
