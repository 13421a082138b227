import OrderedLog.ConflictCache.Request
import OrderedLog.StandIn.Session
import OrderedLog.Journal.Counter
import OrderedLog.Json.Codec
import OrderedLog.Sequencer.Request
import OrderedLog.StopSignal.Handles
import OrderedLog.SortedMap.Lemmas
import OrderedLog.Workload.Conflicts
import OrderedLog.Workload.Snapshots
import OrderedLog.Proofs.Eviction.Draining
import OrderedLog.Proofs.Sequencer.Serializability
import OrderedLog.Proofs.SnapshotCache.Batches
import OrderedLog.Proofs.Refresh.CounterRounds
import OrderedLog.Proofs.Refresh.Rounds
import OrderedLog.Proofs.SnapshotCache.Reconciliation
import OrderedLog.Proofs.SnapshotCache.Refinement
import OrderedLog.Proofs.Journal.Sums
import OrderedLog.Proofs.Journal.CachedReads
import OrderedLog.Proofs.Journal.SharedCounters
import OrderedLog.Proofs.Journal.ReadLocks
import OrderedLog.Proofs.Journal.TruthfulReads
import OrderedLog.Proofs.Journal.ConcurrentReads
import OrderedLog.Proofs.ConflictCache.Tidiness
import OrderedLog.Proofs.ConflictCache.Extent
import OrderedLog.Proofs.Sequencer.Extent
import OrderedLog.Proofs.ConflictCache.Representation
import OrderedLog.Proofs.ConflictCache.Window
import OrderedLog.Proofs.ConflictCache.JudgingOrders
import OrderedLog.Proofs.ConflictCache.LargerCapacity
import OrderedLog.Proofs.ConflictCache.Regressions
import OrderedLog.Proofs.ConflictCache.RecentPart
import OrderedLog.Proofs.ConflictCache.Verdicts
import OrderedLog.Proofs.Sequencer.Handover
import OrderedLog.Proofs.Sequencer.Finality
import OrderedLog.Proofs.Sequencer.Attribution
import OrderedLog.Proofs.ConflictCache.LastWrites
import OrderedLog.Proofs.Sequencer.Assignment
import OrderedLog.Proofs.Sequencer.StreamTails
import OrderedLog.Proofs.Sequencer.FirstCommitter
import OrderedLog.Proofs.Sequencer.Acceptance
import OrderedLog.Proofs.ConflictCache.MinimalEviction
import OrderedLog.Proofs.Journal.WrittenStreams
import OrderedLog.Proofs.Journal.Agreement
import OrderedLog.Proofs.Journal.ReadValues
import OrderedLog.Proofs.Journal.CounterRuns
import OrderedLog.Proofs.Journal.ReadsAhead
import OrderedLog.Proofs.ConflictCache.Trims
import OrderedLog.Proofs.ConflictCache.TrimmedVerdicts
import OrderedLog.Proofs.InPlace
import OrderedLog.Proofs.ConflictCache.RefusedWrites
import OrderedLog.Proofs.Sequencer.Calls
import OrderedLog.Proofs.Sequencer.FailedCalls
import OrderedLog.Proofs.ConflictCache.Balance
import OrderedLog.Proofs.StopSignal.WakeUps
import OrderedLog.Proofs.SnapshotCache.Registrations
import OrderedLog.Proofs.Refresh.Convergence
import OrderedLog.Proofs.Sequencer.VerdictCounts
import OrderedLog.Proofs.SnapshotCache.VersionBooks
import OrderedLog.Proofs.Text.Displays
import OrderedLog.Proofs.Json.Decoding
import OrderedLog.Proofs.Journal.Replays
import OrderedLog.Proofs.ConflictCache.EvictionLoops
