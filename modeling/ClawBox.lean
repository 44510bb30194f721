import ClawBox.Admission.Lock
import ClawBox.Admission.LockInvariant
import ClawBox.Admission.LockPriority
import ClawBox.Admission.Ledger
import ClawBox.Admission.LedgerAccounting
import ClawBox.Admission.Observation
import ClawBox.Admission.Reconciliation
import ClawBox.Snapshot.Pool
import ClawBox.Snapshot.Spill
import ClawBox.Snapshot.PoolAccounting
import ClawBox.Snapshot.Pins
import ClawBox.Numa.Borrow
import ClawBox.Numa.BorrowLink
import ClawBox.Numa.BorrowAccounting
import ClawBox.Lib.Monitor
import ClawBox.Lib.MonitorLogic
import ClawBox.Lib.MonitorSolo
import ClawBox.Policy.Coordinator
import ClawBox.Policy.Acquire
import ClawBox.Policy.Batching
import ClawBox.Policy.Prefix
import ClawBox.Policy.Calls
import ClawBox.Policy.Discipline
import ClawBox.Policy.Ownership
import ClawBox.Admission.LedgerEffects
import ClawBox.Control.Session
import ClawBox.Control.Settlement
import ClawBox.Control.Draining
import ClawBox.Control.Completion
import ClawBox.Control.Launch
import ClawBox.Activity.Machine
import ClawBox.Activity.Safety
import ClawBox.Activity.Protection
import ClawBox.Pressure.Control
import ClawBox.Pressure.Undone
import ClawBox.Pressure.Polling
import ClawBox.Pressure.Runs
import ClawBox.Events.Completeness
import ClawBox.PageSnapshot.RoundTrip
import ClawBox.Rollout.Accounting
import ClawBox.Managed.Cancellation
import ClawBox.Compression.Restore
import ClawBox.Cube.Cleanup
import ClawBox.Supervisor.Outcomes
import ClawBox.Knowledge.Protocol
import ClawBox.Coalescing.SingleFlight
import ClawBox.Timing.QueueWait
import ClawBox.Knowledge.Shrinkage
import ClawBox.Replay.Translation
import ClawBox.Collector.Totals
import ClawBox.Collector.MemoryLabel
import ClawBox.Staging.SparseCopy
import ClawBox.Lib.Getopt
import ClawBox.Placement.CpuList
import ClawBox.Memory.SamplingLoop
import ClawBox.Replay.GuestBase64
import ClawBox.Lib.Tenures
import ClawBox.Qos.UsageSampler
import ClawBox.Qos.UsageAccounting
import ClawBox.Lib.JsonSorted
import ClawBox.Matrix.Experiment
import ClawBox.Matrix.ArmIdentity
import ClawBox.PolicySsh.Route
import ClawBox.Lib.Quoting
import ClawBox.PolicySsh.Launcher
import ClawBox.Cell.Cluster
import ClawBox.Cell.Reconciler
import ClawBox.Cell.Rounds
import ClawBox.Knowledge.Branches
import ClawBox.Knowledge.Generations
import ClawBox.Pressure.EventOrder
import ClawBox.HostKb.Answers
import ClawBox.Lib.Base64Url
import ClawBox.Lib.JsonSpaced
import ClawBox.PolicySsh.Envelope
import ClawBox.PolicySsh.EnvelopeRoundTrip
