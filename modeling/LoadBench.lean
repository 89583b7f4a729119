import LoadBench.Address
import LoadBench.Address.Inet6
import LoadBench.Address.Percent
import LoadBench.Address.Url
import LoadBench.Backend
import LoadBench.Backend.Script
import LoadBench.Bytes
import LoadBench.Command
import LoadBench.Command.Reader
import LoadBench.Decimal.Shortest
import LoadBench.Engine
import LoadBench.Engine.Caller
import LoadBench.Engine.Notice
import LoadBench.Engine.Schedule
import LoadBench.Engine.Step
import LoadBench.Engine.Work
import LoadBench.Engine.Worker
import LoadBench.Environment
import LoadBench.Environment.File
import LoadBench.FairSemaphore
import LoadBench.Fault
import LoadBench.Flags
import LoadBench.Flags.Assignment
import LoadBench.Flags.Fault
import LoadBench.Flags.Help
import LoadBench.Flags.Number
import LoadBench.Flags.Parse
import LoadBench.JobQueue
import LoadBench.JobQueue.Calls
import LoadBench.JobQueue.Session
import LoadBench.Json
import LoadBench.Latch
import LoadBench.Latch.Waiters
import LoadBench.Log.Filter
import LoadBench.Log.Level
import LoadBench.Log.Pattern
import LoadBench.Main
import LoadBench.Offline
import LoadBench.Phase
import LoadBench.Program
import LoadBench.Program.Fault
import LoadBench.Proofs.Acceptance
import LoadBench.Proofs.Account
import LoadBench.Proofs.ActOrder
import LoadBench.Proofs.AddressForm
import LoadBench.Proofs.Answered
import LoadBench.Proofs.Attendance
import LoadBench.Proofs.Backpressure
import LoadBench.Proofs.Calm
import LoadBench.Proofs.Cleared
import LoadBench.Proofs.ClosedPool
import LoadBench.Proofs.CommandReading
import LoadBench.Proofs.Commute
import LoadBench.Proofs.Completion
import LoadBench.Proofs.Connections
import LoadBench.Proofs.Conservation
import LoadBench.Proofs.Custody
import LoadBench.Proofs.Delivery
import LoadBench.Proofs.Dialing
import LoadBench.Proofs.Dials
import LoadBench.Proofs.DirectCommand
import LoadBench.Proofs.DirectPhase
import LoadBench.Proofs.DirectSlot
import LoadBench.Proofs.Discipline
import LoadBench.Proofs.EarlyEnd
import LoadBench.Proofs.Enabled
import LoadBench.Proofs.EventLog
import LoadBench.Proofs.FairRun
import LoadBench.Proofs.Fits
import LoadBench.Proofs.Flow
import LoadBench.Proofs.History
import LoadBench.Proofs.InPhase
import LoadBench.Proofs.Inversion
import LoadBench.Proofs.Jam
import LoadBench.Proofs.JsonReading
import LoadBench.Proofs.KeysAndValues
import LoadBench.Proofs.LatchCounts
import LoadBench.Proofs.Ledger
import LoadBench.Proofs.LoneWorker
import LoadBench.Proofs.Measure
import LoadBench.Proofs.Move
import LoadBench.Proofs.NumberTexts
import LoadBench.Proofs.Occupancy
import LoadBench.Proofs.OuterCalls
import LoadBench.Proofs.OwnConnection
import LoadBench.Proofs.OwnCounters
import LoadBench.Proofs.Ownership
import LoadBench.Proofs.PhaseCall
import LoadBench.Proofs.PhaseEnd
import LoadBench.Proofs.PhaseMove
import LoadBench.Proofs.PhaseRecords
import LoadBench.Proofs.PhaseReport
import LoadBench.Proofs.Places
import LoadBench.Proofs.PlanLeg
import LoadBench.Proofs.PlanOrder
import LoadBench.Proofs.PlanRun
import LoadBench.Proofs.PoolStep
import LoadBench.Proofs.PooledPhase
import LoadBench.Proofs.QueueCalls
import LoadBench.Proofs.QueueEnd
import LoadBench.Proofs.QueueLength
import LoadBench.Proofs.QueueOrder
import LoadBench.Proofs.QueueRun
import LoadBench.Proofs.QueueState
import LoadBench.Proofs.QueueSteps
import LoadBench.Proofs.QueueWaits
import LoadBench.Proofs.Records
import LoadBench.Proofs.ReportLines
import LoadBench.Proofs.Rotation
import LoadBench.Proofs.Run
import LoadBench.Proofs.Sequential
import LoadBench.Proofs.Service
import LoadBench.Proofs.SettingsReading
import LoadBench.Proofs.Shutdown
import LoadBench.Proofs.Sizes
import LoadBench.Proofs.Snapshots
import LoadBench.Proofs.SpanTexts
import LoadBench.Proofs.Startup
import LoadBench.Proofs.Sturdy
import LoadBench.Proofs.Survival
import LoadBench.Proofs.Swallowing
import LoadBench.Proofs.Total
import LoadBench.Proofs.Traced
import LoadBench.Proofs.TranscriptReading
import LoadBench.Proofs.ValueTexts
import LoadBench.Proofs.Wakeups
import LoadBench.Proofs.WholeRun
import LoadBench.Proofs.WindUp
import LoadBench.Proofs.WireReading
import LoadBench.Report
import LoadBench.Report.Pieces
import LoadBench.Report.Reader
import LoadBench.Report.Sink
import LoadBench.Report.Transcript
import LoadBench.Settings
import LoadBench.Span
import LoadBench.Tally
import LoadBench.Tally.Accesses
import LoadBench.Text.Alphanumeric
import LoadBench.Text.Blank
import LoadBench.Text.Hex
import LoadBench.Text.Invisible
import LoadBench.Text.Plain
import LoadBench.Text.Quoted
import LoadBench.Text.Ranges
import LoadBench.Text.Similarity
import LoadBench.Wire.Reader
import LoadBench.Wire.Request
import LoadBench.WorkerPool
import LoadBench.Workload
