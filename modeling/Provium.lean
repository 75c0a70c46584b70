import Provium.Agent.Handles
import Provium.Agent.NestedPointers
import Provium.Agent.ProcStream
import Provium.Agent.Process
import Provium.Agent.Relay
import Provium.Agent.Tables
import Provium.Agent.WorkerProcesses
import Provium.Agent.WorkerSyscalls
import Provium.Cli.Discovery
import Provium.Cli.RerunFailed
import Provium.Cli.Watch
import Provium.Coverage.Report
import Provium.Coverage.ReportJson
import Provium.Fixture.BuildEvents
import Provium.Fixture.BuildLock
import Provium.Fixture.BuildOut
import Provium.Fixture.CallTexts
import Provium.Fixture.DepCalls
import Provium.Fixture.Deps
import Provium.Fixture.Evict
import Provium.Fixture.Files
import Provium.Fixture.Images
import Provium.Fixture.Invalidation
import Provium.Fixture.Key
import Provium.Fixture.OneBuilder
import Provium.Fixture.PushFile
import Provium.Fixture.Scan
import Provium.Fixture.ScanBounds
import Provium.Fixture.ScanPlaces
import Provium.Fixture.Split
import Provium.Host.AgentReply
import Provium.Host.Boot
import Provium.Host.FileCursor
import Provium.Host.Instances
import Provium.Host.Lifecycle
import Provium.Host.PrintCommand
import Provium.Host.Reset
import Provium.Host.ResetWindow
import Provium.Host.Resources
import Provium.Host.Sparse
import Provium.Host.Transitions
import Provium.Lab.Barrier
import Provium.Lab.BarrierRounds
import Provium.Lab.BootAgain
import Provium.Lab.Bridge
import Provium.Lab.BridgeApart
import Provium.Lab.BridgeCanonical
import Provium.Lab.BridgeHost
import Provium.Lab.BridgeNames
import Provium.Lab.BridgePartitions
import Provium.Lab.BridgePlan
import Provium.Lab.BridgeQdisc
import Provium.Lab.BridgeRebuild
import Provium.Lab.BridgeRestore
import Provium.Lab.BridgeShaping
import Provium.Lab.BridgeTaps
import Provium.Lab.Cable
import Provium.Lab.Calls
import Provium.Lab.Contents
import Provium.Lab.FlatNames
import Provium.Lab.Losses
import Provium.Lab.Members
import Provium.Lab.Reservations
import Provium.Lab.Restore
import Provium.Lab.RestoreCall
import Provium.Lab.RestoreClean
import Provium.Lab.Snapshot
import Provium.Lab.SnapshotCall
import Provium.Lab.SnapshotThread
import Provium.Lab.Tree
import Provium.Lab.Undisturbed
import Provium.Lab.Walks
import Provium.Lab.Watchdog
import Provium.Lib.BigEndian
import Provium.Lib.Binary64
import Provium.Lib.Buckets
import Provium.Lib.Cells
import Provium.Lib.Crc
import Provium.Lib.Cursor
import Provium.Lib.Descent
import Provium.Lib.Doubled
import Provium.Lib.Entries
import Provium.Lib.Forest
import Provium.Lib.History
import Provium.Lib.JsonText
import Provium.Lib.Lockfile
import Provium.Lib.LuaLexer
import Provium.Lib.Machine
import Provium.Lib.OpenFile
import Provium.Lib.Places
import Provium.Lib.ShellWords
import Provium.Lib.Slices
import Provium.Lib.Splice
import Provium.Lib.StoredGzip
import Provium.Lib.Survey
import Provium.Lib.Table
import Provium.Lib.Utf8
import Provium.Lib.Walk
import Provium.Lib.Words
import Provium.Lua.ExecArgs
import Provium.Lua.Json
import Provium.Lua.JsonEntries
import Provium.Lua.Lifetimes
import Provium.Lua.Metadata
import Provium.Lua.Outcomes
import Provium.Lua.Pairing
import Provium.Lua.Runner
import Provium.Lua.ScopeClose
import Provium.Lua.Sizes
import Provium.Lua.TableWalks
import Provium.Lua.TestFramework
import Provium.Lua.Timeouts
import Provium.Lua.Verdict
import Provium.Nbd.Disk
import Provium.Nbd.FailRange
import Provium.Nbd.FlushCount
import Provium.Nbd.FlushFailure
import Provium.Nbd.Platter
import Provium.Nbd.Policy
import Provium.Nbd.Ragged
import Provium.Nbd.Transmission
import Provium.Protocol.Frame
import Provium.Protocol.FrameStream
import Provium.Protocol.MetaValue
import Provium.Protocol.Truncation
import Provium.Qmp.Connection
import Provium.Qmp.Effect
import Provium.Qmp.EventLog
import Provium.Qmp.Handshake
import Provium.Qmp.Lines
import Provium.Qmp.Matching
import Provium.Qmp.Replies
import Provium.Qmp.Senders
import Provium.Qmp.WaitEvent
import Provium.Qmp.Wire
import Provium.Scheduler.Account
import Provium.Scheduler.Amount
import Provium.Scheduler.Conservation
import Provium.Scheduler.Deadlock
import Provium.Scheduler.Dispatch
import Provium.Scheduler.Ledger
import Provium.Scheduler.Pool
import Provium.Scheduler.Refusal
import Provium.Scheduler.Verdict
import Provium.Scheduler.WaitSink
import Provium.Streams.Conservation
import Provium.Streams.ConsoleExpect
import Provium.Streams.Interface
import Provium.Streams.Kinds
import Provium.Streams.ReadUntil
import Provium.Vmm.CidReservation
import Provium.Vmm.DiskIds
import Provium.Vmm.DiskOwnership
import Provium.Vmm.DiskPorts
import Provium.Vmm.FilesGzip
import Provium.Vmm.KernelLine
import Provium.Vmm.QemuCommand
