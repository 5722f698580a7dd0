import Rtl.Base.Machine
import Rtl.Base.Leads
import Rtl.Base.ListUpdate
import Rtl.Base.KeyedList
import Rtl.Base.Linked
import Rtl.Base.CondVar
import Rtl.Base.BoundedFifo
import Rtl.Base.UndoLog
import Rtl.Base.Chunks
import Rtl.Base.Spans
import Rtl.Base.Paths
import Rtl.Base.KeywordValue
import Rtl.Base.Teardown
import Rtl.Base.Layout
import Rtl.Base.Holes
import Rtl.Base.Heap
import Rtl.Stp.Container
import Rtl.Stp.Queue
import Rtl.Stp.QueueHistory
import Rtl.Stp.QueueWakeup
import Rtl.Stp.PriorityQueue
import Rtl.Stp.LockFreeQueue
import Rtl.Stp.LockFreeOrder
import Rtl.Stp.LockFreeFifo
import Rtl.Stp.Tasks
import Rtl.Stp.TaskTokens
import Rtl.Stp.TaskLedger
import Rtl.Stp.TaskProgress
import Rtl.Stp.ThreadPool
import Rtl.Stp.PoolControl
import Rtl.Stp.PoolRuns
import Rtl.Stp.PoolDrain
import Rtl.Stp.PeriodicStop
import Rtl.Stp.StaticThreadPool
import Rtl.Stp.StaticPoolJoin
import Rtl.Stp.Timer
import Rtl.Stp.TimerWaits
import Rtl.Stp.TimerExpiry
import Rtl.Stp.TimerWakeup
import Rtl.Stp.TimerProgress
import Rtl.Coro.Task
import Rtl.Coro.Direct
import Rtl.Coro.SyncWait
import Rtl.Coro.Chain
import Rtl.Coro.Handoff
import Rtl.Coro.Nest
import Rtl.Coro.System
import Rtl.Coro.Refinement
import Rtl.Coro.Lifetime
import Rtl.Coro.NestedCalls
import Rtl.Coro.Ownership
import Rtl.Coro.OwnershipTree
import Rtl.Coro.FramesOnce
import Rtl.Db.PoolState
import Rtl.Db.PoolWakeup
import Rtl.Db.Lease
import Rtl.Db.LeaseConservation
import Rtl.Db.Errors
import Rtl.Db.Connection
import Rtl.Db.ActiveFlag
import Rtl.Db.Transaction
import Rtl.Db.WorkLifetime
import Rtl.Db.Retry
import Rtl.Db.Savepoint
import Rtl.Db.SavepointStack
import Rtl.Db.SavepointUndo
import Rtl.Db.ConnectionString
import Rtl.Ws.Request
import Rtl.Ws.Session
import Rtl.Ws.Outbox
import Rtl.Ws.SingleWriter
import Rtl.Ws.Lifecycle
import Rtl.Ws.WriteFront
import Rtl.Ws.QueueLimits
import Rtl.Ws.Drain
import Rtl.Ws.WsServer
import Rtl.Ws.Registry
import Rtl.Ws.OpenSessions
import Rtl.Ws.ServerStop
import Rtl.Ws.ServerRestart
import Rtl.Ws.SessionDrive
import Rtl.Ws.SessionEnds
import Rtl.Ws.Json
import Rtl.Ws.Protocol
import Rtl.Ws.ChunkRoundTrip
import Rtl.Ws.ChunkAcceptance
import Rtl.Ws.ChunkLimits
import Rtl.Ws.Checksum
import Rtl.Ws.MessageCodec
import Rtl.Ws.App
import Rtl.Ws.Handshake
import Rtl.Ws.AuthGate
import Rtl.Ws.Routing
import Rtl.Ws.ClientWrites
import Rtl.Ws.Client
import Rtl.Ws.ClientSteps
import Rtl.Ws.ClientClose
import Rtl.Ws.ClientHeartbeat
import Rtl.Ws.ClientReads
import Rtl.Alloc.BlockAllocator
import Rtl.Alloc.Tiling
import Rtl.Alloc.Coalescing
import Rtl.Alloc.Records
import Rtl.Alloc.FreeBytes
import Rtl.Alloc.LinearAllocator
import Rtl.Core.Config
import Rtl.Core.ConfigPaths
import Rtl.Core.ConfigNumbers
import Rtl.Protocol.Request
import Rtl.Protocol.I7580Message
import Rtl.Protocol.RoundTrip
import Rtl.Protocol.Truncation
import Rtl.Protocol.Exchange
