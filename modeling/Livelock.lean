import Livelock.Lib.Dict
import Livelock.Lib.Run
import Livelock.Lib.Lease
import Livelock.MemoryStorage
import Livelock.StorageInvariant
import Livelock.StorageLease
import Livelock.StorageRun
import Livelock.MutualExclusion
import Livelock.Server
import Livelock.CommandSpec
import Livelock.ServerRun
import Livelock.ServerLease
import Livelock.Ascii
import Livelock.LiveHolder
import Livelock.Orphan
import Livelock.Password
import Livelock.Honour
import Livelock.GracePeriod
import Livelock.ClientReader
import Livelock.ReplyFraming
import Livelock.Threads
import Livelock.WithBlocks
import Livelock.Network
import Livelock.Attempt
import Livelock.LostReplies
import Livelock.Observers
import Livelock.Dump
import Livelock.ErrorAnswers
import Livelock.LiveView
import Livelock.MaintenanceTiming
import Livelock.Lib.Scan
import Livelock.ServerReader
import Livelock.Pipeline
import Livelock.Responsive
import Livelock.Handshake
import Livelock.HandshakeFirst
import Livelock.Interrupts
import Livelock.InterruptedRun
import Livelock.InterruptedStorage
import Livelock.InterruptedServer
import Livelock.ConsistentDumps
import Livelock.MaintenancePass
import Livelock.Garbage
import Livelock.TimeBudget
import Livelock.SignalEntries
import Livelock.Signals
import Livelock.ReadBack
import Livelock.ReaderAgreement
import Livelock.ProcessTree
import Livelock.ProcessInvariant
import Livelock.OwnSockets
import Livelock.ForkedProcesses
import Livelock.BlockingAcquire
import Livelock.Lib.Chunks
import Livelock.Connection
import Livelock.BufferedReader
import Livelock.CommandTask
import Livelock.WireServer
import Livelock.Restarts
import Livelock.Conversation
import Livelock.Lib.Budget
import Livelock.RequestBudget
import Livelock.BoundedMemory
import Livelock.LockService
import Livelock.RemoteService
import Livelock.LockIndependence
import Livelock.CallHistory
import Livelock.Exchange
import Livelock.GenuineAnswers
import Livelock.LockMethods
import Livelock.MethodCalls
import Livelock.Cancellation
import Livelock.GrantedLocks
