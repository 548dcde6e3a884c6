import DragonRuntime.HeapPrealloc
import DragonRuntime.PriorityHeapQueue
import DragonRuntime.WorkingSetFresh
import DragonRuntime.ManagerWakeups
import DragonRuntime.BatchHazards
import DragonRuntime.StreamedBatchPut
import DragonRuntime.BCastAttach
import DragonRuntime.JoinableQueue
import DragonRuntime.BarrierRounds
import DragonRuntime.ChannelBlocks
import DragonRuntime.FliStreams
import DragonRuntime.FliFidelity
import DragonRuntime.NativeLock
import DragonRuntime.NativeReferences
import DragonRuntime.ProcessGroupEntries
import DragonRuntime.ProcessGroupJoins
import DragonRuntime.ProcessGroupRequests
import DragonRuntime.ProcessGroupStops
import DragonRuntime.BatchChunks
import DragonRuntime.ClientQueues
import DragonRuntime.FifoLockRotation
import DragonRuntime.BatchCoreBudget
import DragonRuntime.BatchMnjRequests
import DragonRuntime.ConnectionRuns
import DragonRuntime.FetchAdd
import DragonRuntime.ManagerWaitFor
import DragonRuntime.PmiPids
import DragonRuntime.PolicyFailures
import DragonRuntime.TcpServerTasks
import DragonRuntime.TransportReads
import DragonRuntime.TransportWrites
import DragonRuntime.WorkingSetClear
import DragonRuntime.WorkingSetItems
import DragonRuntime.ChannelSets
import DragonRuntime.CheckpointPersister
import DragonRuntime.ManagerBroadcast
import DragonRuntime.ManagerFilter
import DragonRuntime.BCastExits
import DragonRuntime.PriorityMultiMap
import DragonRuntime.Semaphore
import DragonRuntime.ManifestCalls
import DragonRuntime.MemoryWindows
import DragonRuntime.HashtableRehash
import DragonRuntime.HostId
import DragonRuntime.Timespec
import DragonRuntime.ProcessGroupSignals
import DragonRuntime.BlocksIteration
import DragonRuntime.HeapPowerof2
import DragonRuntime.Base64
