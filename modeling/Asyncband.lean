import Asyncband.Transition
import Asyncband.Table
import Asyncband.Fifo
import Asyncband.Arena
import Asyncband.WaitList
import Asyncband.Semaphore
import Asyncband.SemaphoreRounds
import Asyncband.SemaphoreInvariant
import Asyncband.SemaphoreEffect
import Asyncband.SemaphoreCoupling
import Asyncband.SemaphoreBalance
import Asyncband.SemaphoreOrder
import Asyncband.SemaphoreLease
import Asyncband.SemaphoreClient
import Asyncband.SemaphoreGuard
import Asyncband.SemaphoreHint
import Asyncband.RwLock
import Asyncband.UpgradableRwLock
import Asyncband.UpgradableTokens
import Asyncband.AtomicUpgrade
import Asyncband.Backlog
import Asyncband.BacklogRefinement
import Asyncband.BoundedBroadcast
import Asyncband.BroadcastCoverage
import Asyncband.BroadcastProgress
import Asyncband.Receiving
import Asyncband.MpmcQueue
import Asyncband.MpmcCapacity
import Asyncband.SpmcQueue
import Asyncband.SpmcDelivery
import Asyncband.RecvProgress
import Asyncband.Oneshot
import Asyncband.OneshotOwnership
import Asyncband.OneshotWakeup
import Asyncband.Phaser
import Asyncband.PhaserAccounting
import Asyncband.PhaserWaits
import Asyncband.PhaserRendezvous
import Asyncband.PhaserCompletion
import Asyncband.BroadcastChannel
import Asyncband.BroadcastReceivers
import Asyncband.BroadcastDelivery
import Asyncband.BroadcastFamilies
import Asyncband.BroadcastRuns
import Asyncband.BroadcastOrder
import Asyncband.BroadcastWakeups
import Asyncband.BoundedPool
import Asyncband.BoundedPoolCapacity
import Asyncband.AutoResetEvent
import Asyncband.AutoResetSignals
import Asyncband.ManualResetEvent
import Asyncband.ManualResetCohorts
import Asyncband.Condvar
import Asyncband.CondvarSelections
import Asyncband.MpscInbox
import Asyncband.MpscBounded
import Asyncband.MpscBoundedSlots
import Asyncband.MpscUnbounded
import Asyncband.MpscUnboundedRefinement
import Asyncband.Barrier
import Asyncband.BarrierGenerations
import Asyncband.Latch
import Asyncband.Completion
import Asyncband.WaitGroup
import Asyncband.OneShotPrimitives
import Asyncband.Shutdown
import Asyncband.Watch
import Asyncband.WatchObservation
import Asyncband.OnceCell
import Asyncband.Once
import Asyncband.OnceInitialization
import Asyncband.ArenaOperations
import Asyncband.BoundedPoolReplenish
import Asyncband.PoolRetain
import Asyncband.PoolStock
import Asyncband.UnboundedPool
import Asyncband.WaitListRefinement
import Asyncband.WakerBatch
import Asyncband.SemaphoreOverflow
import Asyncband.Parker
import Asyncband.ParkerWakeups
import Asyncband.ParkerProgress
