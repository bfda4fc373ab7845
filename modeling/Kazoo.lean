import Kazoo.SessionStates
import Kazoo.Conservation
import Kazoo.Matching
import Kazoo.CrossTalk
import Kazoo.StaleClose
import Kazoo.WakeUp
import Kazoo.BadRequest
import Kazoo.Watches
import Kazoo.Recipe.LockExclusion
import Kazoo.Replies
import Kazoo.RequestFrames
import Kazoo.Protocol.Paths
import Kazoo.Protocol.CanonicalPaths
import Kazoo.Chroot
import Kazoo.Recipe.NeverForgotten
import Kazoo.Recipe.FailedAcquire
import Kazoo.Recipe.ExactlyOnce
import Kazoo.Recipe.SemaphoreCapacity
import Kazoo.Recipe.PartitionOwnership
import Kazoo.MakePath
import Kazoo.Recipe.Queue
import Kazoo.Recipe.BarrierProgress
import Kazoo.Recipe.BarrierEntry
import Kazoo.Recipe.LockingExclusion
import Kazoo.Recipe.BlockedGet
import Kazoo.Recipe.ChildrenWatch
import Kazoo.Recipe.DataWatch
import Kazoo.JsonText
import Kazoo.Lib.Gregorian
import Kazoo.Recipe.LeaseText
import Kazoo.Recipe.Lease
import Kazoo.ConnectLoop
import Kazoo.Transactions
import Kazoo.Truncation
import Kazoo.Lib.Paced
import Kazoo.Protocol.Framing
import Kazoo.AsyncResult
import Kazoo.EnsurePath
import Kazoo.Lib.OneShot
import Kazoo.Recipe.TreeCache
import Kazoo.Recipe.TreeShape
import Kazoo.DeleteRecursive
import Kazoo.Retry
import Kazoo.RetryDelays
import Kazoo.Recipe.SequenceOrder
import Kazoo.Recipe.AcquireCalls
import Kazoo.Recipe.CancelledAcquire
import Kazoo.Recipe.LeaseOwned
import Kazoo.Recipe.SemaphoreSizes
import Kazoo.Recipe.QueuePriority
import Kazoo.Recipe.LockingReports
import Kazoo.Recipe.DefaultPartition
import Kazoo.Recipe.PartitionStates
import Kazoo.Recipe.LostLock
import Kazoo.Recipe.MultiLease
import Kazoo.Recipe.TreeRuns
import Kazoo.Recipe.TreeDeletion
import Kazoo.Recipe.TreeClosing
import Kazoo.Recipe.TreeTraversal
import Kazoo.Recipe.PatientWatch
import Kazoo.Recipe.SpentLocks
import Kazoo.Recipe.StoredLocks
import Kazoo.Recipe.FinishedPartitioner
import Kazoo.Recipe.TreeLookups
import Kazoo.Lib.Adjacent
import Kazoo.Recipe.Predecessor
import Kazoo.Recipe.TreeCounting
import Kazoo.SelectorSelect
import Kazoo.FoundServer
import Kazoo.RwPinger
import Kazoo.Heartbeat
import Kazoo.Handlers.Stopping
import Kazoo.Recipe.LockOrder
import Kazoo.Recipe.Election
import Kazoo.Recipe.BarrierWait
import Kazoo.SystemImage
import Kazoo.Recipe.PartyRollCall
import Kazoo.AsyncWaiters
import Kazoo.Lib.Supplied
import Kazoo.Credentials
import Kazoo.Recipe.PartitionCoverage
import Kazoo.SyncedReads
