import Rdmas.Soundness.CuckooFailure
import Rdmas.Soundness.ExtentReader
import Rdmas.Soundness.SweepTimer
import Rdmas.Soundness.SpaceAccounting
import Rdmas.Soundness.OversizePayloads
import Rdmas.Soundness.LeaseTakeover
import Rdmas.Soundness.LeaseClock
import Rdmas.Soundness.LockedDeletion
import Rdmas.Soundness.SwapProgress
import Rdmas.Soundness.RegionBounds
import Rdmas.Soundness.RegisteredReaders
import Rdmas.Soundness.RemotePrograms
import Rdmas.Soundness.RemoteReaders
import Rdmas.Soundness.BatchFlushes
import Rdmas.Soundness.ReservedHash
import Rdmas.Soundness.ClientLanding
import Rdmas.Soundness.LockFree
import Rdmas.Soundness.LockWords
import Rdmas.Soundness.Slab
import Rdmas.Soundness.LruThreads
import Rdmas.Soundness.ConnectorFutures
import Rdmas.Soundness.TenantIsolation
import Rdmas.Soundness.DirectorReports
import Rdmas.Soundness.CacheReads
import Rdmas.Soundness.FallbackPolling
import Rdmas.Soundness.RemoteCas
import Rdmas.Soundness.TcpAbandon
import Rdmas.Soundness.ServerRestarts
import Rdmas.Soundness.BackupReads
import Rdmas.Soundness.Retry
import Rdmas.Soundness.LockFreeInserts
import Rdmas.Soundness.RdmaBatch
