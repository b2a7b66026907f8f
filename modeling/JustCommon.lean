import JustCommon.Runs
import JustCommon.Heap
import JustCommon.OneShot
import JustCommon.Delimited
import JustCommon.KeyValues
import JustCommon.Ledger
import JustCommon.OneShotRuns
import JustCommon.Simulation
import JustCommon.Programs
import JustCommon.Basic
import JustCommon.MessageQueue
import JustCommon.BlobManager
import JustCommon.BlobRefine
import JustCommon.BlobLifetime
import JustCommon.BlobAccounting
import JustCommon.ConfigMgr
import JustCommon.Debuger
import JustCommon.DebugerStreams
import JustCommon.LogHook
import JustCommon.LogAudience
import JustCommon.PeriodicTimers
import JustCommon.DebugerTimers
import JustCommon.System
import JustCommon.ModeSync
import JustCommon.Handshake
import JustCommon.SerialCalls
import JustCommon.CallProgress
import JustCommon.Convergence
import JustCommon.ConfigDelivery
import JustCommon.ConfigLatency
import JustCommon.DebugProxy
import JustCommon.ProxyRuns
import JustCommon.ProxyStops
import JustCommon.ProxyClients
import JustCommon.HttpStatistics
import JustCommon.HttpRetries
import JustCommon.PortManager
import JustCommon.PortRegister
import JustCommon.UrlHelper
import JustCommon.UrlDecode
import JustCommon.UrlEffects
import JustCommon.UrlGrammar
import JustCommon.UrlBlobs
import JustCommon.UrlParams
import JustCommon.UrlConfig
import JustCommon.UrlPipeline
import JustCommon.ScheduleManager
import JustCommon.ScheduleRuns
import JustCommon.Environment
import JustCommon.RedirectCall
import JustCommon.ShmFailure
import JustCommon.LogSession
import JustCommon.HandshakeComplete
import JustCommon.RecordOrder
