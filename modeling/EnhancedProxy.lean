import EnhancedProxy.Cache.Eviction
import EnhancedProxy.Http.RoundTrip
import EnhancedProxy.Process.Token
import EnhancedProxy.ProxyServer.QueueOrder
import EnhancedProxy.ThreadPool.AtMostOnce
import EnhancedProxy.Cache.Operations
import EnhancedProxy.ProxyServer.FlowControl
import EnhancedProxy.Cache.RecencyOrder
import EnhancedProxy.Cache.MemoryCache
import EnhancedProxy.Cache.Redis
import EnhancedProxy.Cache.Staleness
import EnhancedProxy.Cache.TwoLevel
import EnhancedProxy.ProxyServer.Conservation
import EnhancedProxy.Process.ProcessMutex
import EnhancedProxy.ThreadPool.Visibility
import EnhancedProxy.ProxyServer.TunnelEvents
import EnhancedProxy.ProxyServer.OneTunnel
import EnhancedProxy.ThreadPool.Placement
import EnhancedProxy.ProxyServer.TunnelLeak
import EnhancedProxy.ProxyServer.Outstanding
import EnhancedProxy.ModifiedMuduo.EventLoopThreadPool
import EnhancedProxy.Process.Descriptors
import EnhancedProxy.Process.Respawn
import EnhancedProxy.Cache.RedisFormat
import EnhancedProxy.Cache.RedisReplies
import EnhancedProxy.Cache.RedisUpdate
import EnhancedProxy.ProxyServer.LoopTermination
import EnhancedProxy.Http.HeadEnd
import EnhancedProxy.Http.ContentLength
import EnhancedProxy.Http.FieldCase
import EnhancedProxy.Http.ParserReads
import EnhancedProxy.Http.Retry
import EnhancedProxy.ProxyServer.Assertion
import EnhancedProxy.ProxyServer.Forwarding
import EnhancedProxy.ProxyServer.Teardown
import EnhancedProxy.ThreadPool.Refusal
import EnhancedProxy.ThreadPool.Republish
import EnhancedProxy.ThreadPool.ProducerOrder
import EnhancedProxy.ThreadPool.Wakeup
import EnhancedProxy.Cache.LruHeap
import EnhancedProxy.Cache.CopyLifetime
import EnhancedProxy.Process.ListenInterval
import EnhancedProxy.Process.HandOff
import EnhancedProxy.Process.Slots
import EnhancedProxy.Cache.Linearization
import EnhancedProxy.Library.Simulation
import EnhancedProxy.ProxyServer.Dispatch
import EnhancedProxy.ProxyServer.Served
import EnhancedProxy.ThreadPool.Drain
import EnhancedProxy.ModifiedMuduo.Connections
import EnhancedProxy.ModifiedMuduo.ConnectionStages
import EnhancedProxy.ModifiedMuduo.RoundRobin
import EnhancedProxy.ModifiedMuduo.ThreadStart
import EnhancedProxy.Process.Outage
import EnhancedProxy.Library.Ownership
import EnhancedProxy.ThreadPool.LastTask
import EnhancedProxy.ProxyServer.Lifetime
import EnhancedProxy.ProxyServer.Retention
import EnhancedProxy.Library.Handles
import EnhancedProxy.ModifiedMuduo.Acceptor
import EnhancedProxy.Http.Grammar
import EnhancedProxy.ProxyServer.Attendance
import EnhancedProxy.ProxyServer.Settlement
import EnhancedProxy.ProxyServer.Rest
import EnhancedProxy.Process.Workforce
import EnhancedProxy.Cache.CacheSystem
import EnhancedProxy.Cache.Provenance
