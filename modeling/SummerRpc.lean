import SummerRpc.Lib.Transition
import SummerRpc.Transport.RoundTrip
import SummerRpc.Transport.Client
import SummerRpc.Connection.Wakeup
import SummerRpc.Connection.Frames
import SummerRpc.Pool.Reconnect
import SummerRpc.Pool.Sharing
import SummerRpc.Pool.Waiters
import SummerRpc.Pool.Leaks
import SummerRpc.Server.IdleScan
import SummerRpc.Session.Correlation
import SummerRpc.Server.Accounting
import SummerRpc.Server.Concurrency
import SummerRpc.Transport.Requests
import SummerRpc.RateLimiter.RedisTokenBucket
import SummerRpc.Pool.Remotes
import SummerRpc.Message.RoundTrip
import SummerRpc.Message.Pickle
import SummerRpc.Registry.Agreement
import SummerRpc.Service.Names
import SummerRpc.RateLimiter.Polling
import SummerRpc.Transport.ReadEnds
import SummerRpc.Connection.SimpleHttp
import SummerRpc.Registry.Discovery
import SummerRpc.Connection.BackPressure
import SummerRpc.Helper.LRUCacheLinks
import SummerRpc.Service.FailedExport
import SummerRpc.Service.Subprocess
import SummerRpc.RateLimiter.Expiry
import SummerRpc.Message.Interchange
import SummerRpc.Server.NeverStuck
import SummerRpc.Registry.Registration
import SummerRpc.Registry.Cluster
import SummerRpc.ConfigurationCenter.Convergence
import SummerRpc.Session.Proxies
import SummerRpc.Session.Pairs
import SummerRpc.Session.Protocol
import SummerRpc.Helper.Singleton
import SummerRpc.Helper.BaseSocket
import SummerRpc.Helper.RetryPolicy
import SummerRpc.Session.Deliveries
import SummerRpc.Session.Beats
import SummerRpc.Pool.RightRemote
