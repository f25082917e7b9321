import SimplyProxy.Base.KeyMap
import SimplyProxy.Base.RoundRobin
import SimplyProxy.Base.Run
import SimplyProxy.Base.Rotation
import SimplyProxy.Base.SlidingWindow
import SimplyProxy.Base.Authority
import SimplyProxy.Base.MediaType
import SimplyProxy.Base.Binary64
import SimplyProxy.Base.JsonText
import SimplyProxy.Base.JsonRoundTrip
import SimplyProxy.Base.JsonTree
import SimplyProxy.Base.DataFormat
import SimplyProxy.Platform.Outcome
import SimplyProxy.Platform.Time
import SimplyProxy.Platform.Http
import SimplyProxy.Platform.Pingora
import SimplyProxy.RateLimit.Limiter
import SimplyProxy.RateLimit.Sequential
import SimplyProxy.RateLimit.Concurrent
import SimplyProxy.RateLimit.Interleaved
import SimplyProxy.RateLimit.Lateness
import SimplyProxy.RateLimit.Isolation
import SimplyProxy.Conf.Resolved
import SimplyProxy.Conf.Order
import SimplyProxy.Conf.Yaml
import SimplyProxy.Utils.HostPort
import SimplyProxy.Utils.EffectivePort
import SimplyProxy.Proxy.Json
import SimplyProxy.Proxy.SerdeReference
import SimplyProxy.Proxy.Route
import SimplyProxy.Proxy.SimpleProxy
import SimplyProxy.Proxy.BodyFilter
import SimplyProxy.Proxy.JsonDocument
import SimplyProxy.Proxy.Requests
import SimplyProxy.Proxy.ClientLimit
import SimplyProxy.Proxy.Routing
import SimplyProxy.Proxy.HostSources
import SimplyProxy.Proxy.Selection
import SimplyProxy.Proxy.Panics
import SimplyProxy.Proxy.HostCase
import SimplyProxy.Proxy.Operations
import SimplyProxy.Proxy.Memory
import SimplyProxy.Proxy.RetryAfter
import SimplyProxy.Proxy.Chain
import SimplyProxy.Proxy.ContentType
import SimplyProxy.Proxy.Framing
import SimplyProxy.Proxy.Serving
import SimplyProxy.Proxy.Balance
import SimplyProxy.Proxy.Contract
import SimplyProxy.Proxy.Failures
import SimplyProxy.Main
import SimplyProxy.Example.Users
import SimplyProxy.Example.Store
import SimplyProxy.Example.Handlers
import SimplyProxy.Example.Proxied
