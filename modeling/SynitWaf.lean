import SynitWaf.Buffering
import SynitWaf.ClientIP
import SynitWaf.Coordinator.Connections
import SynitWaf.Coordinator.Follower
import SynitWaf.Coordinator.Rate
import SynitWaf.Go.Lower
import SynitWaf.GraphQL.Lexical
import SynitWaf.GraphQL.Protect
import SynitWaf.GraphQL.Resolution
import SynitWaf.GraphQL.Visiting
import SynitWaf.Guard.Chunks
import SynitWaf.Guard.Labels
import SynitWaf.Guard.Runes
import SynitWaf.Guard.Scoring
import SynitWaf.HostSpelling
import SynitWaf.Jwks.Bound
import SynitWaf.Jwks.Lifetime
import SynitWaf.Jwks.Parse
import SynitWaf.Jwks.Refresh
import SynitWaf.Jwks.Throttle
import SynitWaf.Llm.Agreement
import SynitWaf.Llm.Alone
import SynitWaf.Llm.Cache
import SynitWaf.Llm.Latency
import SynitWaf.Llm.Overlap
import SynitWaf.Llm.Progress
import SynitWaf.Llm.Scope
import SynitWaf.Logging.Conservation
import SynitWaf.Logging.Rotation
import SynitWaf.Receiver.Failures
import SynitWaf.Receiver.Quota
import SynitWaf.Receiver.Throttle
import SynitWaf.Receiver.Tokens
import SynitWaf.Receiver.Window
import SynitWaf.Reload.Certificates
import SynitWaf.Reload.Converge
import SynitWaf.Reload.Generations
import SynitWaf.Reload.Readiness
import SynitWaf.Reload.Targets
import SynitWaf.Reload.Verdicts
import SynitWaf.Reload.Window
import SynitWaf.Serve.AuditDetection
import SynitWaf.Serve.BasicAuth
import SynitWaf.Serve.Buckets
import SynitWaf.Serve.Compressed
import SynitWaf.Serve.Contract
import SynitWaf.Serve.IPSets
import SynitWaf.Serve.Paths
import SynitWaf.Serve.RateLimit
import SynitWaf.Serve.Rewrite
import SynitWaf.Serve.Transform
import SynitWaf.Upstream.Accounting
import SynitWaf.Upstream.Circuit
import SynitWaf.Upstream.Masking
