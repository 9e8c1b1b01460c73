import Mathlib.Data.List.AList
import Mathlib.Algebra.Order.Ring.Unbundled.Rat
import SynitWaf.Go.Strings

/-!
# The configuration

The types of `config.go`. Durations are integers in nanoseconds, a pointer to a value is an
`Option`, a Go map is an association list with distinct keys, and a floating-point number is the
rational number it denotes. The default value of a type is its zero value in Go.

* `Tenant`, with its `SecurityPolicy`;
* `AppConfig`.
-/

namespace SynitWaf

open Go

/-- `map[string]α`. -/
abbrev GoMap (α : Type) := AList fun _ : GoString => α

/-- A user and the bcrypt hash of the password. -/
structure BasicAuthCredentials where
  user : GoString
  password : GoString
  deriving DecidableEq, Inhabited

/-- A token bucket. -/
structure RateLimitPolicy where
  requestsPerMinute : ℤ
  burst : ℤ
  deriving DecidableEq, Inhabited

/-- A pattern and its replacement in response bodies. -/
structure ResponseMaskingRule where
  pattern : GoString
  replacement : GoString
  deriving DecidableEq, Inhabited

/-- Limits for GraphQL endpoints. -/
structure GraphQLProtection where
  enabled : Bool
  paths : List GoString
  blockIntrospection : Bool
  maxQueryDepth : ℤ
  maxBatchedQueries : ℤ
  maxQueryBytes : ℤ
  deriving DecidableEq, Inhabited

/-- Validation of bearer tokens. -/
structure JWTValidationConfig where
  enabled : Bool
  jwksEndpoint : GoString
  issuer : GoString
  audience : GoString
  deriving DecidableEq, Inhabited

/-- Active health checks. -/
structure HealthCheckConfig where
  interval : ℤ
  timeout : ℤ
  path : GoString
  deriving DecidableEq, Inhabited

/-- Protection of LLM endpoints. -/
structure LLMProtectionConfig where
  enabled : Bool
  mode : GoString
  action : GoString
  threshold : ℚ
  failMode : GoString
  timeout : ℤ
  maxBodyBytes : ℤ
  maxTextBytes : ℤ
  sidecarMaxBatch : ℤ
  sidecarURL : GoString
  sidecarToken : GoString
  sidecarTokenEnv : GoString
  inspectPaths : List GoString
  inspectJSONFields : List GoString
  deriving DecidableEq, Inhabited

/-- The circuit breaker of a tenant. -/
structure CircuitBreakerConfig where
  enabled : Bool
  threshold : ℤ
  cooldown : ℤ
  failureStatusCodes : List ℤ
  deriving DecidableEq, Inhabited

/-- The security features of a tenant. -/
structure SecurityPolicy where
  wafEnabled : Option Bool
  auditMode : Bool
  paranoiaLevel : ℤ
  crowdSecEnabled : Option Bool
  geoIPEnabled : Option Bool
  blockedCountries : List GoString
  includeRuleSets : List GoString
  customRules : GoString
  blockPageURL : GoString
  blockPagePath : GoString
  jwtValidation : JWTValidationConfig
  devBypassSecret : GoString
  basicAuth : List BasicAuthCredentials
  rateLimit : RateLimitPolicy
  responseMasking : List ResponseMaskingRule
  graphQL : GraphQLProtection
  llmProtection : LLMProtectionConfig
  circuitBreaker : CircuitBreakerConfig
  deriving DecidableEq, Inhabited

/-- An upstream server of the configuration. -/
structure Upstream where
  url : GoString
  responseHeaderTimeout : ℤ
  deriving DecidableEq, Inhabited

/-- Changes to request and response headers. -/
structure HeaderTransform where
  injectRequest : GoMap GoString
  stripRequest : List GoString
  injectResponse : GoMap GoString
  stripResponse : List GoString
  deriving Inhabited

/-- The configuration of one host. -/
structure Tenant where
  upstreams : List Upstream
  upstreamInsecure : Option Bool
  healthCheck : HealthCheckConfig
  headerTransform : HeaderTransform
  security : SecurityPolicy
  deriving Inhabited

/-- The limits of the connections to an upstream. -/
structure UpstreamTransport where
  maxIdleConnsPerHost : ℤ
  maxConnsPerHost : ℤ
  deriving Inhabited

/-- Certificate management. -/
structure ACMEConfig where
  enabled : Bool
  agreeTOS : Bool
  email : GoString
  storagePath : GoString
  staging : Bool
  dnsProvider : GoString
  dnsToken : GoString
  deriving Inhabited

/-- The allow and block lists. -/
structure IPSets where
  allowList : List GoString
  blockList : List GoString
  deriving Inhabited

/-- The certificates of the coordinator. -/
structure CoordinatorTLS where
  caFile : GoString
  certFile : GoString
  keyFile : GoString
  serverName : GoString
  deriving Inhabited

/-- The distributed rate limiter. -/
structure CoordinatorConfig where
  enabled : Bool
  role : GoString
  address : GoString
  secret : GoString
  tls : CoordinatorTLS
  deriving Inhabited

/-- The settings of the whole process. -/
structure GlobalSettings where
  logLevel : GoString
  requestBodyLimit : ℤ
  responseBufferLimit : ℤ
  responseMaskingLimit : ℤ
  rulesDir : GoString
  oversizeAction : GoString
  dependencyFailMode : GoString
  allowInsecureServiceURLs : Bool
  readTimeout : ℤ
  writeTimeout : ℤ
  idleTimeout : ℤ
  adminAddress : GoString
  upstreamTransport : UpstreamTransport
  globalRateLimit : RateLimitPolicy
  trustForwardedFor : Bool
  trustedProxyCIDRs : List GoString
  acme : ACMEConfig
  ipSets : IPSets
  coordinator : CoordinatorConfig
  deriving Inhabited

/-- A log file. -/
structure LogSink where
  enabled : Bool
  path : GoString
  format : GoString
  deriving Inhabited

/-- The log forwarder. -/
structure LogForwarder where
  enabled : Bool
  url : GoString
  token : GoString
  deriving Inhabited

/-- Logging. -/
structure LoggingConfig where
  accessLog : LogSink
  errorLog : LogSink
  logForwarder : LogForwarder
  deriving Inhabited

/-- The connection to CrowdSec; an unset `cacheTTL` selects the default. -/
structure CrowdSecConfig where
  apiUrl : GoString
  apiKey : GoString
  cacheTTL : Option ℤ
  deriving Inhabited

/-- The root of the configuration. -/
structure AppConfig where
  globalSettings : GlobalSettings
  logging : LoggingConfig
  crowdSec : CrowdSecConfig
  geoIPDBPath : GoString
  wafRuleSets : GoMap GoString
  tenants : GoMap Tenant
  builtinLLMRules : Bool
  deriving Inhabited

end SynitWaf
