import SynitWaf.Go.Errors
import SynitWaf.Go.Netip
import SynitWaf.Registry

/-!
# Validation of a configuration

`ValidateConfig` refuses a configuration with the text of the first check that fails.

* `ConfigLib`: the functions of other packages; `Surroundings`: files, environment and map orders;
* `validateServiceURL`, `validateInspectionPaths`, `validateTenant`, **`validateConfig`**;
* **`validateConfig_hosts_nodup`**: no two tenants of an accepted configuration have the same
  normalized host.
-/

namespace SynitWaf

open Go

/-! ## Outside -/

/-- `url.URL`, as far as it is read. -/
structure ParsedURL where
  scheme : GoString
  host : GoString
  hostname : GoString
  hasUser : Bool
  redacted : GoString

/-- What follows the first document of a YAML stream. -/
inductive Trailer where
  | eof
  | document
  | failed (text : GoString)

/-- The functions of other packages. An optional text is the error they return, if any; `quote` is
the verb `%q`. -/
structure ConfigLib where
  unicode : Unicode
  quote : GoString → GoString
  parseURL : GoString → Result ParsedURL
  splitHostPortError : GoString → GoString
  bcryptCost : GoString → Option GoString
  compileRegexp : GoString → Option GoString
  canonicalHeaderKey : GoString → GoString
  decodeConfig : GoString → Result (AppConfig × Trailer)
  decodeShard : GoString → Result (GoMap Tenant × Trailer)
  parseInt : GoString → Result ℤ
  parseBool : GoString → Result Bool
  parseDuration : GoString → Result ℤ
  sha256 : GoString → GoString
  validKeyPair : GoString → GoString → Option GoString
  hasCertificates : GoString → Bool
  deriving Inhabited

/-- The places that read a file. -/
inductive FileUse where
  | config
  | shard (name : GoString)
  | secret (name : GoString)
  | sidecarToken (fqdn : GoString)
  | blockPage (fqdn : GoString)
  | coordinatorCert
  | coordinatorKey
  | coordinatorCA
  deriving DecidableEq

/-- The loops that visit a map. -/
inductive MapLoop where
  | shard (name : GoString)
  | defaults
  | validate
  | injectResponse (fqdn : GoString)
  | addedDomains
  | build
  | probe
  | previous
  | publish
  | wildcards
  deriving DecidableEq

/-- An entry of a directory. -/
structure DirEntry where
  name : GoString
  isDir : Bool

/-- What `os.ReadDir` finds. -/
inductive DirListing where
  | missing
  | failed (text : GoString)
  | entries (files : List DirEntry)

/-- What one attempt to load a configuration meets: the environment, the files by the place that
reads them, whether the block page of a tenant is a regular file, and the order of each loop. -/
structure Surroundings where
  getenv : GoString → GoString
  readFile : FileUse → GoString → Result GoString
  stat : GoString → GoString → Result Bool
  shards : DirListing
  order : MapLoop → KeyOrder

/-! ## Single settings -/

/-- `normalizeOversizeAction`. -/
def normalizeOversizeAction (unicode : Unicode) (action : GoString) : GoString :=
  let normalized := unicode.toLower (trimSpace action)
  if normalized = [] then str "reject" else normalized

/-- `normalizeDependencyFailMode`. -/
def normalizeDependencyFailMode (unicode : Unicode) (mode : GoString) : GoString :=
  let normalized := unicode.toLower (trimSpace mode)
  if normalized = [] then str "fail_open" else normalized

section Validate

variable (lib : ConfigLib)

/-- `validateServiceURL`. -/
def validateServiceURL (name raw : GoString) (allowInsecure : Bool) : Result Unit := do
  let parsed ← wrapError (name ++ str " must be a valid URL: ") (lib.parseURL (trimSpace raw))
  refuse (parsed.hasUser = true) (name ++ str " must not contain user credentials")
  refuse (parsed.hostname = []) (name ++ str " must include a host")
  if parsed.scheme = str "https" then return ()
  refuse (parsed.scheme ≠ str "http") (name ++ str " must use http or https")
  let loopback := (parseAddr parsed.hostname).any Addr.isLoopback
  refuse (¬ (allowInsecure = true ∨ lib.unicode.equalFold parsed.hostname (str "localhost") = true ∨
    loopback = true)) (name ++ str " must use https outside loopback; set global_settings." ++
      str "allow_insecure_service_urls only for a trusted private network")

/-- The encodings of quotes, the backslash, white space and control characters. -/
def escapedRunes : List GoString :=
  [[0x22], [0x27], [0x5C]] ++ spaces ++ (List.range 32).map (fun c => [UInt8.ofNat c]) ++ [[0x7F]] ++
    (List.range 32).map fun c => [0xC2, UInt8.ofNat (0x80 + c)]

/-- `validateInspectionPaths`. -/
def validateInspectionPaths (name : GoString) (paths : List GoString) : Result Unit :=
  forM paths fun path => do
    refuse (¬ hasPrefix path (str "/") = true)
      (name ++ str " entry " ++ lib.quote path ++ str " must start with /")
    refuse (escapedRunes.any (contains path) = true)
      (name ++ str " entry " ++ lib.quote path ++
        str " must not contain quotes, backslashes, whitespace, or control characters")

/-- `isRepresentationHeader`. -/
def isRepresentationHeader (key : GoString) : Bool :=
  lib.canonicalHeaderKey (trimSpace key) ∈
    [str "Content-Type", str "Content-Encoding", str "Content-Length", str "Content-Range",
      str "Accept-Ranges", str "Etag", str "Last-Modified"]

/-- `net.SplitHostPort`, of which only the error is used. -/
def requireHostPort (context address : GoString) : Result Unit :=
  refuse (splitHostPort address = none)
    (context ++ str " must be host:port: " ++ lib.splitHostPortError address)

/-! ## Global settings -/

/-- The settings of the coordinator. -/
def validateCoordinator (c : CoordinatorConfig) : Result Unit := do
  let field := str "global_settings.coordinator"
  refuse (c.role ≠ str "leader" ∧ c.role ≠ str "follower")
    (field ++ str ".role must be leader or follower")
  requireHostPort lib (field ++ str ".address") c.address
  refuse (trimSpace c.secret = []) (field ++ str ".secret is required when coordinator is enabled")
  let incomplete := trimSpace c.tls.caFile = [] ∨ trimSpace c.tls.certFile = [] ∨
    trimSpace c.tls.keyFile = []
  refuse (c.role = str "leader" ∧ incomplete)
    (field ++ str ".tls ca_file, cert_file, and key_file are required for a leader")
  refuse (c.role = str "follower" ∧ (incomplete ∨ trimSpace c.tls.serverName = []))
    (field ++ str ".tls ca_file, cert_file, key_file, and server_name are required for a follower")

/-- The entries of one of the IP sets. -/
def validateIPSet (name : GoString) (entries : List GoString) : Result Unit :=
  forM entries fun entry =>
    refuse (parsePrefix entry = none ∧ parseAddr entry = none)
      (str "global_settings.ip_sets." ++ name ++ str " contains invalid IP or CIDR " ++ lib.quote entry)

/-- The settings of certificate management. -/
def validateACME (acme : ACMEConfig) : Result Unit := do
  refuse (trimSpace acme.email = []) (str "global_settings.acme.email is required when acme is enabled")
  refuse (acme.agreeTOS = false)
    (str "global_settings.acme.agree_tos must be true: read the certificate authority's subscriber " ++
      str "agreement and accept it explicitly")
  let provider := lib.unicode.toLower (trimSpace acme.dnsProvider)
  refuse (provider ≠ [] ∧ provider ≠ str "cloudflare")
    (str "global_settings.acme.dns_provider must be empty or cloudflare")
  refuse (provider = str "cloudflare" ∧ trimSpace acme.dnsToken = [])
    (str "global_settings.acme.dns_token is required for cloudflare")

/-- A log file. -/
def validateLogSink (name : GoString) (sink : LogSink) : Result Unit :=
  if sink.enabled then do
    refuse (trimSpace sink.path = []) (name ++ str ".path is required when enabled")
    let format := lib.unicode.toLower (trimSpace sink.format)
    refuse (format ≠ str "json" ∧ format ≠ str "text") (name ++ str ".format must be json or text")
  else .ok ()

/-- The log forwarder. -/
def validateLogForwarder (forwarder : LogForwarder) (allowInsecure : Bool) : Result Unit := do
  refuse (trimSpace forwarder.token = [])
    (str "logging.log_forwarder.token is required when forwarding is enabled")
  validateServiceURL lib (str "logging.log_forwarder.url") forwarder.url allowInsecure

/-- The checks of `ValidateConfig` before the tenants. -/
def validateGlobal (cfg : AppConfig) : Result Unit := do
  let g := cfg.globalSettings
  refuse (normalizeOversizeAction lib.unicode g.oversizeAction ≠ str "reject")
    (str "global_settings.request_body_oversize_action must be reject")
  let failMode := normalizeDependencyFailMode lib.unicode g.dependencyFailMode
  refuse (failMode ≠ str "fail_open" ∧ failMode ≠ str "fail_closed")
    (str "global_settings.security_dependency_failure_mode must be one of [fail_open, fail_closed]")
  requireHostPort lib (str "global_settings.admin_address")
    (if g.adminAddress = [] then str "127.0.0.1:9090" else g.adminAddress)
  refuse (g.globalRateLimit.requestsPerMinute < 0)
    (str "global_settings.global_rate_limit.requests_per_minute must be >= 0")
  refuse (g.globalRateLimit.burst < 0) (str "global_settings.global_rate_limit.burst must be >= 0")
  refuse (0 < g.globalRateLimit.requestsPerMinute ∧ g.globalRateLimit.burst = 0)
    (str "global_settings.global_rate_limit.burst must be > 0 when global rate limiting is enabled")
  refuse (g.readTimeout < 0 ∨ g.writeTimeout < 0 ∨ g.idleTimeout < 0)
    (str "global_settings HTTP timeouts must be non-negative")
  refuse (g.requestBodyLimit < 0 ∨ g.responseMaskingLimit < 0)
    (str "global_settings.request_body_limit and response_masking_limit must be non-negative")
  refuse (g.upstreamTransport.maxIdleConnsPerHost < 0 ∨ g.upstreamTransport.maxConnsPerHost < 0)
    (str "global_settings.upstream_transport limits must be non-negative")
  refuse (cfg.crowdSec.cacheTTL.any (· < 0)) (str "crowdsec.cache_ttl must be non-negative")
  if g.coordinator.enabled then validateCoordinator lib g.coordinator
  validateIPSet lib (str "allow_list") g.ipSets.allowList
  validateIPSet lib (str "block_list") g.ipSets.blockList
  validateIPSet lib (str "trusted_proxy_cidrs") g.trustedProxyCIDRs
  refuse (g.trustForwardedFor = true ∧ g.trustedProxyCIDRs = [])
    (str "global_settings.trusted_proxy_cidrs is required when trust_forwarded_for is true")
  if g.acme.enabled then validateACME lib g.acme
  validateLogSink lib (str "logging.access_log") cfg.logging.accessLog
  validateLogSink lib (str "logging.error_log") cfg.logging.errorLog
  if cfg.logging.logForwarder.enabled then
    validateLogForwarder lib cfg.logging.logForwarder g.allowInsecureServiceURLs
  refuse (cfg.tenants.keys = []) (str "at least one tenant must be configured")

/-! ## Tenants -/

section Tenant

variable (cfg : AppConfig) (fqdn : GoString)

/-- `fmt.Errorf("tenant %s text", fqdn)`. -/
def tenantText (text : GoString) : GoString := str "tenant " ++ fqdn ++ str " " ++ text

/-- The host key of a tenant: the normalized host, if no tenant before it has the same one. -/
def validateHost (normalizedHosts : GoMap GoString) : Result GoString := do
  let normalizedHost := normalizeHost lib.unicode fqdn
  refuse (normalizedHost = []) (str "tenant host key cannot be empty")
  refuse (contains normalizedHost (str "*") = true ∧ ¬ hasPrefix normalizedHost (str "*.") = true)
    (tenantText fqdn (str "has unsupported wildcard syntax; only leading '*.' is allowed"))
  refuse (cfg.globalSettings.acme.enabled = true ∧ hasPrefix normalizedHost (str "*.") = true ∧
      ¬ lib.unicode.equalFold (trimSpace cfg.globalSettings.acme.dnsProvider) (str "cloudflare") = true)
    (tenantText fqdn (str "requires ACME DNS provider cloudflare for wildcard certificates"))
  match normalizedHosts.lookup normalizedHost with
  | some originalHost =>
    .error (str "tenant host " ++ fqdn ++ str " collides with " ++ originalHost ++
      str " after normalization")
  | none => .ok normalizedHost

/-- An upstream of a tenant. -/
def validateUpstream (upstream : Upstream) : Result Unit := do
  let quoted := lib.quote upstream.url
  let target ← wrapError (tenantText fqdn (str "has invalid upstream " ++ quoted ++ str ": "))
    (lib.parseURL (trimSpace upstream.url))
  refuse (target.scheme ≠ str "http" ∧ target.scheme ≠ str "https")
    (tenantText fqdn (str "upstream " ++ quoted ++ str " must use http or https"))
  refuse (target.host = []) (tenantText fqdn (str "upstream " ++ quoted ++ str " is missing host"))
  refuse (target.hasUser = true)
    (tenantText fqdn (str "upstream " ++ lib.quote target.redacted ++
      str " must not contain user credentials"))
  refuse (upstream.responseHeaderTimeout < 0)
    (tenantText fqdn (str "upstream " ++ lib.quote target.redacted ++
      str " response_header_timeout must be non-negative"))

/-- Health check, bypass secret and block page. -/
def validateServing (env : Surroundings) (tenant : Tenant) : Result Unit := do
  refuse (tenant.healthCheck.interval < 0 ∨ tenant.healthCheck.timeout < 0)
    (tenantText fqdn (str "health_check interval and timeout must be non-negative"))
  if tenant.healthCheck.path ≠ [] then
    wrapError (tenantText fqdn [])
      (validateInspectionPaths lib (str "health_check.path") [tenant.healthCheck.path])
  let secret := tenant.security.devBypassSecret
  refuse (secret ≠ [] ∧ secret.length < 32)
    (tenantText fqdn (str "dev_bypass_secret must be at least 32 characters"))
  let path := tenant.security.blockPagePath
  if path ≠ [] then
    let isRegular ← wrapError (tenantText fqdn (str "block_page_path: ")) (env.stat fqdn path)
    refuse (isRegular = false)
      (tenantText fqdn (str "block_page_path " ++ path ++ str " is not a regular file"))

/-- The rule sets of a tenant whose WAF is enabled. -/
def validateWAF (policy : SecurityPolicy) : Result Unit :=
  if policy.wafEnabled = some true then do
    refuse (policy.paranoiaLevel < 1 ∨ 4 < policy.paranoiaLevel)
      (tenantText fqdn (str "paranoia_level must be between 1 and 4 when waf_enabled is true"))
    forM policy.includeRuleSets fun setName =>
      refuse (cfg.wafRuleSets.lookup setName = none)
        (tenantText fqdn (str "references unknown waf_rule_set " ++ lib.quote setName))
  else .ok ()

/-- CrowdSec and GeoIP. -/
def validateDependencies (policy : SecurityPolicy) : Result Unit := do
  if policy.crowdSecEnabled = some true then
    refuse (trimSpace cfg.crowdSec.apiUrl = [] ∨ trimSpace cfg.crowdSec.apiKey = [])
      (tenantText fqdn
        (str "enables crowdsec but crowdsec.api_url/api_key are not both configured"))
    validateServiceURL lib (str "crowdsec.api_url") cfg.crowdSec.apiUrl
      cfg.globalSettings.allowInsecureServiceURLs
  if policy.geoIPEnabled = some true then
    refuse (trimSpace cfg.geoIPDBPath = [])
      (tenantText fqdn (str "enables geoip but geoip.db_path is empty"))
    refuse (policy.blockedCountries = [])
      (tenantText fqdn (str "enables geoip but blocked_countries is empty"))
    forM policy.blockedCountries fun country => do
      let country := lib.unicode.toUpper (trimSpace country)
      refuse (¬ (country.length = 2 ∧ ∀ c ∈ country, byte 'A' ≤ c ∧ c ≤ byte 'Z'))
        (tenantText fqdn (str "has invalid ISO country code " ++ lib.quote country))

/-- Bearer tokens and passwords. -/
def validateAuthentication (policy : SecurityPolicy) : Result Unit := do
  let jwt := policy.jwtValidation
  refuse (jwt.enabled = true ∧ policy.basicAuth ≠ [])
    (tenantText fqdn
      (str "cannot combine jwt_validation and basic_auth: both read the Authorization header"))
  if jwt.enabled then
    refuse (trimSpace jwt.jwksEndpoint = [])
      (tenantText fqdn (str "enables jwt_validation but jwks_endpoint is empty"))
    refuse (trimSpace jwt.issuer = [] ∨ trimSpace jwt.audience = [])
      (tenantText fqdn (str "jwt_validation issuer and audience are required"))
    validateServiceURL lib (tenantText fqdn (str "jwt_validation.jwks_endpoint")) jwt.jwksEndpoint
      cfg.globalSettings.allowInsecureServiceURLs
  forM policy.basicAuth fun cred => do
    let user := str "basic_auth user " ++ lib.quote cred.user
    refuse (trimSpace cred.user = [])
      (tenantText fqdn (str "has a basic_auth entry with empty user"))
    refuse (trimSpace cred.password = []) (tenantText fqdn (user ++ str " has an empty password hash"))
    checkError (tenantText fqdn (user ++ str " must use bcrypt password hashes: "))
      (lib.bcryptCost cred.password)

/-- Response masking, and the headers it excludes from transformation. -/
def validateMasking (env : Surroundings) (tenant : Tenant) : Result Unit := do
  forM tenant.security.responseMasking fun rule => do
    refuse (trimSpace rule.pattern = []) (tenantText fqdn (str "has empty response_masking pattern"))
    checkError (tenantText fqdn (str "has invalid response_masking pattern " ++
      lib.quote rule.pattern ++ str ": ")) (lib.compileRegexp rule.pattern)
  if tenant.security.responseMasking ≠ [] then
    forM tenant.headerTransform.stripResponse fun key =>
      refuse (isRepresentationHeader lib key = true)
        (tenantText fqdn (str "cannot strip response header " ++ key ++
          str " while response masking is enabled"))
    forM (GoMap.visit (env.order (.injectResponse fqdn)) tenant.headerTransform.injectResponse)
      fun (key, _) => refuse (isRepresentationHeader lib key = true)
        (tenantText fqdn (str "cannot inject response header " ++ key ++
          str " while response masking is enabled"))

/-- Rate limit and circuit breaker. -/
def validateLimits (policy : SecurityPolicy) : Result Unit := do
  let rate := policy.rateLimit
  refuse (rate.requestsPerMinute < 0)
    (tenantText fqdn (str "rate_limit.requests_per_minute must be >= 0"))
  refuse (rate.burst < 0) (tenantText fqdn (str "rate_limit.burst must be >= 0"))
  refuse (0 < rate.requestsPerMinute ∧ rate.burst = 0)
    (tenantText fqdn (str "rate_limit.burst must be > 0 when rate limiting is enabled"))
  refuse (rate.requestsPerMinute = 0 ∧ 0 < rate.burst)
    (tenantText fqdn (str "rate_limit.requests_per_minute must be > 0 when burst is set"))
  let breaker := policy.circuitBreaker
  if breaker.enabled then
    refuse (breaker.threshold ≤ 0)
      (tenantText fqdn (str "circuit_breaker.threshold must be positive"))
    refuse (breaker.cooldown < 0)
      (tenantText fqdn (str "circuit_breaker.cooldown must be non-negative"))
    forM breaker.failureStatusCodes fun status =>
      refuse (status < 400 ∨ 599 < status)
        (tenantText fqdn
          (str "circuit_breaker.failure_status_codes must contain only HTTP 400..599"))

/-- GraphQL limits. -/
def validateGraphQL (graphQL : GraphQLProtection) : Result Unit :=
  if graphQL.enabled then do
    refuse (graphQL.maxQueryDepth < 0) (tenantText fqdn (str "graphql.max_query_depth must be >= 0"))
    refuse (graphQL.maxBatchedQueries < 0)
      (tenantText fqdn (str "graphql.max_batched_queries must be >= 0"))
    refuse (graphQL.maxQueryBytes < 0) (tenantText fqdn (str "graphql.max_query_bytes must be >= 0"))
    wrapError (tenantText fqdn []) (validateInspectionPaths lib (str "graphql.paths") graphQL.paths)
  else .ok ()

/-- LLM protection. The paths are checked even when it is disabled, since the built-in rules embed
them. -/
def validateLLM (policy : SecurityPolicy) : Result Unit := do
  let llm := policy.llmProtection
  let field := str "llm_protection"
  wrapError (tenantText fqdn [])
    (validateInspectionPaths lib (field ++ str ".inspect_paths") llm.inspectPaths)
  if llm.enabled then
    refuse (llm.mode ∉ [str "rules", str "ml", str "hybrid"])
      (tenantText fqdn (field ++ str ".mode must be one of [rules, ml, hybrid]"))
    refuse (llm.action ∉ [str "deny", str "audit"])
      (tenantText fqdn (field ++ str ".action must be one of [deny, audit]"))
    refuse (llm.failMode ∉ [str "open", str "closed"])
      (tenantText fqdn (field ++ str ".fail_mode must be one of [open, closed]"))
    refuse (llm.threshold < 0 ∨ 1 < llm.threshold)
      (tenantText fqdn (field ++ str ".threshold must be between 0.0 and 1.0"))
    refuse (llm.timeout ≤ 0) (tenantText fqdn (field ++ str ".timeout must be positive"))
    refuse (llm.maxTextBytes ≤ 0) (tenantText fqdn (field ++ str ".max_text_bytes must be positive"))
    refuse (llm.maxBodyBytes < 0) (tenantText fqdn (field ++ str ".max_body_bytes must be >= 0"))
    refuse (llm.sidecarMaxBatch ≤ 0)
      (tenantText fqdn (field ++ str ".sidecar_max_batch must be positive"))
    if llm.mode = str "ml" ∨ llm.mode = str "hybrid" then
      refuse (llm.sidecarURL = [])
        (tenantText fqdn (field ++ str " enables ml/hybrid but sidecar_url is empty"))
      refuse (trimSpace llm.sidecarToken = [])
        (tenantText fqdn (field ++ str " enables ml/hybrid but sidecar_token is empty"))
      validateServiceURL lib (tenantText fqdn (field ++ str ".sidecar_url")) llm.sidecarURL
        cfg.globalSettings.allowInsecureServiceURLs
    if llm.mode = str "rules" ∨ llm.mode = str "hybrid" then
      refuse (policy.wafEnabled ≠ some true)
        (tenantText fqdn (field ++ str " mode " ++ llm.mode ++ str " requires waf_enabled"))
      refuse (str "llm-protection" ∉ policy.includeRuleSets)
        (tenantText fqdn (field ++ str " mode " ++ llm.mode ++
          str " requires the llm-protection rule set"))

/-- The checks of a tenant, after its host. -/
def validateTenant (env : Surroundings) (tenant : Tenant) : Result Unit := do
  refuse (tenant.upstreams = []) (tenantText fqdn (str "must define at least one upstream"))
  forM tenant.upstreams (validateUpstream lib fqdn)
  validateServing lib fqdn env tenant
  validateWAF lib cfg fqdn tenant.security
  validateDependencies lib cfg fqdn tenant.security
  validateAuthentication lib cfg fqdn tenant.security
  validateMasking lib fqdn env tenant
  validateLimits fqdn tenant.security
  validateGraphQL lib fqdn tenant.security.graphQL
  validateLLM lib cfg fqdn tenant.security

end Tenant

/-- The loop over the tenants, with the normalized hosts seen so far. -/
def validateTenants (env : Surroundings) (cfg : AppConfig) :
    List (GoString × Tenant) → GoMap GoString → Result Unit
  | [], _ => .ok ()
  | (fqdn, tenant) :: rest, normalizedHosts => do
    let normalizedHost ← validateHost lib cfg fqdn normalizedHosts
    validateTenant lib cfg fqdn env tenant
    validateTenants env cfg rest (normalizedHosts.insert normalizedHost fqdn)

/-- `ValidateConfig`. -/
def validateConfig (env : Surroundings) (cfg : AppConfig) : Result Unit := do
  validateGlobal lib cfg
  validateTenants lib env cfg (GoMap.visit (env.order .validate) cfg.tenants) ∅

/-! ## What an accepted configuration satisfies -/

variable {lib} {env : Surroundings} {cfg : AppConfig}

theorem validateHost_eq_ok {fqdn host : GoString} {hosts : GoMap GoString}
    (h : validateHost lib cfg fqdn hosts = .ok host) :
    host = normalizeHost lib.unicode fqdn ∧ host ∉ hosts := by
  simp only [validateHost, result_bind_eq_ok] at h
  obtain ⟨_, -, _, -, _, -, h⟩ := h
  cases hlookup : hosts.lookup (normalizeHost lib.unicode fqdn) with
  | some original =>
    rw [hlookup] at h
    cases h
  | none =>
    rw [hlookup] at h
    cases h
    exact ⟨rfl, AList.lookup_eq_none.mp hlookup⟩

/-- The hosts of accepted tenants differ from each other and from those seen before. -/
theorem validateTenants_nodup {tenants : List (GoString × Tenant)} {hosts : GoMap GoString}
    (h : validateTenants lib env cfg tenants hosts = .ok ()) :
    (tenants.map fun t => normalizeHost lib.unicode t.1).Nodup ∧
      ∀ t ∈ tenants, normalizeHost lib.unicode t.1 ∉ hosts := by
  induction tenants generalizing hosts with
  | nil => simp
  | cons t rest ih =>
    obtain ⟨fqdn, tenant⟩ := t
    simp only [validateTenants, result_bind_eq_ok] at h
    obtain ⟨host, hhost, _, -, hrest⟩ := h
    obtain ⟨rfl, hfresh⟩ := validateHost_eq_ok hhost
    obtain ⟨hnodup, hseen⟩ := ih hrest
    simp only [AList.mem_insert, not_or] at hseen
    refine ⟨List.nodup_cons.mpr ⟨?_, hnodup⟩, ?_⟩
    · intro hmem
      obtain ⟨t, ht, heq⟩ := List.mem_map.mp hmem
      exact (hseen t ht).1 heq
    · intro t ht
      rcases List.mem_cons.mp ht with rfl | ht
      · exact hfresh
      · exact (hseen t ht).2

/-- **No two tenants of an accepted configuration have the same normalized host.** -/
theorem validateConfig_hosts_nodup (h : validateConfig lib env cfg = .ok ()) :
    (cfg.tenants.keys.map (normalizeHost lib.unicode)).Nodup := by
  simp only [validateConfig, result_bind_eq_ok] at h
  obtain ⟨_, -, htenants⟩ := h
  have hvisit := (validateTenants_nodup htenants).1
  have hperm := ((env.order .validate).perm cfg.tenants.keys).map (normalizeHost lib.unicode)
  rw [← visit_map_fst, List.map_map] at hperm
  exact hperm.nodup_iff.mp hvisit

end Validate

end SynitWaf
