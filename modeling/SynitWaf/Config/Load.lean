import SynitWaf.Config.Directives
import SynitWaf.Config.Validate
import SynitWaf.Go.Time
import SynitWaf.GraphQL.Check

/-!
# Loading a configuration

`LoadConfig` reads the main file and the tenant shards, lets the environment override settings,
fills in defaults and validates the result.

* `secretEnv`, `overrideWith`, `overrideSecret`, **`applyEnvOverrides`**;
* `LLMProtectionConfig.setDefaults`, `GraphQLProtection.setDefaults`, `tenantDefaults`;
* **`loadConfig`**; **`loadConfig_valid`**: what is loaded has passed validation.
-/

namespace SynitWaf

open Go

/-! ## The environment -/

section Load

variable (lib : ConfigLib) (env : Surroundings)

/-- `secretEnv`: the variable itself, or the file that `NAME_FILE` names. -/
def secretEnv (use : FileUse) (name : GoString) : Result GoString :=
  if env.getenv name ≠ [] then .ok (env.getenv name)
  else
    let path := env.getenv (name ++ str "_FILE")
    if path = [] then .ok []
    else trimSpace <$> wrapError (name ++ str "_FILE: ") (env.readFile use path)

/-- An override by a variable whose value is parsed. -/
def overrideWith {α : Type} (name : String) (parse : GoString → Result α)
    (set : AppConfig → α → AppConfig) (cfg : AppConfig) : Result AppConfig :=
  let val := env.getenv (str name)
  if val = [] then .ok cfg else set cfg <$> wrapError (str name ++ str ": ") (parse val)

/-- An override by a variable that may name a file. -/
def overrideSecret (name : String) (set : AppConfig → GoString → AppConfig) (cfg : AppConfig) :
    Result AppConfig :=
  (fun val => if val = [] then cfg else set cfg val) <$> secretEnv env (.secret (str name)) (str name)

/-- The deprecated name of the body limit, which loses against the new one. -/
def overrideBufferLimit (cfg : AppConfig) : Result AppConfig :=
  if env.getenv (str "WAF_GLOBAL_REQUEST_BODY_LIMIT") = [] then
    overrideWith env "WAF_GLOBAL_RESPONSE_BUFFER_LIMIT" lib.parseInt
      (fun cfg limit => { cfg with globalSettings.requestBodyLimit := limit }) cfg
  else .ok cfg

/-- The overrides of `ApplyEnvOverrides`, in order. -/
def envOverrides : List (AppConfig → Result AppConfig) :=
  let text (name : String) (set : AppConfig → GoString → AppConfig) := overrideWith env name .ok set
  [text "WAF_GLOBAL_LOG_LEVEL" fun c v => { c with globalSettings.logLevel := v },
    overrideWith env "WAF_GLOBAL_REQUEST_BODY_LIMIT" lib.parseInt fun c v =>
      { c with globalSettings.requestBodyLimit := v },
    overrideBufferLimit lib env,
    text "WAF_GLOBAL_RULES_DIR" fun c v => { c with globalSettings.rulesDir := v },
    overrideWith env "WAF_GLOBAL_RESPONSE_MASKING_LIMIT" lib.parseInt fun c v =>
      { c with globalSettings.responseMaskingLimit := v },
    text "WAF_GLOBAL_REQUEST_BODY_OVERSIZE_ACTION" fun c v =>
      { c with globalSettings.oversizeAction := v },
    text "WAF_GLOBAL_SECURITY_DEPENDENCY_FAILURE_MODE" fun c v =>
      { c with globalSettings.dependencyFailMode := v },
    overrideWith env "WAF_GLOBAL_ALLOW_INSECURE_SERVICE_URLS" lib.parseBool fun c v =>
      { c with globalSettings.allowInsecureServiceURLs := v },
    overrideWith env "WAF_GLOBAL_READ_TIMEOUT" lib.parseDuration fun c v =>
      { c with globalSettings.readTimeout := v },
    overrideWith env "WAF_GLOBAL_WRITE_TIMEOUT" lib.parseDuration fun c v =>
      { c with globalSettings.writeTimeout := v },
    overrideWith env "WAF_GLOBAL_IDLE_TIMEOUT" lib.parseDuration fun c v =>
      { c with globalSettings.idleTimeout := v },
    text "WAF_GLOBAL_ADMIN_ADDRESS" fun c v => { c with globalSettings.adminAddress := v },
    overrideWith env "WAF_GLOBAL_ACME_ENABLED" lib.parseBool fun c v =>
      { c with globalSettings.acme.enabled := v },
    overrideWith env "WAF_GLOBAL_ACME_AGREE_TOS" lib.parseBool fun c v =>
      { c with globalSettings.acme.agreeTOS := v },
    text "WAF_GLOBAL_ACME_EMAIL" fun c v => { c with globalSettings.acme.email := v },
    text "WAF_GLOBAL_ACME_STORAGE_PATH" fun c v => { c with globalSettings.acme.storagePath := v },
    overrideWith env "WAF_GLOBAL_ACME_STAGING" lib.parseBool fun c v =>
      { c with globalSettings.acme.staging := v },
    text "WAF_GLOBAL_ACME_DNS_PROVIDER" fun c v => { c with globalSettings.acme.dnsProvider := v },
    overrideSecret env "WAF_GLOBAL_ACME_DNS_TOKEN" fun c v =>
      { c with globalSettings.acme.dnsToken := v },
    overrideWith env "WAF_GLOBAL_TRUST_FORWARDED_FOR" lib.parseBool fun c v =>
      { c with globalSettings.trustForwardedFor := v },
    text "WAF_GLOBAL_TRUSTED_PROXY_CIDRS" fun c v =>
      { c with globalSettings.trustedProxyCIDRs := (split v (byte ',')).map trimSpace },
    overrideWith env "WAF_COORDINATOR_ENABLED" lib.parseBool fun c v =>
      { c with globalSettings.coordinator.enabled := v },
    text "WAF_COORDINATOR_ROLE" fun c v => { c with globalSettings.coordinator.role := v },
    text "WAF_COORDINATOR_ADDRESS" fun c v => { c with globalSettings.coordinator.address := v },
    overrideSecret env "WAF_COORDINATOR_SECRET" fun c v =>
      { c with globalSettings.coordinator.secret := v },
    text "WAF_COORDINATOR_TLS_CA_FILE" fun c v =>
      { c with globalSettings.coordinator.tls.caFile := v },
    text "WAF_COORDINATOR_TLS_CERT_FILE" fun c v =>
      { c with globalSettings.coordinator.tls.certFile := v },
    text "WAF_COORDINATOR_TLS_KEY_FILE" fun c v =>
      { c with globalSettings.coordinator.tls.keyFile := v },
    text "WAF_COORDINATOR_TLS_SERVER_NAME" fun c v =>
      { c with globalSettings.coordinator.tls.serverName := v },
    text "WAF_CROWDSEC_URL" fun c v => { c with crowdSec.apiUrl := v },
    overrideSecret env "WAF_CROWDSEC_KEY" fun c v => { c with crowdSec.apiKey := v },
    overrideSecret env "WAF_LOG_FORWARDER_TOKEN" fun c v => { c with logging.logForwarder.token := v }]

/-- `ApplyEnvOverrides`. -/
def applyEnvOverrides (cfg : AppConfig) : Result AppConfig :=
  (envOverrides lib env).foldlM (fun cfg override => override cfg) cfg

/-! ## Files -/

/-- `decodeYAMLStrict`: exactly one document. -/
def decodeYAMLStrict {α : Type} (decode : GoString → Result (α × Trailer)) (data : GoString) :
    Result α := do
  match ← decode data with
  | (value, .eof) => return value
  | (_, .document) => .error (str "multiple YAML documents are not supported")
  | (_, .failed text) => .error text

/-- The tenants of a shard join those read before; none may be defined twice. -/
def mergeShard (order : KeyOrder) (tenants shard : GoMap Tenant) : Result (GoMap Tenant) :=
  (GoMap.visit order shard).foldlM (fun tenants (host, tenant) => do
    refuse ((tenants.lookup host).isSome = true)
      (str "tenant " ++ host ++ str " is defined more than once")
    return tenants.insert host tenant) tenants

/-- One file of the shard directory; other files are skipped. -/
def loadShard (tenants : GoMap Tenant) (file : DirEntry) : Result (GoMap Tenant) :=
  if file.isDir ∨ ¬ (hasSuffix file.name (str ".yml") ∨ hasSuffix file.name (str ".yaml")) then
    .ok tenants
  else do
    let data ← wrapError (str "read tenant shard " ++ file.name ++ str ": ")
      (env.readFile (.shard file.name) file.name)
    let shard ← wrapError (str "decode tenant shard " ++ file.name ++ str ": ")
      (decodeYAMLStrict lib.decodeShard data)
    mergeShard (env.order (.shard file.name)) tenants shard

/-- The shard directory, which need not exist. -/
def loadShards (tenants : GoMap Tenant) : Result (GoMap Tenant) :=
  match env.shards with
  | .missing => .ok tenants
  | .failed text => .error (str "read tenant shard directory: " ++ text)
  | .entries files => files.foldlM (loadShard lib env) tenants

/-- The deprecated `response_buffer_limit` is folded into `request_body_limit`. -/
def foldBufferLimit (cfg : AppConfig) : Result AppConfig :=
  let old := cfg.globalSettings.responseBufferLimit
  let current := cfg.globalSettings.requestBodyLimit
  if old = 0 then .ok cfg
  else do
    refuse (current ≠ 0 ∧ current ≠ old)
      (str "global_settings.response_buffer_limit is the deprecated name of request_body_limit; " ++
        str "set only request_body_limit")
    return { cfg with globalSettings.requestBodyLimit := old, globalSettings.responseBufferLimit := 0 }

end Load

/-! ## Defaults -/

/-- `LLMProtectionConfig.SetDefaults`; the threshold is the double nearest to `0.85`. -/
def LLMProtectionConfig.setDefaults (p : LLMProtectionConfig) : LLMProtectionConfig :=
  { p with
    mode := if p.mode = [] then str "hybrid" else p.mode
    action := if p.action = [] then str "audit" else p.action
    failMode := if p.failMode = [] then str "open" else p.failMode
    threshold := if p.threshold = 0 then 7656119366529843 / 2 ^ 53 else p.threshold
    timeout := if p.timeout ≤ 0 then 500 * millisecond else p.timeout
    maxTextBytes := if p.maxTextBytes ≤ 0 then 8192 else p.maxTextBytes
    sidecarMaxBatch := if p.sidecarMaxBatch ≤ 0 then 32 else p.sidecarMaxBatch
    sidecarURL := if p.sidecarURL = [] then str "http://localhost:5001/v1/detect" else p.sidecarURL
    inspectPaths :=
      if p.inspectPaths = [] then [str "/v1/chat/completions", str "/v1/messages"]
      else p.inspectPaths
    inspectJSONFields :=
      if p.inspectJSONFields = [] then
        [str "prompt", str "input", str "query", str "messages[].content"]
      else p.inspectJSONFields }

/-- `GraphQLProtection.SetDefaults`. -/
def GraphQLProtection.setDefaults (p : GraphQLProtection) : GraphQLProtection :=
  { p with
    paths := if p.paths = [] then [str "/graphql"] else p.paths
    maxQueryBytes := if p.maxQueryBytes ≤ 0 then defaultGraphQLMaxQueryBytes else p.maxQueryBytes }

/-- The defaults of the settings outside the tenants. -/
def globalDefaults (cfg : AppConfig) : AppConfig :=
  let g := cfg.globalSettings
  let builtin := (cfg.wafRuleSets.lookup llmRuleSetName).isNone
  { cfg with
    globalSettings.adminAddress := if g.adminAddress = [] then str "127.0.0.1:9090" else g.adminAddress
    globalSettings.rulesDir := if g.rulesDir = [] then str "/etc/waf/rules" else g.rulesDir
    wafRuleSets :=
      if builtin then cfg.wafRuleSets.insert llmRuleSetName (buildLLMProtectionRules [])
      else cfg.wafRuleSets
    builtinLLMRules := builtin }

section Load

variable (lib : ConfigLib) (env : Surroundings)

/-- The token of the sidecar, which may be named by a variable. -/
def sidecarToken (fqdn : GoString) (llm : LLMProtectionConfig) : Result GoString := do
  let usesSidecar := llm.enabled = true ∧ (llm.mode = str "ml" ∨ llm.mode = str "hybrid")
  refuse (usesSidecar ∧ llm.sidecarToken ≠ [] ∧ llm.sidecarTokenEnv ≠ [])
    (tenantText fqdn
      (str "llm_protection must set only one of sidecar_token or sidecar_token_env"))
  if usesSidecar ∧ llm.sidecarToken = [] ∧ llm.sidecarTokenEnv ≠ [] then
    let token ← wrapError (tenantText fqdn (str "llm_protection token: "))
      (secretEnv env (.sidecarToken fqdn) llm.sidecarTokenEnv)
    refuse (trimSpace token = [])
      (tenantText fqdn (str "llm_protection token environment variable " ++ llm.sidecarTokenEnv ++
        str " is empty"))
    return token
  else return llm.sidecarToken

/-- The defaults of a tenant. -/
def tenantDefaults (fqdn : GoString) (tenant : Tenant) : Result Tenant := do
  let llm := tenant.security.llmProtection.setDefaults
  let token ← sidecarToken env fqdn llm
  return { tenant with
    security.llmProtection := { llm with sidecarToken := token }
    security.graphQL := tenant.security.graphQL.setDefaults
    security.blockedCountries :=
      tenant.security.blockedCountries.map fun c => lib.unicode.toUpper (trimSpace c) }

/-- The loop that fills in the defaults of the tenants. -/
def tenantsDefaults (tenants : GoMap Tenant) : Result (GoMap Tenant) :=
  (GoMap.visit (env.order .defaults) tenants).foldlM (fun tenants (fqdn, tenant) => do
    return tenants.insert fqdn (← tenantDefaults lib env fqdn tenant)) tenants

/-- `LoadConfig`. -/
def loadConfig (configPath : GoString) : Result AppConfig := do
  let data ← wrapError (str "read config file: ") (env.readFile .config configPath)
  let cfg ← wrapError (str "decode config: ") (decodeYAMLStrict lib.decodeConfig data)
  let tenants ← loadShards lib env cfg.tenants
  let cfg ← foldBufferLimit { cfg with tenants := tenants }
  let cfg ← wrapError (str "apply environment overrides: ") (applyEnvOverrides lib env cfg)
  let cfg := globalDefaults cfg
  let tenants ← tenantsDefaults lib env cfg.tenants
  let cfg := { cfg with tenants := tenants }
  validateConfig lib env cfg
  return cfg

variable {lib env}

/-- **What is loaded has passed validation.** -/
theorem loadConfig_valid {configPath : GoString} {cfg : AppConfig}
    (h : loadConfig lib env configPath = .ok cfg) : validateConfig lib env cfg = .ok () := by
  simp only [loadConfig, result_bind_eq_ok] at h
  obtain ⟨_, -, _, -, _, -, _, -, _, -, _, -, _, hvalid, hcfg⟩ := h
  cases hcfg
  exact hvalid

end Load

end SynitWaf
