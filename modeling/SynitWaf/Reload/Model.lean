import SynitWaf.Atomic.Fallible
import SynitWaf.Config.Load
import SynitWaf.Runtime

/-!
# Reloading the configuration

`Reload` loads a configuration, builds everything it needs beside the running state, and then
publishes the new values one by one. Building may fail at many points; publishing cannot fail.

* `Attempt`: the outcomes of the external steps of one call;
* `parseIPSets`, `configureTLS`, `Coordinator.start`;
* `buildTenantState`, `Built`, `buildTenants`: the tenants; `connectCrowdSec`, `openGeoIP`,
  `setUpCoordinator`: the other parts;
* `Generation`: what is published; `replaceTenantStates`, **`publish`**;
* **`reload`**;
* `site`, `siteAttempt`, `movedAttempt`: a world, and two calls in it that succeed.
-/

namespace SynitWaf

open Atomic Go

/-! ## Outside -/

/-- The outcomes of the external steps of one call of `Reload`; an optional text is an error. The
answer of the certificate manager is only logged, so that its presence is all that matters. -/
structure Attempt where
  configPath : GoString
  env : Surroundings
  rulesFingerprint : GoString → GoString
  newWAF : GoString → GoString → Option GoString
  initBouncer : Option GoString
  probeBouncer : Option GoString
  openGeoIP : GoString → Option GoString
  validateGeoIP : Option GoString
  closeGeoIP : Option GoString
  registerRPC : Option GoString
  listen : GoString → Option GoString
  probe : GoString → ℕ → Bool
  hasDomainManager : Bool

/-- A part of `Reload`. -/
abbrev Reloading (w : World) (α : Type) := Fallible (handlerSig w) GoString α

/-! ## Settings -/

/-- The prefix an entry of an IP set denotes: a CIDR, or a single address. -/
def parseIPSetEntry (cidr : GoString) : Option Prefix :=
  match parsePrefix cidr with
  | some p => some p
  | none => (parseAddr cidr).bind prefixOfAddr

/-- `parseIPSets`; invalid entries are logged and skipped. -/
def parseIPSets (cidrs : List GoString) : Option (List Prefix) :=
  if cidrs = [] then none else some (cidrs.filterMap parseIPSetEntry)

/-- `normalizeDependencyFailMode`, as one of the two modes `ValidateConfig` admits. -/
def dependencyFailMode (unicode : Unicode) (mode : GoString) : DependencyFailMode :=
  if normalizeDependencyFailMode unicode mode = str "fail_closed" then .failClosed else .failOpen

/-- A limit that is not positive selects the default. -/
def limitOrDefault (limit : ℤ) : ℤ := if limit ≤ 0 then 1048576 else limit

/-- `Coordinator.sameConfiguration`. -/
def Coordinator.sameConfiguration (c other : Coordinator) : Bool :=
  c.role = other.role ∧ c.address = other.address ∧ c.secret = other.secret ∧
    c.tlsFingerprint = other.tlsFingerprint

section Reload

variable (w : World) (a : Attempt)

/-- The certificate and key of a coordinator. -/
def readKeyPair (owner : String) (tls : CoordinatorTLS) : Result (GoString × GoString) := do
  let certPEM ← wrapError (str "read " ++ str owner ++ str " certificate: ")
    (a.env.readFile .coordinatorCert tls.certFile)
  let keyPEM ← wrapError (str "read " ++ str owner ++ str " key: ")
    (a.env.readFile .coordinatorKey tls.keyFile)
  checkError (str "load " ++ str owner ++ str " certificate: ") (w.lib.validKeyPair certPEM keyPEM)
  return (certPEM, keyPEM)

/-- `Coordinator.ConfigureTLS`: the fingerprint of the TLS material. -/
def configureTLS (role : GoString) (tls : CoordinatorTLS) : Result GoString :=
  if role = str "leader" then do
    let (certPEM, keyPEM) ← readKeyPair w a "server" tls
    let input := str "leader\x00" ++ certPEM ++ keyPEM
    if tls.caFile ≠ [] then
      let caPEM ← wrapError (str "read client CA file: ") (a.env.readFile .coordinatorCA tls.caFile)
      refuse (w.lib.hasCertificates caPEM = false) (str "client CA file contains no certificates")
      return w.lib.sha256 (input ++ caPEM)
    else return w.lib.sha256 input
  else if role = str "follower" then do
    let caPEM ← wrapError (str "read CA file: ") (a.env.readFile .coordinatorCA tls.caFile)
    refuse (w.lib.hasCertificates caPEM = false) (str "CA file contains no certificates")
    let input := str "follower\x00" ++ tls.serverName ++ [0] ++ caPEM
    refuse (¬ (tls.certFile = [] ↔ tls.keyFile = []))
      (str "client certificate and key must be configured together")
    if tls.certFile ≠ [] then
      let (certPEM, keyPEM) ← readKeyPair w a "client" tls
      return w.lib.sha256 (input ++ certPEM ++ keyPEM)
    else return w.lib.sha256 input
  else .error (str "unsupported coordinator role " ++ w.lib.quote role)

/-- `Coordinator.Start`, of a coordinator whose TLS is configured; a leader listens. -/
def Coordinator.start (c : Coordinator) : Result Unit := do
  refuse (c.secret = []) (str "coordinator secret is required")
  if c.role = str "leader" then
    checkError (str "register coordinator RPC: ") a.registerRPC
    checkError [] (a.listen c.address)
  else if c.role ≠ str "follower" then
    .error (str "unsupported coordinator role " ++ w.lib.quote c.role)

/-- The tenant domains that the running mapping does not have, while ACME is enabled. -/
def addedDomains (cfg : AppConfig) (registry : Registry) : List GoString :=
  if cfg.globalSettings.acme.enabled = true ∧ registry.mapping.keys ≠ [] then
    ((GoMap.visit (a.env.order .addedDomains) cfg.tenants).map fun t =>
      normalizeHost w.unicode t.1).filter (· ∉ registry.mapping.keys)
  else []

/-- The changes that need a restart. -/
def checkRestart (cfg : AppConfig) : Reloading w Unit := do
  let acmeEnabled ← load (w := w) .acmeEnabled
  Fallible.ofExcept (refuse (acmeEnabled = some (!cfg.globalSettings.acme.enabled))
    (str "changing global_settings.acme.enabled requires a restart"))
  let registry ← load (w := w) .registry
  Fallible.ofExcept (refuse (addedDomains w a cfg registry ≠ [] ∧ a.hasDomainManager = false)
    (str "tenant domain changes require a restart while ACME is enabled"))

/-- The global rate limiter. -/
def newGlobalLimiter (policy : RateLimitPolicy) : Prog (handlerSig w) (Option RateLimiter) :=
  if 0 < policy.requestsPerMinute then do return some ⟨← alloc, policy⟩ else .ret none

/-! ## Tenants -/

/-- A tenant state with an upstream: what `buildTenantState` returns. -/
abbrev LiveTenantState := { state : TenantState // state.upstreams ≠ [] }

/-- A new upstream, healthy until its first check. -/
def newUpstream (url : GoString) : Prog (handlerSig w) UpstreamServer := do
  let id ← alloc
  Prog.op (S := handlerSig w) (.upstream (.storeIsHealthy id true))
  return ⟨id, url⟩

/-- The upstreams of a tenant. -/
def buildUpstreams (fqdn : GoString) : List Upstream → Reloading w (List UpstreamServer)
  | [] => return []
  | upstream :: rest => do
    let _ ← Fallible.ofExcept (wrapError (tenantText fqdn (str "has invalid upstream URL " ++
      w.lib.quote upstream.url ++ str ": ")) (w.lib.parseURL upstream.url))
    let server ← newUpstream w upstream.url
    return server :: (← buildUpstreams fqdn rest)

/-- `buildTenantState`. -/
def buildTenantState (fqdn : GoString) (tenant : Tenant) : Reloading w LiveTenantState := do
  Fallible.ofExcept (forM tenant.security.responseMasking fun rule =>
    checkError (tenantText fqdn (str "has invalid response_masking pattern " ++
      w.lib.quote rule.pattern ++ str ": ")) (w.lib.compileRegexp rule.pattern))
  let upstreams ← buildUpstreams w fqdn tenant.upstreams
  if h : upstreams ≠ [] then return ⟨⟨← alloc (w := w), upstreams⟩, h⟩
  else throw (tenantText fqdn (str "must define at least one valid upstream"))

/-- The tenants built so far: every host with an entry has a state with an upstream. -/
structure Built where
  mapping : GoMap Entry
  states : GoMap TenantState
  wafCache : GoMap ℕ
  crowdSecRequired : Bool
  geoIPRequired : Bool
  keys_eq : mapping.keys = states.keys
  upstreams_ne : ∀ host state, states.lookup host = some state → state.upstreams ≠ []

/-- No tenant yet. -/
def Built.empty : Built := ⟨∅, ∅, ∅, false, false, rfl, by simp⟩

/-- One more tenant. -/
def Built.add (b : Built) (host : GoString) (entry : Entry) (state : LiveTenantState)
    (wafCache : GoMap ℕ) : Built where
  mapping := b.mapping.insert host entry
  states := b.states.insert host state.1
  wafCache := wafCache
  crowdSecRequired := b.crowdSecRequired || entry.tenant.security.crowdSecEnabled = some true
  geoIPRequired := b.geoIPRequired || entry.tenant.security.geoIPEnabled = some true
  keys_eq := by rw [AList.keys_insert, AList.keys_insert, b.keys_eq]
  upstreams_ne := by
    intro key st h
    by_cases hk : key = host
    · subst hk
      rw [AList.lookup_insert] at h
      cases h
      exact state.2
    · rw [AList.lookup_insert_ne hk] at h
      exact b.upstreams_ne key st h

/-- The Coraza instance of a tenant, and the cache with it. Tenants with the same directives share
an instance, and instances survive a reload that does not change their directives. -/
def tenantWAF (cfg : AppConfig) (fqdn : GoString) (tenant : Tenant) (nextWAFCache : GoMap ℕ) :
    Reloading w (Option ℕ × GoMap ℕ) :=
  if tenant.security.wafEnabled = some true then do
    let rulesDir := cfg.globalSettings.rulesDir
    let directives := tenantDirectives cfg tenant
    let key := w.lib.sha256 (rulesDir ++ [0] ++ a.rulesFingerprint rulesDir ++ [0] ++ directives)
    let wafCache ← load (w := w) .wafCache
    match nextWAFCache.lookup key <|> wafCache.lookup key with
    | some waf => return (some waf, nextWAFCache.insert key waf)
    | none =>
      Fallible.ofExcept (checkError (str "failed to create WAF for tenant " ++ fqdn ++ str ": ")
        (a.newWAF fqdn directives))
      let waf ← alloc (w := w)
      return (some waf, nextWAFCache.insert key waf)
  else return (none, nextWAFCache)

/-- The block page of a tenant. -/
def readBlockPage (fqdn : GoString) (tenant : Tenant) : Result GoString :=
  if tenant.security.blockPagePath ≠ [] then
    wrapError (tenantText fqdn (str "block_page_path: "))
      (a.env.readFile (.blockPage fqdn) tenant.security.blockPagePath)
  else .ok []

/-- One round of the loop over the tenants. -/
def buildTenant (cfg : AppConfig) (built : Built) (fqdn : GoString) (tenant : Tenant) :
    Reloading w Built := do
  let (waf, wafCache) ← tenantWAF w a cfg fqdn tenant built.wafCache
  let blockPage ← Fallible.ofExcept (readBlockPage a fqdn tenant)
  let normalizedFQDN := normalizeHost w.unicode fqdn
  let state ← buildTenantState w normalizedFQDN tenant
  return built.add normalizedFQDN ⟨waf, tenant, blockPage⟩ state wafCache

/-- The loop over the tenants. -/
def buildTenants (cfg : AppConfig) : Built → List (GoString × Tenant) → Reloading w Built
  | built, [] => return built
  | built, (fqdn, tenant) :: rest => do
    let built ← buildTenant w a cfg built fqdn tenant
    buildTenants cfg built rest

/-! ## Dependencies -/

/-- The bouncer, if a tenant needs one, and whether CrowdSec answers. -/
def connectCrowdSec (cfg : AppConfig) (required : Bool) : Reloading w (Option Bouncer × Bool) :=
  if required then do
    let bouncer : Bouncer := ⟨← alloc (w := w), cfg.crowdSec.apiKey, cfg.crowdSec.apiUrl⟩
    Fallible.ofExcept (checkError (str "CrowdSec bouncer init failed: ") a.initBouncer)
    if dependencyFailMode w.unicode cfg.globalSettings.dependencyFailMode = .failClosed then
      Fallible.ofExcept (checkError (str "CrowdSec readiness check failed in fail-closed mode: ")
        a.probeBouncer)
    return (some bouncer, a.probeBouncer.isNone)
  else return (none, false)

/-- `openCountryLookup`; a database that is not valid is closed again. -/
def openCountryLookup (path : GoString) : Reloading w ℕ := do
  Fallible.ofExcept (checkError (str "open GeoIP database: ") (a.openGeoIP path))
  let reader ← Prog.op (S := handlerSig w) .openReader
  match a.validateGeoIP with
  | none => return reader
  | some e =>
    Prog.op (S := handlerSig w) (.closeReader reader)
    throw (joinErrors (str "GeoIP database does not support country lookups: " ++ e)
      a.closeGeoIP.toList)

/-- The GeoIP reader, if a tenant needs one. -/
def openGeoIP (cfg : AppConfig) (required : Bool) : Reloading w (Option ℕ) :=
  if required then do return some (← openCountryLookup w a cfg.geoIPDBPath) else return none

/-- `if nextGeoIP != nil { nextGeoIP.Close() }; return err`. -/
def closeAndFail {α : Type} (nextGeoIP : Option ℕ) (e : GoString) : Reloading w α := do
  match nextGeoIP with
  | some reader => Prog.op (S := handlerSig w) (.closeReader reader)
  | none => pure ()
  throw e

/-- A leader cannot be replaced by another one on the same address. -/
def sameLeaderAddress (old : Option Coordinator) (candidate : Coordinator) : Bool :=
  old.any fun c => c.role = str "leader" ∧ candidate.role = str "leader" ∧
    c.address = candidate.address

/-- The coordinator: the running one if its configuration is the same, else a new one. -/
def setUpCoordinator (c : CoordinatorConfig) (nextGeoIP : Option ℕ) :
    Reloading w (Option Coordinator) :=
  if c.enabled then do
    match configureTLS w a c.role c.tls with
    | .error e => closeAndFail w nextGeoIP (str "configure coordinator TLS: " ++ e)
    | .ok fingerprint =>
      let candidate : Coordinator := ⟨← alloc (w := w), c.role, c.address, c.secret, fingerprint⟩
      let old ← load (w := w) .coordinator
      if old.any (·.sameConfiguration candidate) then return old
      else if sameLeaderAddress old candidate then
        closeAndFail w nextGeoIP
          (str "changing coordinator leader configuration on the same address requires a restart")
      else
        match candidate.start w a with
        | .error e => closeAndFail w nextGeoIP (str "start coordinator: " ++ e)
        | .ok () =>
          Prog.op (S := handlerSig w) (.startCoordinator candidate.id)
          return some candidate
  else return none

/-! ## Publication -/

/-- `probeTenantStates`. The checks touch different upstreams, so that their order does not matter. -/
def probeTenantStates (states : GoMap TenantState) : Prog (handlerSig w) Unit :=
  Prog.each (fun t : GoString × TenantState =>
    Prog.each (fun u : UpstreamServer × ℕ =>
      (performCheck u.1 (a.probe t.1 u.2)).lift (upstreamPart w)) t.2.upstreams.zipIdx)
    (GoMap.visit (a.env.order .probe) states)

/-- What a reload publishes. -/
structure Generation where
  globalLimiter : Option RateLimiter
  allowIPs : Option (List Prefix)
  blockIPs : Option (List Prefix)
  trustedProxyCIDRs : Option (List Prefix)
  coordinator : Option Coordinator
  trustForwardedFor : Bool
  requestBodyLimit : ℤ
  responseMaskingLimit : ℤ
  dependencyMode : DependencyFailMode
  crowdsecRequired : Bool
  crowdsecHealthy : Bool
  bouncer : Option Bouncer
  crowdsecCacheTTL : ℤ
  geoIP : Option ℕ
  acmeEnabled : Bool
  built : Built

/-- The registry of a generation. -/
def Generation.registry (order : KeyOrder) (next : Generation) : Registry :=
  ⟨next.built.mapping, some (buildWildcardIndex order next.built.mapping)⟩

/-- The settings, up to the restart of the health checks: the GeoIP reader in force before. -/
def publishSettings (next : Generation) : Prog (handlerSig w) (Option ℕ) := do
  store .globalLimiter next.globalLimiter
  store .allowIPs next.allowIPs
  store .blockIPs next.blockIPs
  store .trustedProxyCIDRs next.trustedProxyCIDRs
  store .coordinator next.coordinator
  store .trustForwardedFor next.trustForwardedFor
  store .requestBodyLimit next.requestBodyLimit
  store .responseMaskingLimit next.responseMaskingLimit
  store .dependencyMode next.dependencyMode
  store .crowdsecRequired next.crowdsecRequired
  Prog.op (S := handlerSig w) (.crowdsec (.storeHealthy next.crowdsecHealthy))
  store .bouncer next.bouncer
  store .crowdsecCacheTTL next.crowdsecCacheTTL
  Prog.op (S := handlerSig w) (.crowdsec .purge)
  let oldGeoIP ← load .geoIP
  store .geoIP next.geoIP
  store .healthChecks (some (← alloc))
  return oldGeoIP

/-- `replaceTenantStates`: the map is emptied and filled again key by key. Only a reload adds keys,
so that `Range` visits the keys the map has when it is called. -/
def replaceTenantStates (previous order : KeyOrder) (next : GoMap TenantState) :
    Prog (handlerSig w) Unit := do
  let keys ← Prog.op (S := handlerSig w) .rangeTenantStates
  Prog.each (fun key => Prog.op (S := handlerSig w) (.deleteTenantState key)) (previous.visit keys)
  Prog.each (fun t : GoString × TenantState =>
    Prog.op (S := handlerSig w) (.storeTenantState t.1 t.2)) (GoMap.visit order next)

/-- The caches and the registry. -/
def publishRegistry (registry : Registry) (next : Generation) : Prog (handlerSig w) Unit := do
  Prog.op (S := handlerSig w) .purgeLlm
  Prog.op (S := handlerSig w) (.basicAuth .purge)
  store .registry registry
  store .wafCache next.built.wafCache
  store .acmeEnabled (some next.acmeEnabled)

/-- The coordinator and the reader that are no longer in force are closed. -/
def closeReplaced (oldCoordinator : Option Coordinator) (oldGeoIP : Option ℕ) (next : Generation) :
    Prog (handlerSig w) Unit := do
  match oldCoordinator with
  | some c =>
    if next.coordinator.any (·.id = c.id) then pure ()
    else Prog.op (S := handlerSig w) (.closeCoordinator c.id)
  | none => pure ()
  match oldGeoIP with
  | some reader =>
    if next.geoIP = some reader then pure () else Prog.op (S := handlerSig w) (.closeReader reader)
  | none => pure ()

/-- The section of `Reload` under `runtimeMu`. -/
def publish (env : Surroundings) (next : Generation) : Prog (handlerSig w) Unit := do
  let oldCoordinator ← load .coordinator
  let oldGeoIP ← publishSettings w next
  replaceTenantStates w (env.order .previous) (env.order .publish) next.built.states
  publishRegistry w (next.registry (env.order .wildcards)) next
  closeReplaced w oldCoordinator oldGeoIP next

/-- The generation of a configuration and the parts built for it. -/
def AppConfig.generation (unicode : Unicode) (cfg : AppConfig) (globalLimiter : Option RateLimiter)
    (built : Built) (bouncer : Option Bouncer × Bool) (geoIP : Option ℕ)
    (coordinator : Option Coordinator) : Generation :=
  let g := cfg.globalSettings
  let mode := dependencyFailMode unicode g.dependencyFailMode
  { globalLimiter := globalLimiter
    allowIPs := parseIPSets g.ipSets.allowList
    blockIPs := parseIPSets g.ipSets.blockList
    trustedProxyCIDRs := parseIPSets g.trustedProxyCIDRs
    coordinator := coordinator
    trustForwardedFor := g.trustForwardedFor
    requestBodyLimit := limitOrDefault g.requestBodyLimit
    responseMaskingLimit := limitOrDefault g.responseMaskingLimit
    dependencyMode := mode
    crowdsecRequired := built.crowdSecRequired && mode = .failClosed
    crowdsecHealthy := bouncer.2
    bouncer := bouncer.1
    crowdsecCacheTTL := cfg.crowdSec.cacheTTL.getD (30 * second)
    geoIP := geoIP
    acmeEnabled := g.acme.enabled
    built := built }

/-- `Reload` up to the section under `runtimeMu`. -/
def prepare : Reloading w Generation := do
  let cfg ← Fallible.ofExcept (loadConfig w.lib a.env a.configPath)
  checkRestart w a cfg
  let globalLimiter ← newGlobalLimiter w cfg.globalSettings.globalRateLimit
  store (w := w) .upstreamPool (some cfg.globalSettings.upstreamTransport)
  let built ← buildTenants w a cfg .empty (GoMap.visit (a.env.order .build) cfg.tenants)
  let bouncer ← connectCrowdSec w a cfg built.crowdSecRequired
  let geoIP ← openGeoIP w a cfg built.geoIPRequired
  let coordinator ← setUpCoordinator w a cfg.globalSettings.coordinator geoIP
  probeTenantStates w a built.states
  return cfg.generation w.unicode globalLimiter built bouncer geoIP coordinator

/-- `Reload`. -/
def reload : Reloading w Unit := do
  let next ← prepare w a
  publish w a.env next

end Reload

/-! ## A small site -/

/-- A tenant with one upstream. -/
def siteTenant : Tenant := { (default : Tenant) with upstreams := [⟨str "http://u", 0⟩] }

/-- A configuration with one tenant. -/
def siteConfig : AppConfig :=
  { (default : AppConfig) with tenants := (∅ : GoMap Tenant).insert (str "a") siteTenant }

/-- The tenant with another upstream, and a password that requests have to give. -/
def movedTenant : Tenant :=
  { siteTenant with
    upstreams := [⟨str "http://v", 0⟩]
    security := { siteTenant.security with basicAuth := [⟨str "admin", str "hash"⟩] } }

/-- The configuration with the tenant moved. -/
def movedConfig : AppConfig :=
  { (default : AppConfig) with tenants := (∅ : GoMap Tenant).insert (str "a") movedTenant }

/-- Functions of other packages that suffice for the two configurations; the first one is an empty
file. -/
def siteLib : ConfigLib where
  unicode := ⟨id, id, fun s t => s = t⟩
  quote := id
  parseURL url := .ok ⟨str "http", url, url, false, url⟩
  splitHostPortError _ := []
  bcryptCost _ := none
  compileRegexp _ := none
  canonicalHeaderKey := id
  decodeConfig data := .ok (if data = [] then siteConfig else movedConfig, .eof)
  decodeShard _ := .ok (∅, .eof)
  parseInt _ := .error []
  parseBool _ := .error []
  parseDuration _ := .error []
  sha256 := id
  validKeyPair _ _ := none
  hasCertificates _ := true

/-- A world in which nothing but the configuration is needed. -/
def site : World where
  lib := siteLib
  order := insertionOrder
  graphQL := .silent
  llm := ⟨fun _ => none, id, fun _ => false, fun _ _ => none, id, fun _ => []⟩
  auth := ⟨fun _ => none, fun _ _ => false, id⟩
  limits := ⟨fun _ _ => true, fun _ _ _ _ => none⟩
  sidecar _ _ := .failed
  lapi _ _ _ := none
  jwt _ _ _ := .invalid
  globalAllow _ _ := true
  country _ _ _ := none
  transaction _ _ _ _ := ⟨[], false, false, false, fun _ => false, fun _ => some false⟩
  escape := id

/-- No shards and no environment. -/
def siteSurroundings : Surroundings where
  getenv _ := []
  readFile _ _ := .ok []
  stat _ _ := .ok true
  shards := .missing
  order _ := insertionOrder

/-- A call of `Reload` in which every external step succeeds. -/
def siteAttempt : Attempt where
  configPath := []
  env := siteSurroundings
  rulesFingerprint _ := []
  newWAF _ _ := none
  initBouncer := none
  probeBouncer := none
  openGeoIP _ := none
  validateGeoIP := none
  closeGeoIP := none
  registerRPC := none
  listen _ := none
  probe _ _ := true
  hasDomainManager := false

/-- The same for the configuration with the tenant moved. -/
def movedAttempt : Attempt :=
  { siteAttempt with env := { siteSurroundings with readFile _ _ := .ok (str "moved") } }

end SynitWaf
