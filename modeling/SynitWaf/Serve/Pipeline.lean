import SynitWaf.Runtime

/-!
# The request pipeline

`ServeHTTP` resolves the client address and the tenant, runs its checks in order, and hands the
request to an upstream if none of them answers it.

* `RequestInfo`, `Served`;
* `andThen`: a stage and what follows it; `checkBlockList`, `checkCountry`, …: the stages;
* **`serveHTTP`**.
-/

namespace SynitWaf

open Atomic Go

/-! ## The source -/

/-- `requestInfo`; the buffered body is passed from stage to stage. -/
structure RequestInfo where
  clientIP : GoString
  tenant : GoString
  entry : Entry
  matched : Bool
  trustedPeer : Bool
  forwardedHost : GoString
  forwardedProt : GoString
  user : GoString

/-- The end of a request: an answer of the proxy, or an upstream; `hang` if inspecting it does not
end. -/
inductive Served where
  | reply (r : Reply)
  | upstream (u : UpstreamServer) (info : RequestInfo)
  | hang

/-- The request was handed to an upstream. -/
def Served.isUpstream : Served → Bool
  | .upstream _ _ => true
  | _ => false

/-- The clock readings of a request: an instant for CrowdSec, seconds for the selection. -/
structure ServeClock where
  crowdSec : ℤ
  select : ℤ

/-- The information `ServeHTTP` gathers before the first stage. -/
def newRequestInfo (r : Request) (trustForwarded : Bool) (trustedProxies : List Prefix)
    (clientIP : GoString) (found : Option (Entry × GoString)) : RequestInfo :=
  let trustedPeer := trustForwarded &&
    (parseAddrPort r.remoteAddr).any fun peer => prefixesContain trustedProxies peer.1.unmap
  { clientIP := clientIP
    tenant := (found.map Prod.snd).getD []
    entry := (found.map Prod.fst).getD default
    matched := found.isSome
    trustedPeer := trustedPeer
    forwardedHost := if trustedPeer then r.header.get (str "X-Forwarded-Host") else []
    forwardedProt := if trustedPeer then r.header.get (str "X-Forwarded-Proto") else []
    user := [] }

section Stages

variable {w : World}

/-- The next stage runs if the check does not answer the request. -/
def andThen (check : Prog (handlerSig w) (Option Served)) (next : Prog (handlerSig w) Served) :
    Prog (handlerSig w) Served := do
  match ← check with
  | some served => return served
  | none => next

/-- A check that applies only under a condition. -/
def onlyIf (c : Bool) (check : Prog (handlerSig w) (Option Served)) :
    Prog (handlerSig w) (Option Served) :=
  if c then check else .ret none

/-- The answer of a check. -/
def reject (status : ℕ) (message : String) : Option Served := some (.reply (.text status (str message)))

/-- Stage 1: the global block list. -/
def checkBlockList (ip : Addr) : Prog (handlerSig w) (Option Served) := do
  if prefixesContain ((← load .blockIPs).getD []) ip then
    return some (.reply (.raw 403 (str "application/json")
      (str "\x7b\"error\": \"Forbidden\", \"message\": \"IP is blocked\"\x7d")))
  else return none

/-- The allow list. -/
def allowListed (ip : Addr) : Prog (handlerSig w) Bool := do
  return prefixesContain ((← load .allowIPs).getD []) ip

/-- Stage 2: the countries a tenant blocks. -/
def checkCountry (policy : SecurityPolicy) (ip : Addr) : Prog (handlerSig w) (Option Served) := do
  match ← Prog.op (S := handlerSig w) (.lookupCountry ip) with
  | none =>
    if (← load .dependencyMode) = .failClosed then
      return reject 503 "Security dependency unavailable"
    else return none
  | some none => return none
  | some (some country) =>
    if country ∈ policy.blockedCountries then return reject 403 "Forbidden: country is blocked"
    else return none

/-- Stage 3: the global rate limit. -/
def checkGlobalLimit : Prog (handlerSig w) (Option Served) := do
  match ← load .globalLimiter with
  | none => return none
  | some limiter =>
    if ← Prog.op (S := handlerSig w) (.globalAllow limiter) then return none
    else return reject 429 "Too Many Requests"

/-- Stage 5: the rate limit of the tenant. -/
def checkTenantLimit (tenant clientIP : GoString) (policy : RateLimitPolicy) :
    Prog (handlerSig w) (Option Served) :=
  -- without a limit the coordinator is not loaded
  if policy.requestsPerMinute ≤ 0 then return none
  else do
    let coordinator ← load .coordinator
    if ← (allowRateLimitedRequest coordinator tenant clientIP policy).lift (limiterPart w) then
      return none
    else return reject 429 "Too Many Requests"

/-- Stage 6: bearer tokens. -/
def checkJWT (r : Request) (cfg : JWTValidationConfig) : Prog (handlerSig w) (Option Served) := do
  let call ← Prog.op (S := handlerSig w) .jwtCall
  return (validateJWT r (w.jwt call cfg)).map .reply

/-- Stage 7: Basic Auth, which sets the user. -/
def authenticate (r : Request) (info : RequestInfo)
    (next : RequestInfo → Prog (handlerSig w) Served) : Prog (handlerSig w) Served :=
  let credentials := info.entry.tenant.security.basicAuth
  if credentials = [] then next info
  else do
    match ← (checkBasicAuth w.auth r credentials).lift (basicAuthPart w) with
    | none =>
      return .reply (.challenge 401 (str "Basic realm=\"Restricted\"") (str "Unauthorized"))
    | some user => next { info with user := user }

/-- The decision of CrowdSec; `none` if there is no bouncer or it fails. -/
def crowdSecDecision (now : ℤ) (clientIP : GoString) : Prog (handlerSig w) (Option Bool) := do
  match ← load .bouncer with
  | none => return none
  | some bouncer =>
    let ttl ← load .crowdsecCacheTTL
    (crowdSecBanned ttl now bouncer clientIP).lift (crowdsecPart w)

/-- Stage 8: CrowdSec. -/
def checkCrowdSec (now : ℤ) (clientIP : GoString) : Prog (handlerSig w) (Option Served) := do
  match ← crowdSecDecision now clientIP with
  | none =>
    if (← load .dependencyMode) = .failClosed then
      return reject 503 "Security dependency unavailable"
    else return none
  | some true =>
    return some (.reply (.raw 403 (str "application/json")
      (str "\x7b\"error\": \"Blocked by Security Policy\"\x7d")))
  | some false => return none

/-- `clientIPFor`: the address found before, or a new reading of the settings if it is empty. -/
def clientIPFor (r : Request) (info : RequestInfo) : Prog (handlerSig w) GoString :=
  if info.clientIP ≠ [] then .ret info.clientIP
  else do
    let trustForwarded ← load .trustForwardedFor
    return clientIPFromRequest r trustForwarded ((← load .trustedProxyCIDRs).getD [])

/-- Coraza, if the tenant has an instance: the answer, and the cached body. -/
def runCoraza (r : Request) (info : RequestInfo) :
    Prog (handlerSig w) (Option Reply × Option GoString) :=
  match info.entry.waf with
  | none => .ret (none, none)
  | some waf => do
    let number ← Prog.op (S := handlerSig w) .newTransaction
    let clientIP ← clientIPFor r info
    let limit ← load .requestBodyLimit
    return applyWAF w.escape r info.entry (w.transaction number waf clientIP r) limit none

/-- GraphQL inspection with the body cached so far: the answer, and the cached body. -/
def runGraphQL (r : Request) (policy : GraphQLProtection) (cached : Option GoString) :
    Prog (handlerSig w) (Option Reply × Option GoString) :=
  if policy.enabled then do
    return applyGraphQLProtection w.graphQL policy r (← load .requestBodyLimit) cached
  else .ret (none, cached)

/-- LLM inspection with the body cached so far. -/
def runLLM (r : Request) (tenant : GoString) (policy : LLMProtectionConfig)
    (cached : Option GoString) : Prog (handlerSig w) LlmOutcome :=
  if policy.enabled then do
    let limit ← load .requestBodyLimit
    (applyLLMProtection w.sidecar w.llm policy limit tenant r cached).lift (llmPart w)
  else .ret .pass

/-- Stage 9: inspection of the content, which the bypass secret skips. -/
def inspectContent (r : Request) (info : RequestInfo) : Prog (handlerSig w) (Option Served) :=
  let policy := info.entry.tenant.security
  if devBypassGranted r policy.devBypassSecret then .ret none
  else do
    match ← runCoraza r info with
    | (some reply, _) => return some (.reply reply)
    | (none, cached) =>
      match ← runGraphQL r policy.graphQL cached with
      | (some reply, _) => return some (.reply reply)
      | (none, cached) =>
        match ← runLLM r info.tenant policy.llmProtection cached with
        | .block reply => return some (.reply reply)
        | .hang => return some .hang
        | .pass => return none

/-- The answer when the map has no state for the tenant. -/
def noBackend : Reply := .text 503 (str "Service Unavailable")

/-- The answer when no upstream is selected. -/
def noUpstream : Reply := .raw 503 (str "application/json")
  (str "\x7b\"error\": \"Service Unavailable\", \"message\": \"No healthy upstreams available\"\x7d")

/-- Stage 10: the upstream. -/
def proxyRequest (now : ℤ) (info : RequestInfo) : Prog (handlerSig w) Served := do
  match ← Prog.op (S := handlerSig w) (.loadTenantState info.tenant) with
  | none => return .reply noBackend
  | some state =>
    match ← (selectUpstream state now).lift (upstreamPart w) with
    | none => return .reply noUpstream
    | some upstream => return .upstream upstream info

/-- The stages of a request whose host matched a tenant. -/
def serveTenant (clock : ServeClock) (r : Request) (allowlisted : Bool) (info : RequestInfo) :
    Prog (handlerSig w) Served :=
  let policy := info.entry.tenant.security
  andThen (onlyIf (!allowlisted) (checkTenantLimit info.tenant info.clientIP policy.rateLimit)) <|
  andThen (onlyIf policy.jwtValidation.enabled (checkJWT r policy.jwtValidation)) <|
  authenticate r info fun info =>
  andThen (onlyIf (policy.crowdSecEnabled = some true)
    (checkCrowdSec clock.crowdSec info.clientIP)) <|
  andThen (onlyIf (!allowlisted) (inspectContent r info)) <|
  proxyRequest clock.select info

/-- The stages of `ServeHTTP`. -/
def stages (clock : ServeClock) (r : Request) (ip : Addr) (info : RequestInfo) :
    Prog (handlerSig w) Served :=
  andThen (checkBlockList ip) do
  let allowlisted ← allowListed ip
  let geoIPEnabled := info.matched && info.entry.tenant.security.geoIPEnabled = some true
  andThen (onlyIf (!allowlisted && geoIPEnabled) (checkCountry info.entry.tenant.security ip)) <|
  andThen (onlyIf (!allowlisted) checkGlobalLimit) <|
  if !info.matched then
    return .reply (.text 403 (str "Forbidden: Access to this host is not allowed"))
  else serveTenant clock r allowlisted info

variable (w)

/-- `ServeHTTP`. -/
def serveHTTP (clock : ServeClock) (r : Request) : Prog (handlerSig w) Served := do
  let trustedProxies := (← load .trustedProxyCIDRs).getD []
  let trustForwarded ← load .trustForwardedFor
  let clientIP := clientIPFromRequest r trustForwarded trustedProxies
  let registry ← load .registry
  let found := registry.get w.unicode w.order r.host
  stages clock r ((parseAddr clientIP).getD .invalid)
    (newRequestInfo r trustForwarded trustedProxies clientIP found)

end Stages

end SynitWaf
