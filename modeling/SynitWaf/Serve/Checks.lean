import SynitWaf.Atomic.Prog
import SynitWaf.Registry
import SynitWaf.Request

/-!
# The checks of a request

The single checks that `ServeHTTP` runs, apart from GraphQL and LLM inspection. A check with shared
state is a program over the operations on that state, so that it can run among others.

* `devBypassGranted`, `validateJWT`;
* `basicAuthSig`, `checkBasicAuth`: passwords, with a cache of successful comparisons;
* `crowdsecSig`, `crowdSecBanned`: the decisions of CrowdSec, with a cache;
* `limiterSig`, `bucketKey`, `allowRateLimitedRequest`: token buckets by tenant and client;
* `applyWAF`: a Coraza transaction.
-/

namespace SynitWaf

open Atomic Go

/-! ## Bypass and tokens -/

/-- `devBypassHeader`. -/
def devBypassHeader : GoString := str "X-Synit-Dev-Bypass"

/-- `devBypassGranted`. -/
def devBypassGranted (r : Request) (secret : GoString) : Bool :=
  secret ≠ [] && r.header.get devBypassHeader = secret

/-- The outcome of fetching the keys, parsing and verifying a token. -/
inductive JwtResult where
  | unavailable
  | invalid
  | valid
  deriving DecidableEq

/-- `validateJWT`: the answer to a request without a valid token. -/
def validateJWT (r : Request) (verify : GoString → JwtResult) : Option Reply :=
  let authHeader := r.header.get (str "Authorization")
  if !hasPrefix authHeader (str "Bearer ") then
    some (.text 401 (str "Unauthorized: Bearer token required"))
  else
    match verify (trimPrefix authHeader (str "Bearer ")) with
    | .unavailable => some (.text 503 (str "Authentication service unavailable"))
    | .invalid => some (.text 401 (str "Unauthorized: Invalid token"))
    | .valid => none

/-! ## Basic Auth -/

/-- The functions of other packages that Basic Auth calls; `mac` is the HMAC under the key of the
process. -/
structure AuthLib where
  parseBasicAuth : GoString → Option (GoString × GoString)
  bcryptMatches : GoString → GoString → Bool
  mac : GoString → GoString

/-- The keys of the comparisons that succeeded. -/
structure BasicAuthState where
  cache : GoString → Bool

/-- Operations on the cache; `evict` is an expiry or eviction. -/
inductive BasicAuthOp where
  | cacheGet (key : GoString)
  | cacheAdd (key : GoString)
  | evict (key : GoString)
  | purge

/-- The answer of an operation. -/
@[reducible] def BasicAuthOp.Res : BasicAuthOp → Type
  | .cacheGet _ => Bool
  | _ => Unit

/-- What an operation does. -/
def BasicAuthOp.exec : (o : BasicAuthOp) → BasicAuthState → o.Res × BasicAuthState
  | .cacheGet key, s => (s.cache key, s)
  | .cacheAdd key, s => ((), ⟨Function.update s.cache key true⟩)
  | .evict key, s => ((), ⟨Function.update s.cache key false⟩)
  | .purge, _ => ((), ⟨fun _ => false⟩)

/-- The signature of the cache. -/
@[reducible] def basicAuthSig : Sig BasicAuthState where
  Op := BasicAuthOp
  Res := BasicAuthOp.Res
  exec := BasicAuthOp.exec

/-- The text of a cache key: the parts with their lengths. -/
def basicAuthCacheText (user pass hash : GoString) : GoString :=
  [user, pass, hash].flatMap fun part => itoa part.length ++ 0 :: part

/-- The loop of `checkBasicAuth` over the credentials. -/
def authLoop (lib : AuthLib) (user pass : GoString) :
    List BasicAuthCredentials → Prog basicAuthSig Bool
  | [] => .ret false
  | cred :: credentials =>
    if user ≠ cred.user then authLoop lib user pass credentials
    else
      let cacheKey := lib.mac (basicAuthCacheText user pass cred.password)
      .act (.cacheGet cacheKey) fun (cached : Bool) =>
        if cached then .ret true
        else if lib.bcryptMatches cred.password pass then .act (.cacheAdd cacheKey) fun _ => .ret true
        else authLoop lib user pass credentials

/-- `checkBasicAuth`: the authenticated user. The comparison with a dummy hash for an unknown user
has no effect but time. -/
def checkBasicAuth (lib : AuthLib) (r : Request) (credentials : List BasicAuthCredentials) :
    Prog basicAuthSig (Option GoString) :=
  match lib.parseBasicAuth (r.header.get (str "Authorization")) with
  | none => .ret none
  | some (user, pass) => do
    if ← authLoop lib user pass credentials then return some user else return none

/-! ## CrowdSec -/

/-- A client of the local API of CrowdSec. -/
structure Bouncer where
  id : ℕ
  apiKey : GoString
  apiUrl : GoString
  deriving DecidableEq

/-- A cached decision. -/
structure CrowdsecDecision where
  banned : Bool
  expires : ℤ
  deriving DecidableEq

/-- The decision cache, the health flag and the number of queries so far. -/
structure CrowdsecState where
  cache : GoString → Option CrowdsecDecision
  healthy : Bool
  calls : ℕ

/-- Operations on the cache and the flag, and queries; `evict` is an eviction. -/
inductive CrowdsecOp where
  | cacheGet (clientIP : GoString)
  | cacheAdd (clientIP : GoString) (decision : CrowdsecDecision)
  | evict (clientIP : GoString)
  | query (bouncer : Bouncer) (clientIP : GoString)
  | storeHealthy (healthy : Bool)
  | purge

/-- The answer of an operation; a query fails or tells whether there are decisions. -/
@[reducible] def CrowdsecOp.Res : CrowdsecOp → Type
  | .cacheGet _ => Option CrowdsecDecision
  | .query _ _ => Option Bool
  | _ => Unit

/-- What an operation does; `lapi` answers the queries. -/
def CrowdsecOp.exec (lapi : ℕ → Bouncer → GoString → Option Bool) :
    (o : CrowdsecOp) → CrowdsecState → o.Res × CrowdsecState
  | .cacheGet clientIP, s => (s.cache clientIP, s)
  | .cacheAdd clientIP d, s => ((), { s with cache := Function.update s.cache clientIP (some d) })
  | .evict clientIP, s => ((), { s with cache := Function.update s.cache clientIP none })
  | .query bouncer clientIP, s => (lapi s.calls bouncer clientIP, { s with calls := s.calls + 1 })
  | .storeHealthy healthy, s => ((), { s with healthy := healthy })
  | .purge, s => ((), { s with cache := fun _ => none })

/-- The signature of CrowdSec. -/
@[reducible] def crowdsecSig (lapi : ℕ → Bouncer → GoString → Option Bool) : Sig CrowdsecState where
  Op := CrowdsecOp
  Res := CrowdsecOp.Res
  exec := CrowdsecOp.exec lapi

section Crowdsec

variable {lapi : ℕ → Bouncer → GoString → Option Bool}

/-- The part of `crowdSecBanned` that asks CrowdSec; `none` is an error. -/
def askCrowdSec (ttl now : ℤ) (bouncer : Bouncer) (clientIP : GoString) :
    Prog (crowdsecSig lapi) (Option Bool) :=
  .act (.query bouncer clientIP) fun (decisions : Option Bool) =>
    .act (.storeHealthy decisions.isSome) fun _ =>
      match decisions with
      | none => .ret none
      | some banned =>
        if 0 < ttl then .act (.cacheAdd clientIP ⟨banned, now + ttl⟩) fun _ => .ret (some banned)
        else .ret (some banned)

/-- `crowdSecBanned`, called when the clock reads `now`. -/
def crowdSecBanned (ttl now : ℤ) (bouncer : Bouncer) (clientIP : GoString) :
    Prog (crowdsecSig lapi) (Option Bool) :=
  if 0 < ttl then
    .act (.cacheGet clientIP) fun (cached : Option CrowdsecDecision) =>
      match cached with
      | some decision =>
        if now < decision.expires then .ret (some decision.banned)
        else askCrowdSec ttl now bouncer clientIP
      | none => askCrowdSec ttl now bouncer clientIP
  else askCrowdSec ttl now bouncer clientIP

end Crowdsec

/-! ## Rate limits -/

/-- The identity of a coordinator. -/
structure Coordinator where
  id : ℕ
  role : GoString
  address : GoString
  secret : GoString
  tlsFingerprint : GoString
  deriving DecidableEq

/-- A token bucket and the policy it was made for. -/
structure RateLimiter where
  id : ℕ
  policy : RateLimitPolicy
  deriving DecidableEq

/-- The buckets by key, the lock, and the numbers of buckets made and of decisions so far. -/
structure LimiterState where
  limiters : GoString → Option RateLimiter
  locked : Bool
  made : ℕ
  calls : ℕ

/-- Operations on the buckets, their lock, and decisions of buckets and of the coordinator; `evict` is
an expiry or eviction. -/
inductive LimiterOp where
  | get (key : GoString)
  | add (key : GoString) (policy : RateLimitPolicy)
  | evict (key : GoString)
  | lock
  | unlock
  | allow (limiter : RateLimiter)
  | allowRemote (coordinator : Coordinator) (key : GoString) (policy : RateLimitPolicy)

/-- The answer of an operation; a coordinator may fail. -/
@[reducible] def LimiterOp.Res : LimiterOp → Type
  | .get _ => Option RateLimiter
  | .add _ _ => RateLimiter
  | .allow _ => Bool
  | .allowRemote _ _ _ => Option Bool
  | _ => Unit

/-- The decisions of token buckets and coordinators. -/
structure LimiterOracle where
  allow : ℕ → RateLimiter → Bool
  remote : ℕ → Coordinator → GoString → RateLimitPolicy → Option Bool

/-- What an operation does. -/
def LimiterOp.exec (oracle : LimiterOracle) : (o : LimiterOp) → LimiterState → o.Res × LimiterState
  | .get key, s => (s.limiters key, s)
  | .add key policy, s =>
    (⟨s.made, policy⟩,
      { s with limiters := Function.update s.limiters key (some ⟨s.made, policy⟩), made := s.made + 1 })
  | .evict key, s => ((), { s with limiters := Function.update s.limiters key none })
  | .lock, s => ((), { s with locked := true })
  | .unlock, s => ((), { s with locked := false })
  | .allow limiter, s => (oracle.allow s.calls limiter, { s with calls := s.calls + 1 })
  | .allowRemote coordinator key policy, s =>
    (oracle.remote s.calls coordinator key policy, { s with calls := s.calls + 1 })

/-- The signature of the rate limits; a taken lock blocks. -/
@[reducible] def limiterSig (oracle : LimiterOracle) : Sig LimiterState where
  Op := LimiterOp
  Res := LimiterOp.Res
  exec := LimiterOp.exec oracle
  enabled
    | .lock, s => !s.locked
    | _, _ => true

/-- `rateLimitClientKey`: IPv6 clients are grouped by their first 64 bits. -/
def rateLimitClientKey (clientIP : GoString) : GoString :=
  match parseAddr clientIP with
  | none => clientIP
  | some addr =>
    match addr.unmap with
    | .v6 groups _ => string6 (groups.toList.take 4 ++ [0, 0, 0, 0]) ++ str "/64"
    | a => a.string

section Limiter

variable {oracle : LimiterOracle}

/-- The bucket of a key, if it was made for the policy. -/
def usable (policy : RateLimitPolicy) (entry : Option RateLimiter) : Option RateLimiter :=
  entry.filter fun l => l.policy = policy

/-- The part of `allowRateLimitedRequest` under the lock. -/
def allowLocked (key : GoString) (policy : RateLimitPolicy) : Prog (limiterSig oracle) Bool :=
  .act .lock fun _ => .act (.get key) fun (entry : Option RateLimiter) =>
    match usable policy entry with
    | some limiter => .act (.allow limiter) fun (ok : Bool) => .act .unlock fun _ => .ret ok
    | none => .act (.add key policy) fun (limiter : RateLimiter) =>
      .act (.allow limiter) fun (ok : Bool) => .act .unlock fun _ => .ret ok

/-- The decision of a local bucket. -/
def allowLocal (key : GoString) (policy : RateLimitPolicy) : Prog (limiterSig oracle) Bool :=
  .act (.get key) fun (entry : Option RateLimiter) =>
    match usable policy entry with
    | some limiter => .act (.allow limiter) fun (ok : Bool) => .ret ok
    | none => allowLocked key policy

/-- The key of the bucket of a client. -/
def bucketKey (tenant clientIP : GoString) : GoString :=
  tenant ++ str ":" ++ rateLimitClientKey clientIP

/-- `allowRateLimitedRequest`, with the coordinator in force. -/
def allowRateLimitedRequest (coordinator : Option Coordinator) (tenant clientIP : GoString)
    (policy : RateLimitPolicy) : Prog (limiterSig oracle) Bool :=
  if policy.requestsPerMinute ≤ 0 then .ret true
  else
    let key := bucketKey tenant clientIP
    match coordinator with
    | none => allowLocal key policy
    | some coord => .act (.allowRemote coord key policy) fun (reply : Option Bool) =>
      match reply with
      | some allowed => .ret allowed
      | none => allowLocal key policy

end Limiter

/-! ## Coraza -/

/-- A transaction: its identifier, whether it is interrupted after the connection, the URI and the
headers, whether writing the body fails, and how processing the written body ends. -/
structure CorazaTx where
  id : GoString
  connection : Bool
  uri : Bool
  headers : Bool
  writeBody : GoString → Bool
  processBody : Option GoString → Option Bool

/-- `blockRequest`: the answer to an interrupted transaction. -/
def blockRequest (escape : GoString → GoString) (r : Request) (entry : Entry) (tx : CorazaTx) : Reply :=
  if entry.tenant.security.blockPageURL ≠ [] then .redirect 302 entry.tenant.security.blockPageURL
  else if entry.blockPage ≠ [] then
    let page := replaceAll entry.blockPage (str "\x7b\x7bEVENT_ID\x7d\x7d") (escape tx.id)
    .raw 403 (str "text/html; charset=utf-8")
      (replaceAll page (str "\x7b\x7bHOST\x7d\x7d") (escape r.host))
  else
    .raw 403 (str "application/json")
      (str "\x7b\"error\": \"Forbidden by security policy\", \"event_id\": \"" ++ tx.id ++ str "\"\x7d")

/-- The body phase of `applyWAF`, once the body has been written. -/
def processWAFBody (escape : GoString → GoString) (r : Request) (entry : Entry) (tx : CorazaTx)
    (body : Option GoString) : Option Reply :=
  match tx.processBody body with
  | none => some (.text 500 (str "Request body security inspection failed"))
  | some interrupted => if interrupted then some (blockRequest escape r entry tx) else none

/-- `applyWAF`: the answer if the request is blocked, and the cached body. -/
def applyWAF (escape : GoString → GoString) (r : Request) (entry : Entry) (tx : CorazaTx)
    (requestBodyLimit : ℤ) (cached : Option GoString) : Option Reply × Option GoString :=
  if tx.connection || tx.uri || tx.headers then (some (blockRequest escape r entry tx), cached)
  else if r.body ≠ .nil ∧ r.contentLength ≠ 0 then
    if hasUnsupportedContentEncoding r then
      (some (.text 415 (str "Compressed request bodies cannot be inspected")), cached)
    else
      match inspectionBody r cached (bodyLimit requestBodyLimit) with
      | (.error .tooLarge, cached) =>
        (some (.text 413 (str "Request body exceeds inspection limit")), cached)
      | (.error .readFailed, cached) => (some (.text 500 (str "Internal Server Error")), cached)
      | (.ok body, cached) =>
        if tx.writeBody body then (some (.text 500 (str "Internal Server Error")), cached)
        else (processWAFBody escape r entry tx (some body), cached)
  else (processWAFBody escape r entry tx none, cached)

end SynitWaf
