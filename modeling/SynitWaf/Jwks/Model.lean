import SynitWaf.Atomic.Pool
import SynitWaf.Atomic.RefLock
import SynitWaf.Go.Errors
import SynitWaf.Go.Json
import SynitWaf.Go.Time
import SynitWaf.Serve.Checks

/-!
# Key sets

The keys that sign tokens are fetched from an endpoint and cached. Calls that find no usable entry
wait for a lock of their endpoint, which is made by the first of them and dropped by the last one.

* `parseKeys`, `decodeJWKS`, `cacheTTL`, `newCacheEntry`: from a response to an entry of the cache;
* `jwksSig`: the cache, the locks, the clock and the fetches;
* `storeJWKSCacheEntry`, `getJWKSEntry`, `verifyToken`; `passTime`.
-/

namespace SynitWaf

open Atomic Go

/-! ## Responses -/

/-- An element of the list `keys` of a response: its `kid`, empty if it has none, and what `parseJWK`
makes of it. -/
structure Jwk (κ : Type) where
  kid : GoString
  key : Result κ

/-- The families of keys and of signing methods. -/
inductive KeyFamily where
  | rsa
  | ecdsa
  | ed25519
  deriving DecidableEq

/-- The header of a token: the family of its method, if it has one, and its `kid`. -/
structure TokenHeader where
  method : Option KeyFamily
  kid : Option GoString

/-- The functions of other packages; `header` is the part of `jwt.Parse` before the key is looked up,
`verifies` the part after it. -/
structure JwtLib (κ : Type) where
  quote : GoString → GoString
  unmarshal : GoString → Result (List (Jwk κ))
  family : κ → KeyFamily
  header : GoString → Option TokenHeader
  verifies : JWTValidationConfig → GoString → κ → Bool

/-- A response, with the error that ends its body, if any. -/
structure JwksResponse where
  statusCode : ℤ
  contentLength : ℤ
  body : GoString
  readError : Option GoString
  cacheControl : GoString

/-- `maxJWKSResponseBytes`. -/
def maxJWKSResponseBytes : ℤ := 1048576

/-- `maxJWKSKeys`. -/
def maxJWKSKeys : ℕ := 100

/-- `maxJWKSCacheEntries`. -/
def maxJWKSCacheEntries : ℕ := 256

/-- `maxJWKSCacheTTL`. -/
def maxJWKSCacheTTL : ℤ := 3600 * second

/-- `minJWKSForcedRefreshDelay`. -/
def minJWKSForcedRefreshDelay : ℤ := 30 * second

section Response

variable {κ : Type} (lib : JwtLib κ)

/-- The loop over the keys; keys without a `kid` and keys that cannot be parsed are left out. -/
def parseKeys : GoMap κ → List (Jwk κ) → Result (GoMap κ)
  | parsedKeys, [] => .ok parsedKeys
  | parsedKeys, k :: keys =>
    if k.kid = [] then parseKeys parsedKeys keys
    else if (parsedKeys.lookup k.kid).isSome then
      .error (str "JWKS contains duplicate kid " ++ lib.quote k.kid)
    else
      match k.key with
      | .error _ => parseKeys parsedKeys keys
      | .ok key => parseKeys (parsedKeys.insert k.kid key) keys

/-- The keys of a response. -/
def decodeJWKS (resp : JwksResponse) : Result (GoMap κ) := do
  refuse (resp.statusCode ≠ 200) (str "JWKS endpoint returned status " ++ itoa resp.statusCode)
  refuse (resp.contentLength > maxJWKSResponseBytes)
    (str "JWKS response exceeds " ++ itoa maxJWKSResponseBytes ++ str " bytes")
  -- at most one byte above the limit is read, so that an error behind it is not seen
  let tooLong : Bool := resp.body.length > maxJWKSResponseBytes
  checkError (str "read JWKS response: ") (if tooLong then none else resp.readError)
  refuse tooLong (str "JWKS response exceeds " ++ itoa maxJWKSResponseBytes ++ str " bytes")
  let keys ← lib.unmarshal resp.body
  refuse (keys.length > maxJWKSKeys) (str "JWKS response contains " ++ itoa keys.length ++
    str " keys; maximum is " ++ itoa maxJWKSKeys)
  let parsedKeys ← parseKeys lib ∅ keys
  refuse (GoMap.len parsedKeys = 0) (str "no valid keys found in JWKS")
  return parsedKeys

/-- One directive of `Cache-Control`. -/
def readDirective (ttl : ℤ) (part : GoString) : ℤ :=
  match cutPrefix (trimSpace part) (str "max-age=") with
  | none => ttl
  | some after =>
    match atoi after with
    | none => ttl
    | some ma => if ma > 0 then int64 (ma * second) else ttl

/-- The lifetime of an entry. -/
def cacheTTL (cacheControl : GoString) : ℤ :=
  let ttl := 900 * second
  let ttl :=
    if cacheControl ≠ [] then (split cacheControl (byte ',')).foldl readDirective ttl else ttl
  if ttl > maxJWKSCacheTTL then maxJWKSCacheTTL else ttl

/-- `jwksCacheEntry`. An entry is known by the number of the fetch it was made from, and
`lastForcedRefresh` is `none` for the zero time. -/
structure JwksCacheEntry (κ : Type) where
  id : ℕ
  keys : GoMap κ
  expiresAt : ℤ
  lastForcedRefresh : Option ℤ

/-- The entry made from the outcome of a fetch, for a call that read the time `now`; `forced` if there
was a previous entry. -/
def newCacheEntry (forced : Bool) (now : ℤ) (fetch : ℕ) (outcome : Result JwksResponse) :
    Result (JwksCacheEntry κ) := do
  let resp ← outcome
  let keys ← decodeJWKS lib resp
  return ⟨fetch, keys, now + cacheTTL resp.cacheControl, if forced then some now else none⟩

end Response

/-! ## The shared state -/

/-- What the cache holds. -/
def cachedItems {κ : Type} (cache : GoMap (JwksCacheEntry κ)) :
    List (GoString × JwksCacheEntry κ) :=
  cache.entries.map fun item => (item.1, item.2)

/-- The cache, the locks, whether `jwksCacheMu` is held, the number of fetches so far and the clock. -/
structure JwksState (κ : Type) where
  cache : GoMap (JwksCacheEntry κ)
  locks : RefLocks GoString
  cacheLocked : Bool
  fetches : ℕ
  now : ℤ

/-- An order in which `Range` may visit the cache. -/
structure RangeOrder (κ : Type) where
  visit : List (GoString × JwksCacheEntry κ) → List (GoString × JwksCacheEntry κ)
  perm : ∀ items, (visit items).Perm items

/-- The items as they are stored. -/
def RangeOrder.own {κ : Type} : RangeOrder κ := ⟨id, fun _ => .refl _⟩

/-- What lies outside: the outcome of each fetch, and the order in which `Range` visits the cache. -/
structure JwksWorld (κ : Type) where
  respond : ℕ → GoString → Result JwksResponse
  order : ℕ → RangeOrder κ

/-- Operations on the clock, the cache and the locks; `tick` lets time pass. The sections under
`jwksLocksMu` are one operation each, and a fetch shows whether its call has a previous entry and
what it has read of the clock. -/
inductive JwksOp (κ : Type) where
  | now
  | tick (d : ℕ)
  | load (endpoint : GoString)
  | acquire (endpoint : GoString)
  | lock (l : ℕ)
  | unlock (l : ℕ)
  | release (endpoint : GoString) (l : ℕ)
  | fetch (endpoint : GoString) (forced : Bool) (now : ℤ)
  | lockCache
  | store (endpoint : GoString) (entry : JwksCacheEntry κ)
  | range
  | delete (endpoint : GoString)
  | unlockCache

/-- The answer of an operation; a fetch tells its number. -/
@[reducible] def JwksOp.Res {κ : Type} : JwksOp κ → Type
  | .now => ℤ
  | .load _ => Option (JwksCacheEntry κ)
  | .acquire _ => ℕ
  | .fetch _ _ _ => ℕ × Result JwksResponse
  | .range => List (GoString × JwksCacheEntry κ)
  | _ => Unit

/-- What an operation does. -/
def JwksOp.exec {κ : Type} (w : JwksWorld κ) : (o : JwksOp κ) → JwksState κ → o.Res × JwksState κ
  | .now, s => (s.now, s)
  | .tick d, s => ((), { s with now := s.now + d })
  | .load endpoint, s => (s.cache.lookup endpoint, s)
  | .acquire endpoint, s =>
    ((s.locks.acquire endpoint).1, { s with locks := (s.locks.acquire endpoint).2 })
  | .lock l, s => ((), { s with locks := s.locks.lock l })
  | .unlock l, s => ((), { s with locks := s.locks.unlock l })
  | .release endpoint l, s => ((), { s with locks := s.locks.release endpoint l })
  | .fetch endpoint _ _, s =>
    ((s.fetches, w.respond s.fetches endpoint), { s with fetches := s.fetches + 1 })
  | .lockCache, s => ((), { s with cacheLocked := true })
  | .store endpoint entry, s => ((), { s with cache := s.cache.insert endpoint entry })
  | .range, s => ((w.order s.fetches).visit (cachedItems s.cache), s)
  | .delete endpoint, s => ((), { s with cache := s.cache.erase endpoint })
  | .unlockCache, s => ((), { s with cacheLocked := false })

/-- The signature; a lock that is held blocks. -/
@[reducible] def jwksSig {κ : Type} (w : JwksWorld κ) : Sig (JwksState κ) where
  Op := JwksOp κ
  Res := JwksOp.Res
  exec := JwksOp.exec w
  enabled
    | .lock l, s => !s.locks.held l
    | .lockCache, s => !s.cacheLocked
    | _, _ => true

/-! ## The cache -/

/-- The variables of the loop in `storeJWKSCacheEntry`, and the endpoints it deletes. -/
structure JwksSweep where
  count : ℕ
  oldestEndpoint : GoString
  oldestExpiry : ℤ
  deleted : List GoString

section Programs

variable {κ : Type} {w : JwksWorld κ}

/-- One round of the loop. -/
def JwksSweep.visit (now : ℤ) (endpoint : GoString) (sweep : JwksSweep)
    (item : GoString × JwksCacheEntry κ) : JwksSweep :=
  if item.1 ≠ endpoint ∧ ¬ now < item.2.expiresAt then
    { sweep with deleted := sweep.deleted ++ [item.1] }
  else
    let sweep := { sweep with count := sweep.count + 1 }
    if item.1 ≠ endpoint ∧
        (sweep.oldestEndpoint = [] ∨ item.2.expiresAt < sweep.oldestExpiry) then
      { sweep with oldestEndpoint := item.1, oldestExpiry := item.2.expiresAt }
    else sweep

/-- The endpoints that are deleted after an entry for `endpoint` has been stored. -/
def sweptEndpoints (now : ℤ) (endpoint : GoString) (cached : List (GoString × JwksCacheEntry κ)) :
    List GoString :=
  let sweep := cached.foldl (JwksSweep.visit now endpoint) ⟨0, [], 0, []⟩
  if sweep.count > maxJWKSCacheEntries ∧ sweep.oldestEndpoint ≠ [] then
    sweep.deleted ++ [sweep.oldestEndpoint]
  else sweep.deleted

/-- The deletions, and the end of the section under `jwksCacheMu`. -/
def deleteEndpoints : List GoString → Prog (jwksSig w) Unit
  | [] => .act .unlockCache fun _ => .ret ()
  | endpoint :: endpoints => .act (.delete endpoint) fun _ => deleteEndpoints endpoints

/-- `storeJWKSCacheEntry`. -/
def storeJWKSCacheEntry (endpoint : GoString) (entry : JwksCacheEntry κ) :
    Prog (jwksSig w) Unit :=
  .act .lockCache fun _ => .act (.store endpoint entry) fun _ => .act .now fun (now : ℤ) =>
    .act .range fun (cached : List (GoString × JwksCacheEntry κ)) =>
      deleteEndpoints (sweptEndpoints now endpoint cached)

/-! ## Looking up an entry -/

/-- The entry is returned as it is. -/
def returnsCached (now : ℤ) (previous : Option (JwksCacheEntry κ)) (entry : JwksCacheEntry κ) :
    Bool :=
  match previous with
  | none => now < entry.expiresAt
  | some p => entry.id ≠ p.id && now < entry.expiresAt

/-- The last forced refresh is too recent for another one. -/
def throttles (now : ℤ) (previous : Option (JwksCacheEntry κ)) (entry : JwksCacheEntry κ) : Bool :=
  previous.isSome && entry.lastForcedRefresh.any fun last => now - last < minJWKSForcedRefreshDelay

variable (lib : JwtLib κ)

/-- The fetch. -/
def refreshEntry (endpoint : GoString) (previous : Option (JwksCacheEntry κ)) (now : ℤ) :
    Prog (jwksSig w) (Result (JwksCacheEntry κ)) :=
  .act (.fetch endpoint previous.isSome now) fun (reply : ℕ × Result JwksResponse) =>
    match newCacheEntry lib previous.isSome now reply.1 reply.2 with
    | .error e => .ret (.error e)
    | .ok entry => do
      storeJWKSCacheEntry endpoint entry
      return .ok entry

/-- The part under the lock of the endpoint. -/
def recheckEntry (endpoint : GoString) (previous : Option (JwksCacheEntry κ)) (now : ℤ) :
    Prog (jwksSig w) (Result (JwksCacheEntry κ)) :=
  .act (.load endpoint) fun (entry : Option (JwksCacheEntry κ)) =>
    match entry with
    | some entry =>
      if returnsCached now previous entry || throttles now previous entry then .ret (.ok entry)
      else refreshEntry lib endpoint previous now
    | none => refreshEntry lib endpoint previous now

/-- The end of the part under the lock. -/
def leaveRefresh (endpoint : GoString) (l : ℕ) (r : Result (JwksCacheEntry κ)) :
    Prog (jwksSig w) (Result (JwksCacheEntry κ)) :=
  .act (.unlock l) fun _ => .act (.release endpoint l) fun _ => .ret r

/-- The part of `getJWKSEntry` behind the first look at the cache. -/
def lockedEntry (endpoint : GoString) (previous : Option (JwksCacheEntry κ)) :
    Prog (jwksSig w) (Result (JwksCacheEntry κ)) :=
  .act (.acquire endpoint) fun (l : ℕ) => .act (.lock l) fun _ => .act .now fun (now : ℤ) =>
    recheckEntry lib endpoint previous now >>= leaveRefresh endpoint l

/-- `getJWKSEntry`. -/
def getJWKSEntry (endpoint : GoString) (previous : Option (JwksCacheEntry κ)) :
    Prog (jwksSig w) (Result (JwksCacheEntry κ)) :=
  .act .now fun (now : ℤ) => .act (.load endpoint) fun (entry : Option (JwksCacheEntry κ)) =>
    match entry with
    | some entry =>
      if returnsCached now previous entry then .ret (.ok entry)
      else lockedEntry lib endpoint previous
    | none => lockedEntry lib endpoint previous

/-! ## Tokens -/

/-- `jwtKeyMatchesMethod`. -/
def jwtKeyMatchesMethod (header : TokenHeader) (key : κ) : Bool :=
  header.method = some (lib.family key)

/-- The rest of `validateJWT`, once there is a key. -/
def verifyKey (cfg : JWTValidationConfig) (token : GoString) (header : TokenHeader) (key : κ) :
    JwtResult :=
  if jwtKeyMatchesMethod lib header key && lib.verifies cfg token key then .valid else .invalid

/-- The answer after a refresh. -/
def afterRefresh (cfg : JWTValidationConfig) (token : GoString) (header : TokenHeader)
    (kid : GoString) : Result (JwksCacheEntry κ) → JwtResult
  | .error _ => .unavailable
  | .ok refreshed =>
    match refreshed.keys.lookup kid with
    | none => .invalid
    | some key => verifyKey lib cfg token header key

/-- The function that looks for the key of a token; an unknown `kid` asks for another entry. -/
def afterEntry (cfg : JWTValidationConfig) (token : GoString) :
    Result (JwksCacheEntry κ) → Prog (jwksSig w) JwtResult
  | .error _ => .ret .unavailable
  | .ok entry =>
    match lib.header token with
    | none => .ret .invalid
    | some header =>
      match header.kid with
      | none => .ret .invalid
      | some kid =>
        match entry.keys.lookup kid with
        | some key => .ret (verifyKey lib cfg token header key)
        | none => do
          let r ← getJWKSEntry lib cfg.jwksEndpoint (some entry)
          return afterRefresh lib cfg token header kid r

/-- The part of `validateJWT` between the header of the request and the answer. -/
def verifyToken (cfg : JWTValidationConfig) (token : GoString) : Prog (jwksSig w) JwtResult := do
  let r ← getJWKSEntry lib cfg.jwksEndpoint none
  afterEntry lib cfg token r

/-- Time passes. -/
def passTime {α : Type} (a : α) : List ℕ → Prog (jwksSig w) α
  | [] => .ret a
  | d :: ticks => .act (.tick d) fun _ => passTime a ticks

end Programs

end SynitWaf
