import SynitWaf.ClientIP
import SynitWaf.Config.Load
import SynitWaf.GraphQL.Protect
import SynitWaf.Llm.Model
import SynitWaf.Serve.Checks
import SynitWaf.Upstream.Model

/-!
# The runtime shared by requests and reloads

The state behind a `ProxyHandler` and its registry. Requests read it while a reload replaces it
value by value, so that every atomic load and store, every operation on the map of tenant states
and every section under the lock of the registry is one operation.

* `World`: the other packages, databases and services a request meets;
* `Field`, `Runtime`, `newRuntime`: the published values and the other parts of the state;
* `HandlerOp`, **`handlerSig`**: the operations;
* `upstreamPart`, `llmPart`, `basicAuthPart`, `crowdsecPart`, `limiterPart`: the signatures of the
  components, embedded;
* `HandlerOp.reloads`, `HandlerOp.serves`: the operations of reloads and of requests.
-/

namespace SynitWaf

open Atomic Go

/-! ## The world -/

/-- The record of an address in the GeoIP database. -/
structure CountryRecord where
  hasData : Bool
  country : GoString
  registeredCountry : GoString

/-- `maxMindCountryLookup.LookupCountry` on the record of an address. -/
def CountryRecord.code (unicode : Unicode) (record : CountryRecord) : Option GoString :=
  if !record.hasData then none
  else
    let country := unicode.toUpper record.country
    let code := if country = [] then unicode.toUpper record.registeredCountry else country
    if code = [] then none else some code

/-- What lies outside the proxy. The first argument of a service is the number of calls before, so
that its answers are arbitrary. -/
structure World where
  lib : ConfigLib
  order : KeyOrder
  graphQL : GraphQLLib
  llm : LlmLib
  auth : AuthLib
  limits : LimiterOracle
  sidecar : ℕ → SidecarCall → SidecarReply
  lapi : ℕ → Bouncer → GoString → Option Bool
  jwt : ℕ → JWTValidationConfig → GoString → JwtResult
  globalAllow : ℕ → RateLimiter → Bool
  country : ℕ → ℕ → Addr → Option CountryRecord
  transaction : ℕ → ℕ → GoString → Request → CorazaTx
  escape : GoString → GoString

/-- The tables of Unicode. -/
abbrev World.unicode (w : World) : Unicode := w.lib.unicode

/-! ## The state -/

/-- What to do when a security dependency fails: the two modes `ValidateConfig` admits. -/
inductive DependencyFailMode where
  | failOpen
  | failClosed
  deriving DecidableEq

/-- The values a reload publishes one by one. -/
inductive Field where
  | globalLimiter
  | allowIPs
  | blockIPs
  | trustedProxyCIDRs
  | coordinator
  | trustForwardedFor
  | requestBodyLimit
  | responseMaskingLimit
  | dependencyMode
  | crowdsecRequired
  | bouncer
  | crowdsecCacheTTL
  | geoIP
  | healthChecks
  | registry
  | wafCache
  | acmeEnabled
  | upstreamPool
  deriving DecidableEq

/-- The type of a published value. A GeoIP reader and the context of the health checks are known by
their addresses, a Coraza instance in the cache by its number. -/
@[reducible] def Field.Val : Field → Type
  | .globalLimiter => Option RateLimiter
  | .allowIPs => Option (List Prefix)
  | .blockIPs => Option (List Prefix)
  | .trustedProxyCIDRs => Option (List Prefix)
  | .coordinator => Option Coordinator
  | .trustForwardedFor => Bool
  | .requestBodyLimit => ℤ
  | .responseMaskingLimit => ℤ
  | .dependencyMode => DependencyFailMode
  | .crowdsecRequired => Bool
  | .bouncer => Option Bouncer
  | .crowdsecCacheTTL => ℤ
  | .geoIP => Option ℕ
  | .healthChecks => Option ℕ
  | .registry => Registry
  | .wafCache => GoMap ℕ
  | .acmeEnabled => Option Bool
  | .upstreamPool => Option UpstreamTransport

/-- The state of a handler. `next` is the next free address; `openReaders` and `running` are the
GeoIP readers and coordinators that have not been closed. -/
structure Runtime where
  pub : (f : Field) → f.Val
  tenantStates : GoMap TenantState
  upstreams : UpstreamHeap
  llm : LlmState
  basicAuth : BasicAuthState
  crowdsec : CrowdsecState
  limiters : LimiterState
  globalCalls : ℕ
  jwtCalls : ℕ
  lookups : ℕ
  transactions : ℕ
  next : ℕ
  openReaders : List ℕ
  running : List ℕ

/-- The published values of a new handler. -/
def newValues : (f : Field) → f.Val
  | .globalLimiter => none
  | .allowIPs => none
  | .blockIPs => none
  | .trustedProxyCIDRs => none
  | .coordinator => none
  | .trustForwardedFor => false
  | .requestBodyLimit => 1048576
  | .responseMaskingLimit => 1048576
  | .dependencyMode => .failOpen
  | .crowdsecRequired => false
  | .bouncer => none
  | .crowdsecCacheTTL => 30 * second
  | .geoIP => none
  | .healthChecks => none
  | .registry => ⟨∅, none⟩
  | .wafCache => ∅
  | .acmeEnabled => none
  | .upstreamPool => none

/-- `NewProxyHandler` with a new registry. -/
def newRuntime : Runtime where
  pub := newValues
  tenantStates := ∅
  upstreams := ⟨fun _ => 0, fun _ => ⟨false, 0, 0⟩⟩
  llm := ⟨fun _ => none, 0⟩
  basicAuth := ⟨fun _ => false⟩
  crowdsec := ⟨fun _ => none, false, 0⟩
  limiters := ⟨fun _ => none, false, 0, 0⟩
  globalCalls := 0
  jwtCalls := 0
  lookups := 0
  transactions := 0
  next := 0
  openReaders := []
  running := []

/-! ## Operations -/

/-- The operations on the state of a handler. -/
inductive HandlerOp where
  | load (f : Field)
  | store (f : Field) (v : f.Val)
  | loadTenantState (domain : GoString)
  | rangeTenantStates
  | deleteTenantState (domain : GoString)
  | storeTenantState (domain : GoString) (state : TenantState)
  | upstream (o : UpstreamOp)
  | llm (o : LlmOp)
  | purgeLlm
  | basicAuth (o : BasicAuthOp)
  | crowdsec (o : CrowdsecOp)
  | limiter (o : LimiterOp)
  | globalAllow (limiter : RateLimiter)
  | jwtCall
  | lookupCountry (addr : Addr)
  | newTransaction
  | alloc
  | openReader
  | closeReader (reader : ℕ)
  | startCoordinator (coordinator : ℕ)
  | closeCoordinator (coordinator : ℕ)

/-- The answer of an operation. -/
@[reducible] def HandlerOp.Res : HandlerOp → Type
  | .load f => f.Val
  | .loadTenantState _ => Option TenantState
  | .rangeTenantStates => List GoString
  | .upstream o => o.Res
  | .llm o => o.Res
  | .basicAuth o => o.Res
  | .crowdsec o => o.Res
  | .limiter o => o.Res
  | .globalAllow _ => Bool
  | .jwtCall => ℕ
  | .lookupCountry _ => Option (Option GoString)
  | .newTransaction => ℕ
  | .alloc => ℕ
  | .openReader => ℕ
  | _ => Unit

/-- A new object at the next free address, with its atomics at zero. -/
def Runtime.alloc (s : Runtime) : Runtime :=
  { s with
    next := s.next + 1
    upstreams :=
      ⟨Function.update s.upstreams.counter s.next 0,
        Function.update s.upstreams.up s.next ⟨false, 0, 0⟩⟩ }

/-- What an operation does. -/
def HandlerOp.exec (w : World) : (o : HandlerOp) → Runtime → o.Res × Runtime
  | .load f, s => (s.pub f, s)
  | .store f v, s => ((), { s with pub := Function.update s.pub f v })
  | .loadTenantState domain, s => (s.tenantStates.lookup domain, s)
  | .rangeTenantStates, s => (s.tenantStates.keys, s)
  | .deleteTenantState domain, s => ((), { s with tenantStates := s.tenantStates.erase domain })
  | .storeTenantState domain state, s =>
    ((), { s with tenantStates := s.tenantStates.insert domain state })
  | .upstream o, s => ((o.exec s.upstreams).1, { s with upstreams := (o.exec s.upstreams).2 })
  | .llm o, s => ((o.exec w.sidecar s.llm).1, { s with llm := (o.exec w.sidecar s.llm).2 })
  | .purgeLlm, s => ((), { s with llm := { s.llm with cache := fun _ => none } })
  | .basicAuth o, s => ((o.exec s.basicAuth).1, { s with basicAuth := (o.exec s.basicAuth).2 })
  | .crowdsec o, s =>
    ((o.exec w.lapi s.crowdsec).1, { s with crowdsec := (o.exec w.lapi s.crowdsec).2 })
  | .limiter o, s =>
    ((o.exec w.limits s.limiters).1, { s with limiters := (o.exec w.limits s.limiters).2 })
  | .globalAllow l, s => (w.globalAllow s.globalCalls l, { s with globalCalls := s.globalCalls + 1 })
  | .jwtCall, s => (s.jwtCalls, { s with jwtCalls := s.jwtCalls + 1 })
  | .lookupCountry addr, s =>
    -- no reader is an error, as is a failing lookup
    ((s.pub .geoIP).bind fun reader =>
      (w.country s.lookups reader addr).map (CountryRecord.code w.unicode),
      { s with lookups := s.lookups + 1 })
  | .newTransaction, s => (s.transactions, { s with transactions := s.transactions + 1 })
  | .alloc, s => (s.next, s.alloc)
  | .openReader, s => (s.next, { s.alloc with openReaders := s.next :: s.openReaders })
  | .closeReader reader, s => ((), { s with openReaders := s.openReaders.erase reader })
  | .startCoordinator coordinator, s => ((), { s with running := coordinator :: s.running })
  | .closeCoordinator coordinator, s => ((), { s with running := s.running.erase coordinator })

/-- The signature of the handler. -/
@[reducible] def handlerSig (w : World) : Sig Runtime where
  Op := HandlerOp
  Res := HandlerOp.Res
  exec := HandlerOp.exec w
  enabled
    | .limiter o, s => (limiterSig w.limits).enabled o s.limiters
    | _, _ => true

/-- The operations that only a reload performs. -/
def HandlerOp.reloads : HandlerOp → Bool
  | .store _ _ => true
  | .rangeTenantStates => true
  | .deleteTenantState _ => true
  | .storeTenantState _ _ => true
  | .purgeLlm => true
  | .alloc => true
  | .openReader => true
  | .closeReader _ => true
  | .startCoordinator _ => true
  | .closeCoordinator _ => true
  | _ => false

/-- The operations of a request whose host matched the given tenant, if any. -/
def HandlerOp.serves (tenant : Option GoString) : HandlerOp → Bool
  | .loadTenantState domain => tenant = some domain
  | o => !o.reloads

theorem HandlerOp.not_reloads {tenant : Option GoString} {o : HandlerOp} (h : o.serves tenant = true) :
    o.reloads = false := by
  cases o <;> simp_all [serves, reloads]

section Programs

variable {w : World}

/-- `Load` of an atomic value. -/
def load (f : Field) : Prog (handlerSig w) f.Val := Prog.op (S := handlerSig w) (.load f)

/-- `Store` of an atomic value. -/
def store (f : Field) (v : f.Val) : Prog (handlerSig w) Unit :=
  Prog.op (S := handlerSig w) (.store f v)

/-- The address of a new object. -/
def alloc : Prog (handlerSig w) ℕ := Prog.op (S := handlerSig w) .alloc

end Programs

/-! ## The components -/

/-- The upstreams. -/
def upstreamPart (w : World) : Embed upstreamSig (handlerSig w) where
  view := Runtime.upstreams
  put s h := { s with upstreams := h }
  op := .upstream
  ans _ r := r
  ans_exec _ _ := rfl
  exec_put _ _ := rfl
  view_put _ _ := rfl
  put_view _ := rfl
  put_put _ _ _ := rfl

/-- The score cache and the sidecar. -/
def llmPart (w : World) : Embed (llmSig w.sidecar) (handlerSig w) where
  view := Runtime.llm
  put s h := { s with llm := h }
  op := .llm
  ans _ r := r
  ans_exec _ _ := rfl
  exec_put _ _ := rfl
  view_put _ _ := rfl
  put_view _ := rfl
  put_put _ _ _ := rfl

/-- The Basic Auth cache. -/
def basicAuthPart (w : World) : Embed basicAuthSig (handlerSig w) where
  view := Runtime.basicAuth
  put s h := { s with basicAuth := h }
  op := .basicAuth
  ans _ r := r
  ans_exec _ _ := rfl
  exec_put _ _ := rfl
  view_put _ _ := rfl
  put_view _ := rfl
  put_put _ _ _ := rfl

/-- CrowdSec. -/
def crowdsecPart (w : World) : Embed (crowdsecSig w.lapi) (handlerSig w) where
  view := Runtime.crowdsec
  put s h := { s with crowdsec := h }
  op := .crowdsec
  ans _ r := r
  ans_exec _ _ := rfl
  exec_put _ _ := rfl
  view_put _ _ := rfl
  put_view _ := rfl
  put_put _ _ _ := rfl

/-- The rate limits. -/
def limiterPart (w : World) : Embed (limiterSig w.limits) (handlerSig w) where
  view := Runtime.limiters
  put s h := { s with limiters := h }
  op := .limiter
  ans _ r := r
  ans_exec _ _ := rfl
  exec_put _ _ := rfl
  view_put _ _ := rfl
  put_view _ := rfl
  put_put _ _ _ := rfl

end SynitWaf
