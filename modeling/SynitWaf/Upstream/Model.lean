import SynitWaf.Atomic.Pool
import SynitWaf.Go.Time

/-!
# Upstreams: round-robin selection and the circuit breaker

The atomics of an upstream (`isHealthy`, `consecutiveFailures`, `deadUntil`) and the counter of a
`TenantState` live in a heap under the address of their owner. Each atomic `Load`, `Store` or
`Add` of the source is one operation.

* `UpstreamOp`, `upstreamSig`;
* `selectUpstream`: the round-robin loop of a tenant;
* `performCheck`: an active health check; `recordUpstreamFailure`: the circuit breaker.
-/

namespace SynitWaf

open Atomic Go

/-- An upstream server; `id` is its address. -/
structure UpstreamServer where
  id : ℕ
  url : List UInt8
  deriving DecidableEq, Repr

/-- The upstreams of a tenant; `id` is the address of its round-robin counter. -/
structure TenantState where
  id : ℕ
  upstreams : List UpstreamServer
  deriving DecidableEq, Repr

/-- The atomics of one upstream. -/
structure UpstreamAtomics where
  isHealthy : Bool
  consecutiveFailures : ℤ
  deadUntil : ℤ
  deriving DecidableEq, Repr

/-- Counters and atomics, by address. -/
structure UpstreamHeap where
  counter : ℕ → ℕ
  up : ℕ → UpstreamAtomics

/-- Change the atomics at one address. -/
def UpstreamHeap.setUp (h : UpstreamHeap) (u : ℕ) (a : UpstreamAtomics) : UpstreamHeap :=
  { h with up := Function.update h.up u a }

theorem UpstreamHeap.setUp_self (h : UpstreamHeap) (u : ℕ) (a : UpstreamAtomics) :
    (h.setUp u a).up u = a := Function.update_self ..

theorem UpstreamHeap.setUp_of_ne (h : UpstreamHeap) {u v : ℕ} (hv : v ≠ u) (a : UpstreamAtomics) :
    (h.setUp u a).up v = h.up v := Function.update_of_ne hv ..

/-- The atomic operations of selection, circuit breaking and health checks. -/
inductive UpstreamOp where
  | counterAdd (ts : ℕ)
  | loadDeadUntil (u : ℕ)
  | storeDeadUntil (u : ℕ) (v : ℤ)
  | loadIsHealthy (u : ℕ)
  | storeIsHealthy (u : ℕ) (v : Bool)
  | failuresAdd (u : ℕ)
  deriving DecidableEq, Repr

/-- The answer of an operation. -/
@[reducible] def UpstreamOp.Res : UpstreamOp → Type
  | .counterAdd _ => ℕ
  | .loadDeadUntil _ => ℤ
  | .storeDeadUntil _ _ => Unit
  | .loadIsHealthy _ => Bool
  | .storeIsHealthy _ _ => Unit
  | .failuresAdd _ => ℤ

/-- `Uint64.Add(1)`: the counter wraps around. -/
def nextTicket (c : ℕ) : ℕ := (c + 1) % 2 ^ 64

/-- `Int32.Add(1)`, wrapping. -/
def nextFailures (f : ℤ) : ℤ := (f + 1).bmod (2 ^ 32)

/-- What an operation does. -/
def UpstreamOp.exec : (o : UpstreamOp) → UpstreamHeap → o.Res × UpstreamHeap
  | .counterAdd ts, h =>
    (nextTicket (h.counter ts),
      { h with counter := Function.update h.counter ts (nextTicket (h.counter ts)) })
  | .loadDeadUntil u, h => ((h.up u).deadUntil, h)
  | .storeDeadUntil u v, h => ((), h.setUp u { h.up u with deadUntil := v })
  | .loadIsHealthy u, h => ((h.up u).isHealthy, h)
  | .storeIsHealthy u v, h => ((), h.setUp u { h.up u with isHealthy := v })
  | .failuresAdd u, h =>
    (nextFailures (h.up u).consecutiveFailures,
      h.setUp u { h.up u with consecutiveFailures := nextFailures (h.up u).consecutiveFailures })

/-- The signature of the upstream atomics. -/
@[reducible] def upstreamSig : Sig UpstreamHeap where
  Op := UpstreamOp
  Res := UpstreamOp.Res
  exec := UpstreamOp.exec

/-! ## Selection -/

/-- `upstreams[counter%uint64(numUpstreams)]`. -/
def TenantState.at (ts : TenantState) (hn : 0 < ts.upstreams.length) (counter : ℕ) : UpstreamServer :=
  ts.upstreams.get ⟨counter % ts.upstreams.length, Nat.mod_lt _ hn⟩

/-- The end of a round: return `upstream` if its health check passed, else go on. -/
def returnIfHealthy (upstream : UpstreamServer) (rest : Prog upstreamSig (Option UpstreamServer)) :
    Prog upstreamSig (Option UpstreamServer) :=
  .act (.loadIsHealthy upstream.id) fun (isHealthy : Bool) =>
    if isHealthy then .ret (some upstream) else rest

/-- The loop of `selectUpstream` with `k` rounds left; `now` is the clock read before the loop. -/
def selectLoop (ts : TenantState) (hn : 0 < ts.upstreams.length) (now : ℤ) :
    ℕ → Prog upstreamSig (Option UpstreamServer)
  | 0 => .ret none
  | k + 1 => .act (.counterAdd ts.id) fun counter =>
    -- passive health check (circuit breaker)
    .act (.loadDeadUntil (ts.at hn counter).id) fun (deadUntil : ℤ) =>
      if 0 < deadUntil then
        if now < deadUntil then selectLoop ts hn now k
        else .act (.storeDeadUntil (ts.at hn counter).id 0) fun _ =>
          returnIfHealthy (ts.at hn counter) (selectLoop ts hn now k)
      else returnIfHealthy (ts.at hn counter) (selectLoop ts hn now k)

/-- `TenantState.selectUpstream`, called when the clock reads `now` (Unix seconds). -/
def selectUpstream (ts : TenantState) (now : ℤ) : Prog upstreamSig (Option UpstreamServer) :=
  if hn : 0 < ts.upstreams.length then selectLoop ts hn now ts.upstreams.length else .ret none

/-! ## Health checks and circuit breaking -/

/-- `performCheck`, where `up` tells whether the check of the upstream succeeds. -/
def performCheck (u : UpstreamServer) (up : Bool) : Prog upstreamSig Unit :=
  .act (.loadIsHealthy u.id) fun (isHealthy : Bool) =>
    if isHealthy = up then .ret () else .act (.storeIsHealthy u.id up) fun _ => .ret ()

/-- The cooldown in force: zero means thirty seconds. -/
def effectiveCooldown (cooldown : ℤ) : ℤ := if cooldown = 0 then 30 * second else cooldown

/-- `recordUpstreamFailure`; `clock` is the instant `time.Now` returns. -/
def recordUpstreamFailure (u : UpstreamServer) (threshold cooldown clock : ℤ) :
    Prog upstreamSig Unit :=
  .act (.failuresAdd u.id) fun (fails : ℤ) =>
    if threshold ≤ fails then
      .act (.storeDeadUntil u.id (unix (clock + effectiveCooldown cooldown))) fun _ => .ret ()
    else .ret ()

/-- A failure that is recorded without interference. -/
theorem recordUpstreamFailure_run (u : UpstreamServer) (threshold cooldown clock : ℤ)
    (h : UpstreamHeap) :
    ((recordUpstreamFailure u threshold cooldown clock).run h).2 = h.setUp u.id
      { isHealthy := (h.up u.id).isHealthy
        consecutiveFailures := nextFailures (h.up u.id).consecutiveFailures
        deadUntil :=
          if threshold ≤ nextFailures (h.up u.id).consecutiveFailures then
            unix (clock + effectiveCooldown cooldown)
          else (h.up u.id).deadUntil } := by
  rw [recordUpstreamFailure, Prog.run_act]
  change (Prog.run (if threshold ≤ nextFailures (h.up u.id).consecutiveFailures then _ else _) _).2 = _
  split
  · rw [Prog.run_act]
    simp [UpstreamOp.exec, UpstreamHeap.setUp]
  · rfl

end SynitWaf
