import SynitWaf.Atomic.Prog
import SynitWaf.Receiver.Lines
import SynitWaf.Registry
import SynitWaf.Request

/-!
# The log receiver

`handleLogs` authenticates a request by its token, limits failed attempts of a client and the
requests of a tenant, and appends the lines of the body to the file of the day. The throttle of the
clients, the window of a tenant and the files of a tenant have a lock each; a section under a lock is
one operation.

* `blocked`, `recordFailure`, `evict`: the throttle; `allowRequest`: the window;
* `directoryBytes`, `storeLines`: the files of a tenant, with the places where the disk may fail;
* `ReceiverState`, `receiverSig`: the state and its operations;
* `tenantIDForToken`, `remoteIP`, `acceptLogs`, **`handleLogs`**.
-/

namespace SynitWaf

open Atomic Go

/-! ## The throttle of failed attempts -/

/-- `time.Minute`. -/
def minute : ℤ := 60 * second

/-- `authFailureWindow`. -/
def authFailureWindow : ℤ := minute

/-- `maxAuthFailures`. -/
def maxAuthFailures : ℤ := 10

/-- `maxAuthFailureClients`. -/
def maxAuthFailureClients : ℕ := 4096

/-- `authFailures`: the failures of a client since the window started. -/
structure AuthFailures where
  windowStart : ℤ
  count : ℤ
  deriving DecidableEq

/-- The window of an entry has ended. -/
def AuthFailures.expired (now : ℤ) (entry : AuthFailures) : Bool :=
  authFailureWindow ≤ now - entry.windowStart

/-- `blocked`, with the clients that are left. -/
def blocked (clients : GoMap AuthFailures) (ip : GoString) (now : ℤ) : Bool × GoMap AuthFailures :=
  match clients.lookup ip with
  | none => (false, clients)
  | some entry =>
    if entry.expired now then (false, clients.erase ip)
    else (maxAuthFailures ≤ entry.count, clients)

/-- `evict`: the expired entries, or the first one that a loop over the map visits. -/
def evict (order : KeyOrder) (clients : GoMap AuthFailures) (now : ℤ) : GoMap AuthFailures :=
  let live := (clients.keys.filter fun ip => (clients.lookup ip).any (·.expired now)).foldl
    (fun m ip => m.erase ip) clients
  if GoMap.len live < maxAuthFailureClients then live
  else
    match order.visit live.keys with
    | [] => live
    | ip :: _ => live.erase ip

/-- `recordFailure`. -/
def recordFailure (order : KeyOrder) (clients : GoMap AuthFailures) (ip : GoString) (now : ℤ) :
    GoMap AuthFailures :=
  match clients.lookup ip with
  | some entry =>
    if entry.expired now then clients.insert ip ⟨now, 1⟩
    else clients.insert ip { entry with count := entry.count + 1 }
  | none =>
    let clients :=
      if maxAuthFailureClients ≤ GoMap.len clients then evict order clients now else clients
    clients.insert ip ⟨now, 1⟩

/-! ## The window of a tenant -/

/-- `tenantReceiverState`; no window is the zero time. -/
structure TenantReceiverState where
  windowStart : Option ℤ
  requests : ℤ
  usedBytes : ℤ
  usedKnown : Bool
  deriving DecidableEq, Inhabited

/-- `allowRequest`. -/
def allowRequest (s : TenantReceiverState) (now requestsPerMinute : ℤ) : Bool × TenantReceiverState :=
  let s := if s.windowStart.all fun start => minute ≤ now - start then
    { s with windowStart := some now, requests := 0 } else s
  if requestsPerMinute ≤ s.requests then (false, s) else (true, { s with requests := s.requests + 1 })

/-! ## The files of a tenant -/

/-- A file, or something else in the directory. -/
structure LogDirEntry where
  regular : Bool
  content : GoString
  deriving DecidableEq

/-- The directory of a tenant. -/
abbrev Directory := GoMap LogDirEntry

/-- `directoryBytes`: the sizes of the regular files. -/
def directoryBytes (dir : Directory) : ℤ :=
  int64 ((dir.keys.filterMap dir.lookup).map fun e => if e.regular then (e.content.length : ℤ) else 0).sum

/-- The content of a file, empty if there is none. -/
def Directory.content (dir : Directory) (name : GoString) : GoString :=
  ((dir.lookup name).map LogDirEntry.content).getD []

/-- `f.Write` to a file opened with `O_APPEND` and `O_CREATE`. -/
def Directory.append (dir : Directory) (name data : GoString) : Directory :=
  dir.insert name ⟨((dir.lookup name).map LogDirEntry.regular).getD true, dir.content name ++ data⟩

/-- What fails on the disk during a request; a failing write stops after some bytes. -/
structure DiskFaults where
  mkdirAll : Bool
  readDir : Bool
  openFile : Bool
  write : Option ℕ
  sync : Bool

/-- A disk on which nothing fails. -/
def DiskFaults.clean : DiskFaults := ⟨false, false, false, none, false⟩

/-- What a request is answered: `http.Error`, possibly with the header `Allow`, or `OK`. -/
inductive LogReply where
  | error (status : ℕ) (text : GoString)
  | notAllowed (allow : GoString)
  | ok
  deriving DecidableEq

/-- The answer to a failing disk. -/
def LogReply.internal : LogReply := .error 500 (str "Internal Server Error")

/-- The bytes that a write leaves in the file. -/
def DiskFaults.written (faults : DiskFaults) (payload : GoString) : GoString :=
  match faults.write with
  | none => payload
  | some n => payload.take n

/-- The usage of the tenant, if it is known or can be found out. -/
def knownUsage (s : TenantReceiverState) (dir : Directory) (faults : DiskFaults) :
    Option TenantReceiverState :=
  if s.usedKnown then some s
  else if faults.readDir then none
  else some { s with usedBytes := directoryBytes dir, usedKnown := true }

/-- The part of `handleLogs` under the lock of the tenant. -/
def storeLines (maxTenantBytes : ℤ) (s : TenantReceiverState) (dir : Directory) (name payload : GoString)
    (faults : DiskFaults) : LogReply × TenantReceiverState × Directory :=
  if faults.mkdirAll then (.internal, s, dir)
  else
    match knownUsage s dir faults with
    | none => (.internal, s, dir)
    | some s =>
      if maxTenantBytes < int64 (s.usedBytes + payload.length) then
        (.error 507 (str "Tenant log storage quota exceeded"), s, dir)
      else if faults.openFile then (.internal, s, dir)
      else
        let data := faults.written payload
        let s := { s with usedBytes := int64 (s.usedBytes + data.length) }
        (if faults.write.isSome ∨ faults.sync then .internal else .ok, s, dir.append name data)

/-! ## The state -/

/-- The state behind the handler. A tenant without requests has the zero state. -/
structure ReceiverState where
  authFailures : GoMap AuthFailures
  tenants : GoString → TenantReceiverState
  disk : GoString → Directory

/-- The content of a file of a tenant. -/
def ReceiverState.file (s : ReceiverState) (tenant name : GoString) : GoString :=
  (s.disk tenant).content name

/-- The operations of `handleLogs`. -/
inductive ReceiverOp where
  | blocked (ip : GoString) (now : ℤ)
  | recordFailure (ip : GoString) (now : ℤ)
  | allowRequest (tenant : GoString) (now requestsPerMinute : ℤ)
  | store (tenant name payload : GoString) (maxTenantBytes : ℤ) (faults : DiskFaults)

/-- The answer of an operation. -/
@[reducible] def ReceiverOp.Res : ReceiverOp → Type
  | .blocked _ _ => Bool
  | .recordFailure _ _ => Unit
  | .allowRequest _ _ _ => Bool
  | .store _ _ _ _ _ => LogReply

/-- What an operation does; `order` is the order in which `evict` visits the clients. -/
def ReceiverOp.exec (order : KeyOrder) : (o : ReceiverOp) → ReceiverState → o.Res × ReceiverState
  | .blocked ip now, s =>
    ((SynitWaf.blocked s.authFailures ip now).1,
      { s with authFailures := (SynitWaf.blocked s.authFailures ip now).2 })
  | .recordFailure ip now, s =>
    ((), { s with authFailures := SynitWaf.recordFailure order s.authFailures ip now })
  | .allowRequest tenant now requestsPerMinute, s =>
    let allowed := SynitWaf.allowRequest (s.tenants tenant) now requestsPerMinute
    (allowed.1, { s with tenants := Function.update s.tenants tenant allowed.2 })
  | .store tenant name payload maxTenantBytes faults, s =>
    let stored := storeLines maxTenantBytes (s.tenants tenant) (s.disk tenant) name payload faults
    (stored.1,
      { s with
        tenants := Function.update s.tenants tenant stored.2.1
        disk := Function.update s.disk tenant stored.2.2 })

/-- The signature of the receiver. -/
@[reducible] def receiverSig (order : KeyOrder) : Sig ReceiverState where
  Op := ReceiverOp
  Res := ReceiverOp.Res
  exec := ReceiverOp.exec order

/-! ## The handler -/

/-- The functions of other packages, and the orders in which maps are visited. -/
structure ReceiverLib where
  jsonValid : GoString → Bool
  parseMediaType : GoString → Option GoString
  formatDate : ℤ → GoString
  tokenOrder : KeyOrder
  evictOrder : KeyOrder

/-- `LogReceiver`: the tokens by tenant and the limits. -/
structure LogReceiver where
  tokens : GoMap GoString
  maxRequestBytes : ℤ
  maxTenantBytes : ℤ
  requestsPerMinute : ℤ

/-- A limit that is not positive selects the default. -/
def orDefault (limit default : ℤ) : ℤ := if limit ≤ 0 then default else limit

/-- `limits`. -/
def LogReceiver.limits (lr : LogReceiver) : LogReceiver where
  tokens := lr.tokens
  maxRequestBytes := orDefault lr.maxRequestBytes (10 * 1024 * 1024)
  maxTenantBytes := orDefault lr.maxTenantBytes (1024 * 1024 * 1024)
  requestsPerMinute := orDefault lr.requestsPerMinute 600

/-- `tenantIDForToken`. -/
def tenantIDForToken (order : KeyOrder) (tokens : GoMap GoString) (candidate : GoString) : GoString :=
  (((GoMap.visit order tokens).find? fun t => t.2 = candidate).map Prod.fst).getD []

/-- `remoteIP`. -/
def remoteIP (r : Request) : GoString :=
  match splitHostPort r.remoteAddr with
  | some (host, _) => host
  | none => r.remoteAddr

/-- `io.ReadAll(http.MaxBytesReader(w, r.Body, n))`. -/
def readAllMax (body : RequestBody) (n : ℤ) : Except InspectionError GoString :=
  if n < body.data.length then .error .tooLarge
  else
    match body with
    | .reader b => if b.fails then .error .readFailed else .ok b.data
    | _ => .ok []

/-- One call of the handler: the request, the clock, and the disk. -/
structure LogCall where
  request : Request
  now : ℤ
  faults : DiskFaults

section Handler

variable (lib : ReceiverLib) (lr : LogReceiver)

/-- The tenant whose token a request has. -/
def LogCall.tenantID (c : LogCall) : GoString :=
  tenantIDForToken lib.tokenOrder lr.tokens
    ((c.request.header.get (str "Authorization")).drop (str "Bearer ").length)

/-- The name of the file of the day. -/
def LogCall.fileName (c : LogCall) : GoString := lib.formatDate c.now ++ str ".log"

/-- The part of `handleLogs` from the window of the tenant to the lines. -/
def readLogs (c : LogCall) (tenantID mediaType : GoString) :
    Prog (receiverSig lib.evictOrder) (Except LogReply (GoString × GoString)) :=
  .act (.allowRequest tenantID c.now lr.limits.requestsPerMinute) fun (allowed : Bool) =>
    if !allowed then .ret (.error (.error 429 (str "Too Many Requests")))
    else
      match readAllMax c.request.body lr.limits.maxRequestBytes with
      | .error .tooLarge => .ret (.error (.error 413 (str "Request body too large")))
      | .error .readFailed => .ret (.error (.error 400 (str "Bad Request")))
      | .ok body =>
        match logLines lib.jsonValid body (mediaType = str "application/json") with
        | .error e => .ret (.error (.error 400 (str "Bad Request: " ++ e)))
        | .ok payload => .ret (.ok (tenantID, payload))

/-- The part of `handleLogs` before the lock of the tenant: the tenant and the payload, or the
answer. -/
def acceptLogs (c : LogCall) :
    Prog (receiverSig lib.evictOrder) (Except LogReply (GoString × GoString)) :=
  if c.request.method ≠ str "POST" then .ret (.error (.notAllowed (str "POST")))
  else
    let clientIP := remoteIP c.request
    .act (.blocked clientIP c.now) fun (isBlocked : Bool) =>
      if isBlocked then .ret (.error (.error 429 (str "Too Many Requests")))
      else if !hasPrefix (c.request.header.get (str "Authorization")) (str "Bearer ") then
        .act (.recordFailure clientIP c.now) fun _ => .ret (.error (.error 401 (str "Unauthorized")))
      else if c.tenantID lib lr = [] then
        .act (.recordFailure clientIP c.now) fun _ => .ret (.error (.error 403 (str "Forbidden")))
      else
        match lib.parseMediaType (c.request.header.get (str "Content-Type")) with
        | none => .ret (.error (.error 415 (str "Unsupported Media Type")))
        | some mediaType =>
          if mediaType ≠ str "application/json" ∧ mediaType ≠ str "application/x-ndjson" then
            .ret (.error (.error 415 (str "Unsupported Media Type")))
          else if lr.limits.maxRequestBytes < c.request.contentLength then
            .ret (.error (.error 413 (str "Request body too large")))
          else readLogs lib lr c (c.tenantID lib lr) mediaType

/-- `handleLogs`. -/
def handleLogs (c : LogCall) : Prog (receiverSig lib.evictOrder) LogReply := do
  match ← acceptLogs lib lr c with
  | .error reply => return reply
  | .ok (tenantID, payload) =>
    Prog.op (S := receiverSig lib.evictOrder)
      (.store tenantID (c.fileName lib) payload lr.limits.maxTenantBytes c.faults)

end Handler

end SynitWaf
