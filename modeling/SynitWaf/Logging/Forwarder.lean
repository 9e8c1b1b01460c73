import Mathlib.Data.Fintype.Basic
import Mathlib.Logic.Function.Basic
import SynitWaf.Go.Strings

/-!
# The log forwarder

`webhookLogHook` takes events from any goroutine into a bounded queue. Its workers put them together
to batches of lines and post these to a receiver. `Close` closes the queue and waits for the workers,
and cancels what they are doing when that takes too long. Every access to shared state is one step.

* `LogBatch`: the buffer of a worker, with the events it was made of;
* `EnqueuePc`, `WorkerPc`, `HookClosePc`: where a call of `enqueue`, a worker and `Close` are;
* `Forwarder`, `newWebhookLogHook`: the state;
* `enqueueStep`, `workerStep`, `closeStep`, **`forwarderStep`**: the steps.
-/

namespace SynitWaf

open Go

/-- `maxForwardedLogPayloadBytes`. -/
def maxForwardedLogPayloadBytes : ℕ := 16 * 1024

/-- `maxForwardedBatchEntries`. -/
def maxForwardedBatchEntries : ℕ := 100

/-- `maxForwardedBatchBytes`. -/
def maxForwardedBatchBytes : ℕ := 512 * 1024

/-- The byte that ends a line. -/
def lf : UInt8 := 0x0A

/-! ## Batches -/

/-- The lines of a batch, with separators between them. -/
def batchBody (payloads : List GoString) : GoString := join payloads lf

theorem batchBody_concat {payloads : List GoString} (h : payloads ≠ []) (p : GoString) :
    batchBody (payloads ++ [p]) = batchBody payloads ++ lf :: p := by
  induction payloads with
  | nil => exact absurd rfl h
  | cons q payloads ih =>
    cases payloads with
    | nil => simp [batchBody, join_cons_cons, join_singleton]
    | cons q' payloads =>
      simp only [batchBody, List.cons_append, join_cons_cons] at ih ⊢
      rw [ih (by simp), List.append_assoc, List.cons_append]

variable {ι : Type} {payload : ι → GoString}

/-- The variables `batch` and `entries` of a worker, with the events that have been written. -/
structure LogBatch (payload : ι → GoString) where
  events : List ι
  body : GoString
  entries : ℕ
  body_eq : body = batchBody (events.map payload)
  entries_eq : entries = events.length

/-- The buffer after `batch.Reset()`. -/
def LogBatch.empty : LogBatch payload := ⟨[], [], 0, rfl, rfl⟩

/-- One more line, after a separator if it is not the first one. -/
def LogBatch.add (b : LogBatch payload) (event : ι) : LogBatch payload where
  events := b.events ++ [event]
  body := (if 0 < b.entries then b.body ++ [lf] else b.body) ++ payload event
  entries := b.entries + 1
  body_eq := by
    rw [b.entries_eq, b.body_eq, List.map_append]
    by_cases h : b.events = []
    · simp [h, batchBody, join]
    · rw [if_pos (List.length_pos_iff.mpr h), List.map_singleton, batchBody_concat (by simpa using h),
        List.append_assoc]
      rfl
  entries_eq := by rw [b.entries_eq, List.length_append, List.length_singleton]

/-- Does the batch have to be sent at once? -/
def LogBatch.full (b : LogBatch payload) : Bool :=
  maxForwardedBatchEntries ≤ b.entries || maxForwardedBatchBytes ≤ b.body.length

/-! ## The state -/

/-- Where a call of `enqueue` is. -/
inductive EnqueuePc where
  /-- Not called yet. -/
  | idle
  /-- The event is too large and has not been counted yet. -/
  | oversize
  /-- Before the read lock. -/
  | entering
  /-- With the read lock, before it looks at `closed`. -/
  | entered
  /-- With the read lock, having found the hook open. -/
  | sending
  /-- With the read lock, the queue was full and the event has not been counted yet. -/
  | overflow
  /-- Before it gives the read lock back; it found the hook open, or closed. -/
  | leaving (wasOpen : Bool)
  /-- Returned; it counted or queued the event, or found the hook closed. -/
  | returned (taken : Bool)
  deriving DecidableEq

/-- Where a worker is; `last` if it returns after it has sent its batch. -/
inductive WorkerPc (payload : ι → GoString) where
  /-- At the `select`. -/
  | select (batch : LogBatch payload) (timerActive : Bool)
  /-- In `send`, before it looks at the context. -/
  | send (batch : LogBatch payload) (last : Bool)
  /-- In `send`, waiting for the answer. -/
  | post (batch : LogBatch payload) (last : Bool)
  /-- In `recordDrops`, with some events left to count. -/
  | drop (events : List ι) (last : Bool)
  | done

/-- The worker has returned. -/
def WorkerPc.isDone : WorkerPc payload → Bool
  | .done => true
  | _ => false

/-- Where `Close` is. -/
inductive HookClosePc where
  | idle
  /-- With the lock. -/
  | locked
  /-- With the lock, `closed` is set. -/
  | flagged
  /-- With the lock, the queue is closed. -/
  | unlocking
  /-- Waiting for the workers or the timer. -/
  | waiting
  /-- The timer fired. -/
  | timedOut
  /-- Waiting for the workers, the context being cancelled. -/
  | draining
  /-- The workers are done. -/
  | cancelling
  | returned
  deriving DecidableEq

/-- The end of a request to the receiver. -/
inductive PostOutcome where
  | badRequest
  | transportError
  | status (code : ℕ)

/-- `resp.StatusCode` is not a failure. -/
def PostOutcome.accepted : PostOutcome → Bool
  | .status code => 200 ≤ code && code < 300
  | _ => false

/-- The state of a hook with `n` workers. The channel is a list and a flag, the read lock the list
of the calls that hold it. `posted` and `answered` are the batches that have been sent and those that
have been answered with 2xx, `droppedEvents` the events that have been counted. -/
structure Forwarder (payload : ι → GoString) (n : ℕ) where
  queueSize : ℕ
  queue : List ι
  queueClosed : Bool
  readers : List ι
  writer : Bool
  closed : Bool
  dropped : ℕ
  cancelled : Bool
  calls : ι → EnqueuePc
  workers : Fin n → WorkerPc payload
  closing : HookClosePc
  panicked : Bool
  posted : List (LogBatch payload)
  answered : List (LogBatch payload)
  droppedEvents : List ι

/-- The default of `queueSize`. -/
def defaultQueueSize (queueSize : ℤ) : ℕ := if queueSize ≤ 0 then 1024 else queueSize.toNat

/-- The default of `workerCount`. -/
def defaultWorkerCount (workerCount : ℤ) : ℕ := if workerCount ≤ 0 then 2 else workerCount.toNat

/-- `newWebhookLogHook`. -/
def newWebhookLogHook (payload : ι → GoString) (queueSize workerCount : ℤ) :
    Forwarder payload (defaultWorkerCount workerCount) where
  queueSize := defaultQueueSize queueSize
  queue := []
  queueClosed := false
  readers := []
  writer := false
  closed := false
  dropped := 0
  cancelled := false
  calls _ := .idle
  workers _ := .select .empty false
  closing := .idle
  panicked := false
  posted := []
  answered := []
  droppedEvents := []

/-! ## Steps -/

variable {n : ℕ} [DecidableEq ι]

/-- Move a call. -/
@[simp] def Forwarder.move (s : Forwarder payload n) (i : ι) (pc : EnqueuePc) : Forwarder payload n :=
  { s with calls := Function.update s.calls i pc }

/-- Move a worker. -/
@[simp] def Forwarder.turn (s : Forwarder payload n) (w : Fin n) (pc : WorkerPc payload) :
    Forwarder payload n :=
  { s with workers := Function.update s.workers w pc }

/-- `recordDrop`. -/
@[simp] def Forwarder.recordDrop (s : Forwarder payload n) (i : ι) : Forwarder payload n :=
  { s with dropped := (s.dropped + 1) % 2 ^ 64, droppedEvents := i :: s.droppedEvents }

/-- The steps of a call of `enqueue`. -/
inductive EnqueueStep where
  | begin
  | recordDrop
  | rLock
  | checkClosed
  | trySend
  | rUnlock
  deriving DecidableEq

/-- The next step of call `i`. -/
def enqueueStep (s : Forwarder payload n) (i : ι) : EnqueueStep → Option (Forwarder payload n)
  -- if len(payload) > maxForwardedLogPayloadBytes
  | .begin =>
    if s.calls i = .idle then
      some (s.move i (if maxForwardedLogPayloadBytes < (payload i).length then .oversize else .entering))
    else none
  | .recordDrop =>
    if s.calls i = .oversize then some ((s.recordDrop i).move i (.returned true))
    else if s.calls i = .overflow then some ((s.recordDrop i).move i (.leaving true))
    else none
  | .rLock =>
    if s.calls i = .entering ∧ s.writer = false then
      some { s.move i .entered with readers := i :: s.readers }
    else none
  -- if h.closed { return }
  | .checkClosed =>
    if s.calls i = .entered then some (s.move i (if s.closed then .leaving false else .sending))
    else none
  -- a send on a closed channel panics, also in a select with a default
  | .trySend =>
    if s.calls i = .sending then
      if s.queueClosed then some { s with panicked := true }
      else if s.queue.length < s.queueSize then
        some { s.move i (.leaving true) with queue := s.queue ++ [i] }
      else some (s.move i .overflow)
    else none
  | .rUnlock =>
    match s.calls i with
    | .leaving wasOpen => some { s.move i (.returned wasOpen) with readers := s.readers.erase i }
    | _ => none

/-- The steps of a worker. -/
inductive WorkerStep where
  | receive
  | tick
  | checkContext
  | answer (outcome : PostOutcome)
  | recordDrop

/-- `flush`: an empty batch is not sent. -/
def flush (batch : LogBatch payload) (last : Bool) : WorkerPc payload :=
  if batch.entries = 0 then (if last then .done else .select batch false) else .send batch last

/-- The worker after `send`. -/
def afterSend (last : Bool) : WorkerPc payload := if last then .done else .select .empty false

/-- The next step of worker `w`. -/
def workerStep (s : Forwarder payload n) (w : Fin n) : WorkerStep → Option (Forwarder payload n)
  -- payload, ok := <-h.queue
  | .receive =>
    match s.workers w, s.queue with
    | .select batch _, i :: queue =>
      let batch := batch.add i
      some { s.turn w (if batch.full then .send batch false else .select batch true) with queue := queue }
    | .select batch _, [] => if s.queueClosed then some (s.turn w (flush batch true)) else none
    | _, _ => none
  -- the timer is only looked at while it is active
  | .tick =>
    match s.workers w with
    | .select batch true => some (s.turn w (flush batch false))
    | _ => none
  -- if h.ctx.Err() != nil
  | .checkContext =>
    match s.workers w with
    | .send batch last =>
      some (if s.cancelled then s.turn w (.drop batch.events last)
        else { s.turn w (.post batch last) with posted := batch :: s.posted })
    | _ => none
  | .answer outcome =>
    match s.workers w with
    | .post batch last =>
      some (if outcome.accepted then { s.turn w (afterSend last) with answered := batch :: s.answered }
        else s.turn w (.drop batch.events last))
    | _ => none
  | .recordDrop =>
    match s.workers w with
    | .drop (i :: events) last => some ((s.recordDrop i).turn w (.drop events last))
    | .drop [] last => some (s.turn w (afterSend last))
    | _ => none

/-- The steps of `Close`. -/
inductive CloseStep where
  | lock
  | setClosed
  | closeQueue
  | unlock
  | workersDone
  | timeout
  | cancel
  deriving DecidableEq

/-- `h.workers.Wait()` returns. -/
def Forwarder.workersDone (s : Forwarder payload n) : Bool :=
  decide (∀ w, (s.workers w).isDone)

/-- The next step of `Close`. -/
def closeStep (s : Forwarder payload n) : CloseStep → Option (Forwarder payload n)
  | .lock =>
    if s.closing = .idle ∧ s.readers = [] ∧ s.writer = false then
      some { s with writer := true, closing := .locked }
    else none
  | .setClosed =>
    if s.closing = .locked then
      some (if s.closed then { s with closing := .unlocking }
        else { s with closed := true, closing := .flagged })
    else none
  | .closeQueue =>
    if s.closing = .flagged then some { s with queueClosed := true, closing := .unlocking } else none
  | .unlock =>
    if s.closing = .unlocking then some { s with writer := false, closing := .waiting } else none
  | .workersDone =>
    if (s.closing = .waiting ∨ s.closing = .draining) ∧ s.workersDone then
      some { s with closing := .cancelling }
    else none
  | .timeout => if s.closing = .waiting then some { s with closing := .timedOut } else none
  | .cancel =>
    if s.closing = .timedOut then some { s with cancelled := true, closing := .draining }
    else if s.closing = .cancelling then some { s with cancelled := true, closing := .returned }
    else none

/-- The steps of all goroutines. -/
inductive ForwarderStep (ι : Type) (n : ℕ) where
  | enqueue (i : ι) (step : EnqueueStep)
  | worker (w : Fin n) (step : WorkerStep)
  | close (step : CloseStep)

/-- One step of one goroutine. -/
def forwarderStep (s : Forwarder payload n) : ForwarderStep ι n → Option (Forwarder payload n)
  | .enqueue i step => enqueueStep s i step
  | .worker w step => workerStep s w step
  | .close step => closeStep s step

end SynitWaf
