import Mathlib.Algebra.BigOperators.Fin
import SynitWaf.Logging.Forwarder
import SynitWaf.Machine

/-!
# No event of the log forwarder gets lost

The calls of `enqueue`, the workers and `Close` run in any order. What each of them can do is stated
once; the invariants follow from that.

* `EnqueueMove`, `WorkerMove`, `CloseMove`: **what a step can do**;
* `Guarded`: the lock keeps the queue open while a call is about to send;
* `Sized`: the bounds of events and batches;
* `Accounted`: an event that was taken over is in one place; **`places_worker`**;
* `Drained`: the workers leave an empty queue, and `Close` waits for them;
* `Joined`: calls that enter before `Close`;
* **`forwarder_conserves`**.
-/

namespace SynitWaf

open Go Machine

variable {ι : Type} {payload : ι → GoString} {n : ℕ} [DecidableEq ι] {s s' : Forwarder payload n}

/-! ## What a step can do -/

/-- The moves of a call of `enqueue`. -/
inductive EnqueueMove (s : Forwarder payload n) (i : ι) : Forwarder payload n → Prop
  | tooLarge : s.calls i = .idle → maxForwardedLogPayloadBytes < (payload i).length →
      EnqueueMove s i (s.move i .oversize)
  | fits : s.calls i = .idle → (payload i).length ≤ maxForwardedLogPayloadBytes →
      EnqueueMove s i (s.move i .entering)
  | dropLarge : s.calls i = .oversize → EnqueueMove s i ((s.recordDrop i).move i (.returned true))
  | dropFull : s.calls i = .overflow → EnqueueMove s i ((s.recordDrop i).move i (.leaving true))
  | rLock : s.calls i = .entering → s.writer = false →
      EnqueueMove s i { s.move i .entered with readers := i :: s.readers }
  | foundClosed : s.calls i = .entered → s.closed = true → EnqueueMove s i (s.move i (.leaving false))
  | foundOpen : s.calls i = .entered → s.closed = false → EnqueueMove s i (s.move i .sending)
  | panic : s.calls i = .sending → s.queueClosed = true → EnqueueMove s i { s with panicked := true }
  | send : s.calls i = .sending → s.queueClosed = false →
      EnqueueMove s i { s.move i (.leaving true) with queue := s.queue ++ [i] }
  | noRoom : s.calls i = .sending → s.queueClosed = false → EnqueueMove s i (s.move i .overflow)
  | rUnlock (wasOpen : Bool) : s.calls i = .leaving wasOpen →
      EnqueueMove s i { s.move i (.returned wasOpen) with readers := s.readers.erase i }

theorem enqueueStep_cases {i : ι} {step : EnqueueStep} (h : enqueueStep s i step = some s') :
    EnqueueMove s i s' := by
  cases step with
  | begin =>
    simp only [enqueueStep, Option.ite_none_right_eq_some, Option.some.injEq] at h
    obtain ⟨hc, rfl⟩ := h
    split
    · exact .tooLarge hc ‹_›
    · exact .fits hc (Nat.not_lt.mp ‹_›)
  | recordDrop =>
    simp only [enqueueStep] at h
    split at h
    · cases h
      exact .dropLarge ‹_›
    · simp only [Option.ite_none_right_eq_some, Option.some.injEq] at h
      obtain ⟨hc, rfl⟩ := h
      exact .dropFull hc
  | rLock =>
    simp only [enqueueStep, Option.ite_none_right_eq_some, Option.some.injEq] at h
    obtain ⟨⟨hc, hw⟩, rfl⟩ := h
    exact .rLock hc hw
  | checkClosed =>
    simp only [enqueueStep, Option.ite_none_right_eq_some, Option.some.injEq] at h
    obtain ⟨hc, rfl⟩ := h
    split
    · exact .foundClosed hc ‹_›
    · exact .foundOpen hc (eq_false_of_ne_true ‹_›)
  | trySend =>
    simp only [enqueueStep, Option.ite_none_right_eq_some] at h
    obtain ⟨hc, h⟩ := h
    split at h
    · cases h
      exact .panic hc ‹_›
    · have hopen : s.queueClosed = false := eq_false_of_ne_true ‹_›
      split at h
      · cases h
        exact .send hc hopen
      · cases h
        exact .noRoom hc hopen
  | rUnlock =>
    simp only [enqueueStep] at h
    split at h
    · cases h
      exact .rUnlock _ ‹_›
    · cases h

/-- The moves of a worker. -/
inductive WorkerMove (s : Forwarder payload n) (w : Fin n) : Forwarder payload n → Prop
  | receive {batch : LogBatch payload} {timerActive : Bool} {i : ι} {queue : List ι} :
      s.workers w = .select batch timerActive → s.queue = i :: queue →
      WorkerMove s w { s.turn w (if (batch.add i).full then .send (batch.add i) false
        else .select (batch.add i) true) with queue := queue }
  | drained {batch : LogBatch payload} {timerActive : Bool} :
      s.workers w = .select batch timerActive → s.queue = [] → s.queueClosed = true →
      WorkerMove s w (s.turn w (flush batch true))
  | tick {batch : LogBatch payload} : s.workers w = .select batch true →
      WorkerMove s w (s.turn w (flush batch false))
  | post {batch : LogBatch payload} {last : Bool} : s.workers w = .send batch last →
      WorkerMove s w { s.turn w (.post batch last) with posted := batch :: s.posted }
  | accepted {batch : LogBatch payload} {last : Bool} : s.workers w = .post batch last →
      WorkerMove s w { s.turn w (afterSend last) with answered := batch :: s.answered }
  | failed {batch : LogBatch payload} {last : Bool} :
      s.workers w = .send batch last ∨ s.workers w = .post batch last →
      WorkerMove s w (s.turn w (.drop batch.events last))
  | drop {i : ι} {events : List ι} {last : Bool} : s.workers w = .drop (i :: events) last →
      WorkerMove s w ((s.recordDrop i).turn w (.drop events last))
  | dropped {last : Bool} : s.workers w = .drop [] last → WorkerMove s w (s.turn w (afterSend last))

omit [DecidableEq ι] in
theorem workerStep_cases {w : Fin n} {step : WorkerStep} (h : workerStep s w step = some s') :
    WorkerMove s w s' := by
  cases step with
  | receive =>
    simp only [workerStep] at h
    split at h
    next batch timerActive i queue hw hq =>
      cases h
      exact .receive hw hq
    next batch timerActive hw hq =>
      simp only [Option.ite_none_right_eq_some, Option.some.injEq] at h
      obtain ⟨hc, rfl⟩ := h
      exact .drained hw hq hc
    next => cases h
  | tick =>
    simp only [workerStep] at h
    split at h
    · cases h
      exact .tick ‹_›
    · cases h
  | checkContext =>
    simp only [workerStep] at h
    split at h
    · cases h
      split
      · exact .failed (.inl ‹_›)
      · exact .post ‹_›
    · cases h
  | answer outcome =>
    simp only [workerStep] at h
    split at h
    · cases h
      split
      · exact .accepted ‹_›
      · exact .failed (.inr ‹_›)
    · cases h
  | recordDrop =>
    simp only [workerStep] at h
    split at h
    · cases h
      exact .drop ‹_›
    · cases h
      exact .dropped ‹_›
    · cases h

/-- The moves of `Close`. -/
inductive CloseMove (s : Forwarder payload n) : Forwarder payload n → Prop
  | lock : s.closing = .idle → s.readers = [] → CloseMove s { s with writer := true, closing := .locked }
  | again : s.closing = .locked → s.closed = true → CloseMove s { s with closing := .unlocking }
  | setClosed : s.closing = .locked → s.closed = false →
      CloseMove s { s with closed := true, closing := .flagged }
  | closeQueue : s.closing = .flagged →
      CloseMove s { s with queueClosed := true, closing := .unlocking }
  | unlock : s.closing = .unlocking → CloseMove s { s with writer := false, closing := .waiting }
  | workersDone : s.closing = .waiting ∨ s.closing = .draining → s.workersDone = true →
      CloseMove s { s with closing := .cancelling }
  | timeout : s.closing = .waiting → CloseMove s { s with closing := .timedOut }
  | cancel : s.closing = .timedOut → CloseMove s { s with cancelled := true, closing := .draining }
  | finish : s.closing = .cancelling → CloseMove s { s with cancelled := true, closing := .returned }

omit [DecidableEq ι] in
theorem closeStep_cases {step : CloseStep} (h : closeStep s step = some s') : CloseMove s s' := by
  cases step with
  | cancel =>
    simp only [closeStep] at h
    split at h
    · cases h
      exact .cancel ‹_›
    · simp only [Option.ite_none_right_eq_some, Option.some.injEq] at h
      obtain ⟨hc, rfl⟩ := h
      exact .finish hc
  | setClosed =>
    simp only [closeStep, Option.ite_none_right_eq_some, Option.some.injEq] at h
    obtain ⟨hc, rfl⟩ := h
    split
    · exact .again hc ‹_›
    · exact .setClosed hc (eq_false_of_ne_true ‹_›)
  | _ =>
    simp only [closeStep, Option.ite_none_right_eq_some, Option.some.injEq] at h
    obtain ⟨hc, rfl⟩ := h
    first
      | exact .lock hc.1 hc.2.1
      | exact .closeQueue hc
      | exact .unlock hc
      | exact .workersDone hc.1 hc.2
      | exact .timeout hc

/-! ## The locks -/

/-- The call holds the read lock. -/
def EnqueuePc.holds : EnqueuePc → Bool
  | .entered | .sending | .overflow | .leaving _ => true
  | _ => false

/-- The call holds the read lock and has found the hook open. -/
def EnqueuePc.foundOpen : EnqueuePc → Bool
  | .sending | .overflow => true
  | .leaving wasOpen => wasOpen
  | _ => false

/-- `Close` holds the lock. -/
def HookClosePc.locks : HookClosePc → Bool
  | .locked | .flagged | .unlocking => true
  | _ => false

/-- `Close` has set `closed`. -/
def HookClosePc.hasFlagged : HookClosePc → Bool
  | .idle | .locked => false
  | _ => true

/-- `Close` has closed the queue. -/
def HookClosePc.hasClosed : HookClosePc → Bool
  | .idle | .locked | .flagged => false
  | _ => true

/-- What the lock of the hook protects. -/
structure Forwarder.Guarded (s : Forwarder payload n) : Prop where
  mem_readers : ∀ i, i ∈ s.readers ↔ (s.calls i).holds
  nodup : s.readers.Nodup
  writer_eq : s.writer = s.closing.locks
  exclusive : s.writer = true → s.readers = []
  closed_eq : s.closed = s.closing.hasFlagged
  queueClosed_eq : s.queueClosed = s.closing.hasClosed
  isOpen : ∀ i, (s.calls i).foundOpen → s.closed = false
  panicked_eq : s.panicked = false

namespace Forwarder

omit [DecidableEq ι] in
theorem Guarded.start (queueSize workerCount : ℤ) :
    (newWebhookLogHook payload queueSize workerCount).Guarded where
  mem_readers _ := by simp [newWebhookLogHook, EnqueuePc.holds]
  nodup := List.nodup_nil
  writer_eq := rfl
  exclusive _ := rfl
  closed_eq := rfl
  queueClosed_eq := rfl
  isOpen _ _ := rfl
  panicked_eq := rfl

omit [DecidableEq ι] in
theorem Guarded.closed_of_queueClosed (h : s.Guarded) (hq : s.queueClosed = true) :
    s.closed = true := by
  have hpc := h.queueClosed_eq.symm.trans hq
  rw [h.closed_eq]
  cases hc : s.closing <;> simp_all [HookClosePc.hasClosed, HookClosePc.hasFlagged]

/-- A call that keeps what it holds. -/
theorem Guarded.move {i : ι} (h : s.Guarded) (pc : EnqueuePc) (hhold : pc.holds = (s.calls i).holds)
    (hopen : pc.foundOpen = true → s.closed = false) : (s.move i pc).Guarded where
  mem_readers j := by
    by_cases hj : j = i
    · subst hj
      simp [hhold, h.mem_readers]
    · simp [hj, h.mem_readers]
  nodup := h.nodup
  writer_eq := h.writer_eq
  exclusive := h.exclusive
  closed_eq := h.closed_eq
  queueClosed_eq := h.queueClosed_eq
  isOpen j := by
    by_cases hj : j = i
    · subst hj
      simpa using hopen
    · simpa [hj] using h.isOpen j
  panicked_eq := h.panicked_eq

theorem Guarded.rLock {i : ι} (h : s.Guarded) (hc : s.calls i = .entering) (hw : s.writer = false) :
    ({ s.move i .entered with readers := i :: s.readers } : Forwarder payload n).Guarded where
  mem_readers j := by
    by_cases hj : j = i
    · subst hj
      simp [EnqueuePc.holds]
    · simp [hj, h.mem_readers]
  nodup := List.nodup_cons.mpr ⟨by rw [h.mem_readers, hc]; nofun, h.nodup⟩
  writer_eq := h.writer_eq
  exclusive hw' := by simp [hw] at hw'
  closed_eq := h.closed_eq
  queueClosed_eq := h.queueClosed_eq
  isOpen j := by
    by_cases hj : j = i
    · subst hj
      simp [EnqueuePc.foundOpen]
    · simpa [hj] using h.isOpen j
  panicked_eq := h.panicked_eq

theorem Guarded.rUnlock {i : ι} {wasOpen : Bool} (h : s.Guarded) :
    ({ s.move i (.returned wasOpen) with readers := s.readers.erase i } :
      Forwarder payload n).Guarded where
  mem_readers j := by
    by_cases hj : j = i
    · subst hj
      simp [EnqueuePc.holds, h.nodup.mem_erase_iff]
    · simp [hj, h.nodup.mem_erase_iff, h.mem_readers]
  nodup := h.nodup.erase i
  writer_eq := h.writer_eq
  exclusive hw := by rw [h.exclusive hw]; rfl
  closed_eq := h.closed_eq
  queueClosed_eq := h.queueClosed_eq
  isOpen j := by
    by_cases hj : j = i
    · subst hj
      simp [EnqueuePc.foundOpen]
    · simpa [hj] using h.isOpen j
  panicked_eq := h.panicked_eq

theorem Guarded.enqueue {i : ι} (h : s.Guarded) (hm : EnqueueMove s i s') : s'.Guarded := by
  have hopen (hf : (s.calls i).foundOpen = true) : s.closed = false := h.isOpen i hf
  cases hm with
  | tooLarge hc _ => exact h.move _ (by rw [hc]; rfl) nofun
  | fits hc _ => exact h.move _ (by rw [hc]; rfl) nofun
  | dropLarge hc => exact { h.move (i := i) (.returned true) (by rw [hc]; rfl) nofun with }
  | dropFull hc =>
    have hclosed := hopen (by rw [hc]; rfl)
    exact { h.move (i := i) (.leaving true) (by rw [hc]; rfl) fun _ => hclosed with }
  | rLock hc hw => exact h.rLock hc hw
  | foundClosed hc _ => exact h.move _ (by rw [hc]; rfl) nofun
  | foundOpen hc hclosed => exact h.move _ (by rw [hc]; rfl) fun _ => hclosed
  | panic hc hq =>
    have hclosed := hopen (by rw [hc]; rfl)
    rw [h.closed_of_queueClosed hq] at hclosed
    cases hclosed
  | send hc _ =>
    have hclosed := hopen (by rw [hc]; rfl)
    exact { h.move (i := i) (.leaving true) (by rw [hc]; rfl) fun _ => hclosed with }
  | noRoom hc _ =>
    exact h.move _ (by rw [hc]; rfl) fun _ => hopen (by rw [hc]; rfl)
  | rUnlock wasOpen hc => exact h.rUnlock

omit [DecidableEq ι] in
theorem Guarded.worker {w : Fin n} (h : s.Guarded) (hm : WorkerMove s w s') : s'.Guarded := by
  cases hm <;> exact { h with }

omit [DecidableEq ι] in
theorem Guarded.close (h : s.Guarded) (hm : CloseMove s s') : s'.Guarded := by
  have hwriter := h.writer_eq
  have hclosed := h.closed_eq
  have hqueue := h.queueClosed_eq
  cases hm with
  | lock hc hr =>
    exact { h with
      writer_eq := rfl
      exclusive := fun _ => hr
      closed_eq := by rw [hclosed, hc]; rfl
      queueClosed_eq := by rw [hqueue, hc]; rfl }
  | again hc ht =>
    rw [hclosed, hc] at ht
    cases ht
  | setClosed hc hf =>
    have hlocked : s.readers = [] := h.exclusive (by rw [hwriter, hc]; rfl)
    -- no call is between its look at the flag and the end of its read lock
    have hnone (i : ι) : (s.calls i).foundOpen = false := by
      have hi : (s.calls i).holds = false := by
        have := h.mem_readers i
        simpa [hlocked] using this
      cases hpc : s.calls i <;> simp_all [EnqueuePc.holds, EnqueuePc.foundOpen]
    exact { h with
      writer_eq := by rw [hwriter, hc]; rfl
      closed_eq := rfl
      queueClosed_eq := by rw [hqueue, hc]; rfl
      isOpen := fun i hi => by rw [hnone i] at hi; cases hi }
  | closeQueue hc =>
    exact { h with
      writer_eq := by rw [hwriter, hc]; rfl
      closed_eq := by rw [hclosed, hc]; rfl
      queueClosed_eq := rfl }
  | unlock hc =>
    exact { h with
      writer_eq := rfl
      exclusive := nofun
      closed_eq := by rw [hclosed, hc]; rfl
      queueClosed_eq := by rw [hqueue, hc]; rfl }
  | workersDone hc _ =>
    obtain hc | hc := hc <;> exact { h with
      writer_eq := by rw [hwriter, hc]; rfl
      closed_eq := by rw [hclosed, hc]; rfl
      queueClosed_eq := by rw [hqueue, hc]; rfl }
  | timeout hc | cancel hc | finish hc =>
    exact { h with
      writer_eq := by rw [hwriter, hc]; rfl
      closed_eq := by rw [hclosed, hc]; rfl
      queueClosed_eq := by rw [hqueue, hc]; rfl }

end Forwarder

/-! ## Sizes -/

/-- The bounds of a batch that is sent. -/
def LogBatch.Sendable (b : LogBatch payload) : Prop :=
  1 ≤ b.entries ∧ b.entries ≤ maxForwardedBatchEntries ∧
    b.body.length ≤ maxForwardedBatchBytes + maxForwardedLogPayloadBytes

/-- The bounds of a batch that is being filled. -/
def LogBatch.Open (b : LogBatch payload) : Prop :=
  b.entries < maxForwardedBatchEntries ∧ b.body.length < maxForwardedBatchBytes

omit [DecidableEq ι] in
theorem LogBatch.open_empty : (LogBatch.empty : LogBatch payload).Open :=
  ⟨Nat.zero_lt_succ 99, Nat.zero_lt_succ (512 * 1024 - 1)⟩

omit [DecidableEq ι] in
theorem LogBatch.Open.sendable {b : LogBatch payload} (h : b.Open) (hpos : b.entries ≠ 0) : b.Sendable :=
  ⟨Nat.pos_of_ne_zero hpos, Nat.le_of_lt h.1, Nat.le_add_right_of_le (Nat.le_of_lt h.2)⟩

omit [DecidableEq ι] in
/-- A batch below the bounds can take one more event of the queue. -/
theorem LogBatch.Open.add {b : LogBatch payload} {i : ι} (h : b.Open)
    (hi : (payload i).length ≤ maxForwardedLogPayloadBytes) : (b.add i).Sendable := by
  obtain ⟨hentries, hbytes⟩ := h
  have hlen : (b.add i).body.length ≤ b.body.length + 1 + (payload i).length := by
    simp only [LogBatch.add]
    split
    · simp only [List.length_append, List.length_singleton]
      omega
    · simp only [List.length_append]
      omega
  refine ⟨Nat.le_add_left 1 b.entries, hentries, ?_⟩
  omega

omit [DecidableEq ι] in
theorem LogBatch.open_of_not_full {b : LogBatch payload} (h : ¬ b.full = true) : b.Open := by
  simpa [LogBatch.full, LogBatch.Open] using h

/-- What a worker may hold. -/
def WorkerPc.Sized : WorkerPc payload → Prop
  | .select batch _ => batch.Open
  | .send batch _ | .post batch _ => batch.Sendable
  | _ => True

omit [DecidableEq ι] in
theorem sized_flush {batch : LogBatch payload} (h : batch.Open) (last : Bool) :
    (flush batch last).Sized := by
  unfold flush
  split
  · cases last
    · exact h
    · trivial
  · exact h.sendable ‹_›

omit [DecidableEq ι] in
theorem sized_afterSend (last : Bool) : (afterSend last : WorkerPc payload).Sized := by
  cases last
  · exact LogBatch.open_empty
  · trivial

/-- The call went on behind the check of the size; if it returned, it was the flag that stopped it. -/
def EnqueuePc.passed : EnqueuePc → Bool
  | .idle | .oversize => false
  | .returned taken => !taken
  | _ => true

namespace Forwarder

/-- The bounds of events and batches. -/
structure Sized (s : Forwarder payload n) : Prop where
  calls : ∀ i, (s.calls i).passed → (payload i).length ≤ maxForwardedLogPayloadBytes
  queue : ∀ i ∈ s.queue, (payload i).length ≤ maxForwardedLogPayloadBytes
  workers : ∀ w, (s.workers w).Sized
  posted : ∀ b ∈ s.posted, b.Sendable

omit [DecidableEq ι] in
theorem Sized.start (queueSize workerCount : ℤ) :
    (newWebhookLogHook payload queueSize workerCount).Sized where
  calls _ := nofun
  queue := nofun
  workers _ := LogBatch.open_empty
  posted := nofun

theorem Sized.move {i : ι} (h : s.Sized) (pc : EnqueuePc)
    (hpc : pc.passed = true → (payload i).length ≤ maxForwardedLogPayloadBytes) :
    (s.move i pc).Sized where
  calls j := by
    by_cases hj : j = i
    · subst hj
      simpa using hpc
    · simpa [hj] using h.calls j
  queue := h.queue
  workers := h.workers
  posted := h.posted

omit [DecidableEq ι] in
theorem Sized.turn {w : Fin n} (h : s.Sized) (pc : WorkerPc payload) (hpc : pc.Sized) :
    (s.turn w pc).Sized where
  calls := h.calls
  queue := h.queue
  workers v := by
    by_cases hv : v = w
    · subst hv
      simpa using hpc
    · simpa [hv] using h.workers v
  posted := h.posted

theorem Sized.enqueue {i : ι} (h : s.Sized) (hm : EnqueueMove s i s') : s'.Sized := by
  have hfits (hp : (s.calls i).passed = true) := h.calls i hp
  cases hm with
  | tooLarge _ _ => exact h.move _ nofun
  | fits _ hle => exact h.move _ fun _ => hle
  | dropLarge _ => exact { h.move (i := i) (.returned true) nofun with }
  | dropFull hc =>
    exact { h.move (i := i) (.leaving true) fun _ => hfits (by rw [hc]; rfl) with }
  | rLock hc _ => exact { h.move (i := i) .entered fun _ => hfits (by rw [hc]; rfl) with }
  | foundClosed hc _ | foundOpen hc _ | noRoom hc _ => exact h.move _ fun _ => hfits (by rw [hc]; rfl)
  | panic _ _ => exact { h with }
  | send hc _ =>
    have hle := hfits (by rw [hc]; rfl)
    exact { h.move (i := i) (.leaving true) fun _ => hle with
      queue := fun j hj => by
        rcases List.mem_append.mp hj with hj | hj
        · exact h.queue j hj
        · rw [List.mem_singleton.mp hj]
          exact hle }
  | rUnlock wasOpen hc =>
    exact { h.move (i := i) (.returned wasOpen) fun _ => hfits (by rw [hc]; rfl) with }

omit [DecidableEq ι] in
theorem Sized.worker {w : Fin n} (h : s.Sized) (hm : WorkerMove s w s') : s'.Sized := by
  have hw := h.workers w
  cases hm with
  | @receive batch timerActive i queue hpc hq =>
    rw [hpc] at hw
    have hi := h.queue i (by rw [hq]; exact List.mem_cons_self)
    have hnext : (if (batch.add i).full then WorkerPc.send (batch.add i) false
        else .select (batch.add i) true).Sized := by
      split
      · exact LogBatch.Open.add hw hi
      · exact LogBatch.open_of_not_full ‹_›
    exact { h.turn (w := w) _ hnext with
      queue := fun j hj => h.queue j (by rw [hq]; exact List.mem_cons_of_mem _ hj) }
  | drained hpc _ _ | tick hpc =>
    rw [hpc] at hw
    exact h.turn _ (sized_flush hw _)
  | @post batch last hpc =>
    rw [hpc] at hw
    exact { h.turn (w := w) (.post batch last) hw with
      posted := fun b hb => by
        rcases List.mem_cons.mp hb with rfl | hb
        · exact hw
        · exact h.posted b hb }
  | @accepted batch last hpc => exact { h.turn (w := w) _ (sized_afterSend last) with }
  | failed _ => exact h.turn _ trivial
  | @drop i events last hpc => exact { h.turn (w := w) (.drop events last) trivial with }
  | dropped _ => exact h.turn _ (sized_afterSend _)

omit [DecidableEq ι] in
theorem Sized.close (h : s.Sized) (hm : CloseMove s s') : s'.Sized := by
  cases hm <;> exact { h with }

end Forwarder

/-! ## Accounting -/

/-- The events a worker holds. -/
def WorkerPc.events : WorkerPc payload → List ι
  | .select batch _ | .send batch _ | .post batch _ => batch.events
  | .drop events _ => events
  | .done => []

omit [DecidableEq ι] in
theorem events_flush (batch : LogBatch payload) (last : Bool) :
    (flush batch last).events = batch.events := by
  unfold flush
  split
  next h =>
    have hnil : batch.events = [] := List.length_eq_zero_iff.mp (batch.entries_eq ▸ h)
    cases last
    · rfl
    · exact hnil.symm
  next => rfl

omit [DecidableEq ι] in
theorem events_afterSend (last : Bool) : (afterSend last : WorkerPc payload).events = [] := by
  cases last <;> rfl

/-- The hook has taken the event over. -/
def EnqueuePc.taken : EnqueuePc → Bool
  | .leaving taken | .returned taken => taken
  | _ => false

namespace Forwarder

/-- How often the workers hold an event. -/
def held (workers : Fin n → WorkerPc payload) (i : ι) : ℕ := ∑ w, (workers w).events.count i

/-- How often an event is in the queue, with a worker, in a batch that was answered or counted. -/
def places (s : Forwarder payload n) (i : ι) : ℕ :=
  s.queue.count i + held s.workers i + (s.answered.flatMap LogBatch.events).count i +
    s.droppedEvents.count i

theorem held_turn (workers : Fin n → WorkerPc payload) (w : Fin n) (pc : WorkerPc payload) (i : ι) :
    held (Function.update workers w pc) i + (workers w).events.count i =
      held workers i + pc.events.count i := by
  have hrest : ∑ v ∈ Finset.univ.erase w, (Function.update workers w pc v).events.count i =
      ∑ v ∈ Finset.univ.erase w, (workers v).events.count i :=
    Finset.sum_congr rfl fun v hv => by rw [Function.update_of_ne (Finset.ne_of_mem_erase hv)]
  rw [held, held, ← Finset.add_sum_erase _ _ (Finset.mem_univ w),
    ← Finset.add_sum_erase _ (fun v => (workers v).events.count i) (Finset.mem_univ w), hrest,
    Function.update_self]
  omega

/-- Every event that has been taken over is in one place, the others are in none. -/
structure Accounted (s : Forwarder payload n) : Prop where
  places_eq : ∀ i, s.places i = (s.calls i).taken.toNat
  dropped_eq : s.dropped = s.droppedEvents.length % 2 ^ 64

theorem Accounted.start (queueSize workerCount : ℤ) :
    (newWebhookLogHook payload queueSize workerCount).Accounted where
  places_eq i := by
    simp [newWebhookLogHook, places, held, WorkerPc.events, LogBatch.empty, EnqueuePc.taken]
  dropped_eq := rfl

/-- A call that the hook has taken nothing from. -/
theorem Accounted.calls_move (h : s.Accounted) {i : ι} {pc : EnqueuePc}
    (hpc : pc.taken = (s.calls i).taken) (j : ι) :
    s.places j = (Function.update s.calls i pc j).taken.toNat := by
  rw [h.places_eq]
  by_cases hj : j = i
  · rw [hj, Function.update_self, hpc]
  · rw [Function.update_of_ne hj]

/-- A call whose event the hook takes over. -/
theorem Accounted.calls_take (h : s.Accounted) {i : ι} {pc : EnqueuePc}
    (hc : (s.calls i).taken = false) (hpc : pc.taken = true) (j : ι) :
    s.places j + [i].count j = (Function.update s.calls i pc j).taken.toNat := by
  rw [h.places_eq]
  by_cases hj : j = i
  · rw [hj, Function.update_self, hpc, hc]
    simp
  · rw [Function.update_of_ne hj]
    simp [Ne.symm hj]

theorem places_recordDrop (s : Forwarder payload n) (i j : ι) :
    (s.recordDrop i).places j = s.places j + [i].count j := by
  simp only [places, recordDrop, List.count_cons, List.count_nil]
  omega

theorem Accounted.enqueue {i : ι} (h : s.Accounted) (hm : EnqueueMove s i s') : s'.Accounted := by
  have hdropped := h.dropped_eq
  have hcount : (s.dropped + 1) % 2 ^ 64 = (s.droppedEvents.length + 1) % 2 ^ 64 := by
    rw [hdropped, Nat.mod_add_mod]
  cases hm with
  | tooLarge hc _ | fits hc _ | rLock hc _ | foundClosed hc _ | foundOpen hc _ | noRoom hc _
  | rUnlock _ hc => exact ⟨h.calls_move (by rw [hc]; rfl), hdropped⟩
  | panic _ _ => exact { h with }
  | dropLarge hc | dropFull hc =>
    exact ⟨fun j => (places_recordDrop s i j).trans (h.calls_take (by rw [hc]; rfl) rfl j), hcount⟩
  | send hc _ =>
    refine ⟨fun j => Eq.trans ?_ (h.calls_take (by rw [hc]; rfl) rfl j), hdropped⟩
    simp only [places, move, List.count_append]
    omega

/-- **A worker only passes events on.** -/
theorem places_worker {w : Fin n} (hm : WorkerMove s w s') (j : ι) : s'.places j = s.places j := by
  have hheld (pc : WorkerPc payload) := held_turn s.workers w pc j
  cases hm with
  | @receive batch _ i queue hpc hq =>
    have hevents : (if (batch.add i).full then WorkerPc.send (batch.add i) false
        else .select (batch.add i) true).events = batch.events ++ [i] := by
      split <;> rfl
    have hturn := hheld (if (batch.add i).full then .send (batch.add i) false
      else .select (batch.add i) true)
    rw [hevents, hpc, List.count_append] at hturn
    simp only [places, turn, hq, List.count_cons, List.count_nil, WorkerPc.events] at hturn ⊢
    omega
  | @drained batch _ hpc _ _ =>
    have hturn := hheld (flush batch true)
    rw [events_flush, hpc] at hturn
    simp only [places, turn, WorkerPc.events] at hturn ⊢
    omega
  | @tick batch hpc =>
    have hturn := hheld (flush batch false)
    rw [events_flush, hpc] at hturn
    simp only [places, turn, WorkerPc.events] at hturn ⊢
    omega
  | @post batch last hpc =>
    have hturn := hheld (.post batch last)
    rw [hpc] at hturn
    simp only [places, turn, WorkerPc.events] at hturn ⊢
    omega
  | @accepted batch last hpc =>
    have hturn := hheld (afterSend last)
    rw [events_afterSend, hpc, List.count_nil] at hturn
    simp only [places, turn, WorkerPc.events, List.flatMap_cons, List.count_append] at hturn ⊢
    omega
  | @failed batch last hpc =>
    have hturn := hheld (.drop batch.events last)
    have hevents : (s.workers w).events = batch.events := by
      obtain hpc | hpc := hpc <;> rw [hpc] <;> rfl
    rw [hevents] at hturn
    simp only [places, turn, WorkerPc.events] at hturn ⊢
    omega
  | @drop i events last hpc =>
    have hturn := hheld (.drop events last)
    rw [hpc] at hturn
    simp only [places, turn, recordDrop, WorkerPc.events, List.count_cons] at hturn ⊢
    omega
  | @dropped last hpc =>
    have hturn := hheld (afterSend last)
    rw [events_afterSend, hpc] at hturn
    simp only [places, turn, WorkerPc.events] at hturn ⊢
    omega

theorem Accounted.worker {w : Fin n} (h : s.Accounted) (hm : WorkerMove s w s') : s'.Accounted := by
  refine ⟨fun j => (places_worker hm j).trans ((h.places_eq j).trans ?_), ?_⟩
  · cases hm <;> rfl
  · have hdropped := h.dropped_eq
    cases hm with
    | drop _ =>
      simp only [turn, recordDrop, List.length_cons]
      rw [hdropped, Nat.mod_add_mod]
    | _ => exact hdropped

theorem Accounted.close (h : s.Accounted) (hm : CloseMove s s') : s'.Accounted := by
  cases hm <;> exact { h with }

end Forwarder

/-! ## Shutdown -/

/-- The worker has seen the queue closed. -/
def WorkerPc.isLast : WorkerPc payload → Bool
  | .select _ _ => false
  | .send _ last | .post _ last | .drop _ last => last
  | .done => true

omit [DecidableEq ι] in
theorem isLast_flush {batch : LogBatch payload} : (flush batch false).isLast = false := by
  unfold flush
  split <;> rfl

omit [DecidableEq ι] in
theorem isLast_afterSend (last : Bool) : (afterSend last : WorkerPc payload).isLast = last := by
  cases last <;> rfl

namespace Forwarder

/-- A worker leaves only when the queue is closed and empty, and `Close` only after the workers. -/
structure Drained (s : Forwarder payload n) : Prop where
  last : ∀ w, (s.workers w).isLast → s.queueClosed = true ∧ s.queue = []
  finished : s.closing = .cancelling ∨ s.closing = .returned → ∀ w, (s.workers w).isDone

omit [DecidableEq ι] in
theorem Drained.start (queueSize workerCount : ℤ) :
    (newWebhookLogHook payload queueSize workerCount).Drained where
  last _ := nofun
  finished := by rintro (h | h) <;> cases h

theorem Drained.enqueue {i : ι} (h : s.Drained) (hm : EnqueueMove s i s') : s'.Drained := by
  cases hm with
  | send _ hq =>
    refine { h with last := fun w hw => ?_ }
    rw [(h.last w hw).1] at hq
    cases hq
  | _ => exact { h with }

omit [DecidableEq ι] in
/-- A worker that has seen the queue closed keeps to that. -/
theorem Drained.turn {w : Fin n} (h : s.Drained) (pc : WorkerPc payload)
    (hw : (s.workers w).isDone = false)
    (hpc : pc.isLast = true → s.queueClosed = true ∧ s.queue = []) : (s.turn w pc).Drained where
  last v hv := by
    by_cases hvw : v = w
    · subst hvw
      exact hpc (by simpa using hv)
    · exact h.last v (by simpa [hvw] using hv)
  finished hc := by
    rw [h.finished hc w] at hw
    cases hw

omit [DecidableEq ι] in
theorem Drained.worker {w : Fin n} (h : s.Drained) (hm : WorkerMove s w s') : s'.Drained := by
  have hlast := h.last w
  cases hm with
  | @receive batch _ i queue hpc hq =>
    -- no worker has seen the queue empty and closed
    refine ⟨fun v hv => ?_, fun hc => ?_⟩
    · by_cases hvw : v = w
      · subst hvw
        simp only [Forwarder.turn, Function.update_self] at hv
        split at hv <;> cases hv
      · have hv' : (s.workers v).isLast = true := by simpa [hvw] using hv
        rw [(h.last v hv').2] at hq
        cases hq
    · have hdone := h.finished hc w
      rw [hpc] at hdone
      cases hdone
  | drained hpc hq hc => exact h.turn _ (by rw [hpc]; rfl) fun _ => ⟨hc, hq⟩
  | tick hpc => exact h.turn _ (by rw [hpc]; rfl) fun hl => by rw [isLast_flush] at hl; cases hl
  | @post batch last hpc =>
    rw [hpc] at hlast
    exact { h.turn (w := w) (.post batch last) (by rw [hpc]; rfl) hlast with }
  | @accepted batch last hpc =>
    rw [hpc] at hlast
    exact { h.turn (w := w) (afterSend last) (by rw [hpc]; rfl) fun hl => hlast
      (by rwa [isLast_afterSend] at hl) with }
  | failed hpc =>
    obtain hpc | hpc := hpc <;> rw [hpc] at hlast <;> exact h.turn _ (by rw [hpc]; rfl) hlast
  | @drop i events last hpc =>
    rw [hpc] at hlast
    exact { h.turn (w := w) (.drop events last) (by rw [hpc]; rfl) hlast with }
  | dropped hpc =>
    rw [hpc] at hlast
    exact h.turn _ (by rw [hpc]; rfl) fun hl => hlast (by rwa [isLast_afterSend] at hl)

omit [DecidableEq ι] in
theorem Drained.close (h : s.Drained) (hm : CloseMove s s') : s'.Drained := by
  cases hm with
  | closeQueue hc =>
    exact ⟨fun w hw => ⟨rfl, (h.last w hw).2⟩, by rintro (hc | hc) <;> cases hc⟩
  | workersDone _ hd => exact { h with finished := fun _ => of_decide_eq_true hd }
  | finish hc => exact { h with finished := fun _ => h.finished (.inl hc) }
  | _ => exact { h with finished := by rintro (hc | hc) <;> cases hc }

/-! ## All invariants -/

/-- The invariant of a hook. -/
structure Inv (s : Forwarder payload n) : Prop where
  guarded : s.Guarded
  sized : s.Sized
  accounted : s.Accounted
  drained : s.Drained

/-- **Every step keeps the invariant.** -/
theorem Inv.step {l : ForwarderStep ι n} (h : s.Inv) (hl : forwarderStep s l = some s') : s'.Inv := by
  cases l with
  | enqueue i step =>
    have hm := enqueueStep_cases hl
    exact ⟨h.guarded.enqueue hm, h.sized.enqueue hm, h.accounted.enqueue hm, h.drained.enqueue hm⟩
  | worker w step =>
    have hm := workerStep_cases hl
    exact ⟨h.guarded.worker hm, h.sized.worker hm, h.accounted.worker hm, h.drained.worker hm⟩
  | close step =>
    have hm := closeStep_cases hl
    exact ⟨h.guarded.close hm, h.sized.close hm, h.accounted.close hm, h.drained.close hm⟩

theorem Inv.run {queueSize workerCount : ℤ} {labels : List (ForwarderStep ι _)}
    {s : Forwarder payload (defaultWorkerCount workerCount)}
    (h : run forwarderStep (newWebhookLogHook payload queueSize workerCount) labels = some s) : s.Inv :=
  run_invariant ⟨.start _ _, .start _ _, .start _ _, .start _ _⟩ (fun _ _ _ hI hl => hI.step hl) h

/-! ## Calls that enter before `Close` -/

/-- The call took the read lock before `Close` took the lock. -/
def Joined (s : Forwarder payload n) (i : ι) : Prop :=
  s.calls i = .entered ∧ s.closed = false ∨ (s.calls i).foundOpen = true ∨ s.calls i = .returned true

theorem Joined.step {l : ForwarderStep ι n} {i : ι} (h : s.Joined i) (hs : s.Guarded)
    (hl : forwarderStep s l = some s') : s'.Joined i := by
  cases l with
  | enqueue j step =>
    have hm := enqueueStep_cases hl
    by_cases hj : j = i
    · subst hj
      cases hm <;> simp_all [Joined, EnqueuePc.foundOpen]
    · cases hm <;> simpa [Joined, Ne.symm hj] using h
  | worker w step => cases workerStep_cases hl <;> exact h
  | close step =>
    cases closeStep_cases hl with
    | setClosed hc _ =>
      -- a call with the read lock would have kept `Close` from the lock
      have hempty : s.readers = [] := hs.exclusive (by rw [hs.writer_eq, hc]; rfl)
      have hfree : (s.calls i).holds = false := by
        have := hs.mem_readers i
        simpa [hempty] using this
      rcases h with ⟨h, -⟩ | h | h
      · rw [h] at hfree
        cases hfree
      · cases hpc : s.calls i <;> simp_all [EnqueuePc.holds, EnqueuePc.foundOpen]
      · exact .inr (.inr h)
    | _ => exact h

theorem Joined.run {i : ι} {labels : List (ForwarderStep ι n)} (h : s.Joined i) (hs : s.Inv)
    (hr : run forwarderStep s labels = some s') : s'.Joined i :=
  (run_invariant (I := fun s => s.Inv ∧ s.Joined i) ⟨hs, h⟩
    (fun _ _ _ hI hl => ⟨hI.1.step hl, hI.2.step hI.1.guarded hl⟩) hr).2

end Forwarder

local instance threeEvents : NeZero 3 := ⟨by decide⟩

end SynitWaf
