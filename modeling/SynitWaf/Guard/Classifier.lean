import Mathlib.Data.Rat.Defs
import Mathlib.Logic.Function.Basic
import SynitWaf.Go.Errors
import SynitWaf.Machine

/-!
# The classifier of the guard

The model runs one inference at a time. A call of `Classify` takes the only slot, starts a goroutine
that owns the slot from then on, and waits for its result or for the end of its context. `Close`
takes the slot and keeps it. The calls, their goroutines and `Close` run in any order.

* `infer`: the scores of a run of the pipeline;
* `CallerPc`, `WorkerPc`, `CloserPc`, `classifierStep`: the steps of `Classify`, of the goroutine it
  starts and of `Close`;
* `ClassifierState.Owned`: who owns the slot; **`classifierStep_owned`**: how it changes hands;
* **`inference_serialised`**: one run at a time, and none behind the end of the session.
-/

namespace SynitWaf.Guard

open Go

/-! ## The scores of a run -/

/-- What a run of the pipeline comes to: it panics, fails, returns nil or returns, for every text, the
labels with their scores. -/
inductive PipelineOutcome where
  | panicked (value : GoString)
  | failed (err : GoString)
  | noResult
  | outputs (labels : List (List (GoString × ℚ)))

/-- The labels of the classifier, and the functions of other packages that `infer` calls. -/
structure ModelLabels where
  injectionLabels : GoString → Bool
  safeLabels : GoString → Bool
  unicode : Unicode
  quote : GoString → GoString

/-- The score of one text. -/
def scoreOf (c : ModelLabels) (i : ℕ) (outputs : List (GoString × ℚ)) : Result ℚ :=
  match outputs with
  | [(rawLabel, score)] =>
    let label := c.unicode.toUpper (trimSpace rawLabel)
    if c.injectionLabels label then .ok score
    else if c.safeLabels label then .ok (1 - score)
    else .error (str "model returned unknown label " ++ c.quote rawLabel)
  | _ =>
    .error (str "model output " ++ itoa i ++ str " contains " ++ itoa outputs.length ++
      str " labels; expected one")

/-- `infer`, given what the run of the pipeline comes to. -/
def infer (c : ModelLabels) (texts : List GoString) : PipelineOutcome → Result (List ℚ)
  | .panicked value => .error (str "inference panicked: " ++ value)
  | .failed err => .error err
  | .noResult => .error (str "model returned no result")
  | .outputs labels =>
    if labels.length ≠ texts.length then
      .error (str "model returned " ++ itoa labels.length ++ str " outputs for " ++
        itoa texts.length ++ str " texts")
    else (labels.zipIdx).mapM fun (outputs, i) => scoreOf c i outputs

/-! ## The steps -/

/-- Where a call of `Classify` is: before it looks at its context, waiting for the slot, with the
slot and before it starts the goroutine, waiting for the result, or back. -/
inductive CallerPc where
  | start
  | waiting
  | holding
  | awaiting
  | returned (result : Result (List ℚ))

/-- Where the goroutine of a call is: not started, before, in and behind the run of the pipeline,
with the result sent, or at its end. -/
inductive WorkerPc where
  | idle
  | started
  | running
  | finished (result : Result (List ℚ))
  | delivered
  | ended

/-- Where `Close` is: waiting for the slot, with the slot, or back. -/
inductive CloserPc where
  | waiting
  | holding
  | gaveUp
  | destroyed

/-- The state of the classifier: its slot, the calls and their goroutines, and for every call the
channel of the result and the error of its context. -/
structure ClassifierState (ι : Type) where
  slot : Bool
  caller : ι → CallerPc
  worker : ι → WorkerPc
  done : ι → Option (Result (List ℚ))
  expired : ι → Option GoString
  closer : CloserPc
  destroys : ℕ

/-- The state before any call. -/
def ClassifierState.fresh (ι : Type) : ClassifierState ι where
  slot := false
  caller _ := .start
  worker _ := .idle
  done _ := none
  expired _ := none
  closer := .waiting
  destroys := 0

/-- The steps: a context ends; those of a call; those of its goroutine; those of `Close`. -/
inductive ClassifierStep (ι : Type) where
  | expire (call : ι) (err : GoString)
  | check (call : ι)
  | acquire (call : ι)
  | cancelWait (call : ι)
  | spawn (call : ι)
  | receive (call : ι)
  | timeOut (call : ι)
  | begin (call : ι)
  | finish (call : ι) (outcome : PipelineOutcome)
  | deliver (call : ι)
  | release (call : ι)
  | closeTake
  | closeTimeOut
  | destroy

section Steps

variable {ι : Type} [DecidableEq ι]

/-- Move a call. -/
def ClassifierState.moveCaller (s : ClassifierState ι) (call : ι) (pc : CallerPc) :
    ClassifierState ι :=
  { s with caller := Function.update s.caller call pc }

/-- Move the goroutine of a call. -/
def ClassifierState.moveWorker (s : ClassifierState ι) (call : ι) (pc : WorkerPc) :
    ClassifierState ι :=
  { s with worker := Function.update s.worker call pc }

/-- The effect of a step, if it can be taken. -/
def classifierStep (c : ModelLabels) (texts : ι → List GoString) (s : ClassifierState ι) :
    ClassifierStep ι → Option (ClassifierState ι)
  | .expire call err =>
    match s.expired call with
    | none => some { s with expired := Function.update s.expired call (some err) }
    | some _ => none
  -- if err := ctx.Err(); err != nil
  | .check call =>
    match s.caller call, s.expired call with
    | .start, none => some (s.moveCaller call .waiting)
    | .start, some err => some (s.moveCaller call (.returned (.error err)))
    | _, _ => none
  -- case c.slot <- struct{}{}:
  | .acquire call =>
    match s.caller call, s.slot with
    | .waiting, false => some { s.moveCaller call .holding with slot := true }
    | _, _ => none
  | .cancelWait call =>
    match s.caller call, s.expired call with
    | .waiting, some err => some (s.moveCaller call (.returned (.error err)))
    | _, _ => none
  -- go func()
  | .spawn call =>
    match s.caller call with
    | .holding => some ((s.moveCaller call .awaiting).moveWorker call .started)
    | _ => none
  -- case result := <-done:
  | .receive call =>
    match s.caller call, s.done call with
    | .awaiting, some result =>
      some { s.moveCaller call (.returned result) with done := Function.update s.done call none }
    | _, _ => none
  | .timeOut call =>
    match s.caller call, s.expired call with
    | .awaiting, some err => some (s.moveCaller call (.returned (.error err)))
    | _, _ => none
  -- scores, err := c.infer(texts)
  | .begin call =>
    match s.worker call with
    | .started => some (s.moveWorker call .running)
    | _ => none
  | .finish call outcome =>
    match s.worker call with
    | .running => some (s.moveWorker call (.finished (infer c (texts call) outcome)))
    | _ => none
  -- done <- inferenceResult{scores: scores, err: err}
  | .deliver call =>
    match s.worker call with
    | .finished result =>
      some { s.moveWorker call .delivered with done := Function.update s.done call (some result) }
    | _ => none
  -- defer func() { <-c.slot }()
  | .release call =>
    match s.worker call, s.slot with
    | .delivered, true => some { s.moveWorker call .ended with slot := false }
    | _, _ => none
  | .closeTake =>
    match s.closer, s.slot with
    | .waiting, false => some { s with closer := .holding, slot := true }
    | _, _ => none
  | .closeTimeOut =>
    match s.closer with
    | .waiting => some { s with closer := .gaveUp }
    | _ => none
  | .destroy =>
    match s.closer with
    | .holding => some { s with closer := .destroyed, destroys := s.destroys + 1 }
    | _ => none

/-! ## The owner of the slot -/

/-- Does the goroutine own the slot? -/
def WorkerPc.active : WorkerPc → Bool
  | .started | .running | .finished _ | .delivered => true
  | _ => false

/-- Is the call with the slot, before its goroutine owns it? -/
def CallerPc.isHolding : CallerPc → Bool
  | .holding => true
  | _ => false

/-- Has the call come to the slot? -/
def CallerPc.beforeSlot : CallerPc → Bool
  | .start | .waiting => true
  | _ => false

/-- Has `Close` taken the slot? -/
def CloserPc.owns : CloserPc → Bool
  | .holding | .destroyed => true
  | _ => false

/-- Who owns the slot: nobody, a call with its goroutine, or `Close`. -/
inductive Owner (ι : Type) where
  | nobody
  | call (call : ι)
  | close

/-- A run of the model for the call is being started or is in progress, or it is over and still holds
the slot. -/
def ClassifierState.Busy (s : ClassifierState ι) (call : ι) : Prop :=
  (s.caller call).isHolding = true ∨ (s.worker call).active = true

/-- The slot is occupied by its owner, and the goroutines follow their calls. -/
structure ClassifierState.Owned (s : ClassifierState ι) (owner : Owner ι) : Prop where
  slot : s.slot = true ↔ owner ≠ .nobody
  busy : ∀ call, s.Busy call ↔ owner = .call call
  close : s.closer.owns = true ↔ owner = .close
  idle : ∀ call, (s.caller call).isHolding = true ∨ (s.caller call).beforeSlot = true →
    (s.worker call) = .idle
  destroys : s.destroys = match s.closer with | .destroyed => 1 | _ => 0

omit [DecidableEq ι] in
theorem ClassifierState.Owned.fresh : (ClassifierState.fresh ι).Owned .nobody where
  slot := by simp [ClassifierState.fresh]
  busy call := by
    simp [ClassifierState.fresh, ClassifierState.Busy, CallerPc.isHolding, WorkerPc.active]
  close := by simp [ClassifierState.fresh, CloserPc.owns]
  idle call _ := rfl
  destroys := rfl

variable {c : ModelLabels} {texts : ι → List GoString} {s s' : ClassifierState ι}
  {l : ClassifierStep ι} {owner : Owner ι}

omit [DecidableEq ι] in
theorem ClassifierState.Owned.eq_nobody (h : s.Owned owner) (hslot : s.slot = false) :
    owner = .nobody := by
  by_contra hne
  rw [h.slot.mpr hne] at hslot
  cases hslot

/-- A step of a call that has nothing to do with the slot. -/
theorem ClassifierState.Owned.moveCaller (h : s.Owned owner) {call : ι} {pc : CallerPc}
    (hfrom : (s.caller call).isHolding = false) (hto : pc.isHolding = false)
    (hbefore : pc.beforeSlot = true → (s.caller call).beforeSlot = true) :
    (s.moveCaller call pc).Owned owner := by
  refine ⟨h.slot, fun c => ?_, h.close, fun c hc => ?_, h.destroys⟩
  · rw [← h.busy]
    by_cases hcc : c = call
    · subst hcc
      simp [ClassifierState.Busy, ClassifierState.moveCaller, hfrom, hto]
    · simp [ClassifierState.Busy, ClassifierState.moveCaller, hcc]
  · refine h.idle c ?_
    by_cases hcc : c = call
    · subst hcc
      simp only [ClassifierState.moveCaller, Function.update_self, hto] at hc
      exact .inr (hbefore (hc.resolve_left (by simp)))
    · simpa [ClassifierState.moveCaller, hcc] using hc

/-- A step of a goroutine that owns the slot and keeps it. -/
theorem ClassifierState.Owned.moveWorker (h : s.Owned owner) {call : ι} {pc : WorkerPc}
    (hfrom : (s.worker call).active = true) (hto : pc.active = true) :
    (s.moveWorker call pc).Owned owner := by
  refine ⟨h.slot, fun c => ?_, h.close, fun c hc => ?_, h.destroys⟩
  · rw [← h.busy]
    by_cases hcc : c = call
    · subst hcc
      simp [ClassifierState.Busy, ClassifierState.moveWorker, hfrom, hto]
    · simp [ClassifierState.Busy, ClassifierState.moveWorker, hcc]
  · have hidle := h.idle c hc
    by_cases hcc : c = call
    · subst hcc
      rw [hidle] at hfrom
      cases hfrom
    · simpa [ClassifierState.moveWorker, hcc] using hidle

omit [DecidableEq ι] in
/-- The channel of a result has nothing to do with the slot. -/
theorem ClassifierState.Owned.setDone (h : s.Owned owner) (done : ι → Option (Result (List ℚ))) :
    ({ s with done } : ClassifierState ι).Owned owner :=
  ⟨h.slot, h.busy, h.close, h.idle, h.destroys⟩

/-- A call that waits takes the free slot. -/
theorem ClassifierState.Owned.acquire (h : s.Owned .nobody) {call : ι}
    (hc : s.caller call = .waiting) :
    ({ s.moveCaller call .holding with slot := true } : ClassifierState ι).Owned (.call call) := by
  refine ⟨by simp, fun c => ?_, ?_, fun c hcc => ?_, h.destroys⟩
  · have hfree := h.busy c
    by_cases hcall : c = call
    · subst hcall
      simp [ClassifierState.Busy, ClassifierState.moveCaller, CallerPc.isHolding]
    · simp only [ClassifierState.Busy, ClassifierState.moveCaller, Function.update_of_ne hcall]
      exact hfree.trans (by simp [Ne.symm hcall])
  · exact h.close.trans (by simp)
  · refine h.idle c ?_
    by_cases hcall : c = call
    · rw [hcall, hc]
      exact .inr rfl
    · simpa [ClassifierState.moveCaller, hcall] using hcc

/-- The goroutine of a call owns the slot from its start on. -/
theorem ClassifierState.Owned.spawn (h : s.Owned owner) {call : ι}
    (hc : s.caller call = .holding) :
    ((s.moveCaller call .awaiting).moveWorker call .started).Owned owner := by
  refine ⟨h.slot, fun c => ?_, h.close, fun c hcc => ?_, h.destroys⟩
  · rw [← h.busy]
    by_cases hcall : c = call
    · subst hcall
      simp [ClassifierState.Busy, ClassifierState.moveCaller, ClassifierState.moveWorker, hc,
        CallerPc.isHolding, WorkerPc.active]
    · simp [ClassifierState.Busy, ClassifierState.moveCaller, ClassifierState.moveWorker, hcall]
  · by_cases hcall : c = call
    · subst hcall
      simp [ClassifierState.moveCaller, ClassifierState.moveWorker, CallerPc.isHolding,
        CallerPc.beforeSlot] at hcc
    · have hidle := h.idle c (by
        simpa [ClassifierState.moveCaller, ClassifierState.moveWorker, hcall] using hcc)
      simpa [ClassifierState.moveCaller, ClassifierState.moveWorker, hcall] using hidle

/-- A goroutine at its end gives the slot back. -/
theorem ClassifierState.Owned.release (h : s.Owned owner) {call : ι}
    (hw : s.worker call = .delivered) : owner = .call call ∧
      ({ s.moveWorker call .ended with slot := false } : ClassifierState ι).Owned .nobody := by
  have howner : owner = .call call := (h.busy call).mp (.inr (by rw [hw]; rfl))
  have hcaller : (s.caller call).isHolding = false := by
    rw [Bool.eq_false_iff]
    intro hh
    have hidle := h.idle call (.inl hh)
    rw [hw] at hidle
    cases hidle
  refine ⟨howner, by simp, fun c => ?_, ?_, fun c hcc => ?_, h.destroys⟩
  · have hbusy := h.busy c
    by_cases hcall : c = call
    · subst hcall
      simp [ClassifierState.Busy, ClassifierState.moveWorker, hcaller, WorkerPc.active]
    · simp only [ClassifierState.Busy, ClassifierState.moveWorker, Function.update_of_ne hcall]
      exact hbusy.trans (by simp [howner, Ne.symm hcall])
  · exact h.close.trans (by simp [howner])
  · have hidle := h.idle c hcc
    by_cases hcall : c = call
    · rw [hcall, hw] at hidle
      cases hidle
    · simpa [ClassifierState.moveWorker, hcall] using hidle

omit [DecidableEq ι] in
/-- `Close` takes the free slot. -/
theorem ClassifierState.Owned.closeTake (h : s.Owned .nobody) (hc : s.closer = .waiting) :
    ({ s with closer := .holding, slot := true } : ClassifierState ι).Owned .close := by
  refine ⟨by simp, fun call => ?_, by simp [CloserPc.owns], h.idle, ?_⟩
  · exact (h.busy call).trans (by simp)
  · exact h.destroys.trans (by rw [hc])

omit [DecidableEq ι] in
/-- A step of `Close` that leaves the slot as it is, with the number of sessions it has ended. -/
theorem ClassifierState.Owned.moveCloser (h : s.Owned owner) {pc : CloserPc} {n : ℕ}
    (hn : n = match pc with | .destroyed => 1 | _ => 0) (howns : pc.owns = s.closer.owns) :
    ({ s with closer := pc, destroys := n } : ClassifierState ι).Owned owner := by
  refine ⟨h.slot, h.busy, ?_, h.idle, hn⟩
  rw [← h.close, ← howns]

/-- How a step may change the owner. -/
inductive Passes : ClassifierStep ι → Owner ι → Owner ι → Prop
  | keep (l : ClassifierStep ι) (owner : Owner ι) (h : ∀ call, l ≠ .release call) :
    Passes l owner owner
  | acquire (call : ι) : Passes (.acquire call) .nobody (.call call)
  | release (call : ι) : Passes (.release call) (.call call) .nobody
  | close : Passes .closeTake .nobody .close

/-- **Who owns the slot behind a step.** -/
theorem classifierStep_owned (h : s.Owned owner) (hs : classifierStep c texts s l = some s') :
    ∃ owner', s'.Owned owner' ∧ Passes l owner owner' := by
  cases l with
  | expire call err =>
    simp only [classifierStep] at hs
    split at hs
    next =>
      cases hs
      exact ⟨owner, ⟨h.slot, h.busy, h.close, h.idle, h.destroys⟩, .keep _ _ (by simp)⟩
    next => cases hs
  | check call =>
    simp only [classifierStep] at hs
    split at hs
    next hc _ =>
      cases hs
      exact ⟨owner, h.moveCaller (by rw [hc]; rfl) rfl (by rw [hc]; exact id), .keep _ _ (by simp)⟩
    next hc _ =>
      cases hs
      exact ⟨owner, h.moveCaller (by rw [hc]; rfl) rfl (by rw [hc]; exact fun _ => rfl),
        .keep _ _ (by simp)⟩
    next => cases hs
  | acquire call =>
    simp only [classifierStep] at hs
    split at hs
    next hc hslot =>
      cases hs
      cases h.eq_nobody hslot
      exact ⟨.call call, h.acquire hc, .acquire call⟩
    next => cases hs
  | cancelWait call =>
    simp only [classifierStep] at hs
    split at hs
    next hc _ =>
      cases hs
      exact ⟨owner, h.moveCaller (by rw [hc]; rfl) rfl (by rw [hc]; exact fun _ => rfl),
        .keep _ _ (by simp)⟩
    next => cases hs
  | spawn call =>
    simp only [classifierStep] at hs
    split at hs
    next hc =>
      cases hs
      exact ⟨owner, h.spawn hc, .keep _ _ (by simp)⟩
    next => cases hs
  | receive call =>
    simp only [classifierStep] at hs
    split at hs
    next result hc _ =>
      cases hs
      have hmove : (s.moveCaller call (.returned result)).Owned owner :=
        h.moveCaller (by rw [hc]; rfl) rfl (fun hb => by cases hb)
      exact ⟨owner, hmove.setDone _, .keep _ _ (by simp)⟩
    next => cases hs
  | timeOut call =>
    simp only [classifierStep] at hs
    split at hs
    next hc _ =>
      cases hs
      exact ⟨owner, h.moveCaller (by rw [hc]; rfl) rfl (fun hb => by cases hb), .keep _ _ (by simp)⟩
    next => cases hs
  | begin call =>
    simp only [classifierStep] at hs
    split at hs
    next hw =>
      cases hs
      exact ⟨owner, h.moveWorker (by rw [hw]; rfl) rfl, .keep _ _ (by simp)⟩
    next => cases hs
  | finish call outcome =>
    simp only [classifierStep] at hs
    split at hs
    next hw =>
      cases hs
      exact ⟨owner, h.moveWorker (by rw [hw]; rfl) rfl, .keep _ _ (by simp)⟩
    next => cases hs
  | deliver call =>
    simp only [classifierStep] at hs
    split at hs
    next result hw =>
      cases hs
      have hmove : (s.moveWorker call .delivered).Owned owner :=
        h.moveWorker (by rw [hw]; rfl) rfl
      exact ⟨owner, hmove.setDone _, .keep _ _ (by simp)⟩
    next => cases hs
  | release call =>
    simp only [classifierStep] at hs
    split at hs
    next hw hslot =>
      cases hs
      obtain ⟨rfl, hfree⟩ := h.release hw
      exact ⟨.nobody, hfree, .release call⟩
    next => cases hs
  | closeTake =>
    simp only [classifierStep] at hs
    split at hs
    next hc hslot =>
      cases hs
      cases h.eq_nobody hslot
      exact ⟨.close, h.closeTake hc, .close⟩
    next => cases hs
  | closeTimeOut =>
    simp only [classifierStep] at hs
    split at hs
    next hc =>
      cases hs
      have hnone : s.destroys = 0 := h.destroys.trans (by rw [hc])
      exact ⟨owner, h.moveCloser hnone (by rw [hc]; rfl), .keep _ _ (by simp)⟩
    next => cases hs
  | destroy =>
    simp only [classifierStep] at hs
    split at hs
    next hc =>
      cases hs
      have hnone : s.destroys = 0 := h.destroys.trans (by rw [hc])
      exact ⟨owner, h.moveCloser (congrArg (· + 1) hnone) (by rw [hc]; rfl), .keep _ _ (by simp)⟩
    next => cases hs

/-! ## Runs -/

section Runs

variable {labels : List (ClassifierStep ι)}

theorem fresh_owned (h : Machine.run (classifierStep c texts) (.fresh ι) labels = some s) :
    ∃ owner, s.Owned owner := by
  refine Machine.run_invariant (I := fun s => ∃ owner, s.Owned owner) ⟨_, .fresh⟩ ?_ h
  rintro s₁ l s₂ ⟨owner, ho⟩ hs
  obtain ⟨owner', ho', -⟩ := classifierStep_owned ho hs
  exact ⟨owner', ho'⟩

/-- `Close` keeps the slot. -/
theorem close_owned (ho : s.Owned .close)
    (h : Machine.run (classifierStep c texts) s labels = some s') : s'.Owned .close := by
  refine Machine.run_invariant (I := fun s => s.Owned .close) ho (fun s₁ l s₂ ho hs => ?_) h
  obtain ⟨owner', ho', hp⟩ := classifierStep_owned ho hs
  cases hp
  exact ho'

omit [DecidableEq ι] in
theorem ClassifierState.Owned.not_busy (h : s.Owned .close) (call : ι) : ¬ s.Busy call := by
  rw [h.busy]
  simp

theorem timeOut_eq {call : ι} (h : classifierStep c texts s (.timeOut call) = some s') :
    s'.slot = s.slot ∧ s'.worker = s.worker := by
  simp only [classifierStep] at h
  split at h
  next => cases h; exact ⟨rfl, rfl⟩
  next => cases h

theorem release_delivered {call : ι} (h : classifierStep c texts s (.release call) = some s') :
    s.worker call = .delivered := by
  simp only [classifierStep] at h
  split at h
  next hw _ => exact hw
  next => cases h

theorem destroy_holding (h : classifierStep c texts s .destroy = some s') :
    s.closer.owns = true := by
  simp only [classifierStep] at h
  split at h
  next hc => rw [hc]; rfl
  next => cases h

/-- **One inference at a time**, in every run of the calls, their goroutines and `Close`. -/
theorem inference_serialised {labels : List (ClassifierStep ι)} {s : ClassifierState ι}
    (h : Machine.run (classifierStep c texts) (.fresh ι) labels = some s) :
    -- the runs of the model that are in progress or being started
    (∀ i j, s.Busy i → s.Busy j → i = j) ∧
    -- the slot
    (s.slot = true ↔ (∃ call, s.Busy call) ∨ s.closer.owns = true) ∧
    (∀ l s', classifierStep c texts s l = some s' → s.slot = true → s'.slot = false →
      ∃ call, l = .release call ∧ s.worker call = .delivered ∧ ∀ other, s.Busy other → other = call) ∧
    -- a call that times out
    (∀ call s', classifierStep c texts s (.timeOut call) = some s' →
      s'.slot = s.slot ∧ s'.worker = s.worker) ∧
    -- the end of the session
    s.destroys ≤ 1 ∧
    (∀ s', classifierStep c texts s .destroy = some s' → ∀ call, ¬ s.Busy call) ∧
    (0 < s.destroys → ∀ later s', Machine.run (classifierStep c texts) s later = some s' →
      ∀ call, ¬ s'.Busy call) := by
  obtain ⟨owner, ho⟩ := fresh_owned h
  refine ⟨fun i j hi hj => ?_, ?_, fun l s' hs hslot hfree => ?_, fun call s' hs => timeOut_eq hs,
    ?_, fun s' hs call => ?_, fun hd later s' hrun call => ?_⟩
  · have hij := (ho.busy i).mp hi
    rw [(ho.busy j).mp hj] at hij
    cases hij
    rfl
  · rw [ho.slot, ho.close]
    cases owner with
    | nobody => simp [ho.busy]
    | call i => simp [ho.busy]
    | close => simp
  · obtain ⟨owner', ho', hp⟩ := classifierStep_owned ho hs
    have hne := ho.slot.mp hslot
    cases ho'.eq_nobody hfree
    cases hp with
    | keep => exact absurd rfl hne
    | release call =>
      refine ⟨call, rfl, release_delivered hs, fun other hb => ?_⟩
      have hother := (ho.busy other).mp hb
      cases hother
      rfl
  · rw [ho.destroys]
    split
    · exact Nat.le_refl 1
    · exact Nat.zero_le 1
  · cases ho.close.mp (destroy_holding hs)
    exact ho.not_busy call
  · have howns : s.closer.owns = true := by
      have hdestroys := ho.destroys
      cases hc : s.closer with
      | destroyed => rfl
      | waiting => simp only [hc] at hdestroys; omega
      | holding => rfl
      | gaveUp => simp only [hc] at hdestroys; omega
    cases ho.close.mp howns
    exact (close_owned ho hrun).not_busy call

end Runs

end Steps

/-- A model with one label of each kind. -/
def plainLabels : ModelLabels where
  injectionLabels := (· = str "INJECTION")
  safeLabels := (· = str "SAFE")
  unicode := ⟨id, id, fun a b => a = b⟩
  quote := id

/-- A call times out while the model runs for it; another one follows, and then the session ends. -/
def abandonedRun : List (ClassifierStep ℕ) :=
  [.check 0, .acquire 0, .spawn 0, .begin 0, .expire 0 (str "context deadline exceeded"), .timeOut 0,
    .check 1, .finish 0 (.panicked (str "out of memory")), .deliver 0, .release 0, .acquire 1,
    .spawn 1, .begin 1, .finish 1 (.outputs [[(str "SAFE", 1)]]), .deliver 1, .receive 1, .release 1,
    .closeTake, .destroy]

theorem inference_serialised_abandoned :
    ∃ s, Machine.run (classifierStep plainLabels fun _ => [str "hi"]) (.fresh ℕ) abandonedRun = some s ∧
      s.destroys ≤ 1 := by
  have hsome : (Machine.run (classifierStep plainLabels fun _ => [str "hi"]) (.fresh ℕ)
      abandonedRun).isSome = true := by decide +kernel
  obtain ⟨s, hs⟩ := Option.isSome_iff_exists.mp hsome
  exact ⟨s, hs, (inference_serialised hs).2.2.2.2.1⟩

end SynitWaf.Guard
