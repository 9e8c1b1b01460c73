import SynitWaf.Receiver.Model

/-!
# The requests of a tenant in a minute

`allowRequest` counts the requests of a tenant in windows of one minute. A request reads the clock
before it takes the lock, so that the times of consecutive calls need not be in order.

* `Admission`, `requestRun`: the calls of a run, with the window each of them is counted in;
* `allowRequest_spec`: what one call does;
* `WindowInv`, `WindowInv.step`: what the state knows of the calls so far;
* `RequestLog`: the order of the windows and the bound in each of them;
* **`requestLog_run`**: every run keeps it, and at times in order twice the bound holds for every
  minute.
-/

namespace SynitWaf

open Go

/-! ## Runs -/

/-- A call: its time, the start of the window it is counted in, and its answer. -/
structure Admission where
  time : ℤ
  window : ℤ
  admitted : Bool
  deriving DecidableEq

/-- One call of `allowRequest`, added to the calls so far. -/
def requestStep (requestsPerMinute : ℤ) (run : List Admission × TenantReceiverState) (now : ℤ) :
    List Admission × TenantReceiverState :=
  let allowed := allowRequest run.2 now requestsPerMinute
  (run.1 ++ [⟨now, allowed.2.windowStart.getD now, allowed.1⟩], allowed.2)

/-- The calls at these times, for a tenant without earlier ones, and the state after them. -/
def requestRun (requestsPerMinute : ℤ) (times : List ℤ) : List Admission × TenantReceiverState :=
  times.foldl (requestStep requestsPerMinute) ([], default)

/-- The calls that are admitted in a window. -/
def admittedIn (log : List Admission) (window : ℤ) : ℕ :=
  log.countP fun a => a.admitted ∧ a.window = window

/-- The calls that are admitted at a time from `start` on and before `stop`. -/
def admittedBetween (log : List Admission) (start stop : ℤ) : ℕ :=
  log.countP fun a => a.admitted ∧ start ≤ a.time ∧ a.time < stop

theorem requestRun_snoc (n : ℤ) (times : List ℤ) (now : ℤ) :
    requestRun n (times ++ [now]) = requestStep n (requestRun n times) now := by
  simp [requestRun]

/-! ## One call -/

section Call

variable {s : TenantReceiverState} {now n : ℤ}

/-- The window that a call at `now` is counted in. -/
def TenantReceiverState.windowAt (s : TenantReceiverState) (now : ℤ) : ℤ :=
  match s.windowStart with
  | none => now
  | some start => if minute ≤ now - start then now else start

/-- The calls already counted in that window. -/
def TenantReceiverState.countedAt (s : TenantReceiverState) (now : ℤ) : ℤ :=
  match s.windowStart with
  | none => 0
  | some start => if minute ≤ now - start then 0 else s.requests

variable (s now n) in
/-- **One call** opens a window if none is running, and admits the call if there is room in it. -/
theorem allowRequest_spec :
    (allowRequest s now n).1 = decide (s.countedAt now < n) ∧
    (allowRequest s now n).2.windowStart = some (s.windowAt now) ∧
    (allowRequest s now n).2.requests =
      s.countedAt now + if s.countedAt now < n then 1 else 0 := by
  obtain ⟨start, requests, usedBytes, usedKnown⟩ := s
  unfold allowRequest TenantReceiverState.windowAt TenantReceiverState.countedAt
  have hlt : ∀ counted : ℤ, counted < n ↔ ¬ n ≤ counted := fun counted => by omega
  cases start with
  | none => by_cases hfull : n ≤ 0 <;> simp [hfull, hlt]
  | some start =>
    by_cases hend : minute ≤ now - start
    · by_cases hfull : n ≤ 0 <;> simp [hfull, hend, hlt]
    · by_cases hfull : n ≤ requests <;> simp [hfull, hend, hlt]

end Call

/-! ## The state and the calls -/

/-- Of two calls, the second is counted in the window of the first or in one that starts at least a
minute later. -/
def Admission.Follows (a b : Admission) : Prop := a.window = b.window ∨ a.window + minute ≤ b.window

/-- The windows of the calls are in order, a minute or more apart, and the calls that are admitted in
any of them are bounded. -/
structure RequestLog (n : ℤ) (log : List Admission) : Prop where
  ordered : log.Pairwise Admission.Follows
  bounded : ∀ window, (admittedIn log window : ℤ) ≤ n

/-- What the state knows of the calls so far: the last window and the calls admitted in it. -/
structure WindowInv (n : ℤ) (log : List Admission) (s : TenantReceiverState) : Prop
    extends RequestLog n log where
  last : ∀ start, s.windowStart = some start → s.requests = admittedIn log start ∧
    ∀ a ∈ log, a.window = start ∨ a.window + minute ≤ start
  fresh : s.windowStart = none → log = []

section Step

variable {n : ℤ} {log : List Admission} {s : TenantReceiverState} {now : ℤ}

theorem admittedIn_snoc (a : Admission) (window : ℤ) :
    admittedIn (log ++ [a]) window =
      admittedIn log window + if a.admitted ∧ a.window = window then 1 else 0 := by
  simp [admittedIn, List.countP_append, List.countP_singleton]

theorem admittedIn_eq_zero {window : ℤ} (h : ∀ a ∈ log, a.window ≠ window) :
    admittedIn log window = 0 := by
  simpa [admittedIn, List.countP_eq_zero] using fun a ha _ => h a ha

/-- The window of the next call: it follows all others, and the state counts what was admitted in
it. -/
theorem WindowInv.windowAt (h : WindowInv n log s) (now : ℤ) :
    (∀ a ∈ log, a.window = s.windowAt now ∨ a.window + minute ≤ s.windowAt now) ∧
      s.countedAt now = admittedIn log (s.windowAt now) := by
  unfold TenantReceiverState.windowAt TenantReceiverState.countedAt
  cases hs : s.windowStart with
  | none =>
    obtain rfl := h.fresh hs
    exact ⟨nofun, rfl⟩
  | some start =>
    obtain ⟨hcount, hlast⟩ := h.last start hs
    by_cases hend : minute ≤ now - start
    · have hbefore : ∀ a ∈ log, a.window + minute ≤ now := fun a ha => by
        have hminute : 0 < minute := by decide
        obtain ha | ha := hlast a ha <;> omega
      simp only [hend, if_true]
      refine ⟨fun a ha => .inr (hbefore a ha), ?_⟩
      rw [admittedIn_eq_zero fun a ha heq => ?_]
      · rfl
      · have hminute : 0 < minute := by decide
        have := hbefore a ha
        omega
    · simp only [hend, if_false]
      exact ⟨hlast, hcount⟩

/-- **A call** keeps what the state knows. -/
theorem WindowInv.step (h : WindowInv n log s) (now : ℤ) :
    WindowInv n (requestStep n (log, s) now).1 (requestStep n (log, s) now).2 := by
  obtain ⟨hfollows, hcount⟩ := h.windowAt now
  obtain ⟨hallowed, hstart, hrequests⟩ := allowRequest_spec s now n
  have hlog : (requestStep n (log, s) now).1 =
      log ++ [⟨now, s.windowAt now, decide (s.countedAt now < n)⟩] := by
    simp [requestStep, hstart, hallowed]
  rw [hlog]
  refine ⟨⟨?_, fun window => ?_⟩, fun start hs => ?_, fun hs => ?_⟩
  · refine List.pairwise_append.mpr ⟨h.ordered, List.pairwise_singleton _ _, fun a ha b hb => ?_⟩
    rw [List.mem_singleton.mp hb]
    exact hfollows a ha
  · rw [admittedIn_snoc]
    have hbound := h.bounded window
    split
    next hnew =>
      obtain ⟨hlt, rfl⟩ := hnew
      have hlt : s.countedAt now < n := by simpa using hlt
      push_cast
      omega
    next => simpa using hbound
  · obtain rfl : s.windowAt now = start := Option.some.inj (hstart.symm.trans hs)
    refine ⟨?_, fun a ha => ?_⟩
    · change (allowRequest s now n).2.requests = _
      rw [hrequests, admittedIn_snoc, hcount]
      simp
    · rcases List.mem_append.mp ha with ha | ha
      · exact hfollows a ha
      · rw [List.mem_singleton.mp ha]
        exact .inl rfl
  · exact absurd (hstart.symm.trans hs) nofun

/-- **What the state knows in a run.** -/
theorem windowInv_run (hn : 0 ≤ n) (times : List ℤ) :
    WindowInv n (requestRun n times).1 (requestRun n times).2 := by
  induction times using List.reverseRecOn with
  | nil => exact ⟨⟨.nil, fun _ => hn⟩, nofun, fun _ => rfl⟩
  | append_singleton times now ih =>
    rw [requestRun_snoc]
    exact ih.step now

end Step

/-! ## Times in order -/

/-- At times in order a call falls into its window. -/
theorem window_of_sorted {n : ℤ} {times : List ℤ} (h : times.Pairwise (· ≤ ·)) :
    (∀ a ∈ (requestRun n times).1, a.window ≤ a.time ∧ a.time < a.window + minute) ∧
      ∀ start, (requestRun n times).2.windowStart = some start → start ∈ times := by
  have hminute : 0 < minute := by decide
  induction times using List.reverseRecOn with
  | nil => exact ⟨nofun, nofun⟩
  | append_singleton times now ih =>
    obtain ⟨hsorted, -, hle⟩ := List.pairwise_append.mp h
    obtain ⟨hin, hmem⟩ := ih hsorted
    obtain ⟨-, hstart, -⟩ := allowRequest_spec (requestRun n times).2 now n
    -- the window is that of an earlier time, or starts now
    have hwindow : (requestRun n times).2.windowAt now ≤ now ∧
        now < (requestRun n times).2.windowAt now + minute ∧
        (requestRun n times).2.windowAt now ∈ times ++ [now] := by
      unfold TenantReceiverState.windowAt
      cases hs : (requestRun n times).2.windowStart with
      | none => simpa using hminute
      | some start =>
        have hold : start ≤ now := hle start (hmem start hs) now (List.mem_singleton_self _)
        by_cases hend : minute ≤ now - start
        · simpa [hend] using hminute
        · simp only [hend, if_false]
          exact ⟨hold, by omega, List.mem_append_left _ (hmem start hs)⟩
    rw [requestRun_snoc]
    refine ⟨fun a ha => ?_, fun start hs => ?_⟩
    · rcases List.mem_append.mp ha with ha | ha
      · exact hin a ha
      · rw [List.mem_singleton.mp ha, hstart]
        exact ⟨hwindow.1, hwindow.2.1⟩
    · obtain rfl := Option.some.inj (hstart.symm.trans hs)
      exact hwindow.2.2

theorem RequestLog.countP_le {n : ℤ} {log : List Admission} (h : RequestLog n log) (hn : 0 ≤ n)
    {p : Admission → Bool} (hp : ∀ a ∈ log, p a = true → a.admitted = true)
    (hsame : ∀ a ∈ log, ∀ b ∈ log, p a = true → p b = true → a.window = b.window) :
    (log.countP p : ℤ) ≤ n := by
  by_cases hex : ∃ a ∈ log, p a = true
  · obtain ⟨a, ha, hpa⟩ := hex
    refine le_trans ?_ (h.bounded a.window)
    refine Int.ofNat_le.mpr (List.countP_mono_left fun b hb hpb => ?_)
    simpa using ⟨hp b hb hpb, hsame b hb a ha hpb hpa⟩
  · have hzero : log.countP p = 0 := List.countP_eq_zero.mpr fun a ha hpa => hex ⟨a, ha, hpa⟩
    rw [hzero]
    exact hn

/-- The windows of two calls, in any order, are the same or a minute apart. -/
def Admission.Apart (a b : Admission) : Prop :=
  a.window = b.window ∨ a.window + minute ≤ b.window ∨ b.window + minute ≤ a.window

instance : Std.Symm Admission.Apart :=
  ⟨fun _ _ h => h.elim (fun h => .inl h.symm) fun h => .inr h.symm⟩

theorem RequestLog.window_eq {n : ℤ} {log : List Admission} (h : RequestLog n log) {a b : Admission}
    (ha : a ∈ log) (hb : b ∈ log) (hab : a.window < b.window + minute)
    (hba : b.window < a.window + minute) : a.window = b.window := by
  have hapart : log.Pairwise Admission.Apart := h.ordered.imp fun h => h.imp_right .inl
  have hwindows : a.Apart b := hapart.forall_of_forall (fun _ _ => .inl rfl) ha hb
  unfold Admission.Apart at hwindows
  omega

/-- **The requests of a tenant.** Whatever times the calls of `allowRequest` are made with, the windows
never move back and start at least a minute apart, and in each of them at most `requestsPerMinute`
calls are admitted; at times in order at most twice as many are admitted in any minute. -/
theorem requestLog_run {requestsPerMinute : ℤ} (hpositive : 1 ≤ requestsPerMinute)
    (times : List ℤ) :
    RequestLog requestsPerMinute (requestRun requestsPerMinute times).1 ∧
      (times.Pairwise (· ≤ ·) → ∀ start,
        (admittedBetween (requestRun requestsPerMinute times).1 start (start + minute) : ℤ) ≤
          2 * requestsPerMinute) := by
  have hlog := (windowInv_run (n := requestsPerMinute) (by omega) times).toRequestLog
  refine ⟨hlog, fun hsorted start => ?_⟩
  have hin := (window_of_sorted (n := requestsPerMinute) hsorted).1
  set log := (requestRun requestsPerMinute times).1
  -- the window that runs at the start of the minute, and the one that starts in it
  let early := fun a : Admission =>
    decide (a.admitted ∧ start ≤ a.time ∧ a.time < start + minute ∧ a.window ≤ start)
  let late := fun a : Admission =>
    decide (a.admitted ∧ start ≤ a.time ∧ a.time < start + minute ∧ start < a.window)
  have hsplit : admittedBetween log start (start + minute) ≤ log.countP early + log.countP late := by
    rw [admittedBetween, List.countP_eq_countP_filter_add _ _ fun a => decide (a.window ≤ start),
      List.countP_filter, List.countP_filter]
    refine Nat.add_le_add (List.countP_mono_left fun a _ ha => ?_)
      (List.countP_mono_left fun a _ ha => ?_)
    · simpa [early, and_assoc] using ha
    · simpa [late, and_assoc] using ha
  have hearly : (log.countP early : ℤ) ≤ requestsPerMinute := by
    refine hlog.countP_le (by omega) (by simp +contextual [early]) fun a ha b hb hpa hpb => ?_
    simp only [early, decide_eq_true_eq] at hpa hpb
    have := hin a ha
    have := hin b hb
    exact hlog.window_eq ha hb (by omega) (by omega)
  have hlate : (log.countP late : ℤ) ≤ requestsPerMinute := by
    refine hlog.countP_le (by omega) (by simp +contextual [late]) fun a ha b hb hpa hpb => ?_
    simp only [late, decide_eq_true_eq] at hpa hpb
    have := hin a ha
    have := hin b hb
    exact hlog.window_eq ha hb (by omega) (by omega)
  omega

/-- Calls at the end of a window and at the start of the next one. -/
theorem requestLog_run_boundary :
    let run := (requestRun 2 [0, 59 * second, 60 * second, 61 * second]).1
    RequestLog 2 run ∧ (admittedBetween run (59 * second) (59 * second + minute) : ℤ) ≤ 2 * 2 := by
  obtain ⟨hlog, hminute⟩ :=
    requestLog_run (by decide : (1 : ℤ) ≤ 2) [0, 59 * second, 60 * second, 61 * second]
  exact ⟨hlog, hminute (by decide) _⟩

end SynitWaf
