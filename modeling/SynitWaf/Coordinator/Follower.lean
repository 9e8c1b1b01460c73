import SynitWaf.Coordinator.Limits
import SynitWaf.Machine

/-!
# The connection of a follower

A follower asks the leader over one connection, which it opens when it needs it and gives up after a
failure or a long pause. `Allow` holds `clientMu` until it returns; `Close` takes the connection under
this lock and closes it behind it.

* `Follower`, `AllowOutcomes`: the fields behind `clientMu`, and what other packages answer;
* `closeFollowerClientLocked`, `dialFollowerLocked`, **`Follower.allow`**; `FollowerStep`;
* `Follower.Inv`, `allow_inv`: every connection is in use, taken by `Close`, or closed once;
* **`follower_connections`**.
-/

namespace SynitWaf

open Go Machine

/-- `defaultCoordinatorIdleTimeout`. -/
def defaultCoordinatorIdleTimeout : ℤ := 30 * second

/-- The fields behind `clientMu`. Connections have numbers; `client` and `clientConn` are set together.
`next` is the number of the next connection, `closed` has a number for each call of `Close` on a
connection, and `calls` the connection of each call with the time since it was used last. -/
structure Follower where
  client : Option ℕ
  clientConn : Option ℕ
  clientLastUsed : ℤ
  clientClosed : Bool
  next : ℕ
  closed : List ℕ
  calls : List (ℕ × ℤ)
  deriving DecidableEq

/-- A follower that has not asked yet. -/
def Follower.start : Follower := ⟨none, none, 0, false, 0, [], []⟩

/-- What one call of `Allow` meets: the readings of the clock before the connection is chosen, after
dialing and after the call, and the errors of other packages. -/
structure AllowOutcomes where
  now : ℤ
  dialed : ℤ
  used : ℤ
  now_le : now ≤ dialed
  dial : Option GoString
  setDeadline : Option GoString
  call : Result Bool
  setIdleDeadline : Option GoString

/-! ## The source -/

/-- What is closed: the client if there is one, else the connection. -/
def Follower.connection (f : Follower) : Option ℕ := f.client <|> f.clientConn

/-- `closeFollowerClientLocked`. -/
def Follower.closeFollowerClientLocked (f : Follower) : Follower :=
  { f with
    client := none
    clientConn := none
    clientLastUsed := 0
    closed := f.connection.toList ++ f.closed }

/-- `dialFollowerLocked`. -/
def Follower.dialFollowerLocked (f : Follower) (o : AllowOutcomes) : Option GoString × Follower :=
  match o.dial with
  | some e => (some e, f)
  | none =>
    (none,
      { f with
        clientConn := some f.next
        client := some f.next
        clientLastUsed := o.dialed
        next := f.next + 1 })

/-- `Allow` up to the connection: one that was idle for too long is replaced. -/
def Follower.connect (f : Follower) (o : AllowOutcomes) : Option GoString × Follower :=
  let f := if f.client ≠ none ∧ defaultCoordinatorIdleTimeout ≤ o.now - f.clientLastUsed then
    f.closeFollowerClientLocked else f
  if f.client = none then f.dialFollowerLocked o else (none, f)

/-- The call goes over the connection. -/
def Follower.called (f : Follower) (now : ℤ) : Follower :=
  { f with calls := (f.client.map fun c => (c, now - f.clientLastUsed)).toList ++ f.calls }

/-- `Allow` of a follower; `net.ErrClosed` has the text of the package. -/
def Follower.allow (f : Follower) (o : AllowOutcomes) : Result Bool × Follower :=
  if f.clientClosed then (.error (str "use of closed network connection"), f)
  else
    match f.connect o with
    | (some e, f) => (.error e, f)
    | (none, f) =>
      match o.setDeadline with
      | some e => (.error e, f.closeFollowerClientLocked)
      | none =>
        let f := f.called o.now
        match o.call with
        | .error e => (.error e, f.closeFollowerClientLocked)
        | .ok allowed =>
          let f := { f with clientLastUsed := o.used }
          match o.setIdleDeadline with
          | some e => (.error e, f.closeFollowerClientLocked)
          | none => (.ok allowed, f)

/-- A follower, and the connections that calls of `Close` have taken. -/
structure FollowerRun where
  follower : Follower
  taken : List ℕ
  deriving DecidableEq

/-- The sections of `Allow` and `Close`. -/
inductive FollowerStep where
  | allow (o : AllowOutcomes)
  | takeClient
  | closeTaken

/-- One section. -/
def followerStep (s : FollowerRun) : FollowerStep → Option FollowerRun
  | .allow o => some { s with follower := (s.follower.allow o).2 }
  -- c.clientClosed = true
  | .takeClient =>
    some
      { follower :=
          { s.follower with
            clientClosed := true, client := none, clientConn := none, clientLastUsed := 0 }
        taken := s.follower.connection.toList ++ s.taken }
  | .closeTaken =>
    match s.taken with
    | c :: taken =>
      some ⟨{ s.follower with closed := c :: s.follower.closed }, taken⟩
    | [] => none

/-! ## Where the connections are -/

section Invariant

variable {f : Follower} {taken : List ℕ}

/-- Every connection is in use, taken by `Close`, or has been closed once. -/
structure Follower.Inv (f : Follower) (taken : List ℕ) : Prop where
  same : f.clientConn = f.client
  places : (f.client.toList ++ taken ++ f.closed).Perm (List.range f.next)
  gone : f.clientClosed = true → f.client = none
  recent : ∀ c ∈ f.calls, c.1 < f.next ∧ c.2 < defaultCoordinatorIdleTimeout

theorem Follower.Inv.connection_eq (h : f.Inv taken) : f.connection = f.client := by
  rw [Follower.connection, h.same]
  cases f.client <;> rfl

theorem Follower.Inv.lt_next_iff (h : f.Inv taken) {c : ℕ} :
    c < f.next ↔ f.client = some c ∨ c ∈ taken ∨ c ∈ f.closed := by
  rw [← List.mem_range, ← h.places.mem_iff]
  simp

theorem Follower.Inv.close (h : f.Inv taken) : f.closeFollowerClientLocked.Inv taken where
  same := rfl
  places := by
    refine List.Perm.trans ?_ h.places
    simp only [closeFollowerClientLocked, h.connection_eq, Option.toList_none, List.nil_append]
    rw [← List.append_assoc]
    exact List.perm_append_comm.append_right _
  gone _ := rfl
  recent := h.recent

theorem Follower.Inv.dial (h : f.Inv taken) (hopen : f.clientClosed = false) (hnone : f.client = none)
    (o : AllowOutcomes) : (f.dialFollowerLocked o).2.Inv taken := by
  unfold dialFollowerLocked
  split
  · exact h
  · refine ⟨rfl, ?_, fun hc => absurd hc (by simp [hopen]), fun c hc =>
      ⟨Nat.lt_succ_of_lt (h.recent c hc).1, (h.recent c hc).2⟩⟩
    have hplaces := h.places
    rw [hnone, Option.toList_none, List.nil_append] at hplaces
    rw [List.range_succ]
    exact (hplaces.cons f.next).trans (List.perm_append_singleton _ _).symm

theorem Follower.Inv.called (h : f.Inv taken) {now : ℤ}
    (hrecent : now - f.clientLastUsed < defaultCoordinatorIdleTimeout) : (f.called now).Inv taken where
  same := h.same
  places := h.places
  gone := h.gone
  recent c hc := by
    rcases List.mem_append.mp hc with hc | hc
    · obtain ⟨k, hk, rfl⟩ := Option.map_eq_some_iff.mp (Option.mem_toList.mp hc)
      exact ⟨h.lt_next_iff.mpr (.inl hk), hrecent⟩
    · exact h.recent c hc

theorem Follower.Inv.used (h : f.Inv taken) (used : ℤ) : { f with clientLastUsed := used }.Inv taken :=
  { h with }

/-- The connection that is chosen has been used a short time ago, or is new. -/
theorem Follower.Inv.connect (h : f.Inv taken) (hopen : f.clientClosed = false) (o : AllowOutcomes) :
    (f.connect o).2.Inv taken ∧ ((f.connect o).1 = none →
      o.now - (f.connect o).2.clientLastUsed < defaultCoordinatorIdleTimeout) := by
  have hdial {g : Follower} (hg : g.Inv taken) (hopen : g.clientClosed = false)
      (hnone : g.client = none) :
      (g.dialFollowerLocked o).2.Inv taken ∧ ((g.dialFollowerLocked o).1 = none →
        o.now - (g.dialFollowerLocked o).2.clientLastUsed < defaultCoordinatorIdleTimeout) := by
    refine ⟨hg.dial hopen hnone o, ?_⟩
    unfold dialFollowerLocked
    split
    · simp
    · intro _
      have hnow := o.now_le
      simp only [defaultCoordinatorIdleTimeout, second]
      omega
  unfold Follower.connect
  by_cases hidle : f.client ≠ none ∧ defaultCoordinatorIdleTimeout ≤ o.now - f.clientLastUsed
  · have hnone : f.closeFollowerClientLocked.client = none := rfl
    simp only [if_pos hidle, if_pos hnone]
    exact hdial h.close hopen hnone
  · simp only [if_neg hidle]
    split
    next hnone => exact hdial h hopen hnone
    next hsome =>
      exact ⟨h, fun _ => Int.not_le.mp fun hle => hidle ⟨hsome, hle⟩⟩

/-- **A call keeps the invariant.** -/
theorem Follower.Inv.allow (h : f.Inv taken) (o : AllowOutcomes) : (f.allow o).2.Inv taken := by
  unfold Follower.allow
  split
  · exact h
  next hclosed =>
  obtain ⟨hconnect, hrecent⟩ := h.connect (eq_false_of_ne_true hclosed) o
  split
  next e g hg =>
    rw [hg] at hconnect
    exact hconnect
  next g hg =>
    rw [hg] at hconnect hrecent
    have hcalled := hconnect.called (hrecent rfl)
    split
    · exact hconnect.close
    · split
      · exact hcalled.close
      · split
        · exact (hcalled.used _).close
        · exact hcalled.used _

/-- A follower that was closed does nothing any more. -/
theorem Follower.allow_closed (h : f.clientClosed = true) (o : AllowOutcomes) : (f.allow o).2 = f := by
  rw [Follower.allow, if_pos h]

end Invariant

theorem Follower.Inv.step {s s' : FollowerRun} {l : FollowerStep} (h : s.follower.Inv s.taken)
    (hl : followerStep s l = some s') : s'.follower.Inv s'.taken := by
  cases l with
  | allow o =>
    cases hl
    exact h.allow o
  | takeClient =>
    cases hl
    refine ⟨rfl, ?_, fun _ => rfl, h.recent⟩
    refine List.Perm.trans ?_ h.places
    simp only [h.connection_eq, Option.toList_none, List.nil_append]
    exact List.Perm.refl _
  | closeTaken =>
    simp only [followerStep] at hl
    split at hl
    next c taken htaken =>
      cases hl
      refine ⟨h.same, ?_, h.gone, h.recent⟩
      refine List.Perm.trans ?_ h.places
      rw [htaken]
      simp only [List.append_assoc, List.cons_append]
      exact List.Perm.append_left _ List.perm_middle
    next => cases hl

theorem Follower.Inv.start : Follower.start.Inv [] :=
  ⟨rfl, List.Perm.refl _, by simp [Follower.start], by simp [Follower.start]⟩

/-- A follower that was closed opens no connection. -/
theorem followerStep_closed {s s' : FollowerRun} {l : FollowerStep}
    (h : s.follower.clientClosed = true) (hl : followerStep s l = some s') :
    s'.follower.clientClosed = true ∧ s'.follower.next = s.follower.next := by
  cases l with
  | allow o =>
    cases hl
    dsimp only
    rw [Follower.allow_closed h]
    exact ⟨h, rfl⟩
  | takeClient =>
    cases hl
    exact ⟨rfl, rfl⟩
  | closeTaken =>
    simp only [followerStep] at hl
    split at hl <;> cases hl
    exact ⟨h, rfl⟩

/-- **The connections of a follower.** For every sequence of calls of `Allow` and sections of `Close`,
whatever the network does: no connection is closed twice, and at most one that is not on its way to be
closed by `Close` is open. No call goes over a connection that was idle for 30 seconds, after which
the leader gives it up. Once `Close` has set its flag no connection is opened any more, and all are
closed when `Close` has returned. -/
theorem follower_connections (labels : List FollowerStep) (s : FollowerRun)
    (h : run followerStep ⟨.start, []⟩ labels = some s) :
    s.follower.closed.Nodup ∧
      (∀ c < s.follower.next, c ∉ s.follower.closed → s.follower.client = some c ∨ c ∈ s.taken) ∧
      (∀ c ∈ s.follower.calls, c.1 < s.follower.next ∧ c.2 < defaultCoordinatorIdleTimeout) ∧
      (s.follower.clientClosed = true →
        (s.taken = [] → ∀ c < s.follower.next, c ∈ s.follower.closed) ∧
        ∀ labels' s', run followerStep s labels' = some s' → s'.follower.next = s.follower.next) := by
  have hinv : s.follower.Inv s.taken :=
    run_invariant (I := fun s => s.follower.Inv s.taken) .start (fun _ _ _ hI hl => hI.step hl) h
  have hnodup := hinv.places.nodup_iff.mpr List.nodup_range
  refine ⟨(List.nodup_append.mp hnodup).2.1, fun c hc hopen => ?_, hinv.recent, fun hclosed => ⟨?_, ?_⟩⟩
  · exact (hinv.lt_next_iff.mp hc).imp_right fun hc => hc.resolve_right hopen
  · intro htaken c hc
    have hplace := hinv.lt_next_iff.mp hc
    rw [hinv.gone hclosed, htaken] at hplace
    simpa using hplace
  · intro labels' s' hrun
    refine (run_invariant (I := fun s' : FollowerRun => s'.follower.clientClosed = true ∧
      s'.follower.next = s.follower.next) ⟨hclosed, rfl⟩ (fun s₁ l s₂ hI hl => ?_) hrun).2
    obtain ⟨hstays, hnext⟩ := followerStep_closed hI.1 hl
    exact ⟨hstays, hnext.trans hI.2⟩

/-- A call that dials, one that finds the connection idle and dials again, and one after `Close`. -/
def followerLabels : List FollowerStep :=
  [.allow ⟨0, 1, 2, by decide, none, none, .ok true, none⟩,
    .allow ⟨40 * second, 41 * second, 42 * second, by decide, none, none, .ok false, none⟩,
    .takeClient,
    .allow ⟨43 * second, 43 * second, 43 * second, by decide, none, none, .ok true, none⟩,
    .closeTaken]

theorem follower_connections_idle :
    ∃ s, run followerStep ⟨.start, []⟩ followerLabels = some s ∧ s.follower.next = 2 ∧
      (∀ c < s.follower.next, c ∈ s.follower.closed) ∧ s.follower.closed.Nodup := by
  have hend : (run followerStep ⟨.start, []⟩ followerLabels).map (fun s =>
      (s.follower.clientClosed, s.taken, s.follower.next)) = some (true, [], 2) := by
    decide +kernel
  obtain ⟨s, hs, heq⟩ := Option.map_eq_some_iff.mp hend
  simp only [Prod.mk.injEq] at heq
  obtain ⟨hclosed, htaken, hnext⟩ := heq
  obtain ⟨hnodup, -, -, hend⟩ := follower_connections followerLabels s hs
  exact ⟨s, hs, hnext, (hend hclosed).1 htaken, hnodup⟩

end SynitWaf
