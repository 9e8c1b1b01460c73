import Mathlib.Data.List.Perm.Basic
import Mathlib.Logic.Function.Basic
import SynitWaf.Machine

/-!
# The connections of the coordinator

The leader accepts connections in one loop and serves each of them in a goroutine of its own. A
channel bounds the number of connections, and a set of connections, under the lock of the
coordinator, lets `Close` close those that are being served. The parts run in any order; a section
under the lock is one step.

* `ConnPhase`: where a connection is, in the loop or in its goroutine;
* `ServerStep`, `serverStep`: the steps of the loop, of the goroutines and of `Close`;
* **`serverStep_cases`**: what a step can do;
* `ServerState.Inv`, **`serverStep_inv`**: the slots and the set agree with the phases;
* `Draining`: what holds behind the critical section of `Close`;
* **`connections_accounted`**: no slot and no connection gets lost.
-/

namespace SynitWaf

/-- `maxCoordinatorConnections`. -/
def maxCoordinatorConnections : ℕ := 256

/-- Where a connection is. -/
inductive ConnPhase where
  /-- Not accepted yet. -/
  | unseen
  /-- In the loop, before the slot. -/
  | pending
  /-- In the loop, without a slot and not closed yet. -/
  | refused
  /-- In the loop, with a slot, before the lock. -/
  | slotted
  /-- In the loop, with a slot that has to be given back because the server is closed. -/
  | late
  /-- In the loop, its slot given back and not closed yet. -/
  | released
  /-- In the loop and in the set, before its goroutine starts. -/
  | registered
  /-- In its goroutine, being served. -/
  | serving
  /-- In its goroutine, no longer served, before the lock. -/
  | served
  /-- In its goroutine and out of the set, before its slot is given back. -/
  | removed
  /-- In its goroutine, its slot given back and not closed yet. -/
  | freed
  /-- Neither in the loop nor in a goroutine. -/
  | done
  deriving DecidableEq

/-- Where the accept loop is. -/
inductive LoopPc (ι : Type) where
  | accepting
  | handling (conn : ι)
  | ended
  deriving DecidableEq

/-- Where `Close` is: before its critical section, before it closes the listener, or with some
connections left to close. -/
inductive ClosePc (ι : Type) where
  | idle
  | listener
  | connections (todo : List ι)
  deriving DecidableEq

/-- The state that the loop, the goroutines and `Close` share; `snapshot` is the list of
connections that `Close` took in its critical section. -/
structure ServerState (ι : Type) where
  phase : ι → ConnPhase
  isOpen : ι → Bool
  slots : ℕ
  connections : List ι
  loop : LoopPc ι
  serverClosed : Bool
  listenerOpen : Bool
  closing : ClosePc ι
  snapshot : List ι

/-- The state when the leader starts to listen. -/
def ServerState.started (ι : Type) : ServerState ι where
  phase _ := .unseen
  isOpen _ := false
  slots := 0
  connections := []
  loop := .accepting
  serverClosed := false
  listenerOpen := true
  closing := .idle
  snapshot := []

/-- The steps: of the loop, of the goroutine of a connection and of `Close`. -/
inductive ServerStep (ι : Type) where
  | accept (conn : ι)
  | acceptError
  | acceptClosed
  | takeSlot (conn : ι)
  | noSlot (conn : ι)
  | closeRefused (conn : ι)
  | register (conn : ι)
  | releaseLate (conn : ι)
  | closeLate (conn : ι)
  | spawn (conn : ι)
  | endServe (conn : ι)
  | remove (conn : ι)
  | free (conn : ι)
  | closeServed (conn : ι)
  | beginClose
  | closeListener
  | closeConnection
  deriving DecidableEq

variable {ι : Type} [DecidableEq ι]

/-- Move a connection to a phase. -/
@[simp] def ServerState.move (s : ServerState ι) (conn : ι) (phase : ConnPhase) : ServerState ι :=
  { s with phase := Function.update s.phase conn phase }

/-- `conn.Close`. -/
@[simp] def ServerState.shut (s : ServerState ι) (conn : ι) : ServerState ι :=
  { s with isOpen := Function.update s.isOpen conn false }

/-- Is the loop at a connection that is in the given phase? -/
def ServerState.handles (s : ServerState ι) (conn : ι) (phase : ConnPhase) : Bool :=
  s.loop = .handling conn && s.phase conn = phase

/-- The effect of a step, if it can be taken. -/
def serverStep (s : ServerState ι) : ServerStep ι → Option (ServerState ι)
  -- conn, err := listener.Accept()
  | .accept conn =>
    if s.loop = .accepting ∧ s.listenerOpen ∧ s.phase conn = .unseen then
      some { s.move conn .pending with
        isOpen := Function.update s.isOpen conn true
        loop := .handling conn }
    else none
  | .acceptError => if s.loop = .accepting then some s else none
  | .acceptClosed =>
    if s.loop = .accepting ∧ ¬ s.listenerOpen then some { s with loop := .ended } else none
  -- case c.connectionSlots <- struct{}{}:
  | .takeSlot conn =>
    if s.handles conn .pending ∧ s.slots < maxCoordinatorConnections then
      some { s.move conn .slotted with slots := s.slots + 1 }
    else none
  -- default:
  | .noSlot conn =>
    if s.handles conn .pending ∧ ¬ s.slots < maxCoordinatorConnections then
      some (s.move conn .refused)
    else none
  | .closeRefused conn =>
    if s.handles conn .refused then some { (s.move conn .done).shut conn with loop := .accepting }
    else none
  -- c.mu.Lock() to c.mu.Unlock()
  | .register conn =>
    if s.handles conn .slotted then
      if s.serverClosed then some (s.move conn .late)
      else some { s.move conn .registered with connections := conn :: s.connections }
    else none
  | .releaseLate conn =>
    if s.handles conn .late ∧ 0 < s.slots then
      some { s.move conn .released with slots := s.slots - 1 }
    else none
  | .closeLate conn =>
    if s.handles conn .released then some { (s.move conn .done).shut conn with loop := .ended }
    else none
  -- go func()
  | .spawn conn =>
    if s.handles conn .registered then some { s.move conn .serving with loop := .accepting }
    else none
  | .endServe conn => if s.phase conn = .serving then some (s.move conn .served) else none
  -- the deferred function
  | .remove conn =>
    if s.phase conn = .served then
      some { s.move conn .removed with connections := s.connections.filter (· ≠ conn) }
    else none
  | .free conn =>
    if s.phase conn = .removed ∧ 0 < s.slots then
      some { s.move conn .freed with slots := s.slots - 1 }
    else none
  | .closeServed conn =>
    if s.phase conn = .freed then some ((s.move conn .done).shut conn) else none
  -- the critical section of Close
  | .beginClose =>
    if s.closing = .idle then
      some { s with serverClosed := true, snapshot := s.connections, closing := .listener }
    else none
  | .closeListener =>
    if s.closing = .listener then
      some { s with listenerOpen := false, closing := .connections s.snapshot }
    else none
  | .closeConnection =>
    match s.closing with
    | .connections (conn :: todo) => some { s.shut conn with closing := .connections todo }
    | _ => none

/-! ## Phases -/

/-- Is a connection in this phase with the loop? -/
@[simp] def ConnPhase.inLoop : ConnPhase → Bool
  | .pending | .refused | .slotted | .late | .released | .registered => true
  | _ => false

/-- Does a connection in this phase have a slot? -/
@[simp] def ConnPhase.hasSlot : ConnPhase → Bool
  | .slotted | .late | .registered | .serving | .served | .removed => true
  | _ => false

/-- Is a connection in this phase in the set? -/
@[simp] def ConnPhase.inSet : ConnPhase → Bool
  | .registered | .serving | .served => true
  | _ => false

/-- Is a connection in this phase in its goroutine? -/
@[simp] def ConnPhase.inGoroutine : ConnPhase → Bool
  | .serving | .served | .removed | .freed => true
  | _ => false

/-- Is a connection in this phase with the loop and not registered? -/
@[simp] def ConnPhase.unregistered : ConnPhase → Bool
  | .pending | .refused | .slotted | .late | .released => true
  | _ => false

/-- Has a connection in this phase not come to a slot? -/
@[simp] def ConnPhase.beforeSlot : ConnPhase → Bool
  | .unseen | .pending | .refused => true
  | _ => false

/-- The phases behind a phase. -/
@[simp] def ConnPhase.next : ConnPhase → List ConnPhase
  | .unseen => [.pending]
  | .pending => [.slotted, .refused]
  | .refused => [.done]
  | .slotted => [.late, .registered]
  | .late => [.released]
  | .released => [.done]
  | .registered => [.serving]
  | .serving => [.served]
  | .served => [.removed]
  | .removed => [.freed]
  | .freed => [.done]
  | .done => []

/-- Does the step take a slot for the connection? -/
def ServerStep.takes (l : ServerStep ι) (conn : ι) : Bool := l = .takeSlot conn

/-- Does the step give the slot of the connection back? -/
def ServerStep.gives (l : ServerStep ι) (conn : ι) : Bool := l = .releaseLate conn || l = .free conn

/-! ## What a step can do -/

/-- The step `l` moves one connection from phase `p` to phase `q`. -/
structure Moves (s s' : ServerState ι) (l : ServerStep ι) (conn : ι) (p q : ConnPhase) : Prop where
  before : s.phase conn = p
  next : q ∈ p.next
  phase : s'.phase = Function.update s.phase conn q
  loop : if p.inLoop || q.inLoop then
      (p.inLoop = false → s.loop = .accepting) ∧
        if q.inLoop then s'.loop = .handling conn else s'.loop = .accepting ∨ s'.loop = .ended
    else s'.loop = s.loop
  slots : s'.slots + p.hasSlot.toNat = s.slots + q.hasSlot.toNat
  bound : q = .slotted → s.slots < maxCoordinatorConnections
  takes : ∀ c, l.takes c = true ↔ conn = c ∧ q = .slotted
  gives : ∀ c, l.gives c = true ↔ conn = c ∧ (q = .released ∨ q = .freed)
  set : s'.connections =
    if q = .registered then conn :: s.connections
    else if q = .removed then s.connections.filter (· ≠ conn) else s.connections
  register : q = .registered → s.serverClosed = false
  others : ∀ c, c ≠ conn → s'.isOpen c = s.isOpen c
  shut : q = .done → s'.isOpen conn = false
  same : p ≠ .unseen → s.isOpen conn = false → s'.isOpen conn = false
  closing : s'.closing = s.closing
  serverClosed : s'.serverClosed = s.serverClosed
  snapshot : s'.snapshot = s.snapshot

/-- The step is one of the listener or of `Close`: the phases, the slots and the set stay. -/
structure Stays (s s' : ServerState ι) (l : ServerStep ι) : Prop where
  phase : s'.phase = s.phase
  slots : s'.slots = s.slots
  connections : s'.connections = s.connections
  takes : ∀ c, l.takes c = false
  gives : ∀ c, l.gives c = false
  loop : s'.loop = s.loop ∨ (s.loop = .accepting ∧ s'.loop = .ended)
  shut : ∀ c, s.isOpen c = false → s'.isOpen c = false
  closing : (s'.closing = s.closing ∧ s'.serverClosed = s.serverClosed ∧
      s'.snapshot = s.snapshot ∧ s'.isOpen = s.isOpen) ∨
    (s.closing = .idle ∧ s'.closing = .listener ∧ s'.serverClosed = true ∧
      s'.snapshot = s.connections) ∨
    (s.closing = .listener ∧ s'.closing = .connections s.snapshot ∧
      s'.serverClosed = s.serverClosed ∧ s'.snapshot = s.snapshot) ∨
    ∃ conn todo, s.closing = .connections (conn :: todo) ∧ s'.closing = .connections todo ∧
      s'.serverClosed = s.serverClosed ∧ s'.snapshot = s.snapshot ∧ s'.isOpen conn = false

theorem handles_iff {s : ServerState ι} {conn : ι} {phase : ConnPhase} :
    s.handles conn phase = true ↔ s.loop = .handling conn ∧ s.phase conn = phase := by
  simp [ServerState.handles]

/-- **A step moves one connection** to its next phase, or it is one of the listener or of `Close`. -/
theorem serverStep_cases {s s' : ServerState ι} {l : ServerStep ι}
    (h : serverStep s l = some s') : (∃ conn p q, Moves s s' l conn p q) ∨ Stays s s' l := by
  cases l with
  | accept conn =>
    obtain ⟨⟨hl, -, hp⟩, heq⟩ := Option.ite_none_right_eq_some.mp h
    cases heq
    clear h
    exact .inl ⟨conn, .unseen, .pending, by
      constructor <;> simp_all [ServerStep.takes, ServerStep.gives]⟩
  | takeSlot conn =>
    obtain ⟨⟨hh, hlt⟩, heq⟩ := Option.ite_none_right_eq_some.mp h
    obtain ⟨hl, hp⟩ := handles_iff.mp hh
    cases heq
    clear h
    exact .inl ⟨conn, .pending, .slotted, by
      constructor <;> simp_all [ServerStep.takes, ServerStep.gives]⟩
  | noSlot conn =>
    obtain ⟨⟨hh, -⟩, heq⟩ := Option.ite_none_right_eq_some.mp h
    obtain ⟨hl, hp⟩ := handles_iff.mp hh
    cases heq
    clear h
    exact .inl ⟨conn, .pending, .refused, by
      constructor <;> simp_all [ServerStep.takes, ServerStep.gives]⟩
  | closeRefused conn =>
    obtain ⟨hh, heq⟩ := Option.ite_none_right_eq_some.mp h
    obtain ⟨hl, hp⟩ := handles_iff.mp hh
    cases heq
    clear h
    exact .inl ⟨conn, .refused, .done, by
      constructor <;> simp_all [ServerStep.takes, ServerStep.gives]⟩
  | releaseLate conn =>
    obtain ⟨⟨hh, hpos⟩, heq⟩ := Option.ite_none_right_eq_some.mp h
    obtain ⟨hl, hp⟩ := handles_iff.mp hh
    cases heq
    clear h
    exact .inl ⟨conn, .late, .released, by
      constructor <;> simp_all [ServerStep.takes, ServerStep.gives]; omega⟩
  | closeLate conn =>
    obtain ⟨hh, heq⟩ := Option.ite_none_right_eq_some.mp h
    obtain ⟨hl, hp⟩ := handles_iff.mp hh
    cases heq
    clear h
    exact .inl ⟨conn, .released, .done, by
      constructor <;> simp_all [ServerStep.takes, ServerStep.gives]⟩
  | spawn conn =>
    obtain ⟨hh, heq⟩ := Option.ite_none_right_eq_some.mp h
    obtain ⟨hl, hp⟩ := handles_iff.mp hh
    cases heq
    clear h
    exact .inl ⟨conn, .registered, .serving, by
      constructor <;> simp_all [ServerStep.takes, ServerStep.gives]⟩
  | endServe conn =>
    obtain ⟨hp, heq⟩ := Option.ite_none_right_eq_some.mp h
    cases heq
    clear h
    exact .inl ⟨conn, .serving, .served, by
      constructor <;> simp_all [ServerStep.takes, ServerStep.gives]⟩
  | remove conn =>
    obtain ⟨hp, heq⟩ := Option.ite_none_right_eq_some.mp h
    cases heq
    clear h
    exact .inl ⟨conn, .served, .removed, by
      constructor <;> simp_all [ServerStep.takes, ServerStep.gives]⟩
  | free conn =>
    obtain ⟨⟨hp, hpos⟩, heq⟩ := Option.ite_none_right_eq_some.mp h
    cases heq
    clear h
    exact .inl ⟨conn, .removed, .freed, by
      constructor <;> simp_all [ServerStep.takes, ServerStep.gives]; omega⟩
  | closeServed conn =>
    obtain ⟨hp, heq⟩ := Option.ite_none_right_eq_some.mp h
    cases heq
    clear h
    exact .inl ⟨conn, .freed, .done, by
      constructor <;> simp_all [ServerStep.takes, ServerStep.gives]⟩
  | register conn =>
    obtain ⟨hh, heq⟩ := Option.ite_none_right_eq_some.mp h
    obtain ⟨hl, hp⟩ := handles_iff.mp hh
    clear h
    split at heq
    next hclosed =>
      cases heq
      exact .inl ⟨conn, .slotted, .late, by
        constructor <;> simp_all [ServerStep.takes, ServerStep.gives]⟩
    next hclosed =>
      cases heq
      exact .inl ⟨conn, .slotted, .registered, by
        constructor <;> simp_all [ServerStep.takes, ServerStep.gives]⟩
  | acceptError =>
    obtain ⟨hl, heq⟩ := Option.ite_none_right_eq_some.mp h
    cases heq
    exact .inr (by constructor <;> simp_all [ServerStep.takes, ServerStep.gives])
  | acceptClosed =>
    obtain ⟨⟨hl, -⟩, heq⟩ := Option.ite_none_right_eq_some.mp h
    cases heq
    clear h
    exact .inr (by constructor <;> simp_all [ServerStep.takes, ServerStep.gives])
  | beginClose =>
    obtain ⟨hc, heq⟩ := Option.ite_none_right_eq_some.mp h
    cases heq
    clear h
    exact .inr (by constructor <;> simp_all [ServerStep.takes, ServerStep.gives])
  | closeListener =>
    obtain ⟨hc, heq⟩ := Option.ite_none_right_eq_some.mp h
    cases heq
    clear h
    exact .inr (by constructor <;> simp_all [ServerStep.takes, ServerStep.gives])
  | closeConnection =>
    simp only [serverStep] at h
    split at h
    next conn todo hc =>
      cases h
      refine .inr ⟨rfl, rfl, rfl, ?_, ?_, .inl rfl, ?_, ?_⟩
      · simp [ServerStep.takes]
      · simp [ServerStep.gives]
      · intro c hc
        by_cases hcc : c = conn <;> simp_all
      · exact .inr (.inr (.inr ⟨conn, todo, hc, rfl, rfl, rfl, by simp⟩))
    next => cases h

/-! ## The invariant -/

section Phases

variable {p q : ConnPhase}

/-- A move takes a slot, gives it back or leaves it as it is. -/
theorem ConnPhase.slot_of_next (h : q ∈ p.next) :
    (q = .slotted ∧ p.hasSlot = false ∧ p.beforeSlot = true) ∨
      ((q = .released ∨ q = .freed) ∧ p.hasSlot = true) ∨
      ((q ≠ .slotted ∧ q ≠ .released ∧ q ≠ .freed) ∧ q.hasSlot = p.hasSlot ∧
        (q.beforeSlot = true → p.beforeSlot = true)) := by
  revert q
  cases p <;> decide

theorem ConnPhase.eq_slotted (h : q ∈ p.next) (hp : p.hasSlot = false) (hq : q.hasSlot = true) :
    q = .slotted := by
  revert hp q
  cases p <;> decide

theorem ConnPhase.inSet_of_next (h : q ∈ p.next) (hq : q ≠ .registered) (hq' : q ≠ .removed) :
    q.inSet = p.inSet := by
  revert q
  cases p <;> decide

theorem ConnPhase.owned_of_next (h : q ∈ p.next) (hq : q ≠ .done) :
    q.inLoop = true ∨ q.inGoroutine = true := by
  revert q
  cases p <;> decide

theorem ConnPhase.ne_unseen_of_next (h : q ∈ p.next) : q ≠ .unseen := by
  revert q
  cases p <;> decide

theorem ConnPhase.unregistered_of_next (h : q ∈ p.next) (hp : p.unregistered = true)
    (hq : q ≠ .registered) : q.unregistered = true ∨ q = .done := by
  revert hp q
  cases p <;> decide

theorem ConnPhase.inLoop_of_unregistered (h : p.unregistered = true) : p.inLoop = true := by
  revert h
  cases p <;> decide

theorem ConnPhase.eq_unseen_or_done (hl : p.inLoop = false) (hg : p.inGoroutine = false) :
    p = .unseen ∨ p = .done := by
  revert hl hg
  cases p <;> decide

end Phases

/-- The loop, the slots, the set, the open connections and `Close` agree with the phases. -/
structure ServerState.Inv (s : ServerState ι) : Prop where
  loop : ∀ conn, (s.phase conn).inLoop = true ↔ s.loop = .handling conn
  slots_le : s.slots ≤ maxCoordinatorConnections
  holders : ∃ l : List ι, l.Nodup ∧ l.length = s.slots ∧
    ∀ conn, conn ∈ l ↔ (s.phase conn).hasSlot = true
  set : ∀ conn, conn ∈ s.connections ↔ (s.phase conn).inSet = true
  opened : ∀ conn, s.isOpen conn = true →
    (s.phase conn).inLoop = true ∨ (s.phase conn).inGoroutine = true
  idle : s.serverClosed = false ↔ s.closing = .idle
  snapshot : s.serverClosed = true → ∀ conn ∈ s.connections, conn ∈ s.snapshot
  seen : ∀ conn ∈ s.snapshot, s.phase conn ≠ .unseen
  closed : ∀ todo, s.closing = .connections todo →
    ∀ conn ∈ s.snapshot, conn ∈ todo ∨ s.isOpen conn = false

omit [DecidableEq ι] in
theorem ServerState.Inv.started : (ServerState.started ι).Inv := by
  constructor <;> simp [ServerState.started, maxCoordinatorConnections]

section Moves

variable {s s' : ServerState ι} {l : ServerStep ι} {conn : ι} {p q : ConnPhase}

theorem Moves.takes_self (h : Moves s s' l conn p q) : l.takes conn = decide (q = .slotted) := by
  rw [Bool.eq_iff_iff, h.takes, decide_eq_true_iff, and_iff_right rfl]

theorem Moves.gives_self (h : Moves s s' l conn p q) :
    l.gives conn = decide (q = .released ∨ q = .freed) := by
  rw [Bool.eq_iff_iff, h.gives, decide_eq_true_iff, and_iff_right rfl]

/-- The phase behind a move. -/
theorem Moves.phase_eq (h : Moves s s' l conn p q) (c : ι) :
    s'.phase c = if c = conn then q else s.phase c := by
  rw [h.phase, Function.update_apply]

theorem Moves.loop_inv (h : Moves s s' l conn p q) (hi : s.Inv) (c : ι) :
    (s'.phase c).inLoop = true ↔ s'.loop = .handling c := by
  have hloop := h.loop
  have hconn := hi.loop conn
  have hc := hi.loop c
  rw [h.before] at hconn
  rw [h.phase_eq]
  cases hp : p.inLoop <;> cases hq : q.inLoop <;> simp only [hp, hq] at hloop hconn <;>
    by_cases hcc : c = conn <;> grind

/-- A connection joins the set only while the server is open. -/
theorem Moves.set_subset (h : Moves s s' l conn p q) (hc : s.serverClosed = true) {c : ι}
    (hmem : c ∈ s'.connections) : c ∈ s.connections := by
  have hq : q ≠ .registered := fun hq => by
    rw [h.register hq] at hc
    cases hc
  rw [h.set, if_neg hq] at hmem
  split at hmem
  · exact (List.mem_filter.mp hmem).1
  · exact hmem

theorem Moves.set_inv (h : Moves s s' l conn p q) (hi : s.Inv) (c : ι) :
    c ∈ s'.connections ↔ (s'.phase c).inSet = true := by
  have hset := hi.set c
  rw [h.set, h.phase_eq]
  by_cases hreg : q = .registered
  · rw [if_pos hreg, List.mem_cons, hset]
    by_cases hcc : c = conn
    · simp [hcc, hreg]
    · simp [hcc]
  rw [if_neg hreg]
  by_cases hrem : q = .removed
  · rw [if_pos hrem, List.mem_filter, hset]
    by_cases hcc : c = conn
    · simp [hcc, hrem]
    · simp [hcc]
  rw [if_neg hrem]
  by_cases hcc : c = conn
  · rw [if_pos hcc, ConnPhase.inSet_of_next h.next hreg hrem, ← h.before, ← hcc]
    exact hset
  · rw [if_neg hcc]
    exact hset

theorem Moves.holders_inv (h : Moves s s' l conn p q) (hi : s.Inv) :
    ∃ l : List ι, l.Nodup ∧ l.length = s'.slots ∧
      ∀ c, c ∈ l ↔ (s'.phase c).hasSlot = true := by
  obtain ⟨l, hnodup, hlen, hl⟩ := hi.holders
  have hslots := h.slots
  have hconn := hl conn
  rw [h.before] at hconn
  have hmem : ∀ c, c ≠ conn → (c ∈ l ↔ (s'.phase c).hasSlot = true) := by
    intro c hc
    rw [h.phase_eq, if_neg hc]
    exact hl c
  have hself : (s'.phase conn).hasSlot = q.hasSlot := by rw [h.phase_eq, if_pos rfl]
  by_cases hsame : p.hasSlot = q.hasSlot
  · rw [hsame, Nat.add_right_cancel_iff] at hslots
    refine ⟨l, hnodup, hlen.trans hslots.symm, fun c => ?_⟩
    by_cases hc : c = conn
    · rw [hc, hself, hconn, hsame]
    · exact hmem c hc
  cases hp : p.hasSlot with
  | false =>
    -- the connection takes a slot
    have hq : q.hasSlot = true := by
      rw [hp] at hsame
      exact eq_true_of_ne_false fun hq => hsame hq.symm
    rw [hp] at hconn hslots
    rw [hq] at hslots
    refine ⟨conn :: l, List.nodup_cons.mpr ⟨fun hin => by simpa using hconn.mp hin, hnodup⟩, ?_,
      fun c => ?_⟩
    · rw [List.length_cons, hlen]
      simpa using hslots.symm
    · by_cases hc : c = conn
      · rw [hc, hself, hq]
        simp
      · rw [List.mem_cons, hmem c hc]
        simp [hc]
  | true =>
    -- the connection gives its slot back
    have hq : q.hasSlot = false := by
      rw [hp] at hsame
      exact eq_false_of_ne_true fun hq => hsame hq.symm
    rw [hp] at hconn hslots
    rw [hq] at hslots
    refine ⟨l.erase conn, hnodup.erase conn, ?_, fun c => ?_⟩
    · rw [List.length_erase_of_mem (hconn.mpr rfl), hlen]
      simp at hslots
      omega
    · rw [hnodup.mem_erase_iff]
      by_cases hc : c = conn
      · rw [hc, hself, hq]
        simp
      · rw [hmem c hc]
        simp [hc]

theorem Moves.slots_inv (h : Moves s s' l conn p q) (hi : s.Inv) :
    s'.slots ≤ maxCoordinatorConnections := by
  have hle := hi.slots_le
  have hslots := h.slots
  cases hp : p.hasSlot <;> cases hq : q.hasSlot <;> simp only [hp, hq, Bool.toNat_false,
    Bool.toNat_true] at hslots
  · omega
  · have hlt := h.bound (ConnPhase.eq_slotted h.next hp hq)
    omega
  · omega
  · omega

theorem Moves.inv (h : Moves s s' l conn p q) (hi : s.Inv) : s'.Inv where
  loop := h.loop_inv hi
  slots_le := h.slots_inv hi
  holders := h.holders_inv hi
  set := h.set_inv hi
  opened c hopen := by
    rw [h.phase_eq]
    by_cases hc : c = conn
    · rw [if_pos hc]
      refine ConnPhase.owned_of_next h.next fun hq => ?_
      rw [hc, h.shut hq] at hopen
      cases hopen
    · rw [if_neg hc]
      rw [h.others c hc] at hopen
      exact hi.opened c hopen
  idle := by rw [h.serverClosed, h.closing]; exact hi.idle
  snapshot hc c hmem := by
    rw [h.serverClosed] at hc
    rw [h.snapshot]
    exact hi.snapshot hc c (h.set_subset hc hmem)
  seen c hmem := by
    rw [h.snapshot] at hmem
    rw [h.phase_eq]
    split
    · exact ConnPhase.ne_unseen_of_next h.next
    · exact hi.seen c hmem
  closed todo htodo c hmem := by
    rw [h.closing] at htodo
    rw [h.snapshot] at hmem
    refine (hi.closed todo htodo c hmem).imp_right fun hclosed => ?_
    by_cases hc : c = conn
    · subst hc
      exact h.same (h.before ▸ hi.seen c hmem) hclosed
    · rw [h.others c hc]
      exact hclosed

theorem Stays.inv (h : Stays s s' l) (hi : s.Inv) : s'.Inv where
  loop c := by
    have hloop := hi.loop c
    rw [h.phase]
    rcases h.loop with heq | ⟨heq, heq'⟩
    · rw [heq]
      exact hloop
    · rw [heq] at hloop
      rw [heq', hloop]
      simp
  slots_le := h.slots ▸ hi.slots_le
  holders := by rw [h.slots, h.phase]; exact hi.holders
  set := by rw [h.connections, h.phase]; exact hi.set
  opened c hopen := by
    rw [h.phase]
    refine hi.opened c ?_
    cases ho : s.isOpen c with
    | true => rfl
    | false => rw [h.shut c ho] at hopen; cases hopen
  idle := by
    have hidle := hi.idle
    rcases h.closing with ⟨hc, hs, -⟩ | ⟨-, hc, hs, -⟩ | ⟨hc', hc, hs, -⟩ | ⟨_, _, hc', hc, hs, -⟩
    · rw [hs, hc]
      exact hidle
    · simp [hs, hc]
    · rw [hs, hidle, hc, hc']
      simp
    · rw [hs, hidle, hc, hc']
      simp
  snapshot hclosed c hmem := by
    rw [h.connections] at hmem
    rcases h.closing with ⟨-, hs, hn, -⟩ | ⟨-, -, -, hn⟩ | ⟨-, -, hs, hn⟩ | ⟨_, _, -, -, hs, hn, -⟩
    · rw [hn]
      exact hi.snapshot (hs ▸ hclosed) c hmem
    · rw [hn]
      exact hmem
    · rw [hn]
      exact hi.snapshot (hs ▸ hclosed) c hmem
    · rw [hn]
      exact hi.snapshot (hs ▸ hclosed) c hmem
  seen c hmem := by
    rw [h.phase]
    rcases h.closing with ⟨-, -, hn, -⟩ | ⟨-, -, -, hn⟩ | ⟨-, -, -, hn⟩ | ⟨_, _, -, -, -, hn, -⟩
    · exact hi.seen c (hn ▸ hmem)
    · rw [hn, hi.set] at hmem
      intro hu
      rw [hu] at hmem
      cases hmem
    · exact hi.seen c (hn ▸ hmem)
    · exact hi.seen c (hn ▸ hmem)
  closed todo htodo c hmem := by
    rcases h.closing with ⟨hc, -, hn, ho⟩ | ⟨-, hc, -⟩ | ⟨-, hc, -, hn⟩ |
      ⟨conn, todo', hc', hc, -, hn, hshut⟩
    · rw [ho]
      exact hi.closed todo (hc ▸ htodo) c (hn ▸ hmem)
    · rw [hc] at htodo
      cases htodo
    · rw [hc] at htodo
      cases htodo
      exact .inl (hn ▸ hmem)
    · rw [hc] at htodo
      cases htodo
      rcases hi.closed _ hc' c (hn ▸ hmem) with hin | hclosed
      · rcases List.mem_cons.mp hin with rfl | hin
        · exact .inr hshut
        · exact .inl hin
      · exact .inr (h.shut c hclosed)

/-- **A step keeps the invariant.** -/
theorem serverStep_inv (hi : s.Inv) (h : serverStep s l = some s') : s'.Inv := by
  rcases serverStep_cases h with ⟨conn, p, q, hm⟩ | hs
  · exact hm.inv hi
  · exact hs.inv hi

end Moves

/-! ## Runs -/

section Runs

variable {s s' : ServerState ι} {labels : List (ServerStep ι)}

theorem started_inv (h : Machine.run serverStep (.started ι) labels = some s) : s.Inv :=
  Machine.run_invariant .started (fun _ _ _ hi hl => serverStep_inv hi hl) h

/-- A slot is taken for a connection at most once, and given back at most once. -/
def Counted (conn : ι) (labels : List (ServerStep ι)) (s : ServerState ι) : Prop :=
  labels.countP (·.takes conn) = labels.countP (·.gives conn) + (s.phase conn).hasSlot.toNat ∧
    labels.countP (·.takes conn) ≤ 1 ∧
    ((s.phase conn).beforeSlot = true → labels.countP (·.takes conn) = 0)

theorem counted_step {conn : ι} {l : ServerStep ι} (hc : Counted conn labels s)
    (h : serverStep s l = some s') : Counted conn (labels ++ [l]) s' := by
  obtain ⟨hslot, hle, hearly⟩ := hc
  unfold Counted
  rw [List.countP_append, List.countP_append, List.countP_singleton, List.countP_singleton]
  rcases serverStep_cases h with ⟨c, p, q, hm⟩ | hs
  · by_cases hcc : conn = c
    · subst hcc
      have hself : s'.phase conn = q := by rw [hm.phase_eq, if_pos rfl]
      rw [hm.before] at hslot hearly
      rw [hself, hm.takes_self, hm.gives_self]
      obtain ⟨rfl, hp, hbefore⟩ | ⟨hq, hp⟩ | ⟨⟨hs, hr, hf⟩, hsame, hbefore⟩ :=
        ConnPhase.slot_of_next hm.next
      · -- the first slot
        rw [hearly hbefore, hp] at hslot
        rw [hearly hbefore]
        exact ⟨congrArg (· + 1) hslot, Nat.le_refl 1, nofun⟩
      · rw [hp] at hslot
        obtain rfl | rfl := hq
        · exact ⟨hslot, hle, nofun⟩
        · exact ⟨hslot, hle, nofun⟩
      · rw [decide_eq_false hs, decide_eq_false (not_or.mpr ⟨hr, hf⟩), hsame]
        exact ⟨hslot, hle, fun hq => hearly (hbefore hq)⟩
    · have htakes : l.takes conn = false := by
        rw [Bool.eq_false_iff]
        intro ht
        exact hcc ((hm.takes conn).mp ht).1.symm
      have hgives : l.gives conn = false := by
        rw [Bool.eq_false_iff]
        intro ht
        exact hcc ((hm.gives conn).mp ht).1.symm
      rw [htakes, hgives, hm.phase_eq, if_neg hcc]
      exact ⟨hslot, hle, hearly⟩
  · rw [hs.takes conn, hs.gives conn, hs.phase]
    exact ⟨hslot, hle, hearly⟩

theorem counted (conn : ι) (h : Machine.run serverStep (.started ι) labels = some s) :
    Counted conn labels s :=
  Machine.run_induction (P := Counted conn) ⟨rfl, Nat.zero_le _, fun _ => rfl⟩
    (fun _ _ _ _ _ hc hl => counted_step hc hl) h

/-- Behind the critical section of `Close`: no connection joins the set, the list that `Close` took
stays, and the loop closes a connection that it has not registered. -/
structure Draining (s s' : ServerState ι) : Prop where
  inv : s'.Inv
  serverClosed : s'.serverClosed = true
  connections : ∀ conn ∈ s'.connections, conn ∈ s.connections
  snapshot : s'.snapshot = s.snapshot
  unregistered : ∀ conn, (s.phase conn).unregistered = true →
    (s'.phase conn).unregistered = true ∨ (s'.phase conn = .done ∧ s'.isOpen conn = false)

omit [DecidableEq ι] in
theorem Draining.refl (hi : s.Inv) (hc : s.serverClosed = true) : Draining s s :=
  ⟨hi, hc, fun _ h => h, rfl, fun _ h => .inl h⟩

theorem Draining.step {s₂ : ServerState ι} {l : ServerStep ι} (h : Draining s s')
    (hl : serverStep s' l = some s₂) : Draining s s₂ := by
  have hi := serverStep_inv h.inv hl
  rcases serverStep_cases hl with ⟨c, p, q, hm⟩ | hs
  · refine ⟨hi, hm.serverClosed.trans h.serverClosed, fun conn hmem => ?_,
      hm.snapshot.trans h.snapshot, fun conn hu => ?_⟩
    · exact h.connections conn (hm.set_subset h.serverClosed hmem)
    · rw [hm.phase_eq]
      by_cases hcc : conn = c
      · subst hcc
        rw [if_pos rfl]
        have hp := h.unregistered conn hu
        have hreg : q ≠ .registered := fun hq => by
          have hopen := hm.register hq
          rw [h.serverClosed] at hopen
          cases hopen
        rw [hm.before] at hp
        obtain hp | ⟨rfl, -⟩ := hp
        · exact (ConnPhase.unregistered_of_next hm.next hp hreg).imp_right fun hq => ⟨hq, hm.shut hq⟩
        · exact absurd hm.next List.not_mem_nil
      · rw [if_neg hcc, hm.others conn hcc]
        exact h.unregistered conn hu
  · have hclosing : s'.closing ≠ .idle := fun hidle => by
      have hopen := h.inv.idle.mpr hidle
      rw [h.serverClosed] at hopen
      cases hopen
    refine ⟨hi, ?_, fun conn hmem => ?_, ?_, fun conn hu => ?_⟩
    · rcases hs.closing with ⟨-, hc, -⟩ | ⟨-, -, hc, -⟩ | ⟨-, -, hc, -⟩ | ⟨_, _, -, -, hc, -⟩
      · exact hc.trans h.serverClosed
      · exact hc
      · exact hc.trans h.serverClosed
      · exact hc.trans h.serverClosed
    · exact h.connections conn (hs.connections ▸ hmem)
    · rcases hs.closing with ⟨-, -, hn, -⟩ | ⟨hidle, -⟩ | ⟨-, -, -, hn⟩ | ⟨_, _, -, -, -, hn, -⟩
      · exact hn.trans h.snapshot
      · exact absurd hidle hclosing
      · exact hn.trans h.snapshot
      · exact hn.trans h.snapshot
    · rw [hs.phase]
      exact (h.unregistered conn hu).imp_right fun hd => ⟨hd.1, hs.shut conn hd.2⟩

theorem draining (hi : s.Inv) (hc : s.serverClosed = true)
    (h : Machine.run serverStep s labels = some s') : Draining s s' :=
  Machine.run_invariant (I := Draining s) (.refl hi hc) (fun _ _ _ hd hl => hd.step hl) h

theorem beginClose_eq (h : serverStep s .beginClose = some s') :
    s'.serverClosed = true ∧ s'.snapshot = s.connections := by
  obtain ⟨-, heq⟩ := Option.ite_none_right_eq_some.mp h
  cases heq
  exact ⟨rfl, rfl⟩

/-- **The connections are accounted for**, in every run of the loop, the goroutines and `Close`. -/
theorem connections_accounted {labels : List (ServerStep ι)} {s : ServerState ι}
    (h : Machine.run serverStep (.started ι) labels = some s) :
    -- the connections that are being served
    (∀ served : List ι, served.Nodup → (∀ conn ∈ served, s.phase conn = .serving) →
      served.length ≤ maxCoordinatorConnections) ∧
    -- the slots that were taken and given back
    (∀ conn, labels.countP (·.takes conn) ≤ 1 ∧
      labels.countP (·.takes conn) =
        labels.countP (·.gives conn) + (s.phase conn).hasSlot.toNat) ∧
    -- the loop and the goroutines have ended
    (s.loop = .ended → (∀ conn, (s.phase conn).inGoroutine = false) →
      s.slots = 0 ∧ s.connections = [] ∧ ∀ conn, s.isOpen conn = false) ∧
    -- the critical section of `Close` is over
    (s.serverClosed = true → ∀ later s', Machine.run serverStep s later = some s' →
      (∀ conn ∈ s'.connections, conn ∈ s.connections) ∧
        ∀ conn, (s.phase conn).unregistered = true →
          s'.loop = .handling conn ∨ s'.isOpen conn = false) ∧
    -- `Close` has returned
    (∀ s₁ later s₂, serverStep s .beginClose = some s₁ →
      Machine.run serverStep s₁ later = some s₂ → s₂.closing = .connections [] →
        ∀ conn ∈ s.connections, s₂.isOpen conn = false) ∧
    -- an open connection is with the loop or in its goroutine
    ∀ conn, s.isOpen conn = true → s.loop = .handling conn ∨ (s.phase conn).inGoroutine = true := by
  have hi := started_inv h
  obtain ⟨l, hnodup, hlen, hl⟩ := hi.holders
  refine ⟨fun served hs hserving => ?_, fun conn => ?_, fun hended hgo => ?_,
    fun hclosed later s' hrun => ?_, fun s₁ later s₂ hbegin hrun hdone conn hmem => ?_,
    fun conn hopen => ?_⟩
  · have hsub : served ⊆ l := fun conn hconn => (hl conn).mpr (by rw [hserving conn hconn]; rfl)
    have hle := (List.subperm_of_subset hs hsub).length_le
    exact Nat.le_trans hle (hlen ▸ hi.slots_le)
  · obtain ⟨hslot, hle, -⟩ := counted conn h
    exact ⟨hle, hslot⟩
  · have hnone : ∀ conn, (s.phase conn).inLoop = false := by
      intro conn
      rw [Bool.eq_false_iff]
      intro hin
      rw [(hi.loop conn).mp hin] at hended
      cases hended
    have hphase : ∀ conn, s.phase conn = .unseen ∨ s.phase conn = .done := fun conn =>
      ConnPhase.eq_unseen_or_done (hnone conn) (hgo conn)
    refine ⟨?_, ?_, fun conn => ?_⟩
    · rw [← hlen, List.length_eq_zero_iff, List.eq_nil_iff_forall_not_mem]
      intro conn hconn
      rw [hl] at hconn
      rcases hphase conn with hp | hp <;> rw [hp] at hconn <;> cases hconn
    · rw [List.eq_nil_iff_forall_not_mem]
      intro conn hconn
      rw [hi.set] at hconn
      rcases hphase conn with hp | hp <;> rw [hp] at hconn <;> cases hconn
    · rw [Bool.eq_false_iff]
      intro hopen
      rcases hi.opened conn hopen with hin | hin
      · rw [hnone conn] at hin
        cases hin
      · rw [hgo conn] at hin
        cases hin
  · have hd := draining hi hclosed hrun
    refine ⟨hd.connections, fun conn hu => ?_⟩
    exact (hd.unregistered conn hu).imp
      (fun hu' => (hd.inv.loop conn).mp (ConnPhase.inLoop_of_unregistered hu')) fun hdone => hdone.2
  · have hb := beginClose_eq hbegin
    have hd := draining (serverStep_inv hi hbegin) hb.1 hrun
    have hin : conn ∈ s₂.snapshot := by
      rw [hd.snapshot, hb.2]
      exact hmem
    exact (hd.inv.closed [] hdone conn hin).resolve_left List.not_mem_nil
  · exact (hi.opened conn hopen).imp_left (hi.loop conn).mp

/-- A connection is served and another one comes late, while the server closes. -/
def closingRun : List (ServerStep Bool) :=
  let late := true
  let served := false
  [.accept served, .takeSlot served, .register served, .spawn served, .accept late, .beginClose,
    .takeSlot late, .register late, .releaseLate late, .closeLate late, .closeListener,
    .closeConnection, .endServe served, .remove served, .free served, .closeServed served]

theorem connections_accounted_closing :
    ∃ s, Machine.run serverStep (.started Bool) closingRun = some s ∧
      (∀ conn, closingRun.countP (·.takes conn) =
        closingRun.countP (·.gives conn) + (s.phase conn).hasSlot.toNat) ∧
      s.slots = 0 ∧ s.connections = [] ∧ ∀ conn, s.isOpen conn = false := by
  have hend : (Machine.run serverStep (.started Bool) closingRun).map (fun s =>
      decide (s.loop = .ended ∧ (s.phase false).inGoroutine = false ∧
        (s.phase true).inGoroutine = false)) = some true := by
    decide +kernel
  obtain ⟨s, hs, hended⟩ := Option.map_eq_some_iff.mp hend
  obtain ⟨hloop, hgo⟩ := of_decide_eq_true hended
  obtain ⟨-, hcount, hover, -⟩ := connections_accounted hs
  exact ⟨s, hs, fun conn => (hcount conn).2, hover hloop (Bool.forall_bool.mpr hgo)⟩

end Runs

end SynitWaf
