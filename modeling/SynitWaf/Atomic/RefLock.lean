import Mathlib.Data.Finset.Card
import SynitWaf.Atomic.Mutex

/-!
# Locks by key, made and dropped on demand

There is a lock for a key as long as threads refer to it: the first reference makes the lock, and
the last one that is given back drops it. The table of the locks is only changed by `acquire` and
`release`, each of which is one step.

* `RefLocks`, its operations `acquire`, `lock`, `unlock`, `release`;
* `RefStage`: what a thread has of a lock; `RefLocks.Inv`: the table, the counters and the threads
  agree;
* **`Inv.acquire`**, **`Inv.lock`**, **`Inv.unlock`**, **`Inv.release`**: the operations keep this;
* **`Inv.shared`**, **`Inv.isSome_iff`**, **`Inv.exclusive`**: the threads with a key have one lock,
  the table has a lock exactly while there are such threads, and at most one of them holds it.
-/

namespace Atomic

variable {ε ι : Type}

/-! ## The table -/

/-- The locks by key, the references to each lock, whether it is held, and the next new lock. -/
structure RefLocks (ε : Type) where
  locks : ε → Option ℕ
  refs : ℕ → ℕ
  held : ℕ → Bool
  next : ℕ

namespace RefLocks

/-- No locks. -/
def empty : RefLocks ε := ⟨fun _ => none, fun _ => 0, fun _ => false, 0⟩

/-- One more reference to a lock. -/
def addRef (s : RefLocks ε) (l : ℕ) : RefLocks ε :=
  { s with refs := Function.update s.refs l (s.refs l + 1) }

/-- A new lock for a key. -/
def make [DecidableEq ε] (s : RefLocks ε) (key : ε) : RefLocks ε where
  locks := Function.update s.locks key (some s.next)
  refs := Function.update s.refs s.next 0
  held := Function.update s.held s.next false
  next := s.next + 1

/-- A reference to the lock of a key, which is made if there is none. -/
def acquire [DecidableEq ε] (s : RefLocks ε) (key : ε) : ℕ × RefLocks ε :=
  match s.locks key with
  | some l => (l, s.addRef l)
  | none => (s.next, (s.make key).addRef s.next)

/-- A free lock is taken. -/
def lock (s : RefLocks ε) (l : ℕ) : RefLocks ε := { s with held := Function.update s.held l true }

/-- A lock is given back. -/
def unlock (s : RefLocks ε) (l : ℕ) : RefLocks ε := { s with held := Function.update s.held l false }

/-- A reference is given back; the last one drops the lock. -/
def release [DecidableEq ε] (s : RefLocks ε) (key : ε) (l : ℕ) : RefLocks ε :=
  { s with
    refs := Function.update s.refs l (s.refs l - 1)
    locks := if s.refs l - 1 = 0 then Function.update s.locks key none else s.locks }

end RefLocks

/-! ## Threads -/

/-- What a thread has of a lock. -/
inductive RefStage (ε : Type) where
  | out
  | waiting (key : ε) (lock : ℕ)
  | holding (key : ε) (lock : ℕ)
  | leaving (key : ε) (lock : ℕ)

/-- The key and the lock a thread refers to. -/
def RefStage.ref? : RefStage ε → Option (ε × ℕ)
  | .out => none
  | .waiting key l | .holding key l | .leaving key l => some (key, l)

/-- The thread holds the lock. -/
def RefStage.holds (l : ℕ) : RefStage ε → Bool
  | .holding _ l' => l' = l
  | _ => false

theorem RefStage.ref?_of_holds {st : RefStage ε} {l : ℕ} (h : st.holds l = true) :
    ∃ key, st = .holding key l := by
  cases st with
  | holding key l' =>
    obtain rfl : l' = l := by simpa [holds] using h
    exact ⟨key, rfl⟩
  | _ => cases h

namespace RefLocks

/-- The table, the counters and the threads agree; `who l` are the threads that refer to `l`. -/
structure Agrees (s : RefLocks ε) (stage : ι → RefStage ε) (who : ℕ → Finset ι) : Prop where
  mem_who : ∀ l i, i ∈ who l ↔ ∃ key, (stage i).ref? = some (key, l)
  locks_eq : ∀ i key l, (stage i).ref? = some (key, l) → s.locks key = some l
  refs_eq : ∀ key l, s.locks key = some l → s.refs l = (who l).card
  inj : ∀ key key' l, s.locks key = some l → s.locks key' = some l → key = key'
  fresh : ∀ key l, s.locks key = some l → l < s.next
  excl : ∀ key l, s.locks key = some l → Exclusive (fun i => (stage i).holds l) (s.held l)

/-- The same, and every lock of the table is in use. -/
structure Inv (s : RefLocks ε) (stage : ι → RefStage ε) (who : ℕ → Finset ι) : Prop
    extends s.Agrees stage who where
  used : ∀ key l, s.locks key = some l → (who l).Nonempty

section Results

variable {s : RefLocks ε} {stage : ι → RefStage ε} {who : ℕ → Finset ι}

/-- **Threads with one key have one lock.** -/
theorem Inv.shared (h : s.Inv stage who) {i j : ι} {key : ε} {l l' : ℕ}
    (hi : (stage i).ref? = some (key, l)) (hj : (stage j).ref? = some (key, l')) : l = l' :=
  Option.some.inj ((h.locks_eq i key l hi).symm.trans (h.locks_eq j key l' hj))

/-- **At most one thread holds the lock of a key.** -/
theorem Inv.exclusive (h : s.Inv stage who) {i j : ι} {key : ε} {l l' : ℕ}
    (hi : stage i = .holding key l) (hj : stage j = .holding key l') : i = j := by
  have hl : s.locks key = some l := h.locks_eq i key l (by rw [hi]; rfl)
  obtain rfl : l = l' := h.shared (i := i) (j := j) (by rw [hi]; rfl) (by rw [hj]; rfl)
  refine (h.excl key l hl).unique i j ?_ ?_
  · simp [hi, RefStage.holds]
  · simp [hj, RefStage.holds]

theorem Inv.start (h : ∀ key, s.locks key = none) : s.Inv (fun _ : ι => .out) fun _ => ∅ := by
  have hnone : ∀ {key l}, s.locks key ≠ some l := fun hl => by rw [h] at hl; cases hl
  exact
    { mem_who := fun l i => by simp [RefStage.ref?]
      locks_eq := fun i key l h => by cases h
      refs_eq := fun key l hl => absurd hl hnone
      used := fun key l hl => absurd hl hnone
      inj := fun key key' l hl => absurd hl hnone
      fresh := fun key l hl => absurd hl hnone
      excl := fun key l hl => absurd hl hnone }

theorem Agrees.not_mem_of_out (h : s.Agrees stage who) {i : ι} (hi : stage i = .out) (l : ℕ) :
    i ∉ who l := by
  rw [h.mem_who, hi]
  rintro ⟨_, h⟩
  cases h

/-- A new lock, without references. -/
theorem Agrees.make [DecidableEq ε] (h : s.Agrees stage who) {key : ε} (hkey : s.locks key = none) :
    (s.make key).Agrees stage who := by
  have hnext : ∀ i key', (stage i).ref? ≠ some (key', s.next) := fun i key' hi =>
    Nat.lt_irrefl _ (h.fresh key' s.next (h.locks_eq i key' s.next hi))
  have hcases : ∀ key' l, (s.make key).locks key' = some l →
      (key' = key ∧ l = s.next) ∨ (key' ≠ key ∧ l < s.next ∧ s.locks key' = some l) := by
    intro key' l hl
    simp only [RefLocks.make] at hl
    by_cases hk : key' = key
    · rw [hk, Function.update_self] at hl
      exact .inl ⟨hk, (Option.some.inj hl).symm⟩
    · rw [Function.update_of_ne hk] at hl
      exact .inr ⟨hk, h.fresh key' l hl, hl⟩
  refine ⟨h.mem_who, fun i key' l hi => ?_, fun key' l hl => ?_, fun key' key'' l hl hl' => ?_,
    fun key' l hl => ?_, fun key' l hl => ?_⟩
  · have hold := h.locks_eq i key' l hi
    have hne : key' ≠ key := by
      rintro rfl
      rw [hkey] at hold
      cases hold
    simpa only [RefLocks.make, Function.update_of_ne hne] using hold
  · simp only [RefLocks.make]
    obtain ⟨-, rfl⟩ | ⟨-, hlt, hl⟩ := hcases key' l hl
    · rw [Function.update_self, eq_comm, Finset.card_eq_zero, Finset.eq_empty_iff_forall_notMem]
      intro i hi
      obtain ⟨key'', hi⟩ := (h.mem_who s.next i).mp hi
      exact hnext i key'' hi
    · rw [Function.update_of_ne (Nat.ne_of_lt hlt)]
      exact h.refs_eq key' l hl
  · obtain ⟨hk, rfl⟩ | ⟨-, hlt, hl⟩ := hcases key' l hl
    · obtain ⟨hk', -⟩ | ⟨-, hlt, -⟩ := hcases key'' _ hl'
      · rw [hk, hk']
      · exact absurd hlt (Nat.lt_irrefl _)
    · obtain ⟨-, rfl⟩ | ⟨-, -, hl'⟩ := hcases key'' l hl'
      · exact absurd hlt (Nat.lt_irrefl _)
      · exact h.inj key' key'' l hl hl'
  · simp only [RefLocks.make]
    obtain ⟨-, rfl⟩ | ⟨-, hlt, -⟩ := hcases key' l hl
    · exact Nat.lt_succ_self _
    · exact Nat.lt_succ_of_lt hlt
  · simp only [RefLocks.make]
    obtain ⟨-, rfl⟩ | ⟨-, hlt, hl⟩ := hcases key' l hl
    · rw [Function.update_self]
      refine .start fun i => eq_false_of_ne_true fun hi => ?_
      obtain ⟨key'', hi⟩ := RefStage.ref?_of_holds hi
      exact hnext i key'' (by rw [hi]; rfl)
    · rw [Function.update_of_ne (Nat.ne_of_lt hlt)]
      exact h.excl key' l hl

variable [DecidableEq ι]

theorem holds_update (stage : ι → RefStage ε) (i : ι) (st : RefStage ε) (l : ℕ) :
    (fun j => (Function.update stage i st j).holds l) =
      Function.update (fun j => (stage j).holds l) i (st.holds l) :=
  Function.comp_update (RefStage.holds l) stage i st

/-- A step that keeps the reference of the thread. -/
theorem Inv.keep (h : s.Inv stage who) {i : ι} {st : RefStage ε} (href : st.ref? = (stage i).ref?)
    {held : ℕ → Bool} (hlock : ∀ key l, s.locks key = some l →
      Exclusive (Function.update (fun j => (stage j).holds l) i (st.holds l)) (held l)) :
    ({ s with held := held } : RefLocks ε).Inv (Function.update stage i st) who := by
  have hrefs : ∀ j, (Function.update stage i st j).ref? = (stage j).ref? := by
    intro j
    by_cases hj : j = i
    · rw [hj, Function.update_self, href]
    · rw [Function.update_of_ne hj]
  exact
    { h with
      mem_who := fun l j => by rw [hrefs]; exact h.mem_who l j
      locks_eq := fun j key l hj => h.locks_eq j key l (by rwa [hrefs] at hj)
      excl := fun key l hl => by rw [holds_update]; exact hlock key l hl }

/-- **A thread takes the lock.** -/
theorem Inv.lock (h : s.Inv stage who) {i : ι} {key : ε} {l : ℕ} (hi : stage i = .waiting key l)
    (hfree : s.held l = false) :
    (s.lock l).Inv (Function.update stage i (.holding key l)) who := by
  refine h.keep (by rw [hi]; rfl) fun key' l' hl' => ?_
  by_cases hll : l' = l
  · subst hll
    rw [Function.update_self]
    have htake := (hfree ▸ h.excl key' l' hl').take i
    simpa [RefStage.holds] using htake
  · rw [Function.update_of_ne hll]
    refine (h.excl key' l' hl').keep ?_
    simp [hi, RefStage.holds, Ne.symm hll]

/-- **The holder gives the lock back.** -/
theorem Inv.unlock (h : s.Inv stage who) {i : ι} {key : ε} {l : ℕ} (hi : stage i = .holding key l) :
    (s.unlock l).Inv (Function.update stage i (.leaving key l)) who := by
  refine h.keep (by rw [hi]; rfl) fun key' l' hl' => ?_
  by_cases hll : l' = l
  · subst hll
    rw [Function.update_self]
    exact (h.excl key' l' hl').release (by simp [hi, RefStage.holds])
  · rw [Function.update_of_ne hll]
    refine (h.excl key' l' hl').keep ?_
    simp [hi, RefStage.holds, Ne.symm hll]

/-- A new reference, in the sets of the threads. -/
theorem Agrees.mem_insert (h : s.Agrees stage who) {i : ι} (hi : stage i = .out) (key : ε) (l l' : ℕ)
    (j : ι) : j ∈ Function.update who l (insert i (who l)) l' ↔
      ∃ key', (Function.update stage i (.waiting key l) j).ref? = some (key', l') := by
  by_cases hj : j = i
  · subst hj
    rw [Function.update_self]
    by_cases hl : l' = l
    · simp [hl, RefStage.ref?]
    · simpa [Function.update_of_ne hl, RefStage.ref?, Ne.symm hl] using h.not_mem_of_out hi l'
  · rw [Function.update_of_ne hj, ← h.mem_who]
    by_cases hl : l' = l
    · simp [hl, hj]
    · rw [Function.update_of_ne hl]

/-- **A new reference.** -/
theorem Agrees.addRef (h : s.Agrees stage who) {i : ι} (hi : stage i = .out) {key : ε} {l : ℕ}
    (hl : s.locks key = some l) :
    (s.addRef l).Agrees (Function.update stage i (.waiting key l))
      (Function.update who l (insert i (who l))) := by
  refine ⟨h.mem_insert hi key l, fun j key' l' hj => ?_, fun key' l' hl' => ?_, h.inj, h.fresh,
    fun key' l' hl' => ?_⟩
  · by_cases hji : j = i
    · rw [hji, Function.update_self] at hj
      cases hj
      exact hl
    · rw [Function.update_of_ne hji] at hj
      exact h.locks_eq j key' l' hj
  · simp only [RefLocks.addRef]
    by_cases hll : l' = l
    · rw [hll, Function.update_self, Function.update_self,
        Finset.card_insert_of_notMem (h.not_mem_of_out hi l), h.refs_eq key l hl]
    · rw [Function.update_of_ne hll, Function.update_of_ne hll]
      exact h.refs_eq key' l' hl'
  · rw [holds_update]
    refine (h.excl key' l' hl').keep ?_
    rw [hi]
    rfl

variable [DecidableEq ε]

/-- **A thread gets a reference.** -/
theorem Inv.acquire (h : s.Inv stage who) {i : ι} (hi : stage i = .out) (key : ε) :
    ∃ who', (s.acquire key).2.Inv (Function.update stage i (.waiting key (s.acquire key).1)) who' := by
  -- The lock in question is used by `i`, the others as before.
  have hused : ∀ (s' : RefLocks ε) (l : ℕ), (∀ key' l', s'.locks key' = some l' → l' ≠ l →
      s.locks key' = some l') → ∀ key' l', s'.locks key' = some l' →
      (Function.update who l (insert i (who l)) l').Nonempty := by
    intro s' l hold key' l' hl'
    by_cases hll : l' = l
    · rw [hll, Function.update_self]
      exact Finset.insert_nonempty i _
    · rw [Function.update_of_ne hll]
      exact h.used key' l' (hold key' l' hl' hll)
  unfold RefLocks.acquire
  cases hl : s.locks key with
  | some l =>
    exact ⟨_, h.toAgrees.addRef hi hl, hused _ l fun _ _ hl' _ => hl'⟩
  | none =>
    have hmade : (s.make key).locks key = some s.next := Function.update_self ..
    refine ⟨_, (h.toAgrees.make hl).addRef hi hmade, hused _ s.next fun key' l' hl' hne => ?_⟩
    have hk : key' ≠ key := by
      rintro rfl
      exact hne (Option.some.inj (hl'.symm.trans hmade))
    exact (Function.update_of_ne hk _ _).symm.trans hl'

theorem locks_of_release {key key' : ε} {l l' : ℕ} (h : (s.release key l).locks key' = some l') :
    s.locks key' = some l' ∧ (key' = key → s.refs l - 1 ≠ 0) := by
  simp only [RefLocks.release] at h
  split at h
  next =>
    by_cases hk : key' = key
    · rw [hk, Function.update_self] at h
      cases h
    · rw [Function.update_of_ne hk] at h
      exact ⟨h, fun hk' => absurd hk' hk⟩
  next hne => exact ⟨h, fun _ => hne⟩

/-- **A thread gives its reference back.** -/
theorem Inv.release (h : s.Inv stage who) {i : ι} {key : ε} {l : ℕ} (hi : stage i = .leaving key l) :
    ∃ who', (s.release key l).Inv (Function.update stage i .out) who' := by
  have hiref : (stage i).ref? = some (key, l) := by rw [hi]; rfl
  have hl := h.locks_eq i key l hiref
  have himem : i ∈ who l := (h.mem_who l i).mpr ⟨key, hiref⟩
  have hcard : s.refs l - 1 = ((who l).erase i).card := by
    rw [h.refs_eq key l hl, Finset.card_erase_of_mem himem]
  refine ⟨Function.update who l ((who l).erase i), ⟨fun l' j => ?_, fun j key' l' hj => ?_,
    fun key' l' hl' => ?_, fun key' key'' l' hl' hl'' => ?_, fun key' l' hl' => ?_,
    fun key' l' hl' => ?_⟩, fun key' l' hl' => ?_⟩
  · by_cases hj : j = i
    · subst hj
      have hout : (Function.update stage j .out j).ref? = none := by rw [Function.update_self]; rfl
      by_cases hll : l' = l
      · simp [hll, RefStage.ref?]
      · simp only [Function.update_of_ne hll, hout, h.mem_who, hiref]
        simp [Ne.symm hll]
    · rw [Function.update_of_ne hj, ← h.mem_who]
      by_cases hll : l' = l
      · simp [hll, hj]
      · rw [Function.update_of_ne hll]
  · have hji : j ≠ i := by
      rintro rfl
      rw [Function.update_self] at hj
      cases hj
    rw [Function.update_of_ne hji] at hj
    have hold := h.locks_eq j key' l' hj
    simp only [RefLocks.release]
    split
    next hzero =>
      -- The last reference is that of `i`, so `j` has another key.
      have hk : key' ≠ key := by
        rintro rfl
        obtain rfl := h.shared hj hiref
        rw [hcard, Finset.card_eq_zero] at hzero
        have hmem : j ∈ (who l').erase i := Finset.mem_erase.mpr ⟨hji, (h.mem_who l' j).mpr ⟨_, hj⟩⟩
        rw [hzero] at hmem
        exact Finset.notMem_empty j hmem
      rw [Function.update_of_ne hk]
      exact hold
    next => exact hold
  · have hold := (locks_of_release hl').1
    simp only [RefLocks.release]
    by_cases hll : l' = l
    · rw [hll, Function.update_self, Function.update_self, hcard]
    · rw [Function.update_of_ne hll, Function.update_of_ne hll]
      exact h.refs_eq key' l' hold
  · exact h.inj key' key'' l' (locks_of_release hl').1 (locks_of_release hl'').1
  · exact h.fresh key' l' (locks_of_release hl').1
  · rw [holds_update]
    refine (h.excl key' l' (locks_of_release hl').1).keep ?_
    rw [hi]
    rfl
  · obtain ⟨hold, hne⟩ := locks_of_release hl'
    by_cases hll : l' = l
    · subst hll
      rw [Function.update_self, ← Finset.card_pos, ← hcard]
      exact Nat.pos_of_ne_zero (hne (h.inj key' key l' hold hl))
    · rw [Function.update_of_ne hll]
      exact h.used key' l' hold

end Results

end RefLocks

end Atomic
