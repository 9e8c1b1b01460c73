import SynitWaf.Jwks.Model

/-!
# Calls for an entry, step by step

Where a call of `getJWKSEntry` is, and what its steps can do.

* `StorePc`, `EntryPc`: where a call is, with what it has read;
* **`entry_step`**: what a step of a call can do;
* `EntryPc.stage`: what a call has of the lock of its endpoint; **`EntryMove.locks`**: its steps
  follow the protocol of the locks; `lockStage`: the same, from the steps of the call;
* `EntryPc.reading?`, **`EntryMove.cache_cases`**: what a call has read of the clock, and what its
  steps do to the cache;
* `CallMove`: the moves of a thread that makes calls; `CallsInv`: the calls of all threads agree with
  the locks and the clock; **`CallsInv.step`**, **`CallsInv.exclusive`**.
-/

namespace SynitWaf

open Atomic Go

/-- Where a call is in `storeJWKSCacheEntry`. -/
inductive StorePc where
  | locking
  | putting
  | timing
  | ranging (now : ℤ)
  | deleting (endpoints : List GoString)

/-- Where a call of `getJWKSEntry` is. -/
inductive EntryPc (κ : Type) where
  /-- Before it reads the clock. -/
  | start
  /-- Before its first look at the cache. -/
  | checking (now : ℤ)
  /-- Before it gets a reference to the lock. -/
  | acquiring
  | waiting (l : ℕ)
  /-- With the lock, before it reads the clock again. -/
  | entered (l : ℕ)
  /-- With the lock, before its second look at the cache. -/
  | rechecking (l : ℕ) (now : ℤ)
  | fetching (l : ℕ) (now : ℤ)
  | storing (l : ℕ) (entry : JwksCacheEntry κ) (pc : StorePc)
  | unlocking (l : ℕ) (r : Result (JwksCacheEntry κ))
  | releasing (l : ℕ) (r : Result (JwksCacheEntry κ))
  | done (r : Result (JwksCacheEntry κ))

section Steps

variable {κ : Type} {w : JwksWorld κ}

/-- The rest of `storeJWKSCacheEntry`. -/
def StorePc.prog (endpoint : GoString) (entry : JwksCacheEntry κ) :
    StorePc → Prog (jwksSig w) Unit
  | .locking => storeJWKSCacheEntry endpoint entry
  | .putting => .act (.store endpoint entry) fun _ => .act .now fun (now : ℤ) =>
      .act .range fun (cached : List (GoString × JwksCacheEntry κ)) =>
        deleteEndpoints (sweptEndpoints now endpoint cached)
  | .timing => .act .now fun (now : ℤ) =>
      .act .range fun (cached : List (GoString × JwksCacheEntry κ)) =>
        deleteEndpoints (sweptEndpoints now endpoint cached)
  | .ranging now => .act .range fun (cached : List (GoString × JwksCacheEntry κ)) =>
      deleteEndpoints (sweptEndpoints now endpoint cached)
  | .deleting endpoints => deleteEndpoints endpoints

variable (lib : JwtLib κ) (endpoint : GoString) (previous : Option (JwksCacheEntry κ))

/-- The rest of `getJWKSEntry`. -/
def EntryPc.prog : EntryPc κ → Prog (jwksSig w) (Result (JwksCacheEntry κ))
  | .start => getJWKSEntry lib endpoint previous
  | .checking now => .act (.load endpoint) fun (entry : Option (JwksCacheEntry κ)) =>
      match entry with
      | some entry =>
        if returnsCached now previous entry then .ret (.ok entry)
        else lockedEntry lib endpoint previous
      | none => lockedEntry lib endpoint previous
  | .acquiring => lockedEntry lib endpoint previous
  | .waiting l => .act (.lock l) fun _ => .act .now fun (now : ℤ) =>
      recheckEntry lib endpoint previous now >>= leaveRefresh endpoint l
  | .entered l => .act .now fun (now : ℤ) =>
      recheckEntry lib endpoint previous now >>= leaveRefresh endpoint l
  | .rechecking l now => recheckEntry lib endpoint previous now >>= leaveRefresh endpoint l
  | .fetching l now => refreshEntry lib endpoint previous now >>= leaveRefresh endpoint l
  | .storing l entry pc => pc.prog endpoint entry >>= fun _ => leaveRefresh endpoint l (.ok entry)
  | .unlocking l r => leaveRefresh endpoint l r
  | .releasing l r => .act (.release endpoint l) fun _ => .ret r
  | .done r => .ret r

variable (w) in
/-- The moves of a call, with the operation they perform. -/
inductive EntryMove (s : JwksState κ) : EntryPc κ → JwksOp κ → EntryPc κ → Prop
  | clock : EntryMove s .start .now (.checking s.now)
  | hit (now : ℤ) {entry : JwksCacheEntry κ} : s.cache.lookup endpoint = some entry →
      returnsCached now previous entry = true →
      EntryMove s (.checking now) (.load endpoint) (.done (.ok entry))
  | miss (now : ℤ) : EntryMove s (.checking now) (.load endpoint) .acquiring
  | acquire : EntryMove s .acquiring (.acquire endpoint) (.waiting (s.locks.acquire endpoint).1)
  | lock (l : ℕ) : EntryMove s (.waiting l) (.lock l) (.entered l)
  | enter (l : ℕ) : EntryMove s (.entered l) .now (.rechecking l s.now)
  | cached (l : ℕ) (now : ℤ) {entry : JwksCacheEntry κ} : s.cache.lookup endpoint = some entry →
      (returnsCached now previous entry || throttles now previous entry) = true →
      EntryMove s (.rechecking l now) (.load endpoint) (.unlocking l (.ok entry))
  | stale (l : ℕ) (now : ℤ) {entry : JwksCacheEntry κ} : s.cache.lookup endpoint = some entry →
      (returnsCached now previous entry || throttles now previous entry) = false →
      EntryMove s (.rechecking l now) (.load endpoint) (.fetching l now)
  | absent (l : ℕ) (now : ℤ) : s.cache.lookup endpoint = none →
      EntryMove s (.rechecking l now) (.load endpoint) (.fetching l now)
  | failed (l : ℕ) (now : ℤ) {e : GoString} :
      newCacheEntry lib previous.isSome now s.fetches (w.respond s.fetches endpoint) = .error e →
      EntryMove s (.fetching l now) (.fetch endpoint previous.isSome now) (.unlocking l (.error e))
  | fetched (l : ℕ) (now : ℤ) {entry : JwksCacheEntry κ} :
      newCacheEntry lib previous.isSome now s.fetches (w.respond s.fetches endpoint) = .ok entry →
      EntryMove s (.fetching l now) (.fetch endpoint previous.isSome now) (.storing l entry .locking)
  | lockCache (l : ℕ) (entry : JwksCacheEntry κ) :
      EntryMove s (.storing l entry .locking) .lockCache (.storing l entry .putting)
  | put (l : ℕ) (entry : JwksCacheEntry κ) :
      EntryMove s (.storing l entry .putting) (.store endpoint entry) (.storing l entry .timing)
  | time (l : ℕ) (entry : JwksCacheEntry κ) :
      EntryMove s (.storing l entry .timing) .now (.storing l entry (.ranging s.now))
  | range (l : ℕ) (entry : JwksCacheEntry κ) (now : ℤ) :
      EntryMove s (.storing l entry (.ranging now)) .range
        (.storing l entry (.deleting
          (sweptEndpoints now endpoint ((w.order s.fetches).visit (cachedItems s.cache)))))
  | delete (l : ℕ) (entry : JwksCacheEntry κ) (e : GoString) (endpoints : List GoString) :
      EntryMove s (.storing l entry (.deleting (e :: endpoints))) (.delete e)
        (.storing l entry (.deleting endpoints))
  | unlockCache (l : ℕ) (entry : JwksCacheEntry κ) :
      EntryMove s (.storing l entry (.deleting [])) .unlockCache (.unlocking l (.ok entry))
  | unlock (l : ℕ) (r : Result (JwksCacheEntry κ)) :
      EntryMove s (.unlocking l r) (.unlock l) (.releasing l r)
  | release (l : ℕ) (r : Result (JwksCacheEntry κ)) :
      EntryMove s (.releasing l r) (.release endpoint l) (.done r)

/-- **What a step of a call can do.** -/
theorem entry_step {pc : EntryPc κ} {o : JwksOp κ}
    {k : (jwksSig w).Res o → Prog (jwksSig w) (Result (JwksCacheEntry κ))}
    (h : pc.prog lib endpoint previous = Prog.act (S := jwksSig w) o k) (s : JwksState κ) :
    ∃ pc', k (o.exec w s).1 = pc'.prog lib endpoint previous ∧
      EntryMove w lib endpoint previous s pc o pc' := by
  cases pc with
  | start =>
    cases h
    exact ⟨_, rfl, .clock⟩
  | checking now =>
    cases h
    simp only [JwksOp.exec]
    cases he : s.cache.lookup endpoint with
    | none => exact ⟨.acquiring, rfl, .miss now⟩
    | some entry =>
      dsimp only
      split
      next hc => exact ⟨.done (.ok entry), rfl, .hit now he hc⟩
      next => exact ⟨.acquiring, rfl, .miss now⟩
  | acquiring =>
    cases h
    exact ⟨_, rfl, .acquire⟩
  | waiting l =>
    cases h
    exact ⟨.entered l, rfl, .lock l⟩
  | entered l =>
    cases h
    exact ⟨.rechecking l s.now, rfl, .enter l⟩
  | rechecking l now =>
    cases h
    simp only [JwksOp.exec]
    cases he : s.cache.lookup endpoint with
    | none => exact ⟨.fetching l now, rfl, .absent l now he⟩
    | some entry =>
      dsimp only
      split
      next hc => exact ⟨.unlocking l (.ok entry), rfl, .cached l now he hc⟩
      next hc => exact ⟨.fetching l now, rfl, .stale l now he (eq_false_of_ne_true hc)⟩
  | fetching l now =>
    cases h
    simp only [JwksOp.exec]
    cases he : newCacheEntry lib previous.isSome now s.fetches (w.respond s.fetches endpoint) with
    | error e => exact ⟨.unlocking l (.error e), rfl, .failed l now he⟩
    | ok entry => exact ⟨.storing l entry .locking, Prog.bind_assoc _ _ _, .fetched l now he⟩
  | storing l entry pc =>
    cases pc with
    | locking =>
      cases h
      exact ⟨_, rfl, .lockCache l entry⟩
    | putting =>
      cases h
      exact ⟨_, rfl, .put l entry⟩
    | timing =>
      cases h
      exact ⟨.storing l entry (.ranging s.now), rfl, .time l entry⟩
    | ranging now =>
      cases h
      exact ⟨_, rfl, .range l entry now⟩
    | deleting endpoints =>
      cases endpoints with
      | nil =>
        cases h
        exact ⟨_, rfl, .unlockCache l entry⟩
      | cons e endpoints =>
        cases h
        exact ⟨.storing l entry (.deleting endpoints), rfl, .delete l entry e endpoints⟩
  | unlocking l r =>
    cases h
    exact ⟨_, rfl, .unlock l r⟩
  | releasing l r =>
    cases h
    exact ⟨_, rfl, .release l r⟩
  | done r => cases h

variable {lib endpoint previous} in
theorem EntryPc.of_prog_eq_ret {pc : EntryPc κ} {r : Result (JwksCacheEntry κ)}
    (h : pc.prog lib endpoint previous = Prog.ret (S := jwksSig w) r) : pc = .done r := by
  cases pc with
  | storing l entry pc =>
    cases pc with
    | deleting endpoints => cases endpoints <;> cases h
    | _ => cases h
  | done r' =>
    cases h
    rfl
  | _ => cases h

/-! ## The lock -/

/-- What a call has of the lock of its endpoint. -/
def EntryPc.stage (endpoint : GoString) : EntryPc κ → RefStage GoString
  | .waiting l => .waiting endpoint l
  | .entered l | .rechecking l _ | .fetching l _ | .storing l _ _ | .unlocking l _ =>
    .holding endpoint l
  | .releasing l _ => .leaving endpoint l
  | _ => .out

variable {lib endpoint previous}

/-- **The steps of a call follow the protocol of the locks.** -/
theorem EntryMove.locks {s : JwksState κ} {pc pc' : EntryPc κ} {o : JwksOp κ}
    (hm : EntryMove w lib endpoint previous s pc o pc') (he : (jwksSig w).enabled o s = true)
    {ι : Type} [DecidableEq ι] {stage : ι → RefStage GoString} {who : ℕ → Finset ι}
    (h : s.locks.Inv stage who) {i : ι} (hi : stage i = pc.stage endpoint) :
    ∃ who', (o.exec w s).2.locks.Inv (Function.update stage i (pc'.stage endpoint)) who' := by
  have hkeep : ∀ {st}, stage i = st → ∃ who', s.locks.Inv (Function.update stage i st) who' := by
    rintro st rfl
    exact ⟨who, by rwa [Function.update_eq_self]⟩
  cases hm with
  | acquire => exact h.acquire hi endpoint
  | lock l =>
    have hfree : s.locks.held l = false := by simpa using he
    exact ⟨who, h.lock hi hfree⟩
  | unlock l r => exact ⟨who, h.unlock hi⟩
  | release l r => exact h.release hi
  | _ => exact hkeep hi

/-- What a step leaves a call with of a lock. -/
def stageAfter (st : RefStage GoString) (o : JwksOp κ) (s : JwksState κ) : RefStage GoString :=
  match o, st with
  | .acquire e, _ => .waiting e (s.locks.acquire e).1
  | .lock _, .waiting e l => .holding e l
  | .unlock _, .holding e l => .leaving e l
  | .release _ _, _ => .out
  | _, st => st

/-- What its steps have left a call with of a lock. -/
def lockStage (t : Steps (jwksSig w)) : RefStage GoString :=
  t.foldl (fun st e => stageAfter st e.1 e.2) .out

theorem lockStage_snoc (t : Steps (jwksSig w)) (o : JwksOp κ) (s : JwksState κ) :
    lockStage (t ++ [(o, s)]) = stageAfter (lockStage t) o s := by
  rw [lockStage, List.foldl_append]
  rfl

theorem EntryMove.stage_eq {s : JwksState κ} {pc pc' : EntryPc κ} {o : JwksOp κ}
    (hm : EntryMove w lib endpoint previous s pc o pc') :
    stageAfter (pc.stage endpoint) o s = pc'.stage endpoint := by
  cases hm <;> rfl

/-! ## The clock and the cache -/

/-- What the call has read of the clock and is going to use. -/
def EntryPc.reading? : EntryPc κ → Option ℤ
  | .checking now | .rechecking _ now | .fetching _ now => some now
  | _ => none

theorem EntryMove.reading {s : JwksState κ} {pc pc' : EntryPc κ} {o : JwksOp κ}
    (hm : EntryMove w lib endpoint previous s pc o pc') {now : ℤ} (hn : pc'.reading? = some now) :
    now = s.now ∨ pc.reading? = some now := by
  cases hm with
  | clock | enter =>
    cases hn
    exact .inl rfl
  | stale | absent => exact .inr hn
  | _ => cases hn

/-- The entry a call is about to store. -/
def EntryPc.pending? : EntryPc κ → Option (JwksCacheEntry κ)
  | .storing _ entry .locking | .storing _ entry .putting => some entry
  | _ => none

theorem EntryPc.stage_of_pending (endpoint : GoString) {pc : EntryPc κ} {entry : JwksCacheEntry κ}
    (h : pc.pending? = some entry) : ∃ l, pc.stage endpoint = .holding endpoint l := by
  cases pc with
  | storing l entry pc => exact ⟨l, rfl⟩
  | _ => cases h

/-- **What a step does to the entry of an endpoint**: it may be deleted or stored. -/
theorem EntryMove.cache_cases {s : JwksState κ} {pc pc' : EntryPc κ} {o : JwksOp κ}
    (hm : EntryMove w lib endpoint previous s pc o pc') (e : GoString) :
    o = .delete e ∨ (∃ l entry, endpoint = e ∧ pc = .storing l entry .putting ∧
      pc' = .storing l entry .timing ∧ (o.exec w s).2.cache.lookup e = some entry) ∨
      (o.exec w s).2.cache.lookup e = s.cache.lookup e := by
  cases hm with
  | put l entry =>
    by_cases he : e = endpoint
    · subst he
      exact .inr (.inl ⟨l, entry, rfl, rfl, rfl, AList.lookup_insert _⟩)
    · exact .inr (.inr (AList.lookup_insert_ne he))
  | delete l entry e' endpoints =>
    by_cases he : e = e'
    · exact .inl (he ▸ rfl)
    · exact .inr (.inr (AList.lookup_erase_ne he))
  | _ => exact .inr (.inr rfl)

end Steps

/-! ## The calls of all threads -/

/-- A call on its way. -/
structure EntryCall (κ : Type) where
  endpoint : GoString
  previous : Option (JwksCacheEntry κ)
  pc : EntryPc κ

section Calls

variable {κ : Type} {w : JwksWorld κ} {lib : JwtLib κ} {s : JwksState κ}

/-- What a thread has of a lock; a thread without a call has nothing. -/
def callStage : Option (EntryCall κ) → RefStage GoString
  | none => .out
  | some c => c.pc.stage c.endpoint

variable (w lib s) in
/-- The moves of a thread that makes calls: at the end of a call it stops or begins another one. A
thread without a call is the clock. -/
inductive CallMove : Option (EntryCall κ) → JwksOp κ → Option (EntryCall κ) → Prop
  | go {e : GoString} {p : Option (JwksCacheEntry κ)} {pc pc' : EntryPc κ} {o : JwksOp κ} :
      EntryMove w lib e p s pc o pc' → CallMove (some ⟨e, p, pc⟩) o (some ⟨e, p, pc'⟩)
  | again {e : GoString} {p : Option (JwksCacheEntry κ)} {pc : EntryPc κ} {o : JwksOp κ}
      {r : Result (JwksCacheEntry κ)} (q : Option (JwksCacheEntry κ)) :
      EntryMove w lib e p s pc o (.done r) → CallMove (some ⟨e, p, pc⟩) o (some ⟨e, q, .start⟩)
  | stop {e : GoString} {p : Option (JwksCacheEntry κ)} {pc : EntryPc κ} {o : JwksOp κ}
      {r : Result (JwksCacheEntry κ)} :
      EntryMove w lib e p s pc o (.done r) → CallMove (some ⟨e, p, pc⟩) o none
  | tick (d : ℕ) : CallMove none (.tick d) none

theorem JwksOp.now_le_exec (o : JwksOp κ) (s : JwksState κ) : s.now ≤ (o.exec w s).2.now := by
  cases o with
  | tick d => exact Int.le_add_of_nonneg_right (Int.natCast_nonneg d)
  | _ => exact Int.le_refl _

theorem CallMove.reading {c c' : Option (EntryCall κ)} {o : JwksOp κ}
    (hm : CallMove w lib s c o c') {call : EntryCall κ} (hc : c' = some call) {now : ℤ}
    (hn : call.pc.reading? = some now) :
    now = s.now ∨ ∃ call, c = some call ∧ call.pc.reading? = some now := by
  cases hm with
  | go hm =>
    cases hc
    exact (hm.reading hn).imp_right fun hn => ⟨_, rfl, hn⟩
  | again q hm =>
    cases hc
    cases hn
  | stop hm => cases hc
  | tick d => cases hc

variable {ι : Type} [DecidableEq ι]

theorem CallMove.locks {c c' : Option (EntryCall κ)} {o : JwksOp κ} (hm : CallMove w lib s c o c')
    (he : (jwksSig w).enabled o s = true) {stage : ι → RefStage GoString} {who : ℕ → Finset ι}
    (h : s.locks.Inv stage who) {i : ι} (hi : stage i = callStage c) :
    ∃ who', (o.exec w s).2.locks.Inv (Function.update stage i (callStage c')) who' := by
  cases hm with
  | go hm | again q hm | stop hm => exact hm.locks he h hi
  | tick d =>
    refine ⟨who, ?_⟩
    rw [← hi, Function.update_eq_self]
    exact h

/-- The calls agree with the locks, and what they have read of the clock lies between `start` and
now. -/
structure CallsInv (start : ℤ) (calls : ι → Option (EntryCall κ)) (s : JwksState κ) : Prop where
  locks : ∃ who, s.locks.Inv (fun i => callStage (calls i)) who
  now : start ≤ s.now
  reading : ∀ i c now, calls i = some c → c.pc.reading? = some now → start ≤ now ∧ now ≤ s.now

omit [DecidableEq ι] in
theorem callsInv_start (hs : ∀ endpoint, s.locks.locks endpoint = none)
    {calls : ι → Option (EntryCall κ)} (hc : ∀ i c, calls i = some c → c.pc = .start) :
    CallsInv s.now calls s := by
  have hout : ∀ i, callStage (calls i) = .out := by
    intro i
    cases hi : calls i with
    | none => rfl
    | some c => simp only [callStage, hc i c hi, EntryPc.stage]
  refine ⟨⟨fun _ => ∅, ?_⟩, Int.le_refl _, fun i c now hi hn => ?_⟩
  · simpa only [hout] using RefLocks.Inv.start hs
  · rw [hc i c hi] at hn
    cases hn

/-- **The moves of the threads keep this.** -/
theorem CallsInv.step {start : ℤ} {calls : ι → Option (EntryCall κ)} (h : CallsInv start calls s)
    {j : ι} {o : JwksOp κ} (he : (jwksSig w).enabled o s = true) {c : Option (EntryCall κ)}
    (hm : CallMove w lib s (calls j) o c) :
    CallsInv start (Function.update calls j c) (o.exec w s).2 where
  locks := by
    obtain ⟨who, hwho⟩ := h.locks
    have hstage : (fun i => callStage (Function.update calls j c i)) =
        Function.update (fun i => callStage (calls i)) j (callStage c) :=
      Function.comp_update callStage calls j c
    rw [hstage]
    exact hm.locks he hwho rfl
  now := h.now.trans (o.now_le_exec s)
  reading i call now hi hn := by
    have hold : start ≤ now ∧ now ≤ s.now := by
      by_cases hij : i = j
      · rw [hij, Function.update_self] at hi
        obtain rfl | ⟨call, hj, hn⟩ := hm.reading hi hn
        · exact ⟨h.now, Int.le_refl _⟩
        · exact h.reading j call now hj hn
      · rw [Function.update_of_ne hij] at hi
        exact h.reading i call now hi hn
    exact ⟨hold.1, hold.2.trans (o.now_le_exec s)⟩

omit [DecidableEq ι] in
/-- **Two threads under the lock of an endpoint are one.** -/
theorem CallsInv.exclusive {start : ℤ} {calls : ι → Option (EntryCall κ)} (h : CallsInv start calls s)
    {i j : ι} {endpoint : GoString} {l l' : ℕ} (hi : callStage (calls i) = .holding endpoint l)
    (hj : callStage (calls j) = .holding endpoint l') : i = j := by
  obtain ⟨who, hwho⟩ := h.locks
  exact hwho.exclusive hi hj

end Calls

end SynitWaf
