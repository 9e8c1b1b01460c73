import SynitWaf.Go.Errors
import SynitWaf.Go.Float
import SynitWaf.Go.Time
import SynitWaf.Registry
import SynitWaf.TokenBucket

/-!
# The limiters of the coordinator

The leader keeps one limiter for every key that it was asked about. Entries that were idle for too
long are swept from time to time, and a new key takes the place of the oldest one when the table is
full. The calls run one after the other, under the lock of the coordinator.

* `RatePackage`: package `golang.org/x/time/rate`, and `exactRate`, its limiters as token buckets;
* `validateCall`, `cleanup`, `evictOldest`, `entryFor`, `checkLimit`: the parts of `CheckLimit`;
* `LimitCall.Valid`, `validateCall_eq_ok`: the calls that are not rejected;
* `LimitTable.Inv`: the table after a call;
* **`checkLimit_inv`**: a call keeps the invariant;
* **`checkLimit_after`**: what every call in a run does to the table.
-/

namespace SynitWaf

open Go

/-- Package `golang.org/x/time/rate`: a limiter has a rate and a burst, and answers at a time. -/
structure RatePackage where
  Limiter : Type
  newLimiter : Float64 → ℤ → Limiter
  allow : Limiter → ℤ → Bool × Limiter

/-- A limiter that is a token bucket over the rational numbers. -/
structure ExactLimiter where
  limit : Float64
  burst : ℤ
  bucket : TokenBucket.Bucket ℚ
  deriving DecidableEq

/-- The limiters as token buckets, which start full. A limiter without a finite rate has no bound. -/
def exactRate : RatePackage where
  Limiter := ExactLimiter
  newLimiter limit burst := ⟨limit, burst, ⟨burst, none⟩⟩
  allow l now :=
    match l.limit with
    | .finite q =>
      let (allowed, bucket) := l.bucket.take ⟨q, l.burst⟩ (seconds now)
      (allowed, { l with bucket })
    | _ => (true, l)

/-- `coordinatorLimiter`. -/
structure CoordinatorLimiter (L : Type) where
  limiter : L
  limit : Float64
  burst : ℤ
  lastSeen : ℤ

/-- `CheckLimitArgs`. -/
structure CheckLimitArgs where
  key : GoString
  limit : Float64
  burst : ℤ
  secret : GoString
  deriving DecidableEq

/-- The settings of the coordinator that `CheckLimit` reads. -/
structure LimitSettings where
  secret : GoString
  maxEntries : ℤ
  entryTTL : ℤ

/-- The fields of the coordinator that `CheckLimit` writes; the time of the next sweep is not set
before the first call. -/
structure LimitTable (L : Type) where
  limiters : GoMap (CoordinatorLimiter L)
  nextCleanup : Option ℤ

/-- A call of `CheckLimit`: the time, the arguments or nil, whether there is a reply to fill in, and
the orders in which its loops visit the table. -/
structure LimitCall where
  now : ℤ
  args : Option CheckLimitArgs
  reply : Bool
  sweepOrder : KeyOrder
  evictOrder : KeyOrder

/-! ## The source -/

/-- `maxCoordinatorKeyBytes`. -/
def maxCoordinatorKeyBytes : ℕ := 512

/-- The checks at the beginning of `CheckLimit`. -/
def validateCall (settings : LimitSettings) (call : LimitCall) : Result CheckLimitArgs :=
  match call.args, call.reply with
  | some args, true =>
    if args.secret ≠ settings.secret then .error (str "unauthorized")
    else if args.key = [] ∨ maxCoordinatorKeyBytes < args.key.length then
      .error (str "invalid rate-limit key")
    else if args.limit.notPositive ∨ args.burst ≤ 0 then
      .error (str "limit and burst must be positive")
    else .ok args
  | _, _ => .error (str "coordinator request and reply are required")

/-- The time between two sweeps. -/
def cleanupInterval (entryTTL : ℤ) : ℤ := max (entryTTL.tdiv 10) second

section Source

variable {L : Type}

/-- Has the entry been idle for too long? -/
def CoordinatorLimiter.stale (settings : LimitSettings) (now : ℤ) (entry : CoordinatorLimiter L) :
    Bool :=
  now - entry.lastSeen > settings.entryTTL

/-- One round of the sweep. -/
def sweepStep (settings : LimitSettings) (now : ℤ) (m : GoMap (CoordinatorLimiter L))
    (entry : GoString × CoordinatorLimiter L) : GoMap (CoordinatorLimiter L) :=
  if entry.2.stale settings now then AList.erase entry.1 m else m

/-- Is the sweep due at the time of the call? -/
def cleanupDue (call : LimitCall) (t : LimitTable L) : Bool :=
  t.nextCleanup.all fun next => ¬ call.now < next

/-- The sweep of `CheckLimit`, if it is due. -/
def cleanup (settings : LimitSettings) (call : LimitCall) (t : LimitTable L) : LimitTable L :=
  if cleanupDue call t then
    { limiters :=
        (GoMap.visit call.sweepOrder t.limiters).foldl (sweepStep settings call.now) t.limiters
      nextCleanup := some (call.now + cleanupInterval settings.entryTTL) }
  else t

/-- One round of the search for the oldest key. -/
def oldestStep (oldest : GoString × ℤ) (entry : GoString × CoordinatorLimiter L) : GoString × ℤ :=
  if oldest.1 = [] ∨ entry.2.lastSeen < oldest.2 then (entry.1, entry.2.lastSeen) else oldest

/-- The oldest key of the table. -/
def oldestKey (order : KeyOrder) (m : GoMap (CoordinatorLimiter L)) : GoString :=
  ((GoMap.visit order m).foldl oldestStep ([], 0)).1

/-- Delete the oldest key. -/
def evictOldest (order : KeyOrder) (m : GoMap (CoordinatorLimiter L)) :
    GoMap (CoordinatorLimiter L) :=
  AList.erase (oldestKey order m) m

/-- Has the entry the policy of the call? -/
def CoordinatorLimiter.hasPolicy (entry : CoordinatorLimiter L) (args : CheckLimitArgs) : Bool :=
  entry.limit.same args.limit && entry.burst = args.burst

end Source

variable (rate : RatePackage)

/-- A new entry. -/
def newEntry (now : ℤ) (args : CheckLimitArgs) : CoordinatorLimiter rate.Limiter where
  limiter := rate.newLimiter args.limit args.burst
  limit := args.limit
  burst := args.burst
  lastSeen := now

/-- The entry of the call, and the table it is stored in. -/
def entryFor (settings : LimitSettings) (call : LimitCall) (args : CheckLimitArgs)
    (m : GoMap (CoordinatorLimiter rate.Limiter)) :
    CoordinatorLimiter rate.Limiter × GoMap (CoordinatorLimiter rate.Limiter) :=
  match m.lookup args.key with
  | some entry =>
    if entry.hasPolicy args then ({ entry with lastSeen := call.now }, m)
    else (newEntry rate call.now args, m)
  | none =>
    (newEntry rate call.now args,
      if settings.maxEntries ≤ GoMap.len m then evictOldest call.evictOrder m else m)

/-- `CheckLimit`: an error, or whether the call is allowed; and the table behind it. -/
def checkLimit (settings : LimitSettings) (t : LimitTable rate.Limiter) (call : LimitCall) :
    Result Bool × LimitTable rate.Limiter :=
  match validateCall settings call with
  | .error e => (.error e, t)
  | .ok args =>
    let t := cleanup settings call t
    let (entry, limiters) := entryFor rate settings call args t.limiters
    let (allowed, limiter) := rate.allow entry.limiter call.now
    (.ok allowed, { t with limiters := AList.insert args.key { entry with limiter } limiters })

/-- The table of a new coordinator. -/
def LimitTable.empty (L : Type) : LimitTable L := ⟨∅, none⟩

/-- The table after some calls. -/
def runLimits (settings : LimitSettings) (calls : List LimitCall) : LimitTable rate.Limiter :=
  calls.foldl (fun t call => (checkLimit rate settings t call).2) (.empty rate.Limiter)

variable {rate} in
theorem runLimits_append {settings : LimitSettings} (calls : List LimitCall) (call : LimitCall) :
    runLimits rate settings (calls ++ [call]) =
      (checkLimit rate settings (runLimits rate settings calls) call).2 := by
  rw [runLimits, List.foldl_append]
  rfl

/-! ## The parts of a call -/

section Parts

variable {L : Type} {settings : LimitSettings} {call : LimitCall} {args : CheckLimitArgs}

/-- The call presents arguments and a reply, the secret of the coordinator, a key that is neither
empty nor too long, and a positive limit and burst. -/
structure LimitCall.Valid (settings : LimitSettings) (call : LimitCall) (args : CheckLimitArgs) :
    Prop where
  args_eq : call.args = some args
  reply : call.reply = true
  secret : args.secret = settings.secret
  key_ne : args.key ≠ []
  key_len : args.key.length ≤ maxCoordinatorKeyBytes
  limit : args.limit.notPositive = false
  burst : 0 < args.burst

/-- **The checks** accept exactly the valid calls. -/
theorem validateCall_eq_ok : validateCall settings call = .ok args ↔ call.Valid settings args := by
  constructor
  · intro h
    unfold validateCall at h
    split at h
    next a ha hr =>
      split at h
      next => cases h
      next hsecret =>
        split at h
        next => cases h
        next hkey =>
          split at h
          next => cases h
          next hpos =>
            cases h
            rw [not_or] at hkey hpos
            exact ⟨ha, hr, not_not.mp hsecret, hkey.1, not_lt.mp hkey.2, by simpa using hpos.1,
              not_le.mp hpos.2⟩
    next => cases h
  · rintro ⟨ha, hr, hsecret, hkey, hlen, hlimit, hburst⟩
    simp [validateCall, ha, hr, hsecret, hkey, not_lt.mpr hlen, hlimit, not_le.mpr hburst]

theorem validateCall_eq_error (h : ∀ args, ¬ call.Valid settings args) :
    ∃ e, validateCall settings call = .error e := by
  cases hv : validateCall settings call with
  | error e => exact ⟨e, rfl⟩
  | ok args => exact absurd (validateCall_eq_ok.mp hv) (h args)

theorem lookup_sweep {now : ℤ} {l : List (GoString × CoordinatorLimiter L)}
    {m : GoMap (CoordinatorLimiter L)} {key : GoString} :
    (l.foldl (sweepStep settings now) m).lookup key =
      if l.any (fun entry => entry.1 = key && entry.2.stale settings now) then none
      else m.lookup key := by
  induction l generalizing m with
  | nil => rfl
  | cons entry l ih =>
    rw [List.foldl_cons, ih, List.any_cons]
    unfold sweepStep
    by_cases hs : entry.2.stale settings now = true
    · rw [if_pos hs, hs, Bool.and_true]
      by_cases hkey : entry.1 = key
      · rw [decide_eq_true hkey, Bool.true_or, if_pos rfl, hkey, AList.lookup_erase, ite_self]
      · rw [decide_eq_false hkey, Bool.false_or, AList.lookup_erase_ne fun h => hkey h.symm]
    · rw [if_neg hs, Bool.eq_false_iff.mpr hs, Bool.and_false, Bool.false_or]

/-- A sweep that is due removes the stale entries, and nothing else. -/
theorem lookup_cleanup {t : LimitTable L} {key : GoString} {entry : CoordinatorLimiter L} :
    (cleanup settings call t).limiters.lookup key = some entry ↔
      t.limiters.lookup key = some entry ∧
        (cleanupDue call t = true → entry.stale settings call.now = false) := by
  by_cases hdue : cleanupDue call t = true
  · have hclean : (cleanup settings call t).limiters =
        (GoMap.visit call.sweepOrder t.limiters).foldl (sweepStep settings call.now) t.limiters := by
      unfold cleanup
      rw [if_pos hdue]
    rw [hclean, lookup_sweep]
    cases hkey : t.limiters.lookup key with
    | none => simp
    | some e =>
      -- the sweep meets the key once, with this entry
      have hany : (GoMap.visit call.sweepOrder t.limiters).any
          (fun entry => entry.1 = key && entry.2.stale settings call.now) =
            e.stale settings call.now := by
        rw [Bool.eq_iff_iff, List.any_eq_true]
        constructor
        · rintro ⟨⟨k, e'⟩, hmem, hk⟩
          simp only [Bool.and_eq_true, decide_eq_true_eq] at hk
          obtain ⟨rfl, hs⟩ := hk
          rw [mem_visit, hkey] at hmem
          cases hmem
          exact hs
        · intro hs
          exact ⟨(key, e), (mem_visit _ _).mpr hkey, by simp [hs]⟩
      rw [hany]
      by_cases hs : e.stale settings call.now = true
      · rw [if_pos hs]
        constructor
        · intro h
          cases h
        · rintro ⟨h, hfresh⟩
          cases h
          rw [hfresh hdue] at hs
          cases hs
      · rw [if_neg hs, Bool.not_eq_true] at *
        constructor
        · intro h
          cases h
          exact ⟨rfl, fun _ => hs⟩
        · exact fun h => h.1
  · have hclean : cleanup settings call t = t := by
      unfold cleanup
      rw [if_neg hdue]
    rw [hclean]
    exact ⟨fun h => ⟨h, fun hd => absurd hd hdue⟩, fun h => h.1⟩

/-- An entry that the sweep removes has not been used for long. -/
theorem stale_of_cleanup {t : LimitTable L} {key : GoString} {entry : CoordinatorLimiter L}
    (h : t.limiters.lookup key = some entry)
    (hgone : (cleanup settings call t).limiters.lookup key = none) :
    settings.entryTTL < call.now - entry.lastSeen := by
  by_contra hfresh
  have hstay : (cleanup settings call t).limiters.lookup key = some entry :=
    lookup_cleanup.mpr ⟨h, fun _ => decide_eq_false hfresh⟩
  rw [hgone] at hstay
  cases hstay

theorem oldest_fold {l : List (GoString × CoordinatorLimiter L)} (hl : ∀ x ∈ l, x.1 ≠ [])
    (hne : l ≠ []) :
    ∃ x ∈ l, l.foldl oldestStep ([], 0) = (x.1, x.2.lastSeen) ∧
      ∀ y ∈ l, x.2.lastSeen ≤ y.2.lastSeen := by
  induction l using List.reverseRecOn with
  | nil => exact absurd rfl hne
  | append_singleton l x ih =>
    rw [List.foldl_append, List.foldl_cons, List.foldl_nil]
    by_cases hl0 : l = []
    · subst hl0
      refine ⟨x, by simp, if_pos (.inl rfl), ?_⟩
      intro y hy
      rw [List.nil_append, List.mem_singleton] at hy
      rw [hy]
    obtain ⟨o, ho, hfold, hmin⟩ := ih (fun y hy => hl y (List.mem_append_left _ hy)) hl0
    rw [hfold]
    have hone : o.1 ≠ [] := hl o (List.mem_append_left _ ho)
    unfold oldestStep
    by_cases hlt : x.2.lastSeen < o.2.lastSeen
    · refine ⟨x, by simp, if_pos (.inr hlt), fun y hy => ?_⟩
      rcases List.mem_append.mp hy with hy | hy
      · have := hmin y hy
        omega
      · rw [List.mem_singleton.mp hy]
    · refine ⟨o, List.mem_append_left _ ho, if_neg (by simp [hone, hlt]), fun y hy => ?_⟩
      rcases List.mem_append.mp hy with hy | hy
      · exact hmin y hy
      · rw [List.mem_singleton.mp hy]
        omega

/-- The key that is evicted has the least time. -/
theorem oldestKey_spec (order : KeyOrder) {m : GoMap (CoordinatorLimiter L)}
    (hkeys : ∀ key ∈ m, key ≠ []) (hpos : 0 < GoMap.len m) :
    ∃ entry, m.lookup (oldestKey order m) = some entry ∧
      ∀ key e, m.lookup key = some e → entry.lastSeen ≤ e.lastSeen := by
  have hne : GoMap.visit order m ≠ [] := by
    intro hnil
    have hmap := visit_map_fst order m
    rw [hnil, List.map_nil] at hmap
    have hlen := (order.perm m.keys).length_eq
    rw [← hmap, List.length_nil] at hlen
    unfold GoMap.len at hpos
    omega
  have hvisit : ∀ x ∈ GoMap.visit order m, x.1 ≠ [] := fun x hx =>
    hkeys x.1 (mem_of_lookup ((mem_visit order m).mp hx))
  obtain ⟨x, hx, hfold, hmin⟩ := oldest_fold hvisit hne
  refine ⟨x.2, ?_, fun key e he => hmin (key, e) ((mem_visit order m).mpr he)⟩
  unfold oldestKey
  rw [hfold]
  exact (mem_visit order m).mp hx

end Parts

section Entry

variable (settings : LimitSettings) (call : LimitCall) (args : CheckLimitArgs)
  (m : GoMap (CoordinatorLimiter rate.Limiter))

/-- The entry of a call has the policy of the call and its time. -/
theorem entryFor_policy :
    (entryFor rate settings call args m).1.limit = args.limit ∧
      (entryFor rate settings call args m).1.burst = args.burst ∧
      (entryFor rate settings call args m).1.lastSeen = call.now := by
  unfold entryFor
  split
  next entry _ =>
    split
    next hp =>
      rw [CoordinatorLimiter.hasPolicy, Bool.and_eq_true, decide_eq_true_eq] at hp
      exact ⟨Float64.eq_of_same hp.1, hp.2, rfl⟩
    next => exact ⟨rfl, rfl, rfl⟩
  next => exact ⟨rfl, rfl, rfl⟩

/-- The table of a call is the old one, or the old one without its oldest key. -/
theorem entryFor_table :
    ((entryFor rate settings call args m).2 = m ∧
        (args.key ∈ m ∨ GoMap.len m < settings.maxEntries)) ∨
      (args.key ∉ m ∧ settings.maxEntries ≤ GoMap.len m ∧
        (entryFor rate settings call args m).2 = evictOldest call.evictOrder m) := by
  unfold entryFor
  split
  next hsome =>
    have hmem := mem_of_lookup hsome
    split <;> exact .inl ⟨rfl, .inl hmem⟩
  next hnone =>
    dsimp only
    split
    next hfull => exact .inr ⟨AList.lookup_eq_none.mp hnone, hfull, rfl⟩
    next hroom => exact .inl ⟨rfl, .inr (by omega)⟩

variable {settings call args m}

theorem lookup_of_entryFor {key : GoString} {entry : CoordinatorLimiter rate.Limiter}
    (h : (entryFor rate settings call args m).2.lookup key = some entry) :
    m.lookup key = some entry := by
  rcases entryFor_table rate settings call args m with ⟨heq, -⟩ | ⟨-, -, heq⟩
  · rwa [heq] at h
  · rw [heq, evictOldest] at h
    by_cases hkey : key = oldestKey call.evictOrder m
    · rw [hkey, AList.lookup_erase] at h
      cases h
    · rwa [AList.lookup_erase_ne hkey] at h

/-- The table does not outgrow its bound. -/
theorem entryFor_len (hmax : 1 ≤ settings.maxEntries) (hkeys : ∀ key ∈ m, key ≠ [])
    (hlen : GoMap.len m ≤ settings.maxEntries) (entry : CoordinatorLimiter rate.Limiter) :
    GoMap.len (AList.insert args.key entry (entryFor rate settings call args m).2) ≤
      settings.maxEntries := by
  have hins := @len_insert_le _ (entryFor rate settings call args m).2 args.key entry
  rcases entryFor_table rate settings call args m with ⟨heq, hroom⟩ | ⟨-, hfull, heq⟩
  · rw [heq] at hins ⊢
    rcases hroom with hmem | hroom
    · have hsame := len_insert_of_mem entry hmem
      omega
    · omega
  · obtain ⟨e, he, -⟩ := oldestKey_spec call.evictOrder hkeys (by omega)
    have hlt : GoMap.len (evictOldest call.evictOrder m) < GoMap.len m :=
      len_erase_lt (mem_of_lookup he)
    rw [heq] at hins ⊢
    omega

/-- A key that a call removes for lack of room has the least time of all. -/
theorem entryFor_removed (hmax : 1 ≤ settings.maxEntries) (hkeys : ∀ key ∈ m, key ≠ [])
    {key : GoString} {entry : CoordinatorLimiter rate.Limiter} (hkey : m.lookup key = some entry)
    (hgone : (entryFor rate settings call args m).2.lookup key = none) :
    args.key ∉ m ∧ settings.maxEntries ≤ GoMap.len m ∧
      ∀ k e, m.lookup k = some e → entry.lastSeen ≤ e.lastSeen := by
  rcases entryFor_table rate settings call args m with ⟨heq, -⟩ | ⟨hnew, hfull, heq⟩
  · rw [heq, hkey] at hgone
    cases hgone
  · obtain ⟨oldest, ho, hmin⟩ := oldestKey_spec call.evictOrder hkeys (by omega)
    rw [heq, evictOldest] at hgone
    by_cases hold : key = oldestKey call.evictOrder m
    · rw [← hold, hkey] at ho
      cases ho
      exact ⟨hnew, hfull, hmin⟩
    · rw [AList.lookup_erase_ne hold, hkey] at hgone
      cases hgone

end Entry

/-! ## The invariant -/

/-- The table at time `now`: it is not larger than it may be, and every entry was seen since some
time before the last sweep. -/
structure LimitTable.Inv {L : Type} (settings : LimitSettings) (now : ℤ) (t : LimitTable L) :
    Prop where
  keys_ne : ∀ key ∈ t.limiters, key ≠ []
  len_le : GoMap.len t.limiters ≤ settings.maxEntries
  swept : ∀ key entry, t.limiters.lookup key = some entry → ∃ next, t.nextCleanup = some next ∧
    next - cleanupInterval settings.entryTTL - settings.entryTTL ≤ entry.lastSeen
  next_le : ∀ next, t.nextCleanup = some next → next ≤ now + cleanupInterval settings.entryTTL

section Invariant

variable {L : Type} {settings : LimitSettings} {call : LimitCall} {now : ℤ}

theorem LimitTable.Inv.empty (hmax : 1 ≤ settings.maxEntries) :
    (LimitTable.empty L).Inv settings now where
  keys_ne := fun key hkey => absurd hkey (AList.notMem_empty key)
  len_le := by
    have hlen : GoMap.len (LimitTable.empty L).limiters = 0 := rfl
    omega
  swept := fun key entry h => by
    rw [LimitTable.empty, AList.lookup_empty] at h
    cases h
  next_le := fun next h => by cases h

theorem cleanupInterval_pos (entryTTL : ℤ) : 0 < cleanupInterval entryTTL := by
  have hsecond : (0 : ℤ) < second := by decide
  have hle : second ≤ cleanupInterval entryTTL := le_max_right _ _
  omega

/-- After the sweep the next one is not due. -/
theorem cleanup_next (settings : LimitSettings) (call : LimitCall) (t : LimitTable L) :
    ∃ next, (cleanup settings call t).nextCleanup = some next ∧ call.now < next := by
  have hpos := cleanupInterval_pos settings.entryTTL
  unfold cleanup
  by_cases hdue : cleanupDue call t = true
  · rw [if_pos hdue]
    exact ⟨_, rfl, by omega⟩
  · rw [if_neg hdue]
    unfold cleanupDue at hdue
    cases hnext : t.nextCleanup with
    | none => rw [hnext] at hdue; exact absurd rfl hdue
    | some next =>
      rw [hnext] at hdue
      exact ⟨next, rfl, by simpa using hdue⟩

theorem cleanup_inv {t : LimitTable L} (h : t.Inv settings now) (hnow : now ≤ call.now) :
    (cleanup settings call t).Inv settings call.now := by
  have hlookup : ∀ {key : GoString} {entry : CoordinatorLimiter L},
      (cleanup settings call t).limiters.lookup key = some entry →
        t.limiters.lookup key = some entry := fun hk => (lookup_cleanup.mp hk).1
  have hmem : ∀ key ∈ (cleanup settings call t).limiters, key ∈ t.limiters := by
    intro key hkey
    obtain ⟨entry, he⟩ := exists_lookup hkey
    exact mem_of_lookup (hlookup he)
  refine ⟨fun key hkey => h.keys_ne key (hmem key hkey), ?_, fun key entry hk => ?_, ?_⟩
  · have hle := len_le_of_subset hmem
    have hlen := h.len_le
    omega
  · by_cases hdue : cleanupDue call t = true
    · have hfresh := (lookup_cleanup.mp hk).2 hdue
      rw [CoordinatorLimiter.stale, decide_eq_false_iff_not] at hfresh
      refine ⟨call.now + cleanupInterval settings.entryTTL, ?_, by omega⟩
      rw [cleanup, if_pos hdue]
    · rw [cleanup, if_neg hdue] at hk ⊢
      exact h.swept key entry hk
  · intro next hnext
    by_cases hdue : cleanupDue call t = true
    · rw [cleanup, if_pos hdue] at hnext
      cases hnext
      exact le_refl _
    · rw [cleanup, if_neg hdue] at hnext
      have hle := h.next_le next hnext
      omega

end Invariant

section Calls

variable {settings : LimitSettings} {call : LimitCall} {now : ℤ} {t : LimitTable rate.Limiter}

theorem checkLimit_error {e : GoString} (h : validateCall settings call = .error e) :
    checkLimit rate settings t call = (.error e, t) := by
  rw [checkLimit, h]

/-- The entry that a valid call stores. -/
def storedEntry (settings : LimitSettings) (t : LimitTable rate.Limiter) (call : LimitCall)
    (args : CheckLimitArgs) : CoordinatorLimiter rate.Limiter :=
  let entry := (entryFor rate settings call args (cleanup settings call t).limiters).1
  { entry with limiter := (rate.allow entry.limiter call.now).2 }

theorem checkLimit_ok {args : CheckLimitArgs} (h : validateCall settings call = .ok args) :
    checkLimit rate settings t call =
      (.ok (rate.allow (entryFor rate settings call args
          (cleanup settings call t).limiters).1.limiter call.now).1,
        ⟨AList.insert args.key (storedEntry rate settings t call args)
          (entryFor rate settings call args (cleanup settings call t).limiters).2,
          (cleanup settings call t).nextCleanup⟩) := by
  rw [checkLimit, h]
  rfl

/-- The entries behind a valid call: that of its key is new, the others are from before. -/
theorem lookup_checkLimit {args : CheckLimitArgs} (h : validateCall settings call = .ok args)
    {key : GoString} {entry : CoordinatorLimiter rate.Limiter}
    (hk : (checkLimit rate settings t call).2.limiters.lookup key = some entry) :
    (key = args.key ∧ entry = storedEntry rate settings t call args) ∨
      (key ≠ args.key ∧ (cleanup settings call t).limiters.lookup key = some entry) := by
  rw [checkLimit_ok rate h] at hk
  dsimp only at hk
  by_cases hkey : key = args.key
  · rw [hkey, AList.lookup_insert] at hk
    cases hk
    exact .inl ⟨hkey, rfl⟩
  · rw [AList.lookup_insert_ne hkey] at hk
    exact .inr ⟨hkey, lookup_of_entryFor rate hk⟩

/-- **A call keeps the invariant.** -/
theorem checkLimit_inv (hmax : 1 ≤ settings.maxEntries) (httl : 0 < settings.entryTTL)
    (h : t.Inv settings now) (hnow : now ≤ call.now) :
    (checkLimit rate settings t call).2.Inv settings call.now := by
  cases hv : validateCall settings call with
  | error e =>
    rw [checkLimit_error rate hv]
    refine ⟨h.keys_ne, h.len_le, h.swept, fun next hnext => ?_⟩
    have hle := h.next_le next hnext
    omega
  | ok args =>
    have hc := cleanup_inv h hnow
    have hkeys : ∀ key ∈ (checkLimit rate settings t call).2.limiters, key ≠ [] := by
      intro key hkey
      obtain ⟨entry, he⟩ := exists_lookup hkey
      rcases lookup_checkLimit rate hv he with ⟨rfl, -⟩ | ⟨-, hold⟩
      · exact (validateCall_eq_ok.mp hv).key_ne
      · exact hc.keys_ne key (mem_of_lookup hold)
    refine ⟨hkeys, ?_, fun key entry hk => ?_, ?_⟩
    · rw [checkLimit_ok rate hv]
      exact entryFor_len rate hmax hc.keys_ne hc.len_le _
    · have hnext : (checkLimit rate settings t call).2.nextCleanup =
          (cleanup settings call t).nextCleanup := by rw [checkLimit_ok rate hv]
      rw [hnext]
      rcases lookup_checkLimit rate hv hk with ⟨-, rfl⟩ | ⟨-, hold⟩
      · obtain ⟨next, hn, -⟩ := cleanup_next settings call t
        have hle := hc.next_le next hn
        have hseen : (storedEntry rate settings t call args).lastSeen = call.now :=
          (entryFor_policy rate settings call args _).2.2
        exact ⟨next, hn, by omega⟩
      · exact hc.swept key entry hold
    · rw [checkLimit_ok rate hv]
      exact hc.next_le

/-- The run of some calls keeps the invariant. -/
theorem runLimits_inv (hmax : 1 ≤ settings.maxEntries) (httl : 0 < settings.entryTTL)
    {calls : List LimitCall} (hsorted : calls.Pairwise fun a b => a.now ≤ b.now)
    (hnow : ∀ c ∈ calls, c.now ≤ now) : (runLimits rate settings calls).Inv settings now := by
  induction calls using List.reverseRecOn generalizing now with
  | nil => exact .empty hmax
  | append_singleton calls call ih =>
    obtain ⟨hcalls, -, hlast⟩ := List.pairwise_append.mp hsorted
    have hprev : (runLimits rate settings calls).Inv settings call.now :=
      ih hcalls fun c hc => hlast c hc call (by simp)
    have hstep := checkLimit_inv rate hmax httl hprev (le_refl _)
    have hle := hnow call (by simp)
    rw [runLimits_append]
    refine ⟨hstep.keys_ne, hstep.len_le, hstep.swept, fun next hnext => ?_⟩
    have hn := hstep.next_le next hnext
    omega

/-- **What every call of a run does.** The table never outgrows its bound. A call that is not valid is
answered with an error and changes nothing. A valid one is answered, and stores the policy it presents
and its time; every other entry was seen within the time to live and one interval of the sweep, and an
entry that goes was stale or, when there was no room for a new key, the oldest one. -/
theorem checkLimit_after (settings : LimitSettings) (hmax : 1 ≤ settings.maxEntries)
    (httl : 0 < settings.entryTTL) (before : List LimitCall) (call : LimitCall)
    (hsorted : (before ++ [call]).Pairwise fun a b => a.now ≤ b.now) :
    let t := runLimits rate settings before
    let after := (checkLimit rate settings t call).2
    GoMap.len after.limiters ≤ settings.maxEntries ∧
      ((∀ args, ¬ call.Valid settings args) →
        (∃ e, (checkLimit rate settings t call).1 = .error e) ∧ after = t) ∧
      (∀ args, call.Valid settings args →
        (∃ allowed, (checkLimit rate settings t call).1 = .ok allowed) ∧
          (∃ entry, after.limiters.lookup args.key = some entry ∧ entry.limit = args.limit ∧
            entry.burst = args.burst ∧ entry.lastSeen = call.now) ∧
          (∀ key entry, key ≠ args.key → after.limiters.lookup key = some entry →
            call.now - settings.entryTTL - max (settings.entryTTL.tdiv 10) second ≤
              entry.lastSeen) ∧
          ∀ key entry, t.limiters.lookup key = some entry → after.limiters.lookup key = none →
            settings.entryTTL < call.now - entry.lastSeen ∨
              (args.key ∉ (cleanup settings call t).limiters ∧
                settings.maxEntries ≤ GoMap.len (cleanup settings call t).limiters ∧
                ∀ k e, (cleanup settings call t).limiters.lookup k = some e →
                  entry.lastSeen ≤ e.lastSeen)) := by
  intro t after
  obtain ⟨hbefore, -, hlast⟩ := List.pairwise_append.mp hsorted
  have hinv : t.Inv settings call.now :=
    runLimits_inv rate hmax httl hbefore fun c hc => hlast c hc call (by simp)
  have hafter := checkLimit_inv rate hmax httl hinv (le_refl call.now)
  refine ⟨hafter.len_le, fun hno => ?_, fun args hvalid => ?_⟩
  · obtain ⟨e, hv⟩ := validateCall_eq_error hno
    have hcall := checkLimit_error rate (t := t) hv
    exact ⟨⟨e, congrArg Prod.fst hcall⟩, congrArg Prod.snd hcall⟩
  · have hv := validateCall_eq_ok.mpr hvalid
    have hcall := checkLimit_ok rate (t := t) hv
    have hc := cleanup_inv hinv (le_refl call.now)
    refine ⟨⟨_, congrArg Prod.fst hcall⟩, ⟨storedEntry rate settings t call args, ?_,
      entryFor_policy rate settings call args _⟩, fun key entry hkey hk => ?_,
      fun key entry hk hgone => ?_⟩
    · rw [show after = _ from congrArg Prod.snd hcall]
      exact AList.lookup_insert _
    · rcases lookup_checkLimit rate hv hk with ⟨heq, -⟩ | ⟨-, hold⟩
      · exact absurd heq hkey
      · obtain ⟨next, hn, hlt⟩ := cleanup_next settings call t
        obtain ⟨next', hn', hseen⟩ := hc.swept key entry hold
        rw [hn] at hn'
        cases hn'
        rw [cleanupInterval] at hseen
        omega
    · -- the sweep took the entry, or it made room for the new key
      cases hswept : (cleanup settings call t).limiters.lookup key with
      | none => exact .inl (stale_of_cleanup hk hswept)
      | some e =>
        obtain rfl : entry = e := by
          have hold := (lookup_cleanup.mp hswept).1
          rw [hk] at hold
          exact Option.some_inj.mp hold
        rw [show after = _ from congrArg Prod.snd hcall] at hgone
        have hevicted := (AList.lookup_insert_eq_none.mp hgone).2
        exact .inr (entryFor_removed rate hmax hc.keys_ne hswept hevicted)

end Calls

/-- A coordinator with room for one limiter. -/
def smallSettings : LimitSettings := ⟨str "s", 1, 600 * second⟩

/-- A call with the secret of `smallSettings`. -/
def smallCall (now : ℤ) (key : GoString) (limit : ℚ) (burst : ℤ) : LimitCall where
  now := now
  args := some ⟨key, .finite limit, burst, str "s"⟩
  reply := true
  sweepOrder := insertionOrder
  evictOrder := insertionOrder

theorem checkLimit_after_full :
    let t := runLimits exactRate smallSettings [smallCall 0 (str "a") 1 5]
    let after := (checkLimit exactRate smallSettings t (smallCall 1 (str "b") 1 5)).2
    GoMap.len after.limiters ≤ smallSettings.maxEntries ∧
      (∃ entry, after.limiters.lookup (str "b") = some entry ∧ entry.limit = .finite 1 ∧
        entry.burst = 5 ∧ entry.lastSeen = 1) ∧
      (checkLimit exactRate smallSettings t (smallCall 1 (str "b") 1 0)).2 = t := by
  have h := fun call hsorted => checkLimit_after exactRate smallSettings (by decide) (by decide)
    [smallCall 0 (str "a") 1 5] call hsorted
  obtain ⟨hlen, -, hvalid⟩ := h (smallCall 1 (str "b") 1 5) (by simp [smallCall])
  obtain ⟨-, hstored, -⟩ := hvalid _ (validateCall_eq_ok.mp rfl)
  have hno : ∀ args, ¬ (smallCall 1 (str "b") 1 0).Valid smallSettings args := by
    rintro args ⟨⟨⟩, -, -, -, -, -, hburst⟩
    exact absurd hburst (by decide)
  exact ⟨hlen, hstored, ((h (smallCall 1 (str "b") 1 0) (by simp [smallCall])).2.1 hno).2⟩

end SynitWaf
