import SynitWaf.Receiver.Retention

/-!
# The quota of a tenant

The receiver remembers how many bytes a tenant has stored. Requests add what they have written, also
when a write stops halfway, and sweeps count again, so that the number stays right.

* `storeLines_inv`: **what the section of a request does**;
* `request_path`, `retention_step`: which operations requests and sweeps perform;
* `UsageExact`, `PlainFiles`, `Fits`; **`exec_quota`**: one step keeps the usage;
* `QuotaKept`, **`quota_kept`**: what holds in every run.
-/

namespace SynitWaf

open Atomic Go

/-! ## Answers -/

/-- The status of an answer. -/
def LogReply.status : LogReply → ℕ
  | .error status _ => status
  | .notAllowed _ => 405
  | .ok => 200

/-- The answer is a client error or that of an exhausted quota. -/
def LogReply.rejects (reply : LogReply) : Bool :=
  400 ≤ reply.status ∧ reply.status < 500 ∨ reply.status = 507

section Store

variable (maxTenantBytes : ℤ) (s : TenantReceiverState) (dir : Directory) (name payload : GoString)
  (faults : DiskFaults)

/-- **What the section of a request does**: it leaves the files alone, and perhaps finds out the usage,
or it writes within the quota, and the answer is no rejection. -/
theorem storeLines_inv :
    ((storeLines maxTenantBytes s dir name payload faults).2.2 = dir ∧
      ((storeLines maxTenantBytes s dir name payload faults).2.1 = s ∨
        knownUsage s dir faults = some (storeLines maxTenantBytes s dir name payload faults).2.1)) ∨
    ∃ s₁, knownUsage s dir faults = some s₁ ∧
      int64 (s₁.usedBytes + payload.length) ≤ maxTenantBytes ∧
      (storeLines maxTenantBytes s dir name payload faults).2 =
        ({ s₁ with usedBytes := int64 (s₁.usedBytes + (faults.written payload).length) },
          dir.append name (faults.written payload)) ∧
      (storeLines maxTenantBytes s dir name payload faults).1.rejects = false := by
  unfold storeLines
  split
  · exact .inl ⟨rfl, .inl rfl⟩
  cases hknown : knownUsage s dir faults with
  | none => exact .inl ⟨rfl, .inl rfl⟩
  | some s₁ =>
    dsimp only
    split
    · exact .inl ⟨rfl, .inr rfl⟩
    next hle =>
    split
    · exact .inl ⟨rfl, .inr rfl⟩
    · refine .inr ⟨s₁, rfl, not_lt.mp hle, rfl, ?_⟩
      split <;> rfl

end Store

theorem length_written_le (faults : DiskFaults) (payload : GoString) :
    (faults.written payload).length ≤ payload.length := by
  obtain ⟨n, hn⟩ := written_eq_take faults payload
  rw [hn]
  exact List.length_take_le' n payload

/-! ## The operations of a thread -/

/-- The operation is a section under the lock of a tenant that may write. -/
def ReceiverOp.isStore : ReceiverOp → Bool
  | .store _ _ _ _ _ => true
  | _ => false

theorem allowRequest_usage (s : TenantReceiverState) (now requestsPerMinute : ℤ) :
    (allowRequest s now requestsPerMinute).2.usedBytes = s.usedBytes ∧
      (allowRequest s now requestsPerMinute).2.usedKnown = s.usedKnown := by
  unfold allowRequest
  dsimp only
  split <;> split <;> exact ⟨rfl, rfl⟩

/-- Other operations change neither files nor usages. -/
theorem exec_of_not_store {o : ReceiverOp} (h : o.isStore = false) (order : KeyOrder)
    (s : ReceiverState) : (o.exec order s).2.disk = s.disk ∧
      ∀ tenant, ((o.exec order s).2.tenants tenant).usedBytes = (s.tenants tenant).usedBytes ∧
        ((o.exec order s).2.tenants tenant).usedKnown = (s.tenants tenant).usedKnown := by
  cases o with
  | store => cases h
  | allowRequest t now requestsPerMinute =>
    refine ⟨rfl, fun tenant => ?_⟩
    by_cases ht : tenant = t
    · subst ht
      simpa [ReceiverOp.exec] using allowRequest_usage (s.tenants tenant) now requestsPerMinute
    · simp [ReceiverOp.exec, Function.update_of_ne ht]
  | _ => exact ⟨rfl, fun _ => ⟨rfl, rfl⟩⟩

section Call

variable {lib : ReceiverLib} {lr : LogReceiver} {c : LogCall}

theorem acceptLogs_no_store :
    (acceptLogs lib lr c).Ensures (fun _ => True) (fun (o : ReceiverOp) _ => o.isStore = false)
      (fun _ => True) := by
  refine acceptLogs_spec.mono (fun o _ ho => ?_) fun _ _ => trivial
  cases ho <;> rfl

/-- The section in which a request stores its payload. -/
def LogCall.storeOp (lib : ReceiverLib) (lr : LogReceiver) (c : LogCall) (tenantID payload : GoString) :
    ReceiverOp :=
  .store tenantID (c.fileName lib) payload lr.limits.maxTenantBytes c.faults

theorem handleLogs_store :
    (handleLogs lib lr c).Ensures (fun _ => True)
      (fun (o : ReceiverOp) _ => o.isStore = false ∨
        ∃ tenantID payload, o = c.storeOp lib lr tenantID payload)
      (fun _ => True) := by
  refine (acceptLogs_no_store.mono (fun _ _ => .inl) fun _ h => h).bind fun res _ => ?_
  cases res with
  | error reply => trivial
  | ok accepted => exact fun _ _ => ⟨.inr ⟨_, _, rfl⟩, trivial⟩

/-- A request that is rejected has left the files alone. -/
theorem handleLogs_rejected {t : Steps (receiverSig lib.evictOrder)} {reply : LogReply}
    (h : Path (handleLogs lib lr c) t (.ret reply)) (hr : reply.rejects = true) :
    ∀ e ∈ t, (e.1.exec lib.evictOrder e.2).2.disk = e.2.disk := by
  obtain ⟨res, t₁, t₂, rfl, h₁, h₂⟩ := h.bind_inv
  have hno := (acceptLogs_no_store.path h₁ fun _ _ => trivial).2
  intro e he
  rcases List.mem_append.mp he with he | he
  · exact (exec_of_not_store (hno e he) _ _).1
  cases res with
  | error reply =>
    obtain ⟨rfl, -⟩ := h₂.ret_inv
    cases he
  | ok accepted =>
    obtain ⟨s, t', rfl, hk⟩ := h₂.act_ret_inv
    obtain ⟨rfl, hreply⟩ := hk.ret_inv
    cases List.mem_singleton.mp he
    cases hreply
    -- a section that writes is not answered with a rejection
    obtain ⟨hdir, -⟩ | ⟨_, -, -, -, hnot⟩ := storeLines_inv lr.limits.maxTenantBytes
      (s.tenants accepted.1) (s.disk accepted.1) (c.fileName lib) accepted.2 c.faults
    · simp only [ReceiverOp.exec]
      rw [hdir, Function.update_eq_self]
    · exact absurd hr (by simpa [ReceiverOp.exec] using hnot)

end Call

section Sweep

variable {order : KeyOrder} {retention : ℤ} {c : SweepCall}

/-- The operation is that of the sweep at some tenant. -/
def SweepCall.Sweeps (retention : ℤ) (c : SweepCall) (o : RetentionOp) : Prop :=
  ∃ tenant, o = .sweep tenant (c.cutoff retention tenant) (c.disk tenant)

theorem cleanupLoop_ensures (entries : List DirEntry) (errs : List GoString) :
    (cleanupLoop order retention c entries errs).Ensures (fun _ => True)
      (fun o _ => c.Sweeps retention o) (fun _ => True) := by
  induction entries generalizing errs with
  | nil => trivial
  | cons entry entries ih =>
    rw [cleanupLoop]
    split
    · exact ih errs
    · exact fun _ _ => ⟨⟨entry.name, rfl⟩, ih _⟩

theorem cleanupExpiredLogs_ensures :
    (cleanupExpiredLogs order retention c).Ensures (fun _ => True)
      (fun o _ => c.Sweeps retention o) (fun _ => True) := by
  unfold cleanupExpiredLogs
  split
  · trivial
  · trivial
  · exact cleanupLoop_ensures _ _

end Sweep

/-! ## One step -/

/-- A usage that is known is right. -/
def UsageExact (s : ReceiverState) : Prop :=
  ∀ tenant, (s.tenants tenant).usedKnown = true →
    (s.tenants tenant).usedBytes = (s.disk tenant).totalSize

/-- What has this name is a regular file. -/
def PlainFiles (name : GoString) (s : ReceiverState) : Prop :=
  ∀ tenant entry, (s.disk tenant).lookup name = some entry → entry.regular = true

/-- The sizes are within the range of an `int64`. -/
def Fits (o : RetentionOp) (s : ReceiverState) : Prop :=
  match o with
  | .request (.store tenant _ payload _ _) => (s.disk tenant).totalSize + payload.length < 2 ^ 63
  | .sweep tenant _ _ => (s.disk tenant).totalSize < 2 ^ 63
  | _ => True

instance : ∀ (o : RetentionOp) (s : ReceiverState), Decidable (Fits o s)
  | .request (.store tenant _ payload _ _), s =>
    inferInstanceAs (Decidable ((s.disk tenant).totalSize + payload.length < 2 ^ 63))
  | .sweep tenant _ _, s => inferInstanceAs (Decidable ((s.disk tenant).totalSize < 2 ^ 63))
  | .request (.blocked _ _), _ | .request (.recordFailure _ _), _
  | .request (.allowRequest _ _ _), _ => inferInstanceAs (Decidable True)

section Tenant

variable {s : TenantReceiverState} {dir : Directory} {name payload : GoString} (maxTenantBytes : ℤ)
  (faults : DiskFaults)

theorem knownUsage_exact {s₁ : TenantReceiverState}
    (hs : s.usedKnown = true → s.usedBytes = dir.totalSize) (hfits : dir.totalSize < 2 ^ 63)
    (h : knownUsage s dir faults = some s₁) : s₁.usedBytes = dir.totalSize := by
  unfold knownUsage at h
  split at h
  next hknown =>
    cases h
    exact hs hknown
  split at h
  · cases h
  · cases h
    exact directoryBytes_eq hfits

/-- **A request keeps the usage**, and writes within the quota only. -/
theorem storeLines_usage (hs : s.usedKnown = true → s.usedBytes = dir.totalSize)
    (hplain : ∀ entry, dir.lookup name = some entry → entry.regular = true)
    (hfits : dir.totalSize + payload.length < 2 ^ 63) :
    ((storeLines maxTenantBytes s dir name payload faults).2.1.usedKnown = true →
      (storeLines maxTenantBytes s dir name payload faults).2.1.usedBytes =
        (storeLines maxTenantBytes s dir name payload faults).2.2.totalSize) ∧
    ((storeLines maxTenantBytes s dir name payload faults).2.2 = dir ∨
      ((storeLines maxTenantBytes s dir name payload faults).2.2.totalSize : ℤ) ≤ maxTenantBytes) := by
  obtain ⟨hdir, hsame | hknown⟩ | ⟨s₁, hknown, hle, heq, -⟩ :=
    storeLines_inv maxTenantBytes s dir name payload faults
  · rw [hdir, hsame]
    exact ⟨hs, .inl rfl⟩
  · rw [hdir]
    exact ⟨fun _ => knownUsage_exact faults hs (by omega) hknown, .inl rfl⟩
  · have hused := knownUsage_exact faults hs (by omega) hknown
    have hwritten := length_written_le faults payload
    rw [heq, hused, Directory.totalSize_append _ hplain]
    rw [hused, int64_eq (by omega) (by omega)] at hle
    rw [int64_eq (by omega) (by omega)]
    push_cast
    exact ⟨fun _ => rfl, .inr (by omega)⟩

theorem sweepTenant_usage {disk : SweepDisk} {cutoff : ℤ} (hfits : dir.totalSize < 2 ^ 63)
    (h : (sweepTenant disk cutoff s dir).2.1.usedKnown = true) :
    (sweepTenant disk cutoff s dir).2.1.usedBytes = (sweepTenant disk cutoff s dir).2.2.totalSize := by
  have hle : (sweepTenant disk cutoff s dir).2.2.totalSize ≤ dir.totalSize :=
    Directory.totalSize_le fun name => (removeExpiredLogs_lookup disk dir cutoff name).imp_right And.left
  have hnone : disk.usage.isSome = false := by
    have hknown : disk.usage.isNone = true := h
    simpa using hknown
  have heq : (sweepTenant disk cutoff s dir).2.1.usedBytes =
      directoryBytes (sweepTenant disk cutoff s dir).2.2 := by
    simp [sweepTenant, hnone]
  rw [heq, directoryBytes_eq (by omega)]

end Tenant

section Exec

variable {order : KeyOrder} {s : ReceiverState}

/-- A change of one tenant keeps the usages if it keeps the one of this tenant. -/
theorem UsageExact.update (hs : UsageExact s) {tenant : GoString} {state : TenantReceiverState}
    {dir : Directory} (h : state.usedKnown = true → state.usedBytes = dir.totalSize) :
    UsageExact { s with
      tenants := Function.update s.tenants tenant state
      disk := Function.update s.disk tenant dir } := by
  intro t
  by_cases ht : t = tenant
  · subst ht
    simpa using h
  · simpa [Function.update_of_ne ht] using hs t

/-- **One step keeps the usages.** -/
theorem UsageExact.exec {o : RetentionOp} (hs : UsageExact s) (hfits : Fits o s)
    (hplain : ∀ tenant name payload maxTenantBytes faults,
      o = .request (.store tenant name payload maxTenantBytes faults) → PlainFiles name s) :
    UsageExact (o.exec order s).2 := by
  cases o with
  | request o =>
    cases hstore : o.isStore with
    | false =>
      obtain ⟨hdisk, htenants⟩ := exec_of_not_store hstore order s
      intro tenant hknown
      change ((o.exec order s).2.tenants tenant).usedBytes = ((o.exec order s).2.disk tenant).totalSize
      change ((o.exec order s).2.tenants tenant).usedKnown = true at hknown
      rw [(htenants tenant).2] at hknown
      rw [(htenants tenant).1, hdisk]
      exact hs tenant hknown
    | true =>
      cases o with
      | store tenant name payload maxTenantBytes faults =>
        exact hs.update (storeLines_usage _ _ (hs tenant) (hplain _ _ _ _ _ rfl tenant) hfits).1
      | _ => cases hstore
  | sweep tenant cutoff disk => exact hs.update (sweepTenant_usage hfits)

theorem PlainFiles.update {name tenant : GoString} (hs : PlainFiles name s)
    {tenants : GoString → TenantReceiverState} {dir : Directory}
    (h : ∀ entry, dir.lookup name = some entry → entry.regular = true) :
    PlainFiles name { s with tenants := tenants, disk := Function.update s.disk tenant dir } := by
  intro t
  by_cases ht : t = tenant
  · subst ht
    simpa using h
  · simpa [Function.update_of_ne ht] using hs t

/-- Files stay regular. -/
theorem PlainFiles.exec {name : GoString} (hs : PlainFiles name s) (o : RetentionOp) :
    PlainFiles name (o.exec order s).2 := by
  cases o with
  | request o =>
    cases hstore : o.isStore with
    | false =>
      intro tenant entry hentry
      refine hs tenant entry (Eq.trans ?_ hentry)
      exact congrArg (fun disk => (disk tenant).lookup name) (exec_of_not_store hstore order s).1.symm
    | true =>
      cases o with
      | store tenant file payload maxTenantBytes faults =>
        refine hs.update fun entry hentry => ?_
        obtain ⟨hdir, -⟩ | ⟨hdir, -⟩ := storeLines_cases maxTenantBytes (s.tenants tenant)
          (s.disk tenant) file payload faults
        · exact hs tenant entry (hdir ▸ hentry)
        rw [hdir, Directory.append] at hentry
        by_cases hname : name = file
        · subst hname
          rw [AList.lookup_insert] at hentry
          cases hentry
          cases hold : (s.disk tenant).lookup name with
          | none => rfl
          | some old => exact hs tenant old hold
        · rw [AList.lookup_insert_ne hname] at hentry
          exact hs tenant entry hentry
      | _ => cases hstore
  | sweep tenant cutoff disk =>
    refine hs.update fun entry hentry => ?_
    rcases removeExpiredLogs_lookup disk (s.disk tenant) cutoff name with h | h
    · exact hs tenant entry (h ▸ hentry)
    · cases h.1.symm.trans hentry

end Exec

/-! ## Runs -/

/-- The receiver when it starts, with the files that are there. -/
def ReceiverState.boot (disk : GoString → Directory) : ReceiverState := ⟨∅, fun _ => default, disk⟩

section Runs

variable {ι : Type} [DecidableEq ι] (lib : ReceiverLib) (lr : LogReceiver) (retention : ℤ)
  (threads : ι → RetentionThread) (disk : GoString → Directory) (sched : List ι)

/-- Requests and sweeps, run in the order of a schedule. -/
def serve : Pool (retentionSig lib.evictOrder) ι RetentionReply :=
  (Pool.start (fun i => (threads i).prog lib lr retention) (.boot disk)).runs sched

variable {lib lr retention threads disk sched} {i : ι}

variable (lib lr retention disk sched) in
/-- The steps of a request are a path of `handleLogs`. -/
theorem request_path {c : LogCall} (hi : threads i = .request c) :
    ∃ (p : Prog (receiverSig lib.evictOrder) LogReply) (t : Steps (receiverSig lib.evictOrder)),
      Path (handleLogs lib lr c) t p ∧
      own i (serve lib lr retention threads disk sched).trace =
        t.map (fun e => (RetentionOp.request e.1, e.2)) ∧
      (serve lib lr retention threads disk sched).threads i =
        (do return .answered (← p.lift (requestPart lib.evictOrder))) := by
  have hpath := path_own (fun i => (threads i).prog lib lr retention) (.boot disk) sched i
  rw [hi] at hpath
  obtain ⟨q, hq, hlift⟩ := Path.of_pack (g := RetentionReply.answered) hpath
  obtain ⟨p, t, rfl, hp, hsteps⟩ := hlift.of_lift
  refine ⟨p, t, hp, ?_, hq⟩
  refine (List.forall₂_eq_eq_eq ▸ (List.forall₂_map_right_iff.mpr ?_) : _ = _)
  exact hsteps.imp fun x y h => Prod.ext h.1 h.2

/-- **The operations of a run.** -/
theorem retention_step {o : RetentionOp} {s : ReceiverState}
    (h : (i, o, s) ∈ (serve lib lr retention threads disk sched).trace) :
    (∃ c o', threads i = .request c ∧ o = .request o' ∧
      (o'.isStore = false ∨ ∃ tenantID payload, o' = c.storeOp lib lr tenantID payload)) ∨
    ∃ c, threads i = .cleanup c ∧ c.Sweeps retention o := by
  have hown := mem_own.mpr h
  cases hi : threads i with
  | request c =>
    obtain ⟨p, t, hp, ht, -⟩ := request_path lib lr retention disk sched hi
    rw [ht] at hown
    obtain ⟨e, he, heq⟩ := List.mem_map.mp hown
    cases heq
    exact .inl ⟨c, e.1, rfl, rfl, (handleLogs_store.path hp fun _ _ => trivial).2 e he⟩
  | cleanup c =>
    have hpath := path_own (fun i => (threads i).prog lib lr retention) (.boot disk) sched i
    rw [hi] at hpath
    have hsweeps : (RetentionThread.prog lib lr retention (.cleanup c)).Ensures (fun _ => True)
        (fun o _ => c.Sweeps retention o) (fun _ => True) :=
      cleanupExpiredLogs_ensures.bind fun _ _ => trivial
    exact .inr ⟨c, rfl, (hsweeps.path hpath fun _ _ => trivial).2 _ hown⟩

/-! ## The quota -/

variable (lib lr retention threads disk sched)

/-- What holds in a run: a usage that is known is right in every state; a request changes files only if
the total is within the quota afterwards, and not at all if it is rejected; and a sweep removes expired
logs only. -/
structure QuotaKept : Prop where
  usage : UsageExact (serve lib lr retention threads disk sched).mem ∧
    ∀ e ∈ (serve lib lr retention threads disk sched).trace, UsageExact e.2.2
  writes : ∀ i c o s, threads i = .request c →
    (i, o, s) ∈ (serve lib lr retention threads disk sched).trace → ∀ tenant,
      (o.exec lib.evictOrder s).2.disk tenant = s.disk tenant ∨
        ((o.exec lib.evictOrder s).2.disk tenant).totalSize ≤ lr.limits.maxTenantBytes
  rejected : ∀ i c reply, threads i = .request c →
    (serve lib lr retention threads disk sched).threads i = .ret (.answered reply) →
    reply.rejects = true →
      ∀ o s, (i, o, s) ∈ (serve lib lr retention threads disk sched).trace →
        (o.exec lib.evictOrder s).2.disk = s.disk
  swept : ∀ i c o s, threads i = .cleanup c →
    (i, o, s) ∈ (serve lib lr retention threads disk sched).trace → ∀ tenant name,
      ((o.exec lib.evictOrder s).2.disk tenant).lookup name = (s.disk tenant).lookup name ∨
        ((o.exec lib.evictOrder s).2.disk tenant).lookup name = none ∧
        ∃ entry, (s.disk tenant).lookup name = some entry ∧
          Expired (c.disk tenant) (c.cutoff retention tenant) name entry

variable {lib lr retention threads disk sched}

theorem rejected_keeps_files {c : LogCall} {reply : LogReply} (hi : threads i = .request c)
    (hret : (serve lib lr retention threads disk sched).threads i = .ret (.answered reply))
    (hr : reply.rejects = true) {o : RetentionOp} {s : ReceiverState}
    (h : (i, o, s) ∈ (serve lib lr retention threads disk sched).trace) :
    (o.exec lib.evictOrder s).2.disk = s.disk := by
  obtain ⟨p, t, hp, ht, hthread⟩ := request_path lib lr retention disk sched hi
  have hown := mem_own.mpr h
  rw [ht] at hown
  obtain ⟨e, he, heq⟩ := List.mem_map.mp hown
  cases heq
  rw [hret] at hthread
  cases p with
  | act o k => cases hthread
  | ret reply' =>
    cases hthread
    exact handleLogs_rejected hp hr e he

/-- Requests write to the files of their days. -/
theorem store_of_step {tenant name payload : GoString} {maxTenantBytes : ℤ} {faults : DiskFaults}
    {s : ReceiverState}
    (h : (i, RetentionOp.request (.store tenant name payload maxTenantBytes faults), s) ∈
      (serve lib lr retention threads disk sched).trace) :
    ∃ c, threads i = .request c ∧ name = c.fileName lib ∧
      maxTenantBytes = lr.limits.maxTenantBytes := by
  obtain ⟨c, o', hi, ho, hno | ⟨tenantID, payload, rfl⟩⟩ | ⟨c, -, t, ho⟩ := retention_step h
  · cases ho
    cases hno
  · cases ho
    exact ⟨c, hi, rfl, rfl⟩
  · cases ho

theorem sweep_removes_expired {c : SweepCall} {o : RetentionOp} (h : c.Sweeps retention o)
    (order : KeyOrder) (s : ReceiverState) (tenant name : GoString) :
    ((o.exec order s).2.disk tenant).lookup name = (s.disk tenant).lookup name ∨
      ((o.exec order s).2.disk tenant).lookup name = none ∧
      ∃ entry, (s.disk tenant).lookup name = some entry ∧
        Expired (c.disk tenant) (c.cutoff retention tenant) name entry := by
  obtain ⟨t, rfl⟩ := h
  by_cases ht : tenant = t
  · subst ht
    simp only [RetentionOp.exec, Function.update_self]
    exact removeExpiredLogs_lookup (c.disk tenant) (s.disk tenant) (c.cutoff retention tenant) name
  · simp [RetentionOp.exec, Function.update_of_ne ht]

end Runs

/-- **The quota is kept** in every run of requests and sweeps, whatever fails on the disk, as long as
the files of the days are regular files and sizes fit. -/
theorem quota_kept {ι : Type} [DecidableEq ι] (lib : ReceiverLib) (lr : LogReceiver) (retention : ℤ)
    (threads : ι → RetentionThread) (disk : GoString → Directory) (sched : List ι)
    (hplain : ∀ i c, threads i = .request c → PlainFiles (c.fileName lib) (.boot disk))
    (hfits : ∀ e ∈ (serve lib lr retention threads disk sched).trace, Fits e.2.1 e.2.2) :
    QuotaKept lib lr retention threads disk sched := by
  have hrun := chained_runs (fun i => (threads i).prog lib lr retention) (.boot disk) sched
  -- in every state the usages are right and the files of the days are regular
  let P : ReceiverState → Prop := fun s =>
    UsageExact s ∧ ∀ i c, threads i = .request c → PlainFiles (c.fileName lib) s
  have hboot : P (.boot disk) := ⟨fun _ hknown => (nomatch hknown), hplain⟩
  have hkeep : ∀ e ∈ (serve lib lr retention threads disk sched).trace, P e.2.2 →
      P (e.2.1.exec lib.evictOrder e.2.2).2 := by
    rintro ⟨i, o, s⟩ he ⟨hs, hfiles⟩
    refine ⟨hs.exec (hfits _ he) ?_, fun j c hj => (hfiles j c hj).exec o⟩
    rintro tenant name payload maxTenantBytes faults rfl
    obtain ⟨c, hi, rfl, -⟩ := store_of_step he
    exact hfiles i c hi
  have hstates := chained_states hrun.1 hboot hkeep
  refine ⟨⟨?_, fun e he => (hstates e he).1⟩, ?_, ?_, ?_⟩
  · have hmem := (chained_induction hrun.1 hboot hkeep).1
    rw [← hrun.2] at hmem
    exact hmem
  · intro i c o s hi h tenant
    obtain ⟨c', o', hi', rfl, hno | ⟨tenantID, payload, rfl⟩⟩ | ⟨c', hi', -⟩ := retention_step h
    · exact .inl (congrFun (exec_of_not_store hno lib.evictOrder s).1 tenant)
    · obtain ⟨hs, hfiles⟩ := hstates _ h
      by_cases ht : tenant = tenantID
      · subst ht
        have husage := storeLines_usage lr.limits.maxTenantBytes c'.faults (hs tenant)
          (hfiles i c' hi' tenant) (hfits _ h)
        simpa [RetentionOp.exec, ReceiverOp.exec, LogCall.storeOp] using husage.2
      · exact .inl (Function.update_of_ne ht _ _)
    · cases hi.symm.trans hi'
  · exact fun i c reply hi hret hr o s h => rejected_keeps_files hi hret hr h
  · intro i c o s hi h tenant name
    obtain ⟨c', _, hi', -⟩ | ⟨c', hi', hsweeps⟩ := retention_step h
    · cases hi.symm.trans hi'
    · cases hi.symm.trans hi'
      exact sweep_removes_expired hsweeps lib.evictOrder s tenant name

/-- A directory with one log. -/
def oldLogs : Directory := (∅ : Directory).insert (str "old.log") ⟨true, str "0\n"⟩

/-- A sweep that finds it expired. -/
def oldSweep : SweepCall where
  logsDir := .entries [⟨str "t", true⟩]
  now _ := 0
  disk _ := ⟨insertionOrder, fun _ => false, fun _ => -2 * defaultLogRetention, none, fun _ => none,
    fun _ => none, none⟩

/-- A request whose write stops after a byte, a sweep, and another request. -/
def sweepThreads (i : Fin 3) : RetentionThread :=
  if i = 0 then .request (tinyCall "1\n1" { DiskFaults.clean with write := some 1 })
  else if i = 1 then .cleanup oldSweep
  else .request (tinyCall "2" .clean)

theorem quota_kept_sweep :
    QuotaKept tinyLib tinyReceiver 0 sweepThreads (fun _ => oldLogs) [0, 0, 0, 1, 2, 2, 2] := by
  refine quota_kept _ _ _ _ _ _ (fun i c _ tenant entry hentry => ?_) (by decide +kernel)
  have hnone : oldLogs.lookup (str "day.log") = none := rfl
  cases hnone.symm.trans hentry

end SynitWaf
