import SynitWaf.Atomic.Ensures
import SynitWaf.Receiver.Model

/-!
# What the receiver has stored

Requests append to the file of the day one after the other. A write that fails leaves a part of its
payload behind, and the next one continues right after it.

* `completeLines`, `Terminated`: the lines of a file; `completeLines_append`, `mem_completeLines_append`;
* `file_exec`: **what an operation does to a file**;
* `acceptLogs_spec`: **what a request does before the lock**; `handleLogs_ensures`, `handleLogs_ok`:
  what it stores, and when it is acknowledged;
* `AppendsToLines`: a store that writes does not continue a partial line;
* **`receiver_durable`**: then acknowledged lines are in the file, and only submitted ones;
* `torn_line_swallows_next`: a line that is acknowledged and lost.
-/

namespace SynitWaf

open Atomic Go

/-! ## Complete lines -/

/-- The lines of a file that are terminated. -/
def completeLines (content : GoString) : List GoString := (split content lf).dropLast

/-- The file is empty or ends with a line. -/
def Terminated (content : GoString) : Prop := content = [] ∨ content.getLast? = some lf

instance (content : GoString) : Decidable (Terminated content) := inferInstanceAs (Decidable (_ ∨ _))

@[simp] theorem completeLines_nil : completeLines [] = [] := by
  simp [completeLines, split]

theorem completeLines_append_lf (a b : GoString) :
    completeLines (a ++ lf :: b) = split a lf ++ completeLines b := by
  have hne : split b lf ≠ [] := List.splitOnP_ne_nil _ _
  rw [completeLines, split_append_sep, List.dropLast_append_of_ne_nil hne]
  rfl

/-- What is appended to whole lines keeps its own lines. -/
theorem completeLines_append {a : GoString} (h : Terminated a) (b : GoString) :
    completeLines (a ++ b) = completeLines a ++ completeLines b := by
  rcases h with rfl | h
  · simp
  · obtain ⟨a, rfl⟩ := List.getLast?_eq_some_iff.mp h
    have hself := completeLines_append_lf a []
    rw [completeLines_nil, List.append_nil] at hself
    rw [List.append_assoc, List.singleton_append, completeLines_append_lf, hself]

/-- What is appended leaves the lines before it alone. -/
theorem mem_completeLines_append {a l : GoString} (h : l ∈ completeLines a) (b : GoString) :
    l ∈ completeLines (a ++ b) := by
  induction hn : a.length using Nat.strongRecOn generalizing a with
  | ind n ih =>
    by_cases hmem : lf ∈ a
    · obtain ⟨x, y, rfl⟩ := List.append_of_mem hmem
      rw [completeLines_append_lf] at h
      rw [List.append_assoc, List.cons_append, completeLines_append_lf]
      rcases List.mem_append.mp h with h | h
      · exact List.mem_append_left _ h
      · refine List.mem_append_right _ (ih _ ?_ h rfl)
        rw [← hn, List.length_append, List.length_cons]
        omega
    · rw [completeLines, split_of_not_mem hmem] at h
      cases h

theorem completeLines_framed {lines : List GoString} (h : ∀ l ∈ lines, IsLine l) :
    completeLines (framed lines) = lines := by
  induction lines with
  | nil => exact completeLines_nil
  | cons l lines ih =>
    have hcons : framed (l :: lines) = l ++ lf :: framed lines := by simp [framed]
    rw [hcons, completeLines_append_lf, split_of_not_mem (h l List.mem_cons_self).not_mem,
      ih fun x hx => h x (List.mem_cons_of_mem _ hx)]
    rfl

/-- A part of some lines has no other lines. -/
theorem mem_of_mem_completeLines_take {lines : List GoString} {l : GoString} {n : ℕ}
    (h : ∀ l ∈ lines, IsLine l) (hl : l ∈ completeLines ((framed lines).take n)) : l ∈ lines := by
  have hall := mem_completeLines_append hl ((framed lines).drop n)
  rwa [List.take_append_drop, completeLines_framed h] at hall

/-! ## Operations on files -/

theorem content_append_self (dir : Directory) (name data : GoString) :
    (dir.append name data).content name = dir.content name ++ data := by
  simp [Directory.content, Directory.append]

theorem content_append_ne (dir : Directory) {name name' : GoString} (h : name' ≠ name) (data : GoString) :
    (dir.append name data).content name' = dir.content name' := by
  simp [Directory.content, Directory.append, AList.lookup_insert_ne h]

section Store

theorem written_eq_take (faults : DiskFaults) (payload : GoString) :
    ∃ n, faults.written payload = payload.take n := by
  unfold DiskFaults.written
  cases faults.write with
  | none => exact ⟨payload.length, List.take_length.symm⟩
  | some n => exact ⟨n, rfl⟩

variable (maxTenantBytes : ℤ) (s : TenantReceiverState) (dir : Directory) (name payload : GoString)
  (faults : DiskFaults)

/-- **The section under the lock** appends a part of the payload, or nothing. -/
theorem storeLines_cases :
    (storeLines maxTenantBytes s dir name payload faults).2.2 = dir ∧
        (storeLines maxTenantBytes s dir name payload faults).1 ≠ .ok ∨
      (storeLines maxTenantBytes s dir name payload faults).2.2 =
          dir.append name (faults.written payload) ∧
        ((storeLines maxTenantBytes s dir name payload faults).1 = .ok →
          faults.written payload = payload) := by
  unfold storeLines
  split
  · exact .inl ⟨rfl, nofun⟩
  cases knownUsage s dir faults with
  | none => exact .inl ⟨rfl, nofun⟩
  | some s =>
    simp only
    split
    · exact .inl ⟨rfl, nofun⟩
    split
    · exact .inl ⟨rfl, nofun⟩
    refine .inr ⟨rfl, fun hok => ?_⟩
    simp only at hok
    split at hok
    · cases hok
    next hw =>
      have hnone : faults.write = none := by simpa using fun h => hw (.inl h)
      simp [DiskFaults.written, hnone]

end Store

/-- **What an operation does to a file.** -/
theorem file_exec (order : KeyOrder) (o : ReceiverOp) (s : ReceiverState) (tenant name : GoString) :
    (o.exec order s).2.file tenant name = s.file tenant name ∨
      ∃ payload maxTenantBytes faults n, o = .store tenant name payload maxTenantBytes faults ∧
        (o.exec order s).2.file tenant name = s.file tenant name ++ payload.take n := by
  cases o with
  | store t f payload maxTenantBytes faults =>
    by_cases ht : tenant = t
    · subst ht
      simp only [ReceiverOp.exec, ReceiverState.file, Function.update_self]
      obtain ⟨h, -⟩ | ⟨h, -⟩ := storeLines_cases maxTenantBytes (s.tenants tenant)
        (s.disk tenant) f payload faults
      · rw [h]
        exact .inl rfl
      · rw [h]
        by_cases hf : name = f
        · subst hf
          obtain ⟨n, hn⟩ := written_eq_take faults payload
          exact .inr ⟨payload, maxTenantBytes, faults, n, rfl, by rw [content_append_self, hn]⟩
        · exact .inl (content_append_ne _ hf _)
    · exact .inl (by simp [ReceiverOp.exec, ReceiverState.file, Function.update_of_ne ht])
  | _ => exact .inl rfl

/-- A store that is acknowledged has appended the whole payload. -/
theorem file_exec_ok {order : KeyOrder} {s : ReceiverState} {tenant name payload : GoString}
    {maxTenantBytes : ℤ} {faults : DiskFaults}
    (h : ((ReceiverOp.store tenant name payload maxTenantBytes faults).exec order s).1 = .ok) :
    ((ReceiverOp.store tenant name payload maxTenantBytes faults).exec order s).2.file tenant name =
      s.file tenant name ++ payload := by
  simp only [ReceiverOp.exec, ReceiverState.file, Function.update_self] at h ⊢
  obtain ⟨-, hne⟩ | ⟨hdir, hwritten⟩ := storeLines_cases maxTenantBytes
    (s.tenants tenant) (s.disk tenant) name payload faults
  · exact absurd h hne
  · rw [hdir, content_append_self, hwritten h]

/-! ## What a request stores -/

theorem readAllMax_eq {body : RequestBody} {n : ℤ} {data : GoString}
    (h : readAllMax body n = .ok data) : data = body.data := by
  unfold readAllMax at h
  split at h
  · cases h
  cases body with
  | reader b =>
    simp only at h
    split at h
    · cases h
    · exact (Except.ok.inj h).symm
  | nil => exact (Except.ok.inj h).symm
  | noBody => exact (Except.ok.inj h).symm

section Call

variable (lib : ReceiverLib) (lr : LogReceiver) (c : LogCall)

/-- The lines of a request. -/
def LogCall.lines (c : LogCall) : List GoString := nonEmptyLines c.request.body.data

/-- The payload of an accepted request. -/
def LogCall.Accepts (payload : GoString) : Prop :=
  ∃ single, logLines lib.jsonValid c.request.body.data single = .ok payload

/-- The operation stores nothing but the payload of the request, in its file. -/
def LogCall.StoresOwn (o : ReceiverOp) : Prop :=
  ∀ tenant name payload maxTenantBytes faults, o = .store tenant name payload maxTenantBytes faults →
    tenant = c.tenantID lib lr ∧ name = c.fileName lib ∧ c.Accepts lib payload

/-- What the part before the lock may return. -/
def LogCall.Accepted (res : Except LogReply (GoString × GoString)) : Prop :=
  match res with
  | .error reply => reply ≠ .ok
  | .ok (tenant, payload) => tenant = c.tenantID lib lr ∧ c.Accepts lib payload

variable {lib lr c}

theorem LogCall.isLine (c : LogCall) : ∀ l ∈ c.lines, IsLine l := fun _ hl => isLine_of_mem hl

theorem LogCall.Accepts.eq_framed {payload : GoString} (h : c.Accepts lib payload) :
    payload = framed c.lines := by
  obtain ⟨single, h⟩ := h
  exact (logLines_eq_ok.mp h).2

/-- The operations of a request before the lock of the tenant. -/
inductive LogCall.Accepting (lib : ReceiverLib) (lr : LogReceiver) (c : LogCall) : ReceiverOp → Prop
  | check : c.Accepting lib lr (.blocked (remoteIP c.request) c.now)
  | record : c.Accepting lib lr (.recordFailure (remoteIP c.request) c.now)
  | allow (h : c.tenantID lib lr ≠ []) :
    c.Accepting lib lr (.allowRequest (c.tenantID lib lr) c.now lr.limits.requestsPerMinute)

theorem readLogs_spec (hne : c.tenantID lib lr ≠ []) (mediaType : GoString) :
    (readLogs lib lr c (c.tenantID lib lr) mediaType).Ensures (fun _ => True)
      (fun o _ => c.Accepting lib lr o)
      (fun res => c.Accepted lib lr res ∧ ∀ accepted, res = .ok accepted → accepted.1 ≠ []) := by
  intro s _
  refine ⟨.allow hne, ?_⟩
  dsimp only
  split
  · exact ⟨nofun, nofun⟩
  split
  · exact ⟨nofun, nofun⟩
  · exact ⟨nofun, nofun⟩
  next body hbody =>
    split
    · exact ⟨nofun, nofun⟩
    next payload hpayload =>
      rw [readAllMax_eq hbody] at hpayload
      refine ⟨⟨rfl, _, hpayload⟩, ?_⟩
      rintro accepted ⟨⟩
      exact hne

/-- **What a request does before the lock**, and what it accepts. -/
theorem acceptLogs_spec :
    (acceptLogs lib lr c).Ensures (fun _ => True) (fun o _ => c.Accepting lib lr o)
      (fun res => c.Accepted lib lr res ∧ ∀ accepted, res = .ok accepted → accepted.1 ≠ []) := by
  unfold acceptLogs
  split
  · exact ⟨nofun, nofun⟩
  intro s _
  refine ⟨.check, ?_⟩
  dsimp only
  split
  · exact ⟨nofun, nofun⟩
  split
  · exact fun _ _ => ⟨.record, nofun, nofun⟩
  split
  · exact fun _ _ => ⟨.record, nofun, nofun⟩
  next hne =>
  split
  · exact ⟨nofun, nofun⟩
  split
  · exact ⟨nofun, nofun⟩
  split
  · exact ⟨nofun, nofun⟩
  · exact readLogs_spec hne _

theorem acceptLogs_ensures :
    (acceptLogs lib lr c).Ensures (fun _ => True) (fun o _ => c.StoresOwn lib lr o)
      (c.Accepted lib lr) := by
  refine acceptLogs_spec.mono (fun o _ ho => ?_) fun _ h => h.1
  cases ho <;> exact nofun

theorem handleLogs_ensures :
    (handleLogs lib lr c).Ensures (fun _ => True) (fun o _ => c.StoresOwn lib lr o)
      (fun _ => True) := by
  refine acceptLogs_ensures.bind fun res hres => ?_
  cases res with
  | error reply => trivial
  | ok accepted =>
    intro s _
    refine ⟨?_, trivial⟩
    intro tenant name payload maxTenantBytes faults h
    cases h
    exact ⟨hres.1, rfl, hres.2⟩

/-- **An acknowledged request** has ended with a store that wrote all its lines. -/
theorem handleLogs_ok {t : Steps (receiverSig lib.evictOrder)}
    (h : Path (handleLogs lib lr c) t (.ret .ok)) :
    ∃ t' s payload, c.Accepts lib payload ∧
      t = t' ++
        [(.store (c.tenantID lib lr) (c.fileName lib) payload lr.limits.maxTenantBytes c.faults, s)] ∧
      ((ReceiverOp.store (c.tenantID lib lr) (c.fileName lib) payload lr.limits.maxTenantBytes
        c.faults).exec lib.evictOrder s).1 = .ok := by
  obtain ⟨res, t₁, t₂, rfl, h₁, h₂⟩ := h.bind_inv
  have hres := (acceptLogs_ensures.path h₁ fun _ _ => trivial).1
  cases res with
  | error reply =>
    obtain ⟨-, h₂⟩ := h₂.ret_inv
    cases h₂
    exact absurd rfl hres
  | ok accepted =>
    obtain ⟨tenant, payload⟩ := accepted
    obtain ⟨rfl, haccepts⟩ := hres
    obtain ⟨s, t', rfl, hk⟩ := h₂.act_ret_inv
    obtain ⟨rfl, hok⟩ := hk.ret_inv
    exact ⟨t₁, s, payload, haccepts, rfl, (by simpa using hok.symm)⟩

end Call

/-! ## Runs -/

/-- Before the first request. -/
def ReceiverState.start : ReceiverState := ⟨∅, fun _ => default, fun _ => ∅⟩

/-- A store finds whole lines in its file, or writes nothing to it. -/
def AppendsToLines (order : KeyOrder) (o : ReceiverOp) (s : ReceiverState) : Prop :=
  match o with
  | .store tenant name _ _ _ =>
    Terminated (s.file tenant name) ∨ (o.exec order s).2.file tenant name = s.file tenant name
  | _ => True

instance (order : KeyOrder) :
    ∀ (o : ReceiverOp) (s : ReceiverState), Decidable (AppendsToLines order o s)
  | .store _ _ _ _ _, _ => inferInstanceAs (Decidable (Terminated _ ∨ _ = _))
  | .blocked _ _, _ | .recordFailure _ _, _ | .allowRequest _ _ _, _ => inferInstanceAs (Decidable True)

section Runs

variable {ι : Type} [DecidableEq ι] (lib : ReceiverLib) (lr : LogReceiver) (calls : ι → LogCall)

/-- The requests, run in the order of a schedule. -/
def receive (sched : List ι) : Pool (receiverSig lib.evictOrder) ι LogReply :=
  (Pool.start (fun i => handleLogs lib lr (calls i)) .start).runs sched

variable {lib lr calls} {sched : List ι}

theorem mem_trace_storesOwn {i : ι} {e : ReceiverOp × ReceiverState}
    (h : (i, e) ∈ (receive lib lr calls sched).trace) : (calls i).StoresOwn lib lr e.1 := by
  have hpath := path_own (fun i => handleLogs lib lr (calls i)) .start sched i
  exact (handleLogs_ensures.path hpath fun _ _ => trivial).2 e (mem_own.mpr h)

theorem receive_mem :
    (receive lib lr calls sched).mem = replay .start (receive lib lr calls sched).trace :=
  (chained_runs _ _ sched).2

/-- **Whatever stands in a file** was submitted for it. -/
theorem completeLines_submitted
    (h : ∀ e ∈ (receive lib lr calls sched).trace, AppendsToLines lib.evictOrder e.2.1 e.2.2)
    {tenant name l : GoString}
    (hl : l ∈ completeLines ((receive lib lr calls sched).mem.file tenant name)) :
    ∃ i, (calls i).tenantID lib lr = tenant ∧ (calls i).fileName lib = name ∧ l ∈ (calls i).lines := by
  rw [receive_mem] at hl
  refine chained_induction (P := fun s : ReceiverState => ∀ l ∈ completeLines (s.file tenant name),
    ∃ i, (calls i).tenantID lib lr = tenant ∧ (calls i).fileName lib = name ∧ l ∈ (calls i).lines)
    (chained_runs _ _ sched).1 (fun l hl => ?_) ?_ l hl
  · cases hl
  rintro ⟨i, o, s⟩ he hs l hl
  obtain hfile | ⟨payload, maxTenantBytes, faults, n, rfl, hfile⟩ :=
    file_exec lib.evictOrder o s tenant name
  · exact hs l (hfile ▸ hl)
  · obtain ⟨rfl, rfl, hpayload⟩ := mem_trace_storesOwn he _ _ _ _ _ rfl
    obtain hterm | hsame : Terminated (s.file _ _) ∨ _ := h _ he
    swap
    · exact hs l (hsame ▸ hl)
    have hl' := hfile ▸ hl
    rw [completeLines_append hterm] at hl'
    rcases List.mem_append.mp hl' with hl' | hl'
    · exact hs l hl'
    · rw [hpayload.eq_framed] at hl'
      exact ⟨i, rfl, rfl, mem_of_mem_completeLines_take (calls i).isLine hl'⟩

/-- **An acknowledged line** is in the file from then on. -/
theorem completeLines_acknowledged
    (h : ∀ e ∈ (receive lib lr calls sched).trace, AppendsToLines lib.evictOrder e.2.1 e.2.2) {i : ι}
    (hi : (receive lib lr calls sched).threads i = .ret .ok) {l : GoString} (hl : l ∈ (calls i).lines) :
    l ∈ completeLines ((receive lib lr calls sched).mem.file ((calls i).tenantID lib lr)
      ((calls i).fileName lib)) := by
  have hpath := path_own (fun i => handleLogs lib lr (calls i)) .start sched i
  change Path _ _ ((receive lib lr calls sched).threads i) at hpath
  rw [hi] at hpath
  obtain ⟨t', s, payload, hpayload, hown, hok⟩ := handleLogs_ok hpath
  obtain ⟨t₁, t₂, htrace, -, -⟩ := own_split hown
  change (receive lib lr calls sched).trace = _ at htrace
  have hmem := h _ (by rw [htrace]; exact List.mem_append_right _ List.mem_cons_self)
  have hchained : Chained .start (receive lib lr calls sched).trace := (chained_runs _ _ sched).1
  rw [htrace] at hchained
  have hstate := state_of_split hchained
  rw [receive_mem, htrace, replay_append, replay_cons, ← hstate]
  -- the store wrote the whole payload, and later steps only append
  refine replay_induction (P := fun s : ReceiverState => l ∈ completeLines (s.file _ _)) ?_ ?_
  · have hfile := file_exec_ok hok
    have hin : l ∈ completeLines payload := by
      rw [hpayload.eq_framed, completeLines_framed (calls i).isLine]
      exact hl
    obtain hterm | hsame : Terminated (s.file _ _) ∨ _ := hmem
    · refine (congrArg (l ∈ completeLines ·) hfile).mpr ?_
      rw [completeLines_append hterm]
      exact List.mem_append_right _ hin
    · -- nothing was written, so there was no line
      rw [List.append_right_eq_self.mp (hfile.symm.trans hsame)] at hin
      cases hin
  · intro e _ s hs
    obtain hfile | ⟨_, _, _, _, -, hfile⟩ := file_exec lib.evictOrder e.2.1 s
      ((calls i).tenantID lib lr) ((calls i).fileName lib)
    · exact (congrArg (l ∈ completeLines ·) hfile).mpr hs
    · exact (congrArg (l ∈ completeLines ·) hfile).mpr (mem_completeLines_append hs _)

end Runs

/-- **Acknowledged lines are kept.** In every run of requests in which no store writes behind a partial
line, every line of a request that was answered with 200 is a complete line of the file of its tenant
and day, and every complete line of a file is a line of a request for it. -/
theorem receiver_durable {ι : Type} [DecidableEq ι] (lib : ReceiverLib) (lr : LogReceiver)
    (calls : ι → LogCall) (sched : List ι)
    (h : ∀ e ∈ (receive lib lr calls sched).trace, AppendsToLines lib.evictOrder e.2.1 e.2.2) :
    (∀ i, (receive lib lr calls sched).threads i = .ret .ok → ∀ l ∈ (calls i).lines,
      l ∈ completeLines ((receive lib lr calls sched).mem.file ((calls i).tenantID lib lr)
        ((calls i).fileName lib))) ∧
    (∀ tenant name, ∀ l ∈ completeLines ((receive lib lr calls sched).mem.file tenant name),
      ∃ i, (calls i).tenantID lib lr = tenant ∧ (calls i).fileName lib = name ∧
        l ∈ (calls i).lines) :=
  ⟨fun _ hi _ hl => completeLines_acknowledged h hi hl,
    fun _ _ _ hl => completeLines_submitted h hl⟩

/-! ## Requests -/

/-- A library for which the texts `1` and `2` are JSON and every day has the same name. -/
def tinyLib : ReceiverLib where
  jsonValid line := line = str "1" ∨ line = str "2"
  parseMediaType := some
  formatDate _ := str "day"
  tokenOrder := insertionOrder
  evictOrder := insertionOrder

/-- A receiver with one tenant. -/
def tinyReceiver : LogReceiver := ⟨(∅ : GoMap GoString).insert (str "t") (str "secret"), 0, 0, 0⟩

/-- A request of this tenant. -/
def tinyCall (body : String) (faults : DiskFaults) : LogCall where
  request :=
    { method := str "POST"
      host := []
      path := str "/logs"
      query := fun _ => []
      header := fun name =>
        if name = str "Authorization" then [str "Bearer secret"]
        else if name = str "Content-Type" then [str "application/x-ndjson"]
        else []
      remoteAddr := str "10.0.0.1:4000"
      tls := false
      contentLength := -1
      body := .reader ⟨str body, false⟩ }
  now := 0
  faults := faults

/-- Two requests; the write of the first one stops after `n` bytes. -/
def tornCalls (n : ℕ) (i : Fin 2) : LogCall :=
  if i = 0 then tinyCall "1\n1" { DiskFaults.clean with write := some n }
  else tinyCall "2" .clean

theorem receiver_durable_whole_line :
    (receive tinyLib tinyReceiver (tornCalls 2) [0, 0, 0, 1, 1, 1]).threads 1 = .ret .ok ∧
      str "2" ∈ completeLines ((receive tinyLib tinyReceiver (tornCalls 2) [0, 0, 0, 1, 1, 1]).mem.file
        ((tornCalls 2 1).tenantID tinyLib tinyReceiver) ((tornCalls 2 1).fileName tinyLib)) := by
  have hrun : ((receive tinyLib tinyReceiver (tornCalls 2) [0, 0, 0, 1, 1, 1]).threads 1).result? =
      some .ok ∧ (∀ e ∈ (receive tinyLib tinyReceiver (tornCalls 2) [0, 0, 0, 1, 1, 1]).trace,
        AppendsToLines tinyLib.evictOrder e.2.1 e.2.2) ∧ str "2" ∈ (tornCalls 2 1).lines := by
    decide +kernel
  have hok := Prog.result?_eq_some.mp hrun.1
  exact ⟨hok, (receiver_durable _ _ _ _ hrun.2.1).1 1 hok _ hrun.2.2⟩

/-- **A torn line swallows the next one.** The write of the first request fails after the text of a
line. The second request is acknowledged, but its line is not a line of the file, and the line that
is there was never submitted. -/
theorem torn_line_swallows_next :
    (receive tinyLib tinyReceiver (tornCalls 1) [0, 0, 0, 1, 1, 1]).threads 1 = .ret .ok ∧
      str "2" ∈ (tornCalls 1 1).lines ∧
      completeLines ((receive tinyLib tinyReceiver (tornCalls 1) [0, 0, 0, 1, 1, 1]).mem.file
        ((tornCalls 1 1).tenantID tinyLib tinyReceiver) ((tornCalls 1 1).fileName tinyLib)) =
          [str "12"] ∧
      ∀ i, str "12" ∉ (tornCalls 1 i).lines := by
  have hrun : ((receive tinyLib tinyReceiver (tornCalls 1) [0, 0, 0, 1, 1, 1]).threads 1).result? =
      some .ok := by
    decide +kernel
  refine ⟨Prog.result?_eq_some.mp hrun, ?_⟩
  decide +kernel

end SynitWaf
