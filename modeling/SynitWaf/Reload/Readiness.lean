import SynitWaf.Reload.Transaction

/-!
# Readiness reports

A report reads the tenants and the health of their upstreams one by one. It holds `runtimeMu`, so that
no publication comes in between; requests and health checks do.

* `ReadinessReport`, **`readinessReport`**;
* `Coherent`: the tenants between two reloads;
* **`readiness_report_exact`**: what a report says about each tenant.
-/

namespace SynitWaf

open Atomic Go

/-! ## The source -/

/-- `ReadinessReport`. -/
structure ReadinessReport where
  ready : Bool
  checkedAt : ℤ
  configuredTenants : ℕ
  tenantsWithHealthyUpstream : ℕ
  reasons : List GoString

/-- One more reason. -/
def ReadinessReport.because (report : ReadinessReport) (reason : GoString) : ReadinessReport :=
  { report with reasons := report.reasons ++ [reason] }

/-- What is reported of a tenant whose upstreams are all down. -/
def downText (tenantName : GoString) : GoString :=
  str "tenant " ++ tenantName ++ str " has no healthy upstream"

section Report

variable (w : World)

/-- Whether one of the upstreams is healthy when it is looked at. -/
def anyHealthy : List UpstreamServer → Prog (handlerSig w) Bool
  | [] => .ret false
  | upstream :: rest => do
    if ← Prog.op (S := handlerSig w) (.upstream (.loadIsHealthy upstream.id)) then return true
    else anyHealthy rest

/-- One round of the loop over the tenants. -/
def reportTenant (report : ReadinessReport) (tenantName : GoString) :
    Prog (handlerSig w) ReadinessReport := do
  match ← Prog.op (S := handlerSig w) (.loadTenantState tenantName) with
  | none => return report.because (str "tenant " ++ tenantName ++ str " has no upstream state")
  | some state =>
    if state.upstreams = [] then
      return report.because (str "tenant " ++ tenantName ++ str " has no configured upstreams")
    else if ← anyHealthy w state.upstreams then
      return { report with tenantsWithHealthyUpstream := report.tenantsWithHealthyUpstream + 1 }
    else return report.because (downText tenantName)

/-- The loop over the tenants. -/
def reportTenants : ReadinessReport → List GoString → Prog (handlerSig w) ReadinessReport
  | report, [] => .ret report
  | report, tenantName :: rest => do reportTenants (← reportTenant w report tenantName) rest

/-- `h.crowdsecRequired.Load() && (h.bouncer.Load() == nil || !h.crowdsecHealthy.Load())`. -/
def crowdsecUnavailable (crowdsecHealthy : Bool) : Prog (handlerSig w) Bool := do
  if ← load .crowdsecRequired then return (← load .bouncer).isNone || !crowdsecHealthy
  else return false

/-- `ProxyHandler.ReadinessReport`; `crowdsecHealthy` is what the atomic of that name holds. -/
def readinessReport (now : ℤ) (crowdsecHealthy : Bool) : Prog (handlerSig w) ReadinessReport := do
  let crowdsec := if ← crowdsecUnavailable w crowdsecHealthy then
    [str "crowdsec is required by fail-closed policy but is unavailable"] else []
  let tenantNames := w.order.visit (← load .registry).mapping.keys
  let reasons := crowdsec ++ if tenantNames = [] then [str "no tenants are configured"] else []
  let report ← reportTenants w ⟨false, now, tenantNames.length, 0, reasons⟩ tenantNames
  return { report with ready := report.reasons = [] }

end Report

/-! ## The tenants between two reloads -/

/-- Every tenant that is served has a state with an upstream. -/
def Coherent (s : Runtime) : Prop :=
  ∀ host ∈ (s.pub .registry).mapping.keys,
    ∃ state, s.tenantStates.lookup host = some state ∧ state.upstreams ≠ []

section Coherent

variable {w : World} {s : Runtime}

theorem Event.coherent (e : Event w) (hs : Coherent s) : Coherent (e.run s) := by
  have hsame : ∀ s' : Runtime, s'.pub .registry = s.pub .registry →
      s'.tenantStates = s.tenantStates → Coherent s' := by
    intro s' hregistry hstates
    unfold Coherent
    rw [hregistry, hstates]
    exact hs
  cases e with
  | traffic t =>
    have hkeep := t.avoids.run (I := fun s' => s'.pub .registry = s.pub .registry ∧
      s'.tenantStates = s.tenantStates) (fun o s' ho h => by
        rw [Bool.not_eq_true] at ho
        cases o <;> first | exact h | cases ho) ⟨rfl, rfl⟩
    exact hsame _ hkeep.1 hkeep.2
  | attempt a =>
    obtain ⟨_, s', hrun, hquiet⟩ | ⟨s', hrun, -, cfg, -, hcfg⟩ := runReload_cases w a s
    · rw [Event.run, hrun]
      exact hsame s' (hquiet.values _ (by decide)) hquiet.tenantStates
    · rw [Event.run, hrun]
      intro host hhost
      have hstate := AList.lookup_isSome.mpr (AList.mem_keys.mp (hcfg.states.mem_iff.mpr hhost))
      obtain ⟨state, hstate⟩ := Option.isSome_iff_exists.mp hstate
      exact ⟨state, hstate, hcfg.upstreams host state hstate⟩

theorem runEvents_coherent (events : List (Event w)) (hs : Coherent s) :
    Coherent (runEvents events s) := by
  induction events generalizing s with
  | nil => exact hs
  | cons e events ih => exact ih (e.coherent hs)

end Coherent

/-! ## Reports -/

section Reports

variable {w : World} {s : Runtime} {seen : ℕ → Bool → Prop}

/-- The tenants are those of `s`. -/
structure SameTenants (s s' : Runtime) : Prop where
  pub : s'.pub = s.pub
  tenantStates : s'.tenantStates = s.tenantStates

/-- The tenants are those of `s`, and an upstream that is looked at is `seen` with its health. -/
structure Surveyed (s : Runtime) (seen : ℕ → Bool → Prop) (o : HandlerOp) (s' : Runtime) : Prop
    extends SameTenants s s' where
  health : ∀ u, o = .upstream (.loadIsHealthy u) → seen u (s'.upstreams.up u).isHealthy

/-- The operation is not one of a reload. -/
def ReadsOnly (o : HandlerOp) (_ : Runtime) : Prop := o.reloads = false

/-- The tenants `up` have an upstream that was seen healthy, those of `down` have upstreams which were
all seen unhealthy. -/
structure Sorted (s : Runtime) (seen : ℕ → Bool → Prop) (up down : List GoString) : Prop where
  up : ∀ host ∈ up, ∃ state u, s.tenantStates.lookup host = some state ∧ u ∈ state.upstreams ∧
    seen u.id true
  down : ∀ host ∈ down, ∃ state, s.tenantStates.lookup host = some state ∧ state.upstreams ≠ [] ∧
    ∀ u ∈ state.upstreams, seen u.id false

theorem anyHealthy_triple (upstreams : List UpstreamServer) :
    (anyHealthy w upstreams).Triple (Surveyed s seen) ReadsOnly fun healthy =>
      if healthy then ∃ u ∈ upstreams, seen u.id true else ∀ u ∈ upstreams, seen u.id false := by
  induction upstreams with
  | nil => simp [anyHealthy]
  | cons u rest ih =>
    intro s' hs'
    refine ⟨rfl, ?_⟩
    have hhealth := hs'.health u.id rfl
    change (if (s'.upstreams.up u.id).isHealthy = true then (.ret true : Prog (handlerSig w) Bool)
      else anyHealthy w rest).Triple _ _ _
    split_ifs with hup
    · rw [hup] at hhealth
      exact ⟨u, List.mem_cons_self, hhealth⟩
    · rw [Bool.not_eq_true] at hup
      rw [hup] at hhealth
      refine ih.mono (fun _ _ h => h) fun healthy h => ?_
      split_ifs at h ⊢
      · exact h.imp fun v hv => ⟨List.mem_cons_of_mem _ hv.1, hv.2⟩
      · exact List.forall_mem_cons.mpr ⟨hhealth, h⟩

theorem reportTenant_triple {host : GoString} {state : TenantState}
    (hstate : s.tenantStates.lookup host = some state) (hne : state.upstreams ≠ [])
    (report : ReadinessReport) : (reportTenant w report host).Triple (Surveyed s seen)
      ReadsOnly fun report' =>
        (∃ u ∈ state.upstreams, seen u.id true) ∧ report' = { report with
          tenantsWithHealthyUpstream := report.tenantsWithHealthyUpstream + 1 } ∨
        (∀ u ∈ state.upstreams, seen u.id false) ∧ report' = report.because (downText host) := by
  intro s' hs'
  refine ⟨rfl, ?_⟩
  have hload : (HandlerOp.exec w (.loadTenantState host) s').1 = some state :=
    (congrArg (AList.lookup host) hs'.tenantStates).trans hstate
  rw [hload]
  change Prog.Triple _ _ _ (if state.upstreams = [] then _ else _)
  rw [if_neg hne]
  refine (anyHealthy_triple state.upstreams).bind fun healthy h => ?_
  split_ifs at h ⊢
  · exact .inl ⟨h, rfl⟩
  · exact .inr ⟨h, rfl⟩

theorem reportTenants_triple (hs : Coherent s) (names : List GoString)
    (hnames : ∀ host ∈ names, host ∈ (s.pub .registry).mapping.keys) (report : ReadinessReport) :
    (reportTenants w report names).Triple (Surveyed s seen) ReadsOnly fun report' =>
      ∃ up down, (up ++ down).Perm names ∧ Sorted s seen up down ∧ report' = { report with
        tenantsWithHealthyUpstream := report.tenantsWithHealthyUpstream + up.length
        reasons := report.reasons ++ down.map downText } := by
  induction names generalizing report with
  | nil => exact ⟨[], [], .refl _, ⟨by simp, by simp⟩, by simp⟩
  | cons host names ih =>
    obtain ⟨state, hstate, hne⟩ := hs host (hnames host List.mem_cons_self)
    refine (reportTenant_triple hstate hne report).bind fun report₁ h₁ => ?_
    refine (ih (fun h hh => hnames h (List.mem_cons_of_mem _ hh)) report₁).mono (fun _ _ h => h) ?_
    rintro _ ⟨up, down, hperm, hsorted, rfl⟩
    rcases h₁ with ⟨⟨u, hu, hseen⟩, rfl⟩ | ⟨hseen, rfl⟩
    · refine ⟨host :: up, down, hperm.cons host, ⟨?_, hsorted.down⟩, ?_⟩
      · exact List.forall_mem_cons.mpr ⟨⟨state, u, hstate, hu, hseen⟩, hsorted.up⟩
      · simp [Nat.add_assoc, Nat.add_comm 1]
    · refine ⟨up, host :: down, List.perm_middle.trans (hperm.cons host), ⟨hsorted.up, ?_⟩, ?_⟩
      · exact List.forall_mem_cons.mpr ⟨⟨state, hstate, hne, hseen⟩, hsorted.down⟩
      · simp [ReadinessReport.because]

/-- The reasons that are not about a tenant. -/
def generalReasons (s : Runtime) (crowdsecHealthy : Bool) : List GoString :=
  (if s.pub .crowdsecRequired = true ∧ (s.pub .bouncer = none ∨ crowdsecHealthy = false) then
    [str "crowdsec is required by fail-closed policy but is unavailable"] else []) ++
  if (s.pub .registry).mapping.keys = [] then [str "no tenants are configured"] else []

theorem load_triple {α : Type} {f : Field} {g : f.Val → Prog (handlerSig w) α} {Q : α → Prop}
    (h : (g (s.pub f)).Triple (Surveyed s seen) ReadsOnly Q) :
    (load f >>= g).Triple (Surveyed s seen) ReadsOnly Q := by
  intro s' hs'
  refine ⟨rfl, ?_⟩
  change (g (s'.pub f)).Triple _ _ _
  rwa [hs'.pub]

theorem readinessReport_triple (hs : Coherent s) (now : ℤ) (crowdsecHealthy : Bool) :
    (readinessReport w now crowdsecHealthy).Triple (Surveyed s seen) ReadsOnly fun report =>
      ∃ up down, (up ++ down).Perm (s.pub .registry).mapping.keys ∧ Sorted s seen up down ∧
        report = ⟨report.reasons = [], now, (up ++ down).length, up.length,
          generalReasons s crowdsecHealthy ++ down.map downText⟩ := by
  have hcrowdsec : (crowdsecUnavailable w crowdsecHealthy).Triple (Surveyed s seen) ReadsOnly
      fun b => b = decide (s.pub .crowdsecRequired = true ∧
        (s.pub .bouncer = none ∨ crowdsecHealthy = false)) := by
    refine load_triple ?_
    split_ifs with hrequired
    · refine load_triple ?_
      change _ = _
      cases s.pub .bouncer <;> simp [hrequired]
    · exact (decide_eq_false fun h => hrequired h.1).symm
  refine hcrowdsec.bind fun _ hunavailable => load_triple ?_
  have hperm := w.order.perm (s.pub .registry).mapping.keys
  refine (reportTenants_triple hs _ (fun host => hperm.mem_iff.mp) _).bind ?_
  rintro _ ⟨up, down, hnames, hsorted, rfl⟩
  refine ⟨up, down, hnames.trans hperm, hsorted, ?_⟩
  have hnil : w.order.visit (s.pub .registry).mapping.keys = [] ↔
      (s.pub .registry).mapping.keys = [] := by
    rw [← List.length_eq_zero_iff, hperm.length_eq, List.length_eq_zero_iff]
  simp [hunavailable, generalReasons, hnil, hnames.length_eq, List.append_assoc]

theorem Traffic.readsOnly {I : Runtime → Prop} {α : Type} {p : Prog (handlerSig w) α}
    (hp : p.Avoids fun o : HandlerOp => o.reloads = true) : p.Ensures I ReadsOnly fun _ => True := by
  induction p with
  | ret a => trivial
  | act o k ih =>
    intro s' _
    have hstep := (Prog.avoids_act o k).mp hp s'
    exact ⟨Bool.eq_false_of_not_eq_true hstep.1, ih _ hstep.2⟩

theorem ReadsOnly.keeps {o : HandlerOp} {s' : Runtime} (ho : ReadsOnly o s') (h : SameTenants s s') :
    SameTenants s (o.exec w s').2 := by
  cases o <;> first | exact ⟨h.pub, h.tenantStates⟩ | cases ho

/-- A report and other traffic. -/
def reportThreads {κ : Type} (other : κ → Traffic w) (now : ℤ) (crowdsecHealthy : Bool) :
    Option κ → Prog (handlerSig w) (Option ReadinessReport)
  | none => readinessReport w now crowdsecHealthy >>= fun report => .ret (some report)
  | some k => (other k).prog >>= fun _ => .ret none

/-- A run of them from `s`. -/
def reportRun {κ : Type} [DecidableEq κ] (other : κ → Traffic w) (now : ℤ) (crowdsecHealthy : Bool)
    (s : Runtime) (sched : List (Option κ)) : Pool (handlerSig w) (Option κ) (Option ReadinessReport) :=
  (Pool.start (reportThreads other now crowdsecHealthy) s).runs sched

/-- The report of the run has looked at the upstream and found this health. -/
def SeenIn {κ : Type} [DecidableEq κ] (run : Pool (handlerSig w) (Option κ) (Option ReadinessReport))
    (u : ℕ) (healthy : Bool) : Prop :=
  Performed (own none run.trace) (.upstream (.loadIsHealthy u)) fun s =>
    (s.upstreams.up u).isHealthy = healthy

theorem report_sameTenants {κ : Type} [DecidableEq κ] (other : κ → Traffic w) (now : ℤ)
    (crowdsecHealthy : Bool) (hs : Coherent s) (sched : List (Option κ)) :
    ∀ e ∈ (reportRun other now crowdsecHealthy s sched).trace, SameTenants s e.2.2 := by
  have hthreads : ∀ i, (reportThreads other now crowdsecHealthy i).Ensures (SameTenants s) ReadsOnly
      fun _ => True := fun i => by
    cases i with
    | none =>
      have hreport : (readinessReport w now crowdsecHealthy).Triple (Surveyed s fun _ _ => True)
        ReadsOnly _ := readinessReport_triple hs now crowdsecHealthy
      exact (hreport.assume fun _ _ h => ⟨h, fun _ _ => trivial⟩).bind fun _ _ => trivial
    | some k => exact (Traffic.readsOnly (other k).avoids).bind fun _ _ => trivial
  have hfields := Pool.ensures (Q := fun _ _ => True) hthreads ⟨rfl, rfl⟩
    (fun o s' ho hI => ho.keeps hI) sched
  exact fun e he => (hfields.2.1 e he).1

end Reports

/-- **What a report says.** After any sequence of reloads, a report runs among requests and health
checks. It counts the tenants that are served; for each of them it has found an upstream healthy when it
looked at it, and counts it, or it has found all its upstreams unhealthy, and gives this as a
reason. It is ready if there is no reason, and it never meets a tenant without upstreams. -/
theorem readiness_report_exact (w : World) (history : List (Event w)) {κ : Type} [DecidableEq κ]
    (other : κ → Traffic w) (now : ℤ) (crowdsecHealthy : Bool) (sched : List (Option κ))
    (report : ReadinessReport)
    (h : (reportRun other now crowdsecHealthy (runEvents history newRuntime) sched).threads none =
      .ret (some report)) :
    ∃ up down, (up ++ down).Perm ((runEvents history newRuntime).pub .registry).mapping.keys ∧
      Sorted (runEvents history newRuntime)
        (SeenIn (reportRun other now crowdsecHealthy (runEvents history newRuntime) sched)) up down ∧
      report = ⟨report.reasons = [], now, (up ++ down).length, up.length,
        generalReasons (runEvents history newRuntime) crowdsecHealthy ++ down.map downText⟩ := by
  have hs : Coherent (runEvents history newRuntime) :=
    runEvents_coherent history fun host hhost => by simp [newRuntime, newValues] at hhost
  have hpath := path_own (reportThreads other now crowdsecHealthy) (runEvents history newRuntime) sched
    none
  rw [← reportRun, h] at hpath
  obtain ⟨p, hp, hpath⟩ := hpath.of_pack
  cases p with
  | act o k => cases hp
  | ret r =>
    cases hp
    refine ((readinessReport_triple hs now crowdsecHealthy).path hpath fun e he => ⟨?_, ?_⟩).1
    · exact report_sameTenants other now crowdsecHealthy hs sched (none, e) (mem_own.mp he)
    · rintro u hload
      exact ⟨e.2, hload ▸ he, rfl⟩

/-- A report about the small site. Its upstream goes down right before the report looks at it and is up
again right after that. -/
def siteReport : Pool (handlerSig site) (Option Bool) (Option ReadinessReport) :=
  reportRun (fun up => .upstream (performCheck ⟨0, []⟩ up)) 0 true
    (runEvents (w := site) [.attempt siteAttempt] newRuntime)
    [none, none, none, some false, some false, none, some true, some true]

theorem readiness_report_exact_site : ∃ report, siteReport.threads none = .ret (some report) ∧
    report.reasons = [downText (str "a")] ∧ (siteReport.mem.upstreams.up 0).isHealthy = true ∧
    ∃ up down, report.tenantsWithHealthyUpstream = up.length ∧ report.configuredTenants =
      (up ++ down).length ∧ Sorted (runEvents (w := site) [.attempt siteAttempt] newRuntime)
        (SeenIn siteReport) up down := by
  have hend : ((siteReport.threads none).result?.bind id).map ReadinessReport.reasons =
      some [downText (str "a")] ∧ (siteReport.mem.upstreams.up 0).isHealthy = true := by
    decide +kernel
  obtain ⟨report, hreport, hreasons⟩ := Option.map_eq_some_iff.mp hend.1
  obtain ⟨_, hr, rfl⟩ := Option.bind_eq_some_iff.mp hreport
  have h := Prog.result?_eq_some.mp hr
  obtain ⟨up, down, -, hsorted, heq⟩ :=
    readiness_report_exact site [.attempt siteAttempt] _ 0 true _ report h
  exact ⟨report, h, hreasons, hend.2, up, down, by rw [heq], by rw [heq], hsorted⟩

end SynitWaf
