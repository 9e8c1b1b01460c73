import SynitWaf.Reload.Publication
import SynitWaf.Upstream.Select

/-!
# The window in which a tenant has no state

A publication deletes every tenant state before it stores the new ones. A request that loads the
state of its tenant in between finds none, although its tenant is served before and after.

* `proxyRequest_inv`: what the last stage of a request can do;
* `Overlap.AvailableThroughout`: the tenants the host matches have an available upstream, under both
  generations and in every state of the run;
* `LoadsOutsideGap`, `DrawsFresh`: conditions on the order of the steps;
* **`serves_from_upstream`**: a request that meets the conditions is answered by an earlier stage or
  handed to an upstream, in every interleaving;
* `serves_no_backend`: an interleaving with a request that loads its tenant state in the window.
-/

namespace SynitWaf

open Atomic Go

/-! ## The last stage -/

section Proxy

variable {w : World}

/-- The steps on upstreams. -/
def upstreamSteps (t : Steps (handlerSig w)) : Steps upstreamSig :=
  t.filterMap fun e : HandlerOp × Runtime =>
    match e.1 with
    | .upstream o => some (o, e.2.upstreams)
    | _ => none

theorem upstreamSteps_append (t u : Steps (handlerSig w)) :
    upstreamSteps (t ++ u) = upstreamSteps t ++ upstreamSteps u := List.filterMap_append

theorem mem_upstreamSteps {t : Steps (handlerSig w)} {x : UpstreamOp × UpstreamHeap}
    (h : x ∈ upstreamSteps t) : ∃ e ∈ t, e.2.upstreams = x.2 := by
  obtain ⟨e, he, hx⟩ := List.mem_filterMap.mp h
  refine ⟨e, he, ?_⟩
  split at hx
  · cases hx
    rfl
  · cases hx

/-- The steps of a lifted program are its own. -/
theorem upstreamSteps_of_lift {t : Steps (handlerSig w)} {t' : Steps upstreamSig}
    (h : List.Forall₂ (fun x y => x.1 = (upstreamPart w).op y.1 ∧ (upstreamPart w).view x.2 = y.2)
      t t') : upstreamSteps t = t' := by
  induction h with
  | nil => rfl
  | @cons x y t t' hxy _ ih =>
    obtain ⟨o, s⟩ := x
    obtain ⟨rfl, hview⟩ := hxy
    have hcons : upstreamSteps ((HandlerOp.upstream y.1, s) :: t) =
        (y.1, s.upstreams) :: upstreamSteps t := rfl
    exact hcons.trans (by rw [ih, show s.upstreams = y.2 from hview])

/-- **What the last stage can do.** -/
theorem proxyRequest_inv {now : ℤ} {info : RequestInfo} {t : Steps (handlerSig w)} {served : Served}
    (h : Path (proxyRequest now info) t (.ret served)) :
    ∃ s t', t = (.loadTenantState info.tenant, s) :: t' ∧
      ∀ state, s.tenantStates.lookup info.tenant = some state →
        ∃ r, Path (selectUpstream state now) (upstreamSteps t') (.ret r) ∧
          served.isUpstream = r.isSome := by
  obtain ⟨s, t', rfl, hrest⟩ := h.act_ret_inv
  refine ⟨s, t', rfl, fun state hstate => ?_⟩
  have hanswer : ((handlerSig w).exec (.loadTenantState info.tenant) s).1 = some state := hstate
  rw [hanswer] at hrest
  obtain ⟨r, t₁, t₂, rfl, hselect, hend⟩ :=
    Path.bind_inv (p := (selectUpstream state now).lift (upstreamPart w)) hrest
  obtain ⟨p', t₁', hp', hpath, hsteps⟩ := hselect.of_lift
  have hret : p' = .ret r := by
    cases p' with
    | ret r' => cases hp'; rfl
    | act o k => cases hp'
  have hnil : t₂ = [] ∧ served.isUpstream = r.isSome := by
    cases r with
    | none =>
      obtain ⟨rfl, hserved⟩ := Path.ret_inv hend
      cases hserved
      exact ⟨rfl, rfl⟩
    | some u =>
      obtain ⟨rfl, hserved⟩ := Path.ret_inv hend
      cases hserved
      exact ⟨rfl, rfl⟩
  refine ⟨r, ?_, hnil.2⟩
  rw [hnil.1, List.append_nil, upstreamSteps_of_lift hsteps]
  exact hret ▸ hpath

end Proxy

/-! ## The conditions -/

/-- The operation deletes the tenant state that the given read loads. -/
def HandlerOp.deletes : HandlerOp → HandlerOp → Bool
  | .deleteTenantState domain, .loadTenantState domain' => domain = domain'
  | _, _ => false

/-- The operation stores the tenant state that the given read loads. -/
def HandlerOp.stores : HandlerOp → HandlerOp → Bool
  | .storeTenantState domain _, .loadTenantState domain' => domain = domain'
  | _, _ => false

/-- The tenant state that a step loads. -/
def loadedState : HandlerOp × Runtime → Option TenantState
  | (.loadTenantState domain, s) => s.tenantStates.lookup domain
  | _ => none

namespace Overlap

variable {w : World} {ι κ : Type} [DecidableEq ι] [DecidableEq κ]

/-- Each tenant the host matches, before or after the publication, has before and after it a state
with an upstream that is healthy and outside its cooldown in every state of the run. -/
def AvailableThroughout (c : Overlap w ι κ) (mem : Runtime) (i : ι)
    (t : Trace (handlerSig w) (Task ι κ)) : Prop :=
  ∀ g ∈ [mem, c.after mem], ∀ domain ∈ matchedDomain w (c.request i) (g.pub .registry),
    ∀ g' ∈ [mem, c.after mem], ∃ state ∈ g'.tenantStates.lookup domain, ∃ u ∈ state.upstreams,
      ∀ e ∈ t, Available (c.clock i).select u e.2.2.upstreams

/-- Whenever the request loads a tenant state that the publication has deleted, the publication has
stored the new one. -/
def LoadsOutsideGap (i : ι) : Trace (handlerSig w) (Task ι κ) → Prop :=
  AtSteps fun earlier e => e.1 = .request i →
    (∃ x ∈ earlier, HandlerOp.deletes x.2.1 e.2.1 = true) →
      ∃ x ∈ earlier, HandlerOp.stores x.2.1 e.2.1 = true

/-- The request draws no index twice from the counter of the state it loads. -/
def DrawsFresh (i : ι) (t : Trace (handlerSig w) (Task ι κ)) : Prop :=
  ∀ e ∈ own (.request i) t, ∀ state ∈ loadedState e,
    (probes state (upstreamSteps (own (.request i) t))).Nodup

instance (c : Overlap w ι κ) (mem : Runtime) (i : ι) (t : Trace (handlerSig w) (Task ι κ)) :
    Decidable (c.AvailableThroughout mem i t) := by
  unfold AvailableThroughout
  infer_instance

instance (i : ι) (t : Trace (handlerSig w) (Task ι κ)) : Decidable (LoadsOutsideGap i t) :=
  inferInstanceAs (Decidable (AtSteps _ t))

instance (i : ι) (t : Trace (handlerSig w) (Task ι κ)) : Decidable (DrawsFresh i t) := by
  unfold DrawsFresh
  infer_instance

section Steps

variable {c : Overlap w ι κ} {mem : Runtime} {sched : List (Task ι κ)} {i : ι}
  {t₁ t₂ : Trace (handlerSig w) (Task ι κ)} {domain : GoString} {s : Runtime}

/-- Outside the gap the state of a tenant is the old one or the new one. -/
theorem lookup_eq_old_or_new (h : LoadsOutsideGap i (c.run mem sched).trace)
    (ht : (c.run mem sched).trace = t₁ ++ (.request i, .loadTenantState domain, s) :: t₂) :
    ∃ g ∈ [mem, c.after mem], s.tenantStates.lookup domain = g.tenantStates.lookup domain := by
  by_cases hstored : ∃ x ∈ t₁, ∃ state, x.2.1 = .storeTenantState domain state
  · exact ⟨c.after mem, by simp, lookup_eq_new ht hstored⟩
  · refine ⟨mem, by simp, lookup_eq_old ht fun x hx => ?_⟩
    have hnotStored : ∀ y ∈ t₁, y.2.1.stores (.loadTenantState domain) = false := by
      intro y hy
      cases ho : y.2.1 with
      | storeTenantState domain' state =>
        refine decide_eq_false fun hd => hstored ⟨y, hy, state, ?_⟩
        rw [ho, hd]
      | _ => rfl
    have hgap : (∃ y ∈ t₁, y.2.1.deletes (.loadTenantState domain) = true) →
        ∃ y ∈ t₁, y.2.1.stores (.loadTenantState domain) = true := by
      rw [ht] at h
      exact h.split rfl
    have hnotDeleted : x.2.1.deletes (.loadTenantState domain) = false := by
      rw [← Bool.not_eq_true]
      intro hdeleted
      obtain ⟨y, hy, hy'⟩ := hgap ⟨x, hx, hdeleted⟩
      rw [hnotStored y hy] at hy'
      cases hy'
    have hx' := hnotStored x hx
    cases ho : x.2.1 with
    | deleteTenantState domain' => rw [ho] at hnotDeleted; exact hnotDeleted
    | storeTenantState domain' state => rw [ho] at hx'; exact hx'
    | _ => rfl

/-- The state a request loads has an upstream that is available throughout. -/
theorem loads_available (havail : c.AvailableThroughout mem i (c.run mem sched).trace)
    (hgap : LoadsOutsideGap i (c.run mem sched).trace)
    (ht : (c.run mem sched).trace = t₁ ++ (.request i, .loadTenantState domain, s) :: t₂) :
    ∃ state, s.tenantStates.lookup domain = some state ∧ ∃ u ∈ state.upstreams,
      ∀ e ∈ (c.run mem sched).trace, Available (c.clock i).select u e.2.2.upstreams := by
  obtain ⟨u₁, u₂, s', rfl, hmatched⟩ := loads_matched ht
  have hregistry : ∃ g ∈ [mem, c.after mem], s'.pub .registry = g.pub .registry := by
    have ht' := ht
    rw [List.append_assoc] at ht'
    rcases pub_eq (f := .registry) ht' rfl with hold | hnew
    · exact ⟨mem, by simp, hold⟩
    · exact ⟨c.after mem, by simp, hnew⟩
  obtain ⟨g, hg, hpub⟩ := hregistry
  rw [hpub] at hmatched
  obtain ⟨g', hg', hlookup⟩ := lookup_eq_old_or_new hgap ht
  obtain ⟨state, hstate, hu⟩ := havail g hg domain hmatched g' hg'
  exact ⟨state, hlookup.trans hstate, hu⟩

end Steps

/-- **Requests during a publication.** In every interleaving of a publication with requests and other
traffic: if the tenants a host matches have an available upstream under both generations throughout
the run, a request for the host that does not load its tenant state between the deletion and the
store of it, and draws no index twice, is answered by a stage before the last one or handed to an
upstream. -/
theorem serves_from_upstream (c : Overlap w ι κ) (mem : Runtime) (sched : List (Task ι κ)) (i : ι)
    (havail : c.AvailableThroughout mem i (c.run mem sched).trace)
    (hgap : LoadsOutsideGap i (c.run mem sched).trace)
    (hfresh : DrawsFresh i (c.run mem sched).trace) (served : Served)
    (hserved : ((c.run mem sched).threads (.request i)).result? = some (some served)) :
    (∀ e ∈ own (.request i) (c.run mem sched).trace, HandlerOp.loadsState e.1 = false) ∨
      served.isUpstream = true := by
  obtain ⟨p, hp, hpath⟩ := request_path c mem sched i
  have hret : p = .ret served := by
    rw [hp] at hserved
    cases p with
    | ret a => cases hserved; rfl
    | act o k => cases hserved
  rw [hret] at hpath
  obtain hearly | ⟨q, t₁, t₂, ⟨info, rfl⟩, hown, hlast⟩ := serveHTTP_loadsLast _ _ hpath
  · exact .inl fun e he => Bool.eq_false_of_not_eq_true (hearly e he)
  right
  obtain ⟨s, t', rfl, hselect⟩ := proxyRequest_inv hlast
  obtain ⟨T₁, T₂, ht, -, -⟩ := own_split hown
  obtain ⟨state, hstate, u, hu, havailable⟩ := loads_available havail hgap ht
  obtain ⟨r, hpathr, hisUpstream⟩ := hselect state hstate
  have hsteps : ∀ x ∈ upstreamSteps t', Available (c.clock i).select u x.2 := by
    intro x hx
    obtain ⟨e, he, hheap⟩ := mem_upstreamSteps hx
    have hmem : e ∈ own (.request i) (c.run mem sched).trace := by
      rw [hown]
      simp [he]
    rw [← hheap]
    exact havailable _ (mem_own.mp hmem)
  have hnodup : (probes state (upstreamSteps t')).Nodup := by
    have hall := hfresh (.loadTenantState info.tenant, s) (by rw [hown]; simp) state hstate
    rw [hown, upstreamSteps_append, probes, List.filterMap_append] at hall
    exact (List.nodup_append.mp hall).2.1
  have hsome := selectUpstream_path_ne_none hpathr hu hsteps hnodup
  rw [hisUpstream]
  exact Option.isSome_iff_ne_none.mpr hsome

end Overlap

/-! ## A request in the window -/

/-- The request runs up to the load of its tenant state, the publication performs `n` steps, and the
request goes on. -/
def pauseAtLoad (n : ℕ) : List (Task Unit Empty) :=
  List.replicate 6 (.request ()) ++ List.replicate n .publication ++ List.replicate 20 (.request ())

theorem serves_from_upstream_stored : ∃ served,
    ((moving.run movedRuntime (pauseAtLoad 22)).threads (.request ())).result? =
      some (some served) ∧ served.isUpstream = true := by
  -- the run is evaluated once for all that is read off it
  obtain ⟨hreturns, hload, havail, hgap, hfresh⟩ :
      ((moving.run movedRuntime (pauseAtLoad 22)).threads
        (.request ())).result?.join.isSome = true ∧
      (¬ ∀ e ∈ own (.request ()) (moving.run movedRuntime (pauseAtLoad 22)).trace,
        HandlerOp.loadsState e.1 = false) ∧
      moving.AvailableThroughout movedRuntime () (moving.run movedRuntime (pauseAtLoad 22)).trace ∧
      Overlap.LoadsOutsideGap () (moving.run movedRuntime (pauseAtLoad 22)).trace ∧
      Overlap.DrawsFresh () (moving.run movedRuntime (pauseAtLoad 22)).trace := by decide +kernel
  obtain ⟨served, hjoin⟩ := Option.isSome_iff_exists.mp hreturns
  have hserved := Option.join_eq_some_iff.mp hjoin
  exact ⟨served, hserved, (Overlap.serves_from_upstream moving movedRuntime (pauseAtLoad 22) ()
    havail hgap hfresh served hserved).resolve_left hload⟩

/-- The answer of the proxy itself. -/
def Served.reply? : Served → Option Reply
  | .reply r => some r
  | _ => none

/-- **A tenant without a state.** The tenant is present with a healthy upstream before and after the
publication. The request loads its state when the publication has deleted the old one and not yet
stored the new one, and is answered 503. -/
theorem serves_no_backend :
    (∀ g ∈ [movedRuntime, moving.after movedRuntime],
      matchedDomain site siteRequest (g.pub .registry) = some (str "a")) ∧
    moving.AvailableThroughout movedRuntime () (moving.run movedRuntime (pauseAtLoad 21)).trace ∧
    ((moving.run movedRuntime (pauseAtLoad 21)).threads (.request ())).result?.join.bind
      Served.reply? = some noBackend := by
  decide +kernel

end SynitWaf
