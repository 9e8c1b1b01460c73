import SynitWaf.Reload.Publication

/-!
# CrowdSec verdicts and reloads

A reload stores the bouncer and the time to live, and then empties the cache of verdicts. A lookup
loads both, and adds to the cache what it has asked for.

* `Lookups`: lookups among reloads that are published one after the other, and other traffic;
* **`inForce_run`**: the bouncer and the time to live in force are those of the reload that emptied
  the cache last, or of a later one;
* `cache_run`: where an entry of the cache comes from;
* `crowdSecDecision_add_inv`, `crowdSecDecision_ret_inv`: what a lookup has done;
* **`verdicts_current`**: if no reload empties the cache between the start of a lookup and its
  addition, a lookup that starts after a reload has a verdict of that or a later generation;
* `verdict_survives_reload`: a lookup that adds the verdict of the old bouncer after the reload.
-/

namespace SynitWaf

open Atomic Go

/-! ## Operations -/

/-- The operation stores a bouncer or a time to live, or empties the cache. -/
def HandlerOp.publishesCrowdSec : HandlerOp → Bool
  | .store .bouncer _ => true
  | .store .crowdsecCacheTTL _ => true
  | .crowdsec .purge => true
  | _ => false

/-- The operation empties the cache. -/
def HandlerOp.purgesCrowdSec : HandlerOp → Bool
  | .crowdsec .purge => true
  | _ => false

/-- The operation adds to the cache. -/
def HandlerOp.addsVerdict : HandlerOp → Bool
  | .crowdsec (.cacheAdd _ _) => true
  | _ => false

/-- The operation changes the bouncer, the time to live or the verdicts. -/
def HandlerOp.setsCrowdSec (o : HandlerOp) : Bool := o.publishesCrowdSec || o.addsVerdict

/-- The operation writes or drops the entry of a client. -/
def HandlerOp.touchesVerdict (clientIP : GoString) : HandlerOp → Bool
  | .crowdsec .purge => true
  | .crowdsec (.cacheAdd ip _) => ip = clientIP
  | .crowdsec (.evict ip) => ip = clientIP
  | _ => false

section Exec

variable {w : World} {o : HandlerOp} {s : Runtime}

theorem exec_pub_of_not_publishes (h : o.publishesCrowdSec = false) :
    (o.exec w s).2.pub .bouncer = s.pub .bouncer ∧
      (o.exec w s).2.pub .crowdsecCacheTTL = s.pub .crowdsecCacheTTL := by
  cases o with
  | store f v => cases f <;> first | exact ⟨rfl, rfl⟩ | cases h
  | _ => exact ⟨rfl, rfl⟩

theorem exec_cache_of_not_touches {clientIP : GoString} (h : o.touchesVerdict clientIP = false) :
    (o.exec w s).2.crowdsec.cache clientIP = s.crowdsec.cache clientIP := by
  cases o with
  | crowdsec o =>
    cases o with
    | purge => cases h
    | cacheAdd ip d | evict ip =>
      have hne : clientIP ≠ ip := fun hip => by simp [HandlerOp.touchesVerdict, hip] at h
      exact Function.update_of_ne hne _ _
    | _ => rfl
  | _ => rfl

end Exec

/-! ## Reloads -/

/-- The bouncer and the time to live of a generation. -/
def Generation.crowdSec (g : Generation) : Option Bouncer × ℤ := (g.bouncer, g.crowdsecCacheTTL)

/-- How far a publication is. -/
inductive PublishStage where
  | idle
  | bouncerStored (g : Generation)
  | ttlStored (g : Generation)

section Reloads

variable {w : World} {α β : Type}

/-- The program stores the bouncer and the time to live of each generation and then empties the
cache, and does nothing else to them. -/
inductive Publishes : List Generation → PublishStage → Prog (handlerSig w) α → Prop
  | ret (a : α) : Publishes [] .idle (.ret a)
  | other {gs : List Generation} {stage : PublishStage} {o : HandlerOp}
      {k : o.Res → Prog (handlerSig w) α} (h : o.setsCrowdSec = false)
      (hk : ∀ s, Publishes gs stage (k (o.exec w s).1)) :
      Publishes gs stage (Prog.act (S := handlerSig w) o k)
  | bouncer {gs : List Generation} {g : Generation} {k : Unit → Prog (handlerSig w) α}
      (hk : Publishes gs (.bouncerStored g) (k ())) :
      Publishes (g :: gs) .idle (Prog.act (S := handlerSig w) (.store .bouncer g.bouncer) k)
  | ttl {gs : List Generation} {g : Generation} {k : Unit → Prog (handlerSig w) α}
      (hk : Publishes gs (.ttlStored g) (k ())) :
      Publishes gs (.bouncerStored g)
        (Prog.act (S := handlerSig w) (.store .crowdsecCacheTTL g.crowdsecCacheTTL) k)
  | purge {gs : List Generation} {g : Generation} {k : Unit → Prog (handlerSig w) α}
      (hk : Publishes gs .idle (k ())) :
      Publishes gs (.ttlStored g) (Prog.act (S := handlerSig w) (.crowdsec .purge) k)

theorem Publishes.bind {gs : List Generation} {stage : PublishStage} {p : Prog (handlerSig w) α}
    {f : α → Prog (handlerSig w) β} (hp : p.Avoids fun o : HandlerOp => o.setsCrowdSec = true)
    (hf : ∀ a, Publishes gs stage (f a)) : Publishes gs stage (p >>= f) := by
  induction p with
  | ret a => exact hf a
  | act o k ih =>
    rw [Prog.avoids_act] at hp
    exact .other (eq_false_of_ne_true (hp newRuntime).1) fun s => ih _ (hp s).2

theorem avoids_sets {o : HandlerOp} (h : o.setsCrowdSec = false) :
    (Prog.op (S := handlerSig w) o).Avoids fun o : HandlerOp => o.setsCrowdSec = true :=
  Prog.avoids_op (by simp [h])

/-- The part of a publication after the settings. -/
theorem publish_rest_avoids (env : Surroundings) (g : Generation)
    (oldCoordinator : Option Coordinator) (oldGeoIP : Option ℕ) :
    Prog.Avoids (S := handlerSig w) (fun o : HandlerOp => o.setsCrowdSec = true) (do
      replaceTenantStates w (env.order .previous) (env.order .publish) g.built.states
      publishRegistry w (g.registry (env.order .wildcards)) g
      closeReplaced w oldCoordinator oldGeoIP g) := by
  refine Prog.Avoids.bind ?_ fun _ => Prog.Avoids.bind ?_ fun _ => ?_
  · refine Prog.Avoids.bind (avoids_sets rfl) fun _ => Prog.Avoids.bind ?_ fun _ => ?_
    · exact Prog.Avoids.each fun _ _ => avoids_sets rfl
    · exact Prog.Avoids.each fun _ _ => avoids_sets rfl
  · unfold publishRegistry
    repeat' refine Prog.Avoids.bind (avoids_sets rfl) fun _ => ?_
    exact Prog.avoids_ret _
  · exact closeReplaced_avoids _ _ (fun _ => Bool.false_ne_true) fun _ => Bool.false_ne_true

/-- **A publication** stores the bouncer, stores the time to live and empties the cache. -/
theorem publishes_publish (env : Surroundings) (g : Generation) {gs : List Generation}
    {p : Prog (handlerSig w) β} (hp : Publishes gs .idle p) :
    Publishes (g :: gs) .idle (publish w env g >>= fun _ => p) := by
  refine .other rfl fun s => ?_
  -- the settings before the bouncer
  iterate 11 refine .other rfl fun _ => ?_
  refine .bouncer (.ttl (.purge ?_))
  iterate 4 refine .other rfl fun _ => ?_
  exact Publishes.bind (publish_rest_avoids env g _ _) fun _ => hp

/-- **Reloads one after the other.** -/
theorem publishes_each (env : Surroundings) (gs : List Generation) (a : α) :
    Publishes gs .idle (Prog.each (publish w env) gs >>= fun _ => .ret a) := by
  induction gs with
  | nil => exact .ret a
  | cons g gs ih =>
    rw [Prog.each, Prog.bind_assoc]
    exact publishes_publish env g ih

/-- Reloads add no verdicts. -/
theorem Publishes.avoids_adds {gs : List Generation} {stage : PublishStage}
    {p : Prog (handlerSig w) α} (h : Publishes gs stage p) :
    p.Avoids fun o : HandlerOp => o.addsVerdict = true := by
  induction h with
  | ret a => exact Prog.avoids_ret a
  | other hsets _ ih =>
    have hadds := (Bool.or_eq_false_iff.mp hsets).2
    exact (Prog.avoids_act _ _).mpr fun s => ⟨by simp [hadds], ih s⟩
  | bouncer _ ih | ttl _ ih | purge _ ih =>
    exact (Prog.avoids_act _ _).mpr fun _ => ⟨Bool.false_ne_true, ih⟩

end Reloads

/-! ## Lookups among reloads -/

/-- The threads: the reloads, the lookups and other traffic. -/
inductive LookupTask (ι κ : Type) where
  | reloads
  | lookup (i : ι)
  | other (k : κ)
  deriving DecidableEq

/-- Traffic that leaves the bouncer, the time to live and the verdicts alone; it may evict them. -/
structure Bystander (w : World) where
  prog : Prog (handlerSig w) Unit
  avoids : prog.Avoids fun o : HandlerOp => o.setsCrowdSec = true

/-- Lookups, each with the time it reads and its client, while generations are published. -/
structure Lookups (w : World) (ι κ : Type) where
  env : Surroundings
  generations : List Generation
  now : ι → ℤ
  clientIP : ι → GoString
  other : κ → Bystander w

/-- The reloads that have emptied the cache; each reload that has completed is one of them. -/
def purges {w : World} {τ : Type} (t : Trace (handlerSig w) τ) : ℕ :=
  t.countP fun e => HandlerOp.purgesCrowdSec e.2.1

namespace Lookups

variable {w : World} {ι κ : Type} (c : Lookups w ι κ)

/-- The program of a thread. -/
def threads : LookupTask ι κ → Prog (handlerSig w) (Option Bool)
  | .reloads => Prog.each (publish w c.env) c.generations >>= fun _ => .ret none
  | .lookup i => crowdSecDecision (c.now i) (c.clientIP i)
  | .other k => (c.other k).prog >>= fun _ => .ret none

/-- The bouncer and the time to live at the beginning and of each generation. -/
def configurations (mem : Runtime) : List (Option Bouncer × ℤ) :=
  (mem.pub .bouncer, mem.pub .crowdsecCacheTTL) :: c.generations.map Generation.crowdSec

variable [DecidableEq ι] [DecidableEq κ]

/-- A run from `mem`. -/
def run (mem : Runtime) (sched : List (LookupTask ι κ)) :
    Pool (handlerSig w) (LookupTask ι κ) (Option Bool) :=
  (Pool.start c.threads mem).runs sched

end Lookups

/-- The configurations, of which `n` are past, with the values in force in the middle of the change
from one to the next. -/
def PublishStage.InForce (configs : List (Option Bouncer × ℤ)) (n : ℕ) (s : Runtime)
    (gs : List Generation) : PublishStage → Prop
  | .idle => ∃ past, past.length = n ∧
      configs = past ++ (s.pub .bouncer, s.pub .crowdsecCacheTTL) :: gs.map Generation.crowdSec
  | .bouncerStored g => ∃ past old, past.length = n ∧ s.pub .bouncer = g.bouncer ∧
      configs = past ++ (old, s.pub .crowdsecCacheTTL) :: g.crowdSec :: gs.map Generation.crowdSec
  | .ttlStored g => ∃ past old, past.length = n ∧ s.pub .bouncer = g.bouncer ∧
      s.pub .crowdsecCacheTTL = g.crowdsecCacheTTL ∧
      configs = past ++ old :: g.crowdSec :: gs.map Generation.crowdSec

theorem PublishStage.InForce.congr {configs : List (Option Bouncer × ℤ)} {n : ℕ} {s s' : Runtime}
    {gs : List Generation} {stage : PublishStage} (h : stage.InForce configs n s gs)
    (hb : s'.pub .bouncer = s.pub .bouncer)
    (ht : s'.pub .crowdsecCacheTTL = s.pub .crowdsecCacheTTL) : stage.InForce configs n s' gs := by
  cases stage <;> simpa only [InForce, hb, ht] using h

theorem PublishStage.InForce.mem_drop {configs : List (Option Bouncer × ℤ)} {n : ℕ} {s : Runtime}
    {gs : List Generation} {stage : PublishStage} (h : stage.InForce configs n s gs) :
    (∃ cfg ∈ configs.drop n, cfg.1 = s.pub .bouncer) ∧
      ∃ cfg ∈ configs.drop n, cfg.2 = s.pub .crowdsecCacheTTL := by
  cases stage with
  | idle =>
    obtain ⟨past, rfl, rfl⟩ := h
    rw [List.drop_left]
    exact ⟨⟨_, List.mem_cons_self, rfl⟩, _, List.mem_cons_self, rfl⟩
  | bouncerStored g =>
    obtain ⟨past, old, rfl, hb, rfl⟩ := h
    rw [List.drop_left]
    exact ⟨⟨_, List.mem_cons_of_mem _ List.mem_cons_self, hb.symm⟩, _, List.mem_cons_self, rfl⟩
  | ttlStored g =>
    obtain ⟨past, old, rfl, hb, ht, rfl⟩ := h
    rw [List.drop_left]
    exact ⟨⟨_, List.mem_cons_of_mem _ List.mem_cons_self, hb.symm⟩,
      _, List.mem_cons_of_mem _ List.mem_cons_self, ht.symm⟩

section Runs

variable {w : World} {τ α : Type}

theorem purges_append (t : Trace (handlerSig w) τ) (e : τ × HandlerOp × Runtime) :
    purges (t ++ [e]) = purges t + if e.2.1.purgesCrowdSec then 1 else 0 := by
  rw [purges, List.countP_append, List.countP_singleton, ← purges]

theorem purgesCrowdSec_of_not_publishes {o : HandlerOp} (h : o.publishesCrowdSec = false) :
    o.purgesCrowdSec = false := by
  cases o with
  | crowdsec o => cases o <;> first | rfl | cases h
  | _ => rfl

/-- **A step of the reloads.** -/
theorem Publishes.step {configs : List (Option Bouncer × ℤ)} {n : ℕ} {s : Runtime}
    {gs : List Generation} {stage : PublishStage} {o : HandlerOp}
    {k : o.Res → Prog (handlerSig w) α}
    (hp : Publishes gs stage (Prog.act (S := handlerSig w) o k)) (h : stage.InForce configs n s gs) :
    ∃ gs' stage', Publishes gs' stage' (k (o.exec w s).1) ∧
      stage'.InForce configs (n + if o.purgesCrowdSec then 1 else 0) (o.exec w s).2 gs' := by
  cases hp with
  | other hsets hk =>
    have hquiet := (Bool.or_eq_false_iff.mp hsets).1
    have hpub := exec_pub_of_not_publishes (w := w) (s := s) hquiet
    rw [purgesCrowdSec_of_not_publishes hquiet]
    exact ⟨gs, stage, hk s, h.congr hpub.1 hpub.2⟩
  | @bouncer gs g k hk =>
    obtain ⟨past, hn, hconfigs⟩ := h
    exact ⟨gs, .bouncerStored g, hk, past, _, hn, rfl, hconfigs⟩
  | ttl hk =>
    obtain ⟨past, old, hn, hb, hconfigs⟩ := h
    exact ⟨gs, .ttlStored _, hk, past, _, hn, hb, rfl, hconfigs⟩
  | purge hk =>
    obtain ⟨past, old, hn, hb, ht, hconfigs⟩ := h
    refine ⟨gs, .idle, hk, past ++ [old], by simp [hn, HandlerOp.purgesCrowdSec], ?_⟩
    change configs = past ++ [old] ++ (s.pub .bouncer, s.pub .crowdsecCacheTTL) :: _
    rw [hb, ht, List.append_assoc]
    exact hconfigs

end Runs

/-! ## One lookup -/

/-- Where a lookup is, with what it has loaded. -/
inductive LookupPc where
  | start
  | loaded (bouncer : Bouncer)
  | probing (bouncer : Bouncer) (ttl : ℤ)
  | asking (bouncer : Bouncer) (ttl : ℤ)
  | answered (bouncer : Bouncer) (ttl : ℤ) (decisions : Option Bool)
  | adding (bouncer : Bouncer) (ttl : ℤ) (banned : Bool)
  | done (verdict : Option Bool)

/-- The bouncer a lookup has loaded. -/
def LookupPc.bouncer? : LookupPc → Option Bouncer
  | .loaded bouncer | .probing bouncer _ | .asking bouncer _ => some bouncer
  | .answered bouncer _ _ | .adding bouncer _ _ => some bouncer
  | _ => none

/-- The time to live a lookup has loaded. -/
def LookupPc.ttl? : LookupPc → Option ℤ
  | .probing _ ttl | .asking _ ttl | .answered _ ttl _ | .adding _ ttl _ => some ttl
  | _ => none

/-- The verdict a lookup has been told. -/
def LookupPc.told? : LookupPc → Option (Bouncer × Bool)
  | .answered bouncer _ (some banned) | .adding bouncer _ banned => some (bouncer, banned)
  | _ => none

section Lookup

variable {w : World} {now : ℤ} {clientIP : GoString}

/-- The rest of a lookup. -/
def LookupPc.prog (now : ℤ) (clientIP : GoString) : LookupPc → Prog (handlerSig w) (Option Bool)
  | .start => crowdSecDecision now clientIP
  | .loaded bouncer => Prog.act (S := handlerSig w) (.load .crowdsecCacheTTL) fun (ttl : ℤ) =>
      (crowdSecBanned ttl now bouncer clientIP).lift (crowdsecPart w)
  | .probing bouncer ttl => Prog.lift (crowdsecPart w) <|
      .act (.cacheGet clientIP) fun (cached : Option CrowdsecDecision) =>
        match cached with
        | some decision =>
          if now < decision.expires then .ret (some decision.banned)
          else askCrowdSec ttl now bouncer clientIP
        | none => askCrowdSec ttl now bouncer clientIP
  | .asking bouncer ttl => (askCrowdSec ttl now bouncer clientIP).lift (crowdsecPart w)
  | .answered _ ttl decisions => Prog.lift (crowdsecPart w) <|
      .act (.storeHealthy decisions.isSome) fun _ =>
        match decisions with
        | none => .ret none
        | some banned =>
          if 0 < ttl then .act (.cacheAdd clientIP ⟨banned, now + ttl⟩) fun _ => .ret (some banned)
          else .ret (some banned)
  | .adding _ ttl banned => Prog.lift (crowdsecPart w) <|
      .act (.cacheAdd clientIP ⟨banned, now + ttl⟩) fun _ => .ret (some banned)
  | .done verdict => .ret verdict

variable (w) in
/-- The moves of a lookup. -/
inductive LookupMove (now : ℤ) (clientIP : GoString) (s : Runtime) :
    LookupPc → HandlerOp → LookupPc → Prop
  | load {bouncer : Bouncer} : s.pub .bouncer = some bouncer →
      LookupMove now clientIP s .start (.load .bouncer) (.loaded bouncer)
  | noBouncer : LookupMove now clientIP s .start (.load .bouncer) (.done none)
  | loadTTL (bouncer : Bouncer) {ttl : ℤ} : s.pub .crowdsecCacheTTL = ttl →
      LookupMove now clientIP s (.loaded bouncer) (.load .crowdsecCacheTTL) (.probing bouncer ttl)
  | loadZeroTTL (bouncer : Bouncer) {ttl : ℤ} : s.pub .crowdsecCacheTTL = ttl →
      LookupMove now clientIP s (.loaded bouncer) (.load .crowdsecCacheTTL) (.asking bouncer ttl)
  | hit (bouncer : Bouncer) (ttl : ℤ) {d : CrowdsecDecision} :
      s.crowdsec.cache clientIP = some d → now < d.expires →
      LookupMove now clientIP s (.probing bouncer ttl) (.crowdsec (.cacheGet clientIP))
        (.done (some d.banned))
  | miss (bouncer : Bouncer) (ttl : ℤ) : LookupMove now clientIP s (.probing bouncer ttl)
      (.crowdsec (.cacheGet clientIP)) (.asking bouncer ttl)
  | query (bouncer : Bouncer) (ttl : ℤ) {decisions : Option Bool} :
      w.lapi s.crowdsec.calls bouncer clientIP = decisions →
      LookupMove now clientIP s (.asking bouncer ttl) (.crowdsec (.query bouncer clientIP))
        (.answered bouncer ttl decisions)
  | failed (bouncer : Bouncer) (ttl : ℤ) : LookupMove now clientIP s (.answered bouncer ttl none)
      (.crowdsec (.storeHealthy false)) (.done none)
  | uncached (bouncer : Bouncer) (ttl : ℤ) (banned : Bool) :
      LookupMove now clientIP s (.answered bouncer ttl (some banned))
        (.crowdsec (.storeHealthy true)) (.done (some banned))
  | healthy (bouncer : Bouncer) (ttl : ℤ) (banned : Bool) :
      LookupMove now clientIP s (.answered bouncer ttl (some banned))
        (.crowdsec (.storeHealthy true)) (.adding bouncer ttl banned)
  | add (bouncer : Bouncer) (ttl : ℤ) (banned : Bool) :
      LookupMove now clientIP s (.adding bouncer ttl banned)
        (.crowdsec (.cacheAdd clientIP ⟨banned, now + ttl⟩)) (.done (some banned))

/-- **What a step of a lookup can do.** -/
theorem lookup_step (pc : LookupPc) (o : HandlerOp)
    (k : (handlerSig w).Res o → Prog (handlerSig w) (Option Bool)) (s : Runtime)
    (h : pc.prog now clientIP = Prog.act (S := handlerSig w) o k) :
    ∃ pc', k (o.exec w s).1 = pc'.prog now clientIP ∧ LookupMove w now clientIP s pc o pc' := by
  cases pc with
  | start =>
    cases h
    simp only [HandlerOp.exec]
    cases hb : s.pub .bouncer with
    | none => exact ⟨.done none, rfl, .noBouncer⟩
    | some bouncer => exact ⟨.loaded bouncer, rfl, .load hb⟩
  | loaded bouncer =>
    cases h
    simp only [HandlerOp.exec]
    generalize httl : s.pub .crowdsecCacheTTL = ttl
    by_cases hpos : 0 < ttl
    · refine ⟨.probing bouncer ttl, ?_, .loadTTL bouncer httl⟩
      rw [crowdSecBanned, if_pos hpos]
      rfl
    · refine ⟨.asking bouncer ttl, ?_, .loadZeroTTL bouncer httl⟩
      rw [crowdSecBanned, if_neg hpos]
      rfl
  | probing bouncer ttl =>
    cases h
    change ∃ pc' : LookupPc, Prog.lift (crowdsecPart w) (match s.crowdsec.cache clientIP with
      | some decision =>
        if now < decision.expires then .ret (some decision.banned)
        else askCrowdSec ttl now bouncer clientIP
      | none => askCrowdSec ttl now bouncer clientIP) = pc'.prog now clientIP ∧ _
    cases hd : s.crowdsec.cache clientIP with
    | none => exact ⟨.asking bouncer ttl, rfl, .miss bouncer ttl⟩
    | some d =>
      dsimp only
      split
      next hnow => exact ⟨.done (some d.banned), rfl, .hit bouncer ttl hd hnow⟩
      next => exact ⟨.asking bouncer ttl, rfl, .miss bouncer ttl⟩
  | asking bouncer ttl =>
    cases h
    generalize hd : w.lapi s.crowdsec.calls bouncer clientIP = decisions
    refine ⟨.answered bouncer ttl decisions, ?_, .query bouncer ttl hd⟩
    dsimp only [crowdsecPart, HandlerOp.exec, CrowdsecOp.exec]
    rw [hd]
    cases decisions <;> rfl
  | answered bouncer ttl decisions =>
    cases h
    cases decisions with
    | none => exact ⟨.done none, rfl, .failed bouncer ttl⟩
    | some banned =>
      by_cases hpos : 0 < ttl
      · refine ⟨.adding bouncer ttl banned, ?_, .healthy bouncer ttl banned⟩
        change Prog.lift (crowdsecPart w) (if 0 < ttl then _ else _) = _
        rw [if_pos hpos]
        rfl
      · refine ⟨.done (some banned), ?_, .uncached bouncer ttl banned⟩
        change Prog.lift (crowdsecPart w) (if 0 < ttl then _ else _) = _
        rw [if_neg hpos]
        rfl
  | adding bouncer ttl banned =>
    cases h
    exact ⟨_, rfl, .add bouncer ttl banned⟩
  | done verdict => cases h

/-- The lookup has loaded the bouncer. -/
def LoadedBouncer (t : Steps (handlerSig w)) (bouncer : Bouncer) : Prop :=
  Performed (S := handlerSig w) t (.load .bouncer) fun s => s.pub .bouncer = some bouncer

/-- The lookup has loaded the time to live. -/
def LoadedTTL (t : Steps (handlerSig w)) (ttl : ℤ) : Prop :=
  Performed (S := handlerSig w) t (.load .crowdsecCacheTTL) fun s => s.pub .crowdsecCacheTTL = ttl

/-- The lookup has asked the bouncer, which gave the verdict. -/
def Told (t : Steps (handlerSig w)) (clientIP : GoString) (bouncer : Bouncer) (banned : Bool) : Prop :=
  Performed (S := handlerSig w) t (.crowdsec (.query bouncer clientIP)) fun s =>
    w.lapi s.crowdsec.calls bouncer clientIP = some banned

/-- The lookup has found an entry of the cache that is not older than its time to live. -/
def Reused (t : Steps (handlerSig w)) (now : ℤ) (clientIP : GoString) (d : CrowdsecDecision) : Prop :=
  now < d.expires ∧ Performed (S := handlerSig w) t (.crowdsec (.cacheGet clientIP)) fun s =>
    s.crowdsec.cache clientIP = some d

/-- What a lookup has done when it is at `pc`. -/
structure LookupInv (now : ℤ) (clientIP : GoString) (t : Steps (handlerSig w)) (pc : LookupPc) :
    Prop where
  bouncer : ∀ b, pc.bouncer? = some b → LoadedBouncer t b
  ttl : ∀ ttl, pc.ttl? = some ttl → LoadedTTL t ttl
  told : ∀ b banned, pc.told? = some (b, banned) → Told t clientIP b banned
  adds : ∀ ip d s, (.crowdsec (.cacheAdd ip d), s) ∈ t → ip = clientIP ∧
    ∃ b ttl, LoadedBouncer t b ∧ LoadedTTL t ttl ∧ Told t clientIP b d.banned ∧ d.expires = now + ttl
  verdict : ∀ banned, pc = .done (some banned) →
    (∃ b, LoadedBouncer t b ∧ Told t clientIP b banned) ∨
      ∃ d, Reused t now clientIP d ∧ d.banned = banned
  quiet : ∀ e ∈ t, HandlerOp.publishesCrowdSec e.1 = false

theorem LookupInv.step {t : Steps (handlerSig w)} {pc pc' : LookupPc} {o : HandlerOp} {s : Runtime}
    (h : LookupInv now clientIP t pc) (hm : LookupMove w now clientIP s pc o pc') :
    LookupInv now clientIP (t ++ [(o, s)]) pc' where
  bouncer b hb := by
    cases hm with
    | load hs =>
      cases hb
      exact Performed.last (S := handlerSig w) t _ s hs
    | loadTTL | loadZeroTTL | miss | query | healthy => exact (h.bouncer b hb).append _
    | _ => cases hb
  ttl ttl httl := by
    cases hm with
    | loadTTL _ hs | loadZeroTTL _ hs =>
      cases httl
      exact Performed.last (S := handlerSig w) t _ s hs
    | miss | query | healthy => exact (h.ttl ttl httl).append _
    | _ => cases httl
  told b banned htold := by
    cases hm with
    | @query _ _ decisions hs =>
      cases decisions with
      | none => cases htold
      | some v =>
        cases htold
        exact Performed.last (S := handlerSig w) t _ s hs
    | healthy => exact (h.told b banned htold).append _
    | _ => cases htold
  adds ip d s' hmem := by
    obtain hmem | hmem := List.mem_append.mp hmem
    · obtain ⟨hip, b, ttl, hb, httl, htold, hd⟩ := h.adds ip d s' hmem
      exact ⟨hip, b, ttl, hb.append _, httl.append _, htold.append _, hd⟩
    · cases List.mem_singleton.mp hmem
      cases hm with
      | add b ttl banned =>
        exact ⟨rfl, b, ttl, (h.bouncer b rfl).append _, (h.ttl ttl rfl).append _,
          (h.told b banned rfl).append _, rfl⟩
  verdict banned hpc := by
    cases hm with
    | hit _ _ hd hnow =>
      cases hpc
      exact .inr ⟨_, ⟨hnow, Performed.last (S := handlerSig w) t _ s hd⟩, rfl⟩
    | uncached b | add b =>
      cases hpc
      exact .inl ⟨b, (h.bouncer b rfl).append _, (h.told b _ rfl).append _⟩
    | _ => cases hpc
  quiet e he := by
    obtain he | he := List.mem_append.mp he
    · exact h.quiet e he
    · rw [List.mem_singleton.mp he]
      cases hm <;> rfl

/-- **What a lookup has done.** -/
theorem lookup_path {t : Steps (handlerSig w)} {q : Prog (handlerSig w) (Option Bool)}
    (h : Path (crowdSecDecision now clientIP) t q) :
    ∃ pc : LookupPc, q = pc.prog now clientIP ∧ LookupInv now clientIP t pc := by
  have hstart : LookupInv (w := w) now clientIP [] .start := by
    constructor <;> intros <;> contradiction
  exact Path.locals (LookupPc.prog now clientIP) lookup_step (fun _ _ _ _ _ hI hm => hI.step hm)
    hstart (l := .start) h

end Lookup

/-! ## Runs -/

namespace Lookups

variable {w : World} {ι κ : Type} [DecidableEq ι] [DecidableEq κ] {c : Lookups w ι κ} {mem : Runtime}
  {sched : List (LookupTask ι κ)}

theorem lookup_inv (c : Lookups w ι κ) (mem : Runtime) (sched : List (LookupTask ι κ)) (i : ι) :
    ∃ pc : LookupPc, (c.run mem sched).threads (.lookup i) = pc.prog (c.now i) (c.clientIP i) ∧
      LookupInv (c.now i) (c.clientIP i) (own (.lookup i) (c.run mem sched).trace) pc :=
  lookup_path (path_own c.threads mem sched (.lookup i))

/-- Other requests neither publish nor add verdicts. -/
theorem other_quiet {k : κ} {o : HandlerOp} {s : Runtime}
    (h : (.other k, o, s) ∈ (c.run mem sched).trace) :
    o.publishesCrowdSec = false ∧ o.addsVerdict = false := by
  have havoids : (c.threads (.other k)).Avoids fun o : HandlerOp => o.setsCrowdSec = true :=
    (c.other k).avoids.bind fun _ => Prog.avoids_ret _
  have hquiet : ¬ (o.publishesCrowdSec || o.addsVerdict) = true := Pool.avoids havoids h
  simpa using hquiet

/-- Only the reloads publish. -/
theorem reloads_of_publishes {task : LookupTask ι κ} {o : HandlerOp} {s : Runtime}
    (h : (task, o, s) ∈ (c.run mem sched).trace) (hp : o.publishesCrowdSec = true) :
    task = .reloads := by
  cases task with
  | reloads => rfl
  | lookup i =>
    obtain ⟨pc, -, hI⟩ := c.lookup_inv mem sched i
    rw [hI.quiet (o, s) (mem_own.mpr h)] at hp
    cases hp
  | other k =>
    rw [(other_quiet h).1] at hp
    cases hp

/-- Only lookups add verdicts. -/
theorem lookup_of_adds {task : LookupTask ι κ} {o : HandlerOp} {s : Runtime}
    (h : (task, o, s) ∈ (c.run mem sched).trace) (ha : o.addsVerdict = true) :
    ∃ i, task = .lookup i := by
  cases task with
  | reloads =>
    have havoids : (c.threads .reloads).Avoids fun o : HandlerOp => o.addsVerdict = true :=
      (publishes_each c.env c.generations none).avoids_adds
    exact absurd ha (Pool.avoids havoids h)
  | lookup i => exact ⟨i, rfl⟩
  | other k =>
    rw [(other_quiet h).2] at ha
    cases ha

/-- **What is in force** belongs to the reload that emptied the cache last, or to the next one. -/
theorem inForce_run (c : Lookups w ι κ) (mem : Runtime) (sched : List (LookupTask ι κ)) :
    ∃ gs stage, Publishes gs stage ((c.run mem sched).threads .reloads) ∧
      stage.InForce (c.configurations mem) (purges (c.run mem sched).trace) (c.run mem sched).mem gs := by
  induction sched using List.reverseRecOn with
  | nil => exact ⟨c.generations, .idle, publishes_each c.env c.generations none, [], rfl, rfl⟩
  | append_singleton sched j ih =>
    obtain ⟨gs, stage, hp, hforce⟩ := ih
    have hrun : c.run mem (sched ++ [j]) = (c.run mem sched).step j := by
      rw [run, Pool.runs, List.foldl_append]
      rfl
    obtain h | ⟨o, k, ht, -, h⟩ := (c.run mem sched).step_cases j
    · rw [hrun, h]
      exact ⟨gs, stage, hp, hforce⟩
    · have hlast : (j, o, (c.run mem sched).mem) ∈ (c.run mem (sched ++ [j])).trace := by
        rw [hrun, h]
        simp
      rw [hrun, h, purges_append]
      by_cases hj : j = .reloads
      · subst hj
        rw [ht] at hp
        obtain ⟨gs', stage', hp', hforce'⟩ := hp.step hforce
        refine ⟨gs', stage', ?_, hforce'⟩
        dsimp only
        rwa [Function.update_self]
      -- The other threads publish nothing.
      · have hquiet : o.publishesCrowdSec = false :=
          eq_false_of_ne_true fun hp => hj (reloads_of_publishes hlast hp)
        have hpub := exec_pub_of_not_publishes (w := w) (s := (c.run mem sched).mem) hquiet
        rw [purgesCrowdSec_of_not_publishes hquiet]
        refine ⟨gs, stage, ?_, hforce.congr hpub.1 hpub.2⟩
        dsimp only
        rwa [Function.update_of_ne (Ne.symm hj)]

end Lookups

/-! ## Where an entry comes from -/

section Entries

variable {w : World} {τ : Type}

/-- **An entry of the cache** was added last, and has not been touched since. -/
theorem cache_replay {mem : Runtime} (hempty : ∀ ip, mem.crowdsec.cache ip = none)
    {t : Trace (handlerSig w) τ} {clientIP : GoString} {d : CrowdsecDecision}
    (h : (replay mem t).crowdsec.cache clientIP = some d) :
    ∃ t₁ task s t₂, t = t₁ ++ (task, .crowdsec (.cacheAdd clientIP d), s) :: t₂ ∧
      ∀ e ∈ t₂, HandlerOp.touchesVerdict clientIP e.2.1 = false := by
  induction t using List.reverseRecOn with
  | nil =>
    rw [replay_nil, hempty] at h
    cases h
  | append_singleton t e ih =>
    obtain ⟨task, o, s⟩ := e
    rw [replay_append, replay_cons, replay_nil] at h
    cases ho : HandlerOp.touchesVerdict clientIP o with
    | false =>
      have hcache := exec_cache_of_not_touches (w := w) (s := replay mem t) ho
      obtain ⟨t₁, task', s', t₂, rfl, huntouched⟩ := ih (hcache.symm.trans h)
      refine ⟨t₁, task', s', t₂ ++ [(task, o, s)], by simp, fun e he => ?_⟩
      obtain he | he := List.mem_append.mp he
      · exact huntouched e he
      · rw [List.mem_singleton.mp he]
        exact ho
    | true =>
      cases o with
      | crowdsec o =>
        cases o with
        | purge => cases h
        | evict ip =>
          obtain rfl : ip = clientIP := by simpa [HandlerOp.touchesVerdict] using ho
          simp [HandlerOp.exec, CrowdsecOp.exec] at h
        | cacheAdd ip d' =>
          obtain rfl : ip = clientIP := by simpa [HandlerOp.touchesVerdict] using ho
          obtain rfl : d' = d := by simpa [HandlerOp.exec, CrowdsecOp.exec] using h
          exact ⟨t, task, s, [], rfl, List.forall_mem_nil _⟩
        | _ => cases ho
      | _ => cases ho

theorem purges_of_touches {t : Trace (handlerSig w) τ} {clientIP : GoString}
    (h : ∀ e ∈ t, HandlerOp.touchesVerdict clientIP e.2.1 = false) : purges t = 0 := by
  rw [purges, List.countP_eq_zero]
  rintro ⟨task, o, s⟩ hmem hp
  have hfalse := h _ hmem
  cases o with
  | crowdsec o =>
    cases o with
    | purge => cases hfalse
    | _ => cases hp
  | _ => cases hp

theorem takeWhile_append_cons {α : Type} {p : α → Bool} {l₁ l₂ : List α} {a : α} (h : p a = false) :
    (l₁ ++ a :: l₂).takeWhile p = l₁.takeWhile p := by
  induction l₁ with
  | nil => simp [h]
  | cons b l₁ ih =>
    simp only [List.cons_append, List.takeWhile_cons, ih]

end Entries

namespace Lookups

variable {w : World} {ι κ : Type} [DecidableEq ι] [DecidableEq κ] {c : Lookups w ι κ} {mem : Runtime}
  {sched : List (LookupTask ι κ)}

/-- The reloads that have emptied the cache when a lookup takes its first step. -/
def startedAfter (t : Trace (handlerSig w) (LookupTask ι κ)) (i : ι) : ℕ :=
  purges (t.takeWhile fun e => e.1 ≠ .lookup i)

theorem startedAfter_le {t t₁ t₂ : Trace (handlerSig w) (LookupTask ι κ)} {i : ι}
    {e : HandlerOp × Runtime} (h : t = t₁ ++ (.lookup i, e) :: t₂) :
    startedAfter t i ≤ purges t₁ := by
  rw [startedAfter, h, takeWhile_append_cons (by simp)]
  exact (List.takeWhile_sublist _).countP_le

/-- The configurations that were in force when the lookup started, and later ones. -/
def since (c : Lookups w ι κ) (mem : Runtime) (t : Trace (handlerSig w) (LookupTask ι κ)) (i : ι) :
    List (Option Bouncer × ℤ) :=
  (c.configurations mem).drop (startedAfter t i)

theorem mem_since_of_le {t : Trace (handlerSig w) (LookupTask ι κ)} {i : ι} {n : ℕ}
    (hn : startedAfter t i ≤ n) {cfg : Option Bouncer × ℤ} (h : cfg ∈ (c.configurations mem).drop n) :
    cfg ∈ c.since mem t i := by
  rw [← Nat.add_sub_cancel' hn, ← List.drop_drop] at h
  exact List.mem_of_mem_drop h

/-- What a step of a lookup finds in force belongs to the configurations since its start. -/
theorem mem_since {i : ι} {o : HandlerOp} {s : Runtime}
    (h : (.lookup i, o, s) ∈ (c.run mem sched).trace) :
    (∃ cfg ∈ c.since mem (c.run mem sched).trace i, cfg.1 = s.pub .bouncer) ∧
      ∃ cfg ∈ c.since mem (c.run mem sched).trace i, cfg.2 = s.pub .crowdsecCacheTTL := by
  obtain ⟨t₁, t₂, ht⟩ := List.append_of_mem h
  obtain ⟨sched', htrace, hmem⟩ := Pool.runs_split (c := Pool.start c.threads mem) rfl ht
  obtain ⟨gs, stage, -, hforce⟩ := c.inForce_run mem sched'
  obtain ⟨⟨cfg, hcfg, hb⟩, cfg', hcfg', httl⟩ := hforce.mem_drop
  have hle := startedAfter_le ht
  have hpurges : purges (c.run mem sched').trace = purges t₁ := congrArg purges htrace
  rw [hpurges] at hcfg hcfg'
  exact ⟨⟨cfg, mem_since_of_le hle hcfg, hb.trans (congrArg (fun s => s.pub .bouncer) hmem)⟩,
    cfg', mem_since_of_le hle hcfg', httl.trans (congrArg (fun s => s.pub .crowdsecCacheTTL) hmem)⟩

theorem bouncer_since {i : ι} {b : Bouncer}
    (h : LoadedBouncer (own (.lookup i) (c.run mem sched).trace) b) :
    ∃ cfg ∈ c.since mem (c.run mem sched).trace i, cfg.1 = some b := by
  obtain ⟨s, hs, hb⟩ := h
  obtain ⟨cfg, hcfg, h⟩ := (mem_since (mem_own.mp hs)).1
  exact ⟨cfg, hcfg, h.trans hb⟩

theorem ttl_since {i : ι} {ttl : ℤ}
    (h : LoadedTTL (own (.lookup i) (c.run mem sched).trace) ttl) :
    ∃ cfg ∈ c.since mem (c.run mem sched).trace i, cfg.2 = ttl := by
  obtain ⟨s, hs, httl⟩ := h
  obtain ⟨cfg, hcfg, h⟩ := (mem_since (mem_own.mp hs)).2
  exact ⟨cfg, hcfg, h.trans httl⟩

/-! ## Verdicts -/

/-- The lookup `i` finds in the cache what the lookup `j` has added. -/
def FindsEntryOf (t : Trace (handlerSig w) (LookupTask ι κ)) (i j : ι) (clientIP : GoString)
    (d : CrowdsecDecision) : Prop :=
  ∃ t₁ s t₂ s' t₃, t = t₁ ++ (.lookup j, .crowdsec (.cacheAdd clientIP d), s) :: t₂ ++
      (.lookup i, .crowdsec (.cacheGet clientIP), s') :: t₃ ∧
    ∀ e ∈ t₂, HandlerOp.touchesVerdict clientIP e.2.1 = false

/-- The verdict of a lookup is what a bouncer of a configuration since its start has told it, or has
told another lookup whose entry it found, and which then is younger than the time to live of a
configuration since its start. -/
def Current (c : Lookups w ι κ) (mem : Runtime) (t : Trace (handlerSig w) (LookupTask ι κ)) (i : ι)
    (banned : Bool) : Prop :=
  (∃ b, (∃ cfg ∈ c.since mem t i, cfg.1 = some b) ∧
    Told (own (.lookup i) t) (c.clientIP i) b banned) ∨
  ∃ j b ttl, (∃ cfg ∈ c.since mem t i, cfg.1 = some b) ∧ (∃ cfg ∈ c.since mem t i, cfg.2 = ttl) ∧
    Told (own (.lookup j) t) (c.clientIP i) b banned ∧
    FindsEntryOf t i j (c.clientIP i) ⟨banned, c.now j + ttl⟩ ∧ c.now i < c.now j + ttl

/-- No reload empties the cache between the first step of a lookup and its addition to the cache. -/
def AddsBetweenReloads : Trace (handlerSig w) (LookupTask ι κ) → Prop :=
  AtSteps fun earlier e => HandlerOp.addsVerdict e.2.1 = true →
    ∀ x ∈ earlier.dropWhile fun x => x.1 ≠ e.1, HandlerOp.purgesCrowdSec x.2.1 = false

instance (t : Trace (handlerSig w) (LookupTask ι κ)) : Decidable (AddsBetweenReloads t) :=
  inferInstanceAs (Decidable (AtSteps _ t))

/-- A lookup that has added an entry started after all reloads before the addition. -/
theorem purges_eq_startedAfter {t t₁ t₂ : Trace (handlerSig w) (LookupTask ι κ)}
    (hadds : AddsBetweenReloads t) {j : ι} {clientIP : GoString} {d : CrowdsecDecision} {s : Runtime}
    (ht : t = t₁ ++ (.lookup j, .crowdsec (.cacheAdd clientIP d), s) :: t₂) :
    purges t₁ = startedAfter t j := by
  rw [ht] at hadds
  have hnone := hadds.split rfl
  have hzero : purges (t₁.dropWhile fun x => x.1 ≠ .lookup j) = 0 := by
    rw [purges, List.countP_eq_zero]
    intro e he
    simp [hnone e he]
  rw [startedAfter, ht, takeWhile_append_cons (by simp)]
  calc purges t₁
      = purges (t₁.takeWhile (fun x => x.1 ≠ .lookup j) ++
          t₁.dropWhile fun x => x.1 ≠ .lookup j) := by rw [List.takeWhile_append_dropWhile]
    _ = purges (t₁.takeWhile fun x => x.1 ≠ .lookup j) := by
        rw [purges, List.countP_append, ← purges, ← purges, hzero, Nat.add_zero]

/-- **Verdicts are current.** In every run in which no reload empties the cache between the first step
of a lookup and its addition, the verdict of a lookup comes from the bouncer of a configuration that
was in force when the lookup started or is later, and is younger than the time to live of such a
configuration. -/
theorem verdicts_current (c : Lookups w ι κ) (mem : Runtime)
    (hempty : ∀ clientIP, mem.crowdsec.cache clientIP = none) (sched : List (LookupTask ι κ))
    (hadds : AddsBetweenReloads (c.run mem sched).trace) (i : ι) (banned : Bool)
    (hret : (c.run mem sched).threads (.lookup i) = .ret (some banned)) :
    c.Current mem (c.run mem sched).trace i banned := by
  obtain ⟨pc, hpc, hI⟩ := c.lookup_inv mem sched i
  have hdone : pc = .done (some banned) := by
    rw [hret] at hpc
    cases pc <;> cases hpc
    rfl
  obtain ⟨b, hb, htold⟩ | ⟨d, ⟨hnow, s', hget, hd⟩, rfl⟩ := hI.verdict banned hdone
  · exact .inl ⟨b, bouncer_since hb, htold⟩
  · obtain ⟨u, t₃, ht⟩ := List.append_of_mem (mem_own.mp hget)
    have hstate : s' = replay mem u := by
      have hchained := (chained_runs c.threads mem sched).1
      change Chained mem (c.run mem sched).trace at hchained
      rw [ht] at hchained
      exact state_of_split hchained
    rw [hstate] at hd
    obtain ⟨t₁, task, s, t₂, rfl, huntouched⟩ := cache_replay hempty hd
    have hadd : (task, .crowdsec (.cacheAdd (c.clientIP i) d), s) ∈ (c.run mem sched).trace := by
      rw [ht]
      simp
    obtain ⟨j, rfl⟩ := lookup_of_adds hadd rfl
    obtain ⟨pcj, -, hJ⟩ := c.lookup_inv mem sched j
    obtain ⟨hip, b, ttl, hb, httl, htold, hexpires⟩ := hJ.adds _ d s (mem_own.mpr hadd)
    -- No reload has emptied the cache since `j` started, so `i` did not start after a later one.
    have hle : startedAfter (c.run mem sched).trace i ≤ startedAfter (c.run mem sched).trace j := by
      have hj := purges_eq_startedAfter hadds (ht.trans (List.append_assoc _ _ _))
      have hi := startedAfter_le ht
      rw [purges, List.countP_append, List.countP_cons, ← purges, hj] at hi
      have hzero := purges_of_touches (w := w) huntouched
      rw [purges] at hzero
      rw [hzero] at hi
      simpa [HandlerOp.purgesCrowdSec] using hi
    obtain ⟨cfg, hcfg, hcb⟩ := bouncer_since hb
    obtain ⟨cfg', hcfg', hct⟩ := ttl_since httl
    refine .inr ⟨j, b, ttl, ⟨cfg, mem_since_of_le hle hcfg, hcb⟩,
      ⟨cfg', mem_since_of_le hle hcfg', hct⟩, hip ▸ htold, ⟨t₁, s, t₂, s', t₃, ?_, huntouched⟩,
      hexpires ▸ hnow⟩
    rw [ht, ← hexpires]

end Lookups

/-! ## A verdict of the old bouncer -/

/-- A site in which the first bouncer bans everyone and the others nobody. -/
def lapiSite : World := { site with lapi := fun _ bouncer _ => some (bouncer.id = 0) }

/-- The first bouncer is in force, with verdicts that live for an hour. -/
def firstBouncer : Runtime :=
  { newRuntime with
    pub := Function.update (Function.update newValues .bouncer (some ⟨0, [], []⟩))
      .crowdsecCacheTTL (3600 * second) }

/-- Another bouncer, with verdicts that live for a second. -/
def secondBouncer : Generation where
  globalLimiter := none
  allowIPs := none
  blockIPs := none
  trustedProxyCIDRs := none
  coordinator := none
  trustForwardedFor := false
  requestBodyLimit := 1048576
  responseMaskingLimit := 1048576
  dependencyMode := .failOpen
  crowdsecRequired := false
  crowdsecHealthy := true
  bouncer := some ⟨1, [], []⟩
  crowdsecCacheTTL := second
  geoIP := none
  acmeEnabled := false
  built := .empty

/-- Two lookups for one client, the second of which reads the time `later`. -/
def twoLookups (later : ℤ) : Lookups lapiSite (Fin 2) Empty where
  env := siteSurroundings
  generations := [secondBouncer]
  now i := if i = 0 then 0 else later
  clientIP _ := str "10.0.0.1"
  other := nofun

/-- The first lookup asks the first bouncer, and then the reload takes place. -/
def askedBeforeReload : List (LookupTask (Fin 2) Empty) :=
  List.replicate 5 (.lookup 0) ++ List.replicate 40 .reloads

/-- Then the first lookup adds its verdict, and the second one takes place. -/
def addedAfterReload : List (LookupTask (Fin 2) Empty) :=
  askedBeforeReload ++ .lookup 0 :: List.replicate 3 (.lookup 1)

theorem verdict_survives_reload :
    let c := twoLookups (600 * second)
    let before := c.run firstBouncer askedBeforeReload
    let after := c.run firstBouncer addedAfterReload
    before.threads .reloads = .ret none ∧ (∀ e ∈ before.trace, e.1 ≠ .lookup 1) ∧
      after.threads (.lookup 1) = .ret (some true) ∧
      ¬ c.Current firstBouncer after.trace 1 true := by
  intro c before after
  have hreload : (before.threads .reloads).result? = some none := by decide +kernel
  have hlater : ∀ e ∈ before.trace, e.1 ≠ .lookup 1 := by decide +kernel
  have hverdict : (after.threads (.lookup 1)).result? = some (some true) := by decide +kernel
  refine ⟨Prog.result?_eq_some.mp hreload, hlater, Prog.result?_eq_some.mp hverdict, ?_⟩
  have hsince : c.since firstBouncer after.trace 1 = [(some ⟨1, [], []⟩, second)] := by decide +kernel
  -- The only bouncer since the reload bans nobody.
  have htold : ∀ (t : Steps (handlerSig lapiSite)) (ip : GoString) (b : Bouncer),
      (∃ cfg ∈ c.since firstBouncer after.trace 1, cfg.1 = some b) → ¬ Told t ip b true := by
    rintro t ip b ⟨cfg, hcfg, hb⟩ ⟨s, -, hs⟩
    rw [hsince, List.mem_singleton] at hcfg
    subst hcfg
    cases hb
    cases hs
  rintro (⟨b, hb, h⟩ | ⟨j, b, ttl, hb, -, h, -⟩)
  · exact htold _ _ b hb h
  · exact htold _ _ b hb h

/-- The lookups take place after the reload, one after the other. -/
def askedAfterReload : List (LookupTask (Fin 2) Empty) :=
  List.replicate 40 .reloads ++ List.replicate 6 (.lookup 0) ++ List.replicate 3 (.lookup 1)

theorem verdicts_current_reused :
    ((twoLookups 0).run firstBouncer askedAfterReload).threads (.lookup 1) = .ret (some false) ∧
      (twoLookups 0).Current firstBouncer ((twoLookups 0).run firstBouncer askedAfterReload).trace 1
        false := by
  have hverdict : (((twoLookups 0).run firstBouncer askedAfterReload).threads (.lookup 1)).result? =
      some (some false) := by decide +kernel
  have hadds : Lookups.AddsBetweenReloads
      ((twoLookups 0).run firstBouncer askedAfterReload).trace := by decide +kernel
  have hret := Prog.result?_eq_some.mp hverdict
  exact ⟨hret, Lookups.verdicts_current (twoLookups 0) firstBouncer (fun _ => rfl) askedAfterReload hadds
    1 false hret⟩

end SynitWaf
