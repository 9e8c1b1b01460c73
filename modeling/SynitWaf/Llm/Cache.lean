import SynitWaf.Atomic.Ensures
import SynitWaf.Llm.Verdict

/-!
# The score cache is transparent

Requests share the score cache. If the sidecar scores a chunk by a pure function, a cached score is
the score the sidecar would give, as long as the text that is hashed into the key determines what
was scored. It joins its four parts with NUL, so parts that contain NUL can be confused.

* `LlmRequest`, `pureOracle`, `LlmRequest.decision`: the verdict on the scores of all chunks;
* `scoreChunks_ensures`: in states with right scores, a request stores right scores and returns its
  decision;
* `Unambiguous`: different chunks of the requests have different texts to hash;
* **`llmCache_transparent`**: under any interleaving of unambiguous requests and evictions, every
  request gets the decision it would get with an empty cache;
* `seeded_score_passes`: a request that is answered with the score of another one.
-/

namespace SynitWaf

open Atomic Go Highest

/-- A request for the protection, with the policy and the name of its tenant. -/
structure LlmRequest where
  policy : LLMProtectionConfig
  limit : ℤ
  tenant : GoString
  request : Request
  cached : Option GoString

/-- A sidecar that always answers, with scores that depend on URL, tenant, path and text only. -/
def pureOracle (f : GoString → GoString → GoString → GoString → ℚ) :
    ℕ → SidecarCall → SidecarReply :=
  fun _ call => .status 200 (some (call.texts.map (f call.url call.tenant call.path)))

/-- An empty cache. -/
def emptyCache : LlmState := ⟨fun _ => none, 0⟩

section Request

variable (lib : LlmLib) (f : GoString → GoString → GoString → GoString → ℚ) (q : LlmRequest)

/-- The program of a request. -/
def LlmRequest.prog (oracle : ℕ → SidecarCall → SidecarReply) : Prog (llmSig oracle) LlmOutcome :=
  applyLLMProtection oracle lib q.policy q.limit q.tenant q.request q.cached

/-- The chunks the request looks up. -/
def LlmRequest.chunks : List GoString :=
  match inspectedTexts lib q.policy q.limit q.request q.cached with
  | .error _ => []
  | .ok texts => (chunksOf q.policy texts).getD []

/-- The key of a chunk of the request. -/
def LlmRequest.key (chunk : GoString) : GoString :=
  llmCacheKey lib q.policy.sidecarURL q.tenant q.request.path chunk

/-- The score of a chunk of the request. -/
def LlmRequest.scoreOf (chunk : GoString) : ℚ :=
  f q.policy.sidecarURL q.tenant q.request.path chunk

/-- The verdict on the highest score of the chunks. -/
def LlmRequest.verdict : LlmOutcome :=
  llmVerdict lib q.policy ((q.chunks lib |>.map (q.scoreOf f)).foldl max 0)

/-- What the request gets with right scores. -/
def LlmRequest.decision : LlmOutcome :=
  match inspectedTexts lib q.policy q.limit q.request q.cached with
  | .error outcome => outcome
  | .ok texts =>
    match chunksOf q.policy texts with
    | none => .hang
    | some _ => q.verdict lib f

end Request

/-! ## Scores in the cache -/

section Right

variable {ι : Type} (lib : LlmLib) (f : GoString → GoString → GoString → GoString → ℚ)
  (reqs : ι → Option LlmRequest)

/-- Whatever the cache holds for a chunk of a request is the score of the chunk. -/
def RightScores (s : LlmState) : Prop :=
  ∀ i q, reqs i = some q → ∀ c ∈ q.chunks lib, s.cache (q.key lib c) = none ∨
    s.cache (q.key lib c) = some (q.scoreOf f c)

/-- An operation stores the right score for every chunk with that key. -/
def StoresRight (o : LlmOp) (_ : LlmState) : Prop :=
  ∀ key v, o = .cacheAdd key v → ∀ i q, reqs i = some q → ∀ c ∈ q.chunks lib,
    q.key lib c = key → v = q.scoreOf f c

/-- No two chunks of the requests that differ in URL, tenant, path or text are joined to the same
text. -/
def Unambiguous : Prop :=
  ∀ i j p q, reqs i = some p → reqs j = some q → ∀ c ∈ p.chunks lib, ∀ d ∈ q.chunks lib,
    llmCacheText p.policy.sidecarURL p.tenant p.request.path c =
      llmCacheText q.policy.sidecarURL q.tenant q.request.path d →
    p.policy.sidecarURL = q.policy.sidecarURL ∧ p.tenant = q.tenant ∧
      p.request.path = q.request.path ∧ c = d

/-- Requests of one tenant to one path are unambiguous. -/
theorem unambiguous_of_same {reqs : ι → Option LlmRequest} (url tenant path : GoString)
    (h : ∀ i q, reqs i = some q →
      q.policy.sidecarURL = url ∧ q.tenant = tenant ∧ q.request.path = path) :
    Unambiguous lib reqs := by
  intro i j p q hp hq c _ d _ htext
  obtain ⟨hp1, hp2, hp3⟩ := h i p hp
  obtain ⟨hq1, hq2, hq3⟩ := h j q hq
  rw [hp1, hp2, hp3, hq1, hq2, hq3] at htext ⊢
  exact ⟨rfl, rfl, rfl, by simpa [llmCacheText] using htext⟩

end Right

section Proofs

variable {ι : Type} {lib : LlmLib} {f : GoString → GoString → GoString → GoString → ℚ}
  {reqs : ι → Option LlmRequest} {oracle : ℕ → SidecarCall → SidecarReply}

/-- Operations that store right scores keep the cache right. -/
theorem rightScores_exec (o : LlmOp) (s : LlmState) (ho : StoresRight lib f reqs o s)
    (hs : RightScores lib f reqs s) : RightScores lib f reqs (o.exec oracle s).2 := by
  intro i q hq c hc
  have hold := hs i q hq c hc
  cases o with
  | cacheGet key => exact hold
  | query call => exact hold
  | evict key =>
    by_cases hk : q.key lib c = key
    · exact .inl (by simp [LlmOp.exec, hk])
    · simpa [LlmOp.exec, Function.update_of_ne hk] using hold
  | cacheAdd key v =>
    by_cases hk : q.key lib c = key
    · have hv := ho key v rfl i q hq c hc hk
      exact .inr (by simp [LlmOp.exec, hk, hv])
    · simpa [LlmOp.exec, Function.update_of_ne hk] using hold

end Proofs

/-! ## One request -/

section Loops

variable {oracle : ℕ → SidecarCall → SidecarReply} {I : LlmState → Prop}
  {φ : LlmOp → LlmState → Prop} {key : GoString → GoString} {sc : GoString → ℚ}

/-- The chunks to query are some of the chunks, each key once. -/
theorem lookupLoop_chosen (hget : ∀ k s, φ (.cacheGet k) s) (chunks : List GoString)
    (highest : ℚ) (queued toQuery : List GoString) :
    (lookupLoop key chunks highest queued toQuery : Prog (llmSig oracle) _).Ensures I φ fun res =>
      ∃ chosen, res.2 = toQuery ++ chosen ∧ chosen.Sublist chunks ∧ (chosen.map key).Nodup ∧
        ∀ text ∈ chosen, key text ∉ queued := by
  induction chunks generalizing highest queued toQuery with
  | nil => exact ⟨[], by simp⟩
  | cons text chunks ih =>
    intro s _
    refine ⟨hget _ _, ?_⟩
    have hskip : ∀ highest, (lookupLoop key chunks highest queued toQuery :
        Prog (llmSig oracle) _).Ensures I φ fun res => ∃ chosen, res.2 = toQuery ++ chosen ∧
          chosen.Sublist (text :: chunks) ∧ (chosen.map key).Nodup ∧
            ∀ text ∈ chosen, key text ∉ queued := by
      intro highest
      refine (ih highest queued toQuery).mono (fun _ _ h => h) ?_
      rintro res ⟨chosen, hres, hsub, hrest⟩
      exact ⟨chosen, hres, hsub.cons _, hrest⟩
    cases hhit : s.cache (key text) with
    | some score => simpa [LlmOp.exec, hhit] using hskip _
    | none =>
      by_cases hq : key text ∈ queued
      · simpa [LlmOp.exec, hhit, hq] using hskip _
      · simp only [LlmOp.exec, hhit, if_neg hq]
        refine (ih highest (key text :: queued) (toQuery ++ [text])).mono (fun _ _ h => h) ?_
        rintro res ⟨chosen, hres, hsub, hnodup, hfresh⟩
        refine ⟨text :: chosen, by simpa using hres, hsub.cons_cons _, ?_, ?_⟩
        · rw [List.map_cons, List.nodup_cons]
          refine ⟨fun hmem => ?_, hnodup⟩
          obtain ⟨t, ht, heq⟩ := List.mem_map.mp hmem
          exact hfresh t ht (heq ▸ List.mem_cons_self)
        · rw [List.forall_mem_cons]
          exact ⟨hq, fun t ht hmem => hfresh t ht (List.mem_cons_of_mem _ hmem)⟩

/-- Looking up chunks in a cache with right scores: the highest score and the chunks to query have
the same upper bounds as all chunks. -/
theorem lookupLoop_ensures (hinj : Function.Injective key) (hget : ∀ k s, φ (.cacheGet k) s)
    {chunks : List GoString} (hI : ∀ s, I s → ∀ c ∈ chunks,
      s.cache (key c) = none ∨ s.cache (key c) = some (sc c))
    {highest : ℚ} {queued toQuery : List GoString} (hq : ∀ k ∈ queued, ∃ c ∈ toQuery, key c = k) :
    (lookupLoop key chunks highest queued toQuery : Prog (llmSig oracle) _).Ensures I φ fun res =>
      ∀ x, (res.1 ≤ x ∧ ∀ c ∈ res.2, sc c ≤ x) ↔
        (highest ≤ x ∧ (∀ c ∈ toQuery, sc c ≤ x) ∧ ∀ c ∈ chunks, sc c ≤ x) := by
  induction chunks generalizing highest queued toQuery with
  | nil => exact fun x => by simp
  | cons text chunks ih =>
    have hI' : ∀ s, I s → ∀ c ∈ chunks, s.cache (key c) = none ∨ s.cache (key c) = some (sc c) :=
      fun s hs c hc => hI s hs c (List.mem_cons_of_mem _ hc)
    intro s hs
    refine ⟨hget _ _, ?_⟩
    simp only [LlmOp.exec]
    rcases hI s hs text List.mem_cons_self with hc | hc
    · rw [hc]
      dsimp only
      split
      next hmem =>
        -- a chunk with the same key is the same chunk
        have hsame : text ∈ toQuery := by
          obtain ⟨c, hcq, hck⟩ := hq _ hmem
          exact hinj hck ▸ hcq
        refine (ih hI' hq).mono (fun _ _ h => h) fun res hres x => ?_
        rw [hres x, List.forall_mem_cons]
        constructor
        · rintro ⟨hhighest, hqueried, hchunks⟩
          exact ⟨hhighest, hqueried, hqueried _ hsame, hchunks⟩
        · rintro ⟨hhighest, hqueried, -, hchunks⟩
          exact ⟨hhighest, hqueried, hchunks⟩
      next hmem =>
        have hq' : ∀ k ∈ key text :: queued, ∃ c ∈ toQuery ++ [text], key c = k := by
          intro k hk
          rcases List.mem_cons.mp hk with rfl | hk
          · exact ⟨text, by simp, rfl⟩
          · obtain ⟨c, hcq, hck⟩ := hq k hk
            exact ⟨c, List.mem_append_left _ hcq, hck⟩
        refine (ih hI' hq').mono (fun _ _ h => h) fun res hres x => ?_
        rw [hres x]
        simp only [List.forall_mem_cons, List.forall_mem_append, List.not_mem_nil, false_implies,
          implies_true, and_true]
        tauto
    · rw [hc]
      dsimp only
      refine (ih hI' hq).mono (fun _ _ h => h) fun res hres x => ?_
      rw [hres x]
      simp only [List.forall_mem_cons, max_le_iff]
      tauto

theorem storeLoop_ensures {scored : List (GoString × ℚ)} {highest : ℚ}
    (hadd : ∀ x ∈ scored, ∀ s, φ (.cacheAdd (key x.1) x.2) s) :
    (storeLoop key scored highest : Prog (llmSig oracle) _).Ensures I φ fun res =>
      res = (scored.map Prod.snd).foldl max highest := by
  induction scored generalizing highest with
  | nil => rfl
  | cons x scored ih =>
    intro s _
    exact ⟨hadd x List.mem_cons_self s, ih fun y hy => hadd y (List.mem_cons_of_mem _ hy)⟩

end Loops

section Pure

variable {f : GoString → GoString → GoString → GoString → ℚ} {I : LlmState → Prop}
  {φ : LlmOp → LlmState → Prop}

theorem querySidecar_pure (hf : ∀ u t p x, 0 ≤ f u t p x ∧ f u t p x ≤ 1) (n : ℕ)
    (url tenant path : GoString) (texts : List GoString) :
    querySidecar texts (pureOracle f n ⟨url, tenant, path, texts⟩) =
      .ok (texts.map (f url tenant path)) := by
  simp only [querySidecar, pureOracle, if_true, List.length_map, ne_eq, not_true_eq_false, if_false]
  refine if_neg ?_
  simp only [List.any_map, List.any_eq_true, not_exists]
  rintro x ⟨-, hx⟩
  have h := hf url tenant path x
  simp only [Function.comp_apply, decide_eq_true_eq] at hx
  rcases hx with hx | hx
  · exact absurd h.1 (not_le.mpr hx)
  · exact absurd h.2 (not_le.mpr hx)

theorem querySidecarBatched_ensures (hf : ∀ u t p x, 0 ≤ f u t p x ∧ f u t p x ≤ 1)
    (hquery : ∀ c s, φ (.query c) s) (url tenant path : GoString) (batches : List (List GoString)) :
    (querySidecarBatched (SidecarCall.mk url tenant path) batches :
      Prog (llmSig (pureOracle f)) _).Ensures I φ fun res =>
        res = .ok (batches.flatten.map (f url tenant path)) := by
  induction batches with
  | nil => rfl
  | cons batch batches ih =>
    intro s _
    refine ⟨hquery _ _, ?_⟩
    simp only [LlmOp.exec, querySidecar_pure hf]
    refine ih.bind ?_
    rintro _ rfl
    simp

/-- **One request.** In states with right scores, scoring stores right scores only and ends with the
verdict on the highest score of all chunks. -/
theorem scoreChunks_ensures {lib : LlmLib} {policy : LLMProtectionConfig} {tenant path : GoString}
    {chunks : List GoString} (hf : ∀ u t p x, 0 ≤ f u t p x ∧ f u t p x ≤ 1)
    (hinj : Function.Injective (llmCacheKey lib policy.sidecarURL tenant path))
    (hget : ∀ k s, φ (.cacheGet k) s) (hquery : ∀ c s, φ (.query c) s)
    (hadd : ∀ c ∈ chunks, ∀ s, φ (.cacheAdd (llmCacheKey lib policy.sidecarURL tenant path c)
      (f policy.sidecarURL tenant path c)) s)
    (hI : ∀ s, I s → ∀ c ∈ chunks, s.cache (llmCacheKey lib policy.sidecarURL tenant path c) = none ∨
      s.cache (llmCacheKey lib policy.sidecarURL tenant path c) =
        some (f policy.sidecarURL tenant path c)) :
    (scoreChunks (pureOracle f) lib policy tenant path chunks).Ensures I φ fun o =>
      o = llmVerdict lib policy ((chunks.map (f policy.sidecarURL tenant path)).foldl max 0) := by
  refine (Prog.Triple.and (lookupLoop_ensures hinj hget hI (by simp))
    (lookupLoop_chosen hget chunks 0 [] [])).bind ?_
  rintro ⟨highest, toQuery⟩ ⟨hbound, _, rfl, hsub, -⟩
  have hmax : (toQuery.map (f policy.sidecarURL tenant path)).foldl max highest =
      (chunks.map (f policy.sidecarURL tenant path)).foldl max 0 := by
    refine eq_of_forall_ge_iff fun x => ?_
    have hx := hbound x
    simp only [foldl_max_le_iff, List.forall_mem_map]
    simpa using hx
  dsimp only
  split
  next hnil =>
    rw [hnil] at hmax
    rw [← hmax]
    rfl
  next =>
    refine (querySidecarBatched_ensures hf hquery _ _ _ _).bind ?_
    rintro _ rfl
    rw [flatten_sidecarBatches]
    refine (storeLoop_ensures ?_).bind ?_
    · intro x hx s
      rw [← List.map_prod_left_eq_zip] at hx
      obtain ⟨c, hc, rfl⟩ := List.mem_map.mp hx
      exact hadd c (hsub.subset hc) s
    · rintro _ rfl
      rw [List.map_snd_zip (by simp), hmax]
      rfl

end Pure

/-! ## A request returns -/

section Bounds

variable {oracle : ℕ → SidecarCall → SidecarReply} (key : GoString → GoString)

theorem lookupLoop_within (chunks : List GoString) (highest : ℚ) (queued toQuery : List GoString) :
    (lookupLoop key chunks highest queued toQuery : Prog (llmSig oracle) _).Within
      (fun res => res.2.length ≤ toQuery.length + chunks.length) chunks.length := by
  induction chunks generalizing highest queued toQuery with
  | nil => simp [lookupLoop]
  | cons text chunks ih =>
    intro hit
    cases hit with
    | some score => exact (ih _ _ _).mono (le_refl _) fun _ h => by simp only [List.length_cons]; omega
    | none =>
      dsimp only
      split
      · exact (ih _ _ _).mono (le_refl _) fun _ h => by simp only [List.length_cons]; omega
      · refine (ih _ _ _).mono (le_refl _) fun _ h => ?_
        simp only [List.length_append, List.length_cons, List.length_nil] at h ⊢
        omega

theorem querySidecarBatched_within (call : List GoString → SidecarCall)
    (batches : List (List GoString)) :
    (querySidecarBatched call batches : Prog (llmSig oracle) _).Within (fun _ => True)
      batches.length := by
  induction batches with
  | nil => trivial
  | cons batch batches ih =>
    intro reply
    dsimp only
    split
    · simp
    · refine ih.bind (m := 0) fun res _ => ?_
      cases res <;> trivial

theorem storeLoop_within (scored : List (GoString × ℚ)) (highest : ℚ) :
    (storeLoop key scored highest : Prog (llmSig oracle) _).Within (fun _ => True) scored.length := by
  induction scored generalizing highest with
  | nil => trivial
  | cons x scored ih => exact fun _ => ih _

theorem length_batchesOf_le {α : Type} (n fuel : ℕ) (l : List α) :
    (batchesOf n fuel l).length ≤ fuel := by
  induction fuel generalizing l with
  | zero => simp [batchesOf]
  | succ fuel ih =>
    cases l with
    | nil => simp [batchesOf]
    | cons x l => simpa [batchesOf] using ih _

theorem scoreChunks_within (lib : LlmLib) (policy : LLMProtectionConfig) (tenant path : GoString)
    (chunks : List GoString) : (scoreChunks oracle lib policy tenant path chunks).Within
      (fun _ => True) (3 * chunks.length) := by
  have hlen : 3 * chunks.length = chunks.length + (chunks.length + chunks.length) := by omega
  rw [hlen]
  refine (lookupLoop_within _ chunks 0 [] []).bind ?_
  rintro ⟨highest, toQuery⟩ hq
  simp only [List.length_nil, Nat.zero_add] at hq
  dsimp only
  split
  · simp
  · have hb : (sidecarBatches policy toQuery).length ≤ chunks.length :=
      (length_batchesOf_le _ _ _).trans hq
    refine ((querySidecarBatched_within _ _).le hb).bind ?_
    rintro (e | scores) -
    · simp
    · have hz : (toQuery.zip scores).length ≤ chunks.length := by
        rw [List.length_zip]
        omega
      refine ((storeLoop_within _ _ _).le hz).bind (m := 0) fun _ _ => ?_
      trivial

theorem llmRequest_within (lib : LlmLib) (q : LlmRequest) :
    (q.prog lib oracle).Within (fun _ => True) (3 * (q.chunks lib).length) := by
  unfold LlmRequest.prog LlmRequest.chunks applyLLMProtection
  cases inspectedTexts lib q.policy q.limit q.request q.cached with
  | error o => simp
  | ok texts =>
    dsimp only
    unfold scoreTexts
    cases chunksOf q.policy texts with
    | none => simp
    | some chunks => exact scoreChunks_within lib _ _ _ _

end Bounds

/-! ## All requests -/

/-- A thread that drops keys from the cache. -/
def evictor {oracle : ℕ → SidecarCall → SidecarReply} :
    List GoString → Prog (llmSig oracle) LlmOutcome
  | [] => .ret .pass
  | key :: keys => .act (.evict key) fun _ => evictor keys

section Threads

variable {ι : Type} {lib : LlmLib} {f : GoString → GoString → GoString → GoString → ℚ}
  {reqs : ι → Option LlmRequest}

theorem evictor_ensures (keys : List GoString) (Q : LlmOutcome → Prop) (hQ : ∀ o, Q o) :
    (evictor keys : Prog (llmSig (pureOracle f)) LlmOutcome).Ensures (RightScores lib f reqs)
      (StoresRight lib f reqs) Q := by
  induction keys with
  | nil => exact hQ _
  | cons key keys ih =>
    intro s _
    exact ⟨fun _ _ h => (by cases h), ih⟩

/-- A request among others: it stores right scores only, and gets its decision. -/
theorem llmRequest_ensures (hf : ∀ u t p x, 0 ≤ f u t p x ∧ f u t p x ≤ 1)
    (hash : Function.Injective lib.hash) (hun : Unambiguous lib reqs) {i : ι} {q : LlmRequest}
    (hq : reqs i = some q) : (q.prog lib (pureOracle f)).Ensures (RightScores lib f reqs)
      (StoresRight lib f reqs) fun o => o = q.decision lib f := by
  have hstore : ∀ c ∈ q.chunks lib, ∀ s,
      StoresRight lib f reqs (.cacheAdd (q.key lib c) (q.scoreOf f c)) s := by
    rintro c hc s key v ho j p hp d hd hkey
    obtain ⟨rfl, rfl⟩ := LlmOp.cacheAdd.inj ho
    obtain ⟨h1, h2, h3, rfl⟩ := hun j i p q hp hq d hd c hc (hash hkey)
    simp only [LlmRequest.scoreOf, h1, h2, h3]
  have hinj : Function.Injective (llmCacheKey lib q.policy.sidecarURL q.tenant q.request.path) := by
    intro c d h
    have htext := hash h
    simpa [llmCacheText] using htext
  have hright : ∀ s, RightScores lib f reqs s → ∀ c ∈ q.chunks lib,
      s.cache (q.key lib c) = none ∨ s.cache (q.key lib c) = some (q.scoreOf f c) :=
    fun s hs => hs i q hq
  unfold LlmRequest.prog applyLLMProtection LlmRequest.decision
  unfold LlmRequest.verdict LlmRequest.scoreOf
  unfold LlmRequest.key LlmRequest.scoreOf at hstore hright
  unfold LlmRequest.chunks at *
  cases hi : inspectedTexts lib q.policy q.limit q.request q.cached with
  | error o => rfl
  | ok texts =>
    rw [hi] at hstore hright
    dsimp only at hstore hright ⊢
    unfold scoreTexts
    cases hcs : chunksOf q.policy texts with
    | none => rfl
    | some chunks =>
      rw [hcs] at hstore hright
      simp only [Option.getD_some] at hstore hright ⊢
      have hget : ∀ k s, StoresRight lib f reqs (.cacheGet k) s := fun _ _ _ _ h => nomatch h
      have hquery : ∀ c s, StoresRight lib f reqs (.query c) s := fun _ _ _ _ h => nomatch h
      exact scoreChunks_ensures (f := f) hf hinj hget hquery hstore hright

end Threads

/-- **The score cache is transparent.** Let the sidecar always answer with scores that are a pure
function of URL, tenant, path and text, and let no two keys collide. Under any interleaving of
requests and evictions, starting from an empty cache, a request returns, and it gets the decision
it would get with an empty cache, if the requests are unambiguous. -/
theorem llmCache_transparent {ι : Type} [DecidableEq ι] (lib : LlmLib)
    (f : GoString → GoString → GoString → GoString → ℚ)
    (hf : ∀ u t p x, 0 ≤ f u t p x ∧ f u t p x ≤ 1) (hash : Function.Injective lib.hash)
    (reqs : ι → Option LlmRequest) (hun : Unambiguous lib reqs) (evicted : ι → List GoString)
    (sched : List ι) (i : ι) (q : LlmRequest) (hq : reqs i = some q) :
    let threads : ι → Prog (llmSig (pureOracle f)) LlmOutcome := fun j =>
      ((reqs j).map fun p => p.prog lib (pureOracle f)).getD (evictor (evicted j))
    (∀ o, (((Pool.start threads emptyCache).runs sched).threads i).result? = some o →
      o = ((q.prog lib (pureOracle f)).run emptyCache).1) ∧
    (3 * (q.chunks lib).length ≤ sched.count i →
      ∃ o, (((Pool.start threads emptyCache).runs sched).threads i).result? = some o) := by
  intro threads
  have hempty : RightScores lib f reqs emptyCache := fun _ _ _ _ _ => .inl rfl
  have hthreads : ∀ j, (threads j).Ensures (RightScores lib f reqs) (StoresRight lib f reqs)
      fun o => ∀ p, reqs j = some p → o = p.decision lib f := by
    intro j
    cases hj : reqs j with
    | none =>
      simp only [threads, hj]
      exact evictor_ensures _ _ (by simp)
    | some p =>
      simp only [threads, hj]
      refine (llmRequest_ensures hf hash hun hj).mono (fun _ _ h => h) ?_
      rintro _ rfl p' hp'
      rw [Option.some.inj hp']
  have hi : threads i = q.prog lib (pureOracle f) := by simp only [threads, hq]; rfl
  constructor
  · intro o ho
    have hpool := Pool.ensures hthreads hempty (fun o s => rightScores_exec o s) sched
    have hdec := hpool.2.2 i o (Prog.result?_eq_some.mp ho) q hq
    have halone := (llmRequest_ensures hf hash hun hq).run (fun o s => rightScores_exec o s) hempty
    rw [hdec, halone.1]
  · intro hc
    have hret : ∃ o, ((Pool.start threads emptyCache).runs sched).threads i = .ret o :=
      returns_of_within (fun _ _ => rfl) (hi ▸ llmRequest_within lib q) hc
    obtain ⟨o, ho⟩ := hret
    exact ⟨o, Prog.result?_eq_some.mpr ho⟩

/-! ## A seeded score -/

/-- A request with a plain text body, under a policy that denies. -/
def plainRequest (path body : GoString) : LlmRequest :=
  ⟨denyPolicy, 0, str "t", postBody path (str "text/plain") body, none⟩

/-- A sidecar that knows one evil text. -/
def evilScore (_ _ _ text : GoString) : ℚ := if text = str "evil" then 1 else 0

theorem evilScore_mem (u t p x : GoString) : 0 ≤ evilScore u t p x ∧ evilScore u t p x ≤ 1 := by
  unfold evilScore
  split <;> decide

/-- The programs of two requests. -/
def twoRequests (first second : LlmRequest) :
    Fin 2 → Prog (llmSig (pureOracle evilScore)) LlmOutcome := fun j =>
  ((some (if j = 0 then first else second)).map fun q =>
    q.prog sampleLlmLib (pureOracle evilScore)).getD (evictor [])

theorem llmCache_transparent_same_path :
    ∃ o, (((Pool.start (twoRequests (plainRequest (str "/v1") (str "hi"))
        (plainRequest (str "/v1") (str "evil"))) emptyCache).runs [0, 1, 0, 1, 0, 1]).threads
          1).result? = some o ∧
      o = (((plainRequest (str "/v1") (str "evil")).prog sampleLlmLib
        (pureOracle evilScore)).run emptyCache).1 := by
  have hun : Unambiguous sampleLlmLib (fun j : Fin 2 => some (if j = 0 then
      plainRequest (str "/v1") (str "hi") else plainRequest (str "/v1") (str "evil"))) := by
    refine unambiguous_of_same _ denyPolicy.sidecarURL (str "t") (str "/v1") fun i q hq => ?_
    rw [← Option.some.inj hq]
    split <;> exact ⟨rfl, rfl, rfl⟩
  have htrans := llmCache_transparent sampleLlmLib evilScore evilScore_mem Function.injective_id _ hun
    (fun _ => []) [0, 1, 0, 1, 0, 1] 1 (plainRequest (str "/v1") (str "evil")) rfl
  obtain ⟨o, ho⟩ := htrans.2 (by decide)
  exact ⟨o, ho, htrans.1 o ho⟩

/-- The path of the first request ends where the text of the second one begins. -/
def seedPath : GoString := str "/v1/x"

/-- **A seeded score.** The text of the first request starts with a NUL-separated part of the path
of the second one, so that both have the same key. The second request passes with the score of the
first one, and is denied with an empty cache. -/
theorem seeded_score_passes :
    (((Pool.start (twoRequests (plainRequest seedPath (str "a" ++ 0 :: str "evil"))
        (plainRequest (seedPath ++ 0 :: str "a") (str "evil"))) emptyCache).runs
          [0, 0, 0, 1]).threads 1).result? = some .pass ∧
    (((plainRequest (seedPath ++ 0 :: str "a") (str "evil")).prog sampleLlmLib
      (pureOracle evilScore)).run emptyCache).1.blocks = true := by
  decide

end SynitWaf
