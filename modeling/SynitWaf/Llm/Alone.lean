import SynitWaf.Llm.Agreement

/-!
# A request on its own

A request that finds nothing in the cache has the sidecar score each of its chunks once. The scores
come back in batches and are matched with the chunks by their position.

* `sentCalls`, `storedScores`: what a request sends to the sidecar and puts into the cache;
* `AnswersWith`: a sidecar that answers every batch of the chunks with the scores of a function;
* `pendingChunks_empty`: the chunks to query are the first occurrences;
* `querySidecarBatched_alone`, `storeLoop_alone`: the loops with such a sidecar;
* **`applyLLMProtection_alone`**.
-/

namespace SynitWaf

open Atomic Go Highest

/-- The call of the sidecar, if the operation is one. -/
def LlmOp.call? : LlmOp → Option SidecarCall
  | .query call => some call
  | _ => none

/-- The key and the score, if the operation stores one. -/
def LlmOp.stored? : LlmOp → Option (GoString × ℚ)
  | .cacheAdd key score => some (key, score)
  | _ => none

section Trace

variable {oracle : ℕ → SidecarCall → SidecarReply} {α β : Type}

/-- The calls of the sidecar among some steps, in their order. -/
def sentCalls (t : Steps (llmSig oracle)) : List SidecarCall := t.filterMap fun x => x.1.call?

/-- The scores stored by some steps, in their order. -/
def storedScores (t : Steps (llmSig oracle)) : List (GoString × ℚ) :=
  t.filterMap fun x => x.1.stored?

/-- The program, run alone in the state `s`, ends with the value `a` in the state `s'`; on the way it
sends `calls` and stores `scores`. -/
structure Does (p : Prog (llmSig oracle) α) (s : LlmState) (a : α) (s' : LlmState)
    (calls : List SidecarCall) (scores : List (GoString × ℚ)) : Prop where
  run : p.run s = (a, s')
  sent : sentCalls (p.steps s) = calls
  stored : storedScores (p.steps s) = scores

theorem Does.ret (a : α) (s : LlmState) : Does (.ret a : Prog (llmSig oracle) α) s a s [] [] :=
  ⟨rfl, rfl, rfl⟩

theorem Does.act {o : LlmOp} {k : o.Res → Prog (llmSig oracle) α} {s s' : LlmState} {a : α}
    {calls : List SidecarCall} {scores : List (GoString × ℚ)}
    (h : Does (k (o.exec oracle s).1) (o.exec oracle s).2 a s' calls scores) :
    Does (.act o k) s a s' (o.call?.toList ++ calls) (o.stored?.toList ++ scores) where
  run := h.run
  sent := by
    rw [← h.sent]
    cases o <;> rfl
  stored := by
    rw [← h.stored]
    cases o <;> rfl

theorem Does.bind {p : Prog (llmSig oracle) α} {g : α → Prog (llmSig oracle) β}
    {s s' s'' : LlmState} {a : α} {b : β} {calls calls' : List SidecarCall}
    {scores scores' : List (GoString × ℚ)} (hp : Does p s a s' calls scores)
    (hg : Does (g a) s' b s'' calls' scores') :
    Does (p >>= g) s b s'' (calls ++ calls') (scores ++ scores') where
  run := by rw [Prog.run_bind, hp.run, hg.run]
  sent := by
    rw [Prog.steps_bind, sentCalls, List.filterMap_append, hp.run]
    exact congrArg₂ (· ++ ·) hp.sent hg.sent
  stored := by
    rw [Prog.steps_bind, storedScores, List.filterMap_append, hp.run]
    exact congrArg₂ (· ++ ·) hp.stored hg.stored

theorem Does.pack {p : Prog (llmSig oracle) α} {g : α → Prog (llmSig oracle) β} {s s' : LlmState}
    {a : α} {b : β} {calls : List SidecarCall} {scores : List (GoString × ℚ)}
    (hp : Does p s a s' calls scores) (hg : g a = .ret b) : Does (p >>= g) s b s' calls scores := by
  have hret : Does (g a) s' b s' [] [] := by
    rw [hg]
    exact .ret b s'
  have h := hp.bind hret
  rwa [List.append_nil, List.append_nil] at h

end Trace

/-- Every call that carries chunks of the list succeeds, with the scores `f`. -/
def AnswersWith (oracle : ℕ → SidecarCall → SidecarReply) (call : List GoString → SidecarCall)
    (chunks : List GoString) (f : GoString → ℚ) : Prop :=
  ∀ n batch, batch ⊆ chunks → querySidecar batch (oracle n (call batch)) = .ok (batch.map f)

/-! ## First occurrences -/

theorem nodup_eraseDups (l : List GoString) : l.eraseDups.Nodup := by
  induction hn : l.length using Nat.strongRecOn generalizing l with
  | ind n ih =>
    cases l with
    | nil => simp
    | cons x l =>
      have hlen := List.length_filter_le (fun b => !b == x) l
      rw [List.eraseDups_cons, List.nodup_cons, List.mem_eraseDups]
      refine ⟨by simp, ih _ ?_ _ rfl⟩
      rw [← hn, List.length_cons]
      omega

/-- With an empty cache and keys that differ, the chunks to query are the first occurrences. -/
theorem pendingChunks_empty {key : GoString → GoString} {chunks : List GoString}
    (seen : List GoString)
    (hkey : ∀ c ∈ chunks, ∀ d, d ∈ chunks ∨ d ∈ seen → key c = key d → c = d) :
    pendingChunks (fun _ => none) key chunks (seen.map key) =
      (chunks.filter (· ∉ seen)).eraseDups := by
  induction chunks generalizing seen with
  | nil => rfl
  | cons text chunks ih =>
    rw [List.forall_mem_cons] at hkey
    have hmem : key text ∈ seen.map key ↔ text ∈ seen := by
      refine ⟨fun h => ?_, List.mem_map_of_mem⟩
      obtain ⟨d, hd, heq⟩ := List.mem_map.mp h
      rwa [hkey.1 d (.inr hd) heq.symm]
    rw [pendingChunks]
    by_cases hs : text ∈ seen
    · rw [if_pos (.inr (hmem.mpr hs)), List.filter_cons_of_neg (by simpa using hs)]
      refine ih seen fun c hc d hd => hkey.2 c hc d ?_
      exact hd.imp_left (List.mem_cons_of_mem _)
    · have hnew : ¬ ((none : Option ℚ).isSome = true ∨ key text ∈ seen.map key) := by
        rw [hmem]
        simpa using hs
      rw [if_neg hnew, List.filter_cons_of_pos (by simpa using hs), List.eraseDups_cons,
        List.filter_filter]
      have hrest := ih (text :: seen) fun c hc d hd heq => hkey.2 c hc d (by
        rcases hd with hd | hd
        · exact .inl (List.mem_cons_of_mem _ hd)
        · rcases List.mem_cons.mp hd with rfl | hd
          · exact .inl List.mem_cons_self
          · exact .inr hd) heq
      rw [List.map_cons] at hrest
      rw [hrest]
      congr 2
      refine List.filter_congr fun c _ => ?_
      by_cases hc : c = text <;> simp [hc]

/-! ## The loops -/

section Loops

variable {oracle : ℕ → SidecarCall → SidecarReply} {f : GoString → ℚ} {chunks : List GoString}
  (key : GoString → GoString)

/-- A lookup sends nothing and stores nothing. -/
theorem lookupLoop_does (chunks : List GoString) (highestScore : ℚ)
    (queued toQuery : List GoString) (s : LlmState) :
    Does (lookupLoop key chunks highestScore queued toQuery : Prog (llmSig oracle) _) s
      (highestCached s.cache key chunks highestScore,
        toQuery ++ pendingChunks s.cache key chunks queued) s [] [] := by
  induction chunks generalizing highestScore queued toQuery with
  | nil =>
    rw [pendingChunks, List.append_nil]
    exact .ret _ _
  | cons text chunks ih =>
    refine Does.act ?_
    simp only [LlmOp.exec]
    cases hc : s.cache (key text) with
    | some score =>
      simpa [highestCached, pendingChunks, hc] using ih (max highestScore score) queued toQuery
    | none =>
      by_cases hq : key text ∈ queued
      · simpa [highestCached, pendingChunks, hc, hq] using ih highestScore queued toQuery
      · simpa [highestCached, pendingChunks, hc, hq] using
          ih highestScore (key text :: queued) (toQuery ++ [text])

/-- All batches are sent, in their order, and the scores are those of their texts. -/
theorem querySidecarBatched_does {call : List GoString → SidecarCall}
    (hf : AnswersWith oracle call chunks f) {batches : List (List GoString)}
    (hb : batches.flatten ⊆ chunks) (s : LlmState) :
    Does (querySidecarBatched call batches : Prog (llmSig oracle) _) s
      (.ok (batches.flatten.map f)) { s with calls := s.calls + batches.length }
      (batches.map call) [] := by
  induction batches generalizing s with
  | nil => exact .ret _ _
  | cons batch batches ih =>
    rw [List.flatten_cons, List.append_subset] at hb
    have hbatch := hf s.calls batch hb.1
    rw [List.flatten_cons, List.map_append, List.length_cons, Nat.add_comm _ 1, ← Nat.add_assoc]
    refine Does.act ?_
    simp only [LlmOp.exec, hbatch]
    exact (ih hb.2 { s with calls := s.calls + 1 }).pack rfl

/-- All scores are stored, each under the key of its chunk. -/
theorem storeLoop_does (f : GoString → ℚ) (l : List GoString) (highestScore : ℚ) (s : LlmState) :
    Does (storeLoop key (l.map fun c => (c, f c)) highestScore : Prog (llmSig oracle) ℚ) s
      ((l.map f).foldl max highestScore)
      { s with cache := l.foldl (fun cache c => Function.update cache (key c) (some (f c))) s.cache }
      [] (l.map fun c => (key c, f c)) := by
  induction l generalizing highestScore s with
  | nil => exact .ret _ _
  | cons x l ih =>
    exact .act (ih (max highestScore (f x))
      { s with cache := Function.update s.cache (key x) (some (f x)) })

end Loops

/-- Scores stored under keys that differ are all there in the end. -/
theorem foldl_update_self {key : GoString → GoString} {f : GoString → ℚ} {l : List GoString}
    (hkey : ∀ c ∈ l, ∀ d ∈ l, key c = key d → c = d) (cache : GoString → Option ℚ) {c : GoString}
    (hc : c ∈ l) :
    l.foldl (fun cache c => Function.update cache (key c) (some (f c))) cache (key c) =
      some (f c) := by
  induction l using List.reverseRecOn with
  | nil => cases hc
  | append_singleton l x ih =>
    rw [List.foldl_append, List.foldl_cons, List.foldl_nil]
    by_cases hx : key c = key x
    · obtain rfl := hkey c hc x (by simp) hx
      exact Function.update_self _ _ _
    · rw [Function.update_of_ne hx]
      refine ih (fun d hd e he => hkey d (by simp [hd]) e (by simp [he])) ?_
      refine (List.mem_append.mp hc).resolve_right fun h => hx ?_
      rw [List.mem_singleton.mp h]

/-! ## The request -/

section Request

variable {oracle : ℕ → SidecarCall → SidecarReply} {lib : LlmLib} {policy : LLMProtectionConfig}
  {tenant path : GoString} {chunks : List GoString} {f : GoString → ℚ} {s : LlmState}

variable (lib) in
/-- Scoring chunks from an empty cache. -/
theorem scoreChunks_alone (hf : AnswersWith oracle (.mk policy.sidecarURL tenant path) chunks f)
    (hkey : ∀ c ∈ chunks, ∀ d ∈ chunks, llmCacheKey lib policy.sidecarURL tenant path c =
      llmCacheKey lib policy.sidecarURL tenant path d → c = d) (hs : ∀ k, s.cache k = none) :
    ∃ s', Does (scoreChunks oracle lib policy tenant path chunks) s
        (llmVerdict lib policy ((chunks.eraseDups.map f).foldl max 0)) s'
        ((sidecarBatches policy chunks.eraseDups).map (.mk policy.sidecarURL tenant path))
        (chunks.eraseDups.map fun c => (llmCacheKey lib policy.sidecarURL tenant path c, f c)) ∧
      ∀ c ∈ chunks, s'.cache (llmCacheKey lib policy.sidecarURL tenant path c) = some (f c) := by
  have hcache : s.cache = fun _ => none := funext hs
  have hlookup := @lookupLoop_does oracle (llmCacheKey lib policy.sidecarURL tenant path) chunks 0
    [] [] s
  have hpending : pendingChunks s.cache (llmCacheKey lib policy.sidecarURL tenant path) chunks [] =
      chunks.eraseDups := by
    rw [hcache]
    refine (pendingChunks_empty [] fun c hc d hd => hkey c hc d ?_).trans ?_
    · exact hd.resolve_right List.not_mem_nil
    · simp
  have hcached : highestCached s.cache (llmCacheKey lib policy.sidecarURL tenant path) chunks 0 =
      0 := by
    rw [highestCached, hcache]
    simp
  rw [hpending, hcached, List.nil_append] at hlookup
  by_cases hnil : chunks.eraseDups = []
  · refine ⟨s, ?_, fun c hc => ?_⟩
    · rw [hnil] at hlookup ⊢
      exact hlookup.pack rfl
    · rw [← List.mem_eraseDups, hnil] at hc
      cases hc
  have hsub : (sidecarBatches policy chunks.eraseDups).flatten ⊆ chunks := by
    rw [flatten_sidecarBatches]
    exact fun c => List.mem_eraseDups.mp
  have hquery := querySidecarBatched_does hf hsub s
  have hzip : chunks.eraseDups.zip (chunks.eraseDups.map f) =
      chunks.eraseDups.map fun c => (c, f c) := List.map_prod_left_eq_zip.symm
  rw [flatten_sidecarBatches] at hquery
  obtain ⟨s', hstate⟩ : ∃ s' : LlmState, s' = { s with
      calls := s.calls + (sidecarBatches policy chunks.eraseDups).length } := ⟨_, rfl⟩
  rw [← hstate] at hquery
  have hstore := @storeLoop_does oracle (llmCacheKey lib policy.sidecarURL tenant path) f
    chunks.eraseDups 0 s'
  refine ⟨{ s' with cache := chunks.eraseDups.foldl (fun cache c => Function.update cache
    (llmCacheKey lib policy.sidecarURL tenant path c) (some (f c))) s'.cache }, ?_, fun c hc => ?_⟩
  · rw [← List.append_nil (List.map _ (sidecarBatches policy chunks.eraseDups))]
    refine hlookup.bind ?_
    dsimp only
    rw [if_neg hnil]
    refine hquery.bind ?_
    dsimp only
    rw [hzip]
    exact hstore.pack rfl
  · refine foldl_update_self (fun c hc d hd => ?_) _ (List.mem_eraseDups.mpr hc)
    exact hkey c (List.mem_eraseDups.mp hc) d (List.mem_eraseDups.mp hd)

/-- A sidecar that answers with scores answers with numbers from zero to one. -/
theorem AnswersWith.nonneg {call : List GoString → SidecarCall}
    (hf : AnswersWith oracle call chunks f) {c : GoString} (hc : c ∈ chunks) : 0 ≤ f c := by
  have hone := hf 0 [c] (by simpa using hc)
  exact ((querySidecar_eq_ok hone).2 (f c) (by simp)).1

theorem sidecarBatches_spec (hbatch : 1 ≤ policy.sidecarMaxBatch) {texts batch : List GoString}
    (h : batch ∈ sidecarBatches policy texts) :
    batch ≠ [] ∧ (batch.length : ℤ) ≤ policy.sidecarMaxBatch := by
  obtain ⟨-, hne, hlen⟩ := mem_batchesOf (batchSize_pos policy) h
  refine ⟨hne, ?_⟩
  rw [batchSize, if_neg (by omega)] at hlen
  omega

/-- The verdict depends on the chunks, not on how often they occur. -/
theorem threshold_le_iff (hne : chunks ≠ []) (hf : ∀ c ∈ chunks, 0 ≤ f c) (x : ℚ) :
    x ≤ (chunks.eraseDups.map f).foldl max 0 ↔ ∃ c ∈ chunks, x ≤ f c := by
  rw [le_foldl_max_iff]
  constructor
  · rintro (hx | ⟨y, hy, hx⟩)
    · obtain ⟨c, hc⟩ := List.exists_mem_of_ne_nil _ hne
      exact ⟨c, hc, hx.trans (hf c hc)⟩
    · obtain ⟨c, hc, rfl⟩ := List.mem_map.mp hy
      exact ⟨c, List.mem_eraseDups.mp hc, hx⟩
  · rintro ⟨c, hc, hx⟩
    exact .inr ⟨f c, List.mem_map_of_mem (List.mem_eraseDups.mpr hc), hx⟩

end Request

/-- **A request on its own.** Let the texts of a request be cut into chunks, let their keys differ,
and let the sidecar answer every call that carries some of them with their scores `f`. With nothing
in the cache, every chunk is sent once, in the order of the first occurrences and in batches of at
most the configured size; every score is stored under the key of its chunk; and the request is
denied exactly if some chunk has a score of at least the threshold, and never under the action
`audit`. -/
theorem applyLLMProtection_alone (oracle : ℕ → SidecarCall → SidecarReply) (lib : LlmLib)
    (policy : LLMProtectionConfig) (limit : ℤ) (tenant : GoString) (r : Request)
    (cached : Option GoString) (texts chunks : List GoString) (f : GoString → ℚ) (s : LlmState)
    (ht : inspectedTexts lib policy limit r cached = .ok texts)
    (hchunks : chunksOf policy texts = some chunks) (hbatch : 1 ≤ policy.sidecarMaxBatch)
    (hkey : ∀ c ∈ chunks, ∀ d ∈ chunks, llmCacheKey lib policy.sidecarURL tenant r.path c =
      llmCacheKey lib policy.sidecarURL tenant r.path d → c = d)
    (hf : AnswersWith oracle (.mk policy.sidecarURL tenant r.path) chunks f)
    (hs : ∀ k, s.cache k = none) :
    let key := llmCacheKey lib policy.sidecarURL tenant r.path
    let p := applyLLMProtection oracle lib policy limit tenant r cached
    -- what is sent
    (∃ batches : List (List GoString),
      sentCalls (p.steps s) = batches.map (.mk policy.sidecarURL tenant r.path) ∧
      batches.flatten = chunks.eraseDups ∧ (∀ c ∈ chunks, batches.flatten.count c = 1) ∧
      ∀ batch ∈ batches, batch ≠ [] ∧ (batch.length : ℤ) ≤ policy.sidecarMaxBatch) ∧
    -- what is stored
    storedScores (p.steps s) = chunks.eraseDups.map (fun c => (key c, f c)) ∧
    (∀ c ∈ chunks, (p.run s).2.cache (key c) = some (f c)) ∧
    -- the verdict
    (policy.action = str "deny" →
      ((p.run s).1.blocks = true ↔ ∃ c ∈ chunks, policy.threshold ≤ f c)) ∧
    (policy.action = str "audit" → (p.run s).1.blocks = false) := by
  intro key p
  have hp : p = scoreChunks oracle lib policy tenant r.path chunks := by
    simp only [p, applyLLMProtection, ht, scoreTexts, hchunks]
  obtain ⟨s', hdoes, hcache⟩ := scoreChunks_alone lib hf hkey hs
  rw [← hp] at hdoes
  have hflat := flatten_sidecarBatches policy chunks.eraseDups
  have hne := chunksOf_ne_nil (inspectedTexts_ne_nil ht) hchunks
  have hthreshold := threshold_le_iff hne (fun c => hf.nonneg) policy.threshold
  refine ⟨⟨_, hdoes.sent, hflat, fun c hc => ?_, fun batch => sidecarBatches_spec hbatch⟩,
    hdoes.stored, ?_, fun hdeny => ?_, fun haudit => ?_⟩
  · rw [hflat]
    exact List.count_eq_one_of_mem (nodup_eraseDups chunks) (List.mem_eraseDups.mpr hc)
  · rw [hdoes.run]
    exact hcache
  · rw [hdoes.run, ← hthreshold]
    refine ⟨fun h => ?_, llmVerdict_blocks hdeny⟩
    by_contra hlow
    rw [llmVerdict, if_neg hlow] at h
    cases h
  · rw [hdoes.run, llmVerdict, if_pos haudit, ite_self]
    rfl

/-- A request with two texts, one of them with a high score. -/
theorem applyLLMProtection_alone_two_texts :
    let p := applyLLMProtection (pureOracle fun _ _ _ text => if text = str "bad" then 1 else 0)
      sampleLlmLib denyPolicy 0 (str "t") (postBody (str "/v1") (str "application/json") twoTexts)
      none
    (p.run emptyCache).1.blocks = true := by
  refine ((applyLLMProtection_alone _ sampleLlmLib denyPolicy 0 (str "t")
    (postBody (str "/v1") (str "application/json") twoTexts) none [str "bad", str "hi"]
    [str "bad", str "hi"] (fun text => if text = str "bad" then 1 else 0) emptyCache rfl rfl
    (by decide) (fun c _ d _ h => ?_) (fun n batch _ => ?_) fun _ => rfl).2.2.2.1 rfl).mpr
    ⟨str "bad", by simp, by decide⟩
  · simpa [llmCacheKey, sampleLlmLib, llmCacheText] using h
  · refine querySidecar_pure (fun _ _ _ text => ?_) n _ _ _ batch
    split <;> decide

end SynitWaf
