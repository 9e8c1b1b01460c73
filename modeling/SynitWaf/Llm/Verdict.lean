import SynitWaf.Highest
import SynitWaf.Llm.Model

/-!
# A known injection and a failing sidecar

A request that holds a chunk with a known high score should be denied. `applyLLMProtection` returns
early when a batch fails, and forgets the scores of the cache and of the batches before.

* `pendingChunks`, `answeredScores`, `firstError`: what a request asks the sidecar, and the answers;
* `lookupLoop_run`, `querySidecarBatched_run`, `storeLoop_run`: the loops run alone;
* `CachedInjection`, `AnsweredInjection`: a chunk with a known high score;
* **`known_injection_blocks_iff`**: such a request is denied exactly if its texts can be cut and
  the policy fails closed or no batch fails;
* `added_text_passes`: a further text makes a denied request pass.
-/

namespace SynitWaf

open Atomic Go Highest

/-! ## What a request asks, and the answers -/

/-- The chunks without a cached score, once for each key. -/
def pendingChunks (cache : GoString → Option ℚ) (key : GoString → GoString) :
    List GoString → List GoString → List GoString
  | [], _ => []
  | text :: chunks, queued =>
    if (cache (key text)).isSome ∨ key text ∈ queued then pendingChunks cache key chunks queued
    else text :: pendingChunks cache key chunks (key text :: queued)

/-- The highest of `highestScore` and the cached scores of the chunks. -/
def highestCached (cache : GoString → Option ℚ) (key : GoString → GoString) (chunks : List GoString)
    (highestScore : ℚ) : ℚ :=
  (chunks.filterMap fun text => cache (key text)).foldl max highestScore

section Answers

variable (oracle : ℕ → SidecarCall → SidecarReply) (call : List GoString → SidecarCall)

/-- The scores of the batches before the first one that fails, starting with call number `n`. -/
def answeredScores : ℕ → List (List GoString) → List ℚ
  | _, [] => []
  | n, batch :: batches =>
    match querySidecar batch (oracle n (call batch)) with
    | .ok scores => scores ++ answeredScores (n + 1) batches
    | .error _ => []

/-- The error of the first batch that fails. -/
def firstError : ℕ → List (List GoString) → Option SidecarError
  | _, [] => none
  | n, batch :: batches =>
    match querySidecar batch (oracle n (call batch)) with
    | .ok _ => firstError (n + 1) batches
    | .error e => some e

end Answers

/-! ## The loops, run alone -/

section Runs

variable {oracle : ℕ → SidecarCall → SidecarReply} (key : GoString → GoString)

theorem lookupLoop_run (chunks : List GoString) (highestScore : ℚ) (queued toQuery : List GoString)
    (s : LlmState) :
    (lookupLoop key chunks highestScore queued toQuery : Prog (llmSig oracle) _).run s =
      ((highestCached s.cache key chunks highestScore,
        toQuery ++ pendingChunks s.cache key chunks queued), s) := by
  induction chunks generalizing highestScore queued toQuery with
  | nil => simp [lookupLoop, highestCached, pendingChunks]
  | cons text chunks ih =>
    rw [lookupLoop, Prog.run_act]
    simp only [LlmOp.exec]
    cases hc : s.cache (key text) with
    | some score => simp [ih, highestCached, pendingChunks, hc]
    | none =>
      by_cases hq : key text ∈ queued
      · simp [ih, highestCached, pendingChunks, hc, hq]
      · simp [ih, highestCached, pendingChunks, hc, hq]

theorem querySidecarBatched_run (call : List GoString → SidecarCall) (batches : List (List GoString))
    (s : LlmState) :
    ((querySidecarBatched call batches : Prog (llmSig oracle) _).run s).1 =
      match firstError oracle call s.calls batches with
      | some e => .error e
      | none => .ok (answeredScores oracle call s.calls batches) := by
  induction batches generalizing s with
  | nil => rfl
  | cons batch batches ih =>
    rw [querySidecarBatched, Prog.run_act, firstError, answeredScores]
    have ih' := ih { s with calls := s.calls + 1 }
    simp only [LlmOp.exec]
    cases hq : querySidecar batch (oracle s.calls (call batch)) with
    | error e => rfl
    | ok scores =>
      simp only [Prog.run_bind, ih']
      cases firstError oracle call (s.calls + 1) batches <;> rfl

theorem storeLoop_run (scored : List (GoString × ℚ)) (highestScore : ℚ) (s : LlmState) :
    ((storeLoop key scored highestScore : Prog (llmSig oracle) _).run s).1 =
      (scored.map Prod.snd).foldl max highestScore := by
  induction scored generalizing highestScore s with
  | nil => rfl
  | cons x scored ih => exact ih _ _

end Runs

/-! ## Highest scores -/

theorem le_highestCached {cache : GoString → Option ℚ} {key : GoString → GoString}
    {chunks : List GoString} {c : GoString} {score x : ℚ} (hc : c ∈ chunks)
    (hs : cache (key c) = some score) (hx : x ≤ score) : x ≤ highestCached cache key chunks 0 :=
  le_foldl_max_iff.mpr (.inr ⟨score, List.mem_filterMap.mpr ⟨c, hc, hs⟩, hx⟩)

theorem flatten_batchesOf {α : Type} {n : ℕ} (hn : 0 < n) {fuel : ℕ} {l : List α}
    (h : l.length ≤ fuel) : (batchesOf n fuel l).flatten = l := by
  induction fuel generalizing l with
  | zero =>
    rw [List.length_eq_zero_iff.mp (Nat.le_zero.mp h)]
    rfl
  | succ fuel ih =>
    cases l with
    | nil => rfl
    | cons x l =>
      rw [batchesOf, List.flatten_cons, ih, List.take_append_drop]
      · simp only [List.length_drop, List.length_cons] at h ⊢
        omega
      · simp

theorem flatten_sidecarBatches (policy : LLMProtectionConfig) (texts : List GoString) :
    (sidecarBatches policy texts).flatten = texts :=
  flatten_batchesOf (batchSize_pos policy) (le_refl _)

/-- The scores of an answer: one for each text, from zero to one. -/
theorem querySidecar_eq_ok {texts : List GoString} {reply : SidecarReply} {scores : List ℚ}
    (h : querySidecar texts reply = .ok scores) :
    scores.length = texts.length ∧ ∀ score ∈ scores, 0 ≤ score ∧ score ≤ 1 := by
  unfold querySidecar at h
  split at h
  · cases h
  · split at h
    · split at h
      · cases h
      · split at h
        · cases h
        next hl =>
          split at h
          · cases h
          next hrange =>
            obtain rfl := Except.ok.inj h
            refine ⟨not_not.mp hl, fun score hscore => ?_⟩
            simp only [List.any_eq_true, decide_eq_true_eq, not_exists, not_and, not_or,
              not_lt] at hrange
            exact hrange score hscore
    · split at h <;> cases h

/-- Without an error there is one score for each text. -/
theorem answeredScores_length {oracle : ℕ → SidecarCall → SidecarReply}
    {call : List GoString → SidecarCall} {n : ℕ} {batches : List (List GoString)}
    (h : firstError oracle call n batches = none) :
    (answeredScores oracle call n batches).length = batches.flatten.length := by
  induction batches generalizing n with
  | nil => rfl
  | cons batch batches ih =>
    rw [firstError] at h
    rw [answeredScores]
    cases hq : querySidecar batch (oracle n (call batch)) with
    | error e => rw [hq] at h; cases h
    | ok scores =>
      rw [hq] at h
      rw [List.flatten_cons, List.length_append, List.length_append, (querySidecar_eq_ok hq).1, ih h]

/-! ## Known injections -/

section Known

variable (oracle : ℕ → SidecarCall → SidecarReply) (lib : LlmLib) (policy : LLMProtectionConfig)
  (tenant path : GoString) (texts : List GoString) (s : LlmState)

/-- A chunk of the texts has a cached score of at least the threshold. -/
def CachedInjection : Prop :=
  ∃ text ∈ texts, ∃ chunks, splitLLMText text policy.maxTextBytes = some chunks ∧
    ∃ c ∈ chunks, ∃ score, s.cache (llmCacheKey lib policy.sidecarURL tenant path c) = some score ∧
      policy.threshold ≤ score

/-- The batches of the request, if its texts can be cut into `chunks`. -/
def requestBatches (chunks : List GoString) : List (List GoString) :=
  sidecarBatches policy
    (pendingChunks s.cache (llmCacheKey lib policy.sidecarURL tenant path) chunks [])

/-- A batch of the request is answered with a score of at least the threshold. -/
def AnsweredInjection : Prop :=
  ∃ chunks, chunksOf policy texts = some chunks ∧
    ∃ score ∈ answeredScores oracle (SidecarCall.mk policy.sidecarURL tenant path) s.calls
      (requestBatches lib policy tenant path s chunks), policy.threshold ≤ score

/-- The texts can be cut into chunks, and the policy fails closed or the sidecar is there: the first
batch that fails, if any, was refused for its input. -/
def Inspectable : Prop :=
  ∃ chunks, chunksOf policy texts = some chunks ∧ (policy.failMode = str "closed" ∨
    firstError oracle (SidecarCall.mk policy.sidecarURL tenant path) s.calls
      (requestBatches lib policy tenant path s chunks) ≠ some .dependency)

end Known

section Blocks

variable {oracle : ℕ → SidecarCall → SidecarReply} {lib : LlmLib} {policy : LLMProtectionConfig}
  {tenant path : GoString} {texts : List GoString} {s : LlmState}

theorem llmVerdict_blocks {h : ℚ} (hdeny : policy.action = str "deny") (hh : policy.threshold ≤ h) :
    (llmVerdict lib policy h).blocks = true := by
  rw [llmVerdict, if_pos hh, if_neg (by rw [hdeny]; decide)]
  rfl

theorem llmFailure_blocks (hdeny : policy.action = str "deny") (e : SidecarError) :
    (llmFailure policy e).blocks = true ↔ policy.failMode = str "closed" ∨ e ≠ .dependency := by
  cases e with
  | rejectedInput =>
    rw [llmFailure, if_neg (by rw [hdeny]; decide)]
    simp [LlmOutcome.blocks]
  | dependency =>
    by_cases hf : policy.failMode = str "closed" <;> simp [llmFailure, hf, LlmOutcome.blocks]

theorem chunksOf_cons {text : GoString} {chunks : List GoString} :
    chunksOf policy (text :: texts) = some chunks ↔
      ∃ cs rest, splitLLMText text policy.maxTextBytes = some cs ∧
        chunksOf policy texts = some rest ∧ chunks = cs ++ rest := by
  unfold chunksOf
  rw [List.mapM_cons]
  cases splitLLMText text policy.maxTextBytes with
  | none => simp
  | some cs =>
    cases texts.mapM fun text => splitLLMText text policy.maxTextBytes with
    | none => simp
    | some rest => simp [eq_comm]

/-- A chunk of a text is a chunk of all texts. -/
theorem mem_chunksOf {text : GoString} {cs chunks : List GoString} {c : GoString}
    (ht : text ∈ texts) (hs : splitLLMText text policy.maxTextBytes = some cs) (hc : c ∈ cs)
    (h : chunksOf policy texts = some chunks) : c ∈ chunks := by
  induction texts generalizing chunks with
  | nil => cases ht
  | cons t texts ih =>
    obtain ⟨cs', rest, hcs', hrest, rfl⟩ := chunksOf_cons.mp h
    rcases List.mem_cons.mp ht with rfl | ht
    · rw [hs] at hcs'
      cases hcs'
      exact List.mem_append_left _ hc
    · exact List.mem_append_right _ (ih ht hrest)

theorem flatten_requestBatches (chunks : List GoString) :
    (requestBatches lib policy tenant path s chunks).flatten =
      pendingChunks s.cache (llmCacheKey lib policy.sidecarURL tenant path) chunks [] :=
  flatten_sidecarBatches _ _

/-- The outcome of a request run alone, from its cached scores and the answers of the sidecar. -/
theorem scoreChunks_run (chunks : List GoString) :
    ((scoreChunks oracle lib policy tenant path chunks).run s).1 =
      let key := llmCacheKey lib policy.sidecarURL tenant path
      let call := SidecarCall.mk policy.sidecarURL tenant path
      let batches := requestBatches lib policy tenant path s chunks
      match firstError oracle call s.calls batches with
      | some e => llmFailure policy e
      | none => llmVerdict lib policy ((answeredScores oracle call s.calls batches).foldl max
          (highestCached s.cache key chunks 0)) := by
  rw [scoreChunks]
  dsimp only
  rw [Prog.run_bind, lookupLoop_run, List.nil_append]
  dsimp only
  by_cases hp : pendingChunks s.cache (llmCacheKey lib policy.sidecarURL tenant path) chunks [] = []
  · rw [if_pos hp, requestBatches, hp]
    rfl
  · rw [if_neg hp, Prog.run_bind, querySidecarBatched_run, ← requestBatches]
    cases hf : firstError oracle (SidecarCall.mk policy.sidecarURL tenant path) s.calls
        (requestBatches lib policy tenant path s chunks) with
    | some e => rfl
    | none =>
      have hlen := answeredScores_length hf
      rw [flatten_requestBatches] at hlen
      simp only [Prog.run_bind, Prog.pure_eq, Prog.run_ret, storeLoop_run]
      rw [List.map_snd_zip (le_of_eq hlen)]

/-- **Scoring given chunks**: what is denied when a chunk has a known high score. -/
theorem scoreChunks_blocks_iff {chunks : List GoString} (hdeny : policy.action = str "deny")
    (hc : chunksOf policy texts = some chunks)
    (known : CachedInjection lib policy tenant path texts s ∨
      AnsweredInjection oracle lib policy tenant path texts s) :
    ((scoreChunks oracle lib policy tenant path chunks).run s).1.blocks = true ↔
      Inspectable oracle lib policy tenant path texts s := by
  have hins : Inspectable oracle lib policy tenant path texts s ↔ policy.failMode = str "closed" ∨
      firstError oracle (SidecarCall.mk policy.sidecarURL tenant path) s.calls
        (requestBatches lib policy tenant path s chunks) ≠ some .dependency := by
    simp [Inspectable, hc]
  rw [hins, scoreChunks_run]
  dsimp only
  cases hf : firstError oracle (SidecarCall.mk policy.sidecarURL tenant path) s.calls
      (requestBatches lib policy tenant path s chunks) with
  | some e =>
    dsimp only
    rw [llmFailure_blocks hdeny]
    simp
  | none =>
    dsimp only
    refine iff_of_true (llmVerdict_blocks hdeny ?_) (.inr (by simp))
    rcases known with ⟨text, ht, cs, hcs, c, hcc, score, hs, hle⟩ | ⟨chunks', hc', score, hs, hle⟩
    · exact le_foldl_max_iff.mpr (.inl (le_highestCached (mem_chunksOf ht hcs hcc hc) hs hle))
    · rw [hc] at hc'
      cases hc'
      exact le_foldl_max_iff.mpr (.inr ⟨score, hs, hle⟩)

theorem scoreTexts_blocks_iff (hdeny : policy.action = str "deny")
    (known : CachedInjection lib policy tenant path texts s ∨
      AnsweredInjection oracle lib policy tenant path texts s) :
    ((scoreTexts oracle lib policy tenant path texts).run s).1.blocks = true ↔
      Inspectable oracle lib policy tenant path texts s := by
  unfold scoreTexts
  cases hc : chunksOf policy texts with
  | none => simp [Inspectable, hc, LlmOutcome.blocks]
  | some chunks => exact scoreChunks_blocks_iff hdeny hc known

end Blocks

/-- **A known injection is denied**, under an action that denies, exactly if the texts can be cut
and the policy fails closed or the sidecar does not fail. Under the same condition further texts do
not make a request pass that has a cached injection. -/
theorem known_injection_blocks_iff (oracle : ℕ → SidecarCall → SidecarReply) (lib : LlmLib)
    (policy : LLMProtectionConfig) (limit : ℤ) (tenant : GoString) (r : Request)
    (cached : Option GoString) (texts : List GoString) (s : LlmState)
    (ht : inspectedTexts lib policy limit r cached = .ok texts)
    (hdeny : policy.action = str "deny")
    (known : CachedInjection lib policy tenant r.path texts s ∨
      AnsweredInjection oracle lib policy tenant r.path texts s) :
    (((applyLLMProtection oracle lib policy limit tenant r cached).run s).1.blocks = true ↔
      Inspectable oracle lib policy tenant r.path texts s) ∧
    (CachedInjection lib policy tenant r.path texts s → ∀ (r' : Request) (cached' : Option GoString)
      (texts' : List GoString), r'.path = r.path → texts ⊆ texts' →
      inspectedTexts lib policy limit r' cached' = .ok texts' →
      Inspectable oracle lib policy tenant r'.path texts' s →
      ((applyLLMProtection oracle lib policy limit tenant r' cached').run s).1.blocks = true) := by
  constructor
  · rw [applyLLMProtection, ht]
    exact scoreTexts_blocks_iff hdeny known
  · rintro ⟨text, hmem, hsplit⟩ r' cached' texts' hpath hsub ht' hins
    have hknown : CachedInjection lib policy tenant r'.path texts' s :=
      ⟨text, hsub hmem, hpath ▸ hsplit⟩
    rw [applyLLMProtection, ht']
    exact (scoreTexts_blocks_iff hdeny (.inl hknown)).mpr hins

/-! ## A further text -/

/-- A policy that denies and fails open. -/
def denyPolicy : LLMProtectionConfig where
  enabled := true
  mode := str "ml"
  action := str "deny"
  threshold := 1
  failMode := str "open"
  timeout := 500000000
  maxBodyBytes := 0
  maxTextBytes := 8192
  sidecarMaxBatch := 32
  sidecarURL := str "http://localhost:5001/v1/detect"
  sidecarToken := str "token"
  sidecarTokenEnv := []
  inspectPaths := [str "/v1"]
  inspectJSONFields := [str "input"]

/-- A JSON body with one text. -/
def oneText : GoString := str "\x7b\"input\":[\"bad\"]\x7d"

/-- The same body with a further text. -/
def twoTexts : GoString := str "\x7b\"input\":[\"bad\",\"hi\"]\x7d"

/-- Other packages, as far as they read these bodies. -/
def sampleLlmLib : LlmLib where
  parseMediaType := some
  toLower := lowerASCII
  jsonValid := fun body => body = oneText ∨ body = twoTexts
  gjsonGet := fun body field =>
    if field ≠ str "input" then none
    else if body = oneText then some (.array [str "bad"])
    else if body = twoTexts then some (.array [str "bad", str "hi"])
    else none
  hash := id
  formatScore := fun _ => str "1.00"

/-- A POST with the given body and media type. -/
def postBody (path mediaType body : GoString) : Request where
  method := str "POST"
  host := str "example.com"
  path := path
  query := fun _ => []
  header := fun name => if name = str "Content-Type" then [mediaType] else []
  remoteAddr := str "192.0.2.1:4711"
  tls := false
  contentLength := body.length
  body := .reader ⟨body, false⟩

/-- The cache holds a high score for the text `bad`. -/
def badCached : LlmState where
  cache := fun key =>
    if key = llmCacheKey sampleLlmLib denyPolicy.sidecarURL (str "t") (str "/v1") (str "bad") then
      some 1
    else none
  calls := 0

theorem known_injection_single_text :
    ((applyLLMProtection (fun _ _ => .failed) sampleLlmLib denyPolicy 0 (str "t")
      (postBody (str "/v1") (str "application/json") oneText) none).run badCached).1.blocks = true :=
  (known_injection_blocks_iff (fun _ _ => .failed) sampleLlmLib denyPolicy 0 (str "t")
    (postBody (str "/v1") (str "application/json") oneText) none [str "bad"] badCached rfl rfl
    (.inl ⟨str "bad", by simp, [str "bad"], rfl, str "bad", by simp, 1, rfl, le_refl 1⟩)).1.mpr
    ⟨[str "bad"], rfl, .inr (by decide)⟩

/-- **A further text passes.** The request with the text `bad` is denied; with a second text, for
which the sidecar fails, it passes. -/
theorem added_text_passes :
    CachedInjection sampleLlmLib denyPolicy (str "t") (str "/v1") [str "bad", str "hi"] badCached ∧
    inspectedTexts sampleLlmLib denyPolicy 0
      (postBody (str "/v1") (str "application/json") twoTexts) none =
        .ok [str "bad", str "hi"] ∧
    ((applyLLMProtection (fun _ _ => .failed) sampleLlmLib denyPolicy 0 (str "t")
      (postBody (str "/v1") (str "application/json") oneText) none).run badCached).1.blocks = true ∧
    ((applyLLMProtection (fun _ _ => .failed) sampleLlmLib denyPolicy 0 (str "t")
      (postBody (str "/v1") (str "application/json") twoTexts) none).run badCached).1 =
        .pass := by
  refine ⟨⟨str "bad", by simp, [str "bad"], rfl, str "bad", by simp, 1, rfl, le_refl 1⟩, ?_⟩
  decide +kernel

end SynitWaf
