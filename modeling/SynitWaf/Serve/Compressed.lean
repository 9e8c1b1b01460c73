import SynitWaf.ContentEncoding
import SynitWaf.GraphQL.Protect
import SynitWaf.Llm.Verdict
import SynitWaf.Serve.Checks

/-!
# Encoded request bodies

Three stages inspect the body of a request, and none of them can decode it. Each asks
`hasUnsupportedContentEncoding` before it reads the body.

* `CarriesBody`, `GraphQLReads`, `LlmReads`: a request with a body, and one whose body a stage reads;
* `applyWAF_unsupported`, `applyGraphQLProtection_unsupported`, `inspectedTexts_unsupported`: a stage
  that is told of a coding answers at once;
* `encodedRequest`: a request that passes all stages, if its lines do;
* **`encoded_body_rejected_iff`**: a stage rejects all encoded bodies exactly for those lines of which
  the first one tells; `gzip_behind_identity`: lines of which it does not.
-/

namespace SynitWaf

open Atomic Go

/-- The request has a body that is not empty, of a length that is unknown or right. -/
def CarriesBody (r : Request) : Prop :=
  r.body.data ≠ [] ∧ (r.contentLength = -1 ∨ r.contentLength = r.body.data.length)

/-- `applyGraphQLProtection` reads the body. -/
def GraphQLReads (policy : GraphQLProtection) (r : Request) : Prop :=
  policy.enabled = true ∧ pathMatchesAny (graphQLPaths policy) r.path = true ∧ r.method = str "POST"

/-- `applyLLMProtection` reads the body. -/
def LlmReads (lib : LlmLib) (policy : LLMProtectionConfig) (r : Request) : Prop :=
  policy.enabled = true ∧ pathMatchesAny policy.inspectPaths r.path = true ∧
    ∃ mediaType, lib.parseMediaType (r.header.get (str "Content-Type")) = some mediaType ∧
      (lib.toLower mediaType = str "application/json" ∨ lib.toLower mediaType = str "text/plain")

section Unsupported

variable {r : Request}

theorem CarriesBody.body_ne_nil (h : CarriesBody r) : r.body ≠ .nil := by
  intro hnil
  rw [CarriesBody, hnil] at h
  exact h.1 rfl

theorem CarriesBody.contentLength_ne_zero (h : CarriesBody r) : r.contentLength ≠ 0 := by
  have hpos := List.length_pos_of_ne_nil h.1
  obtain hlen | hlen := h.2 <;> omega

theorem applyWAF_unsupported (hbody : CarriesBody r) (h : hasUnsupportedContentEncoding r = true)
    (escape : GoString → GoString) (entry : Entry) (tx : CorazaTx) (limit : ℤ)
    (cached : Option GoString) : (applyWAF escape r entry tx limit cached).1.isSome = true := by
  have hread : r.body ≠ .nil ∧ r.contentLength ≠ 0 :=
    ⟨hbody.body_ne_nil, hbody.contentLength_ne_zero⟩
  unfold applyWAF
  rw [if_pos hread, if_pos h]
  split <;> rfl

theorem applyGraphQLProtection_unsupported (hbody : CarriesBody r)
    (h : hasUnsupportedContentEncoding r = true) {policy : GraphQLProtection}
    (hreads : GraphQLReads policy r) (lib : GraphQLLib) (limit : ℤ) (cached : Option GoString) :
    (applyGraphQLProtection lib policy r limit cached).1.isSome = true := by
  obtain ⟨henabled, hpath, hpost⟩ := hreads
  have hget : str "POST" ≠ str "GET" := by decide
  unfold applyGraphQLProtection
  rw [if_neg (by simp [henabled]), if_neg (by simp [hpath]), hpost, if_neg hget,
    if_neg (not_not.mpr rfl), if_neg hbody.body_ne_nil, if_pos h]
  rfl

theorem inspectedTexts_unsupported (hbody : CarriesBody r)
    (h : hasUnsupportedContentEncoding r = true) {lib : LlmLib} {policy : LLMProtectionConfig}
    (hreads : LlmReads lib policy r) (limit : ℤ) (cached : Option GoString) :
    ∃ reply, inspectedTexts lib policy limit r cached = .error (.block reply) := by
  obtain ⟨henabled, hpath, mediaType, hparse, htype⟩ := hreads
  refine ⟨.text 415 (str "Compressed LLM request bodies cannot be inspected"), ?_⟩
  have hinspect : ¬ (¬ lib.toLower mediaType = str "application/json" ∧
      ¬ lib.toLower mediaType = str "text/plain") := by tauto
  unfold inspectedTexts
  simp only [henabled, hpath, hparse, hinspect, hbody.body_ne_nil, h]
  rfl

end Unsupported

/-! ## Requests that pass -/

/-- A request with a GraphQL document as its body, and the given lines of `Content-Encoding`. -/
def encodedRequest (mediaType : GoString) (lines : List GoString) : Request where
  method := str "POST"
  host := str "example.com"
  path := str "/graphql"
  query := fun _ => []
  header := fun name =>
    if name = str "Content-Encoding" then lines
    else if name = str "Content-Type" then [mediaType] else []
  remoteAddr := str "192.0.2.1:4711"
  tls := false
  contentLength := 3
  body := .reader ⟨str "\x7ba\x7d", false⟩

/-- A transaction that is never interrupted. -/
def quietTx : CorazaTx where
  id := str "1"
  connection := false
  uri := false
  headers := false
  writeBody := fun _ => false
  processBody := fun _ => some false

/-- Scores are not asked for. -/
def rulesOnly : LLMProtectionConfig :=
  { (default : LLMProtectionConfig) with
    enabled := true, mode := str "rules", inspectPaths := [str "/"] }

section Passing

variable {lines : List GoString}

theorem carriesBody_encodedRequest (mediaType : GoString) (lines : List GoString) :
    CarriesBody (encodedRequest mediaType lines) := ⟨List.cons_ne_nil _ _, .inr rfl⟩

theorem applyWAF_passes (h : rejectsEncoding lines = false) :
    (applyWAF id (encodedRequest (str "text/plain") lines) default quietTx 0 none).1 = none := by
  have hsupported : hasUnsupportedContentEncoding (encodedRequest (str "text/plain") lines) = false := h
  unfold applyWAF
  rw [hsupported]
  rfl

theorem applyGraphQLProtection_passes (h : rejectsEncoding lines = false) :
    (applyGraphQLProtection sampleLib noIntrospection
      (encodedRequest (str "application/graphql") lines) 0 none).1 = none := by
  have hsupported :
      hasUnsupportedContentEncoding (encodedRequest (str "application/graphql") lines) = false := h
  unfold applyGraphQLProtection
  rw [hsupported]
  rfl

theorem applyLLMProtection_passes (h : rejectsEncoding lines = false)
    (oracle : ℕ → SidecarCall → SidecarReply) (tenant : GoString) :
    applyLLMProtection oracle sampleLlmLib rulesOnly 0 tenant
      (encodedRequest (str "text/plain") lines) none = .ret .pass := by
  have hsupported : hasUnsupportedContentEncoding (encodedRequest (str "text/plain") lines) = false := h
  unfold applyLLMProtection inspectedTexts
  rw [hsupported]
  rfl

end Passing

/-! ## All lines -/

section Stages

variable (lines : List GoString)

/-- `applyWAF` rejects every request with these lines. -/
def WafRejects : Prop :=
  ∀ escape r entry tx limit cached, r.header (str "Content-Encoding") = lines → CarriesBody r →
    (applyWAF escape r entry tx limit cached).1.isSome = true

/-- `applyGraphQLProtection` rejects every request with these lines whose body it reads. -/
def GraphQLRejects : Prop :=
  ∀ lib policy r limit cached, r.header (str "Content-Encoding") = lines → CarriesBody r →
    GraphQLReads policy r → (applyGraphQLProtection lib policy r limit cached).1.isSome = true

/-- `applyLLMProtection` rejects every request with these lines whose body it reads. -/
def LlmRejects : Prop :=
  ∀ oracle lib policy limit tenant r cached, r.header (str "Content-Encoding") = lines →
    CarriesBody r → LlmReads lib policy r →
    ∃ reply, applyLLMProtection oracle lib policy limit tenant r cached = .ret (.block reply)

end Stages

section Lines

variable {lines : List GoString}

theorem wafRejects_iff : WafRejects lines ↔ rejectsEncoding lines = true := by
  constructor
  · intro h
    by_contra hpass
    have hnone := applyWAF_passes (eq_false_of_ne_true hpass)
    have hsome := h id (encodedRequest (str "text/plain") lines) default quietTx 0 none rfl
      (carriesBody_encodedRequest _ lines)
    rw [hnone] at hsome
    cases hsome
  · intro h escape r entry tx limit cached hlines hbody
    subst hlines
    rw [← hasUnsupportedContentEncoding_eq] at h
    exact applyWAF_unsupported hbody h escape entry tx limit cached

theorem graphQLRejects_iff : GraphQLRejects lines ↔ rejectsEncoding lines = true := by
  constructor
  · intro h
    by_contra hpass
    have hnone := applyGraphQLProtection_passes (eq_false_of_ne_true hpass)
    have hsome := h sampleLib noIntrospection (encodedRequest (str "application/graphql") lines) 0
      none rfl (carriesBody_encodedRequest _ lines) ⟨rfl, by rfl, rfl⟩
    rw [hnone] at hsome
    cases hsome
  · intro h lib policy r limit cached hlines hbody hreads
    subst hlines
    rw [← hasUnsupportedContentEncoding_eq] at h
    exact applyGraphQLProtection_unsupported hbody h hreads lib limit cached

theorem llmRejects_iff : LlmRejects lines ↔ rejectsEncoding lines = true := by
  constructor
  · intro h
    by_contra hpass
    obtain ⟨reply, hblock⟩ := h (fun _ _ => .failed) sampleLlmLib rulesOnly 0 []
      (encodedRequest (str "text/plain") lines) none rfl (carriesBody_encodedRequest _ lines)
      ⟨rfl, by rfl, str "text/plain", rfl, .inr rfl⟩
    rw [applyLLMProtection_passes (eq_false_of_ne_true hpass)] at hblock
    cases hblock
  · intro h oracle lib policy limit tenant r cached hlines hbody hreads
    subst hlines
    rw [← hasUnsupportedContentEncoding_eq] at h
    obtain ⟨reply, htexts⟩ := inspectedTexts_unsupported hbody h hreads limit cached
    exact ⟨reply, by rw [applyLLMProtection, htexts]⟩

end Lines

/-- **Encoded bodies.** Of all lists of lines of `Content-Encoding`: if they list a coding other than
`identity`, each of the three stages rejects every request with these lines whose body it would read,
if and only if the first line is enough to tell. -/
theorem encoded_body_rejected_iff (lines : List GoString) :
    ((Encoded lines → WafRejects lines) ↔ FirstLineTells lines) ∧
      ((Encoded lines → GraphQLRejects lines) ↔ FirstLineTells lines) ∧
      ((Encoded lines → LlmRejects lines) ↔ FirstLineTells lines) := by
  rw [wafRejects_iff, graphQLRejects_iff, llmRejects_iff]
  exact ⟨encoded_rejected_iff lines, encoded_rejected_iff lines, encoded_rejected_iff lines⟩

/-- **A coding behind `identity`.** The body is compressed, and all stages let it pass. -/
theorem gzip_behind_identity :
    let lines := [str "identity", str "gzip"]
    Encoded lines ∧
      (applyWAF id (encodedRequest (str "text/plain") lines) default quietTx 0 none).1 = none ∧
      (applyGraphQLProtection sampleLib noIntrospection
        (encodedRequest (str "application/graphql") lines) 0 none).1 = none ∧
      applyLLMProtection (fun _ _ => .failed) sampleLlmLib rulesOnly 0 [] (encodedRequest
        (str "text/plain") lines) none = .ret .pass := by
  intro lines
  have hpass : rejectsEncoding lines = false := by decide
  exact ⟨by decide, applyWAF_passes hpass, applyGraphQLProtection_passes hpass,
    applyLLMProtection_passes hpass _ _⟩

end SynitWaf
