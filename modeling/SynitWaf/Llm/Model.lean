import SynitWaf.Atomic.Pool
import SynitWaf.Config.Types
import SynitWaf.Llm.Chunks
import SynitWaf.Request

/-!
# LLM protection of a request

`applyLLMProtection` extracts texts from the body, cuts them into chunks, looks their scores up in a
cache shared by all requests and asks the sidecar for the others in batches.

* `LlmLib`: functions of other packages; `querySidecar`: one answer of the sidecar;
* `LlmOp`, `llmSig`: the operations on the shared cache and the calls of the sidecar;
* `inspectedTexts`: what is decided without a score, or the texts to score;
* `scoreTexts`, **`applyLLMProtection`**.
-/

namespace SynitWaf

open Atomic Go

/-! ## Other packages and the sidecar -/

/-- `gjson.Result` of an existing field. -/
inductive GjsonResult where
  | array (strings : List GoString)
  | value (string : GoString)

/-- The functions of other packages that the protection calls. -/
structure LlmLib where
  parseMediaType : GoString → Option GoString
  toLower : GoString → GoString
  jsonValid : GoString → Bool
  gjsonGet : GoString → GoString → Option GjsonResult
  hash : GoString → GoString
  formatScore : ℚ → GoString

/-- A request to the sidecar. -/
structure SidecarCall where
  url : GoString
  tenant : GoString
  path : GoString
  texts : List GoString
  deriving DecidableEq

/-- The outcome of a request to the sidecar: a transport error or timeout, or a status with the
scores of the body if it could be decoded. -/
inductive SidecarReply where
  | failed
  | status (code : ℕ) (scores : Option (List ℚ))

/-- The errors of `querySidecar`; only the first one is `errSidecarRejectedInput`. -/
inductive SidecarError where
  | rejectedInput
  | dependency
  deriving DecidableEq

/-- `querySidecar`: the scores of a well-formed answer. -/
def querySidecar (texts : List GoString) : SidecarReply → Except SidecarError (List ℚ)
  | .failed => .error .dependency
  | .status code scores =>
    if code = 200 then
      match scores with
      | none => .error .dependency
      | some scores =>
        if scores.length ≠ texts.length then .error .dependency
        else if scores.any fun score => score < 0 ∨ 1 < score then .error .dependency
        else .ok scores
    else if code = 400 ∨ code = 413 ∨ code = 422 then .error .rejectedInput
    else .error .dependency

/-! ## The shared cache -/

/-- The score cache and the number of sidecar calls so far. -/
structure LlmState where
  cache : GoString → Option ℚ
  calls : ℕ

/-- Operations on the cache and calls of the sidecar; `evict` is an expiry, an eviction or a purge
of one key. -/
inductive LlmOp where
  | cacheGet (key : GoString)
  | cacheAdd (key : GoString) (score : ℚ)
  | query (call : SidecarCall)
  | evict (key : GoString)

/-- The answer of an operation. -/
@[reducible] def LlmOp.Res : LlmOp → Type
  | .cacheGet _ => Option ℚ
  | .cacheAdd _ _ => Unit
  | .query _ => SidecarReply
  | .evict _ => Unit

/-- What an operation does; `oracle` answers the sidecar calls. -/
def LlmOp.exec (oracle : ℕ → SidecarCall → SidecarReply) : (o : LlmOp) → LlmState → o.Res × LlmState
  | .cacheGet key, s => (s.cache key, s)
  | .cacheAdd key score, s => ((), { s with cache := Function.update s.cache key (some score) })
  | .query call, s => (oracle s.calls call, { s with calls := s.calls + 1 })
  | .evict key, s => ((), { s with cache := Function.update s.cache key none })

/-- The signature of the cache and the sidecar. -/
@[reducible] def llmSig (oracle : ℕ → SidecarCall → SidecarReply) : Sig LlmState where
  Op := LlmOp
  Res := LlmOp.Res
  exec := LlmOp.exec oracle

/-! ## Texts of a request -/

/-- The outcome of the protection; `hang` if the texts cannot be cut into chunks. -/
inductive LlmOutcome where
  | pass
  | block (reply : Reply)
  | hang
  deriving DecidableEq

/-- The request is blocked. -/
def LlmOutcome.blocks : LlmOutcome → Bool
  | .block _ => true
  | _ => false

/-- `strings.ReplaceAll(field, "[]", ".#")`. -/
def normField : GoString → GoString
  | [] => []
  | [c] => [c]
  | c :: d :: s =>
    if c = byte '[' ∧ d = byte ']' then byte '.' :: byte '#' :: normField s
    else c :: normField (d :: s)

/-- The texts of one field of the body. -/
def fieldTexts (lib : LlmLib) (body field : GoString) : List GoString :=
  match lib.gjsonGet body (normField field) with
  | none => []
  | some (.array strings) => strings.filter (· ≠ [])
  | some (.value string) => [string].filter (· ≠ [])

/-- Sections 1 to 3 of `applyLLMProtection`: the outcome if no score is needed, or the texts to
score. -/
def inspectedTexts (lib : LlmLib) (policy : LLMProtectionConfig) (requestBodyLimit : ℤ) (r : Request)
    (cached : Option GoString) : Except LlmOutcome (List GoString) := do
  if !policy.enabled then throw .pass
  if !pathMatchesAny policy.inspectPaths r.path then throw .pass
  let limit := if policy.maxBodyBytes ≤ 0 then bodyLimit requestBodyLimit else policy.maxBodyBytes
  match lib.parseMediaType (r.header.get (str "Content-Type")) with
  | none => throw (.block (.text 415 (str "Invalid Content-Type")))
  | some mediaType =>
    let isJSON := lib.toLower mediaType = str "application/json"
    let isText := lib.toLower mediaType = str "text/plain"
    if ¬ isJSON ∧ ¬ isText then throw .pass
    if r.body = .nil then throw .pass
    if hasUnsupportedContentEncoding r then
      throw (.block (.text 415 (str "Compressed LLM request bodies cannot be inspected")))
    match (inspectionBody r cached limit).1 with
    | .error .tooLarge => throw (.block (.text 413 (str "Request body exceeds inspection limit")))
    | .error .readFailed =>
      if policy.failMode = str "closed" then
        throw (.block (.text 403 (str "Security dependency failure")))
      else throw .pass
    | .ok body =>
      if isJSON ∧ lib.jsonValid body = false then
        throw (.block (.text 400 (str "Invalid JSON request body")))
      let texts := if isJSON then policy.inspectJSONFields.flatMap (fieldTexts lib body) else [body]
      if texts = [] then throw .pass
      if policy.mode = str "rules" then throw .pass
      return texts

/-! ## Scoring -/

/-- `llmCacheKey` before hashing. -/
def llmCacheText (sidecarURL tenant path prompt : GoString) : GoString :=
  sidecarURL ++ 0 :: tenant ++ 0 :: path ++ 0 :: prompt

/-- `llmCacheKey`. -/
def llmCacheKey (lib : LlmLib) (sidecarURL tenant path prompt : GoString) : GoString :=
  lib.hash (llmCacheText sidecarURL tenant path prompt)

/-- The chunks of all texts. -/
def chunksOf (policy : LLMProtectionConfig) (texts : List GoString) : Option (List GoString) :=
  (texts.mapM fun text => splitLLMText text policy.maxTextBytes).map List.flatten

/-- Cut a list into pieces of at most `n` elements; `fuel` bounds the number of pieces. -/
def batchesOf {α : Type} (n : ℕ) : ℕ → List α → List (List α)
  | 0, _ => []
  | _, [] => []
  | fuel + 1, l => l.take n :: batchesOf n fuel (l.drop n)

/-- The batch size of `querySidecarBatched`. -/
def batchSize (policy : LLMProtectionConfig) : ℕ :=
  if policy.sidecarMaxBatch ≤ 0 then 32 else policy.sidecarMaxBatch.toNat

theorem batchSize_pos (policy : LLMProtectionConfig) : 0 < batchSize policy := by
  unfold batchSize
  split <;> omega

/-- The batches of `querySidecarBatched`. -/
def sidecarBatches (policy : LLMProtectionConfig) (texts : List GoString) : List (List GoString) :=
  batchesOf (batchSize policy) texts.length texts

section Score

variable {oracle : ℕ → SidecarCall → SidecarReply}

/-- Look up the chunks: the highest cached score, and the chunks to query, once for each key. -/
def lookupLoop (key : GoString → GoString) :
    List GoString → ℚ → List GoString → List GoString → Prog (llmSig oracle) (ℚ × List GoString)
  | [], highestScore, _, textsToQuery => .ret (highestScore, textsToQuery)
  | text :: chunks, highestScore, queued, textsToQuery =>
    .act (.cacheGet (key text)) fun (hit : Option ℚ) =>
      match hit with
      | some score => lookupLoop key chunks (max highestScore score) queued textsToQuery
      | none =>
        if key text ∈ queued then lookupLoop key chunks highestScore queued textsToQuery
        else lookupLoop key chunks highestScore (key text :: queued) (textsToQuery ++ [text])

/-- `querySidecarBatched`: the scores of all batches, or the first error. -/
def querySidecarBatched (call : List GoString → SidecarCall) :
    List (List GoString) → Prog (llmSig oracle) (Except SidecarError (List ℚ))
  | [] => .ret (.ok [])
  | batch :: batches => .act (.query (call batch)) fun (reply : SidecarReply) =>
    match querySidecar batch reply with
    | .error e => .ret (.error e)
    | .ok scores => do
      match ← querySidecarBatched call batches with
      | .error e => return .error e
      | .ok rest => return .ok (scores ++ rest)

/-- Store the new scores and keep track of the highest one. -/
def storeLoop (key : GoString → GoString) : List (GoString × ℚ) → ℚ → Prog (llmSig oracle) ℚ
  | [], highestScore => .ret highestScore
  | (text, score) :: scored, highestScore =>
    .act (.cacheAdd (key text) score) fun _ => storeLoop key scored (max highestScore score)

/-- Section 5: the verdict. -/
def llmVerdict (lib : LlmLib) (policy : LLMProtectionConfig) (highestScore : ℚ) : LlmOutcome :=
  if policy.threshold ≤ highestScore then
    if policy.action = str "audit" then .pass
    else .block (.json 403 (str "Potential prompt injection detected (score: " ++
      lib.formatScore highestScore ++ str ")"))
  else .pass

/-- The outcome when the sidecar fails. -/
def llmFailure (policy : LLMProtectionConfig) : SidecarError → LlmOutcome
  | .rejectedInput =>
    if policy.action = str "audit" then .pass
    else .block (.text 422 (str "LLM request cannot be inspected"))
  | .dependency =>
    if policy.failMode = str "closed" then .block (.text 403 (str "Security dependency failure"))
    else .pass

variable (oracle)

/-- Section 4 on given chunks. -/
def scoreChunks (lib : LlmLib) (policy : LLMProtectionConfig) (tenant path : GoString)
    (chunks : List GoString) : Prog (llmSig oracle) LlmOutcome := do
  let key := llmCacheKey lib policy.sidecarURL tenant path
  let (highestScore, textsToQuery) ← lookupLoop key chunks 0 [] []
  if textsToQuery = [] then return llmVerdict lib policy highestScore
  else
    match ← querySidecarBatched (SidecarCall.mk policy.sidecarURL tenant path)
      (sidecarBatches policy textsToQuery) with
    | .error e => return llmFailure policy e
    | .ok scores =>
      let highestScore ← storeLoop key (textsToQuery.zip scores) highestScore
      return llmVerdict lib policy highestScore

/-- Sections 4 and 5 of `applyLLMProtection`. -/
def scoreTexts (lib : LlmLib) (policy : LLMProtectionConfig) (tenant path : GoString)
    (texts : List GoString) : Prog (llmSig oracle) LlmOutcome :=
  match chunksOf policy texts with
  | none => .ret .hang
  | some chunks => scoreChunks oracle lib policy tenant path chunks

/-- `applyLLMProtection` for the tenant the request was matched with. -/
def applyLLMProtection (lib : LlmLib) (policy : LLMProtectionConfig) (requestBodyLimit : ℤ)
    (tenant : GoString) (r : Request) (cached : Option GoString) : Prog (llmSig oracle) LlmOutcome :=
  match inspectedTexts lib policy requestBodyLimit r cached with
  | .error outcome => .ret outcome
  | .ok texts => scoreTexts oracle lib policy tenant r.path texts

end Score

end SynitWaf
