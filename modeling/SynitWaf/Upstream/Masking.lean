import SynitWaf.Config.Types
import SynitWaf.ContentEncoding
import SynitWaf.Go.Errors
import SynitWaf.Go.Headers

/-!
# Masking a response

`applyResponseMasking` buffers the body of a response and replaces what the rules match. A response
that it cannot inspect is an error, and a body that needs no inspection stays as it is.

* `UpstreamResponse`, `Regexp`, `MaskingRule`, `MaskingLib`;
* `isMaskableMediaType`, `maskRule`, `applyResponseMasking`;
* `maskAll`: all rules in their order; `maskLoop_eq`: the loop is that, although it skips the rules
  that do not match;
* `Inspected`: the body is buffered; `applyResponseMasking_of_inspected`,
  `applyResponseMasking_of_not_inspected`;
* `MaskedRight`: what a response that is delivered has to satisfy; `MaskingSafe`;
* **`applyResponseMasking_right_iff`**: it does exactly if the limit can be incremented, or the body
  is empty, and no coding is listed behind the first line; `masking_leaks`: where it does not.
-/

namespace SynitWaf

open Go

/-! ## Responses and rules -/

/-- A response: its body, if it has one, and the method of its request, if that is known. -/
structure UpstreamResponse where
  statusCode : ℤ
  header : Header
  contentLength : ℤ
  body : Option BodyReader
  method : Option GoString

/-- The bytes of the body. -/
def UpstreamResponse.data (resp : UpstreamResponse) : GoString :=
  match resp.body with
  | some b => b.data
  | none => []

/-- A compiled regular expression, as functions on bytes. -/
structure Regexp where
  isMatch : GoString → Bool
  replaceAll : GoString → GoString → GoString
  replaceAll_of_not_match : ∀ s repl, isMatch s = false → replaceAll s repl = s

/-- A rule, with the expression it was compiled to, if it was. -/
structure MaskingRule extends ResponseMaskingRule where
  compiledPattern : Option Regexp

/-- The functions of other packages; `parseMediaType` returns the media type and the error, if any, and
`readError` is the error of a body that cannot be read. Content without a byte is plain text. -/
structure MaskingLib where
  parseMediaType : GoString → GoString × Option GoString
  toLower : GoString → GoString
  detectContentType : GoString → GoString
  compile : GoString → Result Regexp
  quote : GoString → GoString
  readError : GoString
  detect_nil : (parseMediaType (detectContentType [])).1 = str "text/plain"

/-- `isMaskableMediaType`. -/
def isMaskableMediaType (mediaType : GoString) : Bool :=
  hasPrefix mediaType (str "text/") ||
    mediaType = str "application/json" || hasSuffix mediaType (str "+json") ||
    mediaType = str "application/xml" || hasSuffix mediaType (str "+xml")

/-- An error that wraps `errResponseInspection`. -/
def inspectionFailed (reason : GoString) : GoString :=
  str "response masking inspection failed: " ++ reason

/-- `errResponseInspectionOversize`. -/
def inspectionOversize : GoString :=
  inspectionFailed (str "response exceeds masking inspection limit")

section Masking

variable (lib : MaskingLib)

/-- The expression of a rule. -/
def MaskingRule.regexp (rule : MaskingRule) : Result Regexp :=
  match rule.compiledPattern with
  | some pattern => .ok pattern
  | none =>
    wrapError (str "compile masking pattern " ++ lib.quote rule.pattern ++ str ": ")
      (lib.compile rule.pattern)

/-- One round of the loop over the rules. -/
def maskRule (masked : GoString) (rule : MaskingRule) : Result GoString := do
  let pattern ← rule.regexp lib
  return if pattern.isMatch masked then pattern.replaceAll masked rule.replacement else masked

/-- The type that is detected in a body. -/
def sniffedType (body : GoString) : GoString := (lib.parseMediaType (lib.detectContentType body)).1

/-- A response with a new body. -/
def UpstreamResponse.withBody (resp : UpstreamResponse) (body : GoString) : UpstreamResponse :=
  { resp with body := some ⟨body, false⟩ }

/-- The response with the masked body; its length is changed only together with it. -/
def UpstreamResponse.withMasked (resp : UpstreamResponse) (body masked : GoString) :
    UpstreamResponse :=
  if masked ≠ body then
    { resp with
      contentLength := masked.length
      header := (resp.header.set (str "Content-Length") (itoa masked.length)).set
        (str "X-Synit-Masked") (str "true")
      body := some ⟨masked, false⟩ }
  else resp.withBody masked

/-- The part of `applyResponseMasking` behind the reading of the body. -/
def maskBody (sniff : Bool) (resp : UpstreamResponse) (rules : List MaskingRule) (body : GoString) :
    Result UpstreamResponse :=
  if sniff && !isMaskableMediaType (sniffedType lib body) then .ok (resp.withBody body)
  else do
    let masked ← rules.foldlM (maskRule lib) body
    return resp.withMasked body masked

/-- The part of `applyResponseMasking` that reads the body. -/
def bufferAndMask (responseMaskingLimit : ℤ) (sniff : Bool) (resp : UpstreamResponse) (b : BodyReader)
    (rules : List MaskingRule) : Result UpstreamResponse :=
  let limit := bodyLimit responseMaskingLimit
  if resp.contentLength > limit then .error inspectionOversize
  else
    match b.readAll (int64 (limit + 1)).toNat with
    | none => .error (str "read response body for masking: " ++ lib.readError)
    | some body =>
      if (body.length : ℤ) > limit then .error inspectionOversize
      else maskBody lib sniff resp rules body

/-- The response has no body, by its length, its status or the method of its request. -/
def UpstreamResponse.bodiless (resp : UpstreamResponse) : Bool :=
  resp.body.isNone || resp.contentLength = 0 || resp.statusCode = 204 || resp.statusCode = 304 ||
    (100 ≤ resp.statusCode && resp.statusCode < 200) || resp.method = some (str "HEAD")

/-- `applyResponseMasking`: the response that is delivered, or an error. -/
def applyResponseMasking (responseMaskingLimit : ℤ) (resp : UpstreamResponse)
    (rules : List MaskingRule) : Result UpstreamResponse :=
  match resp.body with
  | none => .ok resp
  | some b =>
    if resp.bodiless then .ok resp
    else if resp.statusCode = 206 then
      .error (inspectionFailed (str "partial responses are not supported"))
    else
      let parsed := lib.parseMediaType (resp.header.get (str "Content-Type"))
      let sniff := parsed.2.isSome
      let mediaType := lib.toLower parsed.1
      let encoding := trimSpace (resp.header.get (str "Content-Encoding"))
      if !sniff && !isMaskableMediaType mediaType then .ok resp
      else if !sniff && mediaType = str "text/event-stream" then
        .error (inspectionFailed (str "event streams are not supported"))
      else if encoding ≠ [] && lowerASCII encoding ≠ str "identity" then
        .error (inspectionFailed
          (str "Content-Encoding " ++ lib.quote encoding ++ str " is not supported"))
      else bufferAndMask lib responseMaskingLimit sniff resp b rules

end Masking

/-! ## What is delivered -/

section Right

variable (lib : MaskingLib) (limit : ℤ) (resp : UpstreamResponse)

/-- All rules in their order, each applied to what the one before it has left. -/
def maskAll (rules : List MaskingRule) (body : GoString) : Result GoString :=
  rules.foldlM (fun s rule => do
    let pattern ← rule.regexp lib
    return pattern.replaceAll s rule.replacement) body

/-- The type that the response declares, if it can be parsed. -/
def declaredType : Option GoString :=
  let parsed := lib.parseMediaType (resp.header.get (str "Content-Type"))
  if parsed.2.isSome then none else some (lib.toLower parsed.1)

/-- The declared type, or else the type detected in the whole body, is one that is masked. -/
def Maskable : Prop :=
  isMaskableMediaType ((declaredType lib resp).getD (sniffedType lib resp.data)) = true

/-- The body of the response is buffered. -/
structure Inspected : Prop where
  bodied : resp.bodiless = false
  whole : resp.statusCode ≠ 206
  declared : ∀ mediaType ∈ declaredType lib resp,
    isMaskableMediaType mediaType = true ∧ mediaType ≠ str "text/event-stream"
  plain : rejectsEncoding (resp.header (str "Content-Encoding")) = false
  fits : resp.contentLength ≤ limit

/-- What `applyResponseMasking` has to deliver: the same bytes, if they need no masking, or else the
whole body with all rules applied; with the length of what is delivered; and no body that needs
masking but cannot be inspected. -/
structure MaskedRight (rules : List MaskingRule) (resp' : UpstreamResponse) : Prop where
  body : resp'.data = resp.data ∧ (resp.bodiless = true ∨ ¬ Maskable lib resp) ∨
    (∀ b ∈ resp.body, b.fails = false) ∧ maskAll lib rules resp.data = .ok resp'.data
  framed : resp'.contentLength = -1 ∨ resp'.contentLength = resp'.data.length
  header : resp'.data ≠ resp.data →
    resp'.header (str "Content-Length") = [itoa resp'.contentLength]
  inspected : resp.bodiless = false → Maskable lib resp →
    resp.data.length ≤ limit ∧ resp.statusCode ≠ 206 ∧
      ¬ Encoded (resp.header (str "Content-Encoding")) ∧
      declaredType lib resp ≠ some (str "text/event-stream")

/-- A body that is buffered is empty if the limit is the largest one; and if it can be read within the
limit and is one that is masked, no coding is listed, on any line. -/
def MaskingSafe : Prop :=
  Inspected lib limit resp → ∀ b ∈ resp.body,
    (limit = 2 ^ 63 - 1 → b = ⟨[], false⟩) ∧
      (b.fails = false → b.data.length ≤ limit → Maskable lib resp →
        ¬ Encoded (resp.header (str "Content-Encoding")))

end Right

/-! ## The loop over the rules -/

section Cases

variable {lib : MaskingLib} {limit : ℤ} {resp resp' : UpstreamResponse} {b : BodyReader}
  {rules : List MaskingRule}

/-- Skipping the rules that do not match makes no difference. -/
theorem maskLoop_eq (lib : MaskingLib) (rules : List MaskingRule) (body : GoString) :
    rules.foldlM (maskRule lib) body = maskAll lib rules body := by
  have hrule : maskRule lib = fun s rule => do
      let pattern ← rule.regexp lib
      return pattern.replaceAll s rule.replacement := by
    funext s rule
    unfold maskRule
    congr 1
    funext pattern
    cases hmatch : pattern.isMatch s with
    | true => rfl
    | false => rw [pattern.replaceAll_of_not_match s _ hmatch]; rfl
  rw [maskAll, hrule]

/-! ## The exits -/

theorem exists_body (h : resp.bodiless = false) : ∃ b, resp.body = some b := by
  cases hbody : resp.body with
  | none => simp [UpstreamResponse.bodiless, hbody] at h
  | some b => exact ⟨b, rfl⟩

theorem data_eq (hb : resp.body = some b) : resp.data = b.data := by
  rw [UpstreamResponse.data, hb]

/-- The choice that the types and the coding make. -/
theorem applyResponseMasking_eq (lib : MaskingLib) (limit : ℤ) (rules : List MaskingRule)
    (hb : resp.body = some b) :
    applyResponseMasking lib limit resp rules =
      if resp.bodiless then .ok resp
      else if resp.statusCode = 206 then
        .error (inspectionFailed (str "partial responses are not supported"))
      else if (declaredType lib resp).any (!isMaskableMediaType ·) then .ok resp
      else if declaredType lib resp = some (str "text/event-stream") then
        .error (inspectionFailed (str "event streams are not supported"))
      else if rejectsEncoding (resp.header (str "Content-Encoding")) then
        .error (inspectionFailed (str "Content-Encoding " ++
          lib.quote (trimSpace (resp.header.get (str "Content-Encoding"))) ++
          str " is not supported"))
      else bufferAndMask lib limit (declaredType lib resp).isNone resp b rules := by
  have hencoding : rejectsEncoding (resp.header (str "Content-Encoding")) =
      (decide (trimSpace (resp.header.get (str "Content-Encoding")) ≠ []) &&
        decide (lowerASCII (trimSpace (resp.header.get (str "Content-Encoding"))) ≠
          str "identity")) := rfl
  unfold applyResponseMasking declaredType
  rw [hb, hencoding]
  generalize lib.parseMediaType (resp.header.get (str "Content-Type")) = parsed
  obtain ⟨mediaType, err⟩ := parsed
  cases err <;> simp

/-- A response that is inspected is buffered. -/
theorem applyResponseMasking_of_inspected (hlimit : 0 < limit) (h : Inspected lib limit resp)
    (hb : resp.body = some b) :
    applyResponseMasking lib limit resp rules =
      match b.readAll (int64 (limit + 1)).toNat with
      | none => .error (str "read response body for masking: " ++ lib.readError)
      | some body =>
        if (body.length : ℤ) > limit then .error inspectionOversize
        else maskBody lib (declaredType lib resp).isNone resp rules body := by
  have hany : (declaredType lib resp).any (!isMaskableMediaType ·) = false := by
    rw [Option.any_eq_false]
    intro mediaType hdecl
    rw [(h.declared mediaType hdecl).1]
    rfl
  have hstream : declaredType lib resp ≠ some (str "text/event-stream") :=
    fun hdecl => (h.declared _ hdecl).2 rfl
  have hplimit : bodyLimit limit = limit := if_neg (by omega)
  rw [applyResponseMasking_eq lib limit rules hb, if_neg (by simp [h.bodied]), if_neg h.whole,
    if_neg (by simp [hany]), if_neg hstream, if_neg (by simp [h.plain]), bufferAndMask, hplimit]
  exact if_neg (not_lt.mpr h.fits)

/-- A response that is not inspected is an error, or stays as it is. -/
theorem applyResponseMasking_of_not_inspected (hlimit : 0 < limit) (h : ¬ Inspected lib limit resp)
    (hok : applyResponseMasking lib limit resp rules = .ok resp') :
    resp' = resp ∧ (resp.bodiless = true ∨ ¬ Maskable lib resp) := by
  cases hbodiless : resp.bodiless with
  | true =>
    refine ⟨?_, .inl rfl⟩
    unfold applyResponseMasking at hok
    split at hok
    · cases hok
      rfl
    · rw [if_pos hbodiless] at hok
      cases hok
      rfl
  | false =>
    obtain ⟨b, hb⟩ := exists_body hbodiless
    rw [applyResponseMasking_eq lib limit rules hb, if_neg (by simp [hbodiless])] at hok
    split at hok
    next => cases hok
    next hwhole =>
    split at hok
    next hany =>
      cases hok
      refine ⟨rfl, .inr fun hmask => ?_⟩
      rw [Maskable] at hmask
      cases hdecl : declaredType lib resp with
      | none => simp [hdecl] at hany
      | some mediaType => simp_all
    next hany =>
    split at hok
    next => cases hok
    next hstream =>
    split at hok
    next => cases hok
    next hplain =>
    rw [bufferAndMask, bodyLimit, if_neg (not_le.mpr hlimit)] at hok
    have hfits : ¬ resp.contentLength > limit := by
      intro hlong
      rw [if_pos hlong] at hok
      cases hok
    have hdeclared : ∀ mediaType ∈ declaredType lib resp,
        isMaskableMediaType mediaType = true ∧ mediaType ≠ str "text/event-stream" := by
      intro mediaType hdecl
      rw [Option.mem_def.mp hdecl] at hany hstream
      exact ⟨by simpa using hany, fun heq => hstream (congrArg some heq)⟩
    exact absurd ⟨hbodiless, hwhole, hdeclared, eq_false_of_ne_true hplain, not_lt.mp hfits⟩ h

/-! ## The body -/

/-- Behind the reading of the body. -/
theorem maskBody_eq_ok {sniff : Bool} {body : GoString}
    (h : maskBody lib sniff resp rules body = .ok resp') :
    (sniff = true ∧ isMaskableMediaType (sniffedType lib body) = false ∧
        resp' = resp.withBody body) ∨
      (¬ (sniff = true ∧ isMaskableMediaType (sniffedType lib body) = false) ∧
        ∃ masked, maskAll lib rules body = .ok masked ∧ resp' = resp.withMasked body masked) := by
  unfold maskBody at h
  split at h
  next hsniff =>
    cases h
    simp only [Bool.and_eq_true, Bool.not_eq_true'] at hsniff
    exact .inl ⟨hsniff.1, hsniff.2, rfl⟩
  next hsniff =>
    obtain ⟨masked, hmasked, h⟩ := result_bind_eq_ok.mp h
    cases h
    rw [maskLoop_eq] at hmasked
    exact .inr ⟨by simpa using hsniff, masked, hmasked, rfl⟩

theorem withMasked_data (resp : UpstreamResponse) (body masked : GoString) :
    (resp.withMasked body masked).data = masked := by
  unfold UpstreamResponse.withMasked
  split <;> rfl

/-- The lengths of the masked response. -/
theorem withMasked_framed {body : GoString} (masked : GoString)
    (hlen : resp.contentLength = -1 ∨ resp.contentLength = body.length) :
    let resp' := resp.withMasked body masked
    (resp'.contentLength = -1 ∨ resp'.contentLength = resp'.data.length) ∧
      (resp'.data ≠ body → resp'.header (str "Content-Length") = [itoa resp'.contentLength]) := by
  intro resp'
  rw [show resp'.data = masked from withMasked_data resp body masked]
  unfold resp' UpstreamResponse.withMasked
  split
  next hne =>
    obtain ⟨hother, hkey⟩ :
        canonicalMIMEHeaderKey (str "X-Synit-Masked") ≠ str "Content-Length" ∧
        canonicalMIMEHeaderKey (str "Content-Length") = str "Content-Length" := by decide +kernel
    have hset : ((resp.header.set (str "Content-Length") (itoa masked.length)).set
        (str "X-Synit-Masked") (str "true")) (str "Content-Length") = [itoa masked.length] := by
      rw [Header.set_of_ne hother]
      nth_rewrite 2 [← hkey]
      exact Header.set_self ..
    exact ⟨.inr rfl, fun _ => hset⟩
  next heq =>
    rw [not_not] at heq
    exact ⟨heq ▸ hlen, fun hne => absurd heq hne⟩

/-- The types that are masked, once the declared one has passed. -/
theorem maskable_iff (h : Inspected lib limit resp) :
    Maskable lib resp ↔ ¬ ((declaredType lib resp).isNone = true ∧
      isMaskableMediaType (sniffedType lib resp.data) = false) := by
  unfold Maskable
  cases hdecl : declaredType lib resp with
  | none => simp
  | some mediaType => simpa using (h.declared mediaType hdecl).1

/-- What is read within the limit is the whole body, unless the limit overflows. -/
theorem readAll_within {data : GoString} (hlimit : 0 < limit)
    (hmax : limit < 2 ^ 63 - 1 ∨ b = ⟨[], false⟩)
    (hread : b.readAll (int64 (limit + 1)).toNat = some data) (hfit : (data.length : ℤ) ≤ limit) :
    data = b.data ∧ b.fails = false := by
  obtain hmax | rfl := hmax
  · rw [int64_eq (by omega) (by omega)] at hread
    unfold BodyReader.readAll at hread
    split at hread
    next hle =>
      cases hread
      rw [List.length_take] at hfit
      omega
    next =>
      split at hread
      next => cases hread
      next hfails =>
        cases hread
        exact ⟨rfl, eq_false_of_ne_true hfails⟩
  · unfold BodyReader.readAll at hread
    simp only [List.length_nil, List.take_nil, Bool.false_eq_true, if_false, ite_self,
      Option.some.injEq] at hread
    exact ⟨hread.symm, rfl⟩

/-- An inspected response is read, and masked. -/
theorem inspected_eq_ok (hlimit : 0 < limit) (h : Inspected lib limit resp) (hb : resp.body = some b)
    (hok : applyResponseMasking lib limit resp rules = .ok resp') :
    ∃ body, b.readAll (int64 (limit + 1)).toNat = some body ∧ (body.length : ℤ) ≤ limit ∧
      maskBody lib (declaredType lib resp).isNone resp rules body = .ok resp' := by
  rw [applyResponseMasking_of_inspected hlimit h hb] at hok
  split at hok
  next => cases hok
  next body hread =>
    split at hok
    next => cases hok
    next hfit => exact ⟨body, hread, not_lt.mp hfit, hok⟩

/-- An inspected response is right if it is safe. -/
theorem maskedRight_of_inspected (hlimit : 0 < limit ∧ limit < 2 ^ 63)
    (hlen : resp.contentLength = -1 ∨ resp.contentLength = resp.data.length)
    (hsafe : MaskingSafe lib limit resp) (h : Inspected lib limit resp)
    (hok : applyResponseMasking lib limit resp rules = .ok resp') :
    MaskedRight lib limit resp rules resp' := by
  obtain ⟨b, hb⟩ := exists_body h.bodied
  obtain ⟨hempty, hcoding⟩ := hsafe h b hb
  obtain ⟨body, hread, hfit, hok⟩ := inspected_eq_ok hlimit.1 h hb hok
  have hmax : limit < 2 ^ 63 - 1 ∨ b = ⟨[], false⟩ := by
    obtain heq | hlt : limit = 2 ^ 63 - 1 ∨ limit < 2 ^ 63 - 1 := by omega
    · exact .inr (hempty heq)
    · exact .inl hlt
  obtain ⟨rfl, hfails⟩ := readAll_within hlimit.1 hmax hread hfit
  rw [← data_eq hb] at hok hfit hcoding
  have hstream : declaredType lib resp ≠ some (str "text/event-stream") :=
    fun hdecl => (h.declared _ hdecl).2 rfl
  have hinspected (_ : resp.bodiless = false) (hmask : Maskable lib resp) :
      resp.data.length ≤ limit ∧ resp.statusCode ≠ 206 ∧
        ¬ Encoded (resp.header (str "Content-Encoding")) ∧
        declaredType lib resp ≠ some (str "text/event-stream") :=
    ⟨hfit, h.whole, hcoding hfails hfit hmask, hstream⟩
  obtain ⟨hsniff, htype, rfl⟩ | ⟨-, masked, hmasked, rfl⟩ := maskBody_eq_ok hok
  · have hmask : ¬ Maskable lib resp := fun hmask => (maskable_iff h).mp hmask ⟨hsniff, htype⟩
    exact ⟨.inl ⟨rfl, .inr hmask⟩, hlen, fun hne => absurd rfl hne, hinspected⟩
  · obtain ⟨hframed, hheader⟩ := withMasked_framed masked hlen
    have hread : ∀ b ∈ resp.body, b.fails = false := by
      intro b' hb'
      cases hb.symm.trans hb'
      exact hfails
    refine ⟨.inr ⟨hread, ?_⟩, hframed, hheader, hinspected⟩
    rw [withMasked_data, hmasked]

theorem maskBody_nil (sniff : Bool) (body : GoString) :
    maskBody lib sniff resp [] body = .ok (resp.withBody body) := by
  unfold maskBody
  split
  · rfl
  · exact congrArg Except.ok (if_neg (not_not.mpr rfl))

/-- At the largest limit nothing is read. -/
theorem applyResponseMasking_largest (h : Inspected lib (2 ^ 63 - 1) resp) :
    applyResponseMasking lib (2 ^ 63 - 1) resp [] = .ok (resp.withBody []) := by
  obtain ⟨b, hb⟩ := exists_body h.bodied
  have hread : b.readAll (int64 (2 ^ 63 - 1 + 1)).toNat = some [] := by
    have hzero : (int64 (2 ^ 63 - 1 + 1)).toNat = 0 := by decide
    rw [hzero]
    simp [BodyReader.readAll]
  rw [applyResponseMasking_of_inspected (by decide) h hb, hread]
  simp only [List.length_nil, Nat.cast_zero]
  rw [if_neg (by decide), maskBody_nil]

/-- A body that can be read within the limit is delivered, if there are no rules. -/
theorem exists_delivered (hlimit : 0 < limit ∧ limit < 2 ^ 63) (h : Inspected lib limit resp)
    (hb : resp.body = some b) (hfails : b.fails = false) (hfit : b.data.length ≤ limit) :
    ∃ resp', applyResponseMasking lib limit resp [] = .ok resp' := by
  obtain rfl | hmax : limit = 2 ^ 63 - 1 ∨ limit < 2 ^ 63 - 1 := by omega
  · exact ⟨_, applyResponseMasking_largest h⟩
  · have hread : b.readAll (int64 (limit + 1)).toNat = some b.data := by
      rw [int64_eq (by omega) (by omega), BodyReader.readAll, if_neg (by omega), hfails]
      rfl
    rw [applyResponseMasking_of_inspected hlimit.1 h hb, hread]
    refine ⟨resp.withBody b.data, ?_⟩
    dsimp only
    rw [if_neg (not_lt.mpr hfit), maskBody_nil]

/-- An inspected response that is right for every list of rules is safe. -/
theorem maskingSafe_of_right (hlimit : 0 < limit ∧ limit < 2 ^ 63)
    (hright : ∀ rules resp', applyResponseMasking lib limit resp rules = .ok resp' →
      MaskedRight lib limit resp rules resp') : MaskingSafe lib limit resp := by
  intro h b hb
  constructor
  · rintro rfl
    have hok := hright [] _ (applyResponseMasking_largest h)
    obtain ⟨hsame, hbodiless | hmask⟩ | ⟨hfails, hmasked⟩ := hok.body
    · rw [h.bodied] at hbodiless
      cases hbodiless
    · -- without a byte the detected type is one that is masked
      refine absurd ((maskable_iff h).mpr fun hsniff => ?_) hmask
      have htext := hsniff.2
      rw [← hsame] at htext
      rw [show (resp.withBody []).data = [] from rfl, sniffedType, lib.detect_nil] at htext
      exact absurd htext (by decide)
    · have hnil : resp.data = [] := Except.ok.inj hmasked
      rw [data_eq hb] at hnil
      cases b
      simp_all
  · intro hfails hfit hmask
    obtain ⟨resp', hok⟩ := exists_delivered hlimit h hb hfails hfit
    exact ((hright [] resp' hok).inspected h.bodied hmask).2.2.1

end Cases

/-- **Masking.** For a response whose length is unknown or right, and every positive limit: whatever
the rules are, a response that is delivered is right, if and only if it is safe. -/
theorem applyResponseMasking_right_iff {lib : MaskingLib} {limit : ℤ} {resp : UpstreamResponse}
    (hlimit : 0 < limit ∧ limit < 2 ^ 63)
    (hlen : resp.contentLength = -1 ∨ resp.contentLength = resp.data.length) :
    (∀ rules resp', applyResponseMasking lib limit resp rules = .ok resp' →
      MaskedRight lib limit resp rules resp') ↔ MaskingSafe lib limit resp := by
  refine ⟨maskingSafe_of_right hlimit, fun hsafe rules resp' hok => ?_⟩
  by_cases h : Inspected lib limit resp
  · exact maskedRight_of_inspected hlimit hlen hsafe h hok
  · obtain ⟨rfl, hsame⟩ := applyResponseMasking_of_not_inspected hlimit.1 h hok
    refine ⟨.inl ⟨rfl, hsame⟩, hlen, fun hne => absurd rfl hne, fun hbodied hmask => ?_⟩
    obtain hbodiless | hnot := hsame
    · rw [hbodied] at hbodiless
      cases hbodiless
    · exact absurd hmask hnot

/-! ## Two responses -/

/-- An expression that matches one text as a whole. -/
def wholeText (text : GoString) : Regexp where
  isMatch s := s = text
  replaceAll s repl := if s = text then repl else s
  replaceAll_of_not_match _ _ h := if_neg (of_decide_eq_false h)

/-- A library that takes everything for plain text. -/
def plainTextLib : MaskingLib where
  parseMediaType _ := (str "text/plain", none)
  toLower := id
  detectContentType _ := str "text/plain; charset=utf-8"
  compile text := .ok (wholeText text)
  quote := id
  readError := str "unexpected EOF"
  detect_nil := rfl

/-- A response with a secret, and the given lines of `Content-Encoding`. -/
def secretResponse (encodings : List GoString) : UpstreamResponse where
  statusCode := 200
  header name := if name = str "Content-Encoding" then encodings else []
  contentLength := 6
  body := some ⟨str "secret", false⟩
  method := some (str "GET")

/-- A rule that removes it. -/
def secretRule : MaskingRule := ⟨⟨str "secret", str "***"⟩, none⟩

theorem applyResponseMasking_right_iff_secret :
    (applyResponseMasking plainTextLib 1048576 (secretResponse []) [secretRule]).isOk = true ∧
      ∀ rules resp', applyResponseMasking plainTextLib 1048576 (secretResponse []) rules = .ok resp' →
        MaskedRight plainTextLib 1048576 (secretResponse []) rules resp' := by
  have hcodings : ¬ Encoded ((secretResponse []).header (str "Content-Encoding")) := by decide
  refine ⟨rfl, (applyResponseMasking_right_iff (by decide) (.inr rfl)).mpr fun _ b _ => ?_⟩
  exact ⟨fun h => absurd h (by decide), fun _ _ _ => hcodings⟩

/-- **What is delivered wrong.** At the largest limit the body is dropped while its length stays; and
an encoded body passes behind a first line that names no coding. -/
theorem masking_leaks :
    applyResponseMasking plainTextLib (2 ^ 63 - 1) (secretResponse []) [secretRule] =
        .ok ((secretResponse []).withBody []) ∧
      maskAll plainTextLib [secretRule] (secretResponse []).data = .ok (str "***") ∧
      (secretResponse []).contentLength = 6 ∧
      Encoded ((secretResponse [str "identity", str "gzip"]).header (str "Content-Encoding")) ∧
      (applyResponseMasking plainTextLib 1048576 (secretResponse [str "identity", str "gzip"])
        [secretRule]).isOk = true := by
  refine ⟨?_, rfl, rfl, by decide, rfl⟩
  rfl

end SynitWaf
