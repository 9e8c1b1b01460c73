import SynitWaf.Go.Netip
import SynitWaf.Go.Time

/-!
# Requests

The parts of an `http.Request` that the proxy reads, and what `request_info.go` does with them.

* `RequestBody`, `Request`;
* `BodyState.inspectionBody`: a call with its effects on the request; `inspectionBody`: the buffered
  body; `inspectionBody_ok`: it is the whole body of the request, or empty if the limit overflows;
* `pathMatchesAny`, `pathHasPrefix`; `hasUnsupportedContentEncoding`;
* `Reply`: what a stage answers when it rejects a request.
-/

namespace SynitWaf

open Go

/-- A body reader; `fails` tells whether reading past `data` fails instead of ending. -/
structure BodyReader where
  data : GoString
  fails : Bool
  deriving DecidableEq

/-- `r.Body`: nil, `http.NoBody` or a reader. -/
inductive RequestBody where
  | nil
  | noBody
  | reader (b : BodyReader)
  deriving DecidableEq

/-- The bytes of a body. -/
def RequestBody.data : RequestBody → GoString
  | .reader b => b.data
  | _ => []

/-- A request; `query` is the result of `URL.Query`. -/
structure Request where
  method : GoString
  host : GoString
  path : GoString
  query : GoString → List GoString
  header : Header
  remoteAddr : GoString
  tls : Bool
  contentLength : ℤ
  body : RequestBody

/-- `URL.Query().Get`. -/
def Request.queryGet (r : Request) (name : GoString) : GoString := (r.query name).headD []

/-! ## The buffered body -/

/-- The errors of `inspectionBody`. -/
inductive InspectionError where
  | tooLarge
  | readFailed
  deriving DecidableEq

/-- `io.ReadAll(io.LimitReader(body, n))`. -/
def BodyReader.readAll (b : BodyReader) (n : ℕ) : Option GoString :=
  if n ≤ b.data.length then some (b.data.take n)
  else if b.fails then none
  else some b.data

/-- What is left of a reader after `n` bytes. -/
def BodyReader.rest (b : BodyReader) (n : ℕ) : BodyReader := ⟨b.data.drop n, b.fails⟩

/-- The parts of a request that `inspectionBody` changes. `info` is its `requestInfo`, if it has
one, with the buffered body; `replaced` tells whether `r.Body` is a copy, and `reads` counts the
calls that have read from the connection. -/
structure BodyState where
  body : RequestBody
  contentLength : ℤ
  info : Option (Option GoString)
  replaced : Bool
  reads : ℕ
  deriving DecidableEq

namespace BodyState

/-- `n` bytes are read from `r.Body`, which is the reader `b`. -/
def consume (s : BodyState) (b : BodyReader) (n : ℕ) : BodyState :=
  { s with
    body := .reader (b.rest n)
    reads := if s.replaced ∨ n = 0 then s.reads else s.reads + 1 }

/-- The body is replaced by a copy, which is noted in the `requestInfo`. -/
def buffer (s : BodyState) (data : GoString) : BodyState :=
  { s with
    body := .reader ⟨data, false⟩
    info := s.info.map fun _ => some data
    replaced := true }

/-- `inspectionBody`. -/
def inspectionBody (s : BodyState) (limit : ℤ) : Except InspectionError GoString × BodyState :=
  match s.info with
  | some (some body) => (if limit < body.length then .error .tooLarge else .ok body, s)
  | _ =>
    match s.body with
    | .nil => (.ok [], s)
    | .noBody => (.ok [], s)
    | .reader b =>
      if limit < s.contentLength then (.error .tooLarge, s)
      else
        -- `limit+1` wraps around at the largest limit, and nothing is read
        let n := (int64 (limit + 1)).toNat
        match b.readAll n with
        | none => (.error .readFailed, s.consume b n)
        | some data =>
          if limit < data.length then (.error .tooLarge, s.consume b n)
          else (.ok data, (s.consume b n).buffer data)

end BodyState

/-- `inspectionBody` on a request with a `requestInfo`; `cached` is the body an earlier stage has
read. Returns the body and what is cached afterwards. -/
def inspectionBody (r : Request) (cached : Option GoString) (limit : ℤ) :
    Except InspectionError GoString × Option GoString :=
  let call := BodyState.inspectionBody ⟨r.body, r.contentLength, some cached, false, 0⟩ limit
  (call.1, call.2.info.join)

/-- What the stages of a request have cached is its body, or empty. -/
def CachesBody (r : Request) (cached : Option GoString) : Prop :=
  ∀ data, cached = some data → data = r.body.data ∨ data = []

theorem readAll_eq {b : BodyReader} {limit : ℤ} {data : GoString}
    (hd : b.readAll (int64 (limit + 1)).toNat = some data) (hl : ¬ limit < data.length)
    (h64 : limit < 2 ^ 63) : data = b.data ∨ data = [] := by
  unfold BodyReader.readAll at hd
  split at hd
  next hle =>
    have hlen := congrArg List.length (Option.some.inj hd)
    rw [List.length_take] at hlen
    refine .inr (List.length_eq_zero_iff.mp ?_)
    simp only [int64, Int.bmod] at hlen hle
    omega
  next =>
    split at hd
    · cases hd
    · exact .inl (Option.some.inj hd).symm

/-- **The buffered body is the whole body**, or empty, and stays so for the next stage. -/
theorem inspectionBody_ok {r : Request} {cached : Option GoString} {limit : ℤ}
    (hc : CachesBody r cached) (h64 : limit < 2 ^ 63) :
    (∀ data, (inspectionBody r cached limit).1 = .ok data → data = r.body.data ∨ data = []) ∧
      CachesBody r (inspectionBody r cached limit).2 := by
  have hnone : CachesBody r none := by simp [CachesBody]
  cases cached with
  | some body =>
    refine ⟨fun data h => ?_, hc⟩
    simp only [inspectionBody, BodyState.inspectionBody] at h
    split at h
    · cases h
    · rw [← Except.ok.inj h]
      exact hc body rfl
  | none =>
    cases hr : r.body with
    | nil => simp [inspectionBody, BodyState.inspectionBody, hr, hnone]
    | noBody => simp [inspectionBody, BodyState.inspectionBody, hr, hnone]
    | reader b =>
      simp only [inspectionBody, BodyState.inspectionBody, hr]
      split
      · exact ⟨by simp, hnone⟩
      · split
        · exact ⟨by simp, hnone⟩
        next data hd =>
          split
          · exact ⟨by simp, hnone⟩
          next hl =>
            have hdata := readAll_eq hd hl h64
            refine ⟨fun data' h => ?_, fun data' h => ?_⟩
            · rw [← Except.ok.inj h]
              exact hdata
            · rw [← Option.some.inj h, hr]
              exact hdata

/-! ## Paths and encodings -/

/-- `pathHasPrefix`: the prefix ends on a path boundary. -/
def pathHasPrefix (urlPath pre : GoString) : Bool :=
  if !hasPrefix urlPath pre then false
  else if urlPath.length = pre.length ∨ hasSuffix pre (str "/") then true
  else (urlPath.drop pre.length).head? == some (byte '/')

/-- `pathMatchesAny`: the cleaned form of the path is checked as well. -/
def pathMatchesAny (prefixes : List GoString) (urlPath : GoString) : Bool :=
  prefixes.any fun pre => pathHasPrefix urlPath pre || pathHasPrefix (cleanRooted urlPath) pre

/-- `hasUnsupportedContentEncoding`. No letter of `identity` has a case variant outside ASCII. -/
def hasUnsupportedContentEncoding (r : Request) : Bool :=
  let encoding := trimSpace (r.header.get (str "Content-Encoding"))
  encoding ≠ [] && lowerASCII encoding ≠ str "identity"

/-- `defaultRequestBodyCap`. -/
def defaultRequestBodyCap : ℤ := 1048576

/-- The limit in force: a limit that is not positive selects the default. -/
def bodyLimit (limit : ℤ) : ℤ := if limit ≤ 0 then defaultRequestBodyCap else limit

/-- The answer to a rejected request: `http.Error`, possibly with the header `WWW-Authenticate`, a
message in JSON, a redirect, or a body of the given type. -/
inductive Reply where
  | text (status : ℕ) (message : GoString)
  | challenge (status : ℕ) (authenticate message : GoString)
  | json (status : ℕ) (message : GoString)
  | redirect (status : ℕ) (url : GoString)
  | raw (status : ℕ) (contentType body : GoString)
  deriving DecidableEq

end SynitWaf
