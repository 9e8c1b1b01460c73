import SynitWaf.GraphQL.Check
import SynitWaf.Request

/-!
# GraphQL protection of a request

A request can carry GraphQL documents in its `query` parameters and in its body.
`applyGraphQLProtection` inspects the first `query` parameter of a GET and the body of a POST.

* `GraphQLLib`: the parsers the proxy calls; `Json`;
* `applyGraphQLProtection`;
* `carriedDocuments`: every document a backend may execute; `uninspectedDocuments`: the parameters
  the proxy does not read;
* `bodyDocuments_accepted`: a request let pass has only accepted documents in its body;
* **`carried_accepted_iff`**: all documents of a request let pass are accepted exactly if the
  uninspected ones are;
* `repeated_query_passes`: a second `query` parameter is not inspected.
-/

namespace SynitWaf

open Go

/-- A decoded JSON value, as `json.Unmarshal` stores it in an `any`. -/
inductive Json where
  | null
  | bool (b : Bool)
  | number (n : ℚ)
  | string (s : GoString)
  | array (items : List Json)
  | object (fields : List (GoString × Json))

/-- The functions of other packages that the protection calls. -/
structure GraphQLLib where
  parse : GoString → Option (List Definition)
  parseMediaType : GoString → Option GoString
  unmarshal : GoString → Option Json
  unmarshal_nil : unmarshal [] = none

/-- `v["query"].(string)`. -/
def queryOf (fields : List (GoString × Json)) : Option GoString :=
  match fields.lookup (str "query") with
  | some (.string q) => some q
  | _ => none

/-- The query of a batch item. -/
def batchQuery (item : Json) : Except Reply GoString :=
  match item with
  | .object fields =>
    match queryOf fields with
    | some q =>
      if q = [] then .error (.text 400 (str "Every GraphQL batch item must contain a query"))
      else .ok q
    | none => .error (.text 400 (str "Every GraphQL batch item must contain a query"))
  | _ => .error (.text 400 (str "Every GraphQL batch item must be an object with a query"))

/-- The queries of a JSON payload. -/
def payloadQueries (policy : GraphQLProtection) (payload : Json) : Except Reply (List GoString) :=
  match payload with
  | .object fields =>
    match queryOf fields with
    | some q =>
      if trimSpace q = [] then .error (.text 400 (str "GraphQL query is required")) else .ok [q]
    | none => .error (.text 400 (str "GraphQL query is required"))
  | .array items =>
    if 0 < policy.maxBatchedQueries ∧ policy.maxBatchedQueries < items.length then
      .error (.json 403 (str "GraphQL batch size exceeds maximum allowed limit of " ++
        itoa policy.maxBatchedQueries))
    else items.mapM batchQuery
  | _ => .ok []

section Protect

variable (lib : GraphQLLib) (policy : GraphQLProtection) (r : Request)

/-- `checkGraphQLRequest`, with the answer to a rejected query. -/
def rejectQuery (query : GoString) : Option Reply :=
  match checkGraphQLRequest lib.parse query policy with
  | .ok _ => none
  | .error e => some (.json 403 e)

/-- The part of `applyGraphQLProtection` after the body has been read. -/
def checkBody (body : GoString) : Option Reply :=
  match lib.parseMediaType (r.header.get (str "Content-Type")) with
  | none => some (.text 415 (str "Invalid Content-Type"))
  | some mediaType =>
    if mediaType = str "application/graphql" then rejectQuery lib policy body
    else if mediaType ≠ str "application/json" then
      some (.text 415 (str "GraphQL Content-Type is not supported"))
    else
      match lib.unmarshal body with
      | none => some (.text 400 (str "Invalid GraphQL JSON body"))
      | some payload =>
        match payloadQueries policy payload with
        | .error reply => some reply
        | .ok [] => some (.text 400 (str "GraphQL query is required"))
        | .ok queries => queries.findSome? (rejectQuery lib policy)

/-- The paths the policy protects. -/
def graphQLPaths : List GoString := if policy.paths = [] then [str "/graphql"] else policy.paths

/-- `applyGraphQLProtection`: the answer if the request is blocked, and the cached body. -/
def applyGraphQLProtection (requestBodyLimit : ℤ) (cached : Option GoString) :
    Option Reply × Option GoString :=
  if !policy.enabled then (none, cached)
  else if !pathMatchesAny (graphQLPaths policy) r.path then (none, cached)
  else if r.method = str "GET" then
    if r.queryGet (str "query") = [] then
      (some (.text 400 (str "GraphQL query parameter is required")), cached)
    else (rejectQuery lib policy (r.queryGet (str "query")), cached)
  else if r.method ≠ str "POST" then
    (some (.text 405 (str "GraphQL transport method is not supported")), cached)
  else if r.body = .nil then (none, cached)
  else if hasUnsupportedContentEncoding r then
    (some (.text 415 (str "Compressed GraphQL request bodies cannot be inspected")), cached)
  else
    match inspectionBody r cached (bodyLimit requestBodyLimit) with
    | (.error .tooLarge, cached) =>
      (some (.text 413 (str "Request body exceeds inspection limit")), cached)
    | (.error .readFailed, cached) =>
      (some (.json 403 (str "Internal Server Error reading body")), cached)
    | (.ok body, cached) => (checkBody lib policy r body, cached)

/-! ## The documents of a request -/

/-- The query of a batch item, if it has one. -/
def itemQuery (item : Json) : Option GoString :=
  match item with
  | .object fields => queryOf fields
  | _ => none

/-- The documents of a JSON payload: its query, or those of the items of a batch. -/
def documentsOf : Json → List GoString
  | .object fields => (queryOf fields).toList
  | .array items => items.filterMap itemQuery
  | _ => []

/-- The documents in the body of a POST. -/
def bodyDocuments : List GoString :=
  if r.body = .nil then []
  else
    match lib.parseMediaType (r.header.get (str "Content-Type")) with
    | none => []
    | some mediaType =>
      if mediaType = str "application/graphql" then [r.body.data]
      else if mediaType = str "application/json" then
        ((lib.unmarshal r.body.data).map documentsOf).getD []
      else []

/-- Every document the request carries: all `query` parameters and, for a POST, its body. -/
def carriedDocuments : List GoString :=
  r.query (str "query") ++ if r.method = str "POST" then bodyDocuments lib r else []

/-- The `query` parameters the proxy does not read: all but the first of a GET, all of a POST. -/
def uninspectedDocuments : List GoString :=
  if r.method = str "GET" then (r.query (str "query")).tail else r.query (str "query")

/-- The policy accepts the document. -/
def Accepted (query : GoString) : Prop := checkGraphQLRequest lib.parse query policy = .ok ()

end Protect

section Proofs

variable {lib : GraphQLLib} {policy : GraphQLProtection} {r : Request}

theorem rejectQuery_eq_none {query : GoString} :
    rejectQuery lib policy query = none ↔ Accepted lib policy query := by
  unfold rejectQuery Accepted
  split <;> simp_all

instance (query : GoString) : Decidable (Accepted lib policy query) :=
  decidable_of_iff (rejectQuery lib policy query = none) rejectQuery_eq_none

theorem not_accepted_nil : ¬ Accepted lib policy [] := by
  intro h
  have hnil : trimSpace [] = [] := rfl
  rw [Accepted, checkGraphQLRequest, if_pos hnil] at h
  cases h

theorem batchQuery_ok {item : Json} {q : GoString} (h : batchQuery item = .ok q) :
    ∃ fields, item = .object fields ∧ queryOf fields = some q := by
  unfold batchQuery at h
  split at h
  next fields =>
    split at h
    next q' hq =>
      split at h
      · cases h
      · exact ⟨fields, rfl, by rw [hq, Except.ok.inj h]⟩
    next => cases h
  next => cases h

theorem mapM_batchQuery {items : List Json} {queries : List GoString}
    (h : items.mapM batchQuery = .ok queries) : items.filterMap itemQuery = queries := by
  induction items generalizing queries with
  | nil =>
    cases h
    rfl
  | cons item items ih =>
    rw [List.mapM_cons] at h
    cases hq : batchQuery item with
    | error e => rw [hq] at h; cases h
    | ok q =>
      cases hqs : items.mapM batchQuery with
      | error e => rw [hq, hqs] at h; cases h
      | ok qs =>
        rw [hq, hqs] at h
        obtain ⟨fields, rfl, hf⟩ := batchQuery_ok hq
        rw [List.filterMap_cons_some (show itemQuery (.object fields) = some q from hf), ih hqs]
        exact Except.ok.inj h

/-- The queries the proxy takes from a payload are all it carries. -/
theorem payloadQueries_ok {payload : Json} {queries : List GoString}
    (h : payloadQueries policy payload = .ok queries) : queries = documentsOf payload := by
  cases payload with
  | object fields =>
    simp only [payloadQueries] at h
    split at h
    next q hq =>
      split at h
      · cases h
      · rw [← Except.ok.inj h]
        simp [documentsOf, hq]
    next => cases h
  | array items =>
    simp only [payloadQueries] at h
    split at h
    · cases h
    · exact (mapM_batchQuery h).symm
  | _ =>
    cases h
    rfl

/-- A body that is let pass carries accepted documents only. -/
theorem checkBody_eq_none (hb : r.body ≠ .nil) (h : checkBody lib policy r r.body.data = none) :
    ∀ d ∈ bodyDocuments lib r, Accepted lib policy d := by
  intro d hd
  unfold checkBody at h
  rw [bodyDocuments, if_neg hb] at hd
  split at h
  · cases h
  next mediaType hm =>
    rw [hm] at hd
    dsimp only at hd
    split at h
    next hg =>
      rw [if_pos hg] at hd
      rw [List.mem_singleton.mp hd]
      exact rejectQuery_eq_none.mp h
    next hg =>
      split at h
      · cases h
      next hj =>
        rw [if_neg hg, if_pos (not_not.mp hj)] at hd
        split at h
        · cases h
        next payload hp =>
          rw [hp] at hd
          split at h
          · cases h
          · cases h
          next queries _ hq =>
            have hmem : d ∈ queries := by
              rw [payloadQueries_ok hq]
              exact hd
            exact rejectQuery_eq_none.mp (List.findSome?_eq_none_iff.mp h d hmem)

theorem checkBody_nil_ne_none : checkBody lib policy r [] ≠ none := by
  intro h
  unfold checkBody at h
  split at h
  · cases h
  · split at h
    · exact not_accepted_nil (rejectQuery_eq_none.mp h)
    · split at h
      · cases h
      · rw [lib.unmarshal_nil] at h
        cases h

/-- **The body of a POST that passes** carries accepted documents only. -/
theorem bodyDocuments_accepted {limit : ℤ} {cached : Option GoString} (he : policy.enabled = true)
    (hpath : pathMatchesAny (graphQLPaths policy) r.path = true) (hm : r.method = str "POST")
    (hc : CachesBody r cached) (h64 : limit < 2 ^ 63)
    (hpass : (applyGraphQLProtection lib policy r limit cached).1 = none) :
    ∀ d ∈ bodyDocuments lib r, Accepted lib policy d := by
  by_cases hb : r.body = .nil
  · intro d hd
    rw [bodyDocuments, if_pos hb] at hd
    cases hd
  have hget : r.method ≠ str "GET" := by
    rw [hm]
    decide
  have hlimit : bodyLimit limit < 2 ^ 63 := by
    unfold bodyLimit defaultRequestBodyCap
    split <;> omega
  have hbody := (inspectionBody_ok hc hlimit).1
  unfold applyGraphQLProtection at hpass
  simp only [he, hpath, Bool.not_true, Bool.false_eq_true, if_false, if_neg hget,
    if_neg (not_not.mpr hm), if_neg hb] at hpass
  split at hpass
  · cases hpass
  · split at hpass
    · cases hpass
    · cases hpass
    next data _ hi =>
      rcases hbody data (by rw [hi]) with hdata | hdata
      · rw [hdata] at hpass
        exact checkBody_eq_none hb hpass
      · rw [hdata] at hpass
        exact absurd hpass checkBody_nil_ne_none

/-- The first `query` parameter of a GET that passes is accepted. -/
theorem first_query_accepted {limit : ℤ} {cached : Option GoString} (he : policy.enabled = true)
    (hpath : pathMatchesAny (graphQLPaths policy) r.path = true) (hm : r.method = str "GET")
    (hpass : (applyGraphQLProtection lib policy r limit cached).1 = none) :
    ∃ q qs, r.query (str "query") = q :: qs ∧ Accepted lib policy q := by
  unfold applyGraphQLProtection at hpass
  simp only [he, hpath, Bool.not_true, Bool.false_eq_true, if_false, if_pos hm] at hpass
  split at hpass
  · cases hpass
  next hq =>
    unfold Request.queryGet at hq hpass
    cases hqs : r.query (str "query") with
    | nil =>
      rw [hqs] at hq
      exact absurd rfl hq
    | cons q qs =>
      rw [hqs] at hpass
      exact ⟨q, qs, rfl, rejectQuery_eq_none.mp hpass⟩

/-- A request that passes uses GET or POST. -/
theorem method_of_pass {limit : ℤ} {cached : Option GoString} (he : policy.enabled = true)
    (hpath : pathMatchesAny (graphQLPaths policy) r.path = true)
    (hpass : (applyGraphQLProtection lib policy r limit cached).1 = none) :
    r.method = str "GET" ∨ r.method = str "POST" := by
  by_cases hget : r.method = str "GET"
  · exact .inl hget
  by_cases hpost : r.method = str "POST"
  · exact .inr hpost
  simp [applyGraphQLProtection, he, hpath, hget, hpost] at hpass

end Proofs

/-- **GraphQL policy coverage.** A request on a protected path that is let pass carries accepted
documents only, exactly if the `query` parameters the proxy does not read are accepted: those after
the first one of a GET, and all of a POST. -/
theorem carried_accepted_iff (lib : GraphQLLib) (policy : GraphQLProtection) (r : Request)
    (limit : ℤ) (cached : Option GoString) (he : policy.enabled = true)
    (hpath : pathMatchesAny (graphQLPaths policy) r.path = true) (hc : CachesBody r cached)
    (h64 : limit < 2 ^ 63)
    (hpass : (applyGraphQLProtection lib policy r limit cached).1 = none) :
    (∀ d ∈ carriedDocuments lib r, Accepted lib policy d) ↔
      ∀ d ∈ uninspectedDocuments r, Accepted lib policy d := by
  rcases method_of_pass he hpath hpass with hm | hm
  · obtain ⟨q, qs, hqs, hq⟩ := first_query_accepted he hpath hm hpass
    have hpost : r.method ≠ str "POST" := by
      rw [hm]
      decide
    rw [carriedDocuments, uninspectedDocuments, if_neg hpost, if_pos hm, hqs, List.append_nil,
      List.tail_cons]
    simp [hq]
  · have hbody := bodyDocuments_accepted he hpath hm hc h64 hpass
    have hget : r.method ≠ str "GET" := by
      rw [hm]
      decide
    rw [carriedDocuments, uninspectedDocuments, if_pos hm, if_neg hget]
    simp only [List.mem_append]
    exact ⟨fun h d hd => h d (.inl hd), fun h d hd => hd.elim (h d) (hbody d)⟩

/-! ## A second query parameter -/

/-- Nothing can be parsed. -/
def GraphQLLib.silent : GraphQLLib := ⟨fun _ => none, fun _ => none, fun _ => none, rfl⟩

/-- A parser that knows three documents. -/
def sampleLib : GraphQLLib where
  parse := fun s =>
    if s = str "\x7ba\x7d" then some [.operation [.field (some (str "a")) []]]
    else if s = str "\x7bb\x7d" then some [.operation [.field (some (str "b")) []]]
    else if s = str "\x7b__schema\x7d" then some [.operation [.field (some (str "__schema")) []]]
    else none
  parseMediaType := some
  unmarshal := fun _ => none
  unmarshal_nil := rfl

/-- A policy that blocks introspection. -/
def noIntrospection : GraphQLProtection := ⟨true, [], true, 8, 10, 0⟩

/-- A GET request with the given `query` parameters. -/
def getQuery (queries : List GoString) : Request where
  method := str "GET"
  host := str "example.com"
  path := str "/graphql"
  query := fun name => if name = str "query" then queries else []
  header := fun _ => []
  remoteAddr := str "192.0.2.1:4711"
  tls := false
  contentLength := 0
  body := .noBody

theorem carried_accepted_two_queries :
    (applyGraphQLProtection sampleLib noIntrospection
      (getQuery [str "\x7ba\x7d", str "\x7bb\x7d"]) 0 none).1 = none ∧
    ∀ d ∈ carriedDocuments sampleLib (getQuery [str "\x7ba\x7d", str "\x7bb\x7d"]),
      Accepted sampleLib noIntrospection d :=
  ⟨by decide, (carried_accepted_iff sampleLib noIntrospection
    (getQuery [str "\x7ba\x7d", str "\x7bb\x7d"]) 0 none rfl (by decide) (by simp [CachesBody])
    (by decide) (by decide)).mpr (by decide)⟩

/-- **A repeated parameter passes.** The second `query` parameter asks for the schema. -/
theorem repeated_query_passes :
    (applyGraphQLProtection sampleLib noIntrospection
      (getQuery [str "\x7ba\x7d", str "\x7b__schema\x7d"]) 0 none).1 = none ∧
    str "\x7b__schema\x7d" ∈ carriedDocuments sampleLib
      (getQuery [str "\x7ba\x7d", str "\x7b__schema\x7d"]) ∧
    ¬ Accepted sampleLib noIntrospection (str "\x7b__schema\x7d") := by
  decide

end SynitWaf
