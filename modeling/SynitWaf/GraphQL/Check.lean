import SynitWaf.Config.Types
import SynitWaf.Go.Time

/-!
# The policy check of one GraphQL document

`checkGraphQLRequest` measures the nesting of the text, parses it and walks every operation with
its fragments expanded. The parser is not part of the repository and is a parameter.

* `Selection`, `Definition`: the parts of the syntax tree the proxy reads;
* `graphQLNestingDepth`: braces and brackets outside strings and comments;
* `selectionDepth`, `hasIntrospection`: the walks over an operation;
* `checkGraphQLRequest`.
-/

namespace SynitWaf

open Go

/-! ## Syntax trees -/

/-- `ast.Selection`; a missing selection set is an empty one. -/
inductive Selection where
  | field (name : Option GoString) (set : List Selection)
  | inlineFragment (set : List Selection)
  | fragmentSpread (name : Option GoString)

/-- The definitions of a document. -/
inductive Definition where
  | operation (set : List Selection)
  | fragment (name : Option GoString) (set : List Selection)
  | other

/-- `graphqlDocument`: the selection sets of the named fragments; the last definition of a name
counts. -/
abbrev GraphqlDocument := List (GoString × List Selection)

/-- `newGraphQLDocument`. -/
def newGraphQLDocument (doc : List Definition) : GraphqlDocument :=
  doc.foldl (fun fragments d =>
    match d with
    | .fragment (some name) set => fragments.filter (·.1 ≠ name) ++ [(name, set)]
    | _ => fragments) []

/-! ## Nesting of the text -/

/-- The text after the string literal whose opening quote was just read. -/
def skipString : GoString → GoString
  | [] => []
  | [_] => []
  | c :: d :: s =>
    if c = byte '"' ∨ c = byte '\n' then d :: s
    else if c = byte '\\' then skipString s
    else skipString (d :: s)

/-- Three quotes. -/
def blockQuote : GoString := [byte '"', byte '"', byte '"']

/-- The loop of `graphQLNestingDepth` over the text that is left; every round uses up at least one
byte, so `fuel` is the length of the text. -/
def nestingLoop : ℕ → GoString → ℕ → ℕ → ℕ
  | _, [], _, deepest => deepest
  | 0, _, _, deepest => deepest
  | fuel + 1, c :: s, depth, deepest =>
    if c = byte '#' then nestingLoop fuel ((s.dropWhile (· ≠ byte '\n')).drop 1) depth deepest
    else if c = byte '"' then
      if hasPrefix (c :: s) blockQuote then
        match index blockQuote (s.drop 2) with
        | none => deepest
        | some e => nestingLoop fuel ((s.drop 2).drop (e + 3)) depth deepest
      else nestingLoop fuel (skipString s) depth deepest
    else if c = byte '{' ∨ c = byte '[' then
      nestingLoop fuel s (depth + 1) (max deepest (depth + 1))
    else if c = byte '}' ∨ c = byte ']' then nestingLoop fuel s (depth - 1) deepest
    else nestingLoop fuel s depth deepest

/-- `graphQLNestingDepth`. -/
def graphQLNestingDepth (query : GoString) : ℕ := nestingLoop query.length query 0 0

/-! ## Walks over an operation -/

section Walk

variable (spread : Option GoString → Except GoString ℕ)

mutual

/-- The depth of one selection; `spread` is the depth of a named fragment. -/
def depthOfSelection : Selection → Except GoString ℕ
  | .field _ set => do return 1 + (← depthOfSet set)
  | .inlineFragment set => depthOfSet set
  | .fragmentSpread name => spread name

/-- The depth of a selection set: the largest depth, or the first error. -/
def depthOfSet : List Selection → Except GoString ℕ
  | [] => return 0
  | s :: set => do
    let depth ← depthOfSelection s
    let rest ← depthOfSet set
    return max depth rest

end

end Walk

section Walk

variable (spread : Option GoString → Except GoString Bool)

mutual

/-- Does one selection reach an introspection field? -/
def introspectionOfSelection : Selection → Except GoString Bool
  | .field name set =>
    if name = some (str "__schema") ∨ name = some (str "__type") then return true
    else introspectionOfSet set
  | .inlineFragment set => introspectionOfSet set
  | .fragmentSpread name => spread name

/-- The first introspection field or error of a selection set. -/
def introspectionOfSet : List Selection → Except GoString Bool
  | [] => return false
  | s :: set => do
    if ← introspectionOfSelection s then return true
    else introspectionOfSet set

end

end Walk

/-- The named fragment of a spread, unless it is unknown or already being visited. -/
def resolveSpread (d : GraphqlDocument) (visiting : List GoString) (name : Option GoString) :
    Except GoString (GoString × List Selection) :=
  match name with
  | none => .error (str "invalid fragment spread")
  | some name =>
    match d.lookup name with
    | none => .error (str "unknown fragment " ++ name)
    | some set =>
      if name ∈ visiting then .error (str "fragment cycle involving " ++ name)
      else .ok (name, set)

/-- A walk over `set` that expands named fragments. Every expansion visits a further fragment, so
that `fuel` is the number of fragments and never runs out before a cycle is found. -/
def walkFragments {α : Type} (d : GraphqlDocument)
    (walk : (Option GoString → Except GoString α) → List Selection → Except GoString α) :
    ℕ → List GoString → List Selection → Except GoString α
  | fuel, visiting, set =>
    walk (fun name => do
      let (name, set) ← resolveSpread d visiting name
      match fuel with
      | 0 => .error (str "fragment cycle involving " ++ name)
      | fuel + 1 => walkFragments d walk fuel (name :: visiting) set) set

/-- `selectionDepth`. -/
def selectionDepth (d : GraphqlDocument) (set : List Selection) : Except GoString ℕ :=
  walkFragments d depthOfSet d.length [] set

/-- `hasIntrospection`. -/
def hasIntrospection (d : GraphqlDocument) (set : List Selection) : Except GoString Bool :=
  walkFragments d introspectionOfSet d.length [] set

/-! ## The check -/

/-- `defaultGraphQLMaxQueryBytes`. -/
def defaultGraphQLMaxQueryBytes : ℤ := 102400

/-- `minGraphQLNestingBudget`. -/
def minGraphQLNestingBudget : ℤ := 64

/-- The checks of one operation. -/
def checkOperation (d : GraphqlDocument) (policy : GraphQLProtection) (set : List Selection) :
    Except GoString Unit := do
  let invalid := fun e => str "invalid GraphQL document: " ++ e
  if policy.blockIntrospection then
    if ← (hasIntrospection d set).mapError invalid then
      throw (str "introspection queries are not allowed")
  let depth ← (selectionDepth d set).mapError invalid
  if 0 < policy.maxQueryDepth ∧ policy.maxQueryDepth < depth then
    throw (str "query depth exceeds maximum allowed limit of " ++ itoa policy.maxQueryDepth)

/-- The operations of a document. -/
def operations (doc : List Definition) : List (List Selection) :=
  doc.filterMap fun d => match d with
    | .operation set => some set
    | _ => none

/-- `checkGraphQLRequest`; `parse` is the third-party parser. -/
def checkGraphQLRequest (parse : GoString → Option (List Definition)) (query : GoString)
    (policy : GraphQLProtection) : Except GoString Unit := do
  if trimSpace query = [] then throw (str "GraphQL query is required")
  let maxBytes := if policy.maxQueryBytes ≤ 0 then defaultGraphQLMaxQueryBytes else policy.maxQueryBytes
  if maxBytes < query.length then
    throw (str "query size exceeds maximum allowed limit of " ++ itoa maxBytes ++ str " bytes")
  let nestingBudget := max minGraphQLNestingBudget (int64 (2 * policy.maxQueryDepth + 16))
  if nestingBudget < graphQLNestingDepth query then
    throw (str "query nesting exceeds maximum allowed limit of " ++ itoa nestingBudget)
  match parse query with
  | none => throw (str "invalid GraphQL syntax")
  | some doc =>
    (operations doc).forM (checkOperation (newGraphQLDocument doc) policy)
    if operations doc = [] then throw (str "GraphQL document has no operation")

end SynitWaf
