import Mathlib.Data.List.Nodup
import SynitWaf.GraphQL.Fragments

/-!
# Soundness for every resolution

A document may define a fragment name several times. The index of the proxy keeps the last
definition; a backend may use another one.

* `fragmentNames`, `definitionsOf`; `Resolution`: one definition for every defined name;
* `lookup_newGraphQLDocument`: the index resolves to the last definition;
* `SoundDocument`: no introspection and a bounded depth, whatever the resolution;
* **`accepted_sound_iff`**: accepted documents are sound if no name is defined twice, and only then;
* `duplicate_fragment_passes`: an accepted document that a backend may read as a schema query.
-/

namespace SynitWaf

open Go

/-- The names of the fragments, in the order of their definitions. -/
def fragmentNames (doc : List Definition) : List GoString :=
  doc.filterMap fun d => match d with
    | .fragment name _ => name
    | _ => none

/-- The definitions of one fragment name. -/
def definitionsOf (doc : List Definition) (name : GoString) : List (List Selection) :=
  doc.filterMap fun d => match d with
    | .fragment n set => if n = some name then some set else none
    | _ => none

/-- Every defined name is resolved to one of its definitions. -/
structure Resolution (doc : List Definition) (resolve : GoString → Option (List Selection)) :
    Prop where
  of_some : ∀ name set, resolve name = some set → set ∈ definitionsOf doc name
  of_none : ∀ name, resolve name = none → definitionsOf doc name = []

/-- However the names are resolved, the full expansions have no introspection field and are at most
`maxDepth` fields deep. -/
def SoundDocument (doc : List Definition) (maxDepth : ℤ) : Prop :=
  ∀ resolve, Resolution doc resolve → ∀ set ∈ operations doc,
    ∃ fs, Expands resolve set fs ∧ fs.introspects = false ∧ fs.height ≤ maxDepth

/-! ## The index -/

theorem newGraphQLDocument_snoc (doc : List Definition) (definition : Definition) :
    newGraphQLDocument (doc ++ [definition]) =
      match definition with
      | .fragment (some name) set =>
        (newGraphQLDocument doc).filter (·.1 ≠ name) ++ [(name, set)]
      | _ => newGraphQLDocument doc := by
  unfold newGraphQLDocument
  rw [List.foldl_append]
  rfl

theorem lookup_cons_ne {d : GraphqlDocument} {name key : GoString} {set : List Selection}
    (h : name ≠ key) : List.lookup name ((key, set) :: d) = d.lookup name := by
  have hbeq : (name == key) = false := by simpa using h
  rw [List.lookup_cons, hbeq]

theorem lookup_filter_ne {d : GraphqlDocument} {name n : GoString} :
    List.lookup name (d.filter (·.1 ≠ n)) = if name = n then none else d.lookup name := by
  induction d with
  | nil => simp
  | cons entry d ih =>
    obtain ⟨key, set⟩ := entry
    by_cases hkey : key = n
    · subst hkey
      rw [List.filter_cons_of_neg (by simp), ih]
      by_cases hname : name = key
      · rw [if_pos hname, if_pos hname]
      · rw [if_neg hname, if_neg hname, lookup_cons_ne hname]
    · rw [List.filter_cons_of_pos (by simpa using hkey)]
      by_cases hname : name = key
      · subst hname
        rw [List.lookup_cons_self, if_neg hkey, List.lookup_cons_self]
      · rw [lookup_cons_ne hname, ih, lookup_cons_ne hname]

/-- **The last definition counts.** -/
theorem lookup_newGraphQLDocument (doc : List Definition) (name : GoString) :
    (newGraphQLDocument doc).lookup name = (definitionsOf doc name).getLast? := by
  induction doc using List.reverseRecOn with
  | nil => rfl
  | append_singleton doc definition ih =>
    rw [newGraphQLDocument_snoc, definitionsOf, List.filterMap_append, ← definitionsOf]
    cases definition with
    | operation set => simpa using ih
    | other => simpa using ih
    | fragment n set =>
      cases n with
      | none => simpa using ih
      | some n =>
        dsimp only
        rw [List.lookup_append, lookup_filter_ne]
        by_cases hname : name = n
        · subst hname
          simp
        · have hname' : ¬ n = name := fun h => hname h.symm
          simp [hname, hname', ih, lookup_cons_ne hname]

/-! ## The check of an operation -/

theorem checkOperation_ok {d : GraphqlDocument} {policy : GraphQLProtection} {set : List Selection}
    (hblock : policy.blockIntrospection = true) (h : checkOperation d policy set = .ok ()) :
    hasIntrospection d set = .ok false ∧ ∃ depth, selectionDepth d set = .ok depth ∧
      ¬ (0 < policy.maxQueryDepth ∧ policy.maxQueryDepth < depth) := by
  unfold checkOperation at h
  rw [if_pos hblock] at h
  cases hintrospection : hasIntrospection d set with
  | error e =>
    rw [hintrospection] at h
    cases h
  | ok found =>
    rw [hintrospection] at h
    cases found with
    | true => cases h
    | false =>
      cases hdepth : selectionDepth d set with
      | error e =>
        rw [hdepth] at h
        cases h
      | ok depth =>
        rw [hdepth] at h
        refine ⟨rfl, depth, rfl, fun hdeep => ?_⟩
        exact nomatch (if_pos hdeep).symm.trans h

theorem checkGraphQLRequest_ok {parse : GoString → Option (List Definition)} {query : GoString}
    {policy : GraphQLProtection} {doc : List Definition} (hparse : parse query = some doc)
    (h : checkGraphQLRequest parse query policy = .ok ()) :
    ∀ set ∈ operations doc, checkOperation (newGraphQLDocument doc) policy set = .ok () := by
  unfold checkGraphQLRequest at h
  obtain ⟨-, h⟩ := throw_if_eq_ok.mp h
  obtain ⟨-, h⟩ := throw_if_eq_ok.mp h
  obtain ⟨-, h⟩ := throw_if_eq_ok.mp h
  simp only [hparse] at h
  obtain ⟨_, h, -⟩ := result_bind_eq_ok.mp h
  exact forM_eq_ok.mp h

/-! ## Soundness -/

theorem length_definitionsOf (doc : List Definition) (name : GoString) :
    (definitionsOf doc name).length = (fragmentNames doc).count name := by
  induction doc with
  | nil => rfl
  | cons definition doc ih =>
    cases definition with
    | operation set => exact ih
    | other => exact ih
    | fragment n set =>
      cases n with
      | none => exact ih
      | some n =>
        by_cases hname : n = name
        · subst hname
          simpa [definitionsOf, fragmentNames] using ih
        · simpa [definitionsOf, fragmentNames, hname] using ih

/-- If no name is defined twice, the index is the only resolution. -/
theorem Resolution.eq_index {doc : List Definition} {resolve : GoString → Option (List Selection)}
    (h : Resolution doc resolve) (hnodup : (fragmentNames doc).Nodup) :
    resolve = resolveIn (newGraphQLDocument doc) := by
  funext name
  have hlength : (definitionsOf doc name).length ≤ 1 := by
    rw [length_definitionsOf]
    exact List.nodup_iff_count_le_one.mp hnodup name
  rw [resolveIn, lookup_newGraphQLDocument]
  cases hname : resolve name with
  | none => rw [h.of_none name hname]; rfl
  | some set =>
    have hmem := h.of_some name set hname
    obtain ⟨set', hdefs⟩ : ∃ set', definitionsOf doc name = [set'] :=
      List.length_eq_one_iff.mp (le_antisymm hlength (List.length_pos_of_mem hmem))
    rw [hdefs] at hmem ⊢
    rw [List.mem_singleton.mp hmem]
    rfl

theorem sound_of_nodup {doc : List Definition} {policy : GraphQLProtection}
    (hnodup : (fragmentNames doc).Nodup) (hblock : policy.blockIntrospection = true)
    (hdepth : 0 < policy.maxQueryDepth)
    (h : ∀ set ∈ operations doc, checkOperation (newGraphQLDocument doc) policy set = .ok ()) :
    SoundDocument doc policy.maxQueryDepth := by
  intro resolve hresolve set hset
  obtain ⟨hintrospection, depth, hselection, hle⟩ := checkOperation_ok hblock (h set hset)
  obtain ⟨fs, hfs, hno⟩ := hasIntrospection_eq_false.mp hintrospection
  obtain ⟨gs, hgs, hheight⟩ := selectionDepth_eq_ok.mp hselection
  obtain rfl := hfs.unique hgs
  rw [hresolve.eq_index hnodup]
  exact ⟨fs, hfs, hno, by omega⟩

/-! ## A name that is defined twice -/

/-- Fragments that select one harmless field. -/
def harmless (names : List GoString) : List Definition :=
  names.map fun n => .fragment (some n) [.field (some (str "a")) []]

/-- A spread of a fragment that is first defined as a schema query. -/
def shadowed (before after : List GoString) (name : GoString) : List Definition :=
  .operation [.fragmentSpread (some name)] ::
    (harmless before ++
      .fragment (some name) [.field (some (str "__schema")) []] :: harmless after)

/-- No introspection, one level. -/
def strictPolicy : GraphQLProtection := { (default : GraphQLProtection) with
  blockIntrospection := true, maxQueryDepth := 1 }

section Shadowed

variable {before after : List GoString} {name : GoString}

theorem definitionsOf_append (doc doc' : List Definition) (name : GoString) :
    definitionsOf (doc ++ doc') name = definitionsOf doc name ++ definitionsOf doc' name :=
  List.filterMap_append

theorem mem_definitionsOf_harmless {names : List GoString} {set : List Selection} :
    set ∈ definitionsOf (harmless names) name ↔
      name ∈ names ∧ set = [.field (some (str "a")) []] := by
  simp only [definitionsOf, harmless, List.filterMap_map, List.mem_filterMap, Function.comp_apply,
    Option.some.injEq, Option.ite_none_right_eq_some]
  constructor
  · rintro ⟨_, hname, rfl, rfl⟩
    exact ⟨hname, rfl⟩
  · rintro ⟨hname, rfl⟩
    exact ⟨name, hname, rfl, rfl⟩

theorem definitionsOf_shadowed :
    definitionsOf (shadowed before after name) name =
      definitionsOf (harmless before) name ++
        [.field (some (str "__schema")) []] :: definitionsOf (harmless after) name := by
  change definitionsOf (harmless before ++ _) name = _
  rw [definitionsOf_append]
  simp [definitionsOf]

theorem fragmentNames_shadowed :
    fragmentNames (shadowed before after name) = before ++ name :: after := by
  simp [shadowed, harmless, fragmentNames, List.filterMap_map]

theorem operations_shadowed :
    operations (shadowed before after name) = [[.fragmentSpread (some name)]] := by
  simp [shadowed, harmless, operations]

/-- The index has the harmless definition. -/
theorem lookup_shadowed (h : name ∈ after) :
    resolveIn (newGraphQLDocument (shadowed before after name)) name =
      some [.field (some (str "a")) []] := by
  have hmem : [.field (some (str "a")) []] ∈ definitionsOf (harmless after) name :=
    mem_definitionsOf_harmless.mpr ⟨h, rfl⟩
  obtain ⟨last, hlast⟩ := Option.ne_none_iff_exists'.mp
    (mt List.getLast?_eq_none_iff.mp (List.ne_nil_of_mem hmem))
  have hset := (mem_definitionsOf_harmless.mp (List.mem_of_getLast? hlast)).2
  rw [resolveIn, lookup_newGraphQLDocument, definitionsOf_shadowed, List.append_cons,
    List.getLast?_append, hlast, hset]
  rfl

theorem expands_spread {resolve : GoString → Option (List Selection)} {field : GoString}
    (h : resolve name = some [.field (some field) []]) :
    Expands resolve [.fragmentSpread (some name)] (.field (some field) .nil .nil) :=
  .fragmentSpread h (.field .nil .nil) .nil

theorem shadowed_accepted (h : name ∈ after) :
    checkGraphQLRequest (fun _ => some (shadowed before after name)) (str "a") strictPolicy =
      .ok () := by
  have hlookup : resolveIn (newGraphQLDocument (shadowed before after name)) name = _ :=
    lookup_shadowed h
  have hexpands := expands_spread hlookup
  have hintrospection := hasIntrospection_eq_false.mpr ⟨_, hexpands, by decide⟩
  have hdepth := selectionDepth_eq_ok.mpr ⟨_, hexpands, rfl⟩
  have hop : checkOperation (newGraphQLDocument (shadowed before after name)) strictPolicy
      [.fragmentSpread (some name)] = .ok () := by
    unfold checkOperation
    rw [hintrospection, hdepth]
    decide
  rw [checkGraphQLRequest, if_neg (by decide)]
  change ((operations (shadowed before after name)).forM _ >>= fun _ => _) = _
  have hall : [[Selection.fragmentSpread (some name)]].forM
      (checkOperation (newGraphQLDocument (shadowed before after name)) strictPolicy) = .ok () :=
    forM_eq_ok.mpr fun set hset => by rw [List.mem_singleton.mp hset, hop]
  rw [operations_shadowed, hall]
  rfl

/-- The backend may have the schema query. -/
theorem shadowed_resolution :
    Resolution (shadowed before after name) fun n =>
      if n = name then some [.field (some (str "__schema")) []]
      else resolveIn (newGraphQLDocument (shadowed before after name)) n := by
  constructor
  · intro n set h
    split at h
    next hn =>
      obtain rfl := Option.some.inj h
      rw [hn, definitionsOf_shadowed]
      simp
    next =>
      rw [resolveIn, lookup_newGraphQLDocument] at h
      exact List.mem_of_getLast? h
  · intro n h
    split at h
    next => cases h
    next =>
      rw [resolveIn, lookup_newGraphQLDocument] at h
      exact List.getLast?_eq_none_iff.mp h

theorem shadowed_not_sound (maxDepth : ℤ) : ¬ SoundDocument (shadowed before after name) maxDepth := by
  intro h
  obtain ⟨fs, hfs, hno, -⟩ := h _ shadowed_resolution [.fragmentSpread (some name)]
    (by rw [operations_shadowed]; exact List.mem_singleton_self _)
  rw [hfs.unique (expands_spread (if_pos rfl))] at hno
  exact absurd hno (by decide)

end Shadowed

/-- A list that is not duplicate-free has an entry that occurs again behind it. -/
theorem exists_repeated {names : List GoString} (h : ¬ names.Nodup) :
    ∃ before name after, names = before ++ name :: after ∧ name ∈ after := by
  induction names with
  | nil => exact absurd List.nodup_nil h
  | cons n names ih =>
    by_cases hn : n ∈ names
    · exact ⟨[], n, names, rfl, hn⟩
    · obtain ⟨before, name, after, rfl, hmem⟩ := ih fun hnodup => h (List.nodup_cons.mpr ⟨hn, hnodup⟩)
      exact ⟨n :: before, name, after, rfl, hmem⟩

/-- **Soundness for every resolution.** All accepted documents with fragments of the given names, in
this order, are sound exactly if no name occurs twice. -/
theorem accepted_sound_iff (names : List GoString) :
    (∀ doc, fragmentNames doc = names →
      ∀ (parse : GoString → Option (List Definition)) (query : GoString) (policy : GraphQLProtection),
      parse query = some doc → policy.blockIntrospection = true → 0 < policy.maxQueryDepth →
      checkGraphQLRequest parse query policy = .ok () →
      SoundDocument doc policy.maxQueryDepth) ↔ names.Nodup := by
  constructor
  · intro h
    by_contra hrepeated
    obtain ⟨before, name, after, rfl, hmem⟩ := exists_repeated hrepeated
    exact shadowed_not_sound _ (h _ fragmentNames_shadowed _ _ _ rfl rfl (by decide)
      (shadowed_accepted hmem))
  · rintro hnodup doc rfl parse query policy hparse hblock hdepth h
    exact sound_of_nodup hnodup hblock hdepth (checkGraphQLRequest_ok hparse h)

/-- A document with two fragments `F`. -/
def shadowedText : GoString :=
  str "query \x7b...F\x7d fragment F on Q \x7b__schema\x7d fragment F on Q \x7ba\x7d"

/-- A parser that knows this document. -/
def shadowedParser (query : GoString) : Option (List Definition) :=
  if query = shadowedText then some (shadowed [] [str "F"] (str "F")) else none

/-- **A duplicated fragment passes.** Of two fragments `F`, the proxy reads the second one; a backend
that reads the first one answers a schema query. -/
theorem duplicate_fragment_passes :
    checkGraphQLRequest shadowedParser shadowedText strictPolicy = .ok () ∧
    shadowedParser shadowedText = some (shadowed [] [str "F"] (str "F")) ∧
    fragmentNames (shadowed [] [str "F"] (str "F")) = [str "F", str "F"] ∧
    ∃ resolve, Resolution (shadowed [] [str "F"] (str "F")) resolve ∧
      Expands resolve [.fragmentSpread (some (str "F"))]
        (.field (some (str "__schema")) .nil .nil) :=
  ⟨by decide +kernel, if_pos rfl, fragmentNames_shadowed, _, shadowed_resolution,
    expands_spread (if_pos rfl)⟩

end SynitWaf
