import SynitWaf.GraphQL.Fragments

/-!
# The visiting set of the walks

`selectionDepth` and `hasIntrospection` share one mutable set of the fragments that are being
visited. A fragment is put in before it is walked and taken out behind it, also when the walk of the
fragment fails. Fragments refer to each other freely, so that the recursion is not one over the
syntax tree: a walk may take `fuel` nested fragments, and has no result if it needs more.

* `Walk`: walks that change the visiting set; `visitFragment`, `depthLoop`, `introspectionLoop`,
  `visitingDepth`, `visitingIntrospection`;
* `visitFragments_eq`: with one level for every fragment, a walk ends with the answer of the walk
  that is handed its visiting set, and leaves its own as it was;
* **`walks_exact`**: the walks end on every document, restore the set and compute what they should.
-/

namespace SynitWaf

open Go

/-- A walk: from a visiting set to an answer or an error and a visiting set; `none` if it does not
come to an end within its levels. -/
abbrev Walk (α : Type) := Finset GoString → Option (Except GoString α × Finset GoString)

/-- The case of a spread: the fragment is visited, walked and left. -/
def visitFragment {α : Type} (d : GraphqlDocument) (walk : List Selection → Walk α)
    (spread : Option GoString) : Walk α := fun visiting =>
  match spread with
  | none => some (.error (str "invalid fragment spread"), visiting)
  | some name =>
    match d.lookup name with
    | none => some (.error (str "unknown fragment " ++ name), visiting)
    | some set =>
      if name ∈ visiting then some (.error (str "fragment cycle involving " ++ name), visiting)
      else do
        let (result, visiting) ← walk set (insert name visiting)
        return (result, visiting.erase name)

section Loops

mutual

/-- The depth of one selection. -/
def depthOfNode (spread : Option GoString → Walk ℕ) : Selection → Walk ℕ
  | .field _ set, visiting => do
    match ← depthLoop spread 0 set visiting with
    | (.error e, visiting) => return (.error e, visiting)
    | (.ok childDepth, visiting) => return (.ok (1 + childDepth), visiting)
  | .inlineFragment set, visiting => depthLoop spread 0 set visiting
  | .fragmentSpread name, visiting => spread name visiting

/-- The loop of `selectionDepth`. -/
def depthLoop (spread : Option GoString → Walk ℕ) (maxDepth : ℕ) : List Selection → Walk ℕ
  | [], visiting => some (.ok maxDepth, visiting)
  | s :: set, visiting => do
    match ← depthOfNode spread s visiting with
    | (.error e, visiting) => return (.error e, visiting)
    | (.ok depth, visiting) =>
      depthLoop spread (if maxDepth < depth then depth else maxDepth) set visiting

end

mutual

/-- Introspection in one selection. -/
def introspectionOfNode (spread : Option GoString → Walk Bool) : Selection → Walk Bool
  | .field name set, visiting =>
    if name = some (str "__schema") ∨ name = some (str "__type") then some (.ok true, visiting)
    else introspectionLoop spread set visiting
  | .inlineFragment set, visiting => introspectionLoop spread set visiting
  | .fragmentSpread name, visiting => spread name visiting

/-- The loop of `hasIntrospection`. -/
def introspectionLoop (spread : Option GoString → Walk Bool) : List Selection → Walk Bool
  | [], visiting => some (.ok false, visiting)
  | s :: set, visiting => do
    match ← introspectionOfNode spread s visiting with
    | (.ok false, visiting) => introspectionLoop spread set visiting
    | (result, visiting) => return (result, visiting)

end

end Loops

/-- A walk through at most `fuel` nested fragments. -/
def visitFragments {α : Type} (d : GraphqlDocument)
    (loop : (Option GoString → Walk α) → List Selection → Walk α) :
    ℕ → List Selection → Walk α
  | 0, set => loop (visitFragment d fun _ _ => none) set
  | fuel + 1, set => loop (visitFragment d (visitFragments d loop fuel)) set

/-- `selectionDepth`, with its visiting set. -/
def visitingDepth (d : GraphqlDocument) : ℕ → List Selection → Walk ℕ :=
  visitFragments d fun spread => depthLoop spread 0

/-- `hasIntrospection`, with its visiting set. -/
def visitingIntrospection (d : GraphqlDocument) : ℕ → List Selection → Walk Bool :=
  visitFragments d introspectionLoop

/-! ## The loops -/

section Loops

variable {visiting : Finset GoString}

/-- The walk gives this answer, and the visiting set is as it was. -/
def Gives {α : Type} (walk : Walk α) (visiting : Finset GoString) (r : Except GoString α) : Prop :=
  walk visiting = some (r, visiting)

section Depth

variable {walk : Option GoString → Walk ℕ} {spread : Option GoString → Except GoString ℕ}

theorem depthLoop_cons {s : Selection} {set : List Selection} {depth rest : Except GoString ℕ}
    (hs : Gives (depthOfNode walk s) visiting depth)
    (hset : ∀ maxDepth, Gives (depthLoop walk maxDepth set) visiting (rest.map (max maxDepth)))
    (maxDepth : ℕ) :
    Gives (depthLoop walk maxDepth (s :: set)) visiting
      (Except.map (max maxDepth) (do return max (← depth) (← rest))) := by
  unfold Gives at hs hset ⊢
  rw [depthLoop, hs]
  cases depth with
  | error e => rfl
  | ok depth =>
    change depthLoop walk (if maxDepth < depth then depth else maxDepth) set visiting = _
    have hmax : (if maxDepth < depth then depth else maxDepth) = max maxDepth depth := by
      split <;> omega
    rw [hmax, hset]
    cases rest with
    | error e => rfl
    | ok rest => exact congrArg (fun n => some (Except.ok n, visiting)) (Nat.max_assoc _ _ _)

theorem depthLoop_gives (h : ∀ name, Gives (walk name) visiting (spread name))
    (set : List Selection) (maxDepth : ℕ) :
    Gives (depthLoop walk maxDepth set) visiting ((depthOfSet spread set).map (max maxDepth)) := by
  induction set using selections_induction generalizing maxDepth with
  | nil => exact congrArg (fun n => some (Except.ok n, visiting)) (Nat.max_zero _).symm
  | field name sub set ihsub ihset =>
    have hs : Gives (depthOfNode walk (.field name sub)) visiting
        (depthOfSelection spread (.field name sub)) := by
      have hsub := ihsub 0
      unfold Gives at hsub ⊢
      rw [depthOfNode, hsub, depthOfSelection]
      cases depthOfSet spread sub with
      | error e => rfl
      | ok n => exact congrArg (fun n => some (Except.ok (1 + n), visiting)) (Nat.zero_max n)
    exact depthLoop_cons hs ihset maxDepth
  | inlineFragment sub set ihsub ihset =>
    have hs : Gives (depthOfNode walk (.inlineFragment sub)) visiting
        (depthOfSelection spread (.inlineFragment sub)) := by
      have hsub := ihsub 0
      unfold Gives at hsub ⊢
      rw [depthOfNode, hsub, depthOfSelection]
      cases depthOfSet spread sub with
      | error e => rfl
      | ok n => exact congrArg (fun n => some (Except.ok n, visiting)) (Nat.zero_max n)
    exact depthLoop_cons hs ihset maxDepth
  | fragmentSpread name set ihset =>
    have hs : Gives (depthOfNode walk (.fragmentSpread name)) visiting
        (depthOfSelection spread (.fragmentSpread name)) := by
      unfold Gives
      rw [depthOfNode, depthOfSelection]
      exact h name
    exact depthLoop_cons hs ihset maxDepth

end Depth

section Introspection

variable {walk : Option GoString → Walk Bool} {spread : Option GoString → Except GoString Bool}

theorem introspectionLoop_cons {s : Selection} {set : List Selection}
    (hs : Gives (introspectionOfNode walk s) visiting (introspectionOfSelection spread s))
    (hset : Gives (introspectionLoop walk set) visiting (introspectionOfSet spread set)) :
    Gives (introspectionLoop walk (s :: set)) visiting (introspectionOfSet spread (s :: set)) := by
  unfold Gives at hs hset ⊢
  rw [introspectionLoop, hs, introspectionOfSet_cons]
  cases introspectionOfSelection spread s with
  | error e => rfl
  | ok found =>
    cases found with
    | true => rfl
    | false => exact hset

theorem introspectionLoop_gives (h : ∀ name, Gives (walk name) visiting (spread name))
    (set : List Selection) :
    Gives (introspectionLoop walk set) visiting (introspectionOfSet spread set) := by
  induction set using selections_induction with
  | nil => rfl
  | field name sub set ihsub ihset =>
    refine introspectionLoop_cons ?_ ihset
    unfold Gives at ihsub ⊢
    rw [introspectionOfNode, introspectionOfSelection]
    split
    · rfl
    · exact ihsub
  | inlineFragment sub set ihsub ihset =>
    refine introspectionLoop_cons ?_ ihset
    unfold Gives at ihsub ⊢
    rw [introspectionOfNode, introspectionOfSelection, ihsub]
  | fragmentSpread name set ihset =>
    refine introspectionLoop_cons ?_ ihset
    unfold Gives
    rw [introspectionOfNode, introspectionOfSelection]
    exact h name

end Introspection

end Loops

/-! ## Fragments -/

section Fragments

variable {α : Type} {d : GraphqlDocument}
  {loop : (Option GoString → Walk α) → List Selection → Walk α}
  {walk : (Option GoString → Except GoString α) → List Selection → Except GoString α}

/-- A fragment is left as it was entered. -/
theorem visitFragment_gives {walk : List Selection → Walk α} {visiting : List GoString}
    {answer : GoString × List Selection → Except GoString α}
    (h : ∀ name sub, resolveIn d name = some sub → name ∉ visiting →
      Gives (walk sub) (insert name visiting.toFinset) (answer (name, sub)))
    (spread : Option GoString) :
    Gives (visitFragment d walk spread) visiting.toFinset
      (resolveSpread d visiting spread >>= answer) := by
  unfold Gives visitFragment
  cases spread with
  | none => rfl
  | some name =>
    simp only [resolveSpread]
    cases hlookup : d.lookup name with
    | none => rfl
    | some sub =>
      by_cases hname : name ∈ visiting
      · simp only [List.mem_toFinset, if_pos hname]
        rfl
      · have hsub := h name sub hlookup hname
        have herase : (insert name visiting.toFinset).erase name = visiting.toFinset :=
          Finset.erase_insert (mt List.mem_toFinset.mp hname)
        unfold Gives at hsub
        simp only [List.mem_toFinset, if_neg hname, hsub]
        change some (answer (name, sub), (insert name visiting.toFinset).erase name) = _
        rw [herase]
        rfl

/-- **The visiting set is restored.** If a loop gives the answers of a walk, so it does with fragments
expanded, as soon as there is a level for every fragment that is not being visited. -/
theorem visitFragments_gives
    (hloop : ∀ visiting sp spread set, (∀ name, Gives (sp name) visiting (spread name)) →
      Gives (loop sp set) visiting (walk spread set))
    {fuel : ℕ} {visiting : List GoString} (hfuel : unvisited d visiting.toFinset ≤ fuel)
    (set : List Selection) :
    Gives (visitFragments d loop fuel set) visiting.toFinset
      (walkFragments d walk fuel visiting set) := by
  induction fuel generalizing visiting set with
  | zero =>
    rw [walkFragments_eq]
    refine hloop _ _ _ _ (visitFragment_gives fun name sub hlookup hname => ?_)
    have hlt := unvisited_insert_lt hlookup (mt List.mem_toFinset.mp hname)
    omega
  | succ fuel ih =>
    rw [walkFragments_eq]
    refine hloop _ _ _ _ (visitFragment_gives fun name sub hlookup hname => ?_)
    have hlt := unvisited_insert_lt hlookup (mt List.mem_toFinset.mp hname)
    rw [← List.toFinset_cons] at hlt ⊢
    exact ih (by omega) sub

end Fragments

/-! ## The answers -/

section Answers

variable {d : GraphqlDocument} {set : List Selection} {fuel : ℕ}

theorem visitingDepth_gives (visiting : List GoString) (hfuel : d.length ≤ fuel) :
    Gives (visitingDepth d fuel set) visiting.toFinset
      (walkFragments d depthOfSet fuel visiting set) := by
  refine visitFragments_gives (fun visiting sp spread set h => ?_) ((unvisited_le d _).trans hfuel) set
  have hdepth := depthLoop_gives h set 0
  have hzero : (depthOfSet spread set).map (max 0) = depthOfSet spread set := by
    cases depthOfSet spread set with
    | error e => rfl
    | ok n => exact congrArg Except.ok (Nat.zero_max n)
  rwa [hzero] at hdepth

theorem visitingIntrospection_gives (visiting : List GoString) (hfuel : d.length ≤ fuel) :
    Gives (visitingIntrospection d fuel set) visiting.toFinset
      (walkFragments d introspectionOfSet fuel visiting set) :=
  visitFragments_gives (fun _ _ _ set h => introspectionLoop_gives h set)
    ((unvisited_le d _).trans hfuel) set

/-- The walk ends from every visiting set, with the set it began with. -/
def Restores {α : Type} (walk : Walk α) : Prop := ∀ visiting, ∃ r, walk visiting = some (r, visiting)

theorem restores_of_gives {α : Type} {walk : Walk α} {answer : List GoString → Except GoString α}
    (h : ∀ visiting : List GoString, Gives walk visiting.toFinset (answer visiting)) :
    Restores walk := by
  intro visiting
  have hvisiting := h visiting.toList
  rw [Finset.toList_toFinset] at hvisiting
  exact ⟨_, hvisiting⟩

theorem Gives.eq_some_iff {α : Type} {walk : Walk α} {visiting : Finset GoString}
    {r r' : Except GoString α} (h : Gives walk visiting r) :
    walk visiting = some (r', visiting) ↔ r = r' := by
  unfold Gives at h
  rw [h, Option.some_inj, Prod.mk_left_inj]

end Answers

/-- What the walks over a selection set should do, given a level for every fragment. -/
structure WalksExactly (d : GraphqlDocument) (set : List Selection) (fuel : ℕ) : Prop where
  depth_restores : Restores (visitingDepth d fuel set)
  introspection_restores : Restores (visitingIntrospection d fuel set)
  depth_error : (∃ e, visitingDepth d fuel set ∅ = some (.error e, ∅)) ↔ Broken (resolveIn d) set
  depth_ok : ∀ n, visitingDepth d fuel set ∅ = some (.ok n, ∅) ↔
    ∃ fs, Expands (resolveIn d) set fs ∧ fs.height = n
  introspection_false : visitingIntrospection d fuel set ∅ = some (.ok false, ∅) ↔
    ∃ fs, Expands (resolveIn d) set fs ∧ fs.introspects = false

/-- **The walks are exact.** On every document, cyclic or not, they end and leave the visiting set as
they found it; the depth is that of the full expansion, and it fails exactly if a chain of spreads is
broken; no introspection means that the expansion exists and has none. -/
theorem walks_exact (d : GraphqlDocument) (set : List Selection) :
    ∀ fuel, d.length ≤ fuel → WalksExactly d set fuel := by
  intro fuel hfuel
  have hdepth : Gives (visitingDepth d fuel set) ∅ (walkFragments d depthOfSet fuel [] set) :=
    visitingDepth_gives [] hfuel
  have hintrospection : Gives (visitingIntrospection d fuel set) ∅
      (walkFragments d introspectionOfSet fuel [] set) := visitingIntrospection_gives [] hfuel
  constructor
  · exact restores_of_gives fun visiting => visitingDepth_gives visiting hfuel
  · exact restores_of_gives fun visiting => visitingIntrospection_gives visiting hfuel
  · simp only [hdepth.eq_some_iff]
    exact depth_eq_error hfuel
  · intro n
    rw [hdepth.eq_some_iff]
    exact depth_eq_ok hfuel
  · rw [hintrospection.eq_some_iff]
    exact introspection_eq_false hfuel

/-- A fragment that spreads itself: both walks end with an error. -/
theorem walks_exact_cycle :
    WalksExactly [(str "F", [.fragmentSpread (some (str "F"))])] [.fragmentSpread (some (str "F"))] 1 ∧
    visitingDepth [(str "F", [.fragmentSpread (some (str "F"))])] 1
      [.fragmentSpread (some (str "F"))] ∅ = some (.error (str "fragment cycle involving F"), ∅) :=
  ⟨walks_exact _ _ 1 (Nat.le_refl 1), by decide⟩

end SynitWaf
