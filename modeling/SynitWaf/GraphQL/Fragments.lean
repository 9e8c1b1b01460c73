import Mathlib.Data.Finset.Card
import Mathlib.Logic.Relation
import SynitWaf.Go.Errors
import SynitWaf.GraphQL.Check

/-!
# Fragments and their expansion

The full expansion of a selection set replaces every spread by the fragment it names, until only
fields are left. It exists exactly if no spread that is reached is unresolved or lies on a cycle.
The walks of `selectionDepth` and `hasIntrospection` compute what they should from it.

* `Fields`, `Expands`: the full expansion, for any resolution of the fragment names;
* `Reaches`, `Calls`, `Broken`: chains of spreads that end nowhere or run in a circle;
* `Expands.not_broken`; `walkFragments_error`: a walk that fails has met such a chain;
* `depth_eq_error`; **`selectionDepth_eq_ok`**, **`hasIntrospection_eq_false`**: the answers.
-/

namespace SynitWaf

open Go Relation

/-! ## The full expansion -/

/-- Fields only: the first one with what it selects, and the ones beside it. -/
inductive Fields where
  | nil
  | field (name : Option GoString) (set rest : Fields)
  deriving DecidableEq

namespace Fields

def append : Fields → Fields → Fields
  | nil, fs => fs
  | field name set rest, fs => field name set (rest.append fs)

/-- The number of fields below each other. -/
def height : Fields → ℕ
  | nil => 0
  | field _ set rest => max (1 + set.height) rest.height

/-- Is there a field `__schema` or `__type` at any depth? -/
def introspects : Fields → Bool
  | nil => false
  | field name set rest =>
    decide (name = some (str "__schema") ∨ name = some (str "__type")) || set.introspects ||
      rest.introspects

@[simp] theorem height_append (fs gs : Fields) :
    (fs.append gs).height = max fs.height gs.height := by
  induction fs with
  | nil => exact (Nat.zero_max _).symm
  | field name set rest _ ih => rw [append, height, ih, height, Nat.max_assoc]

@[simp] theorem introspects_append (fs gs : Fields) :
    (fs.append gs).introspects = (fs.introspects || gs.introspects) := by
  induction fs with
  | nil => rfl
  | field name set rest _ ih => simp only [append, introspects, ih, Bool.or_assoc]

end Fields

/-- Selection sets by their first selection. -/
@[elab_as_elim]
theorem selections_induction {P : List Selection → Prop} (nil : P [])
    (field : ∀ name sub set, P sub → P set → P (.field name sub :: set))
    (inlineFragment : ∀ sub set, P sub → P set → P (.inlineFragment sub :: set))
    (fragmentSpread : ∀ name set, P set → P (.fragmentSpread name :: set)) : ∀ set, P set
  | [] => nil
  | .field name sub :: set =>
    field name sub set
      (selections_induction nil field inlineFragment fragmentSpread sub)
      (selections_induction nil field inlineFragment fragmentSpread set)
  | .inlineFragment sub :: set =>
    inlineFragment sub set
      (selections_induction nil field inlineFragment fragmentSpread sub)
      (selections_induction nil field inlineFragment fragmentSpread set)
  | .fragmentSpread name :: set =>
    fragmentSpread name set (selections_induction nil field inlineFragment fragmentSpread set)

section Expansion

variable (resolve : GoString → Option (List Selection))

/-- The full expansion of a selection set. -/
inductive Expands : List Selection → Fields → Prop
  | nil : Expands [] .nil
  | field {name : Option GoString} {sub set : List Selection} {fs gs : Fields} :
      Expands sub fs → Expands set gs → Expands (.field name sub :: set) (.field name fs gs)
  | inlineFragment {sub set : List Selection} {fs gs : Fields} :
      Expands sub fs → Expands set gs → Expands (.inlineFragment sub :: set) (fs.append gs)
  | fragmentSpread {name : GoString} {sub set : List Selection} {fs gs : Fields} :
      resolve name = some sub → Expands sub fs → Expands set gs →
      Expands (.fragmentSpread (some name) :: set) (fs.append gs)

/-- The spreads of a selection set, at any depth. -/
inductive SpreadIn (spread : Option GoString) : List Selection → Prop
  | here {set : List Selection} : SpreadIn spread (.fragmentSpread spread :: set)
  | field {name : Option GoString} {sub set : List Selection} :
      SpreadIn spread sub → SpreadIn spread (.field name sub :: set)
  | inlineFragment {sub set : List Selection} :
      SpreadIn spread sub → SpreadIn spread (.inlineFragment sub :: set)
  | tail {s : Selection} {set : List Selection} : SpreadIn spread set → SpreadIn spread (s :: set)

/-- A chain of spreads leads from the set to this one. -/
inductive Reaches (set : List Selection) : Option GoString → Prop
  | spread {name : Option GoString} : SpreadIn name set → Reaches set name
  | through {name : GoString} {sub : List Selection} {next : Option GoString} :
      Reaches set (some name) → resolve name = some sub → SpreadIn next sub → Reaches set next

/-- The fragment `name` spreads the fragment `next`. -/
def Calls (name next : GoString) : Prop := ∃ sub, resolve name = some sub ∧ SpreadIn (some next) sub

/-- A chain of spreads hits an unknown fragment (or a spread without a name) or a cycle. -/
def Broken (set : List Selection) : Prop :=
  (∃ name, Reaches resolve set name ∧ name.bind resolve = none) ∨
    ∃ name, Reaches resolve set (some name) ∧ TransGen (Calls resolve) name name

variable {resolve} {set : List Selection}

theorem expands_field_iff {name : Option GoString} {sub : List Selection} {hs : Fields} :
    Expands resolve (.field name sub :: set) hs ↔
      ∃ fs gs, Expands resolve sub fs ∧ Expands resolve set gs ∧ hs = .field name fs gs := by
  constructor
  · intro h
    cases h with
    | field hsub hset => exact ⟨_, _, hsub, hset, rfl⟩
  · rintro ⟨fs, gs, hsub, hset, rfl⟩
    exact .field hsub hset

theorem expands_inlineFragment_iff {sub : List Selection} {hs : Fields} :
    Expands resolve (.inlineFragment sub :: set) hs ↔
      ∃ fs gs, Expands resolve sub fs ∧ Expands resolve set gs ∧ hs = fs.append gs := by
  constructor
  · intro h
    cases h with
    | inlineFragment hsub hset => exact ⟨_, _, hsub, hset, rfl⟩
  · rintro ⟨fs, gs, hsub, hset, rfl⟩
    exact .inlineFragment hsub hset

theorem expands_fragmentSpread_iff {name : GoString} {sub : List Selection} {hs : Fields}
    (hresolve : resolve name = some sub) :
    Expands resolve (.fragmentSpread (some name) :: set) hs ↔
      ∃ fs gs, Expands resolve sub fs ∧ Expands resolve set gs ∧ hs = fs.append gs := by
  constructor
  · intro h
    cases h with
    | fragmentSpread hresolve' hsub hset =>
      obtain rfl := Option.some.inj (hresolve.symm.trans hresolve')
      exact ⟨_, _, hsub, hset, rfl⟩
  · rintro ⟨fs, gs, hsub, hset, rfl⟩
    exact .fragmentSpread hresolve hsub hset

theorem Expands.unique {fs gs : Fields} (h : Expands resolve set fs) (h' : Expands resolve set gs) :
    fs = gs := by
  induction h generalizing gs with
  | nil => cases h'; rfl
  | field _ _ ihsub ihset =>
    cases h' with
    | field hsub hset => rw [ihsub hsub, ihset hset]
  | inlineFragment _ _ ihsub ihset =>
    cases h' with
    | inlineFragment hsub hset => rw [ihsub hsub, ihset hset]
  | fragmentSpread hresolve _ _ ihsub ihset =>
    cases h' with
    | fragmentSpread hresolve' hsub hset =>
      obtain rfl := Option.some.inj (hresolve.symm.trans hresolve')
      rw [ihsub hsub, ihset hset]

/-- In an expanded set, every spread is resolved and its fragment expanded. -/
theorem Expands.spreadIn {fs : Fields} (h : Expands resolve set fs) {spread : Option GoString}
    (hs : SpreadIn spread set) :
    ∃ name sub gs, spread = some name ∧ resolve name = some sub ∧ Expands resolve sub gs := by
  induction h with
  | nil => cases hs
  | field _ _ ihsub ihset =>
    cases hs with
    | field hs => exact ihsub hs
    | tail hs => exact ihset hs
  | inlineFragment _ _ ihsub ihset =>
    cases hs with
    | inlineFragment hs => exact ihsub hs
    | tail hs => exact ihset hs
  | fragmentSpread hresolve hsub _ _ ihset =>
    cases hs with
    | here => exact ⟨_, _, _, rfl, hresolve, hsub⟩
    | tail hs => exact ihset hs

theorem Expands.reaches {fs : Fields} (h : Expands resolve set fs) {spread : Option GoString}
    (hs : Reaches resolve set spread) :
    ∃ name sub gs, spread = some name ∧ resolve name = some sub ∧ Expands resolve sub gs := by
  induction hs with
  | spread hs => exact h.spreadIn hs
  | through _ hresolve hs ih =>
    obtain ⟨name, sub, gs, hname, hresolve', hsub⟩ := ih
    obtain rfl := Option.some.inj hname
    obtain rfl := Option.some.inj (hresolve.symm.trans hresolve')
    exact hsub.spreadIn hs

/-- The fragments spread in an expanded set form no infinite chain. -/
theorem Expands.acc {fs : Fields} (h : Expands resolve set fs) {name : GoString}
    (hs : SpreadIn (some name) set) : Acc (Function.swap (Calls resolve)) name := by
  induction h generalizing name with
  | nil => cases hs
  | field _ _ ihsub ihset =>
    cases hs with
    | field hs => exact ihsub hs
    | tail hs => exact ihset hs
  | inlineFragment _ _ ihsub ihset =>
    cases hs with
    | inlineFragment hs => exact ihsub hs
    | tail hs => exact ihset hs
  | fragmentSpread hresolve _ _ ihsub ihset =>
    cases hs with
    | here =>
      refine .intro _ fun next hcall => ?_
      obtain ⟨sub, hresolve', hs⟩ := hcall
      obtain rfl := Option.some.inj (hresolve.symm.trans hresolve')
      exact ihsub hs
    | tail hs => exact ihset hs

theorem not_transGen_of_acc {name : GoString} (h : Acc (Function.swap (Calls resolve)) name) :
    ¬ TransGen (Calls resolve) name name := by
  induction h with
  | intro name _ ih =>
    intro hcycle
    obtain ⟨next, hcall, hback⟩ := TransGen.head'_iff.mp hcycle
    exact ih next hcall (.tail' hback hcall)

/-- An expanded set has no broken chain. -/
theorem Expands.not_broken {fs : Fields} (h : Expands resolve set fs) : ¬ Broken resolve set := by
  rintro (⟨spread, hreach, hnone⟩ | ⟨name, hreach, hcycle⟩)
  · obtain ⟨name, sub, gs, rfl, hresolve, -⟩ := h.reaches hreach
    cases hresolve.symm.trans hnone
  · obtain ⟨_, sub, gs, hname, hresolve, hsub⟩ := h.reaches hreach
    obtain rfl := Option.some.inj hname
    refine not_transGen_of_acc (.intro _ fun next hcall => ?_) hcycle
    obtain ⟨sub', hresolve', hs⟩ := hcall
    obtain rfl := Option.some.inj (hresolve.symm.trans hresolve')
    exact hsub.acc hs

theorem Reaches.trans {name : GoString} {sub : List Selection} {next : Option GoString}
    (hs : SpreadIn (some name) set) (hresolve : resolve name = some sub)
    (h : Reaches resolve sub next) : Reaches resolve set next := by
  induction h with
  | spread hnext => exact .through (.spread hs) hresolve hnext
  | through _ hresolve' hnext ih => exact .through ih hresolve' hnext

theorem Reaches.transGen {name : GoString} (hresolve : resolve name = some set)
    {spread : Option GoString} (h : Reaches resolve set spread) {next : GoString}
    (hnext : spread = some next) : TransGen (Calls resolve) name next := by
  induction h generalizing next with
  | spread hs => exact .single ⟨set, hresolve, hnext ▸ hs⟩
  | through _ hresolve' hs ih => exact (ih rfl).tail ⟨_, hresolve', hnext ▸ hs⟩

end Expansion

/-! ## Walks over one set -/

section Depth

variable {spread : Option GoString → Except GoString ℕ} {resolve : GoString → Option (List Selection)}
  {set : List Selection}

theorem depthOfSet_field (name : Option GoString) (sub set : List Selection) :
    depthOfSet spread (.field name sub :: set) = do
      let depth ← depthOfSet spread sub
      let rest ← depthOfSet spread set
      return max (1 + depth) rest := by
  rw [depthOfSet, depthOfSelection, bind_assoc]
  rfl

theorem depthOfSet_inlineFragment (sub set : List Selection) :
    depthOfSet spread (.inlineFragment sub :: set) = do
      let depth ← depthOfSet spread sub
      let rest ← depthOfSet spread set
      return max depth rest := by
  rw [depthOfSet, depthOfSelection]

theorem depthOfSet_fragmentSpread (name : Option GoString) (set : List Selection) :
    depthOfSet spread (.fragmentSpread name :: set) = do
      let depth ← spread name
      let rest ← depthOfSet spread set
      return max depth rest := by
  rw [depthOfSet, depthOfSelection]

/-- The only errors are those of spreads. -/
theorem depthOfSet_error {e : GoString} (h : depthOfSet spread set = .error e) :
    ∃ name, SpreadIn name set ∧ spread name = .error e := by
  induction set using selections_induction generalizing e with
  | nil => cases h
  | field name sub set ihsub ihset =>
    rw [depthOfSet_field] at h
    rcases result_pair_eq_error h with h | h
    · exact (ihsub h).imp fun _ hs => hs.imp_left .field
    · exact (ihset h).imp fun _ hs => hs.imp_left .tail
  | inlineFragment sub set ihsub ihset =>
    rw [depthOfSet_inlineFragment] at h
    rcases result_pair_eq_error h with h | h
    · exact (ihsub h).imp fun _ hs => hs.imp_left .inlineFragment
    · exact (ihset h).imp fun _ hs => hs.imp_left .tail
  | fragmentSpread name set ihset =>
    rw [depthOfSet_fragmentSpread] at h
    rcases result_pair_eq_error h with h | h
    · exact ⟨name, .here, h⟩
    · exact (ihset h).imp fun _ hs => hs.imp_left .tail

/-- The set expands to fields of this height. -/
def HasHeight (resolve : GoString → Option (List Selection)) (set : List Selection) (n : ℕ) : Prop :=
  ∃ fs, Expands resolve set fs ∧ fs.height = n

theorem depthOfSet_ok (hspread : ∀ name n, spread name = .ok n →
      ∃ m sub, name = some m ∧ resolve m = some sub ∧ HasHeight resolve sub n)
    {n : ℕ} (h : depthOfSet spread set = .ok n) : HasHeight resolve set n := by
  induction set using selections_induction generalizing n with
  | nil => exact ⟨.nil, .nil, Except.ok.inj h⟩
  | field name sub set ihsub ihset =>
    rw [depthOfSet_field] at h
    obtain ⟨depth, rest, hdepth, hrest, h⟩ := result_pair_eq_ok.mp h
    obtain ⟨fs, hfs, rfl⟩ := ihsub hdepth
    obtain ⟨gs, hgs, rfl⟩ := ihset hrest
    exact ⟨_, .field hfs hgs, h⟩
  | inlineFragment sub set ihsub ihset =>
    rw [depthOfSet_inlineFragment] at h
    obtain ⟨depth, rest, hdepth, hrest, h⟩ := result_pair_eq_ok.mp h
    obtain ⟨fs, hfs, rfl⟩ := ihsub hdepth
    obtain ⟨gs, hgs, rfl⟩ := ihset hrest
    exact ⟨_, .inlineFragment hfs hgs, (Fields.height_append fs gs).trans h⟩
  | fragmentSpread name set ihset =>
    rw [depthOfSet_fragmentSpread] at h
    obtain ⟨depth, rest, hdepth, hrest, h⟩ := result_pair_eq_ok.mp h
    obtain ⟨m, sub, rfl, hresolve, fs, hfs, rfl⟩ := hspread name depth hdepth
    obtain ⟨gs, hgs, rfl⟩ := ihset hrest
    exact ⟨_, .fragmentSpread hresolve hfs hgs, (Fields.height_append fs gs).trans h⟩

end Depth

section Introspection

variable {spread : Option GoString → Except GoString Bool}
  {resolve : GoString → Option (List Selection)} {set : List Selection}

theorem introspectionOfSet_cons (s : Selection) (set : List Selection) :
    introspectionOfSet spread (s :: set) =
      introspectionOfSelection spread s >>= fun found =>
        if found then pure true else introspectionOfSet spread set := by
  rw [introspectionOfSet]

/-- An error is that of the first selection, or of the rest. -/
theorem introspectionOfSet_cons_error {s : Selection} {e : GoString}
    (h : introspectionOfSet spread (s :: set) = .error e) :
    introspectionOfSelection spread s = .error e ∨ introspectionOfSet spread set = .error e := by
  rw [introspectionOfSet_cons] at h
  obtain h | ⟨found, -, h⟩ := result_bind_eq_error.mp h
  · exact .inl h
  · cases found with
    | false => exact .inr h
    | true => cases h

/-- The only errors are those of spreads. -/
theorem introspectionOfSet_error {e : GoString} (h : introspectionOfSet spread set = .error e) :
    ∃ name, SpreadIn name set ∧ spread name = .error e := by
  induction set using selections_induction with
  | nil => cases h
  | field name sub set ihsub ihset =>
    rcases introspectionOfSet_cons_error h with h | h
    · rw [introspectionOfSelection] at h
      split at h
      · cases h
      · exact (ihsub h).imp fun _ hs => hs.imp_left .field
    · exact (ihset h).imp fun _ hs => hs.imp_left .tail
  | inlineFragment sub set ihsub ihset =>
    rcases introspectionOfSet_cons_error h with h | h
    · rw [introspectionOfSelection] at h
      exact (ihsub h).imp fun _ hs => hs.imp_left .inlineFragment
    · exact (ihset h).imp fun _ hs => hs.imp_left .tail
  | fragmentSpread name set ihset =>
    rcases introspectionOfSet_cons_error h with h | h
    · rw [introspectionOfSelection] at h
      exact ⟨name, .here, h⟩
    · exact (ihset h).imp fun _ hs => hs.imp_left .tail

/-- What the answer says about the expansion. The walk stops at the first introspection field, so
that the rest of the set need not have an expansion. -/
def Finds (resolve : GoString → Option (List Selection)) (set : List Selection) : Bool → Prop
  | false => ∃ fs, Expands resolve set fs ∧ fs.introspects = false
  | true => ∀ fs, Expands resolve set fs → fs.introspects = true

/-- The answer for a set whose expansion puts those of two sets together. -/
theorem Finds.glue {sub whole : List Selection} {found b : Bool} {glue : Fields → Fields → Fields}
    (hwhole : ∀ hs, Expands resolve whole hs ↔
      ∃ fs gs, Expands resolve sub fs ∧ Expands resolve set gs ∧ hs = glue fs gs)
    (hglue : ∀ fs gs, (glue fs gs).introspects = (fs.introspects || gs.introspects))
    (hsub : Finds resolve sub found)
    (hset : found = true ∧ b = true ∨ found = false ∧ Finds resolve set b) :
    Finds resolve whole b := by
  obtain ⟨rfl, rfl⟩ | ⟨rfl, hset⟩ := hset
  · intro hs hhs
    obtain ⟨fs, gs, hfs, -, rfl⟩ := (hwhole hs).mp hhs
    rw [hglue, hsub fs hfs, Bool.true_or]
  · obtain ⟨fs, hfs, hno⟩ := hsub
    cases b with
    | false =>
      obtain ⟨gs, hgs, hno'⟩ := hset
      exact ⟨glue fs gs, (hwhole _).mpr ⟨fs, gs, hfs, hgs, rfl⟩, by rw [hglue, hno, hno']; rfl⟩
    | true =>
      intro hs hhs
      obtain ⟨fs, gs, -, hgs, rfl⟩ := (hwhole hs).mp hhs
      rw [hglue, hset gs hgs, Bool.or_true]

theorem introspectionOfSet_ok (hspread : ∀ name b, spread name = .ok b →
      ∃ m sub, name = some m ∧ resolve m = some sub ∧ Finds resolve sub b)
    {b : Bool} (h : introspectionOfSet spread set = .ok b) : Finds resolve set b := by
  -- the walk stops at the first selection, or the answer is that of the rest
  have hrest : ∀ {found b : Bool} {set : List Selection},
      (introspectionOfSet spread set = .ok b → Finds resolve set b) →
      (if found then pure true else introspectionOfSet spread set) = Except.ok b →
      found = true ∧ b = true ∨ found = false ∧ Finds resolve set b := by
    intro found b set ih h
    cases found with
    | false => exact .inr ⟨rfl, ih h⟩
    | true => exact .inl ⟨rfl, (Except.ok.inj h).symm⟩
  induction set using selections_induction generalizing b with
  | nil =>
    obtain rfl := Except.ok.inj h
    exact ⟨.nil, .nil, rfl⟩
  | field name sub set ihsub ihset =>
    rw [introspectionOfSet_cons, introspectionOfSelection] at h
    obtain ⟨found, hfound, h⟩ := result_bind_eq_ok.mp h
    split at hfound
    next hname =>
      obtain rfl := Except.ok.inj hfound
      obtain rfl := Except.ok.inj h
      intro fs hfs
      cases hfs with
      | field _ _ => simp [Fields.introspects, hname]
    next hname =>
      refine .glue (fun _ => expands_field_iff) (fun fs gs => ?_) (ihsub hfound) (hrest ihset h)
      simp [Fields.introspects, hname]
  | inlineFragment sub set ihsub ihset =>
    rw [introspectionOfSet_cons, introspectionOfSelection] at h
    obtain ⟨found, hfound, h⟩ := result_bind_eq_ok.mp h
    exact .glue (fun _ => expands_inlineFragment_iff) Fields.introspects_append (ihsub hfound)
      (hrest ihset h)
  | fragmentSpread name set ihset =>
    rw [introspectionOfSet_cons, introspectionOfSelection] at h
    obtain ⟨found, hfound, hset⟩ := result_bind_eq_ok.mp h
    have hset := hrest ihset hset
    obtain ⟨m, sub, rfl, hresolve, hsub⟩ := hspread name found hfound
    exact .glue (fun _ => expands_fragmentSpread_iff hresolve) Fields.introspects_append hsub hset

end Introspection

/-! ## Walks that expand fragments -/

section Walk

variable {α : Type} {d : GraphqlDocument} {visiting : List GoString}
  {walk : (Option GoString → Except GoString α) → List Selection → Except GoString α}

/-- The resolution of the index itself. -/
abbrev resolveIn (d : GraphqlDocument) (name : GoString) : Option (List Selection) := d.lookup name

/-- The number of fragments that are not being visited. -/
def unvisited (d : GraphqlDocument) (visiting : Finset GoString) : ℕ :=
  ((d.map Prod.fst).toFinset \ visiting).card

theorem mem_keys_of_lookup {name : GoString} {sub : List Selection}
    (h : resolveIn d name = some sub) : name ∈ (d.map Prod.fst).toFinset := by
  obtain ⟨l₁, l₂, rfl, -⟩ := List.lookup_eq_some_iff.mp h
  simp

theorem unvisited_insert_lt {visiting : Finset GoString} {name : GoString} {sub : List Selection}
    (h : resolveIn d name = some sub) (hname : name ∉ visiting) :
    unvisited d (insert name visiting) < unvisited d visiting := by
  refine Finset.card_lt_card ⟨Finset.sdiff_subset_sdiff subset_rfl (Finset.subset_insert _ _), ?_⟩
  intro hsub
  have hmem := hsub (Finset.mem_sdiff.mpr ⟨mem_keys_of_lookup h, hname⟩)
  exact (Finset.mem_sdiff.mp hmem).2 (Finset.mem_insert_self _ _)

theorem unvisited_le (d : GraphqlDocument) (visiting : Finset GoString) :
    unvisited d visiting ≤ d.length := by
  calc unvisited d visiting ≤ (d.map Prod.fst).toFinset.card :=
        Finset.card_le_card Finset.sdiff_subset
    _ ≤ (d.map Prod.fst).length := List.toFinset_card_le _
    _ = d.length := List.length_map _

theorem resolveSpread_ok {spread : Option GoString} {name : GoString} {sub : List Selection}
    (h : resolveSpread d visiting spread = .ok (name, sub)) :
    spread = some name ∧ resolveIn d name = some sub ∧ name ∉ visiting := by
  cases spread with
  | none => cases h
  | some n =>
    simp only [resolveSpread] at h
    split at h
    next => cases h
    next sub' hlookup =>
      split at h
      next => cases h
      next hvisiting =>
        cases h
        exact ⟨rfl, hlookup, hvisiting⟩

theorem resolveSpread_error {spread : Option GoString} {e : GoString}
    (h : resolveSpread d visiting spread = .error e) :
    spread.bind (resolveIn d) = none ∨ ∃ name, spread = some name ∧ name ∈ visiting := by
  cases spread with
  | none => exact .inl rfl
  | some name =>
    simp only [resolveSpread] at h
    split at h
    next hlookup => exact .inl hlookup
    next =>
      split at h
      next hvisiting => exact .inr ⟨name, rfl, hvisiting⟩
      next => cases h

/-- A spread in a walk: the walk over the fragment it names. -/
def walkSpread (d : GraphqlDocument)
    (walk : (Option GoString → Except GoString α) → List Selection → Except GoString α)
    (fuel : ℕ) (visiting : List GoString) (spread : Option GoString) : Except GoString α :=
  resolveSpread d visiting spread >>= fun fragment =>
    match fuel with
    | 0 => .error (str "fragment cycle involving " ++ fragment.1)
    | fuel + 1 => walkFragments d walk fuel (fragment.1 :: visiting) fragment.2

theorem walkFragments_eq (fuel : ℕ) (visiting : List GoString) (set : List Selection) :
    walkFragments d walk fuel visiting set = walk (walkSpread d walk fuel visiting) set := by
  rw [walkFragments]
  rfl

/-- **What an answer says**: a property that holds of the answer for a set if it holds of the answers
for the fragments that are spread in it. -/
theorem walkFragments_ok {P : List Selection → α → Prop}
    (hwalk : ∀ spread set a,
      (∀ name a, spread name = .ok a → ∃ m sub, name = some m ∧ resolveIn d m = some sub ∧ P sub a) →
      walk spread set = .ok a → P set a)
    {fuel : ℕ} {set : List Selection} {a : α}
    (h : walkFragments d walk fuel visiting set = .ok a) : P set a := by
  induction fuel generalizing visiting set a with
  | zero =>
    rw [walkFragments_eq] at h
    refine hwalk _ _ _ (fun spread b hb => ?_) h
    obtain ⟨fragment, -, hb⟩ := result_bind_eq_ok.mp hb
    cases hb
  | succ fuel ih =>
    rw [walkFragments_eq] at h
    refine hwalk _ _ _ (fun spread b hb => ?_) h
    obtain ⟨⟨name, sub⟩, hresolve, hsub⟩ := result_bind_eq_ok.mp hb
    obtain ⟨rfl, hlookup, -⟩ := resolveSpread_ok hresolve
    exact ⟨name, sub, rfl, hlookup, ih hsub⟩

/-- A walk that fails has met a spread that is unresolved or being visited, or has failed in a fragment
that was not being visited. -/
theorem walkFragments_error_inv
    (hwalk : ∀ spread set e, walk spread set = .error e →
      ∃ name, SpreadIn name set ∧ spread name = .error e)
    {fuel : ℕ} {set : List Selection} {e : GoString}
    (h : walkFragments d walk fuel visiting set = .error e) :
    ∃ spread, SpreadIn spread set ∧
      ((spread.bind (resolveIn d) = none ∨ ∃ name, spread = some name ∧ name ∈ visiting) ∨
        ∃ name sub, spread = some name ∧ resolveIn d name = some sub ∧ name ∉ visiting ∧
          ∀ fuel', fuel = fuel' + 1 → walkFragments d walk fuel' (name :: visiting) sub = .error e) := by
  rw [walkFragments_eq] at h
  obtain ⟨spread, hs, herror⟩ := hwalk _ _ _ h
  refine ⟨spread, hs, ?_⟩
  obtain hstop | ⟨⟨name, sub⟩, hresolve, hsub⟩ := result_bind_eq_error.mp herror
  · exact .inl (resolveSpread_error hstop)
  · obtain ⟨rfl, hlookup, hvisiting⟩ := resolveSpread_ok hresolve
    refine .inr ⟨name, sub, rfl, hlookup, hvisiting, ?_⟩
    rintro fuel' rfl
    exact hsub

/-- **What an error says**: a spread is reached that is unresolved, is being visited or lies on a
cycle. -/
theorem walkFragments_error
    (hwalk : ∀ spread set e, walk spread set = .error e →
      ∃ name, SpreadIn name set ∧ spread name = .error e)
    {fuel : ℕ} (hfuel : unvisited d visiting.toFinset ≤ fuel) {set : List Selection} {e : GoString}
    (h : walkFragments d walk fuel visiting set = .error e) :
    ∃ spread, Reaches (resolveIn d) set spread ∧ (spread.bind (resolveIn d) = none ∨
      ∃ name, spread = some name ∧ (name ∈ visiting ∨ TransGen (Calls (resolveIn d)) name name)) := by
  induction fuel using Nat.strongRecOn generalizing visiting set e with
  | ind fuel ih =>
    obtain ⟨spread, hs, hstop | ⟨name, sub, rfl, hlookup, hvisiting, hsub⟩⟩ :=
      walkFragments_error_inv hwalk h
    · refine ⟨spread, .spread hs, hstop.imp_right ?_⟩
      exact fun ⟨name, hname, hvisiting⟩ => ⟨name, hname, .inl hvisiting⟩
    -- a fragment that is not being visited is left, and so is fuel
    have hlt := unvisited_insert_lt hlookup (mt List.mem_toFinset.mp hvisiting)
    rw [← List.toFinset_cons] at hlt
    obtain ⟨fuel, rfl⟩ := Nat.exists_eq_add_of_lt (Nat.zero_lt_of_lt (hlt.trans_le hfuel))
    rw [Nat.zero_add] at hsub hfuel ih
    obtain ⟨next, hreach, hnext⟩ := ih fuel (Nat.lt_succ_self _)
      (Nat.le_of_lt_succ (hlt.trans_le hfuel)) (hsub fuel rfl)
    refine ⟨next, hreach.trans hs hlookup, hnext.imp_right ?_⟩
    rintro ⟨n, rfl, hn | hcycle⟩
    · -- the fragment itself is met again, or one that was already being visited
      rcases List.mem_cons.mp hn with rfl | hn
      · exact ⟨n, rfl, .inr (hreach.transGen hlookup rfl)⟩
      · exact ⟨n, rfl, .inl hn⟩
    · exact ⟨n, rfl, .inr hcycle⟩

theorem walkFragments_broken
    (hwalk : ∀ spread set e, walk spread set = .error e →
      ∃ name, SpreadIn name set ∧ spread name = .error e)
    {fuel : ℕ} (hfuel : d.length ≤ fuel) {set : List Selection} {e : GoString}
    (h : walkFragments d walk fuel [] set = .error e) : Broken (resolveIn d) set := by
  obtain ⟨spread, hreach, hnone | ⟨name, rfl, hvisiting | hcycle⟩⟩ :=
    walkFragments_error hwalk ((unvisited_le d _).trans hfuel) h
  · exact .inl ⟨spread, hreach, hnone⟩
  · cases hvisiting
  · exact .inr ⟨name, hreach, hcycle⟩

end Walk

/-! ## The answers for a document -/

section Answers

variable {d : GraphqlDocument} {set : List Selection} {fuel : ℕ}

theorem depth_eq_ok (hfuel : d.length ≤ fuel) {n : ℕ} :
    walkFragments d depthOfSet fuel [] set = .ok n ↔ HasHeight (resolveIn d) set n := by
  have hok : ∀ {n}, walkFragments d depthOfSet fuel [] set = .ok n → HasHeight (resolveIn d) set n :=
    walkFragments_ok fun spread set n hspread h => depthOfSet_ok hspread h
  refine ⟨hok, fun ⟨fs, hfs, hn⟩ => ?_⟩
  cases h : walkFragments d depthOfSet fuel [] set with
  | ok m =>
    obtain ⟨gs, hgs, hm⟩ := hok h
    rw [← hn, ← hm, hfs.unique hgs]
  | error e =>
    exact absurd (walkFragments_broken (fun _ _ _ => depthOfSet_error) hfuel h) hfs.not_broken

theorem depth_eq_error (hfuel : d.length ≤ fuel) :
    (∃ e, walkFragments d depthOfSet fuel [] set = .error e) ↔ Broken (resolveIn d) set := by
  constructor
  · rintro ⟨e, h⟩
    exact walkFragments_broken (fun _ _ _ => depthOfSet_error) hfuel h
  · intro hbroken
    cases h : walkFragments d depthOfSet fuel [] set with
    | ok n =>
      obtain ⟨fs, hfs, -⟩ := (depth_eq_ok hfuel).mp h
      exact absurd hbroken hfs.not_broken
    | error e => exact ⟨e, rfl⟩

theorem introspection_eq_false (hfuel : d.length ≤ fuel) :
    walkFragments d introspectionOfSet fuel [] set = .ok false ↔
      ∃ fs, Expands (resolveIn d) set fs ∧ fs.introspects = false := by
  have hok : ∀ {b}, walkFragments d introspectionOfSet fuel [] set = .ok b →
      Finds (resolveIn d) set b :=
    walkFragments_ok fun spread set b hspread h => introspectionOfSet_ok hspread h
  refine ⟨hok, fun ⟨fs, hfs, hno⟩ => ?_⟩
  cases h : walkFragments d introspectionOfSet fuel [] set with
  | ok b =>
    cases b with
    | false => rfl
    | true => cases hno.symm.trans (hok h fs hfs)
  | error e =>
    exact absurd (walkFragments_broken (fun _ _ _ => introspectionOfSet_error) hfuel h)
      hfs.not_broken

/-- **The depth** is the height of the full expansion. -/
theorem selectionDepth_eq_ok {n : ℕ} :
    selectionDepth d set = .ok n ↔ HasHeight (resolveIn d) set n :=
  depth_eq_ok (Nat.le_refl _)

/-- **No introspection** is found exactly if there is none in the full expansion. -/
theorem hasIntrospection_eq_false :
    hasIntrospection d set = .ok false ↔
      ∃ fs, Expands (resolveIn d) set fs ∧ fs.introspects = false :=
  introspection_eq_false (Nat.le_refl _)

end Answers

end SynitWaf
