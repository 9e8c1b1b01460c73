import SynitWaf.Go.Strings

/-!
# Go functions that return an error

Such a function gives a value or the text of its error.

* `Result`, `refuse`, `wrapError`, `checkError`, `joinErrors`;
* `throw_if_eq_ok`, `rest_of_optional`: a check that answers at once, and one made under a condition;
* **`forM_eq_ok`**: a loop of checks passes if every one of them does.
-/

namespace Go

variable {α β : Type}

/-- A value, or the text of an error. -/
abbrev Result (α : Type) := Except GoString α

/-- `if c { return errors.New(text) }`. -/
def refuse (c : Prop) [Decidable c] (text : GoString) : Result Unit :=
  if c then .error text else .ok ()

/-- `fmt.Errorf("context%w", err)`, if there is an error. -/
def wrapError (context : GoString) (r : Result α) : Result α := r.mapError (context ++ ·)

/-- `if err != nil { return fmt.Errorf("context%w", err) }`. -/
def checkError (context : GoString) : Option GoString → Result Unit
  | none => .ok ()
  | some e => .error (context ++ e)

/-- The text of `errors.Join` of an error and more of them. -/
def joinErrors (e : GoString) (errs : List GoString) : GoString := join (e :: errs) (byte '\n')

@[simp] theorem refuse_eq_ok {c : Prop} [Decidable c] {text : GoString} {u : Unit} :
    refuse c text = .ok u ↔ ¬ c := by
  unfold refuse
  split <;> simp [*]

theorem wrapError_eq_ok {context : GoString} {r : Result α} {a : α} :
    wrapError context r = .ok a ↔ r = .ok a := by
  cases r with
  | error e => exact iff_of_false nofun nofun
  | ok b => exact Iff.rfl

theorem checkError_eq_ok {context : GoString} {e : Option GoString} {u : Unit} :
    checkError context e = .ok u ↔ e = none := by
  cases e <;> simp [checkError]

theorem result_bind_eq_ok {r : Result α} {f : α → Result β} {b : β} :
    r >>= f = .ok b ↔ ∃ a, r = .ok a ∧ f a = .ok b := by
  cases r with
  | error e => simp [bind, Except.bind]
  | ok a => simp [bind, Except.bind]

theorem result_bind_eq_error {r : Result α} {f : α → Result β} {e : GoString} :
    r >>= f = .error e ↔ r = .error e ∨ ∃ a, r = .ok a ∧ f a = .error e := by
  cases r with
  | error e => simp [bind, Except.bind]
  | ok a => simp [bind, Except.bind]

theorem result_map_eq_error {r : Result α} {f : α → β} {e : GoString} :
    r.map f = .error e ↔ r = .error e := by
  cases r <;> simp [Except.map]

/-- Two results of which neither depends on the other. -/
theorem result_pair_eq_ok {γ : Type} {r : Result α} {r' : Result β} {f : α → β → γ} {c : γ} :
    (do let a ← r; let b ← r'; return f a b) = .ok c ↔ ∃ a b, r = .ok a ∧ r' = .ok b ∧ f a b = c := by
  simp only [result_bind_eq_ok, exists_and_left]
  exact exists_congr fun a => and_congr_right fun _ => exists_congr fun b =>
    and_congr_right fun _ => ⟨Except.ok.inj, congrArg Except.ok⟩

theorem result_pair_eq_error {γ : Type} {r : Result α} {r' : Result β} {f : α → β → γ} {e : GoString}
    (h : (do let a ← r; let b ← r'; return f a b) = .error e) : r = .error e ∨ r' = .error e := by
  obtain h | ⟨a, -, h⟩ := result_bind_eq_error.mp h
  · exact .inl h
  · obtain h | ⟨b, -, h⟩ := result_bind_eq_error.mp h
    · exact .inr h
    · cases h

/-- A check of a function that answers at once when it fails. -/
theorem throw_if_eq_ok {ε : Type} {c : Prop} [Decidable c] {e : ε} {k : Unit → Except ε α} {a : α} :
    (if c then throw e >>= k else k ()) = .ok a ↔ ¬ c ∧ k () = .ok a := by
  split
  next h => exact iff_of_false (fun h => nomatch h) fun hk => hk.1 h
  next h => rw [and_iff_right h]

/-- What follows a check that is made under a condition. -/
theorem rest_of_optional {c : Prop} [Decidable c] {check : Result Unit} {k : Unit → Result α} {a : α}
    (h : (if c then check >>= k else k ()) = .ok a) : k () = .ok a := by
  split at h
  next =>
    obtain ⟨_, -, h⟩ := result_bind_eq_ok.mp h
    exact h
  next => exact h

/-- **A loop of checks** passes if every check does. -/
theorem forM_eq_ok {l : List α} {check : α → Result Unit} :
    forM l check = .ok () ↔ ∀ a ∈ l, check a = .ok () := by
  induction l with
  | nil => simp [pure, Except.pure]
  | cons a l ih =>
    have hunit : (∃ u, check a = .ok u) ↔ check a = .ok () :=
      ⟨fun ⟨_, h⟩ => h, fun h => ⟨(), h⟩⟩
    simp [result_bind_eq_ok, ih, hunit]

end Go
