import Mathlib.Data.List.Infix
import Mathlib.Data.Nat.Notation

/-!
# Regular expressions with anchors

Concatenations and alternatives of symbols and of the two anchors, searched in a text.

* `Regex`; `ends`: the positions where a match may end; `test`, **`test_iff`**: the search in a text;
* `word`, `anyOf`: literals and alternatives of literals; `mem_ends_word`, `mem_ends_anyOf`;
* **`test_anchored`**: a search for an anchored expression is a match at the beginning.
-/

/-- Regular expressions over the symbols `α`. -/
inductive Regex (α : Type) where
  | empty
  | char (c : α)
  | atBegin
  | atEnd
  | seq (r s : Regex α)
  | alt (r s : Regex α)

namespace Regex

variable {α : Type}

/-- A position in a text: is it the beginning, and what follows? -/
structure Position (α : Type) where
  first : Bool
  rest : List α

/-- The positions of a text behind its beginning. -/
def later : List α → List (Position α)
  | [] => []
  | _ :: text => ⟨false, text⟩ :: later text

theorem mem_later {text : List α} {p : Position α} :
    p ∈ later text ↔ ∃ a c, text = a ++ c :: p.rest ∧ p.first = false := by
  induction text with
  | nil => simp [later]
  | cons x text ih =>
    rw [later, List.mem_cons, ih]
    constructor
    · rintro (rfl | ⟨a, c, rfl, hfirst⟩)
      · exact ⟨[], x, rfl, rfl⟩
      · exact ⟨x :: a, c, rfl, hfirst⟩
    · rintro ⟨a, c, htext, hfirst⟩
      cases a with
      | nil =>
        obtain ⟨-, rfl⟩ := List.cons.inj htext
        obtain ⟨first, rest⟩ := p
        obtain rfl : first = false := hfirst
        exact .inl rfl
      | cons _ a => exact .inr ⟨a, c, (List.cons.inj htext).2, hfirst⟩

theorem isEmpty_concat (a : List α) (c : α) : (a ++ [c]).isEmpty = false := by
  cases a <;> rfl

variable [DecidableEq α]

/-- The positions where a match that starts at the given one may end. -/
def ends : Regex α → Position α → List (Position α)
  | .empty, p => [p]
  | .char c, p =>
    match p.rest with
    | [] => []
    | x :: rest => if x = c then [⟨false, rest⟩] else []
  | .atBegin, p => if p.first then [p] else []
  | .atEnd, p => if p.rest = [] then [p] else []
  | .seq r s, p => (ends r p).flatMap (ends s)
  | .alt r s, p => ends r p ++ ends s p

/-- Is there a match anywhere in the text? -/
def test (r : Regex α) (text : List α) : Bool :=
  (⟨true, text⟩ :: later text).any fun p => !(ends r p).isEmpty

/-- **A search** tries every position of the text. -/
theorem test_iff {r : Regex α} {text : List α} :
    test r text = true ↔ ∃ a b q, text = a ++ b ∧ q ∈ ends r ⟨a.isEmpty, b⟩ := by
  have hany (p : Position α) : (!(ends r p).isEmpty) = true ↔ ∃ q, q ∈ ends r p := by
    rw [Bool.not_eq_true', List.isEmpty_eq_false_iff_exists_mem]
  simp only [test, List.any_cons, Bool.or_eq_true, List.any_eq_true, hany]
  constructor
  · rintro (⟨q, hq⟩ | ⟨p, hp, q, hq⟩)
    · exact ⟨[], text, q, rfl, hq⟩
    · obtain ⟨a, c, rfl, hfirst⟩ := mem_later.mp hp
      obtain ⟨first, rest⟩ := p
      obtain rfl : first = false := hfirst
      exact ⟨a ++ [c], rest, q, by simp, isEmpty_concat a c ▸ hq⟩
  · rintro ⟨a, b, q, rfl, hq⟩
    obtain rfl | ⟨a, c, rfl⟩ := List.eq_nil_or_concat a
    · exact .inl ⟨q, hq⟩
    · rw [List.concat_eq_append, isEmpty_concat] at hq
      exact .inr ⟨⟨false, b⟩, mem_later.mpr ⟨a, c, by simp, rfl⟩, q, hq⟩

section Ends

variable {r s : Regex α} {p q : Position α}

attribute [local simp] ends

@[simp] theorem mem_ends_empty : q ∈ ends (.empty : Regex α) p ↔ q = p := by
  simp

@[simp] theorem mem_ends_char {c : α} :
    q ∈ ends (.char c) p ↔ p.rest = c :: q.rest ∧ q.first = false := by
  obtain ⟨first, rest⟩ := p
  obtain ⟨first', rest'⟩ := q
  cases rest with
  | nil => simp
  | cons x rest =>
    by_cases hx : x = c
    · simp [hx, and_comm, eq_comm]
    · simp [hx]

@[simp] theorem mem_ends_atBegin : q ∈ ends (.atBegin : Regex α) p ↔ q = p ∧ p.first = true := by
  simp only [ends]
  split <;> simp_all

@[simp] theorem mem_ends_atEnd : q ∈ ends (.atEnd : Regex α) p ↔ q = p ∧ p.rest = [] := by
  simp only [ends]
  split <;> simp_all

@[simp] theorem mem_ends_seq : q ∈ ends (.seq r s) p ↔ ∃ m ∈ ends r p, q ∈ ends s m := by
  simp

@[simp] theorem mem_ends_alt : q ∈ ends (.alt r s) p ↔ q ∈ ends r p ∨ q ∈ ends s p := by
  simp

end Ends

/-! ## Literals -/

/-- An expression followed by a literal. -/
def word (r : Regex α) (w : List α) : Regex α := w.foldl (fun r c => .seq r (.char c)) r

/-- An expression or one of several literals. -/
def anyOf (r : Regex α) (ws : List (List α)) : Regex α :=
  ws.foldl (fun r w => .alt r (word .empty w)) r

theorem mem_ends_word {r : Regex α} {w : List α} {p q : Position α} :
    q ∈ ends (word r w) p ↔
      ∃ m ∈ ends r p, m.rest = w ++ q.rest ∧ q.first = (m.first && w.isEmpty) := by
  induction w generalizing r with
  | nil =>
    constructor
    · exact fun hq => ⟨q, hq, rfl, by simp⟩
    · rintro ⟨⟨first, rest⟩, hm, hrest, hfirst⟩
      obtain ⟨first', rest'⟩ := q
      simp only [List.nil_append, List.isEmpty_nil, Bool.and_true] at hrest hfirst
      rwa [hrest, ← hfirst] at hm
  | cons c w ih =>
    change q ∈ ends (word (.seq r (.char c)) w) p ↔ _
    rw [ih]
    constructor
    · rintro ⟨m, hm, hrest, hfirst⟩
      obtain ⟨n, hn, hc⟩ := mem_ends_seq.mp hm
      rw [mem_ends_char, hrest] at hc
      exact ⟨n, hn, hc.1, by simp [hfirst, hc.2]⟩
    · rintro ⟨n, hn, hrest, hfirst⟩
      refine ⟨⟨false, w ++ q.rest⟩, mem_ends_seq.mpr ⟨n, hn, ?_⟩, rfl, by simpa using hfirst⟩
      exact mem_ends_char.mpr ⟨hrest, rfl⟩

theorem mem_ends_anyOf {r : Regex α} {ws : List (List α)} {p q : Position α} :
    q ∈ ends (anyOf r ws) p ↔ q ∈ ends r p ∨ ∃ w ∈ ws, q ∈ ends (word .empty w) p := by
  induction ws generalizing r with
  | nil => simp [anyOf]
  | cons w ws ih =>
    change q ∈ ends (anyOf (.alt r (word .empty w)) ws) p ↔ _
    rw [ih, mem_ends_alt, or_assoc]
    simp

theorem mem_ends_words {w : List α} {ws : List (List α)} {p q : Position α} :
    q ∈ ends (anyOf (word .empty w) ws) p ↔
      ∃ v ∈ w :: ws, p.rest = v ++ q.rest ∧ q.first = (p.first && v.isEmpty) := by
  simp [mem_ends_anyOf, mem_ends_word]

theorem mem_ends_anyChar {r : Regex α} {cs : List α} {p q : Position α} :
    q ∈ ends (anyOf r (cs.map ([·]))) p ↔
      q ∈ ends r p ∨ ∃ c ∈ cs, p.rest = c :: q.rest ∧ q.first = false := by
  simp [mem_ends_anyOf, mem_ends_word]

/-! ## Anchored expressions -/

/-- The expression matches at the beginning of a text only. -/
def Anchored (r : Regex α) : Prop := ∀ p, p.first = false → ends r p = []

theorem anchored_atBegin : Anchored (.atBegin : Regex α) := by
  intro p hp
  simp [ends, hp]

theorem Anchored.seq {r s : Regex α} (h : Anchored r) : Anchored (.seq r s) := by
  intro p hp
  simp [ends, h p hp]

theorem anchored_empty_seq {s : Regex α} (h : Anchored s) : Anchored (.seq .empty s) := by
  intro p hp
  simp [ends, h p hp]

/-- **An anchored expression** is found in a text exactly if it matches at the beginning. -/
theorem test_anchored {r : Regex α} (h : Anchored r) (text : List α) :
    test r text = true ↔ ∃ q, q ∈ ends r ⟨true, text⟩ := by
  rw [test_iff]
  constructor
  · rintro ⟨a, b, q, rfl, hq⟩
    cases a with
    | nil => exact ⟨q, hq⟩
    | cons c a =>
      rw [h ⟨(c :: a).isEmpty, b⟩ rfl] at hq
      cases hq
  · rintro ⟨q, hq⟩
    exact ⟨[], text, q, rfl, hq⟩

end Regex
