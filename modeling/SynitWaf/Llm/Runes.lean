import SynitWaf.Go.Utf8
import SynitWaf.Llm.Chunks

/-!
# Cutting valid text

A valid text is a sequence of encodings, and a byte is the first one of an encoding exactly if
`runeStart` says so. Cut at such a byte, both parts are valid.

* `IsRune`: the encoding of one rune; **`validString_rec`**: induction over the runes of a text;
* **`validString_cut`**: the parts of a text cut at a boundary; `boundaryAt_of_validString_drop`:
  there is no other way to cut it;
* `exists_runeAt`: every byte belongs to a rune that starts at most three bytes before it.
-/

namespace SynitWaf

open Go

/-! ## The bytes of one encoding -/

/-- A byte that is not the first one of an encoding. -/
theorem runeStart_eq_false {b : UInt8} : runeStart b = false ↔ 0x80 ≤ b ∧ b ≤ 0xBF := by
  have hall : ∀ n : Fin 256, runeStart (UInt8.ofNat n) = false ↔
      0x80 ≤ UInt8.ofNat n ∧ UInt8.ofNat n ≤ 0xBF := by decide +kernel
  simpa using hall ⟨b.toNat, b.toNat_lt⟩

/-- The encoding of one rune, whatever stands behind it. -/
structure IsRune (w : GoString) : Prop where
  width : w.length ≤ utfMax
  decode : ∀ t, decodeRuneInString (w ++ t) ≠ (runeError, 1) ∧
    (decodeRuneInString (w ++ t)).2 = w.length
  start : ∃ b w', w = b :: w' ∧ runeStart b = true ∧ ∀ c ∈ w', runeStart c = false

theorem IsRune.length_pos {w : GoString} (h : IsRune w) : 0 < w.length := by
  obtain ⟨b, w', rfl, -⟩ := h.start
  exact Nat.succ_pos _

theorem isRune_ascii {c : UInt8} (hc : c < 0x80) : IsRune [c] where
  width := (by decide : 1 ≤ utfMax)
  decode t := by
    have hlt : c.toNat < 0x80 := UInt8.lt_iff_toNat_lt.mp hc
    rw [List.singleton_append, decodeRune_ascii hc]
    refine ⟨fun h => ?_, rfl⟩
    have hvalue : c.toNat = runeError := congrArg Prod.fst h
    rw [runeError] at hvalue
    omega
  start := by
    refine ⟨c, [], rfl, ?_, by simp⟩
    rw [← Bool.not_eq_false, runeStart_eq_false]
    exact fun h => UInt8.not_le.mpr hc h.1

/-- What is decoded without an error is an encoding. -/
theorem isRune_of_decode {s : GoString} (hs : s ≠ []) (hv : decodeRuneInString s ≠ (runeError, 1)) :
    IsRune (s.take (decodeRuneInString s).2) := by
  obtain ⟨x, t, rfl⟩ := List.exists_cons_of_ne_nil hs
  by_cases hx : x < 0x80
  · rw [decodeRune_ascii hx]
    exact isRune_ascii hx
  obtain herror | ⟨w, t, v, rfl, h⟩ := decodeRune_multibyte hx t
  · exact absurd herror hv
  obtain ⟨hlo, hhi⟩ := h.length_bounds
  rw [h.decode, List.take_succ_cons, List.take_left]
  refine ⟨?_, fun t' => ?_, x, w, rfl, ?_, fun c hc => ?_⟩
  · rw [List.length_cons, utfMax]
    omega
  · rw [List.cons_append, h.decode]
    refine ⟨fun herror => ?_, rfl⟩
    have hwidth : w.length + 1 = 1 := congrArg Prod.snd herror
    omega
  · rw [← Bool.not_eq_false, runeStart_eq_false, not_and, UInt8.not_le]
    exact fun _ => UInt8.lt_of_lt_of_le (by decide) h.leads
  · obtain ⟨hc₁, hc₂⟩ := h.trailing c hc
    exact runeStart_eq_false.mpr ⟨UInt8.le_iff_toNat_le.mpr hc₁, UInt8.le_iff_toNat_le.mpr hc₂⟩

/-! ## Valid text -/

@[simp] theorem validString_nil : validString [] = true := rfl

theorem validString_append_rune {w : GoString} (hw : IsRune w) (t : GoString) :
    validString (w ++ t) = validString t := by
  have hne : w ++ t ≠ [] := List.append_ne_nil_of_left_ne_nil (List.length_pos_iff.mp hw.length_pos) t
  obtain ⟨hdecode, hwidth⟩ := hw.decode t
  have hvalid : ¬ (⟨(decodeRuneInString (w ++ t)).1, w⟩ : Rune).invalid :=
    fun h => hdecode (Prod.ext h.1 (hwidth.trans h.2))
  simp [validString, runes_cons hne, hwidth, hvalid]

theorem validString_uncons {s : GoString} (hs : s ≠ []) (hv : validString s = true) :
    IsRune (s.take (decodeRuneInString s).2) ∧
      validString (s.drop (decodeRuneInString s).2) = true := by
  have hle := decodeRune_size_le s
  rw [validString, runes_cons hs, List.all_cons, Bool.and_eq_true, decide_eq_true_eq] at hv
  refine ⟨isRune_of_decode hs fun herr => hv.1 ⟨congrArg Prod.fst herr, ?_⟩, hv.2⟩
  rw [List.length_take, herr]
  rw [herr] at hle
  exact Nat.min_eq_left hle

/-- **Induction over the runes** of a valid text. -/
@[elab_as_elim] theorem validString_rec {motive : (s : GoString) → validString s = true → Prop}
    (nil : motive [] validString_nil)
    (rune : ∀ w t (hw : IsRune w) (ht : validString t = true), motive t ht →
      motive (w ++ t) ((validString_append_rune hw t).trans ht))
    {s : GoString} (hv : validString s = true) : motive s hv := by
  induction hn : s.length using Nat.strongRecOn generalizing s with
  | ind n ih =>
    by_cases hs : s = []
    · subst hs
      exact nil
    have hpos := decodeRune_size_pos hs
    have hlen := List.length_pos_iff.mpr hs
    obtain ⟨hw, ht⟩ := validString_uncons hs hv
    have hrest := ih _ (by rw [List.length_drop]; omega) ht rfl
    have hstep := rune _ _ hw ht hrest
    simpa only [List.take_append_drop] using hstep

/-! ## Boundaries -/

theorem boundaryAt_append_right {w t : GoString} {i : ℕ} (h : w.length ≤ i) :
    boundaryAt (w ++ t) i = boundaryAt t (i - w.length) := by
  rw [boundaryAt, boundaryAt, List.getElem?_append_right h]

theorem IsRune.boundaryAt_iff {w : GoString} (hw : IsRune w) (t : GoString) {i : ℕ}
    (hi : i < w.length) : boundaryAt (w ++ t) i = true ↔ i = 0 := by
  obtain ⟨b, w', rfl, hb, htail⟩ := hw.start
  rw [boundaryAt, List.getElem?_append_left hi]
  cases i with
  | zero => simpa using hb
  | succ i =>
    have hi' : i < w'.length := Nat.lt_of_succ_lt_succ hi
    have := htail _ (List.getElem_mem hi')
    simpa [List.getElem?_eq_getElem hi'] using this

/-- A valid text starts with the first byte of an encoding. -/
theorem boundaryAt_zero {s : GoString} (hv : validString s = true) : boundaryAt s 0 = true := by
  induction hv using validString_rec with
  | nil => rfl
  | rune w t hw _ _ => exact (hw.boundaryAt_iff t hw.length_pos).mpr rfl

/-- **A cut at a boundary** leaves valid text on both sides. -/
theorem validString_cut {s : GoString} (hv : validString s = true) {i : ℕ}
    (hi : boundaryAt s i = true) :
    validString (s.take i) = true ∧ validString (s.drop i) = true := by
  induction hv using validString_rec generalizing i with
  | nil => simp
  | rune w t hw ht ih =>
    by_cases hlt : i < w.length
    · obtain rfl := (hw.boundaryAt_iff t hlt).mp hi
      exact ⟨rfl, (validString_append_rune hw t).trans ht⟩
    have hle : w.length ≤ i := Nat.not_lt.mp hlt
    rw [boundaryAt_append_right hle] at hi
    obtain ⟨htake, hdrop⟩ := ih hi
    rw [List.take_append, List.take_of_length_le hle, List.drop_append, List.drop_of_length_le hle]
    exact ⟨(validString_append_rune hw _).trans htake, hdrop⟩

/-- There is no other way to cut a text into valid parts. -/
theorem boundaryAt_of_validString_drop {s : GoString} {i : ℕ}
    (hv : validString (s.drop i) = true) : boundaryAt s i = true := by
  have := boundaryAt_zero hv
  rwa [boundaryAt, List.getElem?_drop, Nat.add_zero] at this

/-- The bytes between two boundaries are valid text. -/
theorem validString_between {s : GoString} (hv : validString s = true) {i j : ℕ}
    (hi : boundaryAt s i = true) (hj : boundaryAt s j = true) :
    validString ((s.take j).drop i) = true := by
  by_cases hij : i < j
  · refine (validString_cut (validString_cut hv hj).1 ?_).2
    rwa [boundaryAt, List.getElem?_take_of_lt hij]
  · rw [List.drop_of_length_le (by rw [List.length_take]; omega)]
    rfl

/-- The rune that begins at a boundary ends at one. -/
theorem boundaryAt_next {s : GoString} (hv : validString s = true) {i : ℕ}
    (hi : boundaryAt s i = true) :
    boundaryAt s (i + (decodeRuneInString (s.drop i)).2) = true := by
  by_cases hend : s.drop i = []
  · rwa [hend]
  have hrest := (validString_uncons hend (validString_cut hv hi).2).2
  rw [List.drop_drop] at hrest
  exact boundaryAt_of_validString_drop hrest

/-- There is no boundary inside the first rune. -/
theorem boundaryAt_inside {s : GoString} (hv : validString s = true) {i : ℕ} (hpos : 0 < i)
    (hi : i < (decodeRuneInString s).2) : boundaryAt s i = false := by
  have hs : s ≠ [] := by
    rintro rfl
    exact absurd hi (Nat.not_lt_zero i)
  have hw := (validString_uncons hs hv).1
  have hlen : (s.take (decodeRuneInString s).2).length = (decodeRuneInString s).2 :=
    List.length_take_of_le (decodeRune_size_le s)
  have hiff := hw.boundaryAt_iff (s.drop (decodeRuneInString s).2) (i := i) (by omega)
  rw [List.take_append_drop] at hiff
  rw [← Bool.not_eq_true, hiff]
  omega

/-- Every byte of a valid text belongs to a rune. -/
theorem exists_runeAt {s : GoString} (hv : validString s = true) {i : ℕ} (hi : i < s.length) :
    ∃ j, j ≤ i ∧ i < j + (decodeRuneInString (s.drop j)).2 ∧ i < j + utfMax ∧
      boundaryAt s j = true ∧ ∀ k, j < k → k ≤ i → boundaryAt s k = false := by
  induction hv using validString_rec generalizing i with
  | nil => exact absurd hi (Nat.not_lt_zero i)
  | rune w t hw ht ih =>
    by_cases hlt : i < w.length
    · have hwidth := hw.width
      refine ⟨0, Nat.zero_le i, ?_, by omega, (hw.boundaryAt_iff t hw.length_pos).mpr rfl, ?_⟩
      · rw [List.drop_zero, (hw.decode t).2]
        omega
      · intro k hk hki
        rw [← Bool.not_eq_true, hw.boundaryAt_iff t (by omega)]
        omega
    · rw [List.length_append] at hi
      obtain ⟨j, hji, hrune, hmax, hj, hbetween⟩ := ih (i := i - w.length) (by omega)
      refine ⟨w.length + j, by omega, ?_, by omega, ?_, fun k hk hki => ?_⟩
      · rw [List.drop_append, List.drop_of_length_le (by omega), Nat.add_sub_cancel_left]
        simp only [List.nil_append]
        omega
      · rwa [boundaryAt_append_right (by omega), Nat.add_sub_cancel_left]
      · rw [boundaryAt_append_right (by omega)]
        exact hbetween _ (by omega) (by omega)

end SynitWaf
