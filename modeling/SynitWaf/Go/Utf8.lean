import Mathlib.Logic.Basic
import SynitWaf.Go.Strings

/-!
# Package unicode/utf8

* `decodeRuneInString`: the first rune of a string and its width; a byte that starts no encoding is
  `runeError` with width one;
* `Multibyte`: the encodings with more than one byte; **`decodeRune_multibyte`**: what starts above
  ASCII is one of them or an error; `decodeRune_size`: the width of a rune;
* `runes`, `validString`, **`mem_runes`**; `flatMap_bytes_runes`: the runes make up the string;
  **`runes_append_ascii`**: an ASCII character separates what is before it from what is behind it;
* `containsFunc`, **`containsFunc_lt`**.
-/

namespace Go

/-- `utf8.UTFMax`. -/
def utfMax : ℕ := 4

/-- `utf8.RuneError`. -/
def runeError : ℕ := 0xFFFD

/-- The width of an encoding with more than one byte that starts with `b`, and the range of its
second byte. -/
def leadByte (b : UInt8) : Option (ℕ × UInt8 × UInt8) :=
  if b < 0xC2 then none
  else if b < 0xE0 then some (2, 0x80, 0xBF)
  else if b = 0xE0 then some (3, 0xA0, 0xBF)
  else if b = 0xED then some (3, 0x80, 0x9F)
  else if b < 0xF0 then some (3, 0x80, 0xBF)
  else if b = 0xF0 then some (4, 0x90, 0xBF)
  else if b < 0xF4 then some (4, 0x80, 0xBF)
  else if b = 0xF4 then some (4, 0x80, 0x8F)
  else none

/-- Is `b` a byte of the range? -/
def inRange (lo hi b : UInt8) : Bool := lo ≤ b && b ≤ hi

/-- The bits that a byte behind the first one adds to the rune. -/
def tailBits (b : UInt8) : ℕ := b.toNat % 0x40

/-- `utf8.DecodeRuneInString`: the first rune and its width. -/
def decodeRuneInString : GoString → ℕ × ℕ
  | [] => (runeError, 0)
  | b :: s =>
    if b < 0x80 then (b.toNat, 1)
    else
      match leadByte b, s with
      | some (2, lo, hi), b1 :: _ =>
        if inRange lo hi b1 then (b.toNat % 0x20 * 0x40 + tailBits b1, 2) else (runeError, 1)
      | some (3, lo, hi), b1 :: b2 :: _ =>
        if inRange lo hi b1 && inRange 0x80 0xBF b2 then
          ((b.toNat % 0x10 * 0x40 + tailBits b1) * 0x40 + tailBits b2, 3)
        else (runeError, 1)
      | some (4, lo, hi), b1 :: b2 :: b3 :: _ =>
        if inRange lo hi b1 && inRange 0x80 0xBF b2 && inRange 0x80 0xBF b3 then
          (((b.toNat % 0x08 * 0x40 + tailBits b1) * 0x40 + tailBits b2) * 0x40 + tailBits b3, 4)
        else (runeError, 1)
      | _, _ => (runeError, 1)

/-! ## Encodings -/

/-- The ranges of second bytes are above ASCII and below the first bytes, and no encoding of more
than one byte is overlong. -/
theorem leadByte_spec {b lo hi : UInt8} {n : ℕ} (h : leadByte b = some (n, lo, hi)) :
    0x80 ≤ lo.toNat ∧ hi.toNat ≤ 0xBF ∧ (n = 2 ∧ 2 ≤ b.toNat % 0x20 ∨
      n = 3 ∧ (1 ≤ b.toNat % 0x10 ∨ 0xA0 ≤ lo.toNat) ∨
      n = 4 ∧ (1 ≤ b.toNat % 0x08 ∨ 0x90 ≤ lo.toNat)) := by
  have hb := b.toNat_lt
  -- the branches of the definition, as bounds of numbers
  simp only [leadByte, ite_eq_iff, Option.some.injEq, Prod.mk.injEq, UInt8.lt_iff_toNat_lt,
    ← UInt8.toNat_inj, UInt8.reduceToNat, reduceCtorEq, and_false, false_or, or_false] at h
  refine ⟨by omega, by omega, by omega⟩

theorem leadByte_ge {b : UInt8} {lead : ℕ × UInt8 × UInt8} (h : leadByte b = some lead) :
    0xC2 ≤ b :=
  UInt8.not_lt.mp (Option.ite_none_left_eq_some.mp h).1

/-- A byte behind the first one of an encoding. -/
def Trailing (b : UInt8) : Prop := 0x80 ≤ b.toNat ∧ b.toNat ≤ 0xBF

theorem trailing_of_inRange {b : UInt8} (h : inRange 0x80 0xBF b = true) : Trailing b := by
  simp only [inRange, Bool.and_eq_true, decide_eq_true_eq, UInt8.le_iff_toNat_le] at h
  exact h

theorem trailing_second {b lo hi b1 : UInt8} {n : ℕ} (h : leadByte b = some (n, lo, hi))
    (h1 : inRange lo hi b1 = true) : Trailing b1 := by
  obtain ⟨hlo, hhi, -⟩ := leadByte_spec h
  simp only [inRange, Bool.and_eq_true, decide_eq_true_eq, UInt8.le_iff_toNat_le] at h1
  exact ⟨Nat.le_trans hlo h1.1, Nat.le_trans h1.2 hhi⟩

/-- The encodings with more than one byte: the bytes behind the first one, and the rune. -/
inductive Multibyte (b : UInt8) : GoString → ℕ → Prop
  | two {lo hi b1 : UInt8} (lead : leadByte b = some (2, lo, hi)) (h1 : inRange lo hi b1 = true) :
    Multibyte b [b1] (b.toNat % 0x20 * 0x40 + tailBits b1)
  | three {lo hi b1 b2 : UInt8} (lead : leadByte b = some (3, lo, hi))
      (h1 : inRange lo hi b1 = true) (h2 : inRange 0x80 0xBF b2 = true) :
    Multibyte b [b1, b2] ((b.toNat % 0x10 * 0x40 + tailBits b1) * 0x40 + tailBits b2)
  | four {lo hi b1 b2 b3 : UInt8} (lead : leadByte b = some (4, lo, hi))
      (h1 : inRange lo hi b1 = true) (h2 : inRange 0x80 0xBF b2 = true)
      (h3 : inRange 0x80 0xBF b3 = true) :
    Multibyte b [b1, b2, b3]
      (((b.toNat % 0x08 * 0x40 + tailBits b1) * 0x40 + tailBits b2) * 0x40 + tailBits b3)

namespace Multibyte

variable {b : UInt8} {w : GoString} {v : ℕ}

theorem leads (h : Multibyte b w v) : 0xC2 ≤ b := by
  cases h with
  | two lead _ => exact leadByte_ge lead
  | three lead _ _ => exact leadByte_ge lead
  | four lead _ _ _ => exact leadByte_ge lead

theorem length_bounds (h : Multibyte b w v) : 1 ≤ w.length ∧ w.length ≤ 3 := by
  cases h <;> simp

theorem trailing (h : Multibyte b w v) : ∀ c ∈ w, Trailing c := by
  cases h with
  | two lead h1 => simp [trailing_second lead h1]
  | three lead h1 h2 => simp [trailing_second lead h1, trailing_of_inRange h2]
  | four lead h1 h2 h3 =>
    simp [trailing_second lead h1, trailing_of_inRange h2, trailing_of_inRange h3]

/-- No encoding is overlong. -/
theorem value_ge (h : Multibyte b w v) : 0x80 ≤ v := by
  have hsecond {lo hi b1 : UInt8} (h1 : inRange lo hi b1 = true) (hhi : hi.toNat ≤ 0xBF)
      (hlo : 0x90 ≤ lo.toNat) : 0x10 ≤ tailBits b1 := by
    simp only [inRange, Bool.and_eq_true, decide_eq_true_eq, UInt8.le_iff_toNat_le] at h1
    simp only [tailBits]
    omega
  cases h with
  | two lead h1 =>
    have hspec := (leadByte_spec lead).2.2
    omega
  | three lead h1 h2 =>
    obtain ⟨-, hhi, hspec⟩ := leadByte_spec lead
    have := hsecond h1 hhi
    omega
  | four lead h1 h2 h3 =>
    obtain ⟨-, hhi, hspec⟩ := leadByte_spec lead
    have := hsecond h1 hhi
    omega

/-- An encoding is decoded, whatever stands behind it. -/
theorem decode (h : Multibyte b w v) (t : GoString) :
    decodeRuneInString (b :: (w ++ t)) = (v, w.length + 1) := by
  have hb : ¬ b < 0x80 := UInt8.not_lt.mpr (UInt8.le_trans (by decide) h.leads)
  cases h with
  | two lead h1 => simp [decodeRuneInString, hb, lead, h1]
  | three lead h1 h2 => simp [decodeRuneInString, hb, lead, h1, h2]
  | four lead h1 h2 h3 => simp [decodeRuneInString, hb, lead, h1, h2, h3]

end Multibyte

/-- **What starts above ASCII** is an encoding with more than one byte or an error. -/
theorem decodeRune_multibyte {b : UInt8} (hb : ¬ b < 0x80) (s : GoString) :
    decodeRuneInString (b :: s) = (runeError, 1) ∨ ∃ w t v, s = w ++ t ∧ Multibyte b w v := by
  simp only [decodeRuneInString, if_neg hb]
  cases hlead : leadByte b with
  | none => exact .inl rfl
  | some lead =>
    obtain ⟨n, lo, hi⟩ := lead
    match n, s with
    | 0, _ | 1, _ | n + 5, _ => exact .inl rfl
    | 2, [] | 3, [] | 4, [] | 3, [_] | 4, [_] | 4, [_, _] => exact .inl rfl
    | 2, b1 :: t =>
      by_cases hr : inRange lo hi b1 = true
      · exact .inr ⟨[b1], t, _, rfl, .two hlead hr⟩
      · exact .inl (if_neg hr)
    | 3, b1 :: b2 :: t =>
      by_cases hr : (inRange lo hi b1 && inRange 0x80 0xBF b2) = true
      · obtain ⟨h1, h2⟩ := Bool.and_eq_true_iff.mp hr
        exact .inr ⟨[b1, b2], t, _, rfl, .three hlead h1 h2⟩
      · exact .inl (if_neg hr)
    | 4, b1 :: b2 :: b3 :: t =>
      by_cases hr : (inRange lo hi b1 && inRange 0x80 0xBF b2 && inRange 0x80 0xBF b3) = true
      · obtain ⟨h12, h3⟩ := Bool.and_eq_true_iff.mp hr
        obtain ⟨h1, h2⟩ := Bool.and_eq_true_iff.mp h12
        exact .inr ⟨[b1, b2, b3], t, _, rfl, .four hlead h1 h2 h3⟩
      · exact .inl (if_neg hr)

theorem decodeRune_ascii {c : UInt8} (hc : c < 0x80) (s : GoString) :
    decodeRuneInString (c :: s) = (c.toNat, 1) := by
  simp [decodeRuneInString, hc]

/-- The width of the first rune. -/
theorem decodeRune_size {c : UInt8} {s : GoString} : 0 < (decodeRuneInString (c :: s)).2 ∧
    (decodeRuneInString (c :: s)).2 ≤ s.length + 1 := by
  by_cases hc : c < 0x80
  · rw [decodeRune_ascii hc]
    exact ⟨Nat.one_pos, Nat.le_add_left 1 _⟩
  obtain herror | ⟨w, t, v, rfl, h⟩ := decodeRune_multibyte hc s
  · rw [herror]
    exact ⟨Nat.one_pos, Nat.le_add_left 1 _⟩
  · rw [h.decode, List.length_append]
    exact ⟨Nat.succ_pos _, Nat.succ_le_succ (Nat.le_add_right _ _)⟩

theorem decodeRune_size_pos {s : GoString} (h : s ≠ []) : 0 < (decodeRuneInString s).2 := by
  obtain ⟨c, s, rfl⟩ := List.exists_cons_of_ne_nil h
  exact decodeRune_size.1

theorem decodeRune_size_le (s : GoString) : (decodeRuneInString s).2 ≤ s.length := by
  cases s with
  | nil => exact Nat.le_refl 0
  | cons c s => exact decodeRune_size.2

/-! ## Runes of a string -/

/-- A rune of a string and the bytes it has been read from. -/
structure Rune where
  value : ℕ
  bytes : GoString
  deriving DecidableEq

/-- A byte that belongs to no encoding is read as `runeError`. -/
def Rune.invalid (r : Rune) : Prop := r.value = runeError ∧ r.bytes.length = 1

instance (r : Rune) : Decidable r.invalid := inferInstanceAs (Decidable (_ ∧ _))

/-- The rune of an ASCII character. -/
def Rune.ascii (c : UInt8) : Rune := ⟨c.toNat, [c]⟩

/-- The runes of a string of at most `n` runes. -/
def runesLoop : ℕ → GoString → List Rune
  | 0, _ => []
  | _ + 1, [] => []
  | n + 1, c :: s =>
    let rune := decodeRuneInString (c :: s)
    ⟨rune.1, (c :: s).take rune.2⟩ :: runesLoop n ((c :: s).drop rune.2)

/-- The runes a `range` loop over a string visits. -/
def runes (s : GoString) : List Rune := runesLoop s.length s

/-- `utf8.ValidString`. -/
def validString (s : GoString) : Bool := (runes s).all fun r => ¬ r.invalid

theorem runesLoop_eq {n : ℕ} {s : GoString} (h : s.length ≤ n) : runesLoop n s = runes s := by
  induction n using Nat.strongRecOn generalizing s with
  | ind n ih =>
    cases s with
    | nil => cases n <;> rfl
    | cons c s =>
      obtain ⟨n, rfl⟩ : ∃ m, n = m + 1 := ⟨n - 1, by simp at h; omega⟩
      have hpos : 0 < (decodeRuneInString (c :: s)).2 := decodeRune_size_pos (by simp)
      have hdrop : ((c :: s).drop (decodeRuneInString (c :: s)).2).length ≤ s.length := by
        simp only [List.length_drop, List.length_cons]
        omega
      simp only [List.length_cons] at h
      simp only [runes, runesLoop, List.length_cons]
      rw [ih n (by omega) (by omega), ih s.length (by omega) hdrop]

@[simp] theorem runes_nil : runes [] = [] := rfl

theorem runes_cons {s : GoString} (h : s ≠ []) :
    runes s = ⟨(decodeRuneInString s).1, s.take (decodeRuneInString s).2⟩ ::
      runes (s.drop (decodeRuneInString s).2) := by
  obtain ⟨c, s, rfl⟩ := List.exists_cons_of_ne_nil h
  have hpos : 0 < (decodeRuneInString (c :: s)).2 := decodeRune_size_pos (by simp)
  rw [runes, List.length_cons, runesLoop]
  rw [runesLoop_eq (by simp only [List.length_drop, List.length_cons]; omega)]

theorem inRange_ascii {lo hi c : UInt8} (hlo : 0x80 ≤ lo) (hc : c < 0x80) :
    inRange lo hi c = false := by
  simp only [inRange, Bool.and_eq_false_iff, decide_eq_false_iff_not, UInt8.not_le]
  exact .inl (UInt8.lt_of_lt_of_le hc hlo)

/-- An ASCII character ends what comes before it. -/
theorem decodeRune_append_ascii {a b : GoString} {c : UInt8} (ha : a ≠ []) (hc : c < 0x80) :
    decodeRuneInString (a ++ c :: b) = decodeRuneInString a := by
  obtain ⟨x, a, rfl⟩ := List.exists_cons_of_ne_nil ha
  have htail : inRange 0x80 0xBF c = false := inRange_ascii (by decide) hc
  simp only [List.cons_append, decodeRuneInString]
  split
  · rfl
  cases hlead : leadByte x with
  | none => rfl
  | some lead =>
    obtain ⟨n, lo, hi⟩ := lead
    have hsecond : inRange lo hi c = false :=
      inRange_ascii (UInt8.le_iff_toNat_le.mpr (leadByte_spec hlead).1) hc
    match n, a with
    | 0, _ | 1, _ | n + 5, _ => rfl
    | 2, _ :: _ | 3, _ :: _ :: _ | 4, _ :: _ :: _ :: _ => rfl
    -- the encoding is cut short, and `c` is not its next byte
    | 2, [] => simp [hsecond]
    | 3, [] => cases b <;> simp [hsecond]
    | 4, [] => rcases b with _ | ⟨y, _ | ⟨z, b⟩⟩ <;> simp [hsecond]
    | 3, [_] => simp [htail]
    | 4, [_] => cases b <;> simp [htail]
    | 4, [_, _] => simp [htail]

/-- **An ASCII character separates** the runes before it from those behind it. -/
theorem runes_append_ascii (a b : GoString) {c : UInt8} (hc : c < 0x80) :
    runes (a ++ c :: b) = runes a ++ .ascii c :: runes b := by
  induction hn : a.length using Nat.strongRecOn generalizing a with
  | ind n ih =>
    by_cases ha : a = []
    · rw [ha, List.nil_append, runes_cons (by simp), decodeRune_ascii hc]
      rfl
    have hle := decodeRune_size_le a
    have hpos := decodeRune_size_pos ha
    have hlen := List.length_pos_iff.mpr ha
    rw [runes_cons ha, runes_cons (by simp), decodeRune_append_ascii ha hc,
      List.take_append_of_le_length hle, List.drop_append_of_le_length hle,
      ih _ (by rw [List.length_drop]; omega) _ rfl]
    rfl

/-- An encoding with more than one byte is above ASCII. -/
theorem decodeRune_cases {s : GoString} (h : s ≠ []) :
    (∃ c t, s = c :: t ∧ c < 0x80 ∧ decodeRuneInString s = (c.toNat, 1)) ∨
      decodeRuneInString s = (runeError, 1) ∨
      2 ≤ (decodeRuneInString s).2 ∧ ∀ b ∈ s.take (decodeRuneInString s).2, 0x80 ≤ b := by
  obtain ⟨x, t, rfl⟩ := List.exists_cons_of_ne_nil h
  by_cases hx : x < 0x80
  · exact .inl ⟨x, t, rfl, hx, decodeRune_ascii hx t⟩
  obtain herror | ⟨w, t, v, rfl, hm⟩ := decodeRune_multibyte hx t
  · exact .inr (.inl herror)
  have hw := hm.length_bounds
  rw [hm.decode]
  refine .inr (.inr ⟨by omega, ?_⟩)
  rw [List.take_succ_cons, List.take_left]
  exact List.forall_mem_cons.mpr
    ⟨UInt8.not_lt.mp hx, fun c hc => UInt8.le_iff_toNat_le.mpr (hm.trailing c hc).1⟩

/-- **The runes of a string** are ASCII characters, invalid bytes or encodings above ASCII. -/
theorem mem_runes {s : GoString} {r : Rune} (h : r ∈ runes s) :
    (∃ c, c < 0x80 ∧ r = .ascii c) ∨ r.invalid ∨
      2 ≤ r.bytes.length ∧ ∀ b ∈ r.bytes, 0x80 ≤ b := by
  induction hn : s.length using Nat.strongRecOn generalizing s with
  | ind n ih =>
    by_cases hs : s = []
    · rw [hs] at h
      cases h
    have hpos := decodeRune_size_pos hs
    have hle := decodeRune_size_le s
    rw [runes_cons hs] at h
    rcases List.mem_cons.mp h with rfl | h
    · rcases decodeRune_cases hs with ⟨c, t, rfl, hc, hd⟩ | hd | ⟨hw, hall⟩
      · rw [hd]
        exact .inl ⟨c, hc, rfl⟩
      · rw [hd] at hle ⊢
        exact .inr (.inl ⟨rfl, by rw [List.length_take]; omega⟩)
      · exact .inr (.inr ⟨by rw [List.length_take]; omega, hall⟩)
    · exact ih _ (by rw [← hn, List.length_drop]; omega) h rfl

/-- The runes of a string make up the string. -/
theorem flatMap_bytes_runes (s : GoString) : (runes s).flatMap Rune.bytes = s := by
  induction hn : s.length using Nat.strongRecOn generalizing s with
  | ind n ih =>
    by_cases hs : s = []
    · rw [hs]
      rfl
    · have hpos := decodeRune_size_pos hs
      have hle := decodeRune_size_le s
      rw [runes_cons hs, List.flatMap_cons, ih _ (by rw [List.length_drop]; omega) _ rfl]
      exact List.take_append_drop _ s

/-- `bytes.ContainsFunc`. -/
def containsFunc (s : GoString) (f : ℕ → Bool) : Bool := (runes s).any fun r => f r.value

/-- A rune of more than one byte is above ASCII. -/
theorem decodeRune_value {c : UInt8} (hc : ¬ c < 0x80) (s : GoString) :
    0x80 ≤ (decodeRuneInString (c :: s)).1 := by
  obtain herror | ⟨w, t, v, rfl, h⟩ := decodeRune_multibyte hc s
  · rw [herror]
    decide
  · rw [h.decode]
    exact h.value_ge

/-- A rune of ASCII is read from that byte. -/
theorem ascii_of_value_lt {s : GoString} {r : Rune} (h : r ∈ runes s) (hr : r.value < 0x80) :
    ∃ c ∈ s, r = .ascii c := by
  induction hn : s.length using Nat.strongRecOn generalizing s with
  | ind n ih =>
    cases s with
    | nil => cases h
    | cons c s =>
      have hpos : 0 < (decodeRuneInString (c :: s)).2 := decodeRune_size_pos (by simp)
      rw [runes_cons (by simp)] at h
      rcases List.mem_cons.mp h with rfl | h
      · by_cases hc : c < 0x80
        · exact ⟨c, List.mem_cons_self, by rw [decodeRune_ascii hc]; rfl⟩
        · exact absurd hr (Nat.not_lt.mpr (decodeRune_value hc s))
      · obtain ⟨d, hd, rfl⟩ := ih _
          (by rw [← hn, List.length_drop, List.length_cons]; omega) h rfl
        exact ⟨d, List.mem_of_mem_drop hd, rfl⟩

/-- **A range of ASCII** is looked for byte by byte, whether the text is valid or not. -/
theorem containsFunc_lt {s : GoString} {n : ℕ} (hn : n ≤ 0x80) :
    containsFunc s (· < n) = true ↔ ∃ b ∈ s, b.toNat < n := by
  simp only [containsFunc, List.any_eq_true, decide_eq_true_eq]
  constructor
  · rintro ⟨r, hr, hlt⟩
    obtain ⟨c, hc, rfl⟩ := ascii_of_value_lt hr (Nat.lt_of_lt_of_le hlt hn)
    exact ⟨c, hc, hlt⟩
  · rintro ⟨b, hb, hlt⟩
    obtain ⟨a, t, rfl⟩ := List.append_of_mem hb
    have hascii : b < 0x80 := UInt8.lt_iff_toNat_lt.mpr (Nat.lt_of_lt_of_le hlt hn)
    rw [runes_append_ascii a t hascii]
    exact ⟨.ascii b, by simp, hlt⟩

theorem validString_append_ascii (a b : GoString) {c : UInt8} (hc : c < 0x80) :
    validString (a ++ c :: b) = (validString a && validString b) := by
  have hvalid : ¬ (Rune.ascii c).invalid := by
    intro h
    have := UInt8.toNat_lt c
    simp only [Rune.invalid, Rune.ascii, runeError] at h
    omega
  simp [validString, runes_append_ascii a b hc, hvalid]

theorem validString_ascii_append {w : GoString} (hw : ∀ c ∈ w, c < 0x80) (s : GoString) :
    validString (w ++ s) = validString s := by
  induction w with
  | nil => rfl
  | cons c w ih =>
    have hc := validString_append_ascii [] (w ++ s) (hw c List.mem_cons_self)
    rw [List.cons_append]
    refine hc.trans ?_
    rw [ih fun d hd => hw d (List.mem_cons_of_mem _ hd)]
    rfl

example : decodeRuneInString (str "€uro") = (0x20AC, 3) := by decide

example : decodeRuneInString [0xED, 0xA0, 0x80] = (runeError, 1) := by decide

end Go
