import Mathlib.Algebra.Group.Nat.Defs
import Mathlib.Data.Nat.Basic

/-!
# Big-endian bytes

* `ofBytes`: the number that bytes denote, the first one highest;
* `Encodes`: bytes are the encoding of a number at a fixed width; **`encodes_padded`**: zero bytes in
  front of a shorter encoding make it one;
* `shiftIn`: one round of the loop that reads a number into a machine word;
  **`foldl_shiftIn_toInt_eq_iff`**: the loop is right exactly if the number fits.
-/

namespace BigEndian

/-- The number that the bytes denote. -/
def ofBytes (bytes : List UInt8) : ℕ := bytes.foldl (fun n b => 256 * n + b.toNat) 0

/-- The encoding of a number at a fixed width. -/
def Encodes (width n : ℕ) (bytes : List UInt8) : Prop := bytes.length = width ∧ ofBytes bytes = n

theorem ofBytes_zeros_append (k : ℕ) (bytes : List UInt8) :
    ofBytes (List.replicate k 0 ++ bytes) = ofBytes bytes := by
  induction k with
  | zero => rfl
  | succ k ih => exact ih

/-- **Padding with zeros.** -/
theorem encodes_padded {width : ℕ} {bytes : List UInt8} (h : bytes.length ≤ width) :
    Encodes width (ofBytes bytes) (List.replicate (width - bytes.length) 0 ++ bytes) := by
  refine ⟨?_, ofBytes_zeros_append _ bytes⟩
  rw [List.length_append, List.length_replicate]
  omega

section Words

variable {w : ℕ}

/-- `word<<8 | b`. -/
def shiftIn (word : BitVec w) (b : UInt8) : BitVec w := word <<< 8 ||| b.toBitVec.setWidth w

theorem toNat_shiftIn (word : BitVec w) (b : UInt8) :
    (shiftIn word b).toNat = (256 * word.toNat + b.toNat) % 2 ^ w := by
  -- the shifted word and the byte have no bit in common
  have hand : word <<< 8 &&& b.toBitVec.setWidth w = 0#w := by
    ext i hi
    by_cases h : i < 8
    · simp [h]
    · have hbyte : b.toBitVec.getLsbD i = false := BitVec.getLsbD_of_ge _ _ (by omega)
      simp [hbyte]
  rw [shiftIn, ← BitVec.add_eq_or_of_and_eq_zero _ _ hand, BitVec.toNat_add,
    BitVec.toNat_shiftLeft, BitVec.toNat_setWidth, Nat.shiftLeft_eq, UInt8.toNat_toBitVec,
    ← Nat.add_mod, Nat.mul_comm]

theorem toNat_foldl_shiftIn (word : BitVec w) (bytes : List UInt8) (n : ℕ)
    (h : word.toNat = n % 2 ^ w) :
    (bytes.foldl shiftIn word).toNat = bytes.foldl (fun n b => 256 * n + b.toNat) n % 2 ^ w := by
  induction bytes generalizing word n with
  | nil => exact h
  | cons b bytes ih =>
    refine ih (shiftIn word b) (256 * n + b.toNat) ?_
    rw [toNat_shiftIn, h, Nat.add_mod, Nat.mul_mod_mod, ← Nat.add_mod]

theorem toInt_foldl_shiftIn (bytes : List UInt8) :
    (bytes.foldl shiftIn (0 : BitVec w)).toInt = (ofBytes bytes : ℤ).bmod (2 ^ w) := by
  rw [BitVec.toInt_eq_toNat_bmod, toNat_foldl_shiftIn 0 bytes 0 (by simp), Int.natCast_emod,
    Int.emod_bmod]
  rfl

/-- **The loop is right exactly if the number fits** into a signed word. -/
theorem foldl_shiftIn_toInt_eq_iff (hw : 0 < w) (bytes : List UInt8) :
    (bytes.foldl shiftIn (0 : BitVec w)).toInt = ofBytes bytes ↔ ofBytes bytes < 2 ^ (w - 1) := by
  obtain ⟨v, rfl⟩ : ∃ v, w = v + 1 := ⟨w - 1, by omega⟩
  rw [toInt_foldl_shiftIn]
  have hpow : 2 ^ (v + 1) = 2 * 2 ^ v := Nat.pow_succ'
  constructor
  · intro h
    have hlt := Int.bmod_lt (x := (ofBytes bytes : ℤ)) (m := 2 ^ (v + 1)) (Nat.two_pow_pos _)
    rw [h] at hlt
    rw [Nat.add_sub_cancel]
    omega
  · intro h
    rw [Nat.add_sub_cancel] at h
    exact Int.bmod_eq_of_le (by omega) (by omega)

end Words

end BigEndian
