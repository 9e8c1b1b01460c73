import SynitWaf.Go.Strings

/-!
# Chunks of a long text

`splitLLMText` cuts a text into overlapping chunks on UTF-8 boundaries. On text that is not UTF-8
the loop can find no boundary and stay where it is; the model then has no result.

* `runeStart`, `backTo`, `splitStep`: one round of the loop;
* `splitLoop`, `splitLLMText`;
* **`splitLLMText_chunks`**: the lengths of the chunks.
-/

namespace SynitWaf

open Go

/-- `utf8.RuneStart`. -/
def runeStart (b : UInt8) : Bool := b &&& 0xC0 != 0x80

/-- Is there a boundary at position `i`? The end of the text is one. -/
def boundaryAt (text : GoString) (i : ℕ) : Bool := (text[i]?).all runeStart

/-- Move `i` back to a boundary, but not before `start`. -/
def backTo (text : GoString) (start : ℕ) : ℕ → ℕ
  | 0 => 0
  | i + 1 => if start < i + 1 ∧ boundaryAt text (i + 1) = false then backTo text start i else i + 1

/-- One round of the loop: the end of the chunk that begins at `start`, and the next start. -/
def splitStep (text : GoString) (maxBytes overlap start : ℕ) : ℕ × ℕ :=
  let stop := backTo text start (min (start + maxBytes) text.length)
  let next := backTo text start (stop - overlap)
  (stop, if next ≤ start then stop else next)

/-- The loop of `splitLLMText`, for at most `fuel` rounds. -/
def splitLoop (text : GoString) (maxBytes overlap : ℕ) : ℕ → ℕ → Option (List GoString)
  | 0, _ => none
  | fuel + 1, start =>
    if text.length ≤ start then some []
    else
      let (stop, next) := splitStep text maxBytes overlap start
      let chunk := (text.take stop).drop start
      if stop = text.length then some [chunk]
      else (splitLoop text maxBytes overlap fuel next).map (chunk :: ·)

/-- `llmTextChunkOverlapBytes`. -/
def llmTextChunkOverlapBytes : ℕ := 256

/-- `splitLLMText`; `none` if the loop does not end. -/
def splitLLMText (text : GoString) (maxBytes : ℤ) : Option (List GoString) :=
  if maxBytes ≤ 0 ∨ text.length ≤ maxBytes then some [text]
  else
    splitLoop text maxBytes.toNat (min llmTextChunkOverlapBytes (maxBytes.toNat / 4))
      (text.length + 1) 0

/-! ## Progress -/

theorem le_backTo {text : GoString} {start i : ℕ} (h : start ≤ i) : start ≤ backTo text start i := by
  induction i with
  | zero => exact h
  | succ i ih =>
    unfold backTo
    split
    next hc => exact ih (by omega)
    next => exact h

/-- No round moves the start back. -/
theorem le_splitStep {text : GoString} {maxBytes overlap start : ℕ} (h : start < text.length) :
    start ≤ (splitStep text maxBytes overlap start).2 := by
  have hstop : start ≤ backTo text start (min (start + maxBytes) text.length) := le_backTo (by omega)
  unfold splitStep
  dsimp only
  split <;> omega

theorem backTo_le (text : GoString) (start i : ℕ) : backTo text start i ≤ i := by
  induction i with
  | zero => exact Nat.le_refl 0
  | succ i ih =>
    unfold backTo
    split
    next => omega
    next => exact Nat.le_refl _

theorem splitStep_le (text : GoString) (maxBytes overlap start : ℕ) :
    (splitStep text maxBytes overlap start).2 ≤ text.length := by
  have hstop := backTo_le text start (min (start + maxBytes) text.length)
  have hnext := backTo_le text start
    (backTo text start (min (start + maxBytes) text.length) - overlap)
  unfold splitStep
  dsimp only
  split <;> omega

section Loop

variable {text : GoString} {maxBytes overlap : ℕ}

theorem splitLoop_succ (fuel : ℕ) {start : ℕ} (h : start < text.length)
    (hs : (splitStep text maxBytes overlap start).1 ≠ text.length) :
    splitLoop text maxBytes overlap (fuel + 1) start =
      (splitLoop text maxBytes overlap fuel (splitStep text maxBytes overlap start).2).map
        ((text.take (splitStep text maxBytes overlap start).1).drop start :: ·) := by
  rw [splitLoop, if_neg (by omega)]
  exact if_neg hs

theorem splitLoop_stuck {start : ℕ} (h : start < text.length)
    (hs : (splitStep text maxBytes overlap start).1 ≠ text.length)
    (hsame : (splitStep text maxBytes overlap start).2 = start) (fuel : ℕ) :
    splitLoop text maxBytes overlap fuel start = none := by
  induction fuel with
  | zero => rfl
  | succ fuel ih => rw [splitLoop_succ _ h hs, hsame, ih, Option.map_none]

/-- A round that cuts an empty chunk stays where it is. -/
theorem splitStep_stuck {start : ℕ} (h : (splitStep text maxBytes overlap start).1 = start) :
    (splitStep text maxBytes overlap start).2 = start := by
  have hback := backTo_le text start ((splitStep text maxBytes overlap start).1 - overlap)
  have hnext : (splitStep text maxBytes overlap start).2 =
      if backTo text start ((splitStep text maxBytes overlap start).1 - overlap) ≤ start
      then (splitStep text maxBytes overlap start).1
      else backTo text start ((splitStep text maxBytes overlap start).1 - overlap) := rfl
  rw [hnext, if_pos (by omega), h]

theorem splitLoop_chunks {fuel start : ℕ} {chunks : List GoString}
    (h : splitLoop text maxBytes overlap fuel start = some chunks) :
    ∀ c ∈ chunks, c ≠ [] ∧ c.length ≤ maxBytes := by
  induction fuel generalizing start chunks with
  | zero => cases h
  | succ fuel ih =>
    by_cases hlt : start < text.length
    · have hstart : start ≤ (splitStep text maxBytes overlap start).1 := le_backTo (by omega)
      have hstop : (splitStep text maxBytes overlap start).1 ≤
          min (start + maxBytes) text.length := backTo_le _ _ _
      have hlen : ((text.take (splitStep text maxBytes overlap start).1).drop start).length =
          (splitStep text maxBytes overlap start).1 - start := by
        rw [List.length_drop, List.length_take]
        omega
      by_cases hs : (splitStep text maxBytes overlap start).1 = text.length
      · rw [splitLoop, if_neg (by omega)] at h
        dsimp only at h
        rw [if_pos hs] at h
        obtain rfl := Option.some.inj h
        intro c hc
        obtain rfl := List.mem_singleton.mp hc
        exact ⟨List.length_pos_iff.mp (by omega), by omega⟩
      · have hprogress : start < (splitStep text maxBytes overlap start).1 := by
          refine Nat.lt_of_le_of_ne hstart fun hstuck => ?_
          rw [splitLoop_stuck hlt hs (splitStep_stuck hstuck.symm)] at h
          cases h
        rw [splitLoop_succ _ hlt hs] at h
        obtain ⟨rest, hr, rfl⟩ := Option.map_eq_some_iff.mp h
        rw [List.forall_mem_cons]
        exact ⟨⟨List.length_pos_iff.mp (by omega), by omega⟩, ih hr⟩
    · rw [splitLoop, if_pos (by omega)] at h
      obtain rfl := Option.some.inj h
      simp

theorem splitLoop_ne_nil {start : ℕ} (h : start < text.length) (fuel : ℕ) :
    splitLoop text maxBytes overlap fuel start ≠ some [] := by
  cases fuel with
  | zero => exact fun hnone => nomatch hnone
  | succ fuel =>
    rw [splitLoop, if_neg (by omega)]
    dsimp only
    split <;> simp

end Loop

theorem splitLLMText_ne_nil {text : GoString} {maxBytes : ℤ} {chunks : List GoString}
    (h : splitLLMText text maxBytes = some chunks) : chunks ≠ [] := by
  rintro rfl
  unfold splitLLMText at h
  split at h
  next => cases h
  next hlong => exact splitLoop_ne_nil (by omega) _ h

/-- **The chunks of a text** are at most `maxBytes` long, and only the empty text has an empty
one. -/
theorem splitLLMText_chunks {text : GoString} {maxBytes : ℤ} (hmax : 0 < maxBytes)
    {chunks : List GoString} (h : splitLLMText text maxBytes = some chunks) :
    (∀ c ∈ chunks, (c.length : ℤ) ≤ maxBytes) ∧ ([] ∈ chunks ↔ text = []) := by
  unfold splitLLMText at h
  split at h
  next hshort =>
    obtain rfl := Option.some.inj h
    have hle : (text.length : ℤ) ≤ maxBytes := hshort.resolve_left (by omega)
    simpa [eq_comm] using hle
  next hlong =>
    have hlen : maxBytes < text.length := by omega
    have hchunks := splitLoop_chunks h
    refine ⟨fun c hc => ?_, ?_⟩
    · have := (hchunks c hc).2
      omega
    · refine iff_of_false (fun hmem => (hchunks [] hmem).1 rfl) ?_
      rintro rfl
      simp at hlen
      omega

end SynitWaf
