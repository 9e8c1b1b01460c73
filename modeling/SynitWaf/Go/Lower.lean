import SynitWaf.Go.Utf8

/-!
# Lower case and white space

`strings.ToLower` replaces every rune by its lower case, and `strings.TrimSpace` removes the runes of
white space at both ends.

* `Encoded`: the encoding of a rune; `Encoded.eq_of_suffix`: none is the end of another one;
* `isSpace`, `CaseTable`, **`CaseTable.toLower`**;
* `toLower_append_ascii`: an ASCII character separates what is before it from what is behind it;
  `toLower_lowerASCII`: the case of ASCII letters does not matter; `mem_toLower`: separators in lower
  case were there before;
* **`trimSpace_blanks`**, **`trimSpace_separator`**: what is removed.
-/

namespace Go

/-! ## Encodings -/

/-- The encodings of a rune. -/
inductive Encoded : GoString → ℕ → Prop
  | ascii {c : UInt8} : c < 0x80 → Encoded [c] c.toNat
  | multibyte {b : UInt8} {w : GoString} {v : ℕ} : Multibyte b w v → Encoded (b :: w) v

namespace Encoded

variable {e w t : GoString} {u v : ℕ}

theorem ne_nil (h : Encoded e v) : e ≠ [] := by
  cases h <;> simp

theorem decode (h : Encoded e v) (t : GoString) : decodeRuneInString (e ++ t) = (v, e.length) := by
  cases h with
  | ascii hc => exact decodeRune_ascii hc t
  | multibyte hm => exact hm.decode t

/-- The first byte of an encoding is none that stands behind the first one. -/
theorem head_not_trailing (h : Encoded e v) :
    ∃ b s, e = b :: s ∧ ¬ Trailing b ∧ ∀ c ∈ s, Trailing c := by
  cases h with
  | @ascii c hc =>
    refine ⟨c, [], rfl, fun ht => ?_, nofun⟩
    exact absurd ht.1 (Nat.not_le.mpr (UInt8.lt_iff_toNat_lt.mp hc))
  | @multibyte b w _ hm =>
    refine ⟨b, w, rfl, fun ht => ?_, hm.trailing⟩
    have hlead := UInt8.le_iff_toNat_le.mp hm.leads
    exact absurd (Nat.le_trans hlead ht.2) (by decide)

theorem eq_of_suffix_of_encoded (he : Encoded e v) (hw : Encoded w u) (h : w <:+ e) : w = e := by
  obtain ⟨x, rfl⟩ := h
  obtain ⟨b, s, hbs, -, hs⟩ := he.head_not_trailing
  obtain ⟨b', s', rfl, hb', -⟩ := hw.head_not_trailing
  cases x with
  | nil => rfl
  | cons y x =>
    obtain ⟨-, rfl⟩ := List.cons.inj hbs
    exact absurd (hs b' (by simp)) hb'

/-- **No encoding is the end** of another one. -/
theorem eq_of_suffix (he : Encoded e v) (hw : Encoded w u) (h : w <:+ t ++ e) : w = e := by
  obtain h | h := List.suffix_or_suffix_of_suffix h (List.suffix_append t e)
  · exact eq_of_suffix_of_encoded he hw h
  · exact (eq_of_suffix_of_encoded hw he h).symm

end Encoded

/-! ## Lower case -/

theorem toNat_lowerByte (c : UInt8) :
    (lowerByte c).toNat = if 65 ≤ c.toNat ∧ c.toNat ≤ 90 then c.toNat + 32 else c.toNat := by
  have hletter : (byte 'A' ≤ c ∧ c ≤ byte 'Z') ↔ (65 ≤ c.toNat ∧ c.toNat ≤ 90) := by
    simp only [UInt8.le_iff_toNat_le]
    rfl
  unfold lowerByte
  by_cases h : 65 ≤ c.toNat ∧ c.toNat ≤ 90
  · rw [if_pos (hletter.mpr h), if_pos h, UInt8.toNat_add]
    have hmod : (c.toNat + 32) % 2 ^ 8 = c.toNat + 32 := by omega
    exact hmod
  · rw [if_neg (mt hletter.mp h), if_neg h]

/-- The letters of ASCII in lower case. -/
def IsLetter (c : UInt8) : Prop := 97 ≤ c.toNat ∧ c.toNat ≤ 122

instance : DecidablePred IsLetter := fun c =>
  inferInstanceAs (Decidable (97 ≤ c.toNat ∧ c.toNat ≤ 122))

theorem lowerByte_lt {c : UInt8} (hc : c < 0x80) : lowerByte c < 0x80 := by
  have hlower := toNat_lowerByte c
  have hlt : c.toNat < 0x80 := UInt8.lt_iff_toNat_lt.mp hc
  refine UInt8.lt_iff_toNat_lt.mpr (show (lowerByte c).toNat < 0x80 from ?_)
  split at hlower <;> omega

/-- A byte changes only if it becomes a letter. -/
theorem lowerByte_of_not_letter {c : UInt8} (h : ¬ IsLetter (lowerByte c)) : lowerByte c = c := by
  have hlower := toNat_lowerByte c
  unfold IsLetter at h
  rw [← UInt8.toNat_inj]
  split at hlower <;> omega

theorem lowerByte_trailing {c : UInt8} (h : 0x80 ≤ (lowerByte c).toNat) : lowerByte c = c :=
  lowerByte_of_not_letter fun hletter => absurd (Nat.le_trans h hletter.2) (by decide)

theorem lowerByte_of_trailing {c : UInt8} (h : 0x80 ≤ c.toNat) : lowerByte c = c := by
  refine lowerByte_trailing ?_
  rw [toNat_lowerByte, if_neg (fun hletter => absurd (Nat.le_trans h hletter.2) (by decide))]
  exact h

theorem lowerByte_lowerByte (c : UInt8) : lowerByte (lowerByte c) = lowerByte c := by
  have hlower := toNat_lowerByte c
  have htwice := toNat_lowerByte (lowerByte c)
  rw [← UInt8.toNat_inj]
  split at hlower <;> split at htwice <;> omega

/-- `unicode.IsSpace`. -/
def isSpace (v : ℕ) : Bool := v ∈ spaces.map fun w => (decodeRuneInString w).1

theorem isSpace_bounds {v : ℕ} (h : isSpace v = true) : v ≤ 0x20 ∨ 0x85 ≤ v := by
  have hvalues : ∀ v ∈ spaces.map fun w => (decodeRuneInString w).1, v ≤ 0x20 ∨ 0x85 ≤ v := by
    decide +kernel
  exact hvalues v (of_decide_eq_true h)

theorem IsLetter.not_space {c : UInt8} (h : IsLetter c) : isSpace c.toNat = false := by
  refine Bool.eq_false_iff.mpr fun hspace => ?_
  have hbounds := isSpace_bounds hspace
  unfold IsLetter at h
  omega

/-- The runes above ASCII in lower case, encoded. They are letters of ASCII or runes above it, and no
letter becomes white space. -/
structure CaseTable where
  lower : ℕ → GoString
  lower_encoded : ∀ v, 0x80 ≤ v → (∃ c, IsLetter c ∧ lower v = [c]) ∨
    ∃ b w u, lower v = b :: w ∧ Multibyte b w u ∧ (isSpace u = true → isSpace v = true)

namespace CaseTable

variable (table : CaseTable)

/-- A rune in lower case. -/
def lowerRune (r : Rune) : GoString := if r.value < 0x80 then lowerASCII r.bytes else table.lower r.value

/-- `strings.ToLower`; a byte that belongs to no encoding becomes the one of `runeError`. -/
def toLower (s : GoString) : GoString := (runes s).flatMap table.lowerRune

variable {table} {s : GoString}

@[simp] theorem toLower_nil : table.toLower [] = [] := rfl

theorem lowerRune_ascii {c : UInt8} (hc : c < 0x80) : table.lowerRune (.ascii c) = [lowerByte c] := by
  have hlt : (Rune.ascii c).value < 0x80 := UInt8.lt_iff_toNat_lt.mp hc
  rw [lowerRune, if_pos hlt]
  rfl

/-- **An ASCII character separates** what is before it from what is behind it. -/
theorem toLower_append_ascii (a b : GoString) {c : UInt8} (hc : c < 0x80) :
    table.toLower (a ++ c :: b) = table.toLower a ++ lowerByte c :: table.toLower b := by
  rw [toLower, runes_append_ascii a b hc, List.flatMap_append, List.flatMap_cons, lowerRune_ascii hc]
  rfl

theorem toLower_cons_ascii (b : GoString) {c : UInt8} (hc : c < 0x80) :
    table.toLower (c :: b) = lowerByte c :: table.toLower b := toLower_append_ascii [] b hc

/-- A rune above ASCII and the rest of the string. -/
theorem toLower_of_decode {c : UInt8} {v : ℕ} (hc : ¬ c < 0x80) (w t : GoString)
    (h : decodeRuneInString (c :: (w ++ t)) = (v, w.length + 1)) :
    table.toLower (c :: (w ++ t)) = table.lower v ++ table.toLower t := by
  have hv : ¬ v < 0x80 := by
    have hvalue := decodeRune_value hc (w ++ t)
    rw [h] at hvalue
    exact Nat.not_lt.mpr hvalue
  rw [toLower, runes_cons (List.cons_ne_nil _ _), List.flatMap_cons, h, lowerRune, if_neg hv]
  simp [toLower]

theorem lowerASCII_of_trailing {w : GoString} (hw : ∀ c ∈ w, Trailing c) : lowerASCII w = w :=
  List.map_congr_left (fun c hc => lowerByte_of_trailing (hw c hc).1) |>.trans (List.map_id w)

theorem eq_of_lowerASCII_trailing {x w : GoString} (h : lowerASCII x = w)
    (hw : ∀ c ∈ w, Trailing c) : x = w := by
  subst h
  refine ((List.map_congr_left fun c hc => ?_).trans (List.map_id x)).symm
  exact lowerByte_trailing (hw _ (List.mem_map_of_mem hc)).1

/-- **The case of ASCII letters** does not matter. -/
theorem toLower_lowerASCII (s : GoString) : table.toLower (lowerASCII s) = table.toLower s := by
  induction hn : s.length using Nat.strongRecOn generalizing s with
  | ind n ih =>
    cases s with
    | nil => rfl
    | cons c t =>
      rw [List.length_cons] at hn
      by_cases hc : c < 0x80
      · change table.toLower (lowerByte c :: lowerASCII t) = _
        rw [toLower_cons_ascii _ (lowerByte_lt hc), toLower_cons_ascii _ hc, lowerByte_lowerByte,
          ih t.length (by omega) t rfl]
      have hbyte : lowerByte c = c :=
        lowerByte_of_trailing (UInt8.le_iff_toNat_le.mp (UInt8.not_lt.mp hc))
      have hcons : lowerASCII (c :: t) = c :: lowerASCII t := congrArg (· :: lowerASCII t) hbyte
      rw [hcons]
      obtain herror | ⟨w, u, v, rfl, hm⟩ := decodeRune_multibyte hc t
      · -- bytes that are no encoding are none in lower case either
        have herror' : decodeRuneInString (c :: lowerASCII t) = (runeError, 1) := by
          obtain herror' | ⟨w, u, v, hlower, hm⟩ := decodeRune_multibyte hc (lowerASCII t)
          · exact herror'
          obtain ⟨w', u', rfl, hw', -⟩ := List.map_eq_append_iff.mp hlower
          obtain rfl := eq_of_lowerASCII_trailing hw' hm.trailing
          have hdecode := hm.decode u'
          rw [herror] at hdecode
          have hlen := hm.length_bounds
          have hwidth : 1 = w'.length + 1 := congrArg Prod.snd hdecode
          omega
        have hstep : table.toLower (c :: t) = table.lower runeError ++ table.toLower t :=
          toLower_of_decode hc [] t herror
        have hstep' : table.toLower (c :: lowerASCII t) =
            table.lower runeError ++ table.toLower (lowerASCII t) := toLower_of_decode hc [] _ herror'
        rw [hstep, hstep', ih t.length (by omega) t rfl]
      · have hlower : lowerASCII (w ++ u) = w ++ lowerASCII u := by
          rw [lowerASCII, List.map_append]
          exact congrArg (· ++ _) (lowerASCII_of_trailing hm.trailing)
        rw [List.length_append] at hn
        rw [hlower, toLower_of_decode hc w _ (hm.decode _), toLower_of_decode hc w u (hm.decode u),
          ih u.length (by omega) u rfl]

/-- A rune in lower case: an encoding, and white space only if the rune is. -/
theorem lowerRune_encoded {r : Rune} (h : r ∈ runes s) :
    ∃ u, Encoded (table.lowerRune r) u ∧ (isSpace u = true → isSpace r.value = true) := by
  by_cases hr : r.value < 0x80
  · obtain ⟨c, -, rfl⟩ := ascii_of_value_lt h hr
    have hc : c < 0x80 := UInt8.lt_iff_toNat_lt.mpr hr
    rw [lowerRune_ascii hc]
    refine ⟨_, .ascii (lowerByte_lt hc), fun hspace => ?_⟩
    have hletter : ¬ IsLetter (lowerByte c) := fun hletter =>
      absurd hspace (Bool.eq_false_iff.mp hletter.not_space)
    rwa [lowerByte_of_not_letter hletter] at hspace
  · rw [lowerRune, if_neg hr]
    obtain ⟨c, hletter, hlower⟩ | ⟨b, w, u, hlower, hm, hspace⟩ :=
      table.lower_encoded r.value (Nat.not_lt.mp hr)
    · have hc : c < 0x80 := UInt8.lt_iff_toNat_lt.mpr (Nat.lt_of_le_of_lt hletter.2 (by decide))
      exact ⟨_, hlower ▸ .ascii hc, fun h => absurd h (Bool.eq_false_iff.mp hletter.not_space)⟩
    · exact ⟨u, hlower ▸ .multibyte hm, hspace⟩

/-- An ASCII character of a rune in lower case: a letter, or the rune itself. -/
theorem mem_lowerRune {r : Rune} (h : r ∈ runes s) {c : UInt8} (hc : c < 0x80)
    (hmem : c ∈ table.lowerRune r) : IsLetter c ∨ r = .ascii c := by
  by_cases hr : r.value < 0x80
  · obtain ⟨d, -, rfl⟩ := ascii_of_value_lt h hr
    rw [lowerRune_ascii (UInt8.lt_iff_toNat_lt.mpr hr), List.mem_singleton] at hmem
    subst hmem
    by_cases hletter : IsLetter (lowerByte d)
    · exact .inl hletter
    · exact .inr (congrArg Rune.ascii (lowerByte_of_not_letter hletter).symm)
  · rw [lowerRune, if_neg hr] at hmem
    obtain ⟨d, hletter, hlower⟩ | ⟨b, w, u, hlower, hm, -⟩ :=
      table.lower_encoded r.value (Nat.not_lt.mp hr)
    · rw [hlower, List.mem_singleton] at hmem
      exact .inl (hmem ▸ hletter)
    · have hhigh : ∀ d ∈ b :: w, 0x80 ≤ d.toNat := List.forall_mem_cons.mpr
        ⟨Nat.le_trans (by decide) (UInt8.le_iff_toNat_le.mp hm.leads), fun d hd => (hm.trailing d hd).1⟩
      exact absurd (UInt8.lt_iff_toNat_lt.mp hc) (Nat.not_lt.mpr (hhigh c (hlower ▸ hmem)))

/-- **Separators in lower case** were there before. -/
theorem mem_toLower {c : UInt8} (hc : c < 0x80) (hletter : ¬ IsLetter c)
    (h : c ∈ table.toLower s) : c ∈ s := by
  obtain ⟨r, hr, hmem⟩ := List.mem_flatMap.mp h
  obtain rfl := (mem_lowerRune hr hc hmem).resolve_left hletter
  rw [← flatMap_bytes_runes s]
  exact List.mem_flatMap.mpr ⟨_, hr, List.mem_singleton_self c⟩

theorem getLast_toLower {c : UInt8} (hc : c < 0x80) (hletter : ¬ IsLetter c)
    (h : (table.toLower s).getLast? = some c) : s.getLast? = some c := by
  obtain hnil | ⟨rs, r, hrs⟩ := List.eq_nil_or_concat (runes s)
  · rw [toLower, hnil] at h
    cases h
  have hr : r ∈ runes s := by simp [hrs]
  rw [toLower, hrs, List.concat_eq_append, List.flatMap_append, List.flatMap_singleton] at h
  have hne : table.lowerRune r ≠ [] := (lowerRune_encoded hr).elim fun _ hu => hu.1.ne_nil
  rw [List.getLast?_append, List.getLast?_eq_some_getLast hne, Option.some_or,
    ← List.getLast?_eq_some_getLast hne] at h
  obtain rfl := (mem_lowerRune hr hc (List.mem_of_getLast? h)).resolve_left hletter
  rw [← flatMap_bytes_runes s, hrs, List.concat_eq_append, List.flatMap_append,
    List.flatMap_singleton]
  exact List.getLast?_concat

end CaseTable

/-! ## White space -/

theorem Encoded.eq_of_leading {e w t : GoString} {u v : ℕ} (he : Encoded e v) (hw : Encoded w u)
    (h : w <+: e ++ t) : w = e ∧ u = v := by
  obtain ⟨x, hx⟩ := h
  have hdecode := he.decode t
  rw [← hx, hw.decode x, Prod.mk.injEq] at hdecode
  exact ⟨(List.append_inj hx hdecode.2).1, hdecode.1⟩

theorem Encoded.value {e : GoString} {u v : ℕ} (h : Encoded e u) (h' : Encoded e v) : u = v :=
  (h'.eq_of_leading h (t := []) (List.prefix_append e [])).2

/-- A word that is read as a whole is the encoding of a rune. -/
theorem encoded_of_decode {w : GoString} (hne : w ≠ [])
    (hsize : (decodeRuneInString w).2 = w.length) (hvalue : (decodeRuneInString w).1 ≠ runeError) :
    Encoded w (decodeRuneInString w).1 := by
  obtain ⟨c, t, rfl⟩ := List.exists_cons_of_ne_nil hne
  by_cases hc : c < 0x80
  · rw [decodeRune_ascii hc] at hsize ⊢
    obtain rfl : t = [] := List.length_eq_zero_iff.mp (by simpa using hsize.symm)
    exact .ascii hc
  · obtain herror | ⟨w, u, v, rfl, hm⟩ := decodeRune_multibyte hc t
    · exact absurd (congrArg Prod.fst herror) hvalue
    rw [hm.decode] at hsize ⊢
    obtain rfl : u = [] := List.length_eq_zero_iff.mp (by simpa using hsize)
    rw [List.append_nil]
    exact .multibyte hm

theorem encoded_of_mem_spaces {w : GoString} (h : w ∈ spaces) :
    ∃ v, Encoded w v ∧ isSpace v = true := by
  have hwords : ∀ w ∈ spaces, w ≠ [] ∧ (decodeRuneInString w).2 = w.length ∧
      (decodeRuneInString w).1 ≠ runeError ∧ isSpace (decodeRuneInString w).1 = true := by
    decide +kernel
  obtain ⟨hne, hsize, hvalue, hspace⟩ := hwords w h
  exact ⟨_, encoded_of_decode hne hsize hvalue, hspace⟩

/-- White space of ASCII. -/
def Blank (c : UInt8) : Prop := [c] ∈ spaces

instance : DecidablePred Blank := fun c => inferInstanceAs (Decidable ([c] ∈ spaces))

/-- Runes without white space, encoded one after the other. -/
inductive Solid : GoString → Prop
  | nil : Solid []
  | cons {e s : GoString} {v : ℕ} : Encoded e v → isSpace v = false → Solid s → Solid (e ++ s)

namespace Solid

variable {s t w : GoString}

theorem append (hs : Solid s) (ht : Solid t) : Solid (s ++ t) := by
  induction hs with
  | nil => exact ht
  | cons he hv _ ih => exact List.append_assoc .. ▸ .cons he hv ih

theorem ascii {c : UInt8} (hc : c < 0x80) (hspace : isSpace c.toNat = false) (hs : Solid s) :
    Solid (c :: s) := .cons (.ascii hc) hspace hs

theorem not_leading (hs : Solid s) (hne : s ≠ []) (hw : w ∈ spaces) : ¬ w <+: s ++ t := by
  intro h
  cases hs with
  | nil => exact hne rfl
  | cons he hv _ =>
    obtain ⟨u, hu, hspace⟩ := encoded_of_mem_spaces hw
    rw [List.append_assoc] at h
    rw [(he.eq_of_leading hu h).2, hv] at hspace
    cases hspace

theorem not_trailing (hs : Solid s) (hne : s ≠ []) (hw : w ∈ spaces) : ¬ w <:+ t ++ s := by
  induction hs generalizing t with
  | nil => exact absurd rfl hne
  | @cons e s v he hv _ ih =>
    intro h
    by_cases hs : s = []
    · obtain ⟨u, hu, hspace⟩ := encoded_of_mem_spaces hw
      rw [hs, List.append_nil] at h
      obtain rfl := he.eq_of_suffix hu h
      rw [hu.value he, hv] at hspace
      cases hspace
    · exact ih hs (List.append_assoc .. ▸ h)

theorem toLower {table : CaseTable} (h : containsFunc s isSpace = false) : Solid (table.toLower s) := by
  have hrunes : ∀ rs : List Rune, (∀ r ∈ rs, r ∈ runes s) → Solid (rs.flatMap table.lowerRune) := by
    intro rs hrs
    induction rs with
    | nil => exact .nil
    | cons r rs ih =>
      rw [List.forall_mem_cons] at hrs
      obtain ⟨u, hu, hspace⟩ : ∃ u, Encoded (table.lowerRune r) u ∧ _ :=
        CaseTable.lowerRune_encoded hrs.1
      rw [List.flatMap_cons]
      refine .cons hu (Bool.eq_false_iff.mpr fun hu => ?_) (ih hrs.2)
      have hnone := List.any_eq_false.mp h r hrs.1
      exact hnone (hspace hu)
  exact hrunes _ fun _ hr => hr

end Solid

/-! ## Trimming -/

section Trimming

variable {ws : List GoString} {s t w l r : GoString} {n : ℕ}

theorem trimWords_clean (h : ∀ w ∈ ws, ¬ w <+: s) : trimWords ws n s = s := by
  cases n with
  | zero => rfl
  | succ n =>
    have hnone : (ws.find? fun w => hasPrefix s w) = none :=
      List.find?_eq_none.mpr fun w hw hp => h w hw (List.isPrefixOf_iff_prefix.mp hp)
    rw [trimWords, hnone]

theorem trimWords_cons {c : UInt8} (hc : [c] ∈ ws) (h : ∀ w ∈ ws, w <+: c :: s → w = [c]) :
    trimWords ws (n + 1) (c :: s) = trimWords ws n s := by
  have hfound : (ws.find? fun w => hasPrefix (c :: s) w) = some [c] := by
    obtain ⟨w, hw⟩ : ∃ w, (ws.find? fun w => hasPrefix (c :: s) w) = some w := by
      refine Option.isSome_iff_exists.mp (List.find?_isSome.mpr ⟨[c], hc, ?_⟩)
      simp [hasPrefix]
    have hp : hasPrefix (c :: s) w = true := by simpa using List.find?_some hw
    rw [hw, h w (List.mem_of_find?_eq_some hw) (List.isPrefixOf_iff_prefix.mp hp)]
  rw [trimWords, hfound]
  rfl

/-- Blanks are stripped, one by one. -/
theorem trimWords_blanks (hl : ∀ c ∈ l, [c] ∈ ws)
    (h : ∀ c ∈ l, ∀ t, ∀ w ∈ ws, w <+: c :: t → w = [c])
    (hclean : ∀ w ∈ ws, ¬ w <+: s) (hn : l.length ≤ n) : trimWords ws n (l ++ s) = s := by
  induction l generalizing n with
  | nil => exact trimWords_clean hclean
  | cons c l ih =>
    rw [List.forall_mem_cons] at hl h
    obtain ⟨m, rfl⟩ := Nat.exists_eq_add_of_le hn
    rw [List.length_cons, Nat.add_right_comm, List.cons_append, trimWords_cons hl.1 (h.1 _)]
    exact ih hl.2 h.2 (Nat.le_add_right _ _)

/-- Stripping stops at a byte that is in no word. -/
theorem trimWords_separator {c : UInt8} (hc : ∀ w ∈ ws, c ∉ w) :
    ∃ u, u <:+ s ∧ trimWords ws n (s ++ c :: t) = u ++ c :: t := by
  induction n generalizing s with
  | zero => exact ⟨s, List.suffix_rfl, rfl⟩
  | succ n ih =>
    unfold trimWords
    split
    next => exact ⟨s, List.suffix_rfl, rfl⟩
    next w hw =>
      have hfound : hasPrefix (s ++ c :: t) w = true := by simpa using List.find?_some hw
      have hp : w <+: s ++ c :: t := List.isPrefixOf_iff_prefix.mp hfound
      obtain ⟨x, rfl⟩ : w <+: s := by
        obtain h | h := List.prefix_or_prefix_of_prefix hp (List.prefix_append s _)
        · exact h
        obtain ⟨y, rfl⟩ := h
        rw [List.prefix_append_right_inj] at hp
        cases y with
        | nil => simp
        | cons d y =>
          obtain ⟨rfl, -⟩ := List.cons_prefix_cons.mp hp
          exact absurd (by simp) (hc _ (List.mem_of_find?_eq_some hw))
      obtain ⟨u, hu, htrim⟩ := ih (s := x)
      rw [List.append_assoc, List.drop_left]
      exact ⟨u, hu.trans (List.suffix_append w x), htrim⟩

theorem trimLeft_blanks (hl : ∀ c ∈ l, Blank c) (hclean : ∀ w ∈ spaces, ¬ w <+: s) :
    trimWords spaces (l ++ s).length (l ++ s) = s := by
  refine trimWords_blanks hl (fun c hc t w hw hp => ?_) hclean (by simp)
  obtain ⟨v, hv, -⟩ := encoded_of_mem_spaces (hl c hc)
  obtain ⟨u, hu, -⟩ := encoded_of_mem_spaces hw
  exact (hv.eq_of_leading hu hp).1

theorem trimRight_blanks (hr : ∀ c ∈ r, Blank c) (hclean : ∀ w ∈ spaces, ¬ w <:+ s) :
    (trimWords (spaces.map List.reverse) (s ++ r).length (s ++ r).reverse).reverse = s := by
  have hblank : ∀ c ∈ r.reverse, Blank c := fun c hc => hr c (List.mem_reverse.mp hc)
  rw [List.reverse_append, List.reverse_eq_iff]
  refine trimWords_blanks (fun c hc => List.mem_map.mpr ⟨[c], hblank c hc, rfl⟩) ?_ ?_ (by simp)
  · intro c hc t w hw hp
    obtain ⟨w, hword, rfl⟩ := List.mem_map.mp hw
    obtain ⟨v, hv, -⟩ := encoded_of_mem_spaces (hblank c hc)
    obtain ⟨u, hu, -⟩ := encoded_of_mem_spaces hword
    have hsuffix : w <:+ t.reverse ++ [c] := by
      rw [← List.reverse_prefix]
      simpa using hp
    rw [hv.eq_of_suffix hu hsuffix]
    rfl
  · intro w hw
    obtain ⟨w, hword, rfl⟩ := List.mem_map.mp hw
    rw [List.reverse_prefix]
    exact hclean w hword

theorem nonempty_of_mem_spaces (hw : w ∈ spaces) : w ≠ [] :=
  (encoded_of_mem_spaces hw).elim fun _ hv => hv.1.ne_nil

/-- **Blanks around a text** without white space are removed, and nothing else. -/
theorem trimSpace_blanks (hl : ∀ c ∈ l, Blank c) (hr : ∀ c ∈ r, Blank c) (hs : Solid s) :
    trimSpace (l ++ s ++ r) = s := by
  unfold trimSpace
  by_cases hnil : s = []
  · -- the blanks in front of nothing are all there is
    have hempty : trimWords spaces (l ++ s ++ r).length (l ++ s ++ r) = [] := by
      have hall := List.forall_mem_append.mpr ⟨hl, hr⟩
      simpa [hnil] using trimLeft_blanks (s := []) hall fun w hw h =>
        nonempty_of_mem_spaces hw (List.prefix_nil.mp h)
    rw [hempty, hnil]
    rfl
  · rw [List.append_assoc, trimLeft_blanks hl fun w => hs.not_leading hnil]
    exact trimRight_blanks hr fun w => hs.not_trailing (t := []) hnil

/-- A character of ASCII at which trimming stops. -/
def Separator (c : UInt8) : Prop := c < 0x80 ∧ isSpace c.toNat = false ∧ ∀ w ∈ spaces, c ∉ w

/-- **Trimming stops at a separator**, whatever is behind it. -/
theorem trimSpace_separator {c : UInt8} (hc : Separator c) (hl : ∀ x ∈ l, Blank x) (hs : Solid s) :
    ∃ u, u <+: t ∧ trimSpace (l ++ s ++ c :: t) = s ++ c :: u := by
  have hsolid : Solid (s ++ [c]) := hs.append (.ascii hc.1 hc.2.1 .nil)
  have hleft : trimWords spaces (l ++ s ++ c :: t).length (l ++ s ++ c :: t) = s ++ c :: t := by
    rw [List.append_assoc]
    refine trimLeft_blanks hl fun w hw => ?_
    have := hsolid.not_leading (t := t) (by simp) hw
    simpa using this
  have hwords : ∀ w ∈ spaces.map List.reverse, c ∉ w := by
    intro w hw
    obtain ⟨w, hword, rfl⟩ := List.mem_map.mp hw
    rw [List.mem_reverse]
    exact hc.2.2 w hword
  obtain ⟨u, hu, hright⟩ := trimWords_separator (s := t.reverse) (t := s.reverse)
    (n := (s ++ c :: t).length) hwords
  refine ⟨u.reverse, List.reverse_suffix.mp (by simpa using hu), ?_⟩
  rw [trimSpace, hleft, List.reverse_append, List.reverse_cons, List.append_assoc,
    List.singleton_append, hright]
  simp

end Trimming

end Go
