import Mathlib.Tactic.ByContra
import Mathlib.Tactic.SplitIfs
import SynitWaf.Go.Utf8

/-!
# Package encoding/json

Values as `json.Marshal` writes them, and how strings and numbers are read back.

* `escapeByte`, `escapeRune`, `quoteString`: the characters of HTML, control characters and the two
  line separators are escaped, bytes that belong to no encoding become U+FFFD;
* `JsonValue`, `marshal`, **`printable_marshal`**;
* `toValid`: the string with such bytes replaced;
* `readQuoted`, `readArray`, `readNumber`, `atoi`: reading strings, lists of strings and numbers;
  **`readQuoted_quoteString`**: what is read back is the string made valid.
-/

namespace Go

/-! ## Writing -/

/-- A character of ASCII in a string. -/
def escapeByte (b : UInt8) : GoString :=
  if b = byte '"' ∨ b = byte '\\' then [byte '\\', b]
  else if b = 0x08 then str "\\b"
  else if b = 0x0C then str "\\f"
  else if b = 0x0A then str "\\n"
  else if b = 0x0D then str "\\r"
  else if b = 0x09 then str "\\t"
  else if b < 0x20 ∨ b = byte '<' ∨ b = byte '>' ∨ b = byte '&' then
    str "\\u00" ++ [hexDigit (b.toNat / 16), hexDigit (b.toNat % 16)]
  else [b]

/-- The encoding of `runeError`. -/
def runeErrorBytes : GoString := [0xEF, 0xBF, 0xBD]

/-- A rune in a string; U+2028 and U+2029 are not allowed in JavaScript. A byte that belongs to no
encoding is replaced, and the replacement is not escaped. -/
def escapeRune (r : Rune) : GoString :=
  if r.invalid then runeErrorBytes
  else
    match r.bytes with
    | [b] => escapeByte b
    | bytes =>
      if bytes = [0xE2, 0x80, 0xA8] then str "\\u2028"
      else if bytes = [0xE2, 0x80, 0xA9] then str "\\u2029"
      else bytes

/-- A string with its quotes. -/
def quoteString (s : GoString) : GoString :=
  byte '"' :: ((runes s).flatMap escapeRune ++ [byte '"'])

/-- Is the byte a decimal digit? -/
def isDigit (c : UInt8) : Bool := 0x30 ≤ c && c ≤ 0x39

/-- The text of a number. -/
structure NumberText where
  text : GoString
  text_ne : text ≠ []
  isNumber : ∀ c ∈ text, isDigit c = true ∨ c ∈ str "+-.e"

/-- A value to write, the members of an object in the order in which they are written. -/
inductive JsonValue where
  | null
  | bool (b : Bool)
  | number (n : NumberText)
  | string (s : GoString)
  | array (elems : List JsonValue)
  | object (members : List (GoString × JsonValue))

mutual

/-- `json.Marshal`. -/
def marshal : JsonValue → GoString
  | .null => str "null"
  | .bool b => if b then str "true" else str "false"
  | .number n => n.text
  | .string s => quoteString s
  | .array elems => byte '[' :: (join (marshalElems elems) (byte ',') ++ [byte ']'])
  | .object members => byte '\x7b' :: (join (marshalMembers members) (byte ',') ++ [byte '\x7d'])

/-- The elements of an array. -/
def marshalElems : List JsonValue → List GoString
  | [] => []
  | v :: vs => marshal v :: marshalElems vs

/-- The members of an object. -/
def marshalMembers : List (GoString × JsonValue) → List GoString
  | [] => []
  | (key, v) :: members => (quoteString key ++ byte ':' :: marshal v) :: marshalMembers members

end

/-- The bytes of a rune, those of `runeError` for a byte that belongs to no encoding. -/
def Rune.validBytes (r : Rune) : GoString := if r.invalid then runeErrorBytes else r.bytes

/-- The string with every byte that belongs to no encoding replaced. -/
def toValid (s : GoString) : GoString := (runes s).flatMap Rune.validBytes

/-! ## Control characters -/

/-- No byte of the text is a control character. -/
def Printable (s : GoString) : Prop := ∀ b ∈ s, 0x20 ≤ b

instance (s : GoString) : Decidable (Printable s) := List.decidableBAll (fun b => 0x20 ≤ b) s

theorem printable_append {s t : GoString} : Printable (s ++ t) ↔ Printable s ∧ Printable t :=
  List.forall_mem_append

theorem printable_cons {b : UInt8} {s : GoString} : Printable (b :: s) ↔ 0x20 ≤ b ∧ Printable s :=
  List.forall_mem_cons

theorem printable_join {elems : List GoString} (h : ∀ e ∈ elems, Printable e) :
    Printable (join elems (byte ',')) := by
  induction elems with
  | nil => exact fun b hb => by cases hb
  | cons e elems ih =>
    cases elems with
    | nil => simpa [join_singleton] using h
    | cons e' elems =>
      rw [join_cons_cons]
      exact printable_append.mpr ⟨h e List.mem_cons_self, printable_cons.mpr
        ⟨by decide, ih fun x hx => h x (List.mem_cons_of_mem _ hx)⟩⟩

theorem printable_hexDigit {n : ℕ} (h : n < 16) : 0x20 ≤ hexDigit n := by
  have hall : ∀ n < 16, 0x20 ≤ hexDigit n := by decide
  exact hall n h

/-- The characters with an escape of their own. -/
def shortEscapes : List UInt8 := [byte '"', byte '\\', 0x08, 0x0C, 0x0A, 0x0D, 0x09]

theorem escapeByte_of_notMem {b : UInt8} (h : b ∉ shortEscapes) :
    escapeByte b = if b < 0x20 ∨ b = byte '<' ∨ b = byte '>' ∨ b = byte '&' then
      str "\\u00" ++ [hexDigit (b.toNat / 16), hexDigit (b.toNat % 16)] else [b] := by
  simp only [shortEscapes, List.mem_cons, List.not_mem_nil, or_false, not_or] at h
  obtain ⟨h1, h2, h3, h4, h5, h6, h7⟩ := h
  rw [escapeByte, if_neg (not_or.mpr ⟨h1, h2⟩), if_neg h3, if_neg h4, if_neg h5, if_neg h6, if_neg h7]

theorem printable_escapeByte (b : UInt8) : Printable (escapeByte b) := by
  by_cases hb : b ∈ shortEscapes
  · have hall : ∀ b ∈ shortEscapes, Printable (escapeByte b) := by decide +kernel
    exact hall b hb
  rw [escapeByte_of_notMem hb]
  split
  · have hlt := b.toNat_lt
    exact printable_append.mpr ⟨by decide, printable_cons.mpr ⟨printable_hexDigit (by omega),
      printable_cons.mpr ⟨printable_hexDigit (by omega), nofun⟩⟩⟩
  next hplain => exact printable_cons.mpr ⟨UInt8.not_lt.mp fun h => hplain (.inl h), nofun⟩

theorem printable_escapeRune {r : Rune} {s : GoString} (hr : r ∈ runes s) :
    Printable (escapeRune r) := by
  unfold escapeRune
  split
  · decide
  next hvalid =>
  rcases mem_runes hr with ⟨c, hc, rfl⟩ | hinvalid | ⟨hlen, hall⟩
  · exact printable_escapeByte c
  · exact absurd hinvalid hvalid
  · split
    next b hb => exact printable_escapeByte b
    next =>
      split_ifs
      · decide
      · decide
      · exact fun b hb => UInt8.le_trans (by decide) (hall b hb)

theorem printable_quoteString (s : GoString) : Printable (quoteString s) := by
  refine printable_cons.mpr ⟨by decide, printable_append.mpr ⟨?_, by decide⟩⟩
  intro b hb
  obtain ⟨r, hr, hb⟩ := List.mem_flatMap.mp hb
  exact printable_escapeRune hr b hb

mutual

/-- **`json.Marshal` escapes control characters.** -/
theorem printable_marshal : ∀ v : JsonValue, Printable (marshal v)
  | .null => by decide
  | .bool b => by cases b <;> decide
  | .number n => by
    intro b hb
    rcases n.isNumber b hb with h | h
    · simp only [isDigit, Bool.and_eq_true, decide_eq_true_eq] at h
      exact UInt8.le_trans (by decide) h.1
    · have hall : Printable (str "+-.e") := by decide
      exact hall b h
  | .string s => printable_quoteString s
  | .array elems => printable_cons.mpr ⟨by decide, printable_append.mpr
      ⟨printable_join (printable_marshalElems elems), by decide⟩⟩
  | .object members => printable_cons.mpr ⟨by decide, printable_append.mpr
      ⟨printable_join (printable_marshalMembers members), by decide⟩⟩

theorem printable_marshalElems : ∀ vs : List JsonValue, ∀ e ∈ marshalElems vs, Printable e
  | [] => nofun
  | v :: vs => List.forall_mem_cons.mpr ⟨printable_marshal v, printable_marshalElems vs⟩

theorem printable_marshalMembers :
    ∀ members : List (GoString × JsonValue), ∀ e ∈ marshalMembers members, Printable e
  | [] => nofun
  | (key, v) :: members => List.forall_mem_cons.mpr
      ⟨printable_append.mpr ⟨printable_quoteString key, printable_cons.mpr
        ⟨by decide, printable_marshal v⟩⟩, printable_marshalMembers members⟩

end

theorem marshal_ne_nil (v : JsonValue) : marshal v ≠ [] := by
  cases v with
  | bool b => cases b <;> decide
  | number n => exact n.text_ne
  | _ => exact List.cons_ne_nil _ _

/-! ## Reading -/

/-- The value of a hexadecimal digit. -/
def hexValue (c : UInt8) : Option ℕ :=
  if 0x30 ≤ c ∧ c ≤ 0x39 then some (c.toNat - 0x30)
  else if 0x61 ≤ c ∧ c ≤ 0x66 then some (c.toNat - 0x57)
  else if 0x41 ≤ c ∧ c ≤ 0x46 then some (c.toNat - 0x37)
  else none

/-- The encoding of a rune of at most four hexadecimal digits. -/
def encodeRune (v : ℕ) : GoString :=
  if v < 0x80 then [UInt8.ofNat v]
  else if v < 0x800 then [UInt8.ofNat (0xC0 + v / 0x40), UInt8.ofNat (0x80 + v % 0x40)]
  else
    [UInt8.ofNat (0xE0 + v / 0x1000), UInt8.ofNat (0x80 + v / 0x40 % 0x40),
      UInt8.ofNat (0x80 + v % 0x40)]

/-- The character that a backslash and a letter stand for. -/
def unescape (c : UInt8) : Option UInt8 :=
  if c = byte '"' ∨ c = byte '\\' ∨ c = byte '/' then some c
  else if c = byte 'b' then some 0x08
  else if c = byte 'f' then some 0x0C
  else if c = byte 'n' then some 0x0A
  else if c = byte 'r' then some 0x0D
  else if c = byte 't' then some 0x09
  else none

/-- Where the reader of a string is: in plain text, behind a backslash, or behind `count` digits of
an escape with the given value. -/
inductive StringMode where
  | plain
  | escaped
  | digits (count value : ℕ)

/-- Read a string up to its closing quote; the result is the string and what is left. -/
def readString : GoString → StringMode → GoString → Option (GoString × GoString)
  | [], _, _ => none
  | c :: s, .plain, out =>
    if c = byte '"' then some (out, s)
    else if c = byte '\\' then readString s .escaped out
    else readString s .plain (out ++ [c])
  | c :: s, .escaped, out =>
    if c = byte 'u' then readString s (.digits 0 0) out
    else
      match unescape c with
      | none => none
      | some b => readString s .plain (out ++ [b])
  | c :: s, .digits count value, out =>
    match hexValue c with
    | none => none
    | some d =>
      if count = 3 then readString s .plain (out ++ encodeRune (0x10 * value + d))
      else readString s (.digits (count + 1) (0x10 * value + d)) out

/-- Read a string with its quotes. -/
def readQuoted (s : GoString) : Option (GoString × GoString) :=
  (cutPrefix s (str "\"")).bind (readString · .plain [])

/-- Read a list of strings that is not empty, up to its closing bracket; `n` bounds its length. -/
def readList : ℕ → GoString → Option (List GoString × GoString)
  | 0, _ => none
  | n + 1, s =>
    (readQuoted s).bind fun (text, s) =>
      match cutPrefix s (str ",") with
      | some s => (readList n s).map fun (texts, s) => (text :: texts, s)
      | none => (cutPrefix s (str "]")).map fun s => ([text], s)

/-- Read a list of strings up to its closing bracket. -/
def readArray (s : GoString) : Option (List GoString × GoString) :=
  match cutPrefix s (str "]") with
  | some s => some ([], s)
  | none => readList s.length s

/-- Read a number: its digits, and what is left. -/
def readNumber (s : GoString) : ℕ × GoString :=
  ((s.takeWhile isDigit).foldl (fun n c => 10 * n + (c.toNat - 0x30)) 0, s.dropWhile isDigit)

/-- `strconv.Atoi`. -/
def atoi (s : GoString) : Option ℤ :=
  let (negative, digits) : Bool × GoString :=
    match s with
    | 0x2d :: digits => (true, digits)
    | 0x2b :: digits => (false, digits)
    | digits => (false, digits)
  if digits = [] ∨ digits.any (!isDigit ·) then none
  else
    let n : ℤ := if negative then -(readNumber digits).1 else (readNumber digits).1
    if -2 ^ 63 ≤ n ∧ n < 2 ^ 63 then some n else none

/-! ## Reading back -/

section Read

variable (s out : GoString)

theorem hexValue_hexDigit {n : ℕ} (h : n < 16) : hexValue (hexDigit n) = some n := by
  have hall : ∀ n < 16, hexValue (hexDigit n) = some n := by decide
  exact hall n h

theorem readString_escapeByte {b : UInt8} (hb : b < 0x80) :
    readString (escapeByte b ++ s) .plain out = readString s .plain (out ++ [b]) := by
  by_cases hshort : b ∈ shortEscapes
  · simp only [shortEscapes, List.mem_cons, List.not_mem_nil, or_false] at hshort
    rcases hshort with rfl | rfl | rfl | rfl | rfl | rfl | rfl <;> rfl
  rw [escapeByte_of_notMem hshort]
  split
  · have hlt : b.toNat < 0x80 := hb
    have hv : 0x10 * (b.toNat / 16) + b.toNat % 16 = b.toNat := by omega
    have hread : readString (str "\\u00" ++ [hexDigit (b.toNat / 16), hexDigit (b.toNat % 16)] ++ s)
        .plain out = readString (hexDigit (b.toNat / 16) :: hexDigit (b.toNat % 16) :: s)
          (.digits 2 0) out := rfl
    rw [hread]
    simp only [readString, hexValue_hexDigit (show b.toNat / 16 < 16 by omega),
      hexValue_hexDigit (show b.toNat % 16 < 16 by omega)]
    simp [hv, encodeRune, hlt]
  · simp only [shortEscapes, List.mem_cons, not_or] at hshort
    simp [readString, hshort.1, hshort.2.1]

theorem readString_plain {w : GoString} (hw : ∀ b ∈ w, 0x80 ≤ b) :
    readString (w ++ s) .plain out = readString s .plain (out ++ w) := by
  induction w generalizing out with
  | nil => simp
  | cons b w ih =>
    have hb : 0x80 ≤ b := hw b List.mem_cons_self
    have hquote : b ≠ byte '"' := by rintro rfl; exact absurd hb (by decide)
    have hslash : b ≠ byte '\\' := by rintro rfl; exact absurd hb (by decide)
    rw [List.cons_append, readString, if_neg hquote, if_neg hslash,
      ih _ fun c hc => hw c (List.mem_cons_of_mem _ hc)]
    simp

theorem readString_escapeRune {r : Rune} {t : GoString} (hr : r ∈ runes t) :
    readString (escapeRune r ++ s) .plain out = readString s .plain (out ++ r.validBytes) := by
  unfold escapeRune Rune.validBytes
  split
  · exact readString_plain s out (by decide)
  next hvalid =>
  rcases mem_runes hr with ⟨c, hc, rfl⟩ | hinvalid | ⟨hlen, hall⟩
  · exact readString_escapeByte s out hc
  · exact absurd hinvalid hvalid
  · split
    next b hb =>
      rw [hb] at hlen
      simp at hlen
    next =>
      split_ifs with h1 h2
      · rw [h1]
        rfl
      · rw [h2]
        rfl
      · exact readString_plain s out hall

end Read

/-- **A string is read back** with the bytes replaced that belong to no encoding. -/
theorem readQuoted_quoteString (s rest : GoString) :
    readQuoted (quoteString s ++ rest) = some (toValid s, rest) := by
  have hread : ∀ rs : List Rune, (∀ r ∈ rs, r ∈ runes s) → ∀ out,
      readString (rs.flatMap escapeRune ++ byte '"' :: rest) .plain out =
        some (out ++ rs.flatMap Rune.validBytes, rest) := by
    intro rs
    induction rs with
    | nil => simp [readString]
    | cons r rs ih =>
      intro hmem out
      rw [List.flatMap_cons, List.append_assoc,
        readString_escapeRune _ _ (hmem r List.mem_cons_self),
        ih fun x hx => hmem x (List.mem_cons_of_mem _ hx)]
      simp
  have hquote : quoteString s ++ rest =
      str "\"" ++ ((runes s).flatMap escapeRune ++ byte '"' :: rest) := by
    simp [quoteString, show str "\"" = [byte '"'] by decide]
  rw [readQuoted, hquote, cutPrefix_append]
  exact hread (runes s) (fun _ h => h) []

theorem readList_join {texts : List GoString} (hne : texts ≠ []) {n : ℕ} (hn : texts.length ≤ n)
    (rest : GoString) :
    readList n (join (texts.map quoteString) (byte ',') ++ byte ']' :: rest) =
      some (texts.map toValid, rest) := by
  induction texts generalizing n with
  | nil => exact absurd rfl hne
  | cons text texts ih =>
    obtain ⟨n, rfl⟩ : ∃ m, n = m + 1 := ⟨n - 1, by simp at hn; omega⟩
    cases texts with
    | nil =>
      have hcomma : cutPrefix (byte ']' :: rest) (str ",") = none := rfl
      have hclose : cutPrefix (byte ']' :: rest) (str "]") = some rest :=
        cutPrefix_append (str "]") rest
      rw [List.map_singleton, join_singleton, readList, readQuoted_quoteString]
      simp [hcomma, hclose]
    | cons next texts =>
      have hcomma (s : GoString) : cutPrefix (byte ',' :: s) (str ",") = some s :=
        cutPrefix_append (str ",") s
      rw [List.map_cons, List.map_cons, join_cons_cons, List.append_assoc, readList,
        readQuoted_quoteString]
      simp only [Option.bind_some, List.cons_append, hcomma]
      rw [← List.map_cons, ih (by simp) (by simpa using hn)]
      rfl

theorem length_le_join (texts : List GoString) (rest : GoString) :
    texts.length ≤ (join (texts.map quoteString) (byte ',') ++ rest).length := by
  induction texts with
  | nil => simp
  | cons text texts ih =>
    have hquote : 1 ≤ (quoteString text).length := by simp [quoteString]
    cases texts with
    | nil => simpa [join_singleton] using Nat.le_add_right_of_le hquote
    | cons next texts =>
      rw [List.map_cons, List.map_cons, join_cons_cons, List.append_assoc, List.cons_append]
      simp only [List.length_append, List.length_cons, List.map_cons] at ih ⊢
      omega

/-- **A list of strings is read back.** -/
theorem readArray_join (texts : List GoString) (rest : GoString) :
    readArray (join (texts.map quoteString) (byte ',') ++ byte ']' :: rest) =
      some (texts.map toValid, rest) := by
  cases texts with
  | nil => rfl
  | cons text texts =>
    obtain ⟨t, ht⟩ : ∃ t, join ((text :: texts).map quoteString) (byte ',') ++ byte ']' :: rest =
        byte '"' :: t := by
      cases texts <;> simp [join_singleton, join_cons_cons, quoteString]
    have hopen : cutPrefix (byte '"' :: t) (str "]") = none := rfl
    rw [readArray, ht, hopen, ← ht]
    exact readList_join (by simp) (length_le_join _ _) rest

theorem digit_byte {c : Char} (h : c.isDigit = true) :
    String.utf8EncodeChar c = [UInt8.ofNat c.toNat] ∧ isDigit (UInt8.ofNat c.toNat) = true ∧
      (UInt8.ofNat c.toNat).toNat = c.toNat := by
  simp only [Char.isDigit, Bool.and_eq_true, decide_eq_true_eq] at h
  have hlo : 48 ≤ c.toNat := UInt32.le_iff_toNat_le.mp h.1
  have hhi : c.toNat ≤ 57 := UInt32.le_iff_toNat_le.mp h.2
  have hsmall : c.toNat < 256 := by omega
  refine ⟨if_pos (show c.toNat ≤ 127 by omega), ?_, by simpa using hsmall⟩
  simp only [isDigit, Bool.and_eq_true, decide_eq_true_eq,
    UInt8.le_iff_toNat_le, UInt8.toNat_ofNat', Nat.mod_eq_of_lt hsmall]
  exact ⟨hlo, hhi⟩

/-- The decimal digits of a number, as bytes. -/
theorem itoa_natCast (n : ℕ) :
    itoa n = (Nat.toDigits 10 n).map fun c => UInt8.ofNat c.toNat := by
  have hrepr : toString (n : ℤ) = n.repr := rfl
  have hdigit : ∀ c ∈ Nat.toDigits 10 n, c.isDigit = true :=
    fun c hc => Nat.isDigit_of_mem_toDigits (by decide) (by decide) hc
  rw [itoa, str, hrepr, Nat.toList_repr]
  revert hdigit
  generalize Nat.toDigits 10 n = cs
  intro hdigit
  induction cs with
  | nil => rfl
  | cons c cs ih =>
    rw [List.flatMap_cons, List.map_cons, (digit_byte (hdigit c List.mem_cons_self)).1,
      ih fun d hd => hdigit d (List.mem_cons_of_mem _ hd)]
    rfl

/-- **A number is read back.** -/
theorem readNumber_itoa (n : ℕ) {rest : GoString} (hrest : ∀ c ∈ rest.head?, isDigit c = false) :
    readNumber (itoa n ++ rest) = (n, rest) := by
  have hdigit : ∀ c ∈ Nat.toDigits 10 n, c.isDigit = true :=
    fun c hc => Nat.isDigit_of_mem_toDigits (by decide) (by decide) hc
  have hall : ∀ b ∈ itoa n, isDigit b = true := by
    rw [itoa_natCast]
    intro b hb
    obtain ⟨c, hc, rfl⟩ := List.mem_map.mp hb
    exact (digit_byte (hdigit c hc)).2.1
  have hstop : rest.takeWhile isDigit = [] ∧ rest.dropWhile isDigit = rest := by
    cases rest with
    | nil => simp
    | cons c rest => simp [hrest c rfl]
  have hvalue : (itoa n).foldl (fun n c => 10 * n + (c.toNat - 0x30)) 0 = n := by
    rw [itoa_natCast, List.foldl_map]
    have hfold : ∀ (cs : List Char), (∀ c ∈ cs, c.isDigit = true) → ∀ init : ℕ,
        cs.foldl (fun n c => 10 * n + ((UInt8.ofNat c.toNat).toNat - 0x30)) init =
          Nat.ofDigitChars 10 cs init := by
      intro cs
      induction cs with
      | nil => intro _ init; rfl
      | cons c cs ih =>
        intro hcs init
        rw [List.foldl_cons, (digit_byte (hcs c List.mem_cons_self)).2.2,
          ih fun d hd => hcs d (List.mem_cons_of_mem _ hd)]
        rfl
    rw [hfold _ hdigit]
    exact Nat.ofDigitChars_ten_toDigits
  rw [readNumber, List.takeWhile_append_of_pos hall, List.dropWhile_append_of_pos hall, hstop.1,
    hstop.2, List.append_nil, hvalue]

example : quoteString (str "a<\n" ++ [0xFF]) = str "\"a\\u003c\\n\uFFFD\"" := by decide

end Go
