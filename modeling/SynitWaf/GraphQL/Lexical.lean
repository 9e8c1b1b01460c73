import Mathlib.Data.List.TakeWhile
import SynitWaf.GraphQL.Check

/-!
# Nesting and the lexical grammar

A query is a sequence of comments, strings, block strings, brackets and other bytes. The lexical
grammar ends a comment at either line terminator and a block string at the first three quotes that
are not escaped. `graphQLNestingDepth` ends a comment at a line feed only and a block string at the
first three quotes.

* `Lexeme`, `render`, `Lexical`: the grammar; `nesting`: the level of the deepest bracket;
* `Measured`: the depth of a query is its nesting, and a nesting above the budget is not parsed;
* `nestingLoop_lexeme`: what one round of the loop does; `nestingLoop_render`: the whole loop;
* **`measured_iff`**: which kinds of comments and strings may occur in measured queries;
* `hidden_nesting`: brackets behind a carriage return and behind an escape.
-/

namespace SynitWaf

open Go

/-! ## The grammar -/

/-- What ends a comment; the terminator belongs to the comment here. -/
inductive CommentEnd where
  | lf
  | crlf
  | cr
  | eof
  deriving DecidableEq

def CommentEnd.text : CommentEnd → GoString
  | .lf => [byte '\n']
  | .crlf => [byte '\r', byte '\n']
  | .cr => [byte '\r']
  | .eof => []

/-- May the text follow this end? -/
def CommentEnd.Before (rest : GoString) : CommentEnd → Prop
  | .lf => True
  | .crlf => True
  | .cr => rest.head? ≠ some (byte '\n')
  | .eof => rest = []

/-- The characters of a string: a byte, or a backslash and what it escapes. The digits of a Unicode
escape stand for themselves. -/
inductive StringChar where
  | plain (b : UInt8)
  | escaped (b : UInt8)
  deriving DecidableEq

def StringChar.text : StringChar → GoString
  | .plain b => [b]
  | .escaped b => [byte '\\', b]

def StringChar.Ok : StringChar → Prop
  | .plain b => b ∉ [byte '"', byte '\\', byte '\n', byte '\r']
  | .escaped b => b ∉ [byte '\n', byte '\r']

/-- The characters of a block string: a byte, or three escaped quotes. -/
inductive BlockChar where
  | plain (b : UInt8)
  | quotes
  deriving DecidableEq

/-- A backslash and three quotes. -/
def escapedQuotes : GoString := byte '\\' :: blockQuote

def BlockChar.text : BlockChar → GoString
  | .plain b => [b]
  | .quotes => escapedQuotes

def blockText : List BlockChar → GoString
  | [] => []
  | c :: chars => c.text ++ blockText chars

/-- No byte of a block string begins three quotes, escaped or not. -/
def BlockOk : List BlockChar → Prop
  | [] => True
  | .plain b :: chars =>
    hasPrefix (b :: (blockText chars ++ blockQuote)) blockQuote = false ∧
      hasPrefix (b :: (blockText chars ++ blockQuote)) escapedQuotes = false ∧ BlockOk chars
  | .quotes :: chars => BlockOk chars

/-- The lexical elements. Every byte that is in no comment, string or bracket is one of its own:
names, numbers, the other punctuators and what is ignored. -/
inductive Lexeme where
  | comment (body : GoString) (stop : CommentEnd)
  | string (chars : List StringChar)
  | block (chars : List BlockChar)
  | opening (b : UInt8)
  | closing (b : UInt8)
  | other (b : UInt8)
  deriving DecidableEq

def Lexeme.text : Lexeme → GoString
  | .comment body stop => byte '#' :: (body ++ stop.text)
  | .string chars => byte '"' :: (chars.flatMap StringChar.text ++ [byte '"'])
  | .block chars => blockQuote ++ (blockText chars ++ blockQuote)
  | .opening b => [b]
  | .closing b => [b]
  | .other b => [b]

def openings : GoString := [byte '{', byte '[']

def closings : GoString := [byte '}', byte ']']

/-- Is this an element of the grammar, before the given text? Two quotes are a string only if no
third one follows. -/
def Lexeme.Ok (rest : GoString) : Lexeme → Prop
  | .comment body stop => byte '\n' ∉ body ∧ byte '\r' ∉ body ∧ stop.Before rest
  | .string chars => (∀ c ∈ chars, c.Ok) ∧ (chars = [] → rest.head? ≠ some (byte '"'))
  | .block chars => BlockOk chars
  | .opening b => b ∈ openings
  | .closing b => b ∈ closings
  | .other b => b ∉ byte '#' :: byte '"' :: (openings ++ closings)

/-- The text of a sequence of elements. -/
def render : List Lexeme → GoString
  | [] => []
  | l :: ls => l.text ++ render ls

/-- The sequence is read from its text by the grammar. -/
def Lexical : List Lexeme → Prop
  | [] => True
  | l :: ls => l.Ok (render ls) ∧ Lexical ls

section Decidable

instance (rest : GoString) : DecidablePred (CommentEnd.Before rest)
  | .lf => .isTrue trivial
  | .crlf => .isTrue trivial
  | .cr => inferInstanceAs (Decidable (rest.head? ≠ some (byte '\n')))
  | .eof => inferInstanceAs (Decidable (rest = []))

instance : DecidablePred StringChar.Ok
  | .plain b => inferInstanceAs (Decidable (b ∉ [byte '"', byte '\\', byte '\n', byte '\r']))
  | .escaped b => inferInstanceAs (Decidable (b ∉ [byte '\n', byte '\r']))

instance decidableBlockOk : DecidablePred BlockOk
  | [] => .isTrue trivial
  | .plain _ :: chars =>
    have := decidableBlockOk chars
    inferInstanceAs (Decidable (_ ∧ _ ∧ _))
  | .quotes :: chars => decidableBlockOk chars

instance (rest : GoString) : DecidablePred (Lexeme.Ok rest)
  | .comment _ _ => inferInstanceAs (Decidable (_ ∧ _ ∧ _))
  | .string chars =>
    have : Decidable (∀ c ∈ chars, c.Ok) := List.decidableBAll _ _
    inferInstanceAs (Decidable (_ ∧ _))
  | .block chars => inferInstanceAs (Decidable (BlockOk chars))
  | .opening b => inferInstanceAs (Decidable (b ∈ openings))
  | .closing b => inferInstanceAs (Decidable (b ∈ closings))
  | .other b => inferInstanceAs (Decidable (b ∉ byte '#' :: byte '"' :: (openings ++ closings)))

instance decidableLexical : DecidablePred Lexical
  | [] => .isTrue trivial
  | _ :: ls =>
    have := decidableLexical ls
    inferInstanceAs (Decidable (_ ∧ _))

end Decidable

/-! ## Nesting -/

/-- The level behind an element. A closing bracket that closes nothing changes nothing. -/
def Lexeme.level (depth : ℕ) : Lexeme → ℕ
  | .opening _ => depth + 1
  | .closing _ => depth - 1
  | _ => depth

/-- The highest level, from a given one on. -/
def nestingFrom : ℕ → List Lexeme → ℕ
  | depth, [] => depth
  | depth, l :: ls => max depth (nestingFrom (l.level depth) ls)

/-- The maximum nesting of the brackets outside strings and comments. -/
def nesting (ls : List Lexeme) : ℕ := nestingFrom 0 ls

/-- The nesting that `checkGraphQLRequest` allows. -/
def nestingBudget (policy : GraphQLProtection) : ℤ :=
  max minGraphQLNestingBudget (int64 (2 * policy.maxQueryDepth + 16))

/-- The depth is the nesting, and a query nested deeper than the budget is refused unparsed. -/
structure Measured (ls : List Lexeme) : Prop where
  depth : graphQLNestingDepth (render ls) = nesting ls
  unparsed : ∀ policy, nestingBudget policy < nesting ls →
    ∃ e, ∀ parse, checkGraphQLRequest parse (render ls) policy = .error e

/-- The kinds of comments and strings. -/
inductive LiteralKind where
  | comment (stop : CommentEnd)
  | string
  | block
  | escapedBlock
  deriving DecidableEq

def Lexeme.kind : Lexeme → Option LiteralKind
  | .comment _ stop => some (.comment stop)
  | .string _ => some .string
  | .block chars => some (if .quotes ∈ chars then .escapedBlock else .block)
  | _ => none

/-- All comments and strings are of the given kinds. -/
def Admits (kinds : LiteralKind → Prop) (ls : List Lexeme) : Prop :=
  ∀ l ∈ ls, ∀ k, l.kind = some k → kinds k

/-! ## One round of the loop -/

section Round

variable {fuel depth deepest : ℕ} {rest : GoString}

theorem nestingLoop_nil (fuel depth deepest : ℕ) : nestingLoop fuel [] depth deepest = deepest := by
  cases fuel <;> rfl

/-- The end of a comment, for the loop. -/
theorem skipComment {body : GoString} (hbody : byte '\n' ∉ body) :
    ((body ++ byte '\n' :: rest).dropWhile (· ≠ byte '\n')).drop 1 = rest := by
  rw [List.dropWhile_append_of_pos]
  · simp
  · intro b hb
    exact decide_eq_true fun h => hbody (h ▸ hb)

theorem nestingLoop_comment {body : GoString} {stop : CommentEnd}
    (hok : (Lexeme.comment body stop).Ok rest) (hstop : stop ≠ .cr) :
    nestingLoop (fuel + 1) ((Lexeme.comment body stop).text ++ rest) depth deepest =
      nestingLoop fuel rest depth deepest := by
  obtain ⟨hlf, -, hbefore⟩ := hok
  change nestingLoop fuel (((body ++ stop.text ++ rest).dropWhile (· ≠ byte '\n')).drop 1) depth
    deepest = _
  cases stop with
  | lf => rw [CommentEnd.text, List.append_assoc, List.singleton_append, skipComment hlf]
  | crlf =>
    have hlf' : byte '\n' ∉ body ++ [byte '\r'] := by
      simp only [List.mem_append, List.mem_singleton, not_or]
      exact ⟨hlf, by decide⟩
    have htext : body ++ CommentEnd.crlf.text ++ rest =
        (body ++ [byte '\r']) ++ byte '\n' :: rest := by
      simp [CommentEnd.text]
    rw [htext, skipComment hlf']
  | cr => exact absurd rfl hstop
  | eof =>
    obtain rfl : rest = [] := hbefore
    have hdrop : (body ++ CommentEnd.eof.text ++ []).dropWhile (· ≠ byte '\n') = [] := by
      simp only [CommentEnd.text, List.append_nil, List.dropWhile_eq_nil_iff]
      exact fun b hb => decide_eq_true fun h => hlf (h ▸ hb)
    rw [hdrop]
    rfl

/-- The end of a string, for the loop. -/
theorem skipString_chars {chars : List StringChar} (hok : ∀ c ∈ chars, c.Ok) :
    skipString (chars.flatMap StringChar.text ++ byte '"' :: rest) = rest := by
  induction chars with
  | nil => cases rest <;> rfl
  | cons c chars ih =>
    rw [List.forall_mem_cons] at hok
    rw [List.flatMap_cons, List.append_assoc]
    -- what follows the character is not empty
    obtain ⟨d, more, hmore⟩ : ∃ d more,
        chars.flatMap StringChar.text ++ byte '"' :: rest = d :: more :=
      List.exists_cons_of_ne_nil (by simp)
    have ih := ih hok.2
    cases c with
    | plain b =>
      have hb := hok.1
      simp only [StringChar.Ok, List.mem_cons, List.not_mem_nil, or_false, not_or] at hb
      rw [hmore] at ih ⊢
      simp only [StringChar.text, List.singleton_append, skipString]
      rw [if_neg (by simp [hb]), if_neg hb.2.1, ih]
    | escaped b =>
      simp only [StringChar.text, List.cons_append, List.nil_append, skipString]
      rw [if_neg (by decide), if_pos trivial, ih]

theorem nestingLoop_quote (s : GoString) :
    nestingLoop (fuel + 1) (byte '"' :: s) depth deepest =
      if hasPrefix (byte '"' :: s) blockQuote then
        match index blockQuote (s.drop 2) with
        | none => deepest
        | some e => nestingLoop fuel ((s.drop 2).drop (e + 3)) depth deepest
      else nestingLoop fuel (skipString s) depth deepest := by
  rw [nestingLoop, if_neg (by decide)]
  exact if_pos rfl

theorem nestingLoop_string {chars : List StringChar} (hok : (Lexeme.string chars).Ok rest) :
    nestingLoop (fuel + 1) ((Lexeme.string chars).text ++ rest) depth deepest =
      nestingLoop fuel rest depth deepest := by
  obtain ⟨hchars, hempty⟩ := hok
  have htext : (Lexeme.string chars).text ++ rest =
      byte '"' :: (chars.flatMap StringChar.text ++ byte '"' :: rest) := by
    simp [Lexeme.text]
  -- a string does not begin like a block string
  have hblock : hasPrefix (byte '"' :: (chars.flatMap StringChar.text ++ byte '"' :: rest))
      blockQuote = false := by
    cases chars with
    | nil =>
      cases rest with
      | nil => decide
      | cons b rest =>
        have hb : byte '"' ≠ b := fun h => hempty rfl (congrArg some h.symm)
        simp [hasPrefix, blockQuote, List.isPrefixOf, hb]
    | cons c chars =>
      cases c with
      | plain b =>
        have hb : byte '"' ≠ b := fun h => hchars _ List.mem_cons_self (h ▸ List.mem_cons_self)
        simp [hasPrefix, blockQuote, List.isPrefixOf, StringChar.text, hb]
      | escaped b => rfl
  rw [htext, nestingLoop_quote, if_neg (by rw [hblock]; decide), skipString_chars hchars]

/-- The end of a block string without escapes, for the loop. -/
theorem index_blockText {chars : List BlockChar} (hok : BlockOk chars)
    (hplain : BlockChar.quotes ∉ chars) :
    index blockQuote (blockText chars ++ blockQuote) = some (blockText chars).length := by
  induction chars with
  | nil => rfl
  | cons c chars ih =>
    rw [List.mem_cons, not_or] at hplain
    cases c with
    | plain b =>
      obtain ⟨hquote, -, hok⟩ := hok
      change index blockQuote (b :: (blockText chars ++ blockQuote)) = _
      rw [index, if_neg (by rw [← hasPrefix, hquote]; decide), ih hok hplain.2]
      rfl
    | quotes => exact absurd rfl hplain.1

theorem nestingLoop_block {chars : List BlockChar} (hok : BlockOk chars)
    (hplain : BlockChar.quotes ∉ chars) :
    nestingLoop (fuel + 1) ((Lexeme.block chars).text ++ rest) depth deepest =
      nestingLoop fuel rest depth deepest := by
  have hindex : index blockQuote (blockText chars ++ blockQuote ++ rest) =
      some (blockText chars).length := index_append (index_blockText hok hplain) rest
  have htext : (Lexeme.block chars).text ++ rest =
      byte '"' :: byte '"' :: byte '"' :: (blockText chars ++ blockQuote ++ rest) := by
    simp [Lexeme.text, blockQuote]
  have hdrop : (blockText chars ++ blockQuote ++ rest).drop ((blockText chars).length + 3) = rest := by
    rw [← List.drop_drop, List.append_assoc, List.drop_left]
    rfl
  rw [htext, nestingLoop_quote, if_pos (by simp [hasPrefix, blockQuote])]
  simp only [List.drop_succ_cons, List.drop_zero, hindex, hdrop]

theorem nestingLoop_opening {b : UInt8} (hb : b ∈ openings) :
    nestingLoop (fuel + 1) (b :: rest) depth deepest =
      nestingLoop fuel rest (depth + 1) (max deepest (depth + 1)) := by
  simp only [openings, List.mem_cons, List.not_mem_nil, or_false] at hb
  rcases hb with rfl | rfl <;> rfl

theorem nestingLoop_closing {b : UInt8} (hb : b ∈ closings) :
    nestingLoop (fuel + 1) (b :: rest) depth deepest =
      nestingLoop fuel rest (depth - 1) deepest := by
  simp only [closings, List.mem_cons, List.not_mem_nil, or_false] at hb
  rcases hb with rfl | rfl <;> rfl

theorem nestingLoop_other {b : UInt8} (hb : b ∉ byte '#' :: byte '"' :: (openings ++ closings)) :
    nestingLoop (fuel + 1) (b :: rest) depth deepest = nestingLoop fuel rest depth deepest := by
  simp only [openings, closings, List.cons_append, List.nil_append, List.mem_cons,
    List.not_mem_nil, or_false, not_or] at hb
  simp [nestingLoop, hb]

/-- **One round.** The loop gets over an element and keeps the highest level, unless the element is a
comment that ends with a carriage return or a block string with escaped quotes. -/
theorem nestingLoop_lexeme {l : Lexeme} (hok : l.Ok rest) (hcr : l.kind ≠ some (.comment .cr))
    (hescaped : l.kind ≠ some .escapedBlock) (hle : depth ≤ deepest) :
    nestingLoop (fuel + 1) (l.text ++ rest) depth deepest =
      nestingLoop fuel rest (l.level depth) (max deepest (l.level depth)) := by
  have hmax : max deepest depth = deepest := Nat.max_eq_left hle
  cases l with
  | comment body stop =>
    rw [nestingLoop_comment hok fun h => hcr (h ▸ rfl)]
    simp only [Lexeme.level, hmax]
  | string chars =>
    rw [nestingLoop_string hok]
    simp only [Lexeme.level, hmax]
  | block chars =>
    have hplain : BlockChar.quotes ∉ chars := fun h => hescaped (by rw [Lexeme.kind, if_pos h])
    rw [nestingLoop_block hok hplain]
    simp only [Lexeme.level, hmax]
  | opening b => exact nestingLoop_opening hok
  | closing b =>
    have hlevel : max deepest (depth - 1) = deepest :=
      Nat.max_eq_left ((Nat.sub_le _ _).trans hle)
    simp only [Lexeme.level, hlevel]
    exact nestingLoop_closing hok
  | other b =>
    simp only [Lexeme.level, hmax]
    exact nestingLoop_other hok

end Round

/-! ## The whole text -/

theorem Lexeme.text_length_pos (l : Lexeme) : 0 < l.text.length := by
  cases l <;> simp [Lexeme.text, blockQuote]

/-- The loop finds the highest level of the brackets. -/
theorem nestingLoop_render {ls : List Lexeme} (hls : Lexical ls)
    (hplain : ∀ l ∈ ls, l.kind ≠ some (.comment .cr) ∧ l.kind ≠ some .escapedBlock)
    {fuel depth deepest : ℕ} (hfuel : (render ls).length ≤ fuel) (hle : depth ≤ deepest) :
    nestingLoop fuel (render ls) depth deepest = max deepest (nestingFrom depth ls) := by
  induction ls generalizing fuel depth deepest with
  | nil => rw [render, nestingLoop_nil, nestingFrom, Nat.max_eq_left hle]
  | cons l ls ih =>
    obtain ⟨hok, hls⟩ := hls
    rw [List.forall_mem_cons] at hplain
    have hpos := l.text_length_pos
    rw [render, List.length_append] at hfuel
    obtain ⟨fuel, rfl⟩ : ∃ n, fuel = n + 1 := ⟨fuel - 1, by omega⟩
    rw [render, nestingLoop_lexeme hok hplain.1.1 hplain.1.2 hle,
      ih hls hplain.2 (by omega) (Nat.le_max_right _ _), nestingFrom]
    -- the level behind the element is one of those that follow
    have hlevel : l.level depth ≤ nestingFrom (l.level depth) ls := by
      cases ls with
      | nil => exact Nat.le_refl _
      | cons _ _ => exact Nat.le_max_left _ _
    omega

/-- Above the budget the parser has no say. -/
theorem check_unparsed {query : GoString} {policy : GraphQLProtection}
    (h : nestingBudget policy < graphQLNestingDepth query) :
    ∃ e, ∀ parse, checkGraphQLRequest parse query policy = .error e := by
  by_cases hblank : trimSpace query = []
  · exact ⟨_, fun parse => by rw [checkGraphQLRequest, if_pos hblank]; rfl⟩
  by_cases hsize : (if policy.maxQueryBytes ≤ 0 then defaultGraphQLMaxQueryBytes
      else policy.maxQueryBytes) < query.length
  · exact ⟨_, fun parse => by rw [checkGraphQLRequest, if_neg hblank]; exact if_pos hsize⟩
  · refine ⟨str "query nesting exceeds maximum allowed limit of " ++ itoa (nestingBudget policy),
      fun parse => ?_⟩
    rw [checkGraphQLRequest, if_neg hblank]
    exact (if_neg hsize).trans (if_pos h)

theorem measured_of_plain {ls : List Lexeme} (hls : Lexical ls)
    (hplain : ∀ l ∈ ls, l.kind ≠ some (.comment .cr) ∧ l.kind ≠ some .escapedBlock) :
    Measured ls := by
  have hdepth : graphQLNestingDepth (render ls) = nesting ls := by
    rw [graphQLNestingDepth, nestingLoop_render hls hplain (Nat.le_refl _) (Nat.le_refl _),
      Nat.zero_max, nesting]
  refine ⟨hdepth, fun policy hbudget => ?_⟩
  rw [← hdepth] at hbudget
  exact check_unparsed hbudget

/-- A bracket behind a comment that ends with a carriage return. -/
def crQuery (n : ℕ) : List Lexeme := .comment [] .cr :: .replicate n (.opening (byte '{'))

/-- A bracket behind a block string with escaped quotes. -/
def escapedQuery : List Lexeme := [.block [.quotes], .opening (byte '{')]

theorem crQuery_not_measured : Lexical (crQuery 1) ∧ ¬ Measured (crQuery 1) :=
  ⟨by decide, fun h => absurd h.depth (by decide)⟩

theorem escapedQuery_not_measured : Lexical escapedQuery ∧ ¬ Measured escapedQuery :=
  ⟨by decide, fun h => absurd h.depth (by decide)⟩

/-- **Which queries are measured.** All queries with comments and strings of the given kinds are
measured exactly if these are neither comments that end with a lone carriage return nor block strings
with escaped quotes. -/
theorem measured_iff (kinds : LiteralKind → Prop) :
    (∀ ls, Lexical ls → Admits kinds ls → Measured ls) ↔
      ¬ kinds (.comment .cr) ∧ ¬ kinds .escapedBlock := by
  constructor
  · intro h
    refine ⟨fun hcr => ?_, fun hescaped => ?_⟩
    · refine crQuery_not_measured.2 (h _ crQuery_not_measured.1 fun l hl k hk => ?_)
      rcases List.mem_cons.mp hl with rfl | hl
      · obtain rfl := Option.some.inj hk
        exact hcr
      · rw [List.eq_of_mem_replicate hl] at hk
        cases hk
    · refine escapedQuery_not_measured.2 (h _ escapedQuery_not_measured.1 fun l hl k hk => ?_)
      rcases List.mem_cons.mp hl with rfl | hl
      · obtain rfl := Option.some.inj hk
        exact hescaped
      · rw [List.mem_singleton.mp hl] at hk
        cases hk
  · rintro ⟨hcr, hescaped⟩ ls hls hadmits
    refine measured_of_plain hls fun l hl => ⟨fun h => hcr (hadmits l hl _ h), fun h => ?_⟩
    exact hescaped (hadmits l hl _ h)

/-- **Hidden brackets.** A comment that ends with a carriage return hides all nesting up to the next
line feed, also from the budget; escaped quotes hide what follows the block string. -/
theorem hidden_nesting :
    (Lexical (crQuery 100) ∧ nesting (crQuery 100) = 100 ∧
      graphQLNestingDepth (render (crQuery 100)) = 0 ∧ nestingBudget default < 100 ∧
      checkGraphQLRequest (fun _ => some [.operation []]) (render (crQuery 100)) default =
        .ok ()) ∧
    Lexical escapedQuery ∧ nesting escapedQuery = 1 ∧
      graphQLNestingDepth (render escapedQuery) = 0 := by
  decide +kernel

end SynitWaf
