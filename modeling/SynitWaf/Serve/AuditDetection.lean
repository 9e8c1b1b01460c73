import SynitWaf.Go.AddrPort
import SynitWaf.Regex

/-!
# Detections in audit mode

In audit mode Coraza reports no matched rule as disruptive, so `wouldDisrupt` looks for a blocking
action in the text of the rule, once single-quoted values have been removed from it. The text is not
read as a rule: a word of the operator counts as well, and a quote in the operator or in a value
moves the quotes behind it.

* `removeQuoted`, `disruptiveActionPattern`, `wouldDisrupt`;
* **`removeQuoted_append`**, `exists_removeQuoted_hidden`: quotes with and without partner;
* `Blocks`, `test_iff_blocks`: what the pattern finds; **`blocks_split`**, `blocks_colon`: a text is
  searched part by part;
* `RuleAction`, `secRule`: the text of a rule; `OpensOutside`: no value opens within quotes;
* **`wouldDisrupt_secRule`**: what is found in such a rule;
* `Exact`, `Harmless`, **`wouldDisrupt_exact_iff`**: the rules that are judged by their actions;
  `operator_mistaken`: others.
-/

namespace SynitWaf

open Go

/-! ## The search -/

/-- The single quote. -/
def quote : UInt8 := 0x27

/-- `quotedRuleValuePattern.ReplaceAllString(s, "")`, of which `skip` bytes belong to a match. -/
def removeQuotedFrom : ℕ → GoString → GoString
  | _, [] => []
  | skip + 1, _ :: s => removeQuotedFrom skip s
  | 0, c :: s =>
    if c = quote then
      match indexByte s quote with
      | some i => removeQuotedFrom (i + 1) s
      | none => c :: removeQuotedFrom 0 s
    else c :: removeQuotedFrom 0 s

/-- `quotedRuleValuePattern.ReplaceAllString(s, "")`. -/
def removeQuoted (s : GoString) : GoString := removeQuotedFrom 0 s

/-- `\s`. -/
def ruleBlanks : GoString := [0x09, 0x0A, 0x0C, 0x0D, 0x20]

/-- `[,"\s]`. -/
def beforeAction : GoString := byte ',' :: 0x22 :: ruleBlanks

/-- `[,:"\s]`. -/
def afterAction : GoString := byte ',' :: byte ':' :: 0x22 :: ruleBlanks

/-- The actions the pattern looks for. -/
def blockingActions : List GoString := [str "deny", str "drop", str "redirect"]

/-- `disruptiveActionPattern`. -/
def disruptiveActionPattern : Regex UInt8 :=
  .seq (.anyOf .atBegin (beforeAction.map ([·])))
    (.seq (.anyOf (.word .empty (str "deny")) [str "drop", str "redirect"])
      (.anyOf .atEnd (afterAction.map ([·]))))

/-- `types.MatchedRule`, as far as it is read. -/
structure MatchedRule where
  id : ℤ
  disruptive : Bool
  raw : GoString

/-- `wouldDisrupt`. -/
def wouldDisrupt (rule : MatchedRule) : Bool :=
  if rule.disruptive then true else disruptiveActionPattern.test (removeQuoted rule.raw)

/-! ## Quotes -/

/-- Quotes are in pairs. -/
def Paired (s : GoString) : Prop := s.count quote % 2 = 0

instance : DecidablePred Paired := fun s => inferInstanceAs (Decidable (s.count quote % 2 = 0))

section Quotes

variable {s t : GoString}

theorem paired_of_not_mem (h : quote ∉ s) : Paired s := by
  unfold Paired
  rw [List.count_eq_zero.mpr h]

theorem paired_append_iff : Paired (s ++ t) ↔ (Paired s ↔ Paired t) := by
  unfold Paired
  rw [List.count_append]
  omega

/-- A part without quotes does not matter. -/
theorem paired_append (ht : quote ∉ t) : Paired (s ++ t) ↔ Paired s := by
  rw [paired_append_iff, iff_true_right (paired_of_not_mem ht)]

theorem removeQuotedFrom_length (s t : GoString) :
    removeQuotedFrom s.length (s ++ t) = removeQuoted t := by
  induction s with
  | nil => rfl
  | cons c s ih => exact ih

theorem removeQuoted_cons {c : UInt8} (hc : c ≠ quote) :
    removeQuoted (c :: s) = c :: removeQuoted s := by
  rw [removeQuoted, removeQuotedFrom, if_neg hc]
  rfl

theorem removeQuoted_pair (hs : quote ∉ s) :
    removeQuoted (quote :: (s ++ quote :: t)) = removeQuoted t := by
  have hskip := removeQuotedFrom_length (s ++ [quote]) t
  rw [List.length_append, List.length_singleton, List.append_assoc, List.singleton_append] at hskip
  rw [removeQuoted, removeQuotedFrom, if_pos rfl, indexByte_append hs]
  exact hskip

theorem removeQuoted_last (hs : quote ∉ s) : removeQuoted (quote :: s) = quote :: removeQuoted s := by
  have hnone : indexByte s quote = none := List.idxOf?_eq_none_iff.mpr hs
  rw [removeQuoted, removeQuotedFrom, if_pos rfl, hnone]
  rfl

theorem removeQuoted_of_not_mem (hs : quote ∉ s) : removeQuoted s = s := by
  induction s with
  | nil => rfl
  | cons c s ih =>
    rw [List.mem_cons, not_or] at hs
    rw [removeQuoted_cons (Ne.symm hs.1), ih hs.2]

theorem paired_pair (hs : quote ∉ s) : Paired (quote :: (s ++ quote :: t)) ↔ Paired t := by
  unfold Paired
  rw [List.count_cons_self, List.count_append, List.count_cons_self, List.count_eq_zero.mpr hs]
  omega

/-- **Parts of a text** are searched for quotes one by one, if those of the first part are in pairs or
the second part has none. -/
theorem removeQuoted_append (h : Paired s ∨ quote ∉ t) :
    removeQuoted (s ++ t) = removeQuoted s ++ removeQuoted t := by
  induction hn : s.length using Nat.strongRecOn generalizing s with
  | ind n ih =>
    cases s with
    | nil => rfl
    | cons c s =>
      rw [List.length_cons] at hn
      by_cases hc : c = quote
      · subst hc
        by_cases hmem : quote ∈ s
        · obtain ⟨a, b, rfl, ha⟩ := List.eq_append_cons_of_mem hmem
          rw [List.length_append, List.length_cons] at hn
          rw [List.cons_append, List.append_assoc, List.cons_append, removeQuoted_pair ha,
            removeQuoted_pair ha]
          exact ih b.length (by omega) (h.imp_left (paired_pair ha).mp) rfl
        · -- the quote has no partner, and none follows
          have ht : quote ∉ t := by
            refine h.resolve_left fun hp => ?_
            rw [Paired, List.count_cons_self, List.count_eq_zero.mpr hmem] at hp
            cases hp
          have happend : quote ∉ s ++ t := fun hin => (List.mem_append.mp hin).elim hmem ht
          rw [List.cons_append, removeQuoted_last happend, removeQuoted_last hmem,
            removeQuoted_of_not_mem happend, removeQuoted_of_not_mem hmem,
            removeQuoted_of_not_mem ht, List.cons_append]
      · have hs : Paired (c :: s) ↔ Paired s := by rw [Paired, List.count_cons_of_ne hc, Paired]
        rw [List.cons_append, removeQuoted_cons hc, removeQuoted_cons hc,
          ih s.length (by omega) (h.imp_left hs.mp) rfl, List.cons_append]

/-- **A quote without partner** hides what stands before the next one. -/
theorem exists_removeQuoted_hidden (hs : ¬ Paired s) : ∃ r, ∀ y z, quote ∉ y →
    removeQuoted (s ++ (y ++ quote :: z)) = r ++ removeQuoted z := by
  have hmem : quote ∈ s.reverse := List.mem_reverse.mpr (not_not.mp (mt paired_of_not_mem hs))
  obtain ⟨b, a, hab, hb⟩ := List.eq_append_cons_of_mem hmem
  obtain rfl : s = a.reverse ++ quote :: b.reverse := by simpa using congrArg List.reverse hab
  rw [← List.mem_reverse] at hb
  have ha : Paired a.reverse := by
    unfold Paired at hs ⊢
    rw [List.count_append, List.count_cons_self, List.count_eq_zero.mpr hb] at hs
    omega
  refine ⟨removeQuoted a.reverse, fun y z hy => ?_⟩
  have hby : quote ∉ b.reverse ++ y := fun hin => (List.mem_append.mp hin).elim hb hy
  rw [List.append_assoc, List.cons_append, ← List.append_assoc b.reverse,
    removeQuoted_append (.inl ha), removeQuoted_pair hby]

end Quotes

/-! ## Words -/

/-- A blocking action stands in the text as a word of its own. -/
def Blocks (s : GoString) : Prop :=
  ∃ a w b, s = a ++ (w ++ b) ∧ w ∈ blockingActions ∧
    (a = [] ∨ ∃ x, ∃ d ∈ beforeAction, a = x ++ [d]) ∧ (b = [] ∨ ∃ d ∈ afterAction, ∃ y, b = d :: y)

/-- Blocking actions are words without separators. -/
theorem blockingActions_spec {w : GoString} (hw : w ∈ blockingActions) :
    w ≠ [] ∧ ∀ c ∈ afterAction, c ∉ w := by
  have hwords : ∀ w ∈ blockingActions, w ≠ [] ∧ ∀ c ∈ afterAction, c ∉ w := by decide +kernel
  exact hwords w hw

/-- **What the pattern finds.** -/
theorem test_iff_blocks {s : GoString} : disruptiveActionPattern.test s = true ↔ Blocks s := by
  rw [Regex.test_iff]
  unfold disruptiveActionPattern Blocks
  simp only [Regex.mem_ends_seq, Regex.mem_ends_anyChar, Regex.mem_ends_words,
    Regex.mem_ends_atBegin, Regex.mem_ends_atEnd]
  constructor
  · rintro ⟨a, b, q, rfl, m, hm, n, ⟨w, hw, hrest, -⟩, hq⟩
    have hafter : n.rest = [] ∨ ∃ d ∈ afterAction, ∃ y, n.rest = d :: y := by
      obtain ⟨-, hend⟩ | ⟨d, hd, hrest, -⟩ := hq
      · exact .inl hend
      · exact .inr ⟨d, hd, _, hrest⟩
    obtain ⟨rfl, hfirst⟩ | ⟨d, hd, rfl, -⟩ := hm
    · obtain rfl : a = [] := List.isEmpty_iff.mp hfirst
      exact ⟨[], w, n.rest, hrest, hw, .inl rfl, hafter⟩
    · exact ⟨a ++ [d], w, n.rest, by simp [hrest], hw, .inr ⟨a, d, hd, rfl⟩, hafter⟩
  · rintro ⟨a, w, b, rfl, hw, ha, hb⟩
    have hafter : ∃ q : Regex.Position UInt8, (q = ⟨false, b⟩ ∧ b = []) ∨
        ∃ d ∈ afterAction, b = d :: q.rest ∧ q.first = false := by
      obtain rfl | ⟨d, hd, y, rfl⟩ := hb
      · exact ⟨_, .inl ⟨rfl, rfl⟩⟩
      · exact ⟨⟨false, y⟩, .inr ⟨d, hd, rfl, rfl⟩⟩
    have hne : w.isEmpty = false := List.isEmpty_eq_false_iff.mpr (blockingActions_spec hw).1
    obtain ⟨q, hq⟩ := hafter
    obtain rfl | ⟨x, d, hd, rfl⟩ := ha
    · exact ⟨[], w ++ b, q, rfl, ⟨true, w ++ b⟩, .inl ⟨rfl, rfl⟩, ⟨false, b⟩,
        ⟨w, hw, rfl, by simp [hne]⟩, hq⟩
    · exact ⟨x, d :: (w ++ b), q, by simp, ⟨false, w ++ b⟩, .inr ⟨d, hd, rfl, rfl⟩, ⟨false, b⟩,
        ⟨w, hw, rfl, rfl⟩, hq⟩

section Words

variable {a w b x y s : GoString} {c d : UInt8}

theorem mem_afterAction (hd : d ∈ beforeAction) : d ∈ afterAction := by
  have hall : ∀ d ∈ beforeAction, d ∈ afterAction := by decide +kernel
  exact hall d hd

/-- A byte that is not in the word `w` stands before or behind it. -/
theorem word_split (h : a ++ (w ++ b) = x ++ c :: y) (hc : c ∉ w) :
    (∃ a', a = x ++ c :: a' ∧ y = a' ++ (w ++ b)) ∨ ∃ b', b = b' ++ c :: y ∧ x = a ++ (w ++ b') := by
  obtain ⟨a', rfl, hbehind⟩ | ⟨t, rfl, hbefore⟩ := List.append_eq_append_iff.mp h
  · obtain ⟨b', rfl, hb⟩ | ⟨t, rfl, hwithin⟩ := List.append_eq_append_iff.mp hbehind
    · exact .inr ⟨b', hb, rfl⟩
    · cases t with
      | nil => exact .inr ⟨[], hwithin.symm, by simp⟩
      | cons e t =>
        obtain ⟨rfl, -⟩ := List.cons.inj hwithin
        exact absurd (by simp) hc
  · cases t with
    | nil =>
      cases w with
      | nil => exact .inr ⟨[], hbefore.symm, by simp⟩
      | cons e w =>
        obtain ⟨rfl, -⟩ := List.cons.inj hbefore
        exact absurd List.mem_cons_self hc
    | cons e t =>
      obtain ⟨rfl, rfl⟩ := List.cons.inj hbefore
      exact .inl ⟨t, rfl, rfl⟩

theorem Blocks.append (h : Blocks x) (hd : d ∈ afterAction) (y : GoString) :
    Blocks (x ++ d :: y) := by
  obtain ⟨a, w, b, rfl, hw, ha, hb⟩ := h
  refine ⟨a, w, b ++ d :: y, by simp, hw, ha, .inr ?_⟩
  obtain rfl | ⟨e, he, z, rfl⟩ := hb
  · exact ⟨d, hd, y, rfl⟩
  · exact ⟨e, he, z ++ d :: y, rfl⟩

theorem getLast_before {a' : GoString}
    (ha : x ++ c :: a' = [] ∨ ∃ z, ∃ d ∈ beforeAction, x ++ c :: a' = z ++ [d]) :
    (a' = [] ∧ c ∈ beforeAction) ∨ ∃ z, ∃ d ∈ beforeAction, a' = z ++ [d] := by
  obtain ha | ⟨z, d, hd, ha⟩ := ha
  · simp at ha
  obtain rfl | ⟨a', e, rfl⟩ := List.eq_nil_or_concat a'
  · obtain ⟨-, hcd⟩ := List.append_inj' ha rfl
    obtain rfl : c = d := by simpa using hcd
    exact .inl ⟨rfl, hd⟩
  · have hlast : (x ++ c :: a') ++ [e] = z ++ [d] := by simpa using ha
    obtain ⟨-, hed⟩ := List.append_inj' hlast rfl
    obtain rfl : e = d := by simpa using hed
    exact .inr ⟨a', e, hd, by simp⟩

theorem head_after {b' : GoString}
    (hb : b' ++ c :: y = [] ∨ ∃ d ∈ afterAction, ∃ z, b' ++ c :: y = d :: z) :
    b' = [] ∨ ∃ d ∈ afterAction, ∃ z, b' = d :: z := by
  obtain hb | ⟨d, hd, z, hb⟩ := hb
  · simp at hb
  · cases b' with
    | nil => exact .inl rfl
    | cons e b' => exact .inr ⟨e, (List.cons.inj hb).1 ▸ hd, b', rfl⟩

theorem colon_ne_word (hw : w ∈ blockingActions) : byte ':' :: y ≠ w ++ b := by
  obtain ⟨hne, hbytes⟩ := blockingActions_spec hw
  obtain ⟨e, w, rfl⟩ := List.exists_cons_of_ne_nil hne
  intro h
  obtain ⟨rfl, -⟩ := List.cons.inj h
  exact hbytes (byte ':') (by decide) List.mem_cons_self

/-- **A separator**: the text is searched on both sides of it. -/
theorem blocks_split (hd : d ∈ beforeAction) : Blocks (x ++ d :: y) ↔ Blocks x ∨ Blocks y := by
  constructor
  · rintro ⟨a, w, b, h, hw, ha, hb⟩
    obtain ⟨a', rfl, rfl⟩ | ⟨b', rfl, rfl⟩ :=
      word_split h.symm ((blockingActions_spec hw).2 d (mem_afterAction hd))
    · exact .inr ⟨a', w, b, rfl, hw, (getLast_before ha).imp_left And.left, hb⟩
    · exact .inl ⟨a, w, b', rfl, hw, ha, head_after hb⟩
  · rintro (h | ⟨a, w, b, rfl, hw, ha, hb⟩)
    · exact h.append (mem_afterAction hd) y
    · refine ⟨x ++ d :: a, w, b, by simp, hw, .inr ?_, hb⟩
      obtain rfl | ⟨z, e, he, rfl⟩ := ha
      · exact ⟨x, d, hd, rfl⟩
      · exact ⟨x ++ d :: z, e, he, by simp⟩

/-- **A colon** ends a word but begins none. -/
theorem blocks_colon :
    Blocks (x ++ byte ':' :: y) ↔ Blocks x ∨ Blocks (byte ':' :: y) := by
  have hcolon : byte ':' ∈ afterAction ∧ byte ':' ∉ beforeAction := by decide
  constructor
  · rintro ⟨a, w, b, h, hw, ha, hb⟩
    obtain ⟨a', rfl, rfl⟩ | ⟨b', rfl, rfl⟩ :=
      word_split h.symm ((blockingActions_spec hw).2 _ hcolon.1)
    · obtain ⟨-, hbefore⟩ | ⟨z, d, hd, rfl⟩ := getLast_before ha
      · exact absurd hbefore hcolon.2
      · exact .inr ⟨byte ':' :: (z ++ [d]), w, b, rfl, hw, .inr ⟨byte ':' :: z, d, hd, rfl⟩, hb⟩
    · exact .inl ⟨a, w, b', rfl, hw, ha, head_after hb⟩
  · rintro (h | ⟨a, w, b, h, hw, ha, hb⟩)
    · exact h.append hcolon.1 y
    · refine ⟨x ++ a, w, b, by rw [List.append_assoc, h], hw, ?_, hb⟩
      obtain rfl | ⟨z, d, hd, rfl⟩ := ha
      · exact absurd (show byte ':' :: y = w ++ b from h) (colon_ne_word hw)
      · exact .inr ⟨x ++ z, d, hd, by simp⟩

theorem not_blocks_nil : ¬ Blocks [] := by
  rintro ⟨a, w, b, h, hw, -⟩
  obtain ⟨-, h⟩ := List.append_eq_nil_iff.mp h.symm
  exact (blockingActions_spec hw).1 (List.append_eq_nil_iff.mp h).1

theorem blocks_blanks (hx : ∀ c ∈ x, c ∈ beforeAction) : Blocks (x ++ y) ↔ Blocks y := by
  induction x with
  | nil => rfl
  | cons c x ih =>
    rw [List.forall_mem_cons] at hx
    have hsplit : Blocks ([] ++ c :: (x ++ y)) ↔ _ := blocks_split hx.1
    rw [or_iff_right not_blocks_nil] at hsplit
    exact hsplit.trans (ih hx.2)

theorem blocks_append_blanks (hy : ∀ c ∈ y, c ∈ beforeAction) : Blocks (x ++ y) ↔ Blocks x := by
  cases y with
  | nil => rw [List.append_nil]
  | cons c y =>
    rw [List.forall_mem_cons] at hy
    have hrest := blocks_blanks (y := []) hy.2
    rw [List.append_nil] at hrest
    rw [blocks_split hy.1, hrest, or_iff_left not_blocks_nil]

/-- A text without separators is a blocking action or none. -/
theorem blocks_name (hs : ∀ c ∈ s, c ∉ afterAction) : Blocks s ↔ s ∈ blockingActions := by
  constructor
  · rintro ⟨a, w, b, rfl, hw, ha, hb⟩
    obtain rfl | ⟨x, d, hd, rfl⟩ := ha
    · obtain rfl | ⟨d, hd, y, rfl⟩ := hb
      · simpa using hw
      · exact absurd hd (hs d (by simp))
    · exact absurd (mem_afterAction hd) (hs d (by simp))
  · exact fun hw => ⟨[], s, [], by simp, hw, .inl rfl, .inl rfl⟩

end Words

/-! ## Rules -/

/-- The name of an action. -/
structure ActionName where
  text : GoString
  isWord : ∀ c ∈ text, c < 0x80 ∧ c ∉ afterAction ∧ c ≠ quote

/-- The value of an action: a text up to the next comma, or one between quotes, in which quotes are
escaped. -/
inductive ActionValue where
  | plain (text : GoString) (isPlain : ∀ c ∈ text, c ≠ byte ',' ∧ c ≠ quote)
  | quoted (text : GoString)

/-- An action of a rule, with the blanks around it. -/
structure RuleAction where
  left : GoString
  name : ActionName
  value : Option ActionValue
  right : GoString
  left_blank : ∀ c ∈ left, c ∈ ruleBlanks
  right_blank : ∀ c ∈ right, c ∈ ruleBlanks

/-- A value, as it is written. -/
def ActionValue.text : ActionValue → GoString
  | .plain t _ => byte ':' :: t
  | .quoted t => byte ':' :: quote :: (t ++ [quote])

/-- The value of an action as it is written, if there is one. -/
def RuleAction.valueText (a : RuleAction) : GoString := (a.value.map ActionValue.text).getD []

/-- An action, as it is written. -/
def RuleAction.text (a : RuleAction) : GoString := a.left ++ (a.name.text ++ (a.valueText ++ a.right))

/-- The text of a rule before its actions. -/
def ruleHead (vars operator : GoString) : GoString :=
  str "SecRule " ++ vars ++ [0x20, 0x22] ++ operator ++ [0x22, 0x20]

/-- The text `SecRule VARIABLES "OPERATOR" "ACTIONS"`. -/
def secRule (vars operator : GoString) (actions : List RuleAction) : GoString :=
  ruleHead vars operator ++ 0x22 :: (join (actions.map RuleAction.text) (byte ',') ++ [0x22])

/-- The action is `deny`, `drop` or `redirect`; the case of its letters does not matter to Coraza. -/
def RuleAction.Blocking (a : RuleAction) : Prop := lowerASCII a.name.text ∈ blockingActions

/-- The values of an action list. -/
def actionValues (actions : List RuleAction) : List ActionValue := actions.filterMap RuleAction.value

/-- Every value with quotes in it opens outside of quotes: in what stands before it, `x` and the other
values, they are in pairs. -/
def OpensOutside (x : GoString) : List ActionValue → Prop
  | [] => True
  | v :: values => (quote ∈ v.text → Paired x) ∧ OpensOutside (x ++ v.text) values

section Rules

variable {a : RuleAction} {x y : GoString} {values : List ActionValue} {actions : List RuleAction}

theorem OpensOutside.congr (hxy : Paired x ↔ Paired y) (h : OpensOutside x values) :
    OpensOutside y values := by
  induction values generalizing x y with
  | nil => trivial
  | cons v values ih =>
    refine ⟨fun hv => hxy.mp (h.1 hv), ih ?_ h.2⟩
    rw [paired_append_iff, paired_append_iff, hxy]

theorem exists_of_not_opensOutside (h : ¬ OpensOutside x values) :
    ∃ before v behind, values = before ++ v :: behind ∧ quote ∈ v.text ∧
      ¬ Paired (x ++ before.flatMap ActionValue.text) := by
  induction values generalizing x with
  | nil => exact absurd trivial h
  | cons v values ih =>
    rw [OpensOutside, not_and_or, Classical.not_imp] at h
    obtain ⟨hv, hx⟩ | h := h
    · exact ⟨[], v, values, rfl, hv, by simpa using hx⟩
    · obtain ⟨before, v', behind, rfl, hv, hx⟩ := ih h
      exact ⟨v :: before, v', behind, rfl, hv, by simpa using hx⟩

theorem quote_not_mem_blanks {b : GoString} (hb : ∀ c ∈ b, c ∈ ruleBlanks) : quote ∉ b := by
  have hno : quote ∉ ruleBlanks := by decide
  exact fun hmem => hno (hb quote hmem)

theorem blanks_beforeAction {b : GoString} (hb : ∀ c ∈ b, c ∈ ruleBlanks) :
    ∀ c ∈ b, c ∈ beforeAction :=
  fun c hc => List.mem_cons_of_mem _ (List.mem_cons_of_mem _ (hb c hc))

theorem ActionName.quote_not_mem (n : ActionName) : quote ∉ n.text :=
  fun hmem => (n.isWord quote hmem).2.2 rfl

/-- The quotes of an action are those of its value. -/
theorem RuleAction.quote_mem_text : quote ∈ a.text ↔ quote ∈ a.valueText := by
  simp [text, quote_not_mem_blanks a.left_blank, quote_not_mem_blanks a.right_blank,
    a.name.quote_not_mem]

theorem RuleAction.paired_text : Paired (x ++ a.text) ↔ Paired (x ++ a.valueText) := by
  have hleft := paired_of_not_mem (quote_not_mem_blanks a.left_blank)
  have hname := paired_of_not_mem a.name.quote_not_mem
  have hright := paired_of_not_mem (quote_not_mem_blanks a.right_blank)
  simp [text, paired_append_iff, hleft, hname, hright]

/-- What is left of an action. -/
theorem RuleAction.removeQuoted_text :
    removeQuoted a.text = a.left ++ (a.name.text ++ (removeQuoted a.valueText ++ a.right)) := by
  have hleft := quote_not_mem_blanks a.left_blank
  have hright := quote_not_mem_blanks a.right_blank
  have hname := a.name.quote_not_mem
  rw [text, removeQuoted_append (.inl (paired_of_not_mem hleft)), removeQuoted_of_not_mem hleft,
    removeQuoted_append (.inl (paired_of_not_mem hname)), removeQuoted_of_not_mem hname,
    removeQuoted_append (.inr hright), removeQuoted_of_not_mem hright]

/-- **An action is found** by its name or by a word of its value. -/
theorem RuleAction.blocks_text : Blocks (removeQuoted a.text) ↔
    a.name.text ∈ blockingActions ∨ ∃ v ∈ a.value, Blocks (removeQuoted v.text) := by
  rw [removeQuoted_text, blocks_blanks (blanks_beforeAction a.left_blank), ← List.append_assoc,
    blocks_append_blanks (blanks_beforeAction a.right_blank),
    ← blocks_name fun c hc => (a.name.isWord c hc).2.1, valueText]
  cases a.value with
  | none => simp [removeQuoted, removeQuotedFrom]
  | some v =>
    obtain ⟨t, ht⟩ : ∃ t, v.text = byte ':' :: t := by cases v <;> exact ⟨_, rfl⟩
    simp [ht, removeQuoted_cons (show byte ':' ≠ quote by decide), blocks_colon]

theorem blocks_join {parts : List GoString} :
    Blocks (join parts (byte ',')) ↔ ∃ x ∈ parts, Blocks x := by
  have hcomma : byte ',' ∈ beforeAction := by decide
  induction parts with
  | nil => exact ⟨fun h => absurd h not_blocks_nil, nofun⟩
  | cons x parts ih =>
    cases parts with
    | nil => simp [join]
    | cons y parts =>
      rw [join_cons_cons, blocks_split hcomma]
      exact (or_congr_right ih).trans (List.exists_mem_cons_iff _ _ _).symm

/-- One action of a list, with what follows up to the next one. -/
theorem removeQuoted_action (h : quote ∈ a.text → Paired x) {c : UInt8} (hc : c ≠ quote) :
    removeQuoted (x ++ (a.text ++ [c])) = removeQuoted x ++ (removeQuoted a.text ++ [c]) := by
  have hlast : quote ∉ [c] := by simpa using hc.symm
  have hx : Paired x ∨ quote ∉ a.text ++ [c] := by
    by_cases ha : quote ∈ a.text
    · exact .inl (h ha)
    · exact .inr fun hmem => (List.mem_append.mp hmem).elim ha hlast
  rw [removeQuoted_append hx, removeQuoted_append (.inr hlast), removeQuoted_of_not_mem hlast]

/-- **The actions one after the other.** -/
theorem removeQuoted_join (h : OpensOutside x (actionValues actions)) :
    removeQuoted (x ++ (join (actions.map RuleAction.text) (byte ',') ++ [0x22])) =
      removeQuoted x ++
        (join (actions.map fun a => removeQuoted a.text) (byte ',') ++ [0x22]) := by
  have hcomma : byte ',' ≠ quote := by decide
  induction actions generalizing x with
  | nil =>
    have hlast : quote ∉ ([] ++ [0x22] : GoString) := by decide
    exact (removeQuoted_append (.inr hlast)).trans (by rw [removeQuoted_of_not_mem hlast]; rfl)
  | cons a actions ih =>
    -- the value of the first action opens outside, and the others behind it
    obtain ⟨hfirst, hrest⟩ : (quote ∈ a.text → Paired x) ∧
        OpensOutside (x ++ (a.text ++ [byte ','])) (actionValues actions) := by
      have hpaired : Paired (x ++ (a.text ++ [byte ','])) ↔ Paired (x ++ a.valueText) := by
        rw [← List.append_assoc, paired_append (by simpa using hcomma.symm), a.paired_text]
      rw [a.quote_mem_text]
      simp only [actionValues, List.filterMap_cons, RuleAction.valueText] at h hpaired ⊢
      cases hv : a.value with
      | none =>
        rw [hv] at h hpaired
        exact ⟨nofun, h.congr (by simpa using hpaired.symm)⟩
      | some v =>
        rw [hv] at h hpaired
        exact ⟨h.1, h.2.congr hpaired.symm⟩
    cases actions with
    | nil => simpa [join_singleton] using removeQuoted_action hfirst (c := 0x22) (by decide)
    | cons b actions =>
      have hnext := ih hrest
      rw [removeQuoted_action hfirst hcomma] at hnext
      simpa [join_cons_cons] using hnext

variable {vars operator : GoString}

theorem wouldDisrupt_iff {id : ℤ} {raw : GoString} :
    wouldDisrupt ⟨id, false, raw⟩ = true ↔ Blocks (removeQuoted raw) := by
  rw [wouldDisrupt, if_neg Bool.false_ne_true]
  exact test_iff_blocks

/-- **What is found in a rule** whose values open outside of quotes. -/
theorem wouldDisrupt_secRule {id : ℤ}
    (h : OpensOutside (ruleHead vars operator) (actionValues actions)) :
    wouldDisrupt ⟨id, false, secRule vars operator actions⟩ = true ↔
      Blocks (removeQuoted (ruleHead vars operator)) ∨
        ∃ a ∈ actions, a.name.text ∈ blockingActions ∨ ∃ v ∈ a.value, Blocks (removeQuoted v.text) := by
  have hdouble : 0x22 ∈ beforeAction ∧ 0x22 ≠ quote := by decide
  have hopens : OpensOutside (ruleHead vars operator ++ [0x22]) (actionValues actions) :=
    h.congr (paired_append (by simpa using hdouble.2.symm)).symm
  have hhead : removeQuoted (ruleHead vars operator ++ [0x22]) =
      removeQuoted (ruleHead vars operator) ++ [0x22] := by
    rw [removeQuoted_append (.inr (by simpa using hdouble.2.symm))]
    rfl
  have htext : secRule vars operator actions = ruleHead vars operator ++ [0x22] ++
      (join (actions.map RuleAction.text) (byte ',') ++ [0x22]) := by
    rw [secRule, List.append_assoc]
    rfl
  rw [wouldDisrupt_iff, htext, removeQuoted_join hopens, hhead, List.append_assoc,
    List.singleton_append, blocks_split hdouble.1, blocks_split hdouble.1,
    or_iff_left not_blocks_nil, blocks_join]
  simp [RuleAction.blocks_text]

end Rules

/-! ## Exactness -/

/-- The detection is right for every rule with this head and these values, whatever the other actions
are and however they are called: by names in lower case, or by some of `names`. -/
def Exact (vars operator : GoString) (names : List ActionName) (values : List ActionValue) : Prop :=
  ∀ (id : ℤ) (actions : List RuleAction), actionValues actions = values →
    (∀ a ∈ actions, lowerASCII a.name.text = a.name.text ∨ a.name ∈ names) →
    (wouldDisrupt ⟨id, false, secRule vars operator actions⟩ = true ↔ ∃ a ∈ actions, a.Blocking)

/-- Blocking actions are in lower case, values open outside of quotes, and once quotes are removed no
blocking action stands as a word before the actions or in a value. -/
structure Harmless (vars operator : GoString) (names : List ActionName) (values : List ActionValue) :
    Prop where
  names : ∀ n ∈ names, lowerASCII n.text ∈ blockingActions → n.text ∈ blockingActions
  opens : OpensOutside (ruleHead vars operator) values
  head : ¬ Blocks (removeQuoted (ruleHead vars operator))
  values : ∀ v ∈ values, ¬ Blocks (removeQuoted v.text)

/-- An action without blanks around it. -/
def action (name : ActionName) (value : Option ActionValue) : RuleAction :=
  ⟨[], name, value, [], nofun, nofun⟩

/-- The name `msg`. -/
def msgName : ActionName := ⟨str "msg", by decide +kernel⟩

/-- Messages with these values. -/
def messages (values : List ActionValue) : List RuleAction :=
  values.map fun v => action msgName (some v)

section Exactness

variable {vars operator : GoString} {names : List ActionName} {values : List ActionValue}

theorem actionValues_messages : actionValues (messages values) = values := by
  simp [actionValues, messages, List.filterMap_map, action]

theorem messages_spec {a : RuleAction} (ha : a ∈ messages values) :
    lowerASCII a.name.text = a.name.text ∧ ¬ a.Blocking := by
  obtain ⟨v, -, rfl⟩ := List.mem_map.mp ha
  refine ⟨show lowerASCII (str "msg") = str "msg" by decide, ?_⟩
  show lowerASCII (str "msg") ∉ blockingActions
  decide

theorem lowerASCII_blocking {w : GoString} (hw : w ∈ blockingActions) : lowerASCII w = w := by
  have hall : ∀ w ∈ blockingActions, lowerASCII w = w := by decide
  exact hall w hw

/-- **Harmless rules are judged by their actions.** -/
theorem exact_of_harmless (h : Harmless vars operator names values) :
    Exact vars operator names values := by
  rintro id actions rfl hnames
  rw [wouldDisrupt_secRule h.opens, or_iff_right h.head]
  constructor
  · rintro ⟨a, ha, hname | ⟨v, hv, hblocks⟩⟩
    · refine ⟨a, ha, ?_⟩
      rw [RuleAction.Blocking, lowerASCII_blocking hname]
      exact hname
    · exact absurd hblocks (h.values v (List.mem_filterMap.mpr ⟨a, ha, hv⟩))
  · rintro ⟨a, ha, hblocking⟩
    refine ⟨a, ha, .inl ?_⟩
    obtain hlower | hmem := hnames a ha
    · rw [← hlower]
      exact hblocking
    · exact h.names _ hmem hblocking

/-- A list of actions around one of them. -/
theorem join_split (before : List GoString) (p q : GoString) (behind : List GoString) :
    join (before ++ p :: q :: behind) (byte ',') =
      before.flatMap (· ++ [byte ',']) ++ (p ++ byte ',' :: join (q :: behind) (byte ',')) := by
  induction before with
  | nil => exact join_cons_cons _ _ _ _
  | cons b before ih =>
    cases before with
    | nil => simp [join_cons_cons]
    | cons b' before =>
      simp only [List.cons_append] at ih ⊢
      rw [join_cons_cons, ih]
      simp

theorem message_text (v : ActionValue) :
    (action msgName (some v)).text = str "msg" ++ v.text := by
  simp [action, RuleAction.text, RuleAction.valueText, msgName]

theorem paired_messages (values : List ActionValue) :
    Paired (((messages values).map RuleAction.text).flatMap (· ++ [byte ','])) ↔
      Paired (values.flatMap ActionValue.text) := by
  have hmsg : Paired (str "msg") ∧ Paired [byte ','] := by decide
  induction values with
  | nil => rfl
  | cons v values ih =>
    simp only [messages, List.map_cons, List.flatMap_cons, message_text, paired_append_iff, hmsg,
      true_iff, iff_true] at ih ⊢
    exact iff_congr Iff.rfl ih

/-- A rule with an action between messages. -/
theorem secRule_around (n : ActionName) (before behind : List ActionValue) (v : ActionValue) :
    secRule vars operator (messages before ++ action n none :: messages (v :: behind)) =
      (ruleHead vars operator ++
          0x22 :: ((messages before).map RuleAction.text).flatMap (· ++ [byte ','])) ++
        (n.text ++
          byte ',' :: (join ((messages (v :: behind)).map RuleAction.text) (byte ',') ++ [0x22])) := by
  have hsplit := join_split ((messages before).map RuleAction.text) n.text
    (action msgName (some v)).text ((messages behind).map RuleAction.text)
  have hname : (action n none).text = n.text := by
    simp [action, RuleAction.text, RuleAction.valueText]
  rw [secRule, List.map_append, List.map_cons, hname]
  simp only [messages, List.map_cons] at hsplit ⊢
  rw [hsplit]
  simp

/-- **A value opens outside of quotes** in every rule that is judged right: else an action in front of
it is hidden, be it blocking or not. -/
theorem opensOutside_of_exact (h : Exact vars operator names values) :
    OpensOutside (ruleHead vars operator) values := by
  by_contra hno
  obtain ⟨before, v, behind, rfl, hv, hodd⟩ := exists_of_not_opensOutside hno
  have hx : ¬ Paired (ruleHead vars operator ++
      0x22 :: ((messages before).map RuleAction.text).flatMap (· ++ [byte ','])) := by
    have hdouble : Paired [(0x22 : UInt8)] := by decide
    rw [paired_append_iff, ← paired_messages] at hodd
    rwa [paired_append_iff, ← List.singleton_append, paired_append_iff, iff_true_left hdouble]
  obtain ⟨r, hr⟩ := exists_removeQuoted_hidden hx
  -- the quote that hides the action is the first one behind it
  have hmem : quote ∈
      byte ',' :: (join ((messages (v :: behind)).map RuleAction.text) (byte ',') ++ [0x22]) := by
    cases behind <;> simp [messages, message_text, join_singleton, join_cons_cons, hv]
  obtain ⟨y, z, hyz, hy⟩ := List.eq_append_cons_of_mem hmem
  have hfound (n : ActionName) (hn : lowerASCII n.text = n.text) :
      Blocks (r ++ removeQuoted z) ↔ (action n none).Blocking := by
    have hny : quote ∉ n.text ++ y := fun hin =>
      (List.mem_append.mp hin).elim n.quote_not_mem hy
    have hactions : ∀ a ∈ messages before ++ action n none :: messages (v :: behind),
        a = action n none ∨ lowerASCII a.name.text = a.name.text ∧ ¬ a.Blocking := by
      intro a ha
      rw [List.mem_append, List.mem_cons] at ha
      obtain ha | rfl | ha := ha
      · exact .inr (messages_spec ha)
      · exact .inl rfl
      · exact .inr (messages_spec ha)
    have hvalues : actionValues (messages before ++ action n none :: messages (v :: behind)) =
        before ++ v :: behind := by
      simp only [actionValues, List.filterMap_append, List.filterMap_cons]
      exact congrArg₂ (· ++ ·) actionValues_messages actionValues_messages
    have hexact := h 0 _ hvalues fun a ha => .inl ((hactions a ha).elim (· ▸ hn) And.left)
    rw [wouldDisrupt_iff, secRule_around, hyz, ← List.append_assoc n.text, hr _ _ hny] at hexact
    rw [hexact]
    constructor
    · rintro ⟨a, ha, hblocking⟩
      obtain rfl | hquiet := hactions a ha
      · exact hblocking
      · exact absurd hblocking hquiet.2
    · exact fun hblocking => ⟨_, by simp, hblocking⟩
  have hdeny := hfound ⟨str "deny", by decide +kernel⟩ (by decide)
  have hpass := hfound ⟨str "pass", by decide +kernel⟩ (by decide)
  exact absurd (hpass.mp (hdeny.mpr (by unfold RuleAction.Blocking; decide)))
    (by unfold RuleAction.Blocking; decide)

end Exactness

/-- **Audit detection.** For every head, every list of values and every list of names, the detection
is right for all rules with this head and these values, whose actions are called by names in lower
case or by these names, exactly if they are harmless: blocking actions are in lower case, an even
number of quotes stands before each quoted value, and no blocking action stands as a word, outside of
paired quotes, before the actions or in a value. -/
theorem wouldDisrupt_exact_iff (vars operator : GoString) (names : List ActionName)
    (values : List ActionValue) :
    Exact vars operator names values ↔ Harmless vars operator names values := by
  refine ⟨fun h => ?_, exact_of_harmless⟩
  have hopens := opensOutside_of_exact h
  -- messages with these values, alone and behind an action without value
  have hmessages := h 0 (messages values) actionValues_messages fun a ha => .inl (messages_spec ha).1
  rw [wouldDisrupt_secRule (by rwa [actionValues_messages])] at hmessages
  have hquiet := mt hmessages.mp (by
    rintro ⟨a, ha, hblocking⟩
    exact (messages_spec ha).2 hblocking)
  rw [not_or] at hquiet
  refine ⟨fun n hn hlower => ?_, hopens, hquiet.1, fun v hv hblocks => hquiet.2 ?_⟩
  · have hvalues : actionValues (action n none :: messages values) = values := actionValues_messages
    have hnamed := h 0 (action n none :: messages values) hvalues fun a ha => ?_
    · rw [wouldDisrupt_secRule (by rwa [hvalues]), or_iff_right hquiet.1] at hnamed
      obtain ⟨a, ha, hfound⟩ := hnamed.mpr ⟨_, List.mem_cons_self, hlower⟩
      obtain rfl | ha := List.mem_cons.mp ha
      · exact hfound.resolve_right nofun
      · exact absurd ⟨a, ha, hfound⟩ hquiet.2
    · obtain rfl | ha := List.mem_cons.mp ha
      · exact .inr hn
      · exact .inl (messages_spec ha).1
  · exact ⟨_, List.mem_map_of_mem hv, .inr ⟨v, rfl, hblocks⟩⟩

/-- **Words and quotes are taken for actions.** A word of the operator, or of a value without quotes,
is detected as an action; a quote in the operator hides one from the search; and one in upper case is
not found. -/
theorem operator_mistaken :
    let id := action ⟨str "id", by decide +kernel⟩ (some (.plain (str "1") (by decide +kernel)))
    let pass := action ⟨str "pass", by decide +kernel⟩ none
    let deny := action ⟨str "deny", by decide +kernel⟩ none
    let upper := action ⟨str "DENY", by decide +kernel⟩ none
    let plain := action msgName (some (.plain (str "do not deny this") (by decide +kernel)))
    let quoted := action msgName (some (.quoted (str "blocked")))
    (secRule (str "ARGS") (str "@contains deny") [id, pass] =
        str "SecRule ARGS \"@contains deny\" \"id:1,pass\"" ∧
      wouldDisrupt ⟨1, false, secRule (str "ARGS") (str "@contains deny") [id, pass]⟩ = true) ∧
    (secRule (str "ARGS") (str "@contains it's") [id, deny, quoted] =
        str "SecRule ARGS \"@contains it's\" \"id:1,deny,msg:'blocked'\"" ∧
      wouldDisrupt ⟨1, false, secRule (str "ARGS") (str "@contains it's") [id, deny, quoted]⟩ =
        false) ∧
    (secRule (str "ARGS") (str "@rx x") [id, pass, plain] =
        str "SecRule ARGS \"@rx x\" \"id:1,pass,msg:do not deny this\"" ∧
      wouldDisrupt ⟨1, false, secRule (str "ARGS") (str "@rx x") [id, pass, plain]⟩ = true) ∧
    (secRule (str "ARGS") (str "@rx x") [id, upper] =
        str "SecRule ARGS \"@rx x\" \"id:1,DENY\"" ∧
      wouldDisrupt ⟨1, false, secRule (str "ARGS") (str "@rx x") [id, upper]⟩ = false) ∧
    deny.Blocking ∧ upper.Blocking ∧ ∀ a ∈ [id, pass, plain, quoted], ¬ a.Blocking := by
  unfold RuleAction.Blocking
  decide +kernel

end SynitWaf
