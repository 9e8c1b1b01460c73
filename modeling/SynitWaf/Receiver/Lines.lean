import SynitWaf.Go.Errors
import SynitWaf.Go.Json
import SynitWaf.Logging.Forwarder

/-!
# The lines of a log request

The log receiver takes JSON values, one on each line, and stores them as lines of a file. The
forwarder of the proxy sends its batches in this form.

* `nonEmptyLines`, `framed`: the lines of a text, and the text of lines;
  **`nonEmptyLines_append`**: a line feed separates lines;
* `logLines`: what the receiver stores; **`logLines_eq_ok`**: when, and what;
* `batchOf`: the batch a worker of the forwarder makes of events;
* **`logLines_framing`**.
-/

namespace SynitWaf

open Go

/-! ## Lines -/

/-- The lines of a text that are not empty. -/
def nonEmptyLines (body : GoString) : List GoString := (split body lf).filter (· ≠ [])

/-- The text of some lines, each of them terminated. -/
def framed (lines : List GoString) : GoString := lines.flatMap (· ++ [lf])

@[simp] theorem nonEmptyLines_nil : nonEmptyLines [] = [] := by
  simp [nonEmptyLines, split]

/-- **A line feed separates lines.** -/
theorem nonEmptyLines_append (a b : GoString) :
    nonEmptyLines (a ++ lf :: b) = nonEmptyLines a ++ nonEmptyLines b := by
  rw [nonEmptyLines, split_append_sep, List.filter_append]
  rfl

theorem nonEmptyLines_of_not_mem {line : GoString} (h : lf ∉ line) (hne : line ≠ []) :
    nonEmptyLines line = [line] := by
  simp [nonEmptyLines, split_of_not_mem h, hne]

/-- A line is not empty and has no line feed. -/
structure IsLine (line : GoString) : Prop where
  ne_nil : line ≠ []
  not_mem : lf ∉ line

theorem isLine_of_mem {body line : GoString} (h : line ∈ nonEmptyLines body) : IsLine line := by
  obtain ⟨hmem, hne⟩ := List.mem_filter.mp h
  exact ⟨by simpa using hne, not_mem_of_mem_split hmem⟩

/-- **The lines of a framed text** are the lines it was made of. -/
theorem nonEmptyLines_framed {lines : List GoString} (h : ∀ l ∈ lines, IsLine l) (rest : GoString) :
    nonEmptyLines (framed lines ++ rest) = lines ++ nonEmptyLines rest := by
  induction lines with
  | nil => rfl
  | cons l lines ih =>
    have hl := h l List.mem_cons_self
    have hcons : framed (l :: lines) ++ rest = l ++ lf :: (framed lines ++ rest) := by
      simp [framed]
    rw [hcons, nonEmptyLines_append, nonEmptyLines_of_not_mem hl.not_mem hl.ne_nil,
      ih fun x hx => h x (List.mem_cons_of_mem _ hx)]
    rfl

/-- The lines of a batch are its payloads. -/
theorem nonEmptyLines_batchBody {payloads : List GoString} (h : ∀ p ∈ payloads, IsLine p) :
    nonEmptyLines (batchBody payloads) = payloads := by
  induction payloads with
  | nil => exact nonEmptyLines_nil
  | cons p payloads ih =>
    have hp := h p List.mem_cons_self
    have hline := nonEmptyLines_of_not_mem hp.not_mem hp.ne_nil
    cases payloads with
    | nil => rw [batchBody, join_singleton, hline]
    | cons q payloads =>
      rw [batchBody, join_cons_cons, nonEmptyLines_append, hline]
      exact congrArg (p :: ·) (ih fun x hx => h x (List.mem_cons_of_mem _ hx))

/-! ## The source -/

section Lines

variable (valid : GoString → Bool)

/-- The loop of `logLines` over the lines of the body, with the number of lines and the payload so
far. -/
def logLinesLoop : List GoString → ℕ → GoString → Result (ℕ × GoString)
  | [], lines, payload => .ok (lines, payload)
  | line :: rest, lines, payload =>
    if line = [] then logLinesLoop rest lines payload
    else if containsFunc line (· < 0x20) then
      .error (str "line " ++ itoa (lines + 1 : ℕ) ++ str " contains a raw control character")
    else if valid line = false then
      .error (str "line " ++ itoa (lines + 1 : ℕ) ++ str " is not valid JSON")
    else logLinesLoop rest (lines + 1) (payload ++ line ++ [lf])

/-- `logLines`; `valid` is `json.Valid`. -/
def logLines (body : GoString) (single : Bool) : Result GoString := do
  let (lines, payload) ← logLinesLoop valid (split body lf) 0 []
  refuse (lines = 0) (str "body contains no JSON")
  refuse (single = true ∧ lines ≠ 1)
    (str "application/json body must be a single line; use application/x-ndjson for batches")
  return payload

/-! ## What is accepted -/

/-- A line that the receiver stores. -/
def Storable (line : GoString) : Prop := valid line = true ∧ ∀ b ∈ line, 0x20 ≤ b

variable {valid}

theorem logLinesLoop_eq_ok {lines : List GoString} {n m : ℕ} {payload result : GoString} :
    logLinesLoop valid lines n payload = .ok (m, result) ↔
      (∀ l ∈ lines.filter (· ≠ []), Storable valid l) ∧
        m = n + (lines.filter (· ≠ [])).length ∧
        result = payload ++ framed (lines.filter (· ≠ [])) := by
  induction lines generalizing n payload with
  | nil =>
    simp only [logLinesLoop, Except.ok.injEq, Prod.mk.injEq, List.filter_nil, framed]
    constructor
    · rintro ⟨rfl, rfl⟩
      simp
    · rintro ⟨-, rfl, rfl⟩
      simp
  | cons line lines ih =>
    unfold logLinesLoop
    by_cases hempty : line = []
    · rw [if_pos hempty, ih, List.filter_cons_of_neg (by simpa using hempty)]
    · rw [if_neg hempty, List.filter_cons_of_pos (by simpa using hempty)]
      have hcontrol : containsFunc line (· < 0x20) = true ↔ ¬ ∀ b ∈ line, 0x20 ≤ b := by
        rw [containsFunc_lt (by decide)]
        simp [UInt8.le_iff_toNat_le]
      by_cases hc : containsFunc line (· < 0x20) = true
      · rw [if_pos hc]
        refine iff_of_false nofun fun h => hcontrol.mp hc (h.1 line List.mem_cons_self).2
      rw [if_neg hc]
      by_cases hv : valid line = false
      · rw [if_pos hv]
        refine iff_of_false nofun fun h => ?_
        rw [(h.1 line List.mem_cons_self).1] at hv
        cases hv
      rw [if_neg hv, ih, List.forall_mem_cons]
      have hline : Storable valid line :=
        ⟨eq_true_of_ne_false hv, Decidable.not_not.mp fun h => hc (hcontrol.mpr h)⟩
      simp only [hline, true_and, List.length_cons, framed, List.flatMap_cons, List.append_assoc]
      rw [Nat.add_assoc, Nat.add_comm 1]

/-- **What `logLines` accepts**, and what it returns. -/
theorem logLines_eq_ok {body : GoString} {single : Bool} {payload : GoString} :
    logLines valid body single = .ok payload ↔
      (nonEmptyLines body ≠ [] ∧ (∀ l ∈ nonEmptyLines body, Storable valid l) ∧
        (single = true → (nonEmptyLines body).length = 1)) ∧
        payload = framed (nonEmptyLines body) := by
  simp only [logLines, result_bind_eq_ok, Prod.exists, logLinesLoop_eq_ok, refuse_eq_ok,
    List.nil_append, Nat.zero_add, exists_const]
  constructor
  · rintro ⟨lines, result, ⟨hall, rfl, rfl⟩, hne, hsingle, h⟩
    cases h
    exact ⟨⟨fun h => hne (List.length_eq_zero_iff.mpr h), hall,
      fun h => Decidable.not_not.mp fun hlen => hsingle ⟨h, hlen⟩⟩, rfl⟩
  · rintro ⟨⟨hne, hall, hsingle⟩, rfl⟩
    refine ⟨_, _, ⟨hall, rfl, rfl⟩, fun h => hne (List.length_eq_zero_iff.mp h), ?_, rfl⟩
    rintro ⟨hs, hlen⟩
    exact hlen (hsingle hs)

/-- What has been stored is accepted again, and unchanged. -/
theorem logLines_fixed {body : GoString} {single : Bool} {payload : GoString}
    (h : logLines valid body single = .ok payload) : logLines valid payload false = .ok payload := by
  obtain ⟨⟨hne, hall, -⟩, rfl⟩ := logLines_eq_ok.mp h
  have hlines : nonEmptyLines (framed (nonEmptyLines body)) = nonEmptyLines body := by
    simpa using nonEmptyLines_framed (fun l hl => isLine_of_mem hl) []
  rw [logLines_eq_ok, hlines]
  exact ⟨⟨hne, hall, nofun⟩, rfl⟩

/-- Payloads that are stored one after the other are the lines of their bodies. -/
theorem nonEmptyLines_flatten {requests : List (GoString × Bool × GoString)}
    (h : ∀ r ∈ requests, logLines valid r.1 r.2.1 = .ok r.2.2) :
    nonEmptyLines (requests.map (·.2.2)).flatten = requests.flatMap fun r => nonEmptyLines r.1 := by
  induction requests with
  | nil => exact nonEmptyLines_nil
  | cons r requests ih =>
    obtain ⟨-, hpayload⟩ := logLines_eq_ok.mp (h r List.mem_cons_self)
    rw [List.map_cons, List.flatten_cons, hpayload,
      nonEmptyLines_framed (fun l hl => isLine_of_mem hl),
      ih fun x hx => h x (List.mem_cons_of_mem _ hx), List.flatMap_cons]

end Lines

/-! ## Batches of the forwarder -/

/-- The batch that a worker makes of the payloads it receives. -/
def batchOf (payloads : List GoString) : LogBatch (id : GoString → GoString) :=
  payloads.foldl LogBatch.add .empty

theorem batchOf_body (payloads : List GoString) : (batchOf payloads).body = batchBody payloads := by
  have hevents : ∀ b : LogBatch (id : GoString → GoString),
      (payloads.foldl LogBatch.add b).events = b.events ++ payloads := by
    induction payloads with
    | nil => simp
    | cons p payloads ih => intro b; simp [ih, LogBatch.add]
  rw [(batchOf payloads).body_eq, batchOf, hevents, List.map_id]
  rfl

/-- An event is one line. -/
theorem isLine_marshal (v : JsonValue) : IsLine (marshal v) :=
  ⟨marshal_ne_nil v, fun h => absurd (printable_marshal v lf h) (by decide)⟩

theorem nonEmptyLines_marshal (events : List JsonValue) :
    nonEmptyLines (batchBody (events.map marshal)) = events.map marshal :=
  nonEmptyLines_batchBody fun p hp => by
    obtain ⟨v, -, rfl⟩ := List.mem_map.mp hp
    exact isLine_marshal v

/-- **The framing of the forwarder and the receiver.** A body is accepted if it has a line that is
not empty, every such line is valid and has no control character, and there is only one of them if
there has to be; the lines are stored in order, each with a line feed, and would be accepted again
as they are. So a batch of events is stored as one line for each event, in order, and what is stored
one after the other splits into the lines that were accepted. -/
theorem logLines_framing (valid : GoString → Bool) :
    (∀ body single, (∃ payload, logLines valid body single = .ok payload) ↔
      nonEmptyLines body ≠ [] ∧
        (∀ l ∈ nonEmptyLines body, valid l = true ∧ ∀ b ∈ l, 0x20 ≤ b) ∧
        (single = true → (nonEmptyLines body).length = 1)) ∧
    (∀ body single payload, logLines valid body single = .ok payload →
      payload = (nonEmptyLines body).flatMap (· ++ [lf]) ∧
        logLines valid payload false = .ok payload) ∧
    (∀ events : List JsonValue, events ≠ [] → (∀ e ∈ events, valid (marshal e) = true) →
      logLines valid (batchOf (events.map marshal)).body false =
        .ok ((events.map marshal).flatMap (· ++ [lf]))) ∧
    (∀ requests : List (GoString × Bool × GoString),
      (∀ r ∈ requests, logLines valid r.1 r.2.1 = .ok r.2.2) →
      nonEmptyLines (requests.map (·.2.2)).flatten =
        requests.flatMap fun r => nonEmptyLines r.1) := by
  refine ⟨fun body single => ?_, fun body single payload h => ?_, fun events hne hvalid => ?_,
    fun requests h => nonEmptyLines_flatten h⟩
  · simp only [logLines_eq_ok]
    exact ⟨fun ⟨_, h, _⟩ => h, fun h => ⟨_, h, rfl⟩⟩
  · exact ⟨(logLines_eq_ok.mp h).2, logLines_fixed h⟩
  · rw [batchOf_body, logLines_eq_ok, nonEmptyLines_marshal]
    refine ⟨⟨by simpa using hne, fun l hl => ?_, nofun⟩, rfl⟩
    obtain ⟨v, hv, rfl⟩ := List.mem_map.mp hl
    exact ⟨hvalid v hv, printable_marshal v⟩

end SynitWaf
