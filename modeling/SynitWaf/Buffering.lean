import SynitWaf.Machine
import SynitWaf.Request

/-!
# Buffering the body of a request

The inspectors of a request share its body: the first call of `inspectionBody` reads it from the
connection and leaves a copy in its place, the next calls find it buffered.

* `inspectionBody_reader`: what a call does that has to read;
* `Bufferable`: the limits that such a call handles; `Delivers`: what is expected of a call;
* `Intact`, `Spoilt`: the two ways a sequence of calls may leave the request (`kept_or_spoilt`);
* **`inspectionBody_delivers_iff`**: a sequence of calls delivers the body exactly if its reading
  calls can handle their limits.
-/

namespace SynitWaf

open Go

/-! ## Calls -/

/-- Whether reading a body to its end fails. -/
def RequestBody.fails : RequestBody → Bool
  | .reader b => b.fails
  | _ => false

namespace BodyState

/-- The request after a call that succeeds. -/
def inspected (s : BodyState) (limit : ℤ) : Option BodyState :=
  match s.inspectionBody limit with
  | (.ok _, s') => some s'
  | (.error _, _) => none

/-- No earlier call has buffered the body in the `requestInfo`. -/
def Unbuffered (s : BodyState) : Prop := ∀ data, s.info ≠ some (some data)

/-! ## One call -/

section Call

variable {s : BodyState} {b : BodyReader} {limit : ℤ}

theorem inspectionBody_buffered {data : GoString} (h : s.info = some (some data)) :
    s.inspectionBody limit = (if limit < data.length then .error .tooLarge else .ok data, s) := by
  simp only [inspectionBody, h]

theorem inspectionBody_absent (ho : s.Unbuffered) (h : ∀ b, s.body ≠ .reader b) :
    s.inspectionBody limit = (.ok [], s) := by
  unfold inspectionBody
  split
  next data hs => exact absurd hs (ho data)
  next =>
    cases hb : s.body with
    | nil => rfl
    | noBody => rfl
    | reader b => exact absurd hb (h b)

theorem next_toNat (hlimit : 0 < limit ∧ limit < 2 ^ 63 - 1) :
    (int64 (limit + 1)).toNat = limit.toNat + 1 := by
  simp only [int64, Int.bmod]
  omega

/-- **A reading call.** A known length is compared first. At the largest limit nothing is read, and
the request continues with an empty body. -/
theorem inspectionBody_reader (ho : s.Unbuffered) (hb : s.body = .reader b)
    (hlimit : 0 < limit ∧ limit < 2 ^ 63) :
    s.inspectionBody limit =
      if limit < s.contentLength then (.error .tooLarge, s)
      else if limit = 2 ^ 63 - 1 then (.ok [], s.buffer [])
      else if limit < b.data.length then (.error .tooLarge, s.consume b (limit.toNat + 1))
      else if b.fails then (.error .readFailed, s.consume b (limit.toNat + 1))
      else (.ok b.data, (s.consume b (limit.toNat + 1)).buffer b.data) := by
  unfold inspectionBody
  split
  next data hs => exact absurd hs (ho data)
  next =>
    simp only [hb]
    split
    · rfl
    by_cases hmax : limit = 2 ^ 63 - 1
    · have hzero : (int64 (limit + 1)).toNat = 0 := by
        rw [hmax]
        decide
      have hnil : ¬ limit < (([] : GoString).length : ℤ) := by simp; omega
      rw [hzero, if_pos hmax]
      simp only [BodyReader.readAll, Nat.zero_le, if_true, List.take_zero, if_neg hnil]
      simp [consume, buffer]
    · rw [next_toNat (by omega), if_neg hmax]
      unfold BodyReader.readAll
      by_cases hlong : limit < b.data.length
      · have htake : limit.toNat + 1 ≤ b.data.length := by omega
        have hlen : limit < ((b.data.take (limit.toNat + 1)).length : ℤ) := by
          rw [List.length_take]
          omega
        simp only [if_pos htake, if_pos hlong, if_pos hlen]
      · have htake : ¬ limit.toNat + 1 ≤ b.data.length := by omega
        cases hfails : b.fails with
        | true => simp [htake, hlong]
        | false => simp [htake, hlong]

end Call

/-! ## What is expected of a call -/

/-- The limits that a call handles which has to read the body of the request `r`. -/
structure Bufferable (r : BodyState) (limit : ℤ) : Prop where
  /-- The limit is not the largest one, unless there is nothing to read. -/
  next : limit < 2 ^ 63 - 1 ∨ r.body.data = []
  /-- A body that exceeds the limit announces its length. -/
  known : r.contentLength = r.body.data.length ∨ (r.body.data.length : ℤ) ≤ limit
  /-- A body within the limit can be read to its end. -/
  readable : r.body.fails = false ∨ limit < r.body.data.length

/-- `r.Body` of the request `s` yields what it yields for `r`. -/
def Yields (r s : BodyState) : Prop :=
  s.body.data = r.body.data ∧ s.body.fails = r.body.fails

/-- What is expected of a call on the request `r`, which earlier calls have brought to `s`: the
complete body or its refusal, one pass over the connection, and a body for the upstream. -/
structure Delivers (r s : BodyState) (limit : ℤ) : Prop where
  result : (s.inspectionBody limit).1 =
    if (r.body.data.length : ℤ) ≤ limit then .ok r.body.data else .error .tooLarge
  once : (s.inspectionBody limit).2.reads ≤ 1
  kept : Yields r (s.inspectionBody limit).2

/-- A request as it arrives: nothing is buffered, and its length is declared or unknown. -/
structure Arrives (r : BodyState) : Prop where
  unbuffered : r.Unbuffered
  original : r.replaced = false
  unread : r.reads = 0
  declared : r.contentLength = r.body.data.length ∨ r.contentLength = -1
  range : r.contentLength < 2 ^ 63

/-- The calls of a sequence that read: the first one if the request has a `requestInfo`, all
otherwise. -/
def readingCalls (r : BodyState) (limits : List ℤ) : List ℤ :=
  if r.info.isSome then limits.take 1 else limits

/-! ## Sequences of calls -/

/-- The copy of the body of `r` is in the `requestInfo`. -/
def Buffered (r s : BodyState) : Prop := s.info = some (some r.body.data)

/-- The body of `r` is still there, in the connection or as a copy. -/
structure Intact (r s : BodyState) : Prop where
  yields : Yields r s
  declared : s.contentLength = r.contentLength
  info : s.info = r.info ∨ r.info.isSome ∧ Buffered r s
  once : s.reads ≤ if s.replaced then 1 else 0

/-- The body of `r` has been replaced by an empty one. -/
structure Spoilt (r s : BodyState) : Prop where
  lost : r.body.data ≠ [] ∨ r.body.fails = true
  body : s.body = .reader ⟨[], false⟩
  info : s.info = some (some []) ∨ s.info = none

section Sequence

variable {r s s' : BodyState} {limit : ℤ}

theorem Intact.reads_le (h : Intact r s) : s.reads ≤ 1 := by
  have := h.once
  split at this <;> omega

theorem Arrives.intact (hr : Arrives r) : Intact r r :=
  ⟨⟨rfl, rfl⟩, rfl, .inl rfl, by simp [hr.unread]⟩

theorem Intact.unbuffered (hr : Arrives r) (h : Intact r s) (hs : ¬ Buffered r s) :
    s.Unbuffered := by
  rcases h.info with hi | ⟨-, hi⟩
  · intro data
    rw [hi]
    exact hr.unbuffered data
  · exact absurd hi hs

theorem bufferable_of_empty (hdata : r.body.data = []) (hfails : r.body.fails = false)
    (hlimit : 0 < limit) : Bufferable r limit :=
  ⟨.inr hdata, .inr (by simp [hdata]; omega), .inl hfails⟩

theorem Intact.reader_yields (h : Intact r s) {b : BodyReader} (hb : s.body = .reader b) :
    b.data = r.body.data ∧ b.fails = r.body.fails := by
  simpa [Yields, hb, RequestBody.data, RequestBody.fails] using h.yields

theorem Intact.bufferable_absent (h : Intact r s) (hs : ∀ b, s.body ≠ .reader b)
    (hlimit : 0 < limit) : Bufferable r limit := by
  obtain ⟨hdata, hfails⟩ := h.yields
  cases hb : s.body with
  | nil =>
    rw [hb] at hdata hfails
    exact bufferable_of_empty hdata.symm hfails.symm hlimit
  | noBody =>
    rw [hb] at hdata hfails
    exact bufferable_of_empty hdata.symm hfails.symm hlimit
  | reader b => exact absurd hb (hs b)

theorem Intact.delivers_buffered (h : Intact r s) (hs : Buffered r s) : Delivers r s limit := by
  have hcall : s.inspectionBody limit = _ := inspectionBody_buffered hs
  refine ⟨?_, by rw [hcall]; exact h.reads_le, by rw [hcall]; exact h.yields⟩
  rw [hcall]
  by_cases hl : (r.body.data.length : ℤ) ≤ limit
  · rw [if_pos hl, if_neg (not_lt.mpr hl)]
  · rw [if_neg hl, if_pos (not_le.mp hl)]

theorem Intact.delivers_absent (hr : Arrives r) (h : Intact r s) (hs : ¬ Buffered r s)
    (hb : ∀ b, s.body ≠ .reader b) (hlimit : 0 < limit) : Delivers r s limit := by
  have hcall : s.inspectionBody limit = _ := inspectionBody_absent (h.unbuffered hr hs) hb
  have hempty : r.body.data = [] := by
    rw [← h.yields.1]
    cases hbody : s.body with
    | nil => rfl
    | noBody => rfl
    | reader b => exact absurd hbody (hb b)
  refine ⟨?_, by rw [hcall]; exact h.reads_le, by rw [hcall]; exact h.yields⟩
  rw [hcall, hempty, if_pos (by simp; omega)]

/-- A reading call that can handle its limit refuses the body by its length, or leaves a copy. -/
theorem Intact.reader_bufferable (hr : Arrives r) (h : Intact r s) (hs : ¬ Buffered r s)
    {b : BodyReader} (hb : s.body = .reader b) (hlimit : 0 < limit ∧ limit < 2 ^ 63)
    (hB : Bufferable r limit) :
    limit < r.body.data.length ∧ s.inspectionBody limit = (.error .tooLarge, s) ∨
      (r.body.data.length : ℤ) ≤ limit ∧ ∃ s', s.inspectionBody limit = (.ok r.body.data, s') ∧
        Intact r s' ∧ s'.info = s.info.map fun _ => some r.body.data := by
  have hcall := inspectionBody_reader (h.unbuffered hr hs) hb hlimit
  obtain ⟨hdata, hfails⟩ := h.reader_yields hb
  obtain ⟨hnext, hknown, hreadable⟩ := hB
  rw [h.declared, hdata, hfails] at hcall
  have hrange := hr.range
  have hdeclared := hr.declared
  have hinfo (data : GoString) : (s.info.map fun _ => some data) = r.info ∨
      r.info.isSome ∧ (s.info.map fun _ => some data) = some (some data) := by
    cases hi : s.info with
    | none => exact .inl (by simpa [hi, Buffered] using h.info)
    | some info => exact .inr ⟨by rcases h.info with h' | h' <;> simp_all, rfl⟩
  by_cases hlong : limit < r.contentLength
  · rw [if_pos hlong] at hcall
    exact .inl ⟨by omega, hcall⟩
  have hfit : (r.body.data.length : ℤ) ≤ limit := by omega
  have hf : r.body.fails = false := hreadable.resolve_right (by omega)
  refine .inr ⟨hfit, ?_⟩
  rw [if_neg hlong] at hcall
  by_cases hmax : limit = 2 ^ 63 - 1
  · have hempty : r.body.data = [] := hnext.resolve_left (by omega)
    rw [if_pos hmax] at hcall
    rw [hempty]
    refine ⟨_, hcall, ⟨⟨hempty.symm, hf.symm⟩, h.declared, ?_, h.reads_le⟩, rfl⟩
    rw [Buffered, hempty]
    exact hinfo []
  · rw [if_neg hmax, if_neg (by omega), if_neg (by simp [hf])] at hcall
    refine ⟨_, hcall, ⟨⟨rfl, hf.symm⟩, h.declared, hinfo _, ?_⟩, rfl⟩
    have honce := h.once
    cases hrep : s.replaced <;> simp_all [buffer, consume]

/-- A reading call that cannot handle its limit fails and does not restore the body, or puts an
empty one in its place. -/
theorem Intact.reader_not_bufferable (hr : Arrives r) (h : Intact r s) (hs : ¬ Buffered r s)
    {b : BodyReader} (hb : s.body = .reader b) (hlimit : 0 < limit ∧ limit < 2 ^ 63)
    (hB : ¬ Bufferable r limit) :
    (∃ e s', s.inspectionBody limit = (.error e, s') ∧ ¬ Delivers r s limit) ∨
      ∃ s', s.inspectionBody limit = (.ok [], s') ∧ Spoilt r s' := by
  have hcall := inspectionBody_reader (h.unbuffered hr hs) hb hlimit
  obtain ⟨hdata, hfails⟩ := h.reader_yields hb
  rw [h.declared, hdata, hfails] at hcall
  have hrange := hr.range
  have hdeclared := hr.declared
  by_cases hlong : limit < r.contentLength
  · exact absurd ⟨.inl (by omega), .inl (by omega), .inr (by omega)⟩ hB
  rw [if_neg hlong] at hcall
  by_cases hmax : limit = 2 ^ 63 - 1
  · rw [if_pos hmax] at hcall
    refine .inr ⟨_, hcall, ?_, rfl, ?_⟩
    · by_contra hlost
      push Not at hlost
      exact hB (bufferable_of_empty hlost.1 (by simpa using hlost.2) hlimit.1)
    · cases hi : s.info <;> simp [buffer, hi]
  rw [if_neg hmax] at hcall
  split at hcall
  next hlong' =>
    refine .inl ⟨_, _, hcall, fun hd => ?_⟩
    have hkept := hd.kept.1
    rw [hcall] at hkept
    have hlen := congrArg List.length hkept
    change (b.data.drop _).length = _ at hlen
    rw [hdata, List.length_drop] at hlen
    omega
  next hfit =>
  split at hcall
  next hf =>
    refine .inl ⟨_, _, hcall, fun hd => ?_⟩
    have hresult := hd.result
    rw [hcall, if_pos (by omega)] at hresult
    cases hresult
  next hf => exact absurd ⟨.inl (by omega), .inr (by omega), .inl (by simpa using hf)⟩ hB

/-- No call restores a lost body. -/
theorem Spoilt.call (h : Spoilt r s) (hlimit : 0 < limit ∧ limit < 2 ^ 63) :
    Spoilt r (s.inspectionBody limit).2 := by
  rcases h.info with hi | hi
  · rw [inspectionBody_buffered hi]
    exact h
  · have ho : s.Unbuffered := by simp [Unbuffered, hi]
    rw [inspectionBody_reader ho h.body hlimit]
    split
    · exact h
    split
    · exact ⟨h.lost, rfl, .inr (by simp [buffer, hi])⟩
    · rw [if_neg (by simp; omega), if_neg (by simp)]
      exact ⟨h.lost, rfl, .inr (by simp [buffer, consume, hi])⟩

theorem Spoilt.not_yields (h : Spoilt r s) : ¬ Yields r s := by
  rintro ⟨hdata, hfails⟩
  rw [h.body] at hdata hfails
  rcases h.lost with hlost | hlost
  · exact hlost hdata.symm
  · rw [hlost] at hfails
    cases hfails

theorem Spoilt.not_delivers (h : Spoilt r s) (hlimit : 0 < limit ∧ limit < 2 ^ 63) :
    ¬ Delivers r s limit :=
  fun hd => (h.call hlimit).not_yields hd.kept

theorem inspected_eq_some : s.inspected limit = some s' ↔
    ∃ data, s.inspectionBody limit = (.ok data, s') := by
  unfold inspected
  split
  next hcall => simp [hcall]
  next hcall => simp [hcall]

theorem Intact.delivers_iff (hr : Arrives r) (h : Intact r s)
    (hlimit : 0 < limit ∧ limit < 2 ^ 63) :
    Delivers r s limit ↔ Buffered r s ∨ Bufferable r limit := by
  by_cases hs : Buffered r s
  · exact ⟨fun _ => .inl hs, fun _ => h.delivers_buffered hs⟩
  by_cases hb : ∀ b, s.body ≠ .reader b
  · exact ⟨fun _ => .inr (h.bufferable_absent hb hlimit.1),
      fun _ => h.delivers_absent hr hs hb hlimit.1⟩
  push Not at hb
  obtain ⟨b, hb⟩ := hb
  rw [or_iff_right hs]
  constructor
  · intro hd
    by_contra hB
    rcases h.reader_not_bufferable hr hs hb hlimit hB with ⟨-, -, -, hnot⟩ | ⟨s', hcall, hsp⟩
    · exact hnot hd
    · have hkept := hd.kept
      rw [hcall] at hkept
      exact hsp.not_yields hkept
  · intro hB
    rcases h.reader_bufferable hr hs hb hlimit hB with ⟨hlong, hcall⟩ | ⟨hfit, s', hcall, hi, -⟩
    · refine ⟨?_, by rw [hcall]; exact h.reads_le, by rw [hcall]; exact h.yields⟩
      rw [hcall, if_neg (by omega)]
    · refine ⟨?_, by rw [hcall]; exact hi.reads_le, by rw [hcall]; exact hi.yields⟩
      rw [hcall, if_pos hfit]

/-- **One call** that succeeds leaves the body intact exactly if it finds the copy or can handle
its limit. -/
theorem Intact.step (hr : Arrives r) (h : Intact r s) (hlimit : 0 < limit ∧ limit < 2 ^ 63)
    (hstep : s.inspected limit = some s') :
    (Buffered r s ∨ Bufferable r limit) ∧ Intact r s' ∧
        (r.info.isSome → Buffered r s' ∨ ∀ limit, 0 < limit → Bufferable r limit) ∨
      ¬ (Buffered r s ∨ Bufferable r limit) ∧ Spoilt r s' := by
  obtain ⟨data, hcall⟩ := inspected_eq_some.mp hstep
  by_cases hs : Buffered r s
  · rw [inspectionBody_buffered hs] at hcall
    cases congrArg Prod.snd hcall
    exact .inl ⟨.inl hs, h, fun _ => .inl hs⟩
  by_cases hb : ∀ b, s.body ≠ .reader b
  · rw [inspectionBody_absent (h.unbuffered hr hs) hb] at hcall
    cases congrArg Prod.snd hcall
    exact .inl ⟨.inr (h.bufferable_absent hb hlimit.1), h,
      fun _ => .inr fun _ => h.bufferable_absent hb⟩
  push Not at hb
  obtain ⟨b, hb⟩ := hb
  by_cases hB : Bufferable r limit
  · refine .inl ⟨.inr hB, ?_⟩
    rcases h.reader_bufferable hr hs hb hlimit hB with ⟨-, hcall'⟩ | ⟨-, s₁, hcall', hi, hinfo⟩
    · rw [hcall'] at hcall
      cases congrArg Prod.fst hcall
    · rw [hcall'] at hcall
      cases congrArg Prod.snd hcall
      refine ⟨hi, fun hsome => .inl ?_⟩
      have hr' : s.info = r.info := h.info.resolve_right fun hi => hs hi.2
      obtain ⟨info, hsome⟩ := Option.isSome_iff_exists.mp hsome
      rw [Buffered, hinfo, hr', hsome]
      rfl
  · refine .inr ⟨fun hor => hor.elim hs hB, ?_⟩
    rcases h.reader_not_bufferable hr hs hb hlimit hB with ⟨e, s₁, hcall', -⟩ | ⟨s₁, hcall', hsp⟩
    · rw [hcall'] at hcall
      cases congrArg Prod.fst hcall
    · rw [hcall'] at hcall
      cases congrArg Prod.snd hcall
      exact hsp

theorem readingCalls_append (limits : List ℤ) :
    r.readingCalls (limits ++ [limit]) =
      r.readingCalls limits ++ if r.info.isSome ∧ limits ≠ [] then [] else [limit] := by
  unfold readingCalls
  cases r.info with
  | none => simp
  | some info => cases limits <;> simp

/-- After the calls of a sequence the body of `r` is intact, and a `requestInfo` has the copy unless
there was nothing to read. -/
structure Kept (r : BodyState) (limits : List ℤ) (s : BodyState) : Prop where
  bufferable : ∀ k ∈ r.readingCalls limits, Bufferable r k
  intact : Intact r s
  first : limits = [] → s = r
  later : r.info.isSome → limits ≠ [] → Buffered r s ∨ ∀ limit, 0 < limit → Bufferable r limit

theorem Kept.not_buffered (hr : Arrives r) {limits : List ℤ} (h : Kept r limits s)
    (hread : ¬ (r.info.isSome ∧ limits ≠ [])) : ¬ Buffered r s := by
  intro hs
  by_cases hl : limits = []
  · rw [h.first hl] at hs
    exact hr.unbuffered _ hs
  · rcases h.intact.info with hi | hi
    · exact hr.unbuffered _ (hi.symm.trans hs)
    · exact hread ⟨hi.1, hl⟩

/-- The next call finds the copy or has to handle its limit. -/
theorem Kept.next_iff (hr : Arrives r) {limits : List ℤ} (h : Kept r limits s)
    (hlimit : 0 < limit) :
    (∀ k ∈ r.readingCalls (limits ++ [limit]), Bufferable r k) ↔
      Buffered r s ∨ Bufferable r limit := by
  rw [readingCalls_append]
  split
  next hc =>
    rw [List.append_nil]
    exact ⟨fun _ => (h.later hc.1 hc.2).imp_right fun h => h limit hlimit, fun _ => h.bufferable⟩
  next hc =>
    rw [List.forall_mem_append, List.forall_mem_singleton, or_iff_right (h.not_buffered hr hc)]
    exact and_iff_right h.bufferable

theorem not_bufferable_append {limits : List ℤ}
    (h : ¬ ∀ k ∈ r.readingCalls limits, Bufferable r k) :
    ¬ ∀ k ∈ r.readingCalls (limits ++ [limit]), Bufferable r k := by
  rw [readingCalls_append]
  exact fun hall => h fun k hk => hall k (List.mem_append_left _ hk)

/-- **A sequence of successful calls** keeps the body or has spoilt it. -/
theorem kept_or_spoilt (hr : Arrives r) {limits : List ℤ}
    (hlimits : ∀ k ∈ limits, 0 < k ∧ k < 2 ^ 63) (h : Machine.run inspected r limits = some s) :
    Kept r limits s ∨ (¬ ∀ k ∈ r.readingCalls limits, Bufferable r k) ∧ Spoilt r s := by
  revert hlimits
  refine Machine.run_induction (P := fun limits s => (∀ k ∈ limits, 0 < k ∧ k < 2 ^ 63) →
    Kept r limits s ∨ (¬ ∀ k ∈ r.readingCalls limits, Bufferable r k) ∧ Spoilt r s) ?_ ?_ h
  · exact fun _ => .inl ⟨by simp [readingCalls], hr.intact, fun _ => rfl, fun _ h => absurd rfl h⟩
  · intro limits s₁ limit s₂ _ ih hstep hlimits
    obtain ⟨hbefore, hlimit⟩ := List.forall_mem_append.mp hlimits
    have hlimit := List.forall_mem_singleton.mp hlimit
    rcases ih hbefore with hk | ⟨hB, hs⟩
    · have hiff := hk.next_iff hr hlimit.1
      rcases hk.intact.step hr hlimit hstep with ⟨hB, hi, hlater⟩ | ⟨hB, hs⟩
      · exact .inl ⟨hiff.mpr hB, hi, by simp, fun hsome _ => hlater hsome⟩
      · exact .inr ⟨hiff.not.mpr hB, hs⟩
    · obtain ⟨data, hcall⟩ := inspected_eq_some.mp hstep
      have hs' := hs.call hlimit
      rw [hcall] at hs'
      exact .inr ⟨not_bufferable_append hB, hs'⟩

end Sequence

/-- **The body is delivered** by a call at the end of a sequence exactly if each call of the
sequence that reads can handle its limit. -/
theorem inspectionBody_delivers_iff {r s : BodyState} (hr : Arrives r) (limits : List ℤ)
    (limit : ℤ) (hlimits : ∀ k ∈ limits ++ [limit], 0 < k ∧ k < 2 ^ 63)
    (h : Machine.run inspected r limits = some s) :
    Delivers r s limit ↔ ∀ k ∈ r.readingCalls (limits ++ [limit]), Bufferable r k := by
  obtain ⟨hbefore, hlimit⟩ := List.forall_mem_append.mp hlimits
  have hlimit := List.forall_mem_singleton.mp hlimit
  rcases kept_or_spoilt hr hbefore h with hk | ⟨hB, hs⟩
  · rw [hk.next_iff hr hlimit.1]
    exact hk.intact.delivers_iff hr hlimit
  · exact iff_of_false (hs.not_delivers hlimit) (not_bufferable_append hB)

/-- A request with a body of five bytes that does not announce its length. -/
def chunkedHello : BodyState := ⟨.reader ⟨str "hello", false⟩, -1, some none, false, 0⟩

theorem inspectionBody_delivers_chunked :
    ∃ s, Machine.run inspected chunkedHello [1024, 5] = some s ∧ Delivers chunkedHello s 4 := by
  have hr : Arrives chunkedHello :=
    ⟨by simp [Unbuffered, chunkedHello], rfl, rfl, .inr rfl, by decide⟩
  have hsome : (Machine.run inspected chunkedHello [1024, 5]).isSome = true := by decide +kernel
  obtain ⟨s, hs⟩ := Option.isSome_iff_exists.mp hsome
  refine ⟨s, hs, (inspectionBody_delivers_iff hr [1024, 5] 4 (by decide) hs).mpr ?_⟩
  intro k hk
  obtain rfl : k = 1024 := by simpa [readingCalls, chunkedHello] using hk
  exact ⟨.inl (by decide), .inr (by decide), .inl rfl⟩

/-- A request with a body of one byte. -/
def oneByte : BodyState := ⟨.reader ⟨str "x", false⟩, 1, some none, false, 0⟩

/-- At the largest limit the byte is lost: nothing is read, and the upstream receives an empty
body. -/
theorem inspectionBody_loses :
    Arrives oneByte ∧
      oneByte.inspectionBody (2 ^ 63 - 1) =
        (.ok [], ⟨.reader ⟨[], false⟩, 1, some (some []), true, 0⟩) ∧
      ¬ Delivers oneByte oneByte (2 ^ 63 - 1) := by
  have hcall : oneByte.inspectionBody (2 ^ 63 - 1) =
      (.ok [], ⟨.reader ⟨[], false⟩, 1, some (some []), true, 0⟩) := by decide +kernel
  refine ⟨⟨by simp [Unbuffered, oneByte], rfl, rfl, .inl rfl, by decide⟩, hcall, fun hd => ?_⟩
  have hkept := hd.kept.1
  rw [hcall] at hkept
  cases hkept

end BodyState

end SynitWaf
