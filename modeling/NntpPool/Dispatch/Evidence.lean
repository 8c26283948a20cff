import NntpPool.Dispatch.Model.Evidence
/-!
# Dispatch — what the evidence adds up to

`newTransportError` reduces the evidence of a call to one kind of
outcome. `Tally.Of` says what its loop has found, one constructor for
each way the loop can stand, and with it the question the pool's callers
ask most, `errors.Is(err, ErrArticleNotFound)`, comes down to the
outcomes alone: it holds exactly if some attempt found the article absent
and no attempt failed otherwise (`isCode_newTransportError`).
-/

namespace NntpPool

namespace Dispatch

/-! ## The tally -/

/-- **What the tally of some outcomes is.** -/
inductive Tally.Of (os : List OutcomeKind) : Tally → Prop
  /-- Nothing has failed. -/
  | clean (h : ∀ o ∈ os, o = .success) : Tally.Of os {}
  /-- A cancellation overrides everything else. -/
  | cancelled (h : .cancellation ∈ os) : Tally.Of os ⟨.cancellation, true, false⟩
  /-- All failures are of one kind. -/
  | pure (k : OutcomeKind) (hk : k ∈ os) (hs : k ≠ .success) (hc : k ≠ .cancellation)
      (h : ∀ o ∈ os, o = .success ∨ o = k) : Tally.Of os ⟨k, true, false⟩
  /-- There are failures of different kinds, so one is not an absence. -/
  | mixed (o : OutcomeKind) (ho : o ∈ os) (hs : o ≠ .success) (ha : o ≠ .hardArticleAbsence)
      (hc : .cancellation ∉ os) : Tally.Of os ⟨.inconclusive, true, true⟩

/-- One turn of the loop. -/
theorem Tally.Of.add {os : List OutcomeKind} {t : Tally} (h : Tally.Of os t) (o : OutcomeKind) :
    Tally.Of (os ++ [o]) (t.add o) := by
  by_cases hs : o = .success
  · -- a success changes nothing
    subst hs
    rw [show t.add .success = t from rfl]
    cases h with
    | clean h => exact .clean (List.forall_mem_append.mpr ⟨h, by simp⟩)
    | cancelled h => exact .cancelled (by simp [h])
    | pure k hk hs hc h => exact .pure k (by simp [hk]) hs hc (List.forall_mem_append.mpr ⟨h, by simp⟩)
    | mixed o ho hs ha hc => exact .mixed o (by simp [ho]) hs ha (by simpa using hc)
  by_cases hc : o = .cancellation
  · subst hc
    exact .cancelled (by simp)
  cases h with
  | clean h =>
    rw [show Tally.add {} o = ⟨o, true, false⟩ by simp [Tally.add, hs, hc]]
    exact .pure o (by simp) hs hc
      (List.forall_mem_append.mpr ⟨fun a ha => Or.inl (h a ha), by simp⟩)
  | cancelled h =>
    rw [show Tally.add ⟨.cancellation, true, false⟩ o = ⟨.cancellation, true, false⟩ by
      simp [Tally.add, hs, hc]]
    exact .cancelled (by simp [h])
  | pure k hk hs' hc' h =>
    by_cases hok : k = o
    · subst hok
      rw [show Tally.add ⟨k, true, false⟩ k = ⟨k, true, false⟩ by simp [Tally.add, hs, hc]]
      exact .pure k (by simp) hs hc (List.forall_mem_append.mpr ⟨h, by simp⟩)
    · rw [show Tally.add ⟨k, true, false⟩ o = ⟨.inconclusive, true, true⟩ by
        simp [Tally.add, hs, hc, hc', hok]]
      have hno : .cancellation ∉ os ++ [o] := by
        intro hm
        rcases List.mem_append.mp hm with hm | hm
        · rcases h _ hm with h | h
          · cases h
          · exact hc' h.symm
        · exact hc (List.mem_singleton.mp hm).symm
      -- the two kinds differ, so at most one of them is an absence
      by_cases hka : k = .hardArticleAbsence
      · exact .mixed o (by simp) hs (fun ho => hok (hka.trans ho.symm)) hno
      · exact .mixed k (by simp [hk]) hs' hka hno
  | mixed o' ho hs' ha hc' =>
    rw [show Tally.add ⟨.inconclusive, true, true⟩ o = ⟨.inconclusive, true, true⟩ by
      by_cases ho' : OutcomeKind.inconclusive = o
      · simp [Tally.add, ← ho']
      · simp [Tally.add, hs, hc, ho']]
    refine .mixed o' (by simp [ho]) hs' ha ?_
    rw [List.mem_append, List.mem_singleton, not_or]
    exact ⟨hc', fun h => hc h.symm⟩

/-- The loop. -/
theorem foldl_tally_of (os : List OutcomeKind) : Tally.Of os (os.foldl Tally.add {}) := by
  induction os using List.reverseRecOn with
  | nil => exact .clean (fun _ h => nomatch h)
  | append_singleton os o ih =>
    rw [List.foldl_append]
    exact ih.add o

/-- The outcomes speak for an absence: one attempt found it, and none
failed otherwise. -/
def Absent (attempts : List Evidence) : Prop :=
  (∃ e ∈ attempts, e.outcome = .hardArticleAbsence) ∧
    ∀ e ∈ attempts, e.outcome = .success ∨ e.outcome = .hardArticleAbsence

/-- The kind is an absence exactly if the outcomes speak for one. -/
theorem tally_kind_iff {attempts : List Evidence} :
    (tally attempts).kind = .hardArticleAbsence ↔ Absent attempts := by
  have h := foldl_tally_of (attempts.map (·.outcome))
  unfold tally
  generalize (attempts.map (·.outcome)).foldl Tally.add {} = t at h
  unfold Absent
  cases h with
  | clean h =>
    refine ⟨nofun, fun ⟨⟨e, he, ho⟩, _⟩ => ?_⟩
    cases (h _ (List.mem_map_of_mem he)).symm.trans ho
  | cancelled h =>
    obtain ⟨e, he, ho⟩ := List.mem_map.mp h
    refine ⟨nofun, fun ⟨_, hall⟩ => ?_⟩
    rcases hall e he with h | h <;> cases ho.symm.trans h
  | pure k hk hs hc h =>
    obtain ⟨e, he, ho⟩ := List.mem_map.mp hk
    refine ⟨fun hka => ?_, fun ⟨_, hall⟩ => ?_⟩
    · exact ⟨⟨e, he, ho.trans hka⟩,
        fun a ha => (h _ (List.mem_map_of_mem ha)).imp id (·.trans hka)⟩
    · rcases hall e he with h | h
      · exact absurd (ho.symm.trans h) hs
      · exact ho.symm.trans h
  | mixed o ho hs ha hc =>
    obtain ⟨e, he, rfl⟩ := List.mem_map.mp ho
    refine ⟨nofun, fun ⟨_, hall⟩ => ?_⟩
    exact ((hall e he).elim hs ha).elim

/-! ## The cause of the final error -/

/-- **Evidence that agrees with itself**: a cause that is
`ErrArticleNotFound` comes with an absence, and a failure has a cause. -/
structure Evidence.Coherent (e : Evidence) : Prop where
  absence : ∀ c, e.cause = some c → c.isCode 430 = true → e.outcome = .hardArticleAbsence
  caused : e.outcome ≠ .success → e.cause.isSome = true

theorem isCode_withErrorClassification (e : GoError) :
    (withErrorClassification e errArticleNotFound).isCode 430 = true := by
  unfold withErrorClassification errArticleNotFound
  by_cases h : e.isCode 430 = true
  · simp [h]
  · simp [h, GoError.isCode]

/-- The attempt the summary is taken from failed, and not by an absence
unless the kind is one; there is one as soon as an attempt failed. -/
theorem representative_spec {attempts : List Evidence} (hc : ∀ e ∈ attempts, e.Coherent) :
    match representative (tally attempts) attempts with
    | some e => e ∈ attempts ∧ e.outcome ≠ .success ∧
        (e.outcome = .hardArticleAbsence → Absent attempts)
    | none => ∀ e ∈ attempts, e.outcome = .success := by
  have hkind := @tally_kind_iff attempts
  have h := foldl_tally_of (attempts.map (·.outcome))
  unfold tally at hkind ⊢
  generalize (attempts.map (·.outcome)).foldl Tally.add {} = t at h hkind
  cases hr : representative t attempts with
  | some e =>
    have hmem : e ∈ attempts := List.mem_reverse.mp (List.mem_of_find?_eq_some hr)
    have hp := List.find?_some hr
    refine ⟨hmem, ?_⟩
    cases h with
    | clean h =>
      have ho : e.outcome = .inconclusive := by simpa using hp
      cases (h _ (List.mem_map_of_mem hmem)).symm.trans ho
    | cancelled h =>
      have ho : e.outcome = .cancellation := by simpa using hp
      exact ⟨by rw [ho]; exact nofun, by rw [ho]; exact nofun⟩
    | pure k hk hs _ h =>
      have ho : e.outcome = k := by simpa using hp
      exact ⟨ho ▸ hs, fun ha => hkind.mp (ho.symm.trans ha)⟩
    | mixed =>
      have ho : e.outcome ≠ .success ∧ e.outcome ≠ .hardArticleAbsence ∧ e.cause.isSome := by
        simpa using hp
      exact ⟨ho.1, fun ha => absurd ha ho.2.1⟩
  | none =>
    have hp := List.find?_eq_none.mp hr
    cases h with
    | clean h => exact fun e he => h _ (List.mem_map_of_mem he)
    | cancelled h =>
      obtain ⟨e, he, ho⟩ := List.mem_map.mp h
      exact absurd (by simpa using ho) (hp e (List.mem_reverse.mpr he))
    | pure k hk =>
      obtain ⟨e, he, ho⟩ := List.mem_map.mp hk
      exact absurd (by simpa using ho) (hp e (List.mem_reverse.mpr he))
    | mixed o ho hs ha =>
      obtain ⟨e, he, rfl⟩ := List.mem_map.mp ho
      exact absurd (by simpa using ⟨hs, ha, (hc e he).caused hs⟩)
        (hp e (List.mem_reverse.mpr he))

/-- **`errors.Is(err, ErrArticleNotFound)` on the final error** holds
exactly if the outcomes speak for an absence, whatever the last error
was, as long as that error is one of a failed attempt. -/
theorem isCode_newTransportError {attempts : List Evidence} {cause : GoError}
    (hc : ∀ e ∈ attempts, e.Coherent)
    (hcause : cause.isCode 430 = true → ∃ e ∈ attempts, e.outcome ≠ .success) :
    (FinalErr.transport (newTransportError attempts cause)).isCode 430 = true ↔
      Absent attempts := by
  simp only [FinalErr.isCode, newTransportError, Option.any_some]
  by_cases hk : Absent attempts
  · rw [if_pos (tally_kind_iff.2 hk)]
    exact iff_of_true (isCode_withErrorClassification _) hk
  · rw [if_neg (mt tally_kind_iff.1 hk)]
    refine iff_of_false ?_ hk
    have hrep := representative_spec hc
    cases hr : representative (tally attempts) attempts with
    | none =>
      rw [hr] at hrep
      intro h
      obtain ⟨e, he, hs⟩ := hcause h
      exact hs (hrep e he)
    | some e =>
      rw [hr] at hrep
      obtain ⟨hmem, hs, ha⟩ := hrep
      obtain ⟨c, hec⟩ := Option.isSome_iff_exists.mp ((hc e hmem).caused hs)
      intro h
      simp only [Option.bind_some, hec, Option.getD_some] at h
      exact hk (ha ((hc e hmem).absence c hec h))

/-! ## The evidence of one attempt -/

/-- **What `classifyOutcome` goes by**, an outcome at a time. -/
inductive Classified (code : ℤ) (err : Option GoError) : OutcomeKind → Prop
  | success (h : err.isNone = true ∧ 200 ≤ code ∧ code < 400) : Classified code err .success
  | cancellation
      (h : err.any (fun e => e.isSentinel .canceled || e.isSentinel .deadlineExceeded) = true) :
      Classified code err .cancellation
  | corruptBody
      (h : err.any (fun e => e.isSentinel .bodyCorrupt || e.isSentinel .crcMismatch) = true) :
      Classified code err .corruptBody
  | breakerOpen (h : err.any (·.isSentinel .circuitBreakerOpen) = true) :
      Classified code err .temporaryFailure
  | unavailable (h : err.any isUnavailable = true ∨ code = 502) :
      Classified code err .providerUnavailable
  | absence (h : code = 423 ∨ code = 430 ∨ err.any (·.isCode 430) = true) :
      Classified code err .hardArticleAbsence
  | temporary (h : code = 451) : Classified code err .temporaryFailure
  | protocol (h : err.any (·.asProtocol) = true) : Classified code err .inconclusive
  | transport (h : err.isSome = true) : Classified code err .transportFailure
  | other (h : ¬err.isSome = true) : Classified code err .inconclusive

theorem classifyOutcome_classified (code : ℤ) (err : Option GoError) :
    Classified code err (classifyOutcome code err) := by
  unfold classifyOutcome
  refine iteInduction .success fun _ => ?_
  refine iteInduction .cancellation fun _ => ?_
  refine iteInduction .corruptBody fun _ => ?_
  refine iteInduction .breakerOpen fun _ => ?_
  refine iteInduction .unavailable fun _ => ?_
  refine iteInduction .absence fun _ => ?_
  refine iteInduction .temporary fun _ => ?_
  refine iteInduction .protocol fun _ => ?_
  exact iteInduction .transport .other

/-- An attempt with an error is no success. -/
theorem classifyOutcome_some_ne_success (code : ℤ) (e : GoError) :
    classifyOutcome code (some e) ≠ .success := by
  intro hs
  have h := classifyOutcome_classified code (some e)
  rw [hs] at h
  cases h with
  | success h => cases h.1

/-- With an error it is an absence only for the codes and the errors that
say so. -/
theorem classifyOutcome_some_absence {code : ℤ} {e : GoError}
    (h : classifyOutcome code (some e) = .hardArticleAbsence) :
    code = 423 ∨ code = 430 ∨ e.isCode 430 = true := by
  have hclass := classifyOutcome_classified code (some e)
  rw [h] at hclass
  cases hclass with
  | absence h => exact h

theorem attemptOutcome_some (req : RequestInfo) (code : ℤ) (status : Bytes) (e : GoError) :
    attemptOutcome req code status (some e) = classifyOutcome code (some e) := by
  simp [attemptOutcome]

theorem isCode_protocol (code : ℤ) (message : Bytes) :
    (GoError.protocol code message).isCode 430 = true ↔ code = 423 ∨ code = 430 := by
  rw [GoError.isCode, beq_iff_eq, show errorCategory 430 = 430 from rfl]
  unfold errorCategory
  split_ifs with h
  · simp [h]
  · exact ⟨.inr, fun hc => absurd hc h⟩

/-- The error of a status is one of the protocol. -/
theorem toError_protocol {code : ℤ} {status : Bytes} {c : GoError}
    (h : toError code status = some c) :
    ∃ n message, c = .protocol n message ∧ (n = 423 ∨ n = 430 ↔ code = 423 ∨ code = 430) := by
  unfold toError at h
  split_ifs at h <;> cases h
  all_goals exact ⟨_, _, rfl, by omega⟩

/-- It is `ErrArticleNotFound` for 423 and 430 alone. -/
theorem isCode_toError {code : ℤ} {status : Bytes} {c : GoError}
    (h : toError code status = some c) : c.isCode 430 = true ↔ code = 423 ∨ code = 430 := by
  obtain ⟨n, message, rfl, hn⟩ := toError_protocol h
  exact (isCode_protocol n message).trans hn

/-- Only a 451 is mapped to an absence. -/
theorem eq_of_requestMaps451 {req : RequestInfo} {code : ℤ}
    (h : requestMaps451ToAbsence req code = true) : code = 451 := by
  simp only [requestMaps451ToAbsence, Bool.and_eq_true, beq_iff_eq] at h
  exact h.1.1

/-- Without an error the outcome is a success exactly for the success
codes. -/
theorem attemptOutcome_none_success {req : RequestInfo} {code : ℤ} {status : Bytes} :
    attemptOutcome req code status none = .success ↔ 200 ≤ code ∧ code < 400 := by
  unfold attemptOutcome
  by_cases hm : requestMaps451ToAbsence req code = true
  · have hcode := eq_of_requestMaps451 hm
    simp only [Option.isNone_none, hm, and_self, if_true]
    exact iff_of_false nofun (by omega)
  · simp only [hm, Bool.false_eq_true, and_false, if_false, Option.orElse_eq_orElse,
      Option.orElse_eq_or, Option.none_or]
    cases ht : toError code status with
    | none => simp [classifyOutcome, toError_eq_none.1 ht]
    | some e =>
      refine iff_of_false (classifyOutcome_some_ne_success code e) fun h => ?_
      rw [toError_eq_none.2 h] at ht
      cases ht

/-- Without an error it is an absence exactly for 423, 430, and a 451
that is mapped to one. -/
theorem attemptOutcome_none_absence {req : RequestInfo} {code : ℤ} {status : Bytes} :
    attemptOutcome req code status none = .hardArticleAbsence ↔
      code = 423 ∨ code = 430 ∨ requestMaps451ToAbsence req code = true := by
  unfold attemptOutcome
  by_cases hm : requestMaps451ToAbsence req code = true
  · simp [hm]
  by_cases ha : code = 423 ∨ code = 430
  · have hne : toError code status = some errArticleNotFound := by
      unfold toError
      rw [if_neg (by omega), if_pos ha]
    simp only [hm, Bool.false_eq_true, and_false, if_false, hne, Option.orElse_eq_orElse,
      Option.orElse_eq_or, Option.none_or]
    rcases ha with rfl | rfl <;> simp [classifyOutcome, isUnavailable, errArticleNotFound,
      GoError.isSentinel, GoError.isCode, errorCategory]
  · simp only [hm, Bool.false_eq_true, and_false, if_false, Option.orElse_eq_orElse,
      Option.orElse_eq_or, Option.none_or]
    refine iff_of_false ?_ (by tauto)
    have hc : (toError code status).any (·.isCode 430) ≠ true := by
      intro h
      obtain ⟨c, hc, hcode⟩ := (Option.any_eq_true _ _).mp h
      exact ha ((isCode_toError hc).mp hcode)
    intro habs
    have hclass := classifyOutcome_classified code (toError code status)
    rw [habs] at hclass
    cases hclass with
    | absence h =>
      rcases h with h | h | h
      · exact ha (.inl h)
      · exact ha (.inr h)
      · exact hc h

/-- The evidence of an attempt with an error is no success. -/
theorem buildAttemptEvidence_ne_success (req : RequestInfo) (providerID : String) (code : ℤ)
    (status : Bytes) (e : GoError) :
    (buildAttemptEvidence req providerID code status (some e)).outcome ≠ .success := by
  have h : (buildAttemptEvidence req providerID code status (some e)).outcome =
      classifyOutcome code (some e) := attemptOutcome_some req code status e
  rw [h]
  exact classifyOutcome_some_ne_success code e

/-- **The evidence of an attempt agrees with itself**, if an error that
is `ErrArticleNotFound` is classified as an absence. -/
theorem buildAttemptEvidence_coherent {req : RequestInfo} {providerID : String}
    {code : ℤ} {status : Bytes} {err : Option GoError}
    (hg : ∀ e, err = some e → e.isCode 430 = true →
      classifyOutcome code (some e) = .hardArticleAbsence) :
    (buildAttemptEvidence req providerID code status err).Coherent where
  absence := by
    intro c hcause hc
    cases err with
    | some e =>
      obtain rfl : e = c := by simpa [buildAttemptEvidence] using hcause
      exact (attemptOutcome_some req code status e).trans (hg e rfl hc)
    | none =>
      have ht : toError code status = some c := by simpa [buildAttemptEvidence] using hcause
      exact attemptOutcome_none_absence.2 (((isCode_toError ht).mp hc).imp id Or.inl)
  caused := by
    intro hs
    cases err with
    | some e => rfl
    | none =>
      by_contra hn
      have ht : toError code status = none := by simpa [buildAttemptEvidence] using hn
      exact hs (attemptOutcome_none_success.2 (toError_eq_none.1 ht))

end Dispatch

end NntpPool
