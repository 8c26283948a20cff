import NntpPool.Dispatch.Evidence
import NntpPool.Dispatch.Model.Send
/-!
# Dispatch — turns

What one call of `tryGroupResilient` is: a refusal by the breaker, or
some attempts that are retried and a last one whose result it returns
(`Turned`). The evidence of a turn names its provider and agrees with
itself, and the verdict on the turn agrees with its last entry
(`Turned.last`).
-/

namespace NntpPool

namespace Dispatch

variable {g : Provider} {cmd : Command} {a : Attempt} {t : TurnResult}

/-! ## One attempt -/

/-- The evidence of an attempt. -/
def evidence (g : Provider) (cmd : Command) (a : Attempt) : List Evidence :=
  (tryGroup g cmd a).resp.attempts

/-- The attempt is refused for want of a fresh transport. -/
def Fresh (g : Provider) (cmd : Command) (a : Attempt) : Prop :=
  (tryGroup g cmd a).resp.err.any (·.isSentinel .freshTransportRequired) = true

theorem tryGroup_reply {code : ℤ} {status : Bytes} {err : Option GoError}
    (h : a.fin = .reply code status err) :
    tryGroup g cmd a =
      ⟨{ statusCode := code, status := status, err := err
         attempts := if err.any (·.isSentinel .freshTransportRequired) then []
           else [buildAttemptEvidence (requestInfo g cmd a) g.id code status err]
         committed := isBodyCommand cmd.payload && a.touched
         providerID := if err.any (·.isSentinel .freshTransportRequired) then "" else g.id },
        true, false⟩ := by
  simp only [tryGroup, h]

theorem tryGroup_ok (h : (tryGroup g cmd a).ok = true) :
    ∃ code status err, a.fin = .reply code status err := by
  unfold tryGroup at h
  cases hf : a.fin with
  | reply code status err => exact ⟨code, status, err, rfl⟩
  | _ => simp [hf] at h

/-- **An attempt without a response** fails with one of three errors, or
leaves nothing at all. -/
theorem tryGroup_silent (h : (tryGroup g cmd a).ok = false) :
    (tryGroup g cmd a).resp = {} ∨
      ∃ s : Sentinel, s ∈ [.canceled, .deadlineExceeded, .connectionDied] ∧
        (tryGroup g cmd a).resp.err = some (.sentinel s) ∧
        evidence g cmd a =
          [buildAttemptEvidence (requestInfo g cmd a) g.id 0 [] (some (.sentinel s))] := by
  unfold evidence tryGroup at *
  cases hf : a.fin with
  | clientDone e => cases e <;> exact .inr ⟨_, by decide, rfl, rfl⟩
  | callerDone e => cases e <;> exact .inr ⟨_, by decide, rfl, rfl⟩
  | groupDone => exact .inr ⟨.connectionDied, by decide, rfl, rfl⟩
  | closed => exact .inl rfl
  | reply code status err => simp [hf] at h

/-- **The evidence of an attempt** names the provider and agrees with
itself. -/
theorem evidence_spec {e : Evidence} (h : e ∈ evidence g cmd a) :
    e.providerID = g.id ∧ e.Coherent := by
  cases hok : (tryGroup g cmd a).ok with
  | false =>
    rcases tryGroup_silent hok with hr | ⟨s, _, _, hev⟩
    · simp [evidence, hr] at h
    · obtain rfl := List.mem_singleton.mp (hev ▸ h)
      refine ⟨rfl, buildAttemptEvidence_coherent fun e he hc => ?_⟩
      cases he
      cases hc
  | true =>
    obtain ⟨code, status, err, hf⟩ := tryGroup_ok hok
    rw [evidence, tryGroup_reply hf] at h
    dsimp only at h
    split_ifs at h
    · cases h
    · obtain rfl := List.mem_singleton.mp h
      exact ⟨rfl, buildAttemptEvidence_coherent fun e he hc =>
        (a.genuine code status e (he ▸ hf) hc).2⟩

/-- An attempt without a response is no success. -/
theorem evidence_ne_success {e : Evidence} (hok : (tryGroup g cmd a).ok = false)
    (h : e ∈ evidence g cmd a) : e.outcome ≠ .success := by
  rcases tryGroup_silent hok with hr | ⟨s, _, _, hev⟩
  · simp [evidence, hr] at h
  · obtain rfl := List.mem_singleton.mp (hev ▸ h)
    exact buildAttemptEvidence_ne_success _ _ _ _ _

theorem not_fresh_of_silent (hok : (tryGroup g cmd a).ok = false) : ¬Fresh g cmd a := by
  unfold Fresh
  rcases tryGroup_silent hok with hr | ⟨s, hs, herr, _⟩
  · simp [hr]
  · rw [herr]
    simp only [List.mem_cons, List.not_mem_nil, or_false] at hs
    rcases hs with rfl | rfl | rfl <;> decide

/-- Only a request that is not sent is refused for want of a fresh
transport. -/
theorem not_fresh_of_committed (h : (tryGroup g cmd a).resp.committed = true) :
    ¬Fresh g cmd a := by
  cases hok : (tryGroup g cmd a).ok with
  | false => exact not_fresh_of_silent hok
  | true =>
    obtain ⟨code, status, err, hf⟩ := tryGroup_ok hok
    rw [Fresh, tryGroup_reply hf] at *
    simp only [Bool.and_eq_true] at h ⊢
    intro hn
    obtain ⟨e, rfl, hfresh⟩ := (Option.any_eq_true _ _).mp hn
    exact Bool.false_ne_true ((a.unsent code status e hf hfresh).symm.trans h.2)

/-! ## The loop -/

/-- **An attempt that is retried**: a response came, nothing of it has
reached the caller's writer, and it asks for another attempt. -/
structure Retried (g : Provider) (cmd : Command) (a : Attempt) : Prop where
  ok : (tryGroup g cmd a).ok = true
  quiet : ¬(cmd.hasWriter = true ∧ (tryGroup g cmd a).resp.committed = true)
  asks : Fresh g cmd a ∨
    ((tryGroup g cmd a).resp.err = none ∧ (tryGroup g cmd a).resp.statusCode = 451) ∨
    (tryGroup g cmd a).resp.err.any isConnectionDeathError = true

/-- **What a call of `tryGroupResilient` returns.** -/
inductive Turned (g : Provider) (cmd : Command) : TurnResult → Prop
  /-- The breaker is open, or a context is done when it is asked. -/
  | refused (e : GoError) (cancelled : Bool) (he : e.isCode 430 = false) :
      Turned g cmd ⟨⟨⟨0, [], some e,
        [buildEligibilityEvidence cmd.payload g.id e cmd.validateBody], false, g.id⟩,
        !cancelled, cancelled⟩, []⟩
  /-- The result of the last attempt, with the evidence of all. -/
  | made (front : List Attempt) (a : Attempt) (cancelled : Bool)
      (hfront : ∀ b ∈ front, Retried g cmd b) (hlast : ¬Fresh g cmd a)
      (hc : cancelled = (tryGroup g cmd a).cancelled ∨
        cancelled = true ∧ ∃ status, a.fin = .reply 451 status none) :
      Turned g cmd ⟨⟨{ (tryGroup g cmd a).resp with
        attempts := (front ++ [a]).flatMap (evidence g cmd) },
        (tryGroup g cmd a).ok, cancelled⟩, front ++ [a]⟩

theorem resilientLoop_turned {delayCancelled : Bool} {as : List Attempt} {s : Retry}
    (h : resilientLoop g cmd delayCancelled as s = some t)
    (hmade : ∀ b ∈ s.made, Retried g cmd b)
    (hev : s.attempts = s.made.flatMap (evidence g cmd)) : Turned g cmd t := by
  -- the attempts made so far have all been retried, and left `s.attempts`
  induction as generalizing s with
  | nil => cases h
  | cons a rest ih =>
    have hev' : s.attempts ++ (tryGroup g cmd a).resp.attempts =
        (s.made ++ [a]).flatMap (evidence g cmd) := by
      simp [hev, evidence]
    have again (hr : Retried g cmd a) : ∀ b ∈ s.made ++ [a], Retried g cmd b :=
      List.forall_mem_append.mpr ⟨hmade, by simpa using hr⟩
    unfold resilientLoop at h
    dsimp only at h
    rw [hev'] at h
    split_ifs at h with h₁ h₂ h₃ h₄ h₅ h₆ h₇
    · -- cancelled, or no response
      cases h
      refine .made s.made a _ hmade ?_ (.inl rfl)
      cases hok : (tryGroup g cmd a).ok with
      | false => exact not_fresh_of_silent hok
      | true =>
        obtain ⟨code, status, err, hf⟩ := tryGroup_ok hok
        simp [tryGroup_reply hf] at h₁
    all_goals
      rw [not_or, Bool.not_eq_true, Bool.not_eq_false] at h₁
    · cases h
      exact .made s.made a _ hmade (not_fresh_of_committed h₂.2) (.inl h₁.1.symm)
    · exact ih h (again ⟨h₁.2, h₂, .inl h₃⟩) rfl
    · -- the delay behind a 451 is cut short
      cases h
      obtain ⟨code, status, err, hf⟩ := tryGroup_ok h₁.2
      simp only [tryGroup_reply hf, Option.isNone_iff_eq_none] at h₄
      obtain ⟨_, rfl, rfl⟩ := h₄
      exact .made s.made a _ hmade h₃ (.inr ⟨rfl, status, hf⟩)
    · exact ih h (again ⟨h₁.2, h₂, .inr (.inl ⟨Option.isNone_iff_eq_none.mp h₄.2.1, h₄.2.2⟩)⟩) rfl
    · cases h
      exact .made s.made a _ hmade h₃ (.inl h₁.1.symm)
    · exact ih h (again ⟨h₁.2, h₂, .inr (.inr h₇.2)⟩) rfl
    · cases h
      exact .made s.made a _ hmade h₃ (.inl h₁.1.symm)

/-- **Every call of `tryGroupResilient` that returns is a turn.** -/
theorem tryGroupResilient_turned {turn : Turn} (h : tryGroupResilient g cmd turn = some t) :
    Turned g cmd t := by
  unfold tryGroupResilient at h
  dsimp only at h
  split at h
  · exact resilientLoop_turned h (fun _ h => nomatch h) rfl
  · rename_i e _
    cases h
    exact .refused _ true (by cases e <;> rfl)
  · cases h
    exact .refused _ false rfl

/-! ## Verdicts -/

/-- The evidence of a response. -/
theorem evidence_reply {code : ℤ} {status : Bytes} {err : Option GoError}
    (hf : a.fin = .reply code status err) (hfresh : ¬Fresh g cmd a) :
    evidence g cmd a = [buildAttemptEvidence (requestInfo g cmd a) g.id code status err] := by
  rw [Fresh, tryGroup_reply hf] at hfresh
  rw [evidence, tryGroup_reply hf]
  exact if_neg hfresh

/-- An attempt that is retried is no success. -/
theorem Retried.ne_success (h : Retried g cmd a) {e : Evidence} (he : e ∈ evidence g cmd a) :
    e.outcome ≠ .success := by
  obtain ⟨code, status, err, hf⟩ := tryGroup_ok h.ok
  by_cases hfresh : Fresh g cmd a
  · rw [Fresh, tryGroup_reply hf] at hfresh
    rw [evidence, tryGroup_reply hf] at he
    simp [hfresh] at he
  · rw [evidence_reply hf hfresh] at he
    obtain rfl := List.mem_singleton.mp he
    have hasks := h.asks.resolve_left hfresh
    rw [tryGroup_reply hf] at hasks
    cases err with
    | some e => exact buildAttemptEvidence_ne_success _ _ _ _ _
    | none =>
      have hcode : code = 451 := by simpa using hasks
      intro hs
      have := attemptOutcome_none_success.1 (show attemptOutcome _ _ _ _ = _ from hs)
      omega

/-- **The evidence of a turn.** -/
theorem Turned.evidence_spec (h : Turned g cmd t) :
    ∀ e ∈ t.resp.attempts, e.providerID = g.id ∧ e.Coherent := by
  intro e he
  cases h with
  | refused e' c he' =>
    obtain rfl := List.mem_singleton.mp he
    refine ⟨rfl, buildAttemptEvidence_coherent fun e'' heq hc => ?_⟩
    cases heq
    exact absurd hc (by simp [he'])
  | made front a =>
    obtain ⟨b, _, hb⟩ := List.mem_flatMap.mp he
    exact Dispatch.evidence_spec hb

/-- What the last entry of a turn must be for a verdict. -/
def Verdict.Agrees (last : Evidence) : Verdict → Prop
  | .cancelled => False
  | .gone => False
  | .committed => last.outcome ≠ .success ∧ last.outcome ≠ .hardArticleAbsence
  | .failed e => last.outcome ≠ .success ∧ last.cause = some e
  | .unavailable => last.outcome ≠ .success ∧ last.outcome ≠ .hardArticleAbsence
  | .absent => last.outcome = .hardArticleAbsence
  | .odd => last.outcome ≠ .success ∧ last.outcome ≠ .hardArticleAbsence
  | .success => last.outcome = .success

/-- A response without an error is taken for an absence exactly if its
evidence is one. -/
theorem responseIsHardArticleAbsence_iff {req : RequestInfo} {code : ℤ} {status : Bytes}
    {front : List Evidence} {committed : Bool} {providerID id : String} :
    responseIsHardArticleAbsence ⟨code, status, none,
        front ++ [buildAttemptEvidence req providerID code status none], committed, id⟩ = true ↔
      attemptOutcome req code status none = .hardArticleAbsence := by
  simp only [responseIsHardArticleAbsence, List.getLast?_append, List.getLast?_singleton,
    Option.some_or, Option.any_some, buildAttemptEvidence, Bool.or_eq_true, Bool.and_eq_true,
    beq_iff_eq]
  constructor
  · rintro ((h | h) | ⟨_, _, h⟩)
    · exact attemptOutcome_none_absence.2 (.inl h)
    · exact attemptOutcome_none_absence.2 (.inr (.inl h))
    · exact h
  · intro h
    rcases attemptOutcome_none_absence.1 h with h' | h' | h'
    · exact .inl (.inl h')
    · exact .inl (.inr h')
    · have hcode := eq_of_requestMaps451 h'
      exact .inr ⟨hcode, hcode, h⟩

/-- The verdict on a response with an error. -/
theorem verdict_some (hw : Bool) (code : ℤ) (status : Bytes) (e : GoError) (es : List Evidence)
    (committed : Bool) (id : String) :
    verdict hw ⟨⟨code, status, some e, es, committed, id⟩, true, false⟩ =
      if hw && committed then .committed else .failed e := by
  simp [verdict]

/-- The verdict on a response without an error. -/
theorem verdict_none (hw : Bool) (code : ℤ) (status : Bytes) (es : List Evidence)
    (committed : Bool) (id : String) :
    verdict hw ⟨⟨code, status, none, es, committed, id⟩, true, false⟩ =
      if code = 502 then .unavailable
      else if responseIsHardArticleAbsence ⟨code, status, none, es, committed, id⟩ then .absent
      else if code < 200 ∨ 400 ≤ code then .odd else .success := by
  simp [verdict]

/-- What a verdict says of the result. -/
def Verdict.Says (t : Result) : Verdict → Prop
  | .cancelled => t.cancelled = true
  | .gone => t.cancelled = false ∧ t.ok = false
  | .committed => (t.cancelled = false ∧ t.ok = true) ∧ t.resp.err.isSome = true ∧
      t.resp.committed = true
  | .failed e => (t.cancelled = false ∧ t.ok = true) ∧ t.resp.err = some e
  | .unavailable => (t.cancelled = false ∧ t.ok = true) ∧ t.resp.err = none ∧
      t.resp.statusCode = 502
  | .absent => (t.cancelled = false ∧ t.ok = true) ∧ t.resp.err = none ∧
      responseIsHardArticleAbsence t.resp = true
  | .odd => (t.cancelled = false ∧ t.ok = true) ∧ t.resp.err = none ∧
      (t.resp.statusCode < 200 ∨ 400 ≤ t.resp.statusCode)
  | .success => (t.cancelled = false ∧ t.ok = true) ∧ t.resp.err = none ∧
      200 ≤ t.resp.statusCode ∧ t.resp.statusCode < 400

/-- **The verdict.** -/
theorem verdict_said (hw : Bool) (t : Result) : (verdict hw t).Says t := by
  obtain ⟨⟨code, status, err, es, committed, id⟩, ok, c⟩ := t
  cases c with
  | true => exact (rfl : true = true)
  | false =>
    cases ok with
    | false => exact ⟨rfl, rfl⟩
    | true =>
      cases err with
      | some e =>
        rw [verdict_some]
        split_ifs with h
        · exact ⟨⟨rfl, rfl⟩, rfl, (Bool.and_eq_true_iff.mp h).2⟩
        · exact ⟨⟨rfl, rfl⟩, rfl⟩
      | none =>
        rw [verdict_none]
        split_ifs with h₁ h₂ h₃
        · exact ⟨⟨rfl, rfl⟩, rfl, h₁⟩
        · exact ⟨⟨rfl, rfl⟩, rfl, h₂⟩
        · exact ⟨⟨rfl, rfl⟩, rfl, h₃⟩
        · exact ⟨⟨rfl, rfl⟩, rfl, by dsimp only; omega⟩

theorem hasWriter_of_committed {hw : Bool} {t : Result} (h : verdict hw t = .committed) :
    hw = true := by
  obtain ⟨⟨code, status, err, es, committed, id⟩, ok, c⟩ := t
  cases hw with
  | true => rfl
  | false =>
    cases c <;> cases ok <;> cases err <;> simp [verdict] at h
    split_ifs at h

/-- A verdict as an equation, with what it says. -/
theorem Verdict.Says.of_eq {hw : Bool} {t : Result} {v : Verdict} (h : verdict hw t = v) :
    v.Says t := h ▸ verdict_said hw t

theorem verdict_cancelled_iff {hw : Bool} {t : Result} :
    verdict hw t = .cancelled ↔ t.cancelled = true :=
  ⟨Verdict.Says.of_eq, fun h => by simp [verdict, h]⟩

/-- The response of a turn whose last attempt got one. -/
theorem made_reply {code : ℤ} {status : Bytes} {err : Option GoError} (front : List Attempt)
    (hf : a.fin = .reply code status err) (hfresh : ¬Fresh g cmd a) :
    { (tryGroup g cmd a).resp with attempts := (front ++ [a]).flatMap (evidence g cmd) } =
      (⟨code, status, err, front.flatMap (evidence g cmd) ++
        [buildAttemptEvidence (requestInfo g cmd a) g.id code status err],
        isBodyCommand cmd.payload && a.touched, g.id⟩ : Resp) := by
  rw [List.flatMap_append, List.flatMap_singleton, evidence_reply hf hfresh, tryGroup_reply hf]
  rw [Fresh, tryGroup_reply hf] at hfresh
  simp [show ¬err.any (·.isSentinel .freshTransportRequired) = true from hfresh]

/-- **The verdict on a turn that was answered agrees with its last
entry**, and no entry before it is a success. -/
theorem Turned.last (h : Turned g cmd t) (hc : t.cancelled = false) (hok : t.ok = true) :
    ∃ front last, t.resp.attempts = front ++ [last] ∧ (∀ e ∈ front, e.outcome ≠ .success) ∧
      (verdict cmd.hasWriter t.toResult).Agrees last := by
  cases h with
  | refused e c he =>
    refine ⟨[], _, rfl, (fun _ h => nomatch h), ?_⟩
    obtain rfl : c = false := hc
    rw [Bool.not_false, verdict_some]
    simp only [Bool.and_false, Bool.false_eq_true, if_false]
    exact ⟨buildAttemptEvidence_ne_success _ _ _ _ _, rfl⟩
  | made front a c hfront hlast hca =>
    obtain ⟨code, status, err, hf⟩ := tryGroup_ok hok
    obtain rfl : c = false := hc
    replace hok : (tryGroup g cmd a).ok = true := hok
    rw [made_reply front hf hlast, hok]
    refine ⟨front.flatMap (evidence g cmd), _, rfl, ?_, ?_⟩
    · intro e he
      obtain ⟨b, hb, he⟩ := List.mem_flatMap.mp he
      exact (hfront b hb).ne_success he
    · cases err with
      | some e =>
        have hs : (buildAttemptEvidence (requestInfo g cmd a) g.id code status (some e)).outcome
            = classifyOutcome code (some e) := attemptOutcome_some (requestInfo g cmd a) _ _ _
        rw [verdict_some]
        split_ifs with hw
        · -- a body was on its way, so the error is not one of the login dialogue
          refine ⟨buildAttemptEvidence_ne_success _ _ _ _ _, fun ha => ?_⟩
          simp only [Bool.and_eq_true] at hw
          have hcode := a.coded code status _ hf hw.2.2
          rcases classifyOutcome_some_absence (hs ▸ ha) with h | h | h
          · omega
          · omega
          · exact Bool.false_ne_true ((a.genuine code status e hf h).1.symm.trans hw.2.2)
        · exact ⟨buildAttemptEvidence_ne_success _ _ _ _ _, rfl⟩
      | none =>
        rw [verdict_none]
        have hs := @attemptOutcome_none_success (requestInfo g cmd a) code status
        have ha := @attemptOutcome_none_absence (requestInfo g cmd a) code status
        split_ifs with h₁ h₂ h₃
        · refine ⟨fun h => ?_, fun h => ?_⟩
          · have := hs.mp h
            omega
          · rcases ha.mp h with h | h | h
            · omega
            · omega
            · have := eq_of_requestMaps451 h
              omega
        · exact responseIsHardArticleAbsence_iff.1 h₂
        · refine ⟨fun h => ?_, fun h => h₂ (responseIsHardArticleAbsence_iff.2 h)⟩
          have := hs.mp h
          omega
        · exact hs.mpr (by omega)

/-- **Only a turn that succeeds leaves a success.** -/
theorem Turned.ne_success (h : Turned g cmd t)
    (hv : verdict cmd.hasWriter t.toResult ≠ .success) :
    ∀ e ∈ t.resp.attempts, e.outcome ≠ .success := by
  by_cases hans : t.cancelled = false ∧ t.ok = true
  · obtain ⟨front, last, heq, hfront, hlast⟩ := h.last hans.1 hans.2
    rw [heq]
    refine List.forall_mem_append.mpr ⟨hfront, List.forall_mem_singleton.mpr ?_⟩
    cases hverd : verdict cmd.hasWriter t.toResult with
    | success => exact absurd hverd hv
    | cancelled => rw [hverd] at hlast; exact hlast.elim
    | gone => rw [hverd] at hlast; exact hlast.elim
    | absent =>
      rw [hverd] at hlast
      intro hs
      cases hs.symm.trans hlast
    | committed => rw [hverd] at hlast; exact hlast.1
    | failed e => rw [hverd] at hlast; exact hlast.1
    | unavailable => rw [hverd] at hlast; exact hlast.1
    | odd => rw [hverd] at hlast; exact hlast.1
  · cases h with
    | refused e c he =>
      intro e' he'
      obtain rfl := List.mem_singleton.mp he'
      exact buildAttemptEvidence_ne_success _ _ _ _ _
    | made front a c hfront hlast hca =>
      intro e hmem
      obtain ⟨b, hb, he⟩ := List.mem_flatMap.mp hmem
      rcases List.mem_append.mp hb with hb | hb
      · exact (hfront b hb).ne_success he
      obtain rfl := List.mem_singleton.mp hb
      cases hok : (tryGroup g cmd b).ok with
      | false => exact evidence_ne_success hok he
      | true =>
        -- the delay behind a 451 was cut short
        obtain ⟨code, status, err, hf⟩ := tryGroup_ok hok
        rcases hca with hca | ⟨_, status', hf'⟩
        · rw [tryGroup_reply hf] at hca
          exact absurd ⟨hca, hok⟩ hans
        · rw [evidence_reply hf' hlast] at he
          obtain rfl := List.mem_singleton.mp he
          intro hs
          have := attemptOutcome_none_success.1 (show attemptOutcome _ _ _ _ = _ from hs)
          omega

/-- A turn that was answered otherwise leaves a failure. -/
theorem Turned.exists_failure (h : Turned g cmd t) (hans : t.cancelled = false ∧ t.ok = true)
    (hv : verdict cmd.hasWriter t.toResult ≠ .success) :
    ∃ e ∈ t.resp.attempts, e.outcome ≠ .success := by
  obtain ⟨front, last, heq, _, _⟩ := h.last hans.1 hans.2
  have hmem : last ∈ t.resp.attempts := by simp [heq]
  exact ⟨last, hmem, h.ne_success hv last hmem⟩

end Dispatch

end NntpPool
