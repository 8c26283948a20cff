import NntpPool.Dispatch.Channel
/-!
# Dispatch — what STAT probing may change

For providers that are consistent, what a call should answer can be said
from the provider list alone (`expected`): the first provider that has
the article serves it, and without one the kinds of the failures add up.
A call answers this with and without STAT probing, unless a provider
fails behind the first decoded bytes: without probing that failure is
handed to the caller, and with it the provider may be passed over.
-/

namespace NntpPool

namespace Dispatch

/-! ## Consistent providers -/

/-- **What a provider does with every request**: it has the article, lacks
it, or fails. -/
inductive Nature
  | has (code : ℤ)
  | lacks
  | fails
  deriving DecidableEq, Repr

/-- The outcome of its attempts. -/
def Nature.outcome : Nature → OutcomeKind
  | .has _ => .success
  | .lacks => .hardArticleAbsence
  | .fails => .transportFailure

def Nature.isHas : Nature → Bool
  | .has _ => true
  | _ => false

theorem Nature.lacks_or_fails {n : Nature} (h : n.isHas = false) : n = .lacks ∨ n = .fails := by
  cases n with
  | has code => cases h
  | lacks => exact .inl rfl
  | fails => exact .inr rfl

/-- A connection that is too old for the request has handed it back; it
is tried again on another, without evidence. -/
def Attempt.stale (a : Attempt) : Bool :=
  match a.fin with
  | .reply _ _ (some e) => e.isSentinel .freshTransportRequired
  | _ => false

/-- An attempt shows the nature of its provider. -/
def Nature.Shows (probe : Bool) (a : Attempt) : Nature → Prop
  | .has code => (200 ≤ code ∧ code < 400) ∧
      ∃ status, a.fin = .reply (if probe then 223 else code) status none
  | .lacks => ∃ status, a.fin = .reply 430 status none
  | .fails => ∃ code status e, a.fin = .reply code status (some e) ∧
      classifyOutcome code (some e) = .transportFailure

/-- **All providers are consistent**, within their quota, and not refused
by their breakers; every attempt is answered, so that a turn comes to its
end. -/
structure Consistent (w : World) (nature : Provider → Nature) : Prop where
  quota : ∀ stage g, w.quota stage g = false
  granted : ∀ stage g, (w.turn stage g).lease = .granted
  enough : ∀ stage g,
    maxConnDiedRetries < ((w.turn stage g).attempts.filter fun a => !a.stale).length
  shows : ∀ stage g, ∀ a ∈ (w.turn stage g).attempts,
    a.stale = true ∨ (nature g).Shows (stage == .probe) a

/-- **No provider fails behind decoded bytes** that were meant for the
caller's writer. -/
def FailsEarly (w : World) (cmd : Command) (nature : Provider → Nature) : Prop :=
  cmd.hasWriter = true → isBodyCommand cmd.payload = true → ∀ stage ≠ .probe, ∀ g,
    nature g = .fails → ∀ a ∈ (w.turn stage g).attempts, a.touched = false

/-! ## Answers -/

/-- What the caller learns: who served what, or the kind of the
failure. -/
inductive Answer
  | served (providerID : String) (code : ℤ)
  | failed (kind : Option OutcomeKind)
  deriving DecidableEq, Repr

def FinalErr.kind : FinalErr → Option OutcomeKind
  | .plain _ => none
  | .transport e => some e.kind

/-- The answer a response gives. -/
def Response.answer (resp : Response) : Answer :=
  match responseError resp with
  | none => .served resp.providerID resp.statusCode
  | some e => .failed e.kind

/-- The kind of a failure of all providers. -/
def expectedKind (nature : Provider → Nature) (gs : List Provider) : OutcomeKind :=
  if gs.all fun g => nature g == .lacks then .hardArticleAbsence
  else if gs.all fun g => nature g == .fails then .transportFailure
  else .inconclusive

/-- **The answer to a call**, by its providers alone. -/
def expected (nature : Provider → Nature) (gs : List Provider) : Answer :=
  match gs.find? fun g => (nature g).isHas with
  | some g =>
    match nature g with
    | .has code => .served g.id code
    | _ => .failed none
  | none => .failed (some (expectedKind nature gs))

variable {w : World} {cmd : Command} {nature : Provider → Nature} {g : Provider} {stage : Stage}
  {t : TurnResult} {log : List Event} {gs : List Provider}

/-! ## Turns -/

/-- **What a turn shows of its provider.** -/
inductive Shown (hasWriter probe : Bool) (g : Provider) (t : TurnResult) : Nature → Prop
  | has {code : ℤ} (hv : verdict hasWriter t.toResult = .success)
      (hcode : t.resp.statusCode = if probe then 223 else code) (hid : t.resp.providerID = g.id) :
      Shown hasWriter probe g t (.has code)
  | lacks (hv : verdict hasWriter t.toResult = .absent) (hcode : t.resp.statusCode = 430)
      (hne : t.resp.attempts ≠ [])
      (hout : ∀ e ∈ t.resp.attempts, e.outcome = .hardArticleAbsence) :
      Shown hasWriter probe g t .lacks
  | fails (e : GoError) (hv : verdict hasWriter t.toResult = .failed e)
      (hne : t.resp.attempts ≠ [])
      (hout : ∀ e ∈ t.resp.attempts, e.outcome = .transportFailure) :
      Shown hasWriter probe g t .fails

/-- A request that is handed back is tried again, as if nothing had
been. -/
theorem resilientLoop_stale {a : Attempt} (h : a.stale = true) (d : Bool) (rest : List Attempt)
    (s : Retry) :
    resilientLoop g cmd d (a :: rest) s =
      resilientLoop g cmd d rest { s with made := s.made ++ [a] } := by
  obtain ⟨code, status, e, hf, he⟩ : ∃ code status e, a.fin = .reply code status (some e) ∧
      e.isSentinel .freshTransportRequired = true := by
    unfold Attempt.stale at h
    split at h
    · exact ⟨_, _, _, by assumption, h⟩
    · cases h
  have ht : a.touched = false := a.unsent code status e hf he
  rw [resilientLoop]
  simp [tryGroup_reply hf, he, ht]

/-- A reply without an error ends the turn, unless it is a 451. -/
theorem resilientLoop_reply {a : Attempt} {code : ℤ} {status : Bytes}
    (hf : a.fin = .reply code status none) (hcode : code ≠ 451) (d : Bool) (rest : List Attempt)
    (s : Retry) :
    resilientLoop g cmd d (a :: rest) s =
      some ⟨⟨⟨code, status, none, s.attempts ++
        [buildAttemptEvidence (requestInfo g cmd a) g.id code status none],
        isBodyCommand cmd.payload && a.touched, g.id⟩, true, false⟩, s.made ++ [a]⟩ := by
  simp [resilientLoop, tryGroup_reply hf, hcode]

/-- A reply with an error ends the turn, or is tried again. -/
theorem resilientLoop_error {a : Attempt} {code : ℤ} {status : Bytes} {e : GoError}
    (hf : a.fin = .reply code status (some e)) (hfresh : a.stale = false)
    (hearly : (cmd.hasWriter && (isBodyCommand cmd.payload && a.touched)) = false) (d : Bool)
    (rest : List Attempt) {s : Retry} (hmapped : s.mapped451Retry = false) :
    let es := s.attempts ++ [buildAttemptEvidence (requestInfo g cmd a) g.id code status (some e)]
    resilientLoop g cmd d (a :: rest) s =
      if s.connRetries < maxConnDiedRetries ∧ isConnectionDeathError e = true then
        resilientLoop g cmd d rest
          { s with attempts := es, made := s.made ++ [a], connRetries := s.connRetries + 1 }
      else
        some ⟨⟨⟨code, status, some e, es, isBodyCommand cmd.payload && a.touched, g.id⟩,
          true, false⟩, s.made ++ [a]⟩ := by
  have he : e.isSentinel .freshTransportRequired = false := by
    simpa only [Attempt.stale, hf] using hfresh
  have hw : ¬(cmd.hasWriter = true ∧ isBodyCommand cmd.payload = true ∧ a.touched = true) := by
    simpa using hearly
  intro es
  rw [resilientLoop]
  simp [tryGroup_reply hf, he, hw, hmapped, es]

/-- **The loop shows the nature of the provider**: a request is tried
again only while it fails. -/
theorem resilientLoop_shown {probe d : Bool} {n : Nature} {as : List Attempt} {s : Retry}
    (hall : ∀ a ∈ as, a.stale = true ∨ n.Shows probe a)
    (hearly : n = .fails → ∀ a ∈ as,
      (cmd.hasWriter && (isBodyCommand cmd.payload && a.touched)) = false)
    (hlen : maxConnDiedRetries < (as.filter fun a => !a.stale).length + s.connRetries)
    (hretry : s.connRetries ≤ maxConnDiedRetries) (hmapped : s.mapped451Retry = false)
    (hs : ∀ e ∈ s.attempts, e.outcome = n.outcome) :
    ∃ t, resilientLoop g cmd d as s = some t ∧ Shown cmd.hasWriter probe g t n := by
  induction as generalizing s with
  | nil =>
    simp only [List.filter_nil, List.length_nil] at hlen
    omega
  | cons a rest ih =>
    obtain ⟨ha, hrest⟩ := List.forall_mem_cons.mp hall
    have hearly' := fun h a' ha' => hearly h a' (List.mem_cons_of_mem a ha')
    by_cases hst : a.stale = true
    · rw [resilientLoop_stale hst]
      refine ih hrest hearly' ?_ hretry hmapped hs
      simpa [hst] using hlen
    replace ha := ha.resolve_left hst
    cases n with
    | has code =>
      obtain ⟨hrange, status, hf⟩ := ha
      have hcode : 200 ≤ (if probe then 223 else code) ∧ (if probe then 223 else code) < 400 := by
        split_ifs <;> omega
      refine ⟨_, resilientLoop_reply hf (by omega) d rest s, .has ?_ rfl rfl⟩
      rw [verdict_none, if_neg (by omega), if_neg, if_neg (by omega)]
      intro hab
      have := responseIsHardArticleAbsence_iff.1 hab
      rw [attemptOutcome_none_success.2 hcode] at this
      cases this
    | lacks =>
      obtain ⟨status, hf⟩ := ha
      refine ⟨_, resilientLoop_reply hf (by omega) d rest s, .lacks ?_ rfl (by simp) ?_⟩
      · rw [verdict_none, if_neg (by omega), if_pos]
        rfl
      · refine List.forall_mem_append.mpr ⟨hs, List.forall_mem_singleton.mpr ?_⟩
        show attemptOutcome (requestInfo g cmd a) 430 status none = _
        exact attemptOutcome_none_absence.2 (.inr (.inl rfl))
    | fails =>
      obtain ⟨code, status, e, hf, hout⟩ := ha
      have hev : ∀ x ∈ s.attempts ++
          [buildAttemptEvidence (requestInfo g cmd a) g.id code status (some e)],
          x.outcome = .transportFailure :=
        List.forall_mem_append.mpr ⟨hs, List.forall_mem_singleton.mpr
          ((attemptOutcome_some (requestInfo g cmd a) code status e).trans hout)⟩
      have hquiet := hearly rfl a List.mem_cons_self
      rw [resilientLoop_error hf (by simpa using hst) hquiet d rest hmapped]
      split_ifs with hagain
      · refine ih hrest hearly' ?_ hagain.1 hmapped hev
        simp only [Bool.not_eq_true] at hst
        simp only [List.filter_cons, hst, Bool.not_false, if_true, List.length_cons] at hlen
        simp only
        omega
      · refine ⟨_, rfl, .fails e ?_ (by simp) hev⟩
        rw [verdict_some, hquiet]
        rfl

section Turns

variable (hcon : Consistent w nature)
include hcon

/-- **A turn of a consistent provider.** -/
theorem Consistent.turn (hearly : FailsEarly w cmd nature) (hstage : stage ≠ .probe)
    (g : Provider) :
    ∃ t, tryGroupResilient g cmd (w.turn stage g) = some t ∧
      Shown cmd.hasWriter false g t (nature g) := by
  have hshow := hcon.shows stage g
  rw [show (stage == .probe) = false by simpa using hstage] at hshow
  unfold tryGroupResilient
  rw [hcon.granted stage g]
  refine resilientLoop_shown hshow ?_ (hcon.enough stage g) (Nat.zero_le _) rfl (by simp)
  intro hn a ha
  cases hw : cmd.hasWriter with
  | false => rfl
  | true =>
    cases hb : isBodyCommand cmd.payload with
    | false => rfl
    | true => simpa using hearly hw hb stage hstage g hn a ha

/-- A probe of a consistent provider. -/
theorem Consistent.probed (stat : Bytes) (g : Provider) :
    ∃ t, tryGroupResilient g (statCommand stat) (w.turn .probe g) = some t ∧
      Shown false true g t (nature g) := by
  unfold tryGroupResilient
  rw [hcon.granted .probe g]
  exact resilientLoop_shown (hcon.shows .probe g) (fun _ _ _ => rfl)
    (hcon.enough .probe g) (Nat.zero_le _) rfl (by simp)

end Turns

/-! ## The way through the providers -/

/-- **The call behind some providers, none of which has the article**: its
evidence has the outcomes of their natures, its last error is set if one
has failed, and its last response is an absence. -/
structure Passed (nature : Provider → Nature) (gs : List Provider) (s : Sending) : Prop where
  lacking : ∀ g ∈ gs, (nature g).isHas = false
  outcomes : ∀ o, o ∈ (attemptsOf s.log).map (·.outcome) ↔ ∃ g ∈ gs, (nature g).outcome = o
  err : s.lastErr = none ↔ ∀ g ∈ gs, nature g ≠ .fails
  resp : ∀ r, s.lastResp = some r → r.err = none ∧ r.statusCode = 430
  absent : (∃ g ∈ gs, nature g = .lacks) → s.lastResp ≠ none
  post430 : s.post430 = true → s.lastResp ≠ none

/-- **What a part of the call comes to** that tries the last of `gs`:
none has the article, or the answer does not depend on who is left. -/
inductive Told (nature : Provider → Nature) (gs : List Provider) : Flow → Prop
  | goOn {s : Sending} (h : Passed nature gs s) : Told nature gs (.goOn s)
  | delivered {resp : Response} {log : List Event}
      (h : ∀ rest, resp.answer = expected nature (gs ++ rest)) :
      Told nature gs (.delivered resp log)

theorem Passed.start : Passed nature [] {} where
  lacking := by simp
  outcomes := by simp [attemptsOf]
  err := by simp
  resp := nofun
  absent := by simp
  post430 := nofun

/-- The evidence of an event shows the nature of its provider. -/
def Event.Shows (nature : Provider → Nature) (e : Event) : Prop :=
  e.evidence ≠ [] ∧ ∀ x ∈ e.evidence, x.outcome = (nature e.provider).outcome

theorem Event.Shows.outcomes_iff {e : Event} (h : e.Shows nature) (o : OutcomeKind) :
    o ∈ e.evidence.map (·.outcome) ↔ (nature e.provider).outcome = o := by
  constructor
  · intro ho
    obtain ⟨x, hx, rfl⟩ := List.mem_map.mp ho
    exact (h.2 x hx).symm
  · rintro rfl
    obtain ⟨x, hx⟩ := List.exists_mem_of_ne_nil _ h.1
    exact List.mem_map.mpr ⟨x, hx, h.2 x hx⟩

/-- A turn that does not find the article. -/
theorem Shown.event {hw probe : Bool} (h : Shown hw probe g t (nature g))
    (hlack : (nature g).isHas = false) (stage : Stage) :
    Event.Shows nature (.tried g stage t) := by
  show t.resp.attempts ≠ [] ∧ ∀ x ∈ t.resp.attempts, x.outcome = (nature g).outcome
  generalize nature g = n at h hlack
  cases h with
  | has => cases hlack
  | lacks hv hcode hne hout => exact ⟨hne, hout⟩
  | fails e hv hne hout => exact ⟨hne, hout⟩

/-- **The call passes more providers.** -/
theorem Passed.append {s s' : Sending} {es : List Event} (h : Passed nature gs s)
    (hes : ∀ e ∈ es, (nature e.provider).isHas = false ∧ e.Shows nature)
    (hlog : s'.log = s.log ++ es)
    (herr : s'.lastErr = none ↔ s.lastErr = none ∧ ∀ e ∈ es, nature e.provider ≠ .fails)
    (hresp : s'.lastResp = s.lastResp ∨
      ∃ r, s'.lastResp = some r ∧ r.err = none ∧ r.statusCode = 430)
    (habsent : (∃ e ∈ es, nature e.provider = .lacks) → s'.lastResp ≠ none)
    (hpost : s'.post430 = true → s'.lastResp ≠ none) :
    Passed nature (gs ++ es.map Event.provider) s' where
  lacking := by
    refine List.forall_mem_append.mpr ⟨h.lacking, List.forall_mem_map.mpr fun e he => ?_⟩
    exact (hes e he).1
  outcomes := by
    intro o
    have hnew : o ∈ (es.flatMap Event.evidence).map (·.outcome) ↔
        ∃ e ∈ es, (nature e.provider).outcome = o := by
      rw [List.map_flatMap, List.mem_flatMap]
      exact exists_congr fun e => and_congr_right fun he => (hes e he).2.outcomes_iff o
    rw [hlog, attemptsOf, List.flatMap_append, List.map_append, List.mem_append, hnew]
    rw [show s.log.flatMap Event.evidence = attemptsOf s.log from rfl, h.outcomes o]
    simp [or_and_right, exists_or]
  err := by
    rw [herr, h.err]
    simp [or_imp, forall_and]
  resp := by
    rintro r hr
    rcases hresp with heq | ⟨r', heq, hr'⟩
    · exact h.resp r (heq ▸ hr)
    · cases hr.symm.trans heq
      exact hr'
  absent := by
    rintro ⟨g, hg, hn⟩
    rcases List.mem_append.mp hg with hg | hg
    · rcases hresp with heq | ⟨r, heq, _⟩
      · exact heq ▸ h.absent ⟨g, hg, hn⟩
      · simp [heq]
    · obtain ⟨e, he, rfl⟩ := List.mem_map.mp hg
      exact habsent ⟨e, he, hn⟩
  post430 := hpost

/-- The call passes a provider that lacks the article. -/
theorem Passed.lacks {hw : Bool} {s : Sending} (h : Passed nature gs s) (hn : nature g = .lacks)
    (ht : Shown hw false g t .lacks) (stage : Stage) (post : Bool) :
    Passed nature (gs ++ [g]) { s with
      log := s.log ++ [.tried g stage t], lastResp := some t.resp, post430 := post } := by
  have hlack : (nature g).isHas = false := by simp [hn, Nature.isHas]
  have hevent : Event.Shows nature (.tried g stage t) := Shown.event (hn ▸ ht) hlack stage
  cases ht with
  | lacks hv hcode hne hout =>
    obtain ⟨_, herr, _⟩ := Verdict.Says.of_eq hv
    have hes : ∀ e ∈ [Event.tried g stage t], (nature e.provider).isHas = false ∧ e.Shows nature :=
      List.forall_mem_singleton.mpr ⟨hlack, hevent⟩
    exact h.append hes rfl (by simp [Event.provider, hn]) (.inr ⟨t.resp, rfl, herr, hcode⟩)
      (by simp) (by simp)

/-- The call passes a provider that fails. -/
theorem Passed.fails {s : Sending} (h : Passed nature gs s) (hn : nature g = .fails)
    {stage : Stage} (hevent : Event.Shows nature (.tried g stage t)) (e : GoError) :
    Passed nature (gs ++ [g]) { s with
      log := s.log ++ [.tried g stage t], lastErr := some e } :=
  h.append (List.forall_mem_singleton.mpr ⟨by simp [Event.provider, hn, Nature.isHas], hevent⟩) rfl
    (by simp [Event.provider, hn]) (.inl rfl) (by simp [Event.provider, hn]) h.post430

/-- What is answered once a provider has the article. -/
theorem expected_of_has {rest : List Provider} {code : ℤ}
    (hgs : ∀ g ∈ gs, (nature g).isHas = false) (hg : nature g = .has code) :
    expected nature (gs ++ g :: rest) = .served g.id code := by
  have hfind : (gs ++ g :: rest).find? (fun g => (nature g).isHas) = some g := by
    rw [List.find?_append, List.find?_eq_none.mpr fun x hx => by simp [hgs x hx], Option.none_or,
      List.find?_cons_of_pos (by simp [hg, Nature.isHas])]
  simp [expected, hfind, hg]

/-- The response of a provider that has the article. -/
theorem answer_deliver {hw : Bool} {code : ℤ} (h : Shown hw false g t (.has code)) :
    (deliver t.resp log).answer = .served g.id code := by
  cases h with
  | has hv hcode hid =>
    obtain ⟨_, herr, hrange⟩ := Verdict.Says.of_eq hv
    have hnone : toError t.resp.statusCode t.resp.status = none := toError_eq_none.2 hrange
    have hno : responseError (deliver t.resp log) = none := by
      simp [responseError, deliver, herr, hnone]
    rw [Response.answer, hno]
    simp only [deliver, hid, hcode]
    rfl

/-- The first provider that has the article is the one that serves it. -/
theorem answer_of_has {hw : Bool} {code : ℤ} (hgs : ∀ g ∈ gs, (nature g).isHas = false)
    (hg : nature g = .has code) (h : Shown hw false g t (.has code)) (rest : List Provider) :
    (deliver t.resp log).answer = expected nature (gs ++ g :: rest) := by
  rw [answer_deliver h, expected_of_has hgs hg]

/-- **What a race of `ps` comes to**, behind the providers `gs`. -/
inductive RaceTold (nature : Provider → Nature) (gs ps : List Provider) (log : List Event) :
    RaceEnd × List Event → Prop
  | ended {lastErr : Option GoError} (es : List Event) (hps : es.map Event.provider = ps)
      (hes : ∀ e ∈ es, (nature e.provider).isHas = false ∧ e.Shows nature)
      (herr : lastErr = none ↔ ∀ e ∈ es, nature e.provider ≠ .fails) :
      RaceTold nature gs ps log (.over lastErr, log ++ es)
  | delivered {resp : Response} {log' : List Event}
      (h : ∀ rest, resp.answer = expected nature (gs ++ ps ++ rest)) :
      RaceTold nature gs ps log (.delivered resp, log')

/-! ## Probes -/

theorem Shown.isWinner {r : Provider × TurnResult} {n : Nature} (h : Shown false true r.1 r.2 n) :
    isWinner r = n.isHas := by
  cases h with
  | has hv hcode hid => simp [Dispatch.isWinner, hv, hcode, Nature.isHas]
  | lacks hv hcode hne hout => simp [Dispatch.isWinner, hv, Nature.isHas]
  | fails e hv hne hout => simp [Dispatch.isWinner, hv, Nature.isHas]

theorem Shown.not_cancelled {hw probe : Bool} {n : Nature} (h : Shown hw probe g t n) :
    t.cancelled = false := by
  cases h with
  | has hv hcode hid => exact (Verdict.Says.of_eq hv).1.1
  | lacks hv hcode hne hout => exact (Verdict.Says.of_eq hv).1.1
  | fails e hv hne hout => exact (Verdict.Says.of_eq hv).1.1

theorem Shown.probeErr {r : Provider × TurnResult} {n : Nature} (h : Shown false true r.1 r.2 n)
    (lastErr : Option GoError) : probeErr lastErr r = none ↔ lastErr = none ∧ n ≠ .fails := by
  cases h with
  | has hv hcode hid => simp [Dispatch.probeErr, hv, hcode]
  | lacks hv hcode hne hout => simp [Dispatch.probeErr, hv]
  | fails e hv hne hout => simp [Dispatch.probeErr, hv]

/-- The last error behind the probes. -/
theorem foldl_probeErr_eq_none {results : List (Provider × TurnResult)}
    (h : ∀ r ∈ results, Shown false true r.1 r.2 (nature r.1)) (lastErr : Option GoError) :
    results.foldl probeErr lastErr = none ↔
      lastErr = none ∧ ∀ r ∈ results, nature r.1 ≠ .fails := by
  induction results generalizing lastErr with
  | nil => simp
  | cons r rest ih =>
    obtain ⟨hr, hrest⟩ := List.forall_mem_cons.mp h
    rw [List.foldl_cons, ih hrest, hr.probeErr]
    simp [and_assoc]

/-- The winners, by the natures of the candidates. -/
theorem winners_eq {results : List (Provider × TurnResult)}
    (h : ∀ r ∈ results, Shown false true r.1 r.2 (nature r.1)) :
    (results.filter isWinner).map Prod.fst =
      (results.map Prod.fst).filter fun g => (nature g).isHas := by
  rw [List.filter_map]
  exact congrArg _ (List.filter_congr fun r hr => (h r hr).isWinner)

/-- All candidates are probed. -/
theorem Consistent.mapM_probe (hcon : Consistent w nature) (stat : Bytes) (ps : List Provider) :
    ∃ results, ps.mapM (probe w stat) = some results ∧ results.map Prod.fst = ps ∧
      ∀ r ∈ results, Shown false true r.1 r.2 (nature r.1) := by
  induction ps with
  | nil => exact ⟨[], rfl, rfl, by simp⟩
  | cons g rest ih =>
    obtain ⟨t, ht, hshown⟩ := hcon.probed stat g
    obtain ⟨results, hres, hmap, hall⟩ := ih
    refine ⟨(g, t) :: results, ?_, by rw [List.map_cons, hmap],
      List.forall_mem_cons.mpr ⟨hshown, hall⟩⟩
    rw [List.mapM_cons, probe, ht, hres]
    rfl

section Loops

variable (hcon : Consistent w nature) (hearly : FailsEarly w cmd nature)
include hcon hearly

/-- The loop over the backups. -/
theorem backupLoop_told {ps : List Provider} {s : Sending} (hs : Passed nature gs s) :
    ∃ flow, backupLoop w cmd ps s = some flow ∧ Told nature (gs ++ ps) flow := by
  induction ps generalizing s gs with
  | nil => exact ⟨_, rfl, .goOn (by rwa [List.append_nil])⟩
  | cons g rest ih =>
    obtain ⟨t, ht, hshown⟩ := hcon.turn hearly (show Stage.backup ≠ .probe by nofun) g
    have hevent := fun hlack => hshown.event hlack .backup
    have hgs : gs ++ g :: rest = gs ++ [g] ++ rest := by simp
    rw [backupLoop, if_neg (by simp [hcon.quota]), ht, Option.bind_some]
    cases hn : nature g with
    | has code =>
      rw [hn] at hshown
      cases hshown with
      | has hv hcode hid =>
        simp only [hv]
        refine ⟨_, rfl, .delivered fun rest' => ?_⟩
        rw [List.append_assoc]
        exact answer_of_has hs.lacking hn (.has hv hcode hid) _
    | lacks =>
      rw [hn] at hshown
      have hnext := hs.lacks hn hshown .backup s.post430
      cases hshown with
      | lacks hv hcode hne hout =>
        simp only [hv, hgs]
        exact ih hnext
    | fails =>
      rw [hn] at hshown hevent
      cases hshown with
      | fails e hv hne hout =>
        simp only [hv, hgs]
        exact ih (hs.fails hn (hevent rfl) e)

/-- The single candidate. -/
theorem raceSingle_told (hgs : ∀ g ∈ gs, (nature g).isHas = false) (g : Provider)
    (log : List Event) :
    ∃ r, raceSingle w cmd g log none = some r ∧ RaceTold nature gs [g] log r := by
  obtain ⟨t, ht, hshown⟩ := hcon.turn hearly (show Stage.single ≠ .probe by nofun) g
  have hevent := fun hlack => hshown.event hlack .single
  rw [raceSingle, ht, Option.map_some]
  refine ⟨_, rfl, ?_⟩
  cases hn : nature g with
  | has code =>
    rw [hn] at hshown
    cases hshown with
    | has hv hcode hid =>
      simp only [hv]
      refine .delivered fun rest => ?_
      rw [List.append_assoc]
      exact answer_of_has hgs hn (.has hv hcode hid) _
  | lacks =>
    rw [hn] at hshown hevent
    cases hshown with
    | lacks hv hcode hne hout =>
      simp only [hv]
      refine .ended [_] rfl ?_ (by simp [Event.provider, hn])
      exact List.forall_mem_singleton.mpr ⟨by simp [Event.provider, hn, Nature.isHas], hevent rfl⟩
  | fails =>
    rw [hn] at hshown hevent
    cases hshown with
    | fails e hv hne hout =>
      simp only [hv]
      refine .ended [_] rfl ?_ (by simp [Event.provider, hn])
      exact List.forall_mem_singleton.mpr ⟨by simp [Event.provider, hn, Nature.isHas], hevent rfl⟩

/-- The providers that were found to have the article. -/
theorem raceWinners_told {ps : List Provider} {es : List Event} {lastErr : Option GoError}
    (hgs : ∀ g ∈ gs, (nature g).isHas = false) (log : List Event)
    (hps : es.map Event.provider = ps)
    (hes : ∀ e ∈ es, (nature e.provider).isHas = false → e.Shows nature)
    (herr : lastErr = none ↔ ∀ e ∈ es, nature e.provider ≠ .fails) :
    ∃ r, raceWinners w cmd (ps.filter fun g => (nature g).isHas) (log ++ es) lastErr = some r ∧
      RaceTold nature gs ps log r := by
  cases hwin : ps.filter fun g => (nature g).isHas with
  | nil =>
    refine ⟨_, rfl, .ended es hps (fun e he => ?_) herr⟩
    have hlack : (nature e.provider).isHas = false := by
      simpa using List.filter_eq_nil_iff.mp hwin e.provider (hps ▸ List.mem_map_of_mem he)
    exact ⟨hlack, hes e he hlack⟩
  | cons g rest =>
    obtain ⟨before, after, rfl, hbefore, hg, _⟩ := List.filter_eq_cons_iff.mp hwin
    obtain ⟨t, ht, hshown⟩ := hcon.turn hearly (show Stage.winner ≠ .probe by nofun) g
    rw [raceWinners, ht, Option.bind_some]
    generalize hn : nature g = n at hg hshown
    cases hshown with
    | has hv hcode hid =>
      simp only [hv]
      refine ⟨_, rfl, .delivered fun rest' => ?_⟩
      have hnone : ∀ x ∈ gs ++ before, (nature x).isHas = false :=
        List.forall_mem_append.mpr ⟨hgs, fun x hx => by simpa using hbefore x hx⟩
      rw [show gs ++ (before ++ g :: after) ++ rest' = (gs ++ before) ++ g :: (after ++ rest') by
        simp]
      exact answer_of_has hnone hn (.has hv hcode hid) _
    | lacks => cases hg
    | fails => cases hg

/-- **A race.** -/
theorem raceCandidates_told (hgs : ∀ g ∈ gs, (nature g).isHas = false) (stat : Bytes)
    (ps : List Provider) (log : List Event) :
    ∃ r, raceCandidates w cmd stat ps log = some r ∧ RaceTold nature gs ps log r := by
  have hlive : ps.filter (fun g => !w.quota .probe g) = ps :=
    List.filter_eq_self.mpr fun g _ => by simp [hcon.quota]
  have hover : ps.filter (w.quota .probe) = [] :=
    List.filter_eq_nil_iff.mpr fun g _ => by simp [hcon.quota]
  unfold raceCandidates
  simp only [hlive, hover, List.map_nil, List.append_nil, List.getLast?_nil, Option.map_none]
  match ps with
  | [] => exact ⟨_, rfl, by simpa using @RaceTold.ended nature gs [] log none [] rfl (by simp) (by simp)⟩
  | [g] => exact raceSingle_told hcon hearly hgs g log
  | g :: g' :: rest =>
    obtain ⟨results, hres, hmap, hall⟩ := hcon.mapM_probe stat (g :: g' :: rest)
    have hany : (results.any fun r => r.2.cancelled) = false :=
      List.any_eq_false.mpr fun r hr => by simp [(hall r hr).not_cancelled]
    simp only [hres, Option.bind_some, hany, Bool.false_eq_true, if_false]
    rw [winners_eq hall, hmap]
    refine raceWinners_told hcon hearly hgs log ?_ ?_ ?_
    · rw [map_provider_probed, hmap]
    · rw [List.forall_mem_map]
      exact fun r hr hlack => (hall r hr).event hlack .probe
    · rw [foldl_probeErr_eq_none hall, List.forall_mem_map]
      simp [probed, Event.provider]

/-- A race keeps the call on its way. -/
theorem race_told {s : Sending} (hs : Passed nature gs s) (hresp : s.lastResp ≠ none)
    (stat : Bytes) (ps : List Provider) :
    ∃ flow, race w cmd stat ps s = some flow ∧ Told nature (gs ++ ps) flow := by
  obtain ⟨r, hr, htold⟩ := raceCandidates_told hcon hearly hs.lacking stat ps s.log
  rw [race, hr, Option.map_some]
  refine ⟨_, rfl, ?_⟩
  cases htold with
  | ended es hps hes herr =>
    subst hps
    refine .goOn (hs.append hes rfl ?_ (.inl rfl) (fun _ => hresp) fun _ => hresp)
    simp only [Option.orElse_eq_orElse, Option.orElse_eq_or, Option.or_eq_none_iff, herr]
    exact and_comm
  | delivered h => exact .delivered h

/-- **The loop over the main providers.** -/
theorem mainLoop_told (stat : Option Bytes) {ps : List Provider} {s : Sending}
    (hs : Passed nature gs s) :
    ∃ flow, mainLoop w cmd stat ps s = some flow ∧ Told nature (gs ++ ps) flow := by
  induction ps generalizing s gs with
  | nil => exact ⟨_, rfl, .goOn (by rwa [List.append_nil])⟩
  | cons g rest ih =>
    obtain ⟨t, ht, hshown⟩ := hcon.turn hearly (show Stage.main ≠ .probe by nofun) g
    have hevent := fun hlack => hshown.event hlack .main
    have hgs : gs ++ g :: rest = gs ++ [g] ++ rest := by simp
    rw [mainLoop, if_neg (by simp [hcon.quota]), ht, Option.bind_some]
    cases hn : nature g with
    | has code =>
      rw [hn] at hshown
      cases hshown with
      | has hv hcode hid =>
        simp only [hv]
        refine ⟨_, rfl, .delivered fun rest' => ?_⟩
        rw [List.append_assoc]
        exact answer_of_has hs.lacking hn (.has hv hcode hid) _
    | lacks =>
      rw [hn] at hshown
      have hnext := hs.lacks hn hshown .main true
      cases hshown with
      | lacks hv hcode hne hout =>
        simp only [hv, hgs]
        cases stat with
        | some stat => exact race_told hcon hearly hnext (by simp) stat rest
        | none => exact ih hnext
    | fails =>
      rw [hn] at hshown hevent
      cases hshown with
      | fails e hv hne hout =>
        simp only [hv, hgs]
        exact ih (hs.fails hn (hevent rfl) e)

end Loops

/-! ## The call -/

/-- Failures of one kind add up to it. -/
theorem foldl_tally_same {k : OutcomeKind} (hs : k ≠ .success) (hc : k ≠ .cancellation)
    {os : List OutcomeKind} (h : ∀ o ∈ os, o = k) :
    os.foldl Tally.add ⟨k, true, false⟩ = ⟨k, true, false⟩ := by
  induction os with
  | nil => rfl
  | cons o rest ih =>
    obtain ⟨rfl, hrest⟩ := List.forall_mem_cons.mp h
    rw [List.foldl_cons, show Tally.add ⟨o, true, false⟩ o = ⟨o, true, false⟩ by
      simp [Tally.add, hs, hc]]
    exact ih hrest

theorem tally_kind_same {k : OutcomeKind} (hs : k ≠ .success) (hc : k ≠ .cancellation)
    {attempts : List Evidence} (hne : attempts ≠ []) (h : ∀ e ∈ attempts, e.outcome = k) :
    (tally attempts).kind = k := by
  obtain ⟨e, rest, rfl⟩ := List.exists_cons_of_ne_nil hne
  obtain ⟨he, hrest⟩ := List.forall_mem_cons.mp h
  rw [tally, List.map_cons, List.foldl_cons, he,
    show Tally.add {} k = ⟨k, true, false⟩ by simp [Tally.add, hs, hc],
    foldl_tally_same hs hc (List.forall_mem_map.mpr hrest)]

/-- Failures of two kinds do not. -/
theorem tally_kind_mixed {attempts : List Evidence} {k k' : OutcomeKind} (hkk : k ≠ k')
    (hk : k ∈ attempts.map (·.outcome)) (hk' : k' ∈ attempts.map (·.outcome))
    (hs : k ≠ .success) (hs' : k' ≠ .success) (hc : .cancellation ∉ attempts.map (·.outcome)) :
    (tally attempts).kind = .inconclusive := by
  have h := foldl_tally_of (attempts.map (·.outcome))
  rw [tally]
  generalize (attempts.map (·.outcome)).foldl Tally.add {} = t at h
  cases h with
  | clean h => exact absurd (h k hk) hs
  | cancelled h => exact absurd h hc
  | pure k₀ _ _ _ h =>
    exact absurd (((h k hk).resolve_left hs).trans ((h k' hk').resolve_left hs').symm) hkk
  | mixed => rfl

/-- **The kind of the failure**, once all providers are passed. -/
theorem Passed.kind {s : Sending} (h : Passed nature gs s) (hne : gs ≠ []) :
    attemptsOf s.log ≠ [] ∧ (tally (attemptsOf s.log)).kind = expectedKind nature gs := by
  obtain ⟨g, hg⟩ := List.exists_mem_of_ne_nil gs hne
  have hattempts : attemptsOf s.log ≠ [] := by
    intro hnil
    have := (h.outcomes (nature g).outcome).mpr ⟨g, hg, rfl⟩
    rw [hnil] at this
    cases this
  refine ⟨hattempts, ?_⟩
  have hsame {n : Nature} (hall : ∀ g ∈ gs, nature g = n) :
      ∀ e ∈ attemptsOf s.log, e.outcome = n.outcome := by
    intro e he
    obtain ⟨g, hg, ho⟩ := (h.outcomes e.outcome).mp (List.mem_map_of_mem he)
    rw [← ho, hall g hg]
  unfold expectedKind
  split_ifs with hl hf
  · exact tally_kind_same (by decide) (by decide) hattempts (@hsame .lacks (by simpa using hl))
  · exact tally_kind_same (by decide) (by decide) hattempts (@hsame .fails (by simpa using hf))
  · -- some provider lacks the article, and some fails
    simp only [List.all_eq_true, beq_iff_eq, not_forall] at hl hf
    obtain ⟨gf, hgf, hnl⟩ := hl
    obtain ⟨gl, hgl, hnf⟩ := hf
    have hlacks : OutcomeKind.hardArticleAbsence ∈ (attemptsOf s.log).map (·.outcome) := by
      refine (h.outcomes _).mpr ⟨gl, hgl, ?_⟩
      rw [(Nature.lacks_or_fails (h.lacking gl hgl)).resolve_right hnf]
      rfl
    have hfails : OutcomeKind.transportFailure ∈ (attemptsOf s.log).map (·.outcome) := by
      refine (h.outcomes _).mpr ⟨gf, hgf, ?_⟩
      rw [(Nature.lacks_or_fails (h.lacking gf hgf)).resolve_left hnl]
      rfl
    refine tally_kind_mixed (by decide) hlacks hfails (by decide) (by decide) fun hc => ?_
    obtain ⟨g, _, ho⟩ := (h.outcomes _).mp hc
    cases hn : nature g <;> simp [hn, Nature.outcome] at ho

/-- The answer once all providers are passed. -/
theorem Passed.answer {s : Sending} (h : Passed nature gs s) (hne : gs ≠ []) :
    (exhausted s).answer = expected nature gs := by
  obtain ⟨hattempts, hkind⟩ := h.kind hne
  have hfind : gs.find? (fun g => (nature g).isHas) = none :=
    List.find?_eq_none.mpr fun g hg => by simp [h.lacking g hg]
  simp only [expected, hfind]
  cases herr : s.lastErr with
  | some e =>
    simp only [exhausted, herr, Response.answer, responseError, FinalErr.kind, newTransportError,
      hkind]
  | none =>
    -- all providers lack the article
    obtain ⟨g, hg⟩ := List.exists_mem_of_ne_nil gs hne
    have hlacks : nature g = .lacks :=
      (Nature.lacks_or_fails (h.lacking g hg)).resolve_right (h.err.mp herr g hg)
    obtain ⟨r, hr⟩ := Option.ne_none_iff_exists'.mp (h.absent ⟨g, hg, hlacks⟩)
    obtain ⟨hrerr, hcode⟩ := h.resp r hr
    obtain ⟨c, hc⟩ := Option.ne_none_iff_exists'.mp
      (mt (@toError_eq_none r.statusCode r.status).mp (by omega))
    simp only [exhausted, herr, hr, Response.answer, responseError, deliver, hrerr,
      Option.map_none, hc, Option.map_some, hattempts, if_false, FinalErr.kind,
      newTransportError, hkind]

/-- The answer behind the last loop, whose end `f` makes a response of. -/
theorem Told.answer {x : Option Flow} {f : Flow → Response × List Event}
    (hdelivered : ∀ resp log, f (.delivered resp log) = (resp, log))
    (hgoOn : ∀ s, f (.goOn s) = (exhausted s, s.log)) (hne : gs ≠ [])
    (h : ∃ flow, x = some flow ∧ Told nature gs flow) :
    ∃ resp log, x.map f = some (resp, log) ∧ resp.answer = expected nature gs := by
  obtain ⟨flow, rfl, htold⟩ := h
  cases htold with
  | @delivered resp log h =>
    exact ⟨resp, log, congrArg some (hdelivered resp log), by simpa using h []⟩
  | @goOn s hs => exact ⟨_, _, congrArg some (hgoOn s), hs.answer hne⟩

/-- **A call answers what its providers make one expect**, with and
without probing. -/
theorem doSendWithRetry_answer {c : Send} (hcon : Consistent w nature)
    (hearly : FailsEarly w c.cmd nature) :
    ∃ resp log, doSendWithRetry w c = some (resp, log) ∧
      resp.answer = if c.mains = [] then .failed none
        else expected nature (c.order ++ c.backups) := by
  unfold doSendWithRetry
  split_ifs with hmains
  · exact ⟨_, _, rfl, rfl⟩
  have hne : c.order ++ c.backups ≠ [] := by
    simp [Send.order, hmains]
  obtain ⟨flow, hflow, htold⟩ : ∃ flow, mainLoop w c.cmd c.statPayload c.order {} = some flow ∧
      Told nature c.order flow := mainLoop_told hcon hearly c.statPayload Passed.start
  rw [hflow, Option.bind_some]
  cases htold with
  | delivered h => exact ⟨_, _, rfl, h c.backups⟩
  | @goOn s hs =>
    refine Told.answer (fun _ _ => rfl) (fun _ => rfl) hne ?_
    cases c.statPayload with
    | none => exact backupLoop_told hcon hearly hs
    | some stat =>
      dsimp only
      split_ifs with hpost
      · exact race_told hcon hearly hs (hs.post430 hpost) stat c.backups
      · exact backupLoop_told hcon hearly hs

/-- The call with STAT probing on, or off. -/
def Send.probing (c : Send) (on : Bool) : Send := { c with statProbe := on }

/-- **STAT probing does not change the answer** of consistent providers
that fail before the first decoded byte, in whatever order the probes
finish. -/
theorem probing_keeps_answer {w' : World} (hcon : Consistent w nature)
    (hcon' : Consistent w' nature) (c : Send) (hearly : FailsEarly w c.cmd nature)
    (hearly' : FailsEarly w' c.cmd nature) (fin fin' : Finish) :
    ∃ s s' resp resp', doSendWithRetryCh w fin (c.probing true) = some s ∧
      doSendWithRetryCh w' fin' (c.probing false) = some s' ∧
      s.respCh = [resp] ∧ s'.respCh = [resp'] ∧ resp.answer = resp'.answer := by
  obtain ⟨resp, log, hr, ha⟩ := @doSendWithRetry_answer w nature (c.probing true) hcon hearly
  obtain ⟨resp', log', hr', ha'⟩ := @doSendWithRetry_answer w' nature (c.probing false) hcon' hearly'
  refine ⟨Wire.closed log resp, Wire.closed log' resp', resp, resp', ?_, ?_, rfl, rfl,
    ha.trans ha'.symm⟩
  · rw [doSendWithRetryCh_eq, hr]
    rfl
  · rw [doSendWithRetryCh_eq, hr']
    rfl

/-! ## Three providers -/

/-- BODY into a writer, on three main providers. -/
def streamedCall : Send where
  cmd := ⟨ascii "BODY <a@b>" ++ crlf, false, true⟩
  statProbe := false
  strategy := .fifo
  loads := []
  nextIdx := 0
  mains := [⟨"first", "first", false⟩, ⟨"second", "second", false⟩, ⟨"third", "third", false⟩]
  backups := []
  distinct := racedCall.distinct

/-- The first provider lacks the article, the second fails, and the third
has it. -/
def threeNatures (g : Provider) : Nature :=
  if g.id = "first" then .lacks else if g.id = "second" then .fails else .has 222

/-- The connection dies, behind the first decoded bytes or before. -/
def Attempt.died (touched : Bool) : Attempt where
  fin := .reply (if touched then 222 else 0) [] (some (.sentinel .connectionDied))
  atHead := true
  ctxDone := false
  touched := touched
  decoded := []
  wrote := []
  wrote_front := nothing_front
  touched_of_wrote := fun h => absurd rfl h
  coded := by
    rintro code status err h rfl
    cases h
    exact .inr rfl
  unsent := by
    rintro code status e h
    cases h
    nofun
  genuine := by
    rintro code status e h
    cases h
    nofun

/-- An attempt on a provider; `late` is when the provider fails. -/
def Nature.attempt (late probe : Bool) : Nature → Attempt
  | .has code => .answer (if probe then 223 else code) []
  | .lacks => .answer 430 []
  | .fails => .died (late && !probe)

theorem Nature.attempt_stale (late probe : Bool) (n : Nature) :
    (n.attempt late probe).stale = false := by
  cases n <;> rfl

theorem Nature.attempt_shows (late probe : Bool) {n : Nature}
    (hn : ∀ code, n = .has code → 200 ≤ code ∧ code < 400) :
    n.Shows probe (n.attempt late probe) := by
  cases n with
  | has code => exact ⟨hn code rfl, [], rfl⟩
  | lacks => exact ⟨[], rfl⟩
  | fails =>
    refine ⟨_, [], _, rfl, ?_⟩
    cases late <;> cases probe <;> decide

/-- The three providers. -/
def threeWorld (late : Bool) : World where
  quota := fun _ _ => false
  turn := fun stage g =>
    ⟨.granted, List.replicate 3 ((threeNatures g).attempt late (stage == .probe)), false⟩
  cancelCause := none

theorem threeWorld_consistent (late : Bool) : Consistent (threeWorld late) threeNatures where
  quota := fun _ _ => rfl
  granted := fun _ _ => rfl
  enough := by
    intro stage g
    simp [threeWorld, Nature.attempt_stale, maxConnDiedRetries]
  shows := by
    intro stage g a ha
    rw [List.eq_of_mem_replicate ha]
    refine .inr (Nature.attempt_shows late _ fun code hcode => ?_)
    unfold threeNatures at hcode
    split_ifs at hcode
    cases hcode
    decide

/-- With a failure before the first decoded byte the third provider
serves the article either way. -/
theorem probing_keeps_answer_of_three :
    ∃ s s' resp resp', doSendWithRetryCh (threeWorld false) reversed (streamedCall.probing true) =
        some s ∧
      doSendWithRetryCh (threeWorld false) reversed (streamedCall.probing false) = some s' ∧
      s.respCh = [resp] ∧ s'.respCh = [resp'] ∧ resp.answer = resp'.answer := by
  have hearly : FailsEarly (threeWorld false) streamedCall.cmd threeNatures := by
    intro _ _ stage _ g hn a ha
    rw [List.eq_of_mem_replicate ha, hn]
    rfl
  exact probing_keeps_answer (threeWorld_consistent false) (threeWorld_consistent false)
    streamedCall hearly hearly reversed reversed

/-- **A failure behind decoded bytes**: without probing the caller is
handed the failure of the second provider, and with it the article of the
third. -/
theorem probing_changes_answer :
    Consistent (threeWorld true) threeNatures ∧
    ∃ s s' resp resp', doSendWithRetryCh (threeWorld true) reversed (streamedCall.probing true) =
        some s ∧
      doSendWithRetryCh (threeWorld true) reversed (streamedCall.probing false) = some s' ∧
      s.respCh = [resp] ∧ s'.respCh = [resp'] ∧ resp.answer = .served "third" 222 ∧
      resp'.answer = .failed (some .inconclusive) := by
  have hon : (doSendWithRetry (threeWorld true) (streamedCall.probing true)).map
      (fun r => r.1.answer) = some (.served "third" 222) := by decide
  have hoff : (doSendWithRetry (threeWorld true) (streamedCall.probing false)).map
      (fun r => r.1.answer) = some (.failed (some .inconclusive)) := by decide
  obtain ⟨r, hr, ha⟩ := Option.map_eq_some_iff.mp hon
  obtain ⟨r', hr', ha'⟩ := Option.map_eq_some_iff.mp hoff
  refine ⟨threeWorld_consistent true, Wire.closed r.2 r.1, Wire.closed r'.2 r'.1, r.1, r'.1, ?_, ?_,
    rfl, rfl, ha, ha'⟩
  · rw [doSendWithRetryCh_eq, hr]
    rfl
  · rw [doSendWithRetryCh_eq, hr']
    rfl

end Dispatch

end NntpPool
