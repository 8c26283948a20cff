import NntpPool.Dispatch.Course
import NntpPool.Dispatch.Model.Channel
/-!
# Dispatch — one response, with the evidence of all attempts

The call as it runs on its reply channel puts there exactly what
`doSendWithRetry` says, whatever the order in which the probes finish
(`doSendWithRetryCh_eq`).
-/

namespace NntpPool

namespace Dispatch

variable {w : World} {cmd : Command} {log : List Event} {lastErr : Option GoError} {g : Provider}

/-! ## The shared variables -/

/-- The variables behind a log, while nothing is delivered. -/
def Wire.of (log : List Event) : Wire := ⟨log, attemptsOf log, []⟩

/-- The variables once a response is delivered. -/
def Wire.closed (log : List Event) (resp : Response) : Wire := ⟨log, attemptsOf log, [resp]⟩

@[simp] theorem note_of (log : List Event) (e : Event) :
    (Wire.of log).note e = Wire.of (log ++ [e]) := by
  rw [Wire.of, Wire.note, Wire.of, attemptsOf_append, attemptsOf, attemptsOf, List.flatMap_singleton]

@[simp] theorem put_of (log : List Event) (resp : Response) :
    (Wire.of log).put resp = Wire.closed log resp := rfl

@[simp] theorem reply_of (log : List Event) (resp : Resp) :
    (Wire.of log).reply resp = Wire.closed log (deliver resp log) := rfl

@[simp] theorem cancel_of (log : List Event) : (Wire.of log).cancel w =
    Wire.closed log (cancellationResponse (attemptsOf log) (w.cancelCause.map CtxErr.toError)) := rfl

/-! ## The race -/

/-- The candidates over their quota, and the others. -/
theorem screen_of (cs live : List Provider) :
    screen w cmd cs live lastErr (Wire.of log) =
      (live ++ cs.filter (fun g => !w.quota .probe g),
        ((cs.filter (w.quota .probe)).getLast?.map quotaErr).or lastErr,
        Wire.of (log ++ (cs.filter (w.quota .probe)).map fun g => skip g cmd)) := by
  induction cs generalizing live lastErr log with
  | nil => simp [screen]
  | cons g cs ih =>
    rw [screen]
    by_cases hq : w.quota .probe g = true
    · rw [if_pos hq, note_of, ih]
      simp [hq, List.getLast?_cons]
    · rw [if_neg hq, ih]
      simp [hq]

/-- Results put in their places. -/
theorem getElem?_foldl_set {α : Type} (f : ℕ → α) (order : List ℕ) (acc : List α) (j : ℕ) :
    (order.foldl (fun acc i => acc.set i (f i)) acc)[j]? =
      if j ∈ order ∧ j < acc.length then some (f j) else acc[j]? := by
  induction order generalizing acc with
  | nil => simp
  | cons i order ih =>
    rw [List.foldl_cons, ih, List.length_set, List.getElem?_set]
    by_cases hj : i = j
    · subst hj
      by_cases hlt : i < acc.length
      · simp [hlt]
      · simp [hlt]
    · simp [hj, Ne.symm hj]

/-- **The order in which probes finish does not matter.** -/
theorem ordered_eq {results : List (Provider × TurnResult)} {order : List ℕ}
    (h : order.Perm (List.range results.length)) :
    (ordered results order).filterMap id = results := by
  have heq : ordered results order = results.map some := by
    refine List.ext_getElem? fun j => ?_
    rw [ordered, getElem?_foldl_set, List.length_replicate, List.getElem?_map]
    by_cases hj : j < results.length
    · rw [if_pos ⟨h.mem_iff.mpr (List.mem_range.mpr hj), hj⟩, List.getElem?_eq_getElem hj]
      rfl
    · rw [if_neg fun h => hj h.2, List.getElem?_eq_none (by simpa using hj),
        List.getElem?_eq_none (by simpa using hj)]
      rfl
  rw [heq, List.filterMap_map]
  exact List.filterMap_some

/-- The variables of the loop over the probes. -/
theorem foldl_see (results : List (Provider × TurnResult)) (c : Bool) (winners : List Provider) :
    results.foldl Probing.see ⟨c, lastErr, winners, Wire.of log⟩ =
      ⟨c || results.any fun r => r.2.cancelled, results.foldl probeErr lastErr,
        winners ++ (results.filter isWinner).map Prod.fst,
        Wire.of (log ++ results.map probed)⟩ := by
  induction results generalizing c lastErr winners log with
  | nil => simp
  | cons r results ih =>
    have hsee : Probing.see ⟨c, lastErr, winners, Wire.of log⟩ r =
        ⟨c || r.2.cancelled, probeErr lastErr r, winners ++ if isWinner r then [r.1] else [],
          Wire.of (log ++ [probed r])⟩ := by
      have hsaid := verdict_said false r.2.toResult
      cases hv : verdict false r.2.toResult with
      | committed => cases hasWriter_of_committed hv
      | cancelled =>
        rw [hv] at hsaid
        simp [Probing.see, probeErr, isWinner, hv, show r.2.cancelled = true from hsaid]
      | gone =>
        rw [hv] at hsaid
        simp [Probing.see, probeErr, isWinner, hv, hsaid.1]
      | success =>
        rw [hv] at hsaid
        by_cases hcode : r.2.resp.statusCode = 223 <;>
          simp [Probing.see, probeErr, isWinner, hv, hcode, hsaid.1.1]
      | _ =>
        rw [hv] at hsaid
        simp [Probing.see, probeErr, isWinner, hv, hsaid.1.1]
    rw [List.foldl_cons, hsee, ih]
    by_cases hw : isWinner r = true <;> simp [hw, Bool.or_assoc]

/-- **The flags a race returns**, and what it has put on the channel. -/
inductive Echoes : RaceEnd × List Event → RaceReturn × Wire → Prop
  | over (e : Option GoError) (log : List Event) :
      Echoes (.over e, log) (⟨false, false, e⟩, Wire.of log)
  | cancelled (e : Option GoError) (log : List Event) :
      Echoes (.cancelled, log) (⟨false, true, e⟩, Wire.of log)
  | delivered (e : Option GoError) (resp : Response) (log : List Event) :
      Echoes (.delivered resp, log) (⟨true, false, e⟩, Wire.closed log resp)

theorem raceSingleCh_echoes :
    Option.Rel Echoes (raceSingle w cmd g log lastErr)
      (raceSingleCh w cmd g lastErr (Wire.of log)) := by
  rw [raceSingle, raceSingleCh]
  cases tryGroupResilient g cmd (w.turn .single g) with
  | none => exact .none
  | some t =>
    refine .some ?_
    simp only [note_of, reply_of]
    cases verdict cmd.hasWriter t.toResult <;> constructor

theorem raceWinnersCh_echoes (gs : List Provider) :
    Option.Rel Echoes (raceWinners w cmd gs log lastErr)
      (raceWinnersCh w cmd gs lastErr (Wire.of log)) := by
  induction gs generalizing log lastErr with
  | nil => exact .some (.over _ _)
  | cons g gs ih =>
    rw [raceWinners, raceWinnersCh]
    cases tryGroupResilient g cmd (w.turn .winner g) with
    | none => exact .none
    | some t =>
      simp only [Option.bind_some, note_of, reply_of]
      cases verdict cmd.hasWriter t.toResult with
      | cancelled => exact .some (.cancelled _ _)
      | committed => exact .some (.delivered _ _ _)
      | success => exact .some (.delivered _ _ _)
      | _ => exact ih

/-- **`raceCandidates`.** -/
theorem raceCandidatesCh_echoes (fin : Finish) (field : Field) (statPayload : Bytes)
    (cs : List Provider) :
    Option.Rel Echoes (raceCandidates w cmd statPayload cs log)
      (raceCandidatesCh w fin field cmd statPayload cs (Wire.of log)) := by
  rw [raceCandidates, raceCandidatesCh]
  simp only [screen_of, List.nil_append, Option.or_none]
  generalize cs.filter (fun g => !w.quota .probe g) = live
  rcases live with _ | ⟨g, _ | ⟨g', live⟩⟩
  · exact .some (.over _ _)
  · exact raceSingleCh_echoes
  · dsimp only
    cases (g :: g' :: live).mapM (probe w statPayload) with
    | none => exact .none
    | some results =>
      simp only [Option.bind_some, ordered_eq (fin.perm field _), foldl_see, Bool.false_or,
        List.nil_append]
      split_ifs with hc hw
      · exact .some (.cancelled _ _)
      · rw [hw, raceWinners]
        exact .some (.over _ _)
      · exact raceWinnersCh_echoes _

/-! ## The call -/

/-- The variables of the call behind those of `Sending`. -/
def Vars.of (s : Sending) : Vars := ⟨Wire.of s.log, s.lastErr, s.lastResp, s.post430⟩

theorem vars_of (log : List Event) (e : Option GoError) (r : Option Resp) (p : Bool) :
    (⟨Wire.of log, e, r, p⟩ : Vars) = Vars.of ⟨log, e, r, p⟩ := rfl

/-- What a part of the call leaves. -/
def Flow.control : Flow → Control
  | .delivered resp log => .returned (Wire.closed log resp)
  | .goOn s => .goOn (Vars.of s)

variable {s : Sending}

theorem raceCh_eq (fin : Finish) (field : Field) (statPayload : Bytes) (cs : List Provider) :
    raceCh w fin field cmd statPayload cs (Vars.of s) =
      (race w cmd statPayload cs s).map Flow.control := by
  have h := @raceCandidatesCh_echoes w cmd s.log fin field statPayload cs
  rw [raceCh, race, Vars.of]
  revert h
  generalize raceCandidates w cmd statPayload cs s.log = x
  generalize raceCandidatesCh w fin field cmd statPayload cs (Wire.of s.log) = y
  intro h
  cases h with
  | none => rfl
  | some h => cases h <;> rfl

theorem backupLoopCh_eq (gs : List Provider) :
    backupLoopCh w cmd gs (Vars.of s) = (backupLoop w cmd gs s).map Flow.control := by
  induction gs generalizing s with
  | nil => rfl
  | cons g gs ih =>
    rw [backupLoopCh, backupLoop]
    split_ifs with hq
    · rw [← ih, Vars.of, Vars.of, note_of]
    · cases tryGroupResilient g cmd (w.turn .backup g) with
      | none => rfl
      | some t =>
        simp only [Option.bind_some, Vars.of, note_of, reply_of, cancel_of]
        simp only [vars_of]
        cases verdict cmd.hasWriter t.toResult with
        | cancelled => rfl
        | committed => rfl
        | success => rfl
        | _ => exact ih

theorem mainLoopCh_eq (fin : Finish) (statPayload : Option Bytes) (gs : List Provider) :
    mainLoopCh w fin cmd statPayload gs (Vars.of s) =
      (mainLoop w cmd statPayload gs s).map Flow.control := by
  induction gs generalizing s with
  | nil => rfl
  | cons g gs ih =>
    rw [mainLoopCh, mainLoop]
    split_ifs with hq
    · rw [← ih, Vars.of, Vars.of, note_of]
    · cases tryGroupResilient g cmd (w.turn .main g) with
      | none => rfl
      | some t =>
        simp only [Option.bind_some, Vars.of, note_of, reply_of, cancel_of]
        simp only [vars_of]
        cases verdict cmd.hasWriter t.toResult with
        | cancelled => rfl
        | committed => rfl
        | success => rfl
        | absent =>
          cases statPayload with
          | none => exact ih
          | some stat => exact raceCh_eq fin .mains stat gs
        | _ => exact ih

theorem exhaustedCh_of : exhaustedCh (Vars.of s) = Wire.closed s.log (exhausted s) := by
  rw [exhaustedCh, exhausted, Vars.of]
  cases s.lastErr with
  | some e => rfl
  | none => cases s.lastResp <;> rfl

/-- What is behind the last loop: `f` sends the response that `k` says. -/
theorem map_control {f : Control → Wire} {k : Flow → Response × List Event}
    (h : ∀ flow : Flow, f flow.control = Wire.closed (k flow).2 (k flow).1) (x : Option Flow) :
    (x.map Flow.control).map f = (x.map k).map fun r => Wire.closed r.2 r.1 := by
  cases x with
  | none => rfl
  | some flow => exact congrArg some (h flow)

/-- **One response**, and the one `doSendWithRetry` says, whatever the
order in which probes finish. -/
theorem doSendWithRetryCh_eq (fin : Finish) (c : Send) :
    doSendWithRetryCh w fin c =
      (doSendWithRetry w c).map fun r => Wire.closed r.2 r.1 := by
  rw [doSendWithRetryCh, doSendWithRetry]
  split_ifs with hm
  · rfl
  · rw [show ({} : Vars) = Vars.of {} from rfl, mainLoopCh_eq]
    cases mainLoop w c.cmd c.statPayload c.order {} with
    | none => rfl
    | some flow =>
      cases flow with
      | delivered resp log => rfl
      | goOn s =>
        simp only [Option.map_some, Option.bind_some]
        refine (congrArg (Option.map _) ?backups).trans (map_control ?exhausted _)
        case exhausted =>
          intro flow
          cases flow with
          | delivered resp log => rfl
          | goOn s => exact exhaustedCh_of
        case backups =>
          cases c.statPayload with
          | none => exact backupLoopCh_eq _
          | some stat =>
            dsimp only
            rw [show (Vars.of s).post430 = s.post430 from rfl]
            split_ifs
            · exact raceCh_eq fin _ _ _
            · exact backupLoopCh_eq _

/-! ## Every call returns -/

/-- **Every provider that is tried is done with at some time.** -/
def Answers (w : World) (cmd : Command) (stat : Option Bytes) (gs : List Provider) : Prop :=
  ∀ g ∈ gs, (∀ stage, stage ≠ .probe → ∃ t, tryGroupResilient g cmd (w.turn stage g) = some t) ∧
    ∀ payload ∈ stat, ∃ t, tryGroupResilient g (statCommand payload) (w.turn .probe g) = some t

variable {stat : Option Bytes} {gs gs' : List Provider}

theorem Answers.mono (h : Answers w cmd stat gs) (hsub : gs' ⊆ gs) : Answers w cmd stat gs' :=
  fun g hg => h g (hsub hg)

theorem raceWinners_isSome (h : Answers w cmd stat gs) :
    ∃ r, raceWinners w cmd gs log lastErr = some r := by
  induction gs generalizing log lastErr with
  | nil => exact ⟨_, rfl⟩
  | cons g gs ih =>
    obtain ⟨t, ht⟩ := (h g List.mem_cons_self).1 .winner (by decide)
    have ih {log lastErr} := @ih log lastErr (h.mono (List.subset_cons_self g gs))
    rw [raceWinners, ht, Option.bind_some]
    cases verdict cmd.hasWriter t.toResult with
    | cancelled => exact ⟨_, rfl⟩
    | committed => exact ⟨_, rfl⟩
    | success => exact ⟨_, rfl⟩
    | _ => exact ih

theorem mapM_probe_isSome {payload : Bytes} (h : Answers w cmd (some payload) gs) :
    ∃ results, gs.mapM (probe w payload) = some results := by
  induction gs with
  | nil => exact ⟨[], rfl⟩
  | cons g gs ih =>
    obtain ⟨t, ht⟩ := (h g List.mem_cons_self).2 payload rfl
    obtain ⟨results, hr⟩ := ih (h.mono (List.subset_cons_self g gs))
    exact ⟨(g, t) :: results, by simp [List.mapM_cons, probe, ht, hr]⟩

theorem race_isSome {payload : Bytes} (h : Answers w cmd (some payload) gs) :
    ∃ flow, race w cmd payload gs s = some flow := by
  have hlive := h.mono (List.filter_subset_self (p := fun g => !w.quota .probe g) gs)
  suffices ∃ r, raceCandidates w cmd payload gs s.log = some r by
    obtain ⟨r, hr⟩ := this
    exact ⟨_, by rw [race, hr, Option.map_some]⟩
  rw [raceCandidates]
  revert hlive
  generalize gs.filter (fun g => !w.quota .probe g) = live
  intro hlive
  match live, hlive with
  | [], _ => exact ⟨_, rfl⟩
  | [g], hlive =>
    obtain ⟨t, ht⟩ := (hlive g List.mem_cons_self).1 .single (by decide)
    simp only [raceSingle, ht]
    exact ⟨_, rfl⟩
  | g :: g' :: live, hlive =>
    obtain ⟨results, hr⟩ := mapM_probe_isSome hlive
    have hmap := (mapM_probe hr).1
    simp only [hr, Option.bind_some]
    split_ifs
    · exact ⟨_, rfl⟩
    · refine raceWinners_isSome (hlive.mono ?_)
      rw [← hmap]
      exact List.map_subset _ (List.filter_subset_self results)

theorem backupLoop_isSome (h : Answers w cmd stat gs) :
    ∃ flow, backupLoop w cmd gs s = some flow := by
  induction gs generalizing s with
  | nil => exact ⟨_, rfl⟩
  | cons g gs ih =>
    obtain ⟨t, ht⟩ := (h g List.mem_cons_self).1 .backup (by decide)
    have ih {s} := @ih s (h.mono (List.subset_cons_self g gs))
    rw [backupLoop, ht, Option.bind_some]
    split_ifs
    · exact ih
    · cases verdict cmd.hasWriter t.toResult with
      | cancelled => exact ⟨_, rfl⟩
      | committed => exact ⟨_, rfl⟩
      | success => exact ⟨_, rfl⟩
      | _ => exact ih

theorem mainLoop_isSome (h : Answers w cmd stat gs) :
    ∃ flow, mainLoop w cmd stat gs s = some flow := by
  induction gs generalizing s with
  | nil => exact ⟨_, rfl⟩
  | cons g gs ih =>
    obtain ⟨t, ht⟩ := (h g List.mem_cons_self).1 .main (by decide)
    have hrest := h.mono (List.subset_cons_self g gs)
    have ih {s} := @ih s hrest
    rw [mainLoop, ht, Option.bind_some]
    split_ifs
    · exact ih
    · cases verdict cmd.hasWriter t.toResult with
      | cancelled => exact ⟨_, rfl⟩
      | committed => exact ⟨_, rfl⟩
      | success => exact ⟨_, rfl⟩
      | absent =>
        cases stat with
        | none => exact ih
        | some payload => exact race_isSome hrest
      | _ => exact ih

/-- **A call all of whose providers answer returns.** -/
theorem doSendWithRetry_isSome {c : Send}
    (h : Answers w c.cmd c.statPayload (c.mains ++ c.backups)) :
    ∃ r, doSendWithRetry w c = some r := by
  have hmains : Answers w c.cmd c.statPayload c.order :=
    h.mono fun g hg => List.mem_append_left _ (List.mem_rotate.mp hg)
  have hbackups := h.mono (List.subset_append_right c.mains c.backups)
  rw [doSendWithRetry]
  split_ifs with hm
  · exact ⟨_, rfl⟩
  · obtain ⟨flow, hflow⟩ : ∃ flow, mainLoop w c.cmd c.statPayload c.order {} = some flow :=
      mainLoop_isSome hmains
    rw [hflow, Option.bind_some]
    cases flow with
    | delivered resp log => exact ⟨_, rfl⟩
    | goOn s =>
      have hback : ∃ flow, backupLoop w c.cmd c.backups s = some flow := backupLoop_isSome hbackups
      cases hp : c.statPayload with
      | none =>
        obtain ⟨flow, hflow⟩ := hback
        simp only [hflow]
        exact ⟨_, rfl⟩
      | some payload =>
        rw [hp] at hbackups
        by_cases hpost : s.post430 = true
        · obtain ⟨flow, hflow⟩ : ∃ flow, race w c.cmd payload c.backups s = some flow :=
            race_isSome hbackups
          simp only [hpost, if_true, hflow]
          exact ⟨_, rfl⟩
        · obtain ⟨flow, hflow⟩ := hback
          simp only [hpost, hflow]
          exact ⟨_, rfl⟩

/-! ## The evidence -/

/-- **The evidence of an event is that of what was done**: of all its
attempts in their order, or of the one reason why there were none. -/
inductive Event.Exact (cmd : Command) : Event → Prop
  | skipped (g : Provider) : Event.Exact cmd (skip g cmd)
  | refused {g : Provider} {stage : Stage} {t : TurnResult} {cmd' : Command} (e : GoError)
      (hcmd : cmd' = cmd ∨ stage = .probe ∧ ∃ payload, cmd' = statCommand payload)
      (hm : t.made = []) (h : t.resp.attempts =
        [buildEligibilityEvidence cmd'.payload g.id e cmd'.validateBody]) :
      Event.Exact cmd (.tried g stage t)
  | made {g : Provider} {stage : Stage} {t : TurnResult} {cmd' : Command}
      (hcmd : cmd' = cmd ∨ stage = .probe ∧ ∃ payload, cmd' = statCommand payload)
      (hm : t.made ≠ []) (h : t.resp.attempts = t.made.flatMap (Dispatch.evidence g cmd')) :
      Event.Exact cmd (.tried g stage t)

variable {stage : Stage} {t : TurnResult}

theorem Turned.exact {cmd' : Command} (h : Turned g cmd' t)
    (hcmd : cmd' = cmd ∨ stage = .probe ∧ ∃ payload, cmd' = statCommand payload) :
    Event.Exact cmd (.tried g stage t) := by
  cases h with
  | refused e => exact .refused e hcmd rfl rfl
  | made front a => exact .made hcmd (by simp) rfl

theorem Passes.exact {e : Event} (h : Passes cmd e) : e.Exact cmd := by
  cases h with
  | skip g => exact .skipped g
  | turn _ ht => exact ht.exact (.inl rfl)
  | probe payload ht => exact ht.exact (.inr ⟨rfl, payload, rfl⟩)

theorem Delivered.exact {resp : Response} (h : Delivered cmd gs [] resp log) :
    ∀ e ∈ log, e.Exact cmd := by
  cases h with
  | mk hfront _ ht =>
    exact List.forall_mem_append.mpr ⟨fun e he => (hfront e (by simpa using he)).exact,
      List.forall_mem_singleton.mpr (ht.exact (.inl rfl))⟩

theorem Stopped.exact (h : Stopped cmd [] log) : ∀ e ∈ log, e.Exact cmd := by
  cases h with
  | turn hfront _ ht =>
    exact List.forall_mem_append.mpr ⟨fun e he => (hfront e (by simpa using he)).exact,
      List.forall_mem_singleton.mpr (ht.exact (.inl rfl))⟩
  | probes payload hfront hres =>
    refine List.forall_mem_append.mpr ⟨fun e he => (hfront e (by simpa using he)).exact, ?_⟩
    intro e he
    obtain ⟨r, hr, rfl⟩ := List.mem_map.mp he
    exact (hres r hr).exact (.inr ⟨rfl, payload, rfl⟩)

/-- The events of a call. -/
theorem Sent.exact {c : Send} {resp : Response} (h : Sent w c resp log) :
    ∀ e ∈ log, e.Exact c.cmd := by
  cases h with
  | noMains => exact fun _ h => nomatch h
  | main h => exact h.exact
  | backup hmains h => exact (h.behind hmains).exact
  | cancelled h => exact h.exact
  | exhausted h => exact fun e he => (h.passes e he).exact

/-- The evidence a response carries. -/
theorem Sent.attempts_eq {c : Send} {resp : Response} (h : Sent w c resp log)
    (hne : resp.attempts ≠ []) : resp.attempts = attemptsOf log := by
  cases h with
  | noMains => exact absurd rfl hne
  | main h =>
    cases h
    rfl
  | backup hmains h =>
    cases h
    rfl
  | cancelled => rfl
  | @exhausted s =>
    revert hne
    rw [Dispatch.exhausted]
    cases s.lastErr with
    | some e => exact fun _ => rfl
    | none =>
      cases s.lastResp with
      | some resp => exact fun _ => rfl
      | none => exact fun hne => absurd rfl hne

/-! ## Success -/

/-- The response of a turn that succeeds is its provider's. -/
theorem Turned.providerID_eq (h : Turned g cmd t)
    (hv : verdict cmd.hasWriter t.toResult = .success) : t.resp.providerID = g.id := by
  obtain ⟨⟨-, hok⟩, -⟩ := Verdict.Says.of_eq hv
  cases h with
  | refused => rfl
  | made front a c hfront hlast hc =>
    obtain ⟨code, status, err, hf⟩ := tryGroup_ok hok
    rw [made_reply front hf hlast]

/-- **A turn that succeeds** leaves a success of its provider last. -/
theorem Turned.success (h : Turned g cmd t)
    (hv : verdict cmd.hasWriter t.toResult = .success) :
    ∃ front last, t.resp.attempts = front ++ [last] ∧ last.outcome = .success ∧
      last.providerID = t.resp.providerID := by
  obtain ⟨⟨hc, hok⟩, -⟩ := Verdict.Says.of_eq hv
  obtain ⟨front, last, heq, -, hagrees⟩ := h.last hc hok
  rw [hv] at hagrees
  refine ⟨front, last, heq, hagrees, ?_⟩
  rw [h.providerID_eq hv]
  exact (h.evidence_spec last (by rw [heq]; exact List.mem_append_right _ List.mem_cons_self)).1

/-- A response that says the article is absent is no success. -/
theorem absence_code {resp : Resp} (h : responseIsHardArticleAbsence resp = true) :
    400 ≤ resp.statusCode := by
  simp only [responseIsHardArticleAbsence, Bool.or_eq_true, Bool.and_eq_true, beq_iff_eq] at h
  omega

/-- What is left of the last absence. -/
theorem lastAbsence_code {resp : Resp} (h : lastAbsence cmd log = some resp) :
    400 ≤ resp.statusCode := by
  obtain ⟨e, -, he⟩ := List.mem_filterMap.mp (List.mem_of_getLast? h)
  have hturn {t : TurnResult} (h : (if verdict cmd.hasWriter t.toResult = .absent
      then some t.resp else none) = some resp) : 400 ≤ resp.statusCode := by
    split_ifs at h with hv
    cases h
    exact absence_code (Verdict.Says.of_eq hv).2.2
  cases e with
  | skipped => cases he
  | tried g stage t =>
    cases stage with
    | main => exact hturn he
    | backup => exact hturn he
    | _ => cases he

/-- **A delivered success.** -/
theorem Delivered.success {resp : Response} {base : List Event}
    (h : Delivered cmd gs base resp log) (herr : resp.err = none) (hlow : 200 ≤ resp.statusCode)
    (hhigh : resp.statusCode < 400) :
    ∃ front last, resp.attempts = front ++ [last] ∧ last.outcome = .success ∧
      last.providerID = resp.providerID := by
  cases h with
  | @mk front g stage t hfront hstage ht hv =>
    have herr : t.resp.err = none := by simpa [deliver] using herr
    cases hv with
    | committed hv =>
      have := (Verdict.Says.of_eq hv).2.1
      simp [herr] at this
    | shortcut hv =>
      have := (Verdict.Says.of_eq hv).2.2
      have hlow : 200 ≤ t.resp.statusCode := hlow
      have hhigh : t.resp.statusCode < 400 := hhigh
      omega
    | success hv =>
      obtain ⟨es, last, heq, hout, hid⟩ := ht.success hv
      refine ⟨attemptsOf (base ++ front) ++ es, last, ?_, hout, hid⟩
      show attemptsOf _ = _
      rw [attemptsOf_append, List.append_assoc]
      exact congrArg _ ((List.flatMap_singleton ..).trans heq)

theorem Sent.success {c : Send} {resp : Response} (h : Sent w c resp log)
    (herr : resp.err = none) (hlow : 200 ≤ resp.statusCode) (hhigh : resp.statusCode < 400) :
    ∃ front last, resp.attempts = front ++ [last] ∧ last.outcome = .success ∧
      last.providerID = resp.providerID := by
  cases h with
  | noMains => cases herr
  | main h => exact h.success herr hlow hhigh
  | backup _ h => exact h.success herr hlow hhigh
  | cancelled => cases herr
  | @exhausted s h _ hresp =>
    rw [Dispatch.exhausted] at herr hlow hhigh
    cases he : s.lastErr with
    | some e =>
      rw [he] at herr
      cases herr
    | none =>
      rw [he] at herr hhigh
      cases hr : s.lastResp with
      | none =>
        rw [hr] at herr
        cases herr
      | some resp =>
        rw [hr] at hhigh
        have := lastAbsence_code (hresp.symm.trans hr)
        have hhigh : resp.statusCode < 400 := hhigh
        omega

/-! ## One response -/

/-- **Exactly one response is on the channel**, with the evidence of all
that was done. -/
structure OneResponse (c : Send) (s : Wire) : Prop where
  one : ∃ resp, s.respCh = [resp]
  exact : ∀ resp ∈ s.respCh, resp.attempts ≠ [] → resp.attempts = s.log.flatMap Event.evidence
  events : ∀ e ∈ s.log, e.Exact c.cmd
  success : ∀ resp ∈ s.respCh, resp.err = none → 200 ≤ resp.statusCode → resp.statusCode < 400 →
    ∃ front last, resp.attempts = front ++ [last] ∧ last.outcome = .success ∧
      last.providerID = resp.providerID

/-- **A call puts exactly one response on its channel**, with exact
evidence. -/
theorem exactly_one_response (fin : Finish) {c : Send}
    (h : Answers w c.cmd c.statPayload (c.mains ++ c.backups)) :
    ∃ s, doSendWithRetryCh w fin c = some s ∧ OneResponse c s := by
  obtain ⟨⟨resp, log⟩, hr⟩ := doSendWithRetry_isSome h
  have hsent := doSendWithRetry_sent hr
  refine ⟨Wire.closed log resp, by rw [doSendWithRetryCh_eq, hr]; rfl, ⟨resp, rfl⟩, ?_,
    hsent.exact, ?_⟩
  · exact List.forall_mem_singleton.mpr hsent.attempts_eq
  · exact List.forall_mem_singleton.mpr hsent.success

/-- A provider that answers at once, and not with 451, is done with. -/
theorem tryGroupResilient_answer {code : ℤ} (status : Bytes) (hcode : code ≠ 451) :
    ∃ t, tryGroupResilient g cmd ⟨.granted, [.answer code status], false⟩ = some t := by
  simp [tryGroupResilient, resilientLoop, tryGroup, Attempt.answer, Attempt.plain, hcode]

/-- BODY with STAT probing on, on three main providers. -/
def racedCall : Send where
  cmd := ⟨ascii "BODY <a@b>" ++ crlf, false, false⟩
  statProbe := true
  strategy := .fifo
  loads := []
  nextIdx := 0
  mains := [⟨"first", "first", false⟩, ⟨"second", "second", false⟩, ⟨"third", "third", false⟩]
  backups := []
  distinct := by decide

/-- The third provider alone has the article. -/
def racedWorld : World where
  quota := fun _ _ => false
  turn := fun stage g =>
    ⟨.granted, [.answer (if g.id ≠ "third" then 430 else if stage = .probe then 223 else 222) []],
      false⟩
  cancelCause := none

/-- The probes finish in reverse order. -/
def reversed : Finish := ⟨fun _ n => (List.range n).reverse, fun _ _ => List.reverse_perm _⟩

/-- The article comes behind two absences and a probe. -/
theorem exactly_one_response_raced :
    Answers racedWorld racedCall.cmd racedCall.statPayload (racedCall.mains ++ racedCall.backups) ∧
      ∃ s, doSendWithRetryCh racedWorld reversed racedCall = some s ∧ OneResponse racedCall s := by
  have h : Answers racedWorld racedCall.cmd racedCall.statPayload
      (racedCall.mains ++ racedCall.backups) := by
    refine fun g _ => ⟨fun stage _ => ?_, fun payload _ => ?_⟩ <;>
      exact tryGroupResilient_answer [] (by split_ifs <;> decide)
  exact ⟨h, exactly_one_response reversed h⟩

end Dispatch

end NntpPool
