import NntpPool.Dispatch.Course
/-!
# Dispatch — global absence

A call may tell its caller that an article does not exist only if every
provider has said so. The verdict is drawn from the evidence, so it is
wrong where a provider leaves none: when its reply channel is closed
without a reply, or when it answers a STAT probe with a success other
than 223. `no_false_absence_iff` shows that there is no other way.
-/

namespace NntpPool

namespace Dispatch

/-! ## The last entry of a provider -/

/-- The last entry of a provider. -/
def lastOf (id : String) (es : List Evidence) : Option Evidence :=
  (es.filter fun e => e.providerID == id).getLast?

/-- The last entry of a provider is an absence. -/
def Answered (es : List Evidence) (p : Provider) : Prop :=
  ∃ e, lastOf p.id es = some e ∧ e.outcome = .hardArticleAbsence

theorem lastOf_append (id : String) (xs ys : List Evidence) :
    lastOf id (xs ++ ys) = (lastOf id ys).or (lastOf id xs) := by
  simp [lastOf, List.getLast?_append]

/-- Where all entries are the provider's, its last is the last of all. -/
theorem lastOf_eq_getLast {id : String} {es : List Evidence}
    (h : ∀ e ∈ es, e.providerID = id) : lastOf id es = es.getLast? := by
  rw [lastOf, List.filter_eq_self.mpr fun e he => by simp [h e he]]

theorem lastOf_eq_none {id : String} {es : List Evidence} (h : ∀ e ∈ es, e.providerID ≠ id) :
    lastOf id es = none := by
  rw [lastOf, List.filter_eq_nil_iff.mpr fun e he => by simp [h e he]]
  rfl

variable {cmd : Command} {ps : List Provider} {log : List Event} {g : Provider} {stage : Stage}
  {t : TurnResult}

/-- The entries of an event are its provider's, and agree with
themselves. -/
theorem Passes.evidence_spec {ev : Event} (h : Passes cmd ev) :
    ∀ e ∈ ev.evidence, e.providerID = ev.provider.id ∧ e.Coherent := by
  cases h with
  | skip g =>
    refine List.forall_mem_singleton.mpr ⟨rfl, buildAttemptEvidence_coherent fun e he hc => ?_⟩
    cases he
    cases hc
  | turn _ ht _ => exact ht.evidence_spec
  | probe _ ht _ => exact ht.evidence_spec

/-- A provider that a course does not visit has no entry in it. -/
theorem Course.lastOf_eq_none {id : String} (h : Course cmd ps log) (hp : ∀ p ∈ ps, p.id ≠ id) :
    lastOf id (attemptsOf log) = none := by
  refine Dispatch.lastOf_eq_none fun e he => ?_
  obtain ⟨ev, hev, he⟩ := List.mem_flatMap.mp he
  rw [((h.passes ev hev).evidence_spec e he).1]
  exact hp _ ((h.mem_iff _).mpr (List.mem_map_of_mem hev))

/-- Entries behind a course that are not the provider's do not count. -/
theorem answered_append_left {xs ys : List Event} {p : Provider}
    (h : lastOf p.id (attemptsOf ys) = none) :
    Answered (attemptsOf (xs ++ ys)) p ↔ Answered (attemptsOf xs) p := by
  rw [Answered, attemptsOf_append, lastOf_append, h, Option.none_or]
  rfl

theorem answered_append_right {xs ys : List Event} {p : Provider}
    (h : lastOf p.id (attemptsOf xs) = none) :
    Answered (attemptsOf (xs ++ ys)) p ↔ Answered (attemptsOf ys) p := by
  rw [Answered, attemptsOf_append, lastOf_append, h, Option.or_none]
  rfl

/-- The last entry of a provider among the probes of a race. -/
theorem lastOf_probed {statPayload : Bytes} {results : List (Provider × TurnResult)}
    (hres : ∀ r ∈ results, Turned r.1 (statCommand statPayload) r.2)
    (hnd : (results.map fun r => r.1.id).Nodup) {r : Provider × TurnResult} (hr : r ∈ results) :
    lastOf r.1.id (attemptsOf (results.map probed)) = r.2.resp.attempts.getLast? := by
  obtain ⟨l, l', rfl⟩ := List.append_of_mem hr
  have hown := lastOf_eq_getLast fun e he => ((hres r hr).evidence_spec e he).1
  have hother (l'' : List (Provider × TurnResult)) (hsub : ∀ x ∈ l'', x ∈ l ++ r :: l')
      (hne : ∀ x ∈ l'', x.1.id ≠ r.1.id) : lastOf r.1.id (attemptsOf (l''.map probed)) = none := by
    refine lastOf_eq_none fun e he => ?_
    obtain ⟨ev, hev, he⟩ := List.mem_flatMap.mp he
    obtain ⟨x, hx, rfl⟩ := List.mem_map.mp hev
    rw [((hres x (hsub x hx)).evidence_spec e he).1]
    exact hne x hx
  rw [List.map_append, List.map_cons, List.nodup_middle, List.nodup_cons, ← List.map_append] at hnd
  have hne : ∀ x ∈ l ++ l', x.1.id ≠ r.1.id := fun x hx heq =>
    hnd.1 (heq ▸ List.mem_map_of_mem hx)
  rw [List.map_append, List.map_cons, ← List.singleton_append, attemptsOf_append,
    attemptsOf_append, lastOf_append, lastOf_append,
    hother l (by simp +contextual) (fun x hx => hne x (by simp [hx])),
    hother l' (by simp +contextual) (fun x hx => hne x (by simp [hx])),
    attemptsOf_singleton, Option.none_or, Option.or_none]
  exact hown

/-! ## Events that leave a provider unanswered -/

/-- **The provider has not answered**: there is no entry, or it answered
the probe with a success other than 223. -/
def Event.Unanswered : Event → Prop
  | .skipped _ _ => False
  | .tried _ .probe t => t.resp.attempts = [] ∨
      verdict false t.toResult = .success ∧ t.resp.statusCode ≠ 223
  | .tried _ _ t => t.resp.attempts = []

instance : DecidablePred Event.Unanswered
  | .skipped _ _ => inferInstanceAs (Decidable False)
  | .tried _ .probe _ => inferInstanceAs (Decidable (_ ∨ _))
  | .tried _ .main _ => inferInstanceAs (Decidable (_ = _))
  | .tried _ .single _ => inferInstanceAs (Decidable (_ = _))
  | .tried _ .winner _ => inferInstanceAs (Decidable (_ = _))
  | .tried _ .backup _ => inferInstanceAs (Decidable (_ = _))

/-- All entries are successes or absences. -/
def Mild (es : List Evidence) : Prop :=
  ∀ e ∈ es, e.outcome = .success ∨ e.outcome = .hardArticleAbsence

/-- The skipped provider is unavailable. -/
theorem not_mild_skip : ¬Mild (attemptsOf [skip g cmd]) := by
  intro h
  rcases h _ List.mem_cons_self with h | h <;> cases h

/-- A turn the call goes on from, with mild entries. -/
theorem Turned.answered_iff (h : Turned g cmd t) (hstage : stage ≠ .probe)
    (hv : verdict cmd.hasWriter t.toResult ≠ .success) (hm : Mild t.resp.attempts) :
    ¬(Event.tried g stage t).Unanswered ↔ Answered (attemptsOf [.tried g stage t]) g := by
  have hun : (Event.tried g stage t).Unanswered ↔ t.resp.attempts = [] := by
    cases stage <;> first | exact .rfl | exact absurd rfl hstage
  have hlast := lastOf_eq_getLast fun e he => (h.evidence_spec e he).1
  rw [hun, attemptsOf_singleton]
  show _ ↔ Answered t.resp.attempts g
  rw [Answered, hlast]
  constructor
  · intro hne
    obtain ⟨e, he⟩ := Option.ne_none_iff_exists'.mp (mt List.getLast?_eq_none_iff.mp hne)
    have hmem := List.mem_of_getLast? he
    exact ⟨e, he, (hm e hmem).resolve_left (h.ne_success hv e hmem)⟩
  · rintro ⟨e, he, _⟩ hnil
    rw [hnil] at he
    cases he

/-- A probe that finds the article leaves a success. -/
theorem last_of_success {statPayload : Bytes} (h : Turned g (statCommand statPayload) t)
    (hv : verdict false t.toResult = .success) :
    ∃ e, t.resp.attempts.getLast? = some e ∧ e.outcome = .success := by
  obtain ⟨⟨hc, hok⟩, _⟩ := Verdict.Says.of_eq hv
  obtain ⟨front, last, heq, _, hagrees⟩ := h.last hc hok
  rw [show verdict (statCommand statPayload).hasWriter t.toResult = .success from hv] at hagrees
  exact ⟨last, by rw [heq, List.getLast?_concat], hagrees⟩

theorem isWinner_iff {r : Provider × TurnResult} :
    isWinner r = true ↔ verdict false r.2.toResult = .success ∧ r.2.resp.statusCode = 223 := by
  simp [isWinner]

/-- A probe that is not a winner, with mild entries. -/
theorem Turned.probe_answered_iff {statPayload : Bytes} {r : Provider × TurnResult}
    (h : Turned r.1 (statCommand statPayload) r.2) (hw : isWinner r = false)
    (hm : Mild r.2.resp.attempts) :
    ¬(probed r).Unanswered ↔
      ∃ e, r.2.resp.attempts.getLast? = some e ∧ e.outcome = .hardArticleAbsence := by
  show ¬(r.2.resp.attempts = [] ∨ _) ↔ _
  constructor
  · intro hun
    rw [not_or] at hun
    obtain ⟨e, he⟩ := Option.ne_none_iff_exists'.mp (mt List.getLast?_eq_none_iff.mp hun.1)
    have hmem := List.mem_of_getLast? he
    refine ⟨e, he, (hm e hmem).resolve_left fun hs => ?_⟩
    -- only a success leaves one, and it was not 223
    by_cases hv : verdict false r.2.toResult = .success
    · refine hun.2 ⟨hv, fun h223 => ?_⟩
      rw [isWinner_iff.2 ⟨hv, h223⟩] at hw
      cases hw
    · exact h.ne_success hv e hmem hs
  · rintro ⟨e, he, ha⟩ (hnil | ⟨hv, _⟩)
    · rw [hnil] at he
      cases he
    · obtain ⟨e', he', hs⟩ := last_of_success h hv
      obtain rfl := Option.some.inj (he.symm.trans he')
      cases ha.symm.trans hs

/-- A winner has answered. -/
theorem not_unanswered_of_winner {statPayload : Bytes} {r : Provider × TurnResult}
    (h : Turned r.1 (statCommand statPayload) r.2) (hw : isWinner r = true) :
    ¬(probed r).Unanswered := by
  obtain ⟨hv, h223⟩ := isWinner_iff.1 hw
  rintro (hnil | ⟨_, hne⟩)
  · obtain ⟨e, he, _⟩ := last_of_success h hv
    rw [hnil] at he
    cases he
  · exact hne h223

theorem verdict_ne_success_of_goesOn {hw : Bool} {r : Result}
    (h : (verdict hw r).goesOn stage = true) : verdict hw r ≠ .success := by
  intro hs
  rw [hs] at h
  cases h

section Race

variable {statPayload : Bytes} {results : List (Provider × TurnResult)} {r : Provider × TurnResult}

/-- Of a winner, what follows the probes counts. -/
theorem answered_winner (hres : ∀ r ∈ results, Turned r.1 (statCommand statPayload) r.2)
    (hnd : (results.map fun r => r.1.id).Nodup) (hr : r ∈ results) (hw : isWinner r = true) :
    Answered (attemptsOf (results.map probed ++ log)) r.1 ↔ Answered (attemptsOf log) r.1 := by
  obtain ⟨e, he, hs⟩ := last_of_success (hres r hr) (isWinner_iff.1 hw).1
  unfold Answered
  rw [attemptsOf_append, lastOf_append, lastOf_probed hres hnd hr, he]
  cases lastOf r.1.id (attemptsOf log) with
  | some e' => rfl
  | none =>
    refine iff_of_false ?_ (by rintro ⟨_, h, _⟩; cases h)
    rintro ⟨e', he', ha⟩
    cases he'
    cases ha.symm.trans hs

/-- Of the other candidates, the probe counts. -/
theorem answered_loser (hres : ∀ r ∈ results, Turned r.1 (statCommand statPayload) r.2)
    (hnd : (results.map fun r => r.1.id).Nodup) (hr : r ∈ results) (hw : isWinner r = false)
    (hwin : Course cmd ((results.filter isWinner).map Prod.fst) log)
    (hm : Mild (attemptsOf (results.map probed))) :
    Answered (attemptsOf (results.map probed ++ log)) r.1 ↔ ¬(probed r).Unanswered := by
  have hnone : lastOf r.1.id (attemptsOf log) = none := by
    refine hwin.lastOf_eq_none fun p hp heq => ?_
    obtain ⟨x, hx, rfl⟩ := List.mem_map.mp hp
    obtain ⟨hx, hxw⟩ := List.mem_filter.mp hx
    obtain rfl := List.inj_on_of_nodup_map hnd hx hr heq
    rw [hw] at hxw
    cases hxw
  have hmr : Mild r.2.resp.attempts := fun e he =>
    hm e (List.mem_flatMap.mpr ⟨probed r, List.mem_map_of_mem hr, he⟩)
  rw [answered_append_left hnone, (hres r hr).probe_answered_iff hw hmr, Answered,
    lastOf_probed hres hnd hr]

/-- The race as a whole. -/
theorem answered_race (hres : ∀ r ∈ results, Turned r.1 (statCommand statPayload) r.2)
    (hnd : (results.map fun r => r.1.id).Nodup)
    (hwin : Course cmd ((results.filter isWinner).map Prod.fst) log)
    (hm : Mild (attemptsOf (results.map probed)))
    (ih : (∀ e ∈ log, ¬e.Unanswered) ↔
      ∀ p ∈ (results.filter isWinner).map Prod.fst, Answered (attemptsOf log) p) :
    (∀ e ∈ results.map probed ++ log, ¬e.Unanswered) ↔
      ∀ p ∈ results.map Prod.fst, Answered (attemptsOf (results.map probed ++ log)) p := by
  rw [List.forall_mem_append, ih, List.forall_mem_map, List.forall_mem_map, List.forall_mem_map]
  constructor
  · rintro ⟨hun, hans⟩ r hr
    cases hw : isWinner r with
    | true =>
      exact (answered_winner hres hnd hr hw).mpr (hans r (List.mem_filter.mpr ⟨hr, hw⟩))
    | false => exact (answered_loser hres hnd hr hw hwin hm).mpr (hun r hr)
  · intro hans
    refine ⟨fun r hr => ?_, fun r hr => ?_⟩
    · cases hw : isWinner r with
      | true => exact not_unanswered_of_winner (hres r hr) hw
      | false => exact (answered_loser hres hnd hr hw hwin hm).mp (hans r hr)
    · obtain ⟨hr, hw⟩ := List.mem_filter.mp hr
      exact (answered_winner hres hnd hr hw).mp (hans r hr)

end Race

/-- **In a course with mild entries, every provider's last entry is an
absence exactly if every provider has answered.** -/
theorem Course.answered_iff (h : Course cmd ps log) (hnd : (ps.map Provider.id).Nodup)
    (hm : Mild (attemptsOf log)) :
    (∀ e ∈ log, ¬e.Unanswered) ↔ ∀ p ∈ ps, Answered (attemptsOf log) p := by
  induction h with
  | nil => exact iff_of_true (fun _ h => nomatch h) (fun _ h => nomatch h)
  | skip g => exact absurd hm not_mild_skip
  | turn hstage ht hv =>
    rw [attemptsOf_singleton] at hm
    rw [List.forall_mem_singleton, List.forall_mem_singleton]
    exact ht.answered_iff hstage (verdict_ne_success_of_goesOn hv) hm
  | @race results wlog stat hres hwin ih =>
    rw [attemptsOf_append] at hm
    rw [List.map_map] at hnd
    have hsub : (((results.filter isWinner).map Prod.fst).map Provider.id).Nodup := by
      rw [List.map_map]
      exact hnd.sublist ((List.filter_sublist).map _)
    exact answered_race (fun r hr => (hres r hr).1) hnd hwin
      (fun e he => hm e (List.mem_append_left _ he))
      (ih hsub fun e he => hm e (List.mem_append_right _ he))
  | @append ps qs xs ys hx hy ihx ihy =>
    -- the providers of the two parts are different
    rw [List.map_append, List.nodup_append] at hnd
    rw [attemptsOf_append] at hm
    rw [List.forall_mem_append, List.forall_mem_append,
      ihx hnd.1 fun e he => hm e (List.mem_append_left _ he),
      ihy hnd.2.1 fun e he => hm e (List.mem_append_right _ he)]
    have hdis (p q : Provider) (hp : p ∈ ps) (hq : q ∈ qs) : p.id ≠ q.id :=
      hnd.2.2 _ (List.mem_map_of_mem hp) _ (List.mem_map_of_mem hq)
    refine and_congr (forall₂_congr fun p hp => ?_) (forall₂_congr fun q hq => ?_)
    · exact (answered_append_left (hy.lastOf_eq_none fun q hq => (hdis p q hp hq).symm)).symm
    · exact (answered_append_right (hx.lastOf_eq_none fun p hp => hdis p q hp hq)).symm
  | perm hp _ ih =>
    rw [ih ((hp.map _).nodup_iff.mpr hnd) hm]
    exact forall_congr' fun p => by rw [hp.mem_iff]

/-! ## The response -/

/-- `errors.Is(responseError(resp), ErrArticleNotFound)`. -/
def SaysAbsent (resp : Response) : Prop := (responseError resp).any (·.isCode 430) = true

/-- A response that is delivered with an error says what the outcomes
say. -/
theorem saysAbsent_deliver {resp : Resp} (hc : ∀ e ∈ attemptsOf log, e.Coherent)
    (hf : ∃ e ∈ attemptsOf log, e.outcome ≠ .success)
    (he : resp.err = none → ¬(200 ≤ resp.statusCode ∧ resp.statusCode < 400)) :
    SaysAbsent (deliver resp log) ↔ Absent (attemptsOf log) := by
  have hne : attemptsOf log ≠ [] := by
    rintro hnil
    obtain ⟨e, he, _⟩ := hf
    rw [hnil] at he
    cases he
  cases herr : resp.err with
  | some e =>
    simp only [SaysAbsent, responseError, deliver, herr, Option.map_some, hne, if_false,
      Option.any_some]
    exact isCode_newTransportError hc fun _ => hf
  | none =>
    obtain ⟨e, ht⟩ := Option.ne_none_iff_exists'.mp
      (mt (@toError_eq_none resp.statusCode resp.status).mp (he herr))
    simp only [SaysAbsent, responseError, deliver, herr, Option.map_none, ht, Option.map_some,
      hne, if_false, Option.any_some]
    exact isCode_newTransportError hc fun _ => hf

/-- A cancelled call does not speak of an absence. -/
theorem not_saysAbsent_cancellation (es : List Evidence) (cause : Option CtxErr) :
    ¬SaysAbsent (cancellationResponse es (cause.map CtxErr.toError)) := by
  rcases cause with _ | ⟨_ | _⟩ <;>
    simp [SaysAbsent, responseError, cancellationResponse, FinalErr.isCode, CtxErr.toError,
      GoError.isCode]

/-- **The event ends the call**: it is cancelled, or a turn that is no
probe succeeds. -/
def Event.Ends (cmd : Command) : Event → Prop
  | .skipped _ _ => False
  | .tried _ .probe t => t.cancelled = true
  | .tried _ _ t => t.cancelled = true ∨ verdict cmd.hasWriter t.toResult = .success

theorem Passes.not_ends {e : Event} (h : Passes cmd e) : ¬e.Ends cmd := by
  cases h with
  | skip => exact id
  | probe _ _ hc => exact fun h => Bool.false_ne_true (hc.symm.trans h)
  | @turn g stage t hstage ht hv =>
    have hends : (Event.tried g stage t).Ends cmd ↔
        t.cancelled = true ∨ verdict cmd.hasWriter t.toResult = .success := by
      cases stage <;> first | exact .rfl | exact absurd rfl hstage
    rw [hends, ← @verdict_cancelled_iff cmd.hasWriter]
    rintro (h | h) <;>
    · rw [h] at hv
      cases hv

/-- A turn that leaves an error in `lastErr` leaves a failure. -/
theorem Turned.exists_failure_of_fault {e : GoError} (h : Turned g cmd t)
    (hf : turnFault cmd.hasWriter g t = some e) : ∃ x ∈ t.resp.attempts, x.outcome ≠ .success := by
  unfold turnFault at hf
  cases hv : verdict cmd.hasWriter t.toResult with
  | failed e' => exact h.exists_failure (Verdict.Says.of_eq hv).1 (by rw [hv]; nofun)
  | unavailable => exact h.exists_failure (Verdict.Says.of_eq hv).1 (by rw [hv]; nofun)
  | odd => exact h.exists_failure (Verdict.Says.of_eq hv).1 (by rw [hv]; nofun)
  | _ => simp [hv] at hf

/-- An error left in `lastErr` that is `ErrArticleNotFound` comes with a
failure. -/
theorem Passes.fault_spec {ev : Event} {e : GoError} (h : Passes cmd ev)
    (hf : ev.fault cmd = some e) (hcode : e.isCode 430 = true) :
    ∃ x ∈ ev.evidence, x.outcome ≠ .success := by
  cases h with
  | skip =>
    cases hf
    cases hcode
  | @turn g stage t hstage ht hv =>
    have hfault : (Event.tried g stage t).fault cmd = turnFault cmd.hasWriter g t := by
      cases stage <;> first | rfl | exact absurd rfl hstage
    exact ht.exists_failure_of_fault (hfault.symm.trans hf)
  | @probe g t stat ht hc =>
    have hf : probeFault g t = some e := hf
    unfold probeFault at hf
    cases hv : verdict false t.toResult with
    | success =>
      -- the wrapped error is `nil`
      obtain ⟨_, _, hlo, hhi⟩ := Verdict.Says.of_eq hv
      simp only [hv] at hf
      split_ifs at hf
      cases hf
      simp [statusErr, toError_eq_none.2 ⟨hlo, hhi⟩, GoError.isCode] at hcode
    | _ =>
      simp only [hv] at hf
      exact ht.exists_failure_of_fault hf

/-- A response left in `lastResp` is an absence, with its entry. -/
theorem Passes.absence_spec {ev : Event} {r : Resp} (h : Passes cmd ev)
    (ha : ev.absence cmd = some r) :
    ¬(200 ≤ r.statusCode ∧ r.statusCode < 400) ∧ ∃ x ∈ ev.evidence, x.outcome ≠ .success := by
  cases h with
  | skip => cases ha
  | probe => cases ha
  | @turn g stage t hstage ht hv =>
    have habs : verdict cmd.hasWriter t.toResult = .absent ∧ t.resp = r := by
      cases stage <;> simp [Event.absence] at ha <;> exact ha
    obtain ⟨hverd, rfl⟩ := habs
    obtain ⟨hans, _, hcode⟩ := Verdict.Says.of_eq hverd
    refine ⟨?_, ht.exists_failure hans (by simp [hverd])⟩
    simp only [responseIsHardArticleAbsence, Bool.or_eq_true, Bool.and_eq_true, beq_iff_eq]
      at hcode
    omega

/-- An event that leaves something in `lastErr` or `lastResp`. -/
def Event.Counts (cmd : Command) (e : Event) : Prop :=
  (e.fault cmd).isSome = true ∨ (e.absence cmd).isSome = true

theorem coherent_of_passes (h : ∀ e ∈ log, Passes cmd e) : ∀ e ∈ attemptsOf log, e.Coherent := by
  intro e he
  obtain ⟨ev, hev, he⟩ := List.mem_flatMap.mp he
  exact ((h ev hev).evidence_spec e he).2

/-- **What a call says when all providers are exhausted.** -/
theorem saysAbsent_exhausted {s : Sending} (h : ∀ e ∈ s.log, Passes cmd e)
    (herr : s.lastErr = lastFault cmd s.log) (hresp : s.lastResp = lastAbsence cmd s.log) :
    SaysAbsent (exhausted s) ↔ (∃ e ∈ s.log, e.Counts cmd) ∧ Absent (attemptsOf s.log) := by
  have hc := coherent_of_passes h
  have hmem {ev : Event} {x : Evidence} (hev : ev ∈ s.log) (hx : x ∈ ev.evidence) :
      x ∈ attemptsOf s.log := List.mem_flatMap.mpr ⟨ev, hev, hx⟩
  unfold exhausted
  cases he : s.lastErr with
  | some e =>
    obtain ⟨ev, hev, hfault⟩ := List.mem_filterMap.mp
      (List.mem_of_getLast? ((herr.symm.trans he : lastFault cmd s.log = some e)))
    have hcounts : ∃ e ∈ s.log, e.Counts cmd := ⟨ev, hev, .inl (by rw [hfault]; rfl)⟩
    rw [and_iff_right hcounts]
    refine isCode_newTransportError hc fun hcode => ?_
    obtain ⟨x, hx, hs⟩ := (h ev hev).fault_spec hfault hcode
    exact ⟨x, hmem hev hx, hs⟩
  | none =>
    cases hr : s.lastResp with
    | some r =>
      obtain ⟨ev, hev, habs⟩ := List.mem_filterMap.mp
        (List.mem_of_getLast? ((hresp.symm.trans hr : lastAbsence cmd s.log = some r)))
      have hcounts : ∃ e ∈ s.log, e.Counts cmd := ⟨ev, hev, .inr (by rw [habs]; rfl)⟩
      obtain ⟨hcode, x, hx, hs⟩ := (h ev hev).absence_spec habs
      rw [and_iff_right hcounts]
      exact saysAbsent_deliver hc ⟨x, hmem hev hx, hs⟩ fun _ => hcode
    | none =>
      refine iff_of_false (by simp [SaysAbsent, responseError, FinalErr.isCode, GoError.isCode]) ?_
      rintro ⟨⟨ev, hev, hf | ha⟩, _⟩
      · have hnil := List.getLast?_eq_none_iff.mp (herr.symm.trans he)
        rw [List.filterMap_eq_nil_iff.mp hnil ev hev] at hf
        cases hf
      · have hnil := List.getLast?_eq_none_iff.mp (hresp.symm.trans hr)
        rw [List.filterMap_eq_nil_iff.mp hnil ev hev] at ha
        cases ha

/-! ## The call -/

/-- **No false absence**: if the response says that the article is
absent, the last entry of every provider says so. -/
def NoFalseAbsence (c : Send) (resp : Response) : Prop :=
  SaysAbsent resp → ∀ p ∈ c.mains ++ c.backups, Answered resp.attempts p

/-- **The evidence misleads**: the call exhausts its providers, what they
left speaks for an absence, and some provider has not answered. -/
structure Misled (cmd : Command) (log : List Event) : Prop where
  exhausts : ∀ e ∈ log, ¬e.Ends cmd
  counts : ∃ e ∈ log, e.Counts cmd
  absent : Absent (attemptsOf log)
  unanswered : ∃ e ∈ log, e.Unanswered

/-- A response that is delivered before the providers are exhausted. -/
theorem Delivered.not_misled {resp : Response} (h : Delivered cmd ps [] resp log) :
    ¬SaysAbsent resp ∧ ¬Misled cmd log := by
  cases h with
  | @mk front g stage t hfront hstage ht hv =>
    rw [List.nil_append]
    have hc : ∀ e ∈ attemptsOf (front ++ [Event.tried g stage t]), e.Coherent := by
      rw [attemptsOf_append, attemptsOf_singleton]
      exact List.forall_mem_append.mpr
        ⟨coherent_of_passes hfront, fun e he => (ht.evidence_spec e he).2⟩
    -- a last entry that is neither a success nor an absence settles it
    have hbad (hans : t.cancelled = false ∧ t.ok = true)
        (hag : ∀ e, (verdict cmd.hasWriter t.toResult).Agrees e →
          e.outcome ≠ .success ∧ e.outcome ≠ .hardArticleAbsence)
        (herr : t.resp.err = none → ¬(200 ≤ t.resp.statusCode ∧ t.resp.statusCode < 400)) :
        ¬SaysAbsent (deliver t.resp (front ++ [Event.tried g stage t])) ∧
          ¬Misled cmd (front ++ [Event.tried g stage t]) := by
      obtain ⟨es, last, heq, _, hlast⟩ := ht.last hans.1 hans.2
      obtain ⟨hs, ha⟩ := hag last hlast
      have hmem : last ∈ attemptsOf (front ++ [Event.tried g stage t]) := by
        rw [attemptsOf_append, attemptsOf_singleton]
        exact List.mem_append_right _ (by simp [Event.evidence, heq])
      have hnot : ¬Absent (attemptsOf (front ++ [Event.tried g stage t])) := fun h =>
        (h.2 last hmem).elim hs ha
      rw [saysAbsent_deliver hc ⟨last, hmem, hs⟩ herr]
      exact ⟨hnot, fun hm => hnot hm.absent⟩
    cases hv with
    | committed hv =>
      obtain ⟨hans, herr, _⟩ := Verdict.Says.of_eq hv
      exact hbad hans (fun e h => by rwa [hv] at h) fun hn => by rw [hn] at herr; cases herr
    | shortcut hv =>
      obtain ⟨hans, _, hcode⟩ := Verdict.Says.of_eq hv
      exact hbad hans (fun e h => by rwa [hv] at h) fun _ => by omega
    | success hv =>
      obtain ⟨_, herr, hcode⟩ := Verdict.Says.of_eq hv
      refine ⟨by simp [SaysAbsent, responseError, deliver, herr, toError_eq_none.2 hcode], ?_⟩
      refine fun hm => hm.exhausts (.tried g stage t) (by simp) ?_
      cases stage <;> first | exact absurd rfl hstage | exact .inr hv

/-- A call that is cancelled. -/
theorem Stopped.not_misled (h : Stopped cmd [] log) : ¬Misled cmd log := by
  intro hm
  cases h with
  | @turn front g stage t hfront hstage ht hc =>
    refine hm.exhausts (.tried g stage t) (by simp) ?_
    cases stage <;> first | exact absurd rfl hstage | exact .inl hc
  | probes _ _ _ hc =>
    obtain ⟨r, hr, hc⟩ := hc
    exact hm.exhausts (probed r) (List.mem_append_right _ (List.mem_map_of_mem hr)) hc

theorem attempts_exhausted {s : Sending} (h : SaysAbsent (exhausted s)) :
    (exhausted s).attempts = attemptsOf s.log := by
  unfold exhausted at h ⊢
  cases he : s.lastErr with
  | some e => rfl
  | none =>
    cases hr : s.lastResp with
    | some r => rfl
    | none => simp [he, hr, SaysAbsent, responseError, FinalErr.isCode, GoError.isCode] at h

/-- **When a call falsely reports an absence.** It does not exactly if
its evidence does not mislead. -/
theorem no_false_absence_iff {w : World} {c : Send} {resp : Response}
    (h : doSendWithRetry w c = some (resp, log)) :
    NoFalseAbsence c resp ↔ ¬Misled c.cmd log := by
  cases doSendWithRetry_sent h with
  | noMains =>
    refine iff_of_true (fun h => ?_) fun hm => ?_
    · simp [SaysAbsent, responseError, FinalErr.isCode, GoError.isCode] at h
    · obtain ⟨e, he, _⟩ := hm.unanswered
      cases he
  | main hd => exact iff_of_true (fun h => absurd h hd.not_misled.1) hd.not_misled.2
  | backup hmains hd =>
    have hn := (hd.behind hmains).not_misled
    exact iff_of_true (fun h => absurd h hn.1) hn.2
  | cancelled hs =>
    exact iff_of_true (fun h => absurd h (not_saysAbsent_cancellation _ _)) hs.not_misled
  | @exhausted s hc herr hresp =>
    have hperm : (c.order ++ c.backups).Perm (c.mains ++ c.backups) :=
      (List.rotate_perm _ _).append_right _
    have hsaid := saysAbsent_exhausted hc.passes herr hresp
    have hiff (habs : Absent (attemptsOf s.log)) :=
      (hc.perm hperm).answered_iff c.distinct habs.2
    constructor
    · intro hno hm
      have hsa := hsaid.mpr ⟨hm.counts, hm.absent⟩
      have hans := hno hsa
      rw [attempts_exhausted hsa] at hans
      obtain ⟨e, he, hun⟩ := hm.unanswered
      exact (hiff hm.absent).mpr hans e he hun
    · intro hm hsa
      obtain ⟨hcounts, habs⟩ := hsaid.mp hsa
      rw [attempts_exhausted hsa]
      refine (hiff habs).mp fun e he hun => hm ?_
      exact ⟨fun e he => (hc.passes e he).not_ends, hcounts, habs, e, he, hun⟩

/-- STAT on two main providers. -/
def statCall : Send where
  cmd := ⟨ascii "STAT <a@b>" ++ crlf, false, false⟩
  statProbe := false
  strategy := .fifo
  loads := [⟨1, false, 1⟩, ⟨1, false, 1⟩]
  nextIdx := 0
  mains := [⟨"first", "first", false⟩, ⟨"second", "second", false⟩]
  backups := []
  distinct := by decide

/-- The first provider lacks the article; `second` is what the other
does. -/
def absentWorld (second : Attempt) : World where
  quota := fun _ _ => false
  turn := fun _ g =>
    ⟨.granted, [if g.id = "first" then .answer 430 (ascii "430 no such article") else second], false⟩
  cancelCause := none

/-- Both providers lack the article, and the call rightly says so. -/
theorem no_false_absence_at_absent :
    ∃ resp log, doSendWithRetry (absentWorld (.answer 430 (ascii "430 no such article"))) statCall =
      some (resp, log) ∧ SaysAbsent resp ∧ NoFalseAbsence statCall resp := by
  have hrun : (doSendWithRetry (absentWorld (.answer 430 (ascii "430 no such article")))
      statCall).map (fun r => ((responseError r.1).any (·.isCode 430),
        r.2.any fun e => decide e.Unanswered)) = some (true, false) := by decide
  obtain ⟨⟨resp, log⟩, h, hr⟩ := Option.map_eq_some_iff.mp hrun
  obtain ⟨hsaid, hun⟩ := Prod.mk.inj hr
  have hno : NoFalseAbsence statCall resp ↔ ¬Misled statCall.cmd log := no_false_absence_iff h
  refine ⟨resp, log, h, hsaid, hno.mpr fun hm => ?_⟩
  obtain ⟨e, he, hue⟩ := hm.unanswered
  exact List.any_eq_false.mp hun e he (decide_eq_true hue)

/-- **A false absence**: the second provider's reply channel is closed
without a reply, it leaves no entry, and the call reports the first
provider's 430. -/
theorem false_absence_after_hangup :
    ∃ resp log, doSendWithRetry (absentWorld .hangup) statCall = some (resp, log) ∧
      SaysAbsent resp ∧ lastOf "second" resp.attempts = none ∧ ¬NoFalseAbsence statCall resp := by
  have hrun : (doSendWithRetry (absentWorld .hangup) statCall).map
      (fun r => ((responseError r.1).any (·.isCode 430), lastOf "second" r.1.attempts)) =
        some (true, none) := by decide
  obtain ⟨⟨resp, log⟩, h, hr⟩ := Option.map_eq_some_iff.mp hrun
  obtain ⟨hsaid, hlast⟩ := Prod.mk.inj hr
  refine ⟨resp, log, h, hsaid, hlast, fun hno => ?_⟩
  obtain ⟨e, he, _⟩ := hno hsaid ⟨"second", "second", false⟩ (by simp [statCall])
  cases he.symm.trans hlast

end Dispatch

end NntpPool
