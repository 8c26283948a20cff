import NntpPool.Dispatch.Turn
/-!
# Dispatch — the course of a call

The four loops of a call (mains, the race's single candidate and its
winners, backups) differ in detail and agree in what they make of a list
of providers: either every provider passes without a response to deliver
(`Course`), or the call ends on one of them, with a response
(`Delivered`) or cancelled (`Stopped`). `doSendWithRetry_sent` puts this
together for whole calls. The variables of the call need no account of
their own: the last error and the last absence are read off the log.
-/

namespace NntpPool

namespace Dispatch

theorem attemptsOf_append (xs ys : List Event) :
    attemptsOf (xs ++ ys) = attemptsOf xs ++ attemptsOf ys := List.flatMap_append

theorem attemptsOf_singleton (e : Event) : attemptsOf [e] = e.evidence :=
  List.flatMap_singleton ..

/-! ## Courses -/

/-- The verdicts behind which a call goes on to other providers; the
single candidate of a race is the one exception. -/
def Verdict.goesOn (stage : Stage) : Verdict → Bool
  | .gone => true
  | .failed _ => true
  | .unavailable => true
  | .absent => true
  | .odd => stage != .single
  | .cancelled => false
  | .committed => false
  | .success => false

/-- **A course**: the log of some providers none of which ends the call.
In a race, the providers found to have the article follow their probes. -/
inductive Course (cmd : Command) : List Provider → List Event → Prop
  | nil : Course cmd [] []
  | skip (g : Provider) : Course cmd [g] [skip g cmd]
  | turn {g : Provider} {stage : Stage} {t : TurnResult} (hstage : stage ≠ .probe)
      (ht : Turned g cmd t) (hv : (verdict cmd.hasWriter t.toResult).goesOn stage = true) :
      Course cmd [g] [.tried g stage t]
  | race {results : List (Provider × TurnResult)} {log : List Event} (statPayload : Bytes)
      (hres : ∀ r ∈ results, Turned r.1 (statCommand statPayload) r.2 ∧ r.2.cancelled = false)
      (hwin : Course cmd ((results.filter isWinner).map Prod.fst) log) :
      Course cmd (results.map Prod.fst) (results.map probed ++ log)
  | append {ps qs : List Provider} {xs ys : List Event} (hx : Course cmd ps xs)
      (hy : Course cmd qs ys) : Course cmd (ps ++ qs) (xs ++ ys)
  | perm {ps qs : List Provider} {log : List Event} (hp : ps.Perm qs) (h : Course cmd ps log) :
      Course cmd qs log

/-- **An event behind which a call goes on.** -/
inductive Passes (cmd : Command) : Event → Prop
  | skip (g : Provider) : Passes cmd (Dispatch.skip g cmd)
  | turn {g : Provider} {stage : Stage} {t : TurnResult} (hstage : stage ≠ .probe)
      (ht : Turned g cmd t) (hv : (verdict cmd.hasWriter t.toResult).goesOn stage = true) :
      Passes cmd (.tried g stage t)
  | probe {g : Provider} {t : TurnResult} (statPayload : Bytes)
      (ht : Turned g (statCommand statPayload) t) (hc : t.cancelled = false) :
      Passes cmd (.tried g .probe t)

variable {w : World} {cmd : Command} {ps qs : List Provider} {base front log : List Event}
  {g : Provider} {stage : Stage} {t : TurnResult}

/-- The events of a course. -/
theorem Course.passes (h : Course cmd ps log) : ∀ e ∈ log, Passes cmd e := by
  induction h with
  | nil => exact fun _ h => nomatch h
  | skip g => exact List.forall_mem_singleton.mpr (.skip g)
  | turn hs ht hv => exact List.forall_mem_singleton.mpr (.turn hs ht hv)
  | race stat hres _ ih =>
    refine List.forall_mem_append.mpr ⟨fun e he => ?_, ih⟩
    obtain ⟨r, hr, rfl⟩ := List.mem_map.mp he
    exact .probe stat (hres r hr).1 (hres r hr).2
  | append _ _ ihx ihy => exact List.forall_mem_append.mpr ⟨ihx, ihy⟩
  | perm _ _ ih => exact ih

theorem map_provider_probed (results : List (Provider × TurnResult)) :
    (results.map probed).map Event.provider = results.map Prod.fst := by
  rw [List.map_map]
  rfl

/-- **A course visits its providers**, and no others. -/
theorem Course.mem_iff (h : Course cmd ps log) (p : Provider) :
    p ∈ ps ↔ p ∈ log.map Event.provider := by
  induction h with
  | nil => exact .rfl
  | skip g => exact .rfl
  | turn => exact .rfl
  | @race results log stat _ _ ih =>
    rw [List.map_append, map_provider_probed, List.mem_append, ← ih]
    refine ⟨.inl, fun h => h.elim id fun hw => ?_⟩
    exact List.map_subset _ (List.filter_subset_self results) hw
  | append _ _ ihx ihy => rw [List.mem_append, List.map_append, List.mem_append, ihx, ihy]
  | perm hp _ ih => rw [← hp.mem_iff, ih]

/-! ## Endings -/

/-- **The call is cancelled** behind `base`: in a turn, or in a probe. -/
inductive Stopped (cmd : Command) (base : List Event) : List Event → Prop
  | turn {front : List Event} {g : Provider} {stage : Stage} {t : TurnResult}
      (hfront : ∀ e ∈ front, Passes cmd e) (hstage : stage ≠ .probe) (ht : Turned g cmd t)
      (hc : t.cancelled = true) : Stopped cmd base (base ++ front ++ [.tried g stage t])
  | probes {front : List Event} {results : List (Provider × TurnResult)} (statPayload : Bytes)
      (hfront : ∀ e ∈ front, Passes cmd e)
      (hres : ∀ r ∈ results, Turned r.1 (statCommand statPayload) r.2)
      (hc : ∃ r ∈ results, r.2.cancelled = true) :
      Stopped cmd base (base ++ front ++ results.map probed)

/-- **A turn whose response is delivered**: an error behind decoded bytes,
a success, or whatever the single live candidate of a race says, which is
then the last of the providers `ps`. -/
inductive Final (cmd : Command) (ps : List Provider) (front : List Event) (g : Provider)
    (stage : Stage) (t : TurnResult) : Prop
  | committed (h : verdict cmd.hasWriter t.toResult = .committed)
  | success (h : verdict cmd.hasWriter t.toResult = .success)
  | shortcut (h : verdict cmd.hasWriter t.toResult = .odd) (hstage : stage = .single)
      (hall : ∀ p, p ∈ ps ↔ p ∈ front.map Event.provider ∨ p = g)

/-- **The call delivers a response** behind `base`. -/
inductive Delivered (cmd : Command) (ps : List Provider) (base : List Event) :
    Response → List Event → Prop
  | mk {front : List Event} {g : Provider} {stage : Stage} {t : TurnResult}
      (hfront : ∀ e ∈ front, Passes cmd e) (hstage : stage ≠ .probe) (ht : Turned g cmd t)
      (hv : Final cmd ps front g stage t) :
      Delivered cmd ps base (deliver t.resp (base ++ front ++ [.tried g stage t]))
        (base ++ front ++ [.tried g stage t])

/-- The call is cancelled in the first turn behind `base`. -/
theorem Stopped.now (hstage : stage ≠ .probe) (ht : Turned g cmd t) (hc : t.cancelled = true) :
    Stopped cmd base (base ++ [.tried g stage t]) := by
  simpa using @Stopped.turn cmd base [] g stage t (fun _ h => nomatch h) hstage ht hc

/-- The first turn behind `base` has the response to deliver. -/
theorem Delivered.now (hstage : stage ≠ .probe) (ht : Turned g cmd t)
    (hv : Final cmd ps [] g stage t) :
    Delivered cmd ps base (deliver t.resp (base ++ [.tried g stage t]))
      (base ++ [.tried g stage t]) := by
  simpa using @Delivered.mk cmd ps base [] g stage t (fun _ h => nomatch h) hstage ht hv

/-- Events that pass before the end are part of the front. -/
theorem Stopped.prepend (hp : ∀ e ∈ front, Passes cmd e) (h : Stopped cmd (base ++ front) log) :
    Stopped cmd base log := by
  cases h with
  | turn hf hs ht hcan =>
    rw [List.append_assoc base]
    exact .turn (List.forall_mem_append.mpr ⟨hp, hf⟩) hs ht hcan
  | probes stat hf hres hcan =>
    rw [List.append_assoc base]
    exact .probes stat (List.forall_mem_append.mpr ⟨hp, hf⟩) hres hcan

theorem Delivered.prepend {resp : Response} (hp : ∀ e ∈ front, Passes cmd e)
    (hps : ∀ p, p ∈ qs ↔ p ∈ front.map Event.provider ∨ p ∈ ps)
    (h : Delivered cmd ps (base ++ front) resp log) : Delivered cmd qs base resp log := by
  cases h with
  | mk hf hs ht hv =>
    rw [List.append_assoc base]
    refine .mk (List.forall_mem_append.mpr ⟨hp, hf⟩) hs ht ?_
    cases hv with
    | committed h => exact .committed h
    | success h => exact .success h
    | shortcut h hst hall =>
      refine .shortcut h hst fun p => ?_
      rw [hps, hall, List.map_append, List.mem_append, or_assoc]

/-- The order of the providers does not matter. -/
theorem Delivered.perm {resp : Response} (hp : ps.Perm qs) (h : Delivered cmd ps base resp log) :
    Delivered cmd qs base resp log :=
  @Delivered.prepend cmd ps qs base [] log resp (fun _ h => nomatch h)
    (fun p => by simp [hp.mem_iff]) (by rwa [List.append_nil])

/-! ## The variables of a call -/

/-- The error a turn leaves in `lastErr`. -/
def turnFault (hasWriter : Bool) (g : Provider) (t : TurnResult) : Option GoError :=
  match verdict hasWriter t.toResult with
  | .failed e => some e
  | .unavailable => some (unavailableErr g)
  | .odd => some (statusErr g t.resp)
  | _ => none

/-- The error a probe leaves there. -/
def probeFault (g : Provider) (t : TurnResult) : Option GoError :=
  match verdict false t.toResult with
  | .success => if t.resp.statusCode = 223 then none else some (statusErr g t.resp)
  | _ => turnFault false g t

/-- The error an event leaves there. -/
def Event.fault (cmd : Command) : Event → Option GoError
  | .skipped g _ => some (quotaErr g)
  | .tried g .probe t => probeFault g t
  | .tried g _ t => turnFault cmd.hasWriter g t

/-- The response an event leaves in `lastResp`. -/
def Event.absence (cmd : Command) : Event → Option Resp
  | .tried _ .main t => if verdict cmd.hasWriter t.toResult = .absent then some t.resp else none
  | .tried _ .backup t => if verdict cmd.hasWriter t.toResult = .absent then some t.resp else none
  | _ => none

/-- `lastErr`. -/
def lastFault (cmd : Command) (log : List Event) : Option GoError :=
  (log.filterMap (Event.fault cmd)).getLast?

/-- `lastResp`. -/
def lastAbsence (cmd : Command) (log : List Event) : Option Resp :=
  (log.filterMap (Event.absence cmd)).getLast?

theorem lastFault_append (xs ys : List Event) :
    lastFault cmd (xs ++ ys) = (lastFault cmd ys).or (lastFault cmd xs) := by
  simp [lastFault, List.getLast?_append]

theorem lastAbsence_append (xs ys : List Event) :
    lastAbsence cmd (xs ++ ys) = (lastAbsence cmd ys).or (lastAbsence cmd xs) := by
  simp [lastAbsence, List.getLast?_append]

theorem lastFault_singleton (e : Event) : lastFault cmd [e] = e.fault cmd := by
  unfold lastFault
  cases h : e.fault cmd <;> simp [h]

theorem lastAbsence_singleton (e : Event) : lastAbsence cmd [e] = e.absence cmd := by
  unfold lastAbsence
  cases h : e.absence cmd <;> simp [h]

theorem lastAbsence_eq_none (h : ∀ e ∈ log, e.absence cmd = none) :
    lastAbsence cmd log = none := by
  rw [lastAbsence, List.filterMap_eq_nil_iff.mpr h]
  rfl

/-- `lastErr` behind the providers a race finds over their quota. -/
theorem lastFault_skips (gs : List Provider) :
    lastFault cmd (gs.map fun g => skip g cmd) = gs.getLast?.map quotaErr := by
  rw [lastFault, List.filterMap_map, ← List.getLast?_map]
  congr 1
  exact List.filterMap_eq_map.symm ▸ rfl

theorem probeErr_eq (lastErr : Option GoError) (r : Provider × TurnResult) :
    probeErr lastErr r = ((probed r).fault cmd).or lastErr := by
  show probeErr lastErr r = (probeFault r.1 r.2).or lastErr
  simp only [probeErr, probeFault, turnFault]
  cases verdict false r.2.toResult with
  | success => dsimp only; split_ifs <;> rfl
  | _ => rfl

/-- `lastErr` behind the probes. -/
theorem foldl_probeErr (results : List (Provider × TurnResult)) (lastErr : Option GoError) :
    results.foldl probeErr lastErr = (lastFault cmd (results.map probed)).or lastErr := by
  induction results generalizing lastErr with
  | nil => rfl
  | cons r results ih =>
    rw [List.foldl_cons, ih, List.map_cons, ← List.singleton_append, lastFault_append,
      lastFault_singleton, @probeErr_eq cmd, Option.or_assoc]

/-! ## The race -/

/-- **What a race comes to** behind the log `base` and the error
`lastErr`. -/
inductive Raced (cmd : Command) (ps : List Provider) (base : List Event)
    (lastErr : Option GoError) : RaceEnd × List Event → Prop
  | finished {new : List Event} (h : Course cmd ps new)
      (habs : ∀ e ∈ new, e.absence cmd = none) :
      Raced cmd ps base lastErr (.over ((lastFault cmd new).or lastErr), base ++ new)
  | delivered {resp : Response} {log : List Event} (h : Delivered cmd ps base resp log) :
      Raced cmd ps base lastErr (.delivered resp, log)
  | cancelled {log : List Event} (h : Stopped cmd base log) :
      Raced cmd ps base lastErr (.cancelled, log)

variable {lastErr : Option GoError} {r : RaceEnd × List Event}

/-- A race without candidates. -/
theorem Raced.nil : Raced cmd [] base lastErr (.over lastErr, base) := by
  have h := @Raced.finished cmd [] base lastErr [] .nil (fun _ h => nomatch h)
  rwa [List.append_nil] at h

theorem Raced.prepend (hc : Course cmd qs front) (habs : ∀ e ∈ front, e.absence cmd = none)
    (h : Raced cmd ps (base ++ front) ((lastFault cmd front).or lastErr) r) :
    Raced cmd (qs ++ ps) base lastErr r := by
  cases h with
  | finished h habs' =>
    rw [← Option.or_assoc, ← lastFault_append, List.append_assoc]
    exact .finished (hc.append h) (List.forall_mem_append.mpr ⟨habs, habs'⟩)
  | delivered h =>
    exact .delivered (h.prepend hc.passes fun p => by rw [List.mem_append, hc.mem_iff])
  | cancelled h => exact .cancelled (h.prepend hc.passes)

theorem Raced.perm (hp : ps.Perm qs) (h : Raced cmd ps base lastErr r) :
    Raced cmd qs base lastErr r := by
  cases h with
  | finished h habs => exact .finished (h.perm hp) habs
  | delivered h => exact .delivered (h.perm hp)
  | cancelled h => exact .cancelled h

/-- A turn on a provider behind which the race goes on. -/
theorem Raced.turn (hstage : stage ≠ .probe) (hm : stage ≠ .main) (hb : stage ≠ .backup) (ht : Turned g cmd t)
    (hv : (verdict cmd.hasWriter t.toResult).goesOn stage = true)
    (h : Raced cmd ps (base ++ [.tried g stage t])
      ((turnFault cmd.hasWriter g t).or lastErr) r) :
    Raced cmd (g :: ps) base lastErr r := by
  have hfault : lastFault cmd [.tried g stage t] = turnFault cmd.hasWriter g t := by
    rw [lastFault_singleton]
    cases stage <;> first | rfl | exact absurd rfl hstage
  rw [← hfault] at h
  refine Raced.prepend (.turn hstage ht hv) (List.forall_mem_singleton.mpr ?_) h
  cases stage <;> first | rfl | exact absurd rfl hm | exact absurd rfl hb

/-- The single live candidate. -/
theorem raceSingle_raced (h : raceSingle w cmd g base lastErr = some r) :
    Raced cmd [g] base lastErr r := by
  obtain ⟨t, ht, rfl⟩ := Option.map_eq_some_iff.mp h
  have ht := tryGroupResilient_turned ht
  have hon (hv : (verdict cmd.hasWriter t.toResult).goesOn .single = true) :
      Raced cmd [g] base lastErr (.over ((turnFault cmd.hasWriter g t).or lastErr),
        base ++ [.tried g .single t]) :=
    .turn (by decide) (by decide) (by decide) ht hv .nil
  cases hv : verdict cmd.hasWriter t.toResult with
  | cancelled => exact .cancelled (.now nofun ht (verdict_cancelled_iff.1 hv))
  | committed => exact .delivered (.now nofun ht (.committed hv))
  | odd => exact .delivered (.now nofun ht (.shortcut hv rfl (by simp)))
  | success => exact .delivered (.now nofun ht (.success hv))
  | _ => simpa [turnFault, hv] using hon (by rw [hv]; rfl)

/-- The providers found to have the article. -/
theorem raceWinners_raced (h : raceWinners w cmd ps base lastErr = some r) :
    Raced cmd ps base lastErr r := by
  induction ps generalizing base lastErr with
  | nil =>
    cases h
    exact .nil
  | cons g ps ih =>
    obtain ⟨t, ht, h⟩ := Option.bind_eq_some_iff.mp h
    have ht := tryGroupResilient_turned ht
    have hon (hv : (verdict cmd.hasWriter t.toResult).goesOn .winner = true)
        (h : raceWinners w cmd ps (base ++ [.tried g .winner t])
          ((turnFault cmd.hasWriter g t).or lastErr) = some r) :
        Raced cmd (g :: ps) base lastErr r :=
      .turn (by decide) (by decide) (by decide) ht hv (ih h)
    cases hv : verdict cmd.hasWriter t.toResult with
    | cancelled =>
      rw [hv] at h
      cases h
      exact .cancelled (.now nofun ht (verdict_cancelled_iff.1 hv))
    | committed =>
      rw [hv] at h
      cases h
      exact .delivered (.now nofun ht (.committed hv))
    | success =>
      rw [hv] at h
      cases h
      exact .delivered (.now nofun ht (.success hv))
    | _ =>
      refine hon (by rw [hv]; rfl) ?_
      simpa [turnFault, hv] using h

/-- The probes, each on its provider. -/
theorem mapM_probe {statPayload : Bytes} {live : List Provider}
    {results : List (Provider × TurnResult)}
    (h : live.mapM (probe w statPayload) = some results) :
    results.map Prod.fst = live ∧ ∀ r ∈ results, Turned r.1 (statCommand statPayload) r.2 := by
  induction live generalizing results with
  | nil =>
    cases h
    exact ⟨rfl, fun _ h => nomatch h⟩
  | cons g live ih =>
    rw [List.mapM_cons] at h
    obtain ⟨r, hr, h⟩ := Option.bind_eq_some_iff.mp h
    obtain ⟨rs, hrs, h⟩ := Option.bind_eq_some_iff.mp h
    cases h
    obtain ⟨t, ht, rfl⟩ := Option.map_eq_some_iff.mp hr
    obtain ⟨hmap, hall⟩ := ih hrs
    exact ⟨by rw [List.map_cons, hmap],
      List.forall_mem_cons.mpr ⟨tryGroupResilient_turned ht, hall⟩⟩

theorem absence_skips (gs : List Provider) :
    ∀ e ∈ gs.map fun g => skip g cmd, e.absence cmd = none := by
  intro e he
  obtain ⟨g, _, rfl⟩ := List.mem_map.mp he
  rfl

theorem absence_probed (results : List (Provider × TurnResult)) :
    ∀ e ∈ results.map probed, e.absence cmd = none := by
  intro e he
  obtain ⟨r, _, rfl⟩ := List.mem_map.mp he
  rfl

/-- The providers over their quota are a course. -/
theorem Course.skips (gs : List Provider) :
    Course cmd gs (gs.map fun g => Dispatch.skip g cmd) := by
  induction gs with
  | nil => exact .nil
  | cons g gs ih => exact (Course.skip g).append ih

/-- The probes and what follows them. -/
theorem Raced.probes {statPayload : Bytes} {results : List (Provider × TurnResult)}
    (hres : ∀ r ∈ results, Turned r.1 (statCommand statPayload) r.2 ∧ r.2.cancelled = false)
    (h : Raced cmd ((results.filter isWinner).map Prod.fst) (base ++ results.map probed)
      ((lastFault cmd (results.map probed)).or lastErr) r) :
    Raced cmd (results.map Prod.fst) base lastErr r := by
  have hpass : ∀ e ∈ results.map probed, Passes cmd e := by
    intro e he
    obtain ⟨r, hr, rfl⟩ := List.mem_map.mp he
    exact .probe statPayload (hres r hr).1 (hres r hr).2
  have hsub : (results.filter isWinner).map Prod.fst ⊆ results.map Prod.fst :=
    List.map_subset _ (List.filter_subset_self results)
  cases h with
  | finished h habs =>
    rw [← Option.or_assoc, ← lastFault_append, List.append_assoc]
    exact .finished (.race statPayload hres h)
      (List.forall_mem_append.mpr ⟨absence_probed results, habs⟩)
  | delivered h =>
    refine .delivered (h.prepend hpass fun p => ?_)
    rw [map_provider_probed]
    exact ⟨.inl, fun h => h.elim id fun hw => hsub hw⟩
  | cancelled h => exact .cancelled (h.prepend hpass)

/-- **`raceCandidates`.** -/
theorem raceCandidates_raced {statPayload : Bytes}
    (h : raceCandidates w cmd statPayload ps base = some r) : Raced cmd ps base none r := by
  unfold raceCandidates at h
  dsimp only at h
  have hp := List.filter_append_perm (w.quota .probe) ps
  generalize ps.filter (w.quota .probe) = exceeded at h hp
  generalize ps.filter (fun g => !w.quota .probe g) = live at h hp
  refine Raced.perm hp (Raced.prepend (.skips exceeded) (absence_skips exceeded) ?_)
  rw [lastFault_skips, Option.or_none]
  split at h
  · cases h
    exact .nil
  · exact raceSingle_raced h
  · obtain ⟨results, hres, h⟩ := Option.bind_eq_some_iff.mp h
    obtain ⟨hmap, hall⟩ := mapM_probe hres
    rw [← hmap]
    split_ifs at h with hc
    · cases h
      rw [List.any_eq_true] at hc
      exact .cancelled (by
        simpa using @Stopped.probes cmd (base ++ exceeded.map fun g => skip g cmd) [] results
          statPayload (fun _ h => nomatch h) hall hc)
    · have hnc : ∀ r ∈ results, r.2.cancelled = false := by simpa using hc
      refine Raced.probes (fun r hr => ⟨hall r hr, hnc r hr⟩) ?_
      rw [foldl_probeErr] at h
      exact raceWinners_raced h

/-! ## The call -/

/-- **What a part of the call comes to**, from the variables `s`. -/
inductive Follows (w : World) (cmd : Command) (ps : List Provider) (s : Sending) : Flow → Prop
  | goOn {s' : Sending} (new : List Event) (h : Course cmd ps new)
      (hlog : s'.log = s.log ++ new) (herr : s'.lastErr = (lastFault cmd new).or s.lastErr)
      (hresp : s'.lastResp = (lastAbsence cmd new).or s.lastResp) : Follows w cmd ps s (.goOn s')
  | delivered {resp : Response} {log : List Event} (h : Delivered cmd ps s.log resp log) :
      Follows w cmd ps s (.delivered resp log)
  | cancelled {log : List Event} (h : Stopped cmd s.log log) :
      Follows w cmd ps s (cancelled w log)

variable {s s' : Sending} {flow : Flow}

theorem Follows.nil : Follows w cmd [] s (.goOn s) := .goOn [] .nil (by simp) rfl rfl

/-- An event that passes, and what follows it. -/
theorem Follows.cons {e : Event} (hc : Course cmd [g] [e]) (hlog : s'.log = s.log ++ [e])
    (herr : s'.lastErr = (e.fault cmd).or s.lastErr)
    (hresp : s'.lastResp = (e.absence cmd).or s.lastResp) (h : Follows w cmd ps s' flow) :
    Follows w cmd (g :: ps) s flow := by
  cases h with
  | goOn new h hlog' herr' hresp' =>
    refine .goOn ([e] ++ new) (hc.append h) ?_ ?_ ?_
    · rw [hlog', hlog, List.append_assoc]
    · rw [herr', herr, lastFault_append, lastFault_singleton, Option.or_assoc]
    · rw [hresp', hresp, lastAbsence_append, lastAbsence_singleton, Option.or_assoc]
  | delivered h =>
    rw [hlog] at h
    exact .delivered (h.prepend hc.passes fun p => by
      rw [← hc.mem_iff, List.mem_cons, List.mem_singleton])
  | cancelled h =>
    rw [hlog] at h
    exact .cancelled (h.prepend hc.passes)

/-- A provider over its quota. -/
theorem Follows.skip (h : Follows w cmd ps
      { s with log := s.log ++ [Dispatch.skip g cmd], lastErr := some (quotaErr g) } flow) :
    Follows w cmd (g :: ps) s flow := by
  refine .cons (.skip g) ?_ ?_ ?_ h <;> rfl

/-- `race`. -/
theorem race_follows {statPayload : Bytes} (h : race w cmd statPayload ps s = some flow) :
    Follows w cmd ps s flow := by
  obtain ⟨r, hr, rfl⟩ := Option.map_eq_some_iff.mp h
  cases raceCandidates_raced hr with
  | finished hc habs =>
    exact .goOn _ hc rfl (by simp [Option.orElse_eq_or])
      (by rw [lastAbsence_eq_none habs, Option.none_or])
  | delivered hd => exact .delivered hd
  | cancelled hs => exact .cancelled hs

/-- **The loop over the backups.** -/
theorem backupLoop_follows (h : backupLoop w cmd ps s = some flow) : Follows w cmd ps s flow := by
  induction ps generalizing s with
  | nil =>
    cases h
    exact .nil
  | cons g ps ih =>
    unfold backupLoop at h
    split_ifs at h with hq
    · exact .skip (ih h)
    · obtain ⟨t, ht, h⟩ := Option.bind_eq_some_iff.mp h
      have ht := tryGroupResilient_turned ht
      have hon (hv : (verdict cmd.hasWriter t.toResult).goesOn .backup = true) {s' : Sending} :=
        @Follows.cons w cmd ps g s s' flow (.tried g .backup t) (.turn (by decide) ht hv)
      cases hv : verdict cmd.hasWriter t.toResult with
      | cancelled =>
        rw [hv] at h
        cases h
        exact .cancelled (.now (by decide) ht (verdict_cancelled_iff.1 hv))
      | committed =>
        rw [hv] at h
        cases h
        exact .delivered (.now (by decide) ht (.committed hv))
      | success =>
        rw [hv] at h
        cases h
        exact .delivered (.now (by decide) ht (.success hv))
      | _ =>
        rw [hv] at h
        refine hon (by rw [hv]; rfl) ?_ ?_ ?_ (ih h) <;>
          simp [Event.fault, turnFault, Event.absence, hv]

/-- **The loop over the main providers**, with the race an absence may
end it in. -/
theorem mainLoop_follows {statPayload : Option Bytes}
    (h : mainLoop w cmd statPayload ps s = some flow) : Follows w cmd ps s flow := by
  induction ps generalizing s with
  | nil =>
    cases h
    exact .nil
  | cons g ps ih =>
    unfold mainLoop at h
    split_ifs at h with hq
    · exact .skip (ih h)
    · obtain ⟨t, ht, h⟩ := Option.bind_eq_some_iff.mp h
      have ht := tryGroupResilient_turned ht
      have hon (hv : (verdict cmd.hasWriter t.toResult).goesOn .main = true) {s' : Sending} :=
        @Follows.cons w cmd ps g s s' flow (.tried g .main t) (.turn (by decide) ht hv)
      cases hv : verdict cmd.hasWriter t.toResult with
      | cancelled =>
        rw [hv] at h
        cases h
        exact .cancelled (.now (by decide) ht (verdict_cancelled_iff.1 hv))
      | committed =>
        rw [hv] at h
        cases h
        exact .delivered (.now (by decide) ht (.committed hv))
      | success =>
        rw [hv] at h
        cases h
        exact .delivered (.now (by decide) ht (.success hv))
      | absent =>
        rw [hv] at h
        dsimp only at h
        split at h
        · refine hon (by rw [hv]; rfl) ?_ ?_ ?_ (race_follows h) <;>
            simp [Event.fault, turnFault, Event.absence, hv]
        · refine hon (by rw [hv]; rfl) ?_ ?_ ?_ (ih h) <;>
            simp [Event.fault, turnFault, Event.absence, hv]
      | _ =>
        rw [hv] at h
        refine hon (by rw [hv]; rfl) ?_ ?_ ?_ (ih h) <;>
          simp [Event.fault, turnFault, Event.absence, hv]

/-- **What a call comes to.** -/
inductive Sent (w : World) (c : Send) : Response → List Event → Prop
  /-- There are no main providers; the backups are not asked. -/
  | noMains (h : c.mains = []) :
      Sent w c { err := some (.plain (.sentinel .noMainProviders)) } []
  /-- A response is delivered while the main providers are tried. -/
  | main {resp : Response} {log : List Event} (h : Delivered c.cmd c.order [] resp log) :
      Sent w c resp log
  /-- A response is delivered while the backups are tried. -/
  | backup {mains : List Event} {resp : Response} {log : List Event}
      (hmains : Course c.cmd c.order mains) (h : Delivered c.cmd c.backups mains resp log) :
      Sent w c resp log
  | cancelled {log : List Event} (h : Stopped c.cmd [] log) :
      Sent w c (cancellationResponse (attemptsOf log) (w.cancelCause.map CtxErr.toError)) log
  /-- All providers are exhausted. -/
  | exhausted {s : Sending} (h : Course c.cmd (c.order ++ c.backups) s.log)
      (herr : s.lastErr = lastFault c.cmd s.log)
      (hresp : s.lastResp = lastAbsence c.cmd s.log) : Sent w c (exhausted s) s.log

/-- A response delivered by a backup, with the course of the mains. -/
theorem Delivered.behind {resp : Response} (hfront : Course cmd qs front)
    (h : Delivered cmd ps front resp log) : Delivered cmd (qs ++ ps) [] resp log :=
  @Delivered.prepend cmd ps (qs ++ ps) [] front log resp hfront.passes
    (fun p => by rw [List.mem_append, hfront.mem_iff]) h

/-- **Every call that returns comes to one of these.** -/
theorem doSendWithRetry_sent {c : Send} {resp : Response}
    (h : doSendWithRetry w c = some (resp, log)) : Sent w c resp log := by
  unfold doSendWithRetry at h
  split_ifs at h with hm
  · cases h
    exact .noMains hm
  · obtain ⟨flow, hmain, h⟩ := Option.bind_eq_some_iff.mp h
    cases mainLoop_follows hmain with
    | delivered hd =>
      cases h
      exact .main hd
    | cancelled hs =>
      cases h
      exact .cancelled hs
    | @goOn s new hc hlog herr hresp =>
      obtain ⟨flow, hback, h⟩ := Option.map_eq_some_iff.mp h
      rw [List.nil_append] at hlog
      rw [Option.or_none] at herr hresp
      -- both ways to ask the backups follow on the course of the mains
      have hfollows : Follows w c.cmd c.backups s flow := by
        split at hback
        · split_ifs at hback
          · exact race_follows hback
          · exact backupLoop_follows hback
        · exact backupLoop_follows hback
      cases hfollows with
      | delivered hd =>
        cases h
        rw [hlog] at hd
        exact .backup hc hd
      | cancelled hs =>
        cases h
        rw [hlog, ← List.nil_append new] at hs
        exact .cancelled (hs.prepend hc.passes)
      | goOn new' hc' hlog' herr' hresp' =>
        cases h
        rw [hlog] at hlog'
        refine .exhausted (hlog' ▸ hc.append hc') ?_ ?_
        · rw [hlog', lastFault_append, herr', herr]
        · rw [hlog', lastAbsence_append, hresp', hresp]

end Dispatch

end NntpPool
