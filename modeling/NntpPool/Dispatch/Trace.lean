import NntpPool.Dispatch.Course
/-!
# Dispatch — the trace of a call

Which providers a call contacts, in which order and how often. The loop
over the mains, the race that takes over the providers left when one of
them lacks the article, and the loop or race over the backups share one
list, so the trace is read off it place by place: `RaceSteps` is what a
race does with its candidates, `Loops` what a loop does, and
`sendFrom_traced` puts them together. Nothing is assumed of the
two lists; where they name a provider twice it has two places.
-/

namespace NntpPool

namespace Dispatch

/-! ## The call on its two lists -/

/-- **`doSendWithRetry`** on the snapshots of the mains and the backups,
from a start index. -/
def sendFrom (w : World) (cmd : Command) (statPayload : Option Bytes) (mains : List Provider)
    (start : ℕ) (backups : List Provider) : Option (Response × List Event) :=
  if mains = [] then some ({ err := some (.plain (.sentinel .noMainProviders)) }, [])
  else
    (mainLoop w cmd statPayload (mains.rotate start) {}).bind fun flow =>
      match flow with
      | .delivered resp log => some (resp, log)
      | .goOn s =>
        let behind := match statPayload with
          | some stat => if s.post430 then race w cmd stat backups s else backupLoop w cmd backups s
          | none => backupLoop w cmd backups s
        behind.map fun flow =>
          match flow with
          | .delivered resp log => (resp, log)
          | .goOn s => (exhausted s, s.log)

theorem doSendWithRetry_eq_sendFrom (w : World) (c : Send) :
    doSendWithRetry w c = sendFrom w c.cmd c.statPayload c.mains
      (startIndex c.strategy c.loads c.nextIdx) c.backups := rfl

/-! ## Contacts -/

/-- The provider an event sends the payload to. -/
def Event.payloadTo : Event → Option Provider
  | .skipped _ _ => none
  | .tried _ .probe _ => none
  | .tried g _ _ => some g

/-- The provider an event probes. -/
def Event.probeTo : Event → Option Provider
  | .tried g .probe _ => some g
  | _ => none

/-- The check of the quota that goes before a stage. -/
def Stage.check : Stage → Stage
  | .main => .main
  | .probe => .probe
  | .single => .probe
  | .winner => .probe
  | .backup => .backup

/-- **What happens at a place of the list**: the provider is skipped if
its quota check is true, and otherwise tried. -/
inductive At (w : World) (stage : Stage) : Provider → Event → Prop
  | skipped {g : Provider} (e : Evidence) (hq : w.quota stage.check g = true) :
      At w stage g (.skipped g e)
  | tried {g : Provider} (t : TurnResult) (hq : w.quota stage.check g = false) :
      At w stage g (.tried g stage t)

/-- A loop visits its list from the front, place by place. -/
def Loops (w : World) (stage : Stage) (ps : List Provider) (log : List Event) : Prop :=
  List.Forall₂ (At w stage) ps log

/-- **What a race does with its candidates**: those over their quota are
skipped; of the others a single one is sent the payload, and more are all
probed and then sent the payload in their order, as far as it takes. -/
def RaceSteps (w : World) (ps : List Provider) (log : List Event) : Prop :=
  ∃ skips probes pays stage paid, log = skips ++ (probes ++ pays) ∧
    Loops w .probe (ps.filter (w.quota .probe)) skips ∧
    Loops w stage paid pays ∧ stage.check = .probe ∧
    (stage = .single ∧ probes = [] ∧ paid = ps.filter (fun g => !w.quota .probe g) ∨
      stage = .winner ∧ Loops w .probe (ps.filter fun g => !w.quota .probe g) probes ∧
        paid.Sublist (ps.filter fun g => !w.quota .probe g))

/-- **The trace of a call** on the mains in their order and the backups. -/
structure DispatchTrace (w : World) (order backups : List Provider) (log : List Event) : Prop where
  /-- The mains have their turns in order; the race of those left is one
  step. -/
  cyclic : ∃ k turns raced behind, log = turns ++ (raced ++ behind) ∧
    Loops w .main (order.take k) turns ∧
    (raced = [] ∨ RaceSteps w (order.drop k) raced) ∧
    (behind = [] ∨ (∃ j, Loops w .backup (backups.take j) behind) ∨ RaceSteps w backups behind)
  /-- Every place gets the payload at most once. -/
  payload_once : (log.filterMap Event.payloadTo).Sublist (order ++ backups)
  /-- And at most one probe. -/
  probe_once : (log.filterMap Event.probeTo).Sublist (order ++ backups)
  /-- Who is contacted was within the quota at its turn. -/
  within_quota : ∀ g stage t, .tried g stage t ∈ log → w.quota stage.check g = false
  /-- So a provider found over it is not contacted at all. -/
  skipped_untouched : (order ++ backups).Nodup → ∀ g e, .skipped g e ∈ log →
    ∀ stage t, .tried g stage t ∉ log
  /-- The backups come last: behind a visit to every main. -/
  backups_last : ∃ front back, log = front ++ back ∧ (∀ e ∈ front, e.provider ∈ order) ∧
    (∀ e ∈ back, e.provider ∈ backups) ∧ (back ≠ [] → ∀ g ∈ order, ∃ e ∈ front, e.provider = g)

/-! ## Loops place by place -/

section Loops

variable {w : World} {stage : Stage} {ps : List Provider} {log : List Event}

theorem Loops.provider (h : Loops w stage ps log) : log.map Event.provider = ps := by
  induction h with
  | nil => rfl
  | cons hat _ ih =>
    rw [List.map_cons, ih]
    rcases hat with ⟨e, -⟩ | ⟨t, -⟩ <;> rfl

/-- The events of a loop, by the check they were made behind. -/
theorem Loops.mem (h : Loops w stage ps log) :
    ∀ e ∈ log, ∃ g ∈ ps, At w stage g e := by
  induction h with
  | nil => intro e he; exact absurd he List.not_mem_nil
  | @cons g e ps log hat _ ih =>
    intro e' he'
    rcases List.mem_cons.mp he' with rfl | he'
    · exact ⟨g, List.mem_cons_self .., hat⟩
    · obtain ⟨g', hg', hat'⟩ := ih e' he'
      exact ⟨g', List.mem_cons_of_mem _ hg', hat'⟩

/-- A loop sends the payload to its providers in order. -/
theorem Loops.payload (h : Loops w stage ps log) :
    (log.filterMap Event.payloadTo).Sublist ps := by
  induction h with
  | nil => exact List.Sublist.refl _
  | @cons g e ps log hat _ ih =>
    have hone : e.payloadTo = none ∨ e.payloadTo = some g := by
      rcases hat with ⟨e, -⟩ | ⟨t, -⟩
      · exact Or.inl rfl
      · rcases stage with _ | _ | _ | _ | _
        · exact Or.inr rfl
        · exact Or.inl rfl
        · exact Or.inr rfl
        · exact Or.inr rfl
        · exact Or.inr rfl
    rcases hone with he | he
    · rw [List.filterMap_cons_none he]
      exact ih.cons g
    · rw [List.filterMap_cons_some he]
      exact ih.cons_cons g

/-- A loop of probes sends it to nobody. -/
theorem Loops.payload_eq_nil (h : Loops w .probe ps log) :
    log.filterMap Event.payloadTo = [] := by
  rw [List.filterMap_eq_nil_iff]
  intro e he
  obtain ⟨g, -, hat⟩ := h.mem e he
  rcases hat with ⟨e, -⟩ | ⟨t, -⟩ <;> rfl

/-- It probes its providers in order. -/
theorem Loops.probe (h : Loops w .probe ps log) :
    (log.filterMap Event.probeTo).Sublist ps := by
  induction h with
  | nil => exact List.Sublist.refl _
  | @cons g e ps log hat _ ih =>
    rcases hat with ⟨e, -⟩ | ⟨t, -⟩
    · exact ih.cons g
    · exact ih.cons_cons g

/-- The other loops probe nobody. -/
theorem Loops.probe_eq_nil (h : Loops w stage ps log) (hstage : stage ≠ .probe) :
    log.filterMap Event.probeTo = [] := by
  rw [List.filterMap_eq_nil_iff]
  intro e he
  obtain ⟨g, -, hat⟩ := h.mem e he
  rcases hat with ⟨e, -⟩ | ⟨t, -⟩
  · rfl
  · rcases stage with _ | _ | _ | _ | _
    · rfl
    · exact absurd rfl hstage
    · rfl
    · rfl
    · rfl

/-- Nor does a loop over providers that are all over their quota. -/
theorem Loops.probe_eq_nil_of_quota (h : Loops w .probe ps log)
    (hq : ∀ g ∈ ps, w.quota .probe g = true) : log.filterMap Event.probeTo = [] := by
  rw [List.filterMap_eq_nil_iff]
  intro e he
  obtain ⟨g, hg, hat⟩ := h.mem e he
  rcases hat with ⟨e, -⟩ | ⟨t, hq'⟩
  · rfl
  · exact absurd ((hq g hg).symm.trans hq') (by decide)

end Loops

/-! ## Parts of a trace -/

/-- **A part of the trace**, over its part of the list: all behind one kind
of quota check. -/
structure Part (w : World) (check : Stage) (ps : List Provider) (log : List Event) : Prop where
  provider : ∀ e ∈ log, e.provider ∈ ps
  skipped : ∀ g e, .skipped g e ∈ log → w.quota check g = true
  tried : ∀ g stage t, .tried g stage t ∈ log → stage.check = check ∧ w.quota check g = false
  payload : (log.filterMap Event.payloadTo).Sublist ps
  probe : (log.filterMap Event.probeTo).Sublist ps

section Part

variable {w : World} {check stage : Stage} {ps : List Provider} {log : List Event}

theorem Part.nil : Part w check ps [] where
  provider := by simp
  skipped := by simp
  tried := by simp
  payload := List.nil_sublist _
  probe := List.nil_sublist _

theorem Loops.tells (h : Loops w stage ps log) (hcheck : stage.check = check) :
    (∀ g e, .skipped g e ∈ log → w.quota check g = true) ∧
      ∀ g stage t, .tried g stage t ∈ log → stage.check = check ∧ w.quota check g = false := by
  subst hcheck
  constructor
  · intro g e he
    obtain ⟨g', -, hat⟩ := h.mem _ he
    cases hat with
    | skipped e hq => exact hq
  · intro g s t ht
    obtain ⟨g', -, hat⟩ := h.mem _ ht
    cases hat with
    | tried t hq => exact ⟨rfl, hq⟩

/-- A loop over the front of a list is a part over the list. -/
theorem Loops.part {qs : List Provider} (h : Loops w stage qs log) (hsub : qs.Sublist ps)
    (hcheck : stage.check = check) (hstage : stage ≠ .probe) : Part w check ps log where
  provider e he := hsub.subset (by rw [← h.provider]; exact List.mem_map_of_mem he)
  skipped := (h.tells hcheck).1
  tried := (h.tells hcheck).2
  payload := h.payload.trans hsub
  probe := by
    rw [h.probe_eq_nil hstage]
    exact List.nil_sublist _

/-- **A race is a part over its candidates.** -/
theorem RaceSteps.part (h : RaceSteps w ps log) : Part w .probe ps log := by
  obtain ⟨skips, probes, pays, stage, paid, rfl, hskips, hpays, hcheck, hcase⟩ := h
  have hover := List.filter_sublist (p := w.quota .probe) (l := ps)
  have hlive := List.filter_sublist (p := fun g => !w.quota .probe g) (l := ps)
  have hstage : stage ≠ .probe := by
    rintro rfl
    rcases hcase with ⟨hc, -⟩ | ⟨hc, -⟩ <;> cases hc
  -- the probes are a loop over the live candidates, or none
  obtain ⟨probed, hprobes, hsub⟩ : ∃ probed, Loops w .probe probed probes ∧
      probed.Sublist (ps.filter fun g => !w.quota .probe g) := by
    rcases hcase with ⟨-, rfl, -⟩ | ⟨-, hp, -⟩
    · exact ⟨[], .nil, List.nil_sublist _⟩
    · exact ⟨_, hp, List.Sublist.refl _⟩
  have hpaid : paid.Sublist (ps.filter fun g => !w.quota .probe g) := by
    rcases hcase with ⟨-, -, rfl⟩ | ⟨-, -, hp⟩
    · exact List.Sublist.refl _
    · exact hp
  refine ⟨fun e he => ?_, fun g e he => ?_, fun g s t ht => ?_, ?_, ?_⟩
  · simp only [List.mem_append] at he
    rcases he with he | he | he
    · exact hover.subset (by rw [← hskips.provider]; exact List.mem_map_of_mem he)
    · exact (hsub.trans hlive).subset (by rw [← hprobes.provider]; exact List.mem_map_of_mem he)
    · exact (hpaid.trans hlive).subset (by rw [← hpays.provider]; exact List.mem_map_of_mem he)
  · simp only [List.mem_append] at he
    rcases he with he | he | he
    · exact (hskips.tells rfl).1 g e he
    · exact (hprobes.tells rfl).1 g e he
    · exact (hpays.tells hcheck).1 g e he
  · simp only [List.mem_append] at ht
    rcases ht with ht | ht | ht
    · exact (hskips.tells rfl).2 g s t ht
    · exact (hprobes.tells rfl).2 g s t ht
    · exact (hpays.tells hcheck).2 g s t ht
  · rw [List.filterMap_append, List.filterMap_append, hskips.payload_eq_nil,
      hprobes.payload_eq_nil, List.nil_append, List.nil_append]
    exact hpays.payload.trans (hpaid.trans hlive)
  · have hq : ∀ g ∈ ps.filter (w.quota .probe), w.quota .probe g = true :=
      fun g hg => List.of_mem_filter hg
    rw [List.filterMap_append, List.filterMap_append, hskips.probe_eq_nil_of_quota hq,
      hpays.probe_eq_nil hstage, List.nil_append, List.append_nil]
    exact hprobes.probe.trans (hsub.trans hlive)

/-- **A race leaves no candidate out**: each is skipped, probed or sent the
payload. -/
theorem RaceSteps.covers (h : RaceSteps w ps log) : ∀ g ∈ ps, ∃ e ∈ log, e.provider = g := by
  obtain ⟨skips, probes, pays, stage, paid, rfl, hskips, hpays, -, hcase⟩ := h
  intro g hg
  have hfind : ∀ {qs : List Provider} {part : List Event}, part.map Event.provider = qs → g ∈ qs →
      ∃ e ∈ part, e.provider = g := by
    rintro qs part rfl hmem
    exact List.mem_map.mp hmem
  by_cases hq : w.quota .probe g = true
  · obtain ⟨e, he, hp⟩ := hfind hskips.provider (List.mem_filter.mpr ⟨hg, hq⟩)
    exact ⟨e, List.mem_append_left _ he, hp⟩
  · have hlive : g ∈ ps.filter fun g => !w.quota .probe g :=
      List.mem_filter.mpr ⟨hg, by simpa using hq⟩
    rcases hcase with ⟨-, -, rfl⟩ | ⟨-, hprobes, -⟩
    · obtain ⟨e, he, hp⟩ := hfind hpays.provider hlive
      exact ⟨e, List.mem_append_right _ (List.mem_append_right _ he), hp⟩
    · obtain ⟨e, he, hp⟩ := hfind hprobes.provider hlive
      exact ⟨e, List.mem_append_right _ (List.mem_append_left _ he), hp⟩

/-- Within one part nobody is both skipped and tried. -/
theorem Part.skipped_untouched (h : Part w check ps log) {g : Provider} {e : Evidence}
    (he : .skipped g e ∈ log) (stage : Stage) (t : TurnResult) : .tried g stage t ∉ log := by
  intro ht
  exact absurd ((h.skipped g e he).symm.trans (h.tried g stage t ht).2) (by decide)

end Part

/-! ## What the loops of the call do -/

/-- The log behind a part of the call. -/
def Flow.log : Flow → List Event
  | .delivered _ log => log
  | .goOn s => s.log

section Call

variable {w : World} {cmd : Command} {ps : List Provider} {log : List Event} {s : Sending}
variable {flow : Flow}

/-- The providers that have the article are a loop over a front part of
them. -/
theorem raceWinners_loops (hq : ∀ g ∈ ps, w.quota .probe g = false) :
    ∀ {log : List Event} {lastErr : Option GoError} {r : RaceEnd × List Event},
      raceWinners w cmd ps log lastErr = some r →
      ∃ paid pays, paid <+: ps ∧ r.2 = log ++ pays ∧ Loops w .winner paid pays := by
  induction ps with
  | nil =>
    intro log lastErr r h
    simp only [raceWinners, Option.some.injEq] at h
    subst h
    exact ⟨[], [], List.nil_prefix, (List.append_nil _).symm, .nil⟩
  | cons g ps ih =>
    intro log lastErr r h
    obtain ⟨t, -, h⟩ := Option.bind_eq_some_iff.mp h
    have hat : At w .winner g (.tried g .winner t) := .tried t (hq g (List.mem_cons_self ..))
    have hend : ∀ r : RaceEnd × List Event, r.2 = log ++ [Event.tried g .winner t] →
        ∃ paid pays, paid <+: g :: ps ∧ r.2 = log ++ pays ∧ Loops w .winner paid pays :=
      fun r hr => ⟨[g], _, ⟨ps, rfl⟩, hr, .cons hat .nil⟩
    have hgo : ∀ {e : Option GoError},
        raceWinners w cmd ps (log ++ [Event.tried g .winner t]) e = some r →
        ∃ paid pays, paid <+: g :: ps ∧ r.2 = log ++ pays ∧ Loops w .winner paid pays := by
      intro e hr
      obtain ⟨paid, pays, hpre, hlog, hloops⟩ := ih (fun g' hg' => hq g' (by simp [hg'])) hr
      exact ⟨g :: paid, _ :: pays, List.cons_prefix_cons.mpr ⟨rfl, hpre⟩,
        by rw [hlog, List.append_assoc]; rfl, .cons hat hloops⟩
    dsimp only at h
    split at h
    · cases h; exact hend _ rfl
    · exact hgo h
    · cases h; exact hend _ rfl
    · exact hgo h
    · exact hgo h
    · exact hgo h
    · exact hgo h
    · cases h; exact hend _ rfl

/-- The candidates over their quota are skipped one by one. -/
theorem loops_skips (cmd : Command) (qs : List Provider) (hq : ∀ g ∈ qs, w.quota .probe g = true) :
    Loops w .probe qs (qs.map fun g => skip g cmd) := by
  induction qs with
  | nil => exact .nil
  | cons g qs ih =>
    exact .cons (.skipped _ (hq g (List.mem_cons_self ..)))
      (ih fun g' hg' => hq g' (List.mem_cons_of_mem _ hg'))

/-- The probes are a loop over the live candidates. -/
theorem loops_probes (results : List (Provider × TurnResult))
    (hq : ∀ g ∈ results.map Prod.fst, w.quota .probe g = false) :
    Loops w .probe (results.map Prod.fst) (results.map probed) := by
  induction results with
  | nil => exact .nil
  | cons r results ih =>
    exact .cons (.tried r.2 (hq r.1 (List.mem_cons_self ..)))
      (ih fun g hg => hq g (List.mem_cons_of_mem _ hg))

/-- **`raceCandidates` does what a race does.** -/
theorem raceCandidates_steps {statPayload : Bytes} {r : RaceEnd × List Event}
    (h : raceCandidates w cmd statPayload ps log = some r) :
    ∃ part, r.2 = log ++ part ∧ RaceSteps w ps part := by
  have hover : ∀ g ∈ ps.filter (w.quota .probe), w.quota .probe g = true :=
    fun g hg => List.of_mem_filter hg
  have hwithin : ∀ g ∈ ps.filter (fun g => !w.quota .probe g), w.quota .probe g = false :=
    fun g hg => by simpa using List.of_mem_filter hg
  have hskips := loops_skips cmd _ hover
  unfold raceCandidates at h
  dsimp only at h
  split at h
  · -- no candidate is live
    rename_i hlive
    cases h
    exact ⟨_, rfl, _, [], [], .single, [], by simp, hskips, .nil, rfl,
      Or.inl ⟨rfl, rfl, hlive.symm⟩⟩
  · -- one is
    rename_i g hlive
    obtain ⟨t, -, rfl⟩ := Option.map_eq_some_iff.mp h
    have hat : Loops w .single [g] [.tried g .single t] :=
      .cons (.tried t (hwithin g (by rw [hlive]; simp))) .nil
    refine ⟨_ ++ [Event.tried g .single t], ?_, _, [], [.tried g .single t], .single, [g], rfl,
      hskips, hat, rfl, Or.inl ⟨rfl, rfl, hlive.symm⟩⟩
    rw [← List.append_assoc]
    split <;> rfl
  · obtain ⟨results, hres, h⟩ := Option.bind_eq_some_iff.mp h
    obtain ⟨hmap, -⟩ := mapM_probe hres
    have hprobes : Loops w .probe (ps.filter fun g => !w.quota .probe g) (results.map probed) := by
      rw [← hmap]
      exact loops_probes results (by rwa [hmap])
    split_ifs at h with hcancelled
    · cases h
      exact ⟨_, List.append_assoc .., _, results.map probed, [], .winner, [],
        by rw [List.append_nil], hskips, .nil, rfl, Or.inr ⟨rfl, hprobes, List.nil_sublist _⟩⟩
    · -- the winners are live candidates, in their order
      have hwin : ((results.filter isWinner).map Prod.fst).Sublist
          (ps.filter fun g => !w.quota .probe g) := by
        rw [← hmap]
        exact List.filter_sublist.map _
      obtain ⟨paid, pays, hpre, hlog, hloops⟩ :=
        raceWinners_loops (fun g hg => hwithin g (hwin.subset hg)) h
      refine ⟨_ ++ (results.map probed ++ pays), ?_, _, _, pays, .winner, paid, rfl, hskips, hloops,
        rfl, Or.inr ⟨rfl, hprobes, hpre.sublist.trans hwin⟩⟩
      rw [hlog, List.append_assoc, List.append_assoc]

theorem race_steps {statPayload : Bytes} (h : race w cmd statPayload ps s = some flow) :
    ∃ part, flow.log = s.log ++ part ∧ RaceSteps w ps part := by
  obtain ⟨r, hr, rfl⟩ := Option.map_eq_some_iff.mp h
  obtain ⟨part, hlog, hsteps⟩ := raceCandidates_steps hr
  refine ⟨part, ?_, hsteps⟩
  rw [← hlog]
  split <;> rfl

/-- **The loop over the backups** visits a front part of them. -/
theorem backupLoop_loops :
    ∀ {s : Sending}, backupLoop w cmd ps s = some flow →
      ∃ j part, flow.log = s.log ++ part ∧ Loops w .backup (ps.take j) part := by
  induction ps with
  | nil =>
    intro s h
    cases h
    exact ⟨0, [], (List.append_nil _).symm, .nil⟩
  | cons g ps ih =>
    intro s h
    have hgo : ∀ {s' : Sending} {e : Event}, At w .backup g e → s'.log = s.log ++ [e] →
        backupLoop w cmd ps s' = some flow →
        ∃ j part, flow.log = s.log ++ part ∧ Loops w .backup ((g :: ps).take j) part := by
      intro s' e hat hlog hs'
      obtain ⟨j, part, hpart, hloops⟩ := ih hs'
      refine ⟨j + 1, e :: part, ?_, .cons hat hloops⟩
      rw [hpart, hlog, List.append_assoc]
      rfl
    unfold backupLoop at h
    split_ifs at h with hq
    · exact hgo (.skipped _ hq) rfl h
    · obtain ⟨t, -, h⟩ := Option.bind_eq_some_iff.mp h
      have hat : At w .backup g (.tried g .backup t) := .tried t (Bool.not_eq_true _ ▸ hq)
      have hend : ∀ flow : Flow, flow.log = s.log ++ [Event.tried g .backup t] →
          ∃ j part, flow.log = s.log ++ part ∧ Loops w .backup ((g :: ps).take j) part :=
        fun flow hf => ⟨1, _, hf, .cons hat .nil⟩
      dsimp only at h
      split at h
      · cases h; exact hend _ rfl
      · exact hgo hat rfl h
      · cases h; exact hend _ rfl
      · exact hgo hat rfl h
      · exact hgo hat rfl h
      · exact hgo hat rfl h
      · exact hgo hat rfl h
      · cases h; exact hend _ rfl

/-- What the mains come to: turns over a front part of them, and a race of
the others if one lacks the article. -/
def MainSteps (w : World) (ps : List Provider) (base : List Event) (flow : Flow) : Prop :=
  ∃ k turns raced, flow.log = base ++ (turns ++ raced) ∧ Loops w .main (ps.take k) turns ∧
    (raced = [] ∨ RaceSteps w (ps.drop k) raced) ∧
    ((∃ s, flow = .goOn s) → ps.length ≤ k ∨ RaceSteps w (ps.drop k) raced)

/-- **The loop over the mains.** -/
theorem mainLoop_steps {statPayload : Option Bytes} :
    ∀ {s : Sending}, mainLoop w cmd statPayload ps s = some flow →
      MainSteps w ps s.log flow := by
  induction ps with
  | nil =>
    intro s h
    cases h
    exact ⟨0, [], [], by simp [Flow.log], .nil, Or.inl rfl, fun _ => Or.inl (Nat.le_refl _)⟩
  | cons g ps ih =>
    intro s h
    have hgo : ∀ {s' : Sending} {e : Event}, At w .main g e → s'.log = s.log ++ [e] →
        mainLoop w cmd statPayload ps s' = some flow → MainSteps w (g :: ps) s.log flow := by
      intro s' e hat hlog hs'
      obtain ⟨k, turns, raced, hpart, hloops, hrace, hall⟩ := ih hs'
      refine ⟨k + 1, e :: turns, raced, ?_, .cons hat hloops, hrace, fun hg => ?_⟩
      · rw [hpart, hlog, List.append_assoc]
        rfl
      · rw [List.length_cons, List.drop_succ_cons, Nat.add_le_add_iff_right]
        exact hall hg
    unfold mainLoop at h
    split_ifs at h with hq
    · exact hgo (.skipped _ hq) rfl h
    · obtain ⟨t, -, h⟩ := Option.bind_eq_some_iff.mp h
      have hat : At w .main g (.tried g .main t) := .tried t (Bool.not_eq_true _ ▸ hq)
      have hone : Loops w .main ((g :: ps).take 1) [.tried g .main t] := .cons hat .nil
      -- the call ends on this provider
      have hend : ∀ resp, flow = .delivered resp (s.log ++ [Event.tried g .main t]) →
          MainSteps w (g :: ps) s.log flow := by
        rintro resp rfl
        refine ⟨1, _, [], by simp [Flow.log], hone, Or.inl rfl, ?_⟩
        rintro ⟨s', hs'⟩
        cases hs'
      dsimp only at h
      split at h
      · cases h; exact hend _ rfl
      · exact hgo hat rfl h
      · cases h; exact hend _ rfl
      · exact hgo hat rfl h
      · exact hgo hat rfl h
      · split at h
        · -- the providers left are raced
          obtain ⟨part, hpart, hsteps⟩ := race_steps h
          refine ⟨1, _, part, ?_, hone, Or.inr (by simpa using hsteps),
            fun _ => Or.inr (by simpa using hsteps)⟩
          rw [hpart, List.append_assoc]
        · exact hgo hat rfl h
      · exact hgo hat rfl h
      · cases h; exact hend _ rfl

end Call

/-! ## The whole call -/

section Whole

variable {w : World} {order backups : List Provider}

/-- A trace from its parts. -/
theorem DispatchTrace.of_parts {k : ℕ} {turns raced behind : List Event} {check : Stage}
    (hturns : Loops w .main (order.take k) turns)
    (hraced : raced = [] ∨ RaceSteps w (order.drop k) raced)
    (hbehind : behind = [] ∨ (∃ j, Loops w .backup (backups.take j) behind) ∨
      RaceSteps w backups behind)
    (hpart : Part w check backups behind)
    (hall : behind ≠ [] → order.length ≤ k ∨ RaceSteps w (order.drop k) raced) :
    DispatchTrace w order backups (turns ++ (raced ++ behind)) := by
  have hfirst : Part w .main (order.take k) turns :=
    hturns.part (List.Sublist.refl _) rfl (by decide)
  have hsecond : Part w .probe (order.drop k) raced := by
    rcases hraced with rfl | h
    · exact Part.nil
    · exact h.part
  have hsplit : order ++ backups = order.take k ++ (order.drop k ++ backups) := by
    rw [← List.append_assoc, List.take_append_drop]
  refine ⟨⟨k, turns, raced, behind, rfl, hturns, hraced, hbehind⟩, ?_, ?_, ?_, ?_, ?_⟩
  · rw [hsplit, List.filterMap_append, List.filterMap_append]
    exact hfirst.payload.append (hsecond.payload.append hpart.payload)
  · rw [hsplit, List.filterMap_append, List.filterMap_append]
    exact hfirst.probe.append (hsecond.probe.append hpart.probe)
  · intro g stage t ht
    simp only [List.mem_append] at ht
    rcases ht with ht | ht | ht
    · obtain ⟨hc, hq⟩ := hfirst.tried g stage t ht
      rw [hc, hq]
    · obtain ⟨hc, hq⟩ := hsecond.tried g stage t ht
      rw [hc, hq]
    · obtain ⟨hc, hq⟩ := hpart.tried g stage t ht
      rw [hc, hq]
  · -- two events of one provider are in one part of the trace
    intro hnodup g e he stage t ht
    rw [hsplit, List.nodup_append, List.nodup_append] at hnodup
    obtain ⟨-, ⟨-, -, hdrop⟩, htake⟩ := hnodup
    simp only [List.mem_append] at he ht htake
    rcases he with he | he | he <;> rcases ht with ht | ht | ht
    · exact hfirst.skipped_untouched he stage t ht
    · exact htake g (hfirst.provider _ he) g (Or.inl (hsecond.provider _ ht)) rfl
    · exact htake g (hfirst.provider _ he) g (Or.inr (hpart.provider _ ht)) rfl
    · exact htake g (hfirst.provider _ ht) g (Or.inl (hsecond.provider _ he)) rfl
    · exact hsecond.skipped_untouched he stage t ht
    · exact hdrop g (hsecond.provider _ he) g (hpart.provider _ ht) rfl
    · exact htake g (hfirst.provider _ ht) g (Or.inr (hpart.provider _ he)) rfl
    · exact hdrop g (hsecond.provider _ ht) g (hpart.provider _ he) rfl
    · exact hpart.skipped_untouched he stage t ht
  · refine ⟨turns ++ raced, behind, (List.append_assoc ..).symm, fun e he => ?_, hpart.provider,
      fun hne g hg => ?_⟩
    · rcases List.mem_append.mp he with he | he
      · exact List.mem_of_mem_take (hfirst.provider e he)
      · exact List.mem_of_mem_drop (hsecond.provider e he)
    · have hturn : g ∈ order.take k → ∃ e ∈ turns ++ raced, e.provider = g := by
        intro hmem
        rw [← hturns.provider] at hmem
        obtain ⟨e, he, hp⟩ := List.mem_map.mp hmem
        exact ⟨e, List.mem_append_left _ he, hp⟩
      rcases hall hne with hk | hrace
      · exact hturn (by rwa [List.take_of_length_le hk])
      · rw [← List.take_append_drop k order, List.mem_append] at hg
        rcases hg with hg | hg
        · exact hturn hg
        · obtain ⟨e, he, hp⟩ := hrace.covers g hg
          exact ⟨e, List.mem_append_right _ he, hp⟩

/-- **The trace of every call.** Whatever the attempts come to, the mains
have their turns in cyclic order from the start, each place of the two
lists gets the payload at most once and at most one probe, nobody over the
quota is contacted, and no backup is before every main has been tried,
probed or skipped. -/
theorem sendFrom_traced {cmd : Command} {statPayload : Option Bytes} {mains : List Provider}
    {start : ℕ} {resp : Response} {log : List Event}
    (h : sendFrom w cmd statPayload mains start backups = some (resp, log)) :
    DispatchTrace w (mains.rotate start) backups log := by
  have hend : ∀ {k : ℕ} {turns raced : List Event},
      Loops w .main ((mains.rotate start).take k) turns →
      (raced = [] ∨ RaceSteps w ((mains.rotate start).drop k) raced) →
      DispatchTrace w (mains.rotate start) backups (turns ++ raced) := by
    intro k turns raced hturns hraced
    have hnone : Part w .backup backups [] := Part.nil
    have htrace := DispatchTrace.of_parts hturns hraced (Or.inl rfl) hnone fun hne => absurd rfl hne
    rwa [List.append_nil] at htrace
  unfold sendFrom at h
  split_ifs at h with hmains
  · cases h
    exact hend (k := 0) .nil (Or.inl rfl)
  · obtain ⟨flow, hflow, h⟩ := Option.bind_eq_some_iff.mp h
    obtain ⟨k, turns, raced, hlog, hturns, hraced, hall⟩ := mainLoop_steps hflow
    rw [List.nil_append] at hlog
    rcases flow with ⟨resp', log'⟩ | s
    · -- delivered by a main, or cancelled
      cases h
      rw [show log = turns ++ raced from hlog]
      exact hend hturns hraced
    · obtain ⟨flow', hflow', h⟩ := Option.map_eq_some_iff.mp h
      have hlog' : log = flow'.log := by
        rcases flow' with ⟨resp', log'⟩ | s' <;> cases h <;> rfl
      have hcover : ∀ behind : List Event, behind ≠ [] →
          (mains.rotate start).length ≤ k ∨ RaceSteps w ((mains.rotate start).drop k) raced :=
        fun _ _ => hall ⟨s, rfl⟩
      have hloop : backupLoop w cmd backups s = some flow' →
          DispatchTrace w (mains.rotate start) backups log := by
        intro hb
        obtain ⟨j, part, hpart, hloops⟩ := backupLoop_loops hb
        rw [hlog', hpart, show s.log = turns ++ raced from hlog, List.append_assoc]
        exact DispatchTrace.of_parts hturns hraced (Or.inr (Or.inl ⟨j, hloops⟩))
          (hloops.part (List.take_sublist j backups) rfl (by decide)) (hcover _)
      split at hflow'
      · split_ifs at hflow' with hpost
        · obtain ⟨part, hpart, hsteps⟩ := race_steps hflow'
          rw [hlog', hpart, show s.log = turns ++ raced from hlog, List.append_assoc]
          exact DispatchTrace.of_parts hturns hraced (Or.inr (Or.inr hsteps)) hsteps.part (hcover _)
        · exact hloop hflow'
      · exact hloop hflow'

end Whole

/-- A provider known by its name alone. -/
def named (id : String) : Provider := ⟨id, id, false⟩

/-- The second provider is over its quota, the fourth answers 502 once it
has been found to have the article, and the backup serves it. -/
def tracedWorld : World where
  quota := fun stage g => stage == .main && g.id == "second"
  turn := fun stage g =>
    ⟨.granted, [.answer (if g.id = "backup" then 222 else if g.id ≠ "fourth" then 430
      else if stage = .probe then 223 else 502) []], false⟩
  cancelCause := none

/-- A call that takes all three ways: turns, a race, and a backup. -/
theorem sendFrom_traced_raced :
    ∃ resp log, sendFrom tracedWorld ⟨ascii "BODY <a>\r\n", false, false⟩
        (some (ascii "STAT <a>\r\n")) (["first", "second", "third", "fourth"].map named) 1
        [named "backup"] = some (resp, log) ∧
      log.map (fun e => e.provider.id) =
        ["second", "third", "fourth", "first", "fourth", "backup"] ∧
      DispatchTrace tracedWorld ((["first", "second", "third", "fourth"].map named).rotate 1)
        [named "backup"] log := by
  have hrun : (sendFrom tracedWorld ⟨ascii "BODY <a>\r\n", false, false⟩
      (some (ascii "STAT <a>\r\n")) (["first", "second", "third", "fourth"].map named) 1
      [named "backup"]).map (fun r => r.2.map fun e => e.provider.id) =
        some ["second", "third", "fourth", "first", "fourth", "backup"] := by
    decide
  obtain ⟨⟨resp, log⟩, h, hids⟩ := Option.map_eq_some_iff.mp hrun
  exact ⟨resp, log, h, hids, sendFrom_traced h⟩

end Dispatch

end NntpPool
