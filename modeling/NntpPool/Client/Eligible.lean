import NntpPool.Client.Model.Requests
import NntpPool.Dispatch.Trace
import NntpPool.Post.Whole
import NntpPool.Quota.Model.Quota
/-!
# Client — who asks for the quota

A request is `Guarded` if it is handed to a provider only behind a check
of its quota that returned `false`. The three loops of `doSendWithRetry`
and `raceCandidates` check before they come to a provider, so a request
to the pool is guarded, whatever the environment does and wherever the
call stands. The calls confined to one provider and `PostYenc` check
nothing: their requests are guarded only where no channel takes them
(`guarded_iff`).
-/

namespace NntpPool

namespace Client

open Dispatch (Provider Command World Stage Turn TurnResult)

variable {e : Env} {cmd : Command} {g : Provider} {seen seen' as bs : List Act}

/-- **The requests are handed over behind their checks**; `seen` is what
was done before. -/
def Guarded (seen acts : List Act) : Prop :=
  ∀ front g back, acts = front ++ .handed g :: back → .checked g false ∈ seen ++ front

theorem guarded_nil : Guarded seen [] := by
  intro front g back h
  simp at h

theorem Guarded.mono (h : Guarded seen as) (hsub : seen ⊆ seen') : Guarded seen' as := by
  intro front g back heq
  rcases List.mem_append.mp (h front g back heq) with hs | hf
  · exact List.mem_append_left _ (hsub hs)
  · exact List.mem_append_right _ hf

theorem Guarded.append (ha : Guarded seen as) (hb : Guarded (seen ++ as) bs) :
    Guarded seen (as ++ bs) := by
  intro front g back heq
  -- the request is handed over within the first part, or behind it
  rcases List.append_eq_append_iff.mp heq with ⟨c, hfront, hc⟩ | ⟨c, has, hc⟩
  · rw [hfront, ← List.append_assoc]
    exact hb c g back hc
  · cases c with
    | nil =>
      rw [List.append_nil] at has
      subst has
      simpa using hb [] g back hc.symm
    | cons x c =>
      obtain ⟨rfl, -⟩ := List.cons.inj hc
      exact ha front g c has

/-- A check is no request. -/
theorem Guarded.check {exceeded : Bool} (h : Guarded (seen ++ [.checked g exceeded]) as) :
    Guarded seen (.checked g exceeded :: as) := by
  suffices hone : Guarded seen [.checked g exceeded] from hone.append h
  intro front g' back heq
  cases front with
  | nil => simp at heq
  | cons x front => simp at heq

theorem mem_turnActs {t : Turn} {taken : ℕ → Bool} {a : Act}
    (h : a ∈ turnActs g cmd t taken) : a = .handed g := by
  unfold turnActs at h
  split at h
  · cases h
  · obtain ⟨-, -, rfl⟩ := List.mem_map.mp h
    rfl

/-- **A turn behind a check that returned `false`.** -/
theorem Guarded.turn {stage : Stage} {behind : TurnResult → List Act}
    (hseen : .checked g false ∈ seen) (hbehind : ∀ t, Guarded seen (behind t)) :
    Guarded seen (e.turnActs stage g cmd behind) := by
  refine Guarded.append ?_ ?_
  · intro front g' back heq
    have hmem : Act.handed g' ∈ turnActs g cmd (e.turn stage g) (e.taken stage g) := by
      rw [heq]
      exact List.mem_append_right _ List.mem_cons_self
    obtain rfl := Act.handed.inj (mem_turnActs hmem)
    exact List.mem_append_left _ hseen
  · cases Dispatch.tryGroupResilient g cmd (e.turn stage g) with
    | none => exact guarded_nil
    | some t => exact (hbehind t).mono (List.subset_append_left _ _)

/-! ## The pool -/

theorem guarded_winnerActs {ps : List Provider} (h : ∀ g ∈ ps, .checked g false ∈ seen) :
    Guarded seen (winnerActs e cmd ps) := by
  induction ps with
  | nil => exact guarded_nil
  | cons g ps ih =>
    obtain ⟨hg, hps⟩ := List.forall_mem_cons.mp h
    refine Guarded.turn hg fun t => ?_
    split_ifs
    · exact ih hps
    · exact guarded_nil

/-- Providers that all were found within their quotas, one after the
other. -/
theorem guarded_probes {stage : Stage} {ps : List Provider}
    (h : ∀ g ∈ ps, .checked g false ∈ seen) :
    Guarded seen (ps.flatMap fun g => e.turnActs stage g cmd fun _ => []) := by
  induction ps with
  | nil => exact guarded_nil
  | cons g ps ih =>
    obtain ⟨hg, hps⟩ := List.forall_mem_cons.mp h
    exact (Guarded.turn hg fun _ => guarded_nil).append
      ((ih hps).mono (List.subset_append_left _ _))

/-- The winners are among those that were probed. -/
theorem mem_winners {w : World} {stat : Bytes} {live : List Provider}
    {results : List (Provider × TurnResult)}
    (h : live.mapM (Dispatch.probe w stat) = some results) :
    ∀ g ∈ (results.filter Dispatch.isWinner).map Prod.fst, g ∈ live := by
  intro g hg
  obtain ⟨r, hr, rfl⟩ := List.mem_map.mp hg
  have hfst := (Dispatch.mapM_probe h).1
  rw [← hfst]
  exact List.mem_map_of_mem (List.mem_of_mem_filter hr)

/-- **A race** checks all its candidates first. -/
theorem guarded_raceActs (e : Env) (cmd : Command) (stat : Bytes) (ps : List Provider) :
    Guarded seen (raceActs e cmd stat ps) := by
  refine Guarded.append ?_ ?_
  · intro front g back heq
    have hmem : Act.handed g ∈ ps.map fun g => Act.checked g (e.quota .probe g) := by
      rw [heq]
      exact List.mem_append_right _ List.mem_cons_self
    obtain ⟨x, -, hx⟩ := List.mem_map.mp hmem
    cases hx
  · have hlive : ∀ g ∈ ps.filter (fun g => !e.quota .probe g),
        Act.checked g false ∈ seen ++ ps.map fun g => Act.checked g (e.quota .probe g) := by
      intro g hg
      obtain ⟨hmem, hq⟩ := List.mem_filter.mp hg
      have hq : e.quota .probe g = false := by simpa using hq
      exact List.mem_append_right _ (List.mem_map.mpr ⟨g, hmem, by rw [hq]⟩)
    split
    · exact guarded_nil
    · next g hone =>
      exact Guarded.turn (hlive g (by rw [hone]; exact List.mem_singleton_self g))
        fun _ => guarded_nil
    · refine (guarded_probes hlive).append ?_
      split
      · exact guarded_nil
      · next results hres =>
        split_ifs
        · exact guarded_nil
        · exact guarded_winnerActs fun g hg =>
            List.mem_append_left _ (hlive g (mem_winners hres g hg))

/-- A loop comes to a provider behind its check. -/
theorem Guarded.visit {stage : Stage} {exceeded : Bool} {rest : List Act}
    {behind : TurnResult → List Act} (hrest : ∀ seen, Guarded seen rest)
    (hbehind : ∀ seen t, Guarded seen (behind t)) :
    Guarded seen (.checked g exceeded ::
      if exceeded then rest else e.turnActs stage g cmd behind) := by
  refine Guarded.check ?_
  cases exceeded with
  | true => exact hrest _
  | false => exact Guarded.turn (by simp) fun t => hbehind _ t

theorem guarded_mainActs (e : Env) (cmd : Command) (stat : Option Bytes) (ps : List Provider) :
    Guarded seen (mainActs e cmd stat ps) := by
  induction ps generalizing seen with
  | nil => exact guarded_nil
  | cons g ps ih =>
    refine Guarded.visit (fun _ => ih) fun seen t => ?_
    split_ifs
    · exact guarded_raceActs e cmd _ ps
    · exact ih
    · exact guarded_nil

theorem guarded_backupActs (e : Env) (cmd : Command) (ps : List Provider) :
    Guarded seen (backupActs e cmd ps) := by
  induction ps generalizing seen with
  | nil => exact guarded_nil
  | cons g ps ih =>
    refine Guarded.visit (fun _ => ih) fun seen t => ?_
    split_ifs
    · exact ih
    · exact guarded_nil

/-- **A request to the pool is guarded.** -/
theorem guarded_sendActs (e : Env) (cmd : Command) (stat : Option Bytes) (mains : List Provider)
    (start : ℕ) (backups : List Provider) :
    Guarded seen (sendActs e cmd stat mains start backups) := by
  refine (guarded_mainActs e cmd stat _).append ?_
  split_ifs
  · exact guarded_nil
  · split
    · split
      · split_ifs
        · exact guarded_raceActs e cmd _ backups
        · exact guarded_backupActs e cmd backups
      · exact guarded_backupActs e cmd backups
    · exact guarded_nil

/-! ## The log of a call -/

section Log

variable {ps : List Provider} {log : List Dispatch.Event} {s : Dispatch.Sending}
variable {flow : Dispatch.Flow}

/-- The log tells of a turn of the provider. -/
def TriedIn (g : Provider) (log : List Dispatch.Event) : Prop := ∃ stage t, .tried g stage t ∈ log

theorem TriedIn.append (h : TriedIn g log) (log' : List Dispatch.Event) :
    TriedIn g (log ++ log') := by
  obtain ⟨stage, t, ht⟩ := h
  exact ⟨stage, t, List.mem_append_left _ ht⟩

/-- **A turn that is over is in the log.** What was tried before, in it or
behind it is tried when the log has come to it, or behind it. -/
theorem tried_of_turn {stage : Stage} {g' : Provider} {t : TurnResult}
    {behind : TurnResult → List Act}
    (ht : Dispatch.tryGroupResilient g' cmd (e.turn stage g') = some t)
    (h : TriedIn g log ∨ .handed g ∈ e.turnActs stage g' cmd behind) :
    TriedIn g (log ++ [.tried g' stage t]) ∨ .handed g ∈ behind t := by
  rcases h with hlog | hmem
  · exact .inl (hlog.append _)
  · rw [Env.turnActs, ht, Option.elim_some] at hmem
    rcases List.mem_append.mp hmem with hturn | hbehind
    · obtain rfl := Act.handed.inj (mem_turnActs hturn)
      exact .inl ⟨stage, t, List.mem_append_right _ List.mem_cons_self⟩
    · exact .inr hbehind

theorem tried_of_winnerActs {lastErr : Option GoError} {r : Dispatch.RaceEnd × List Dispatch.Event}
    (h : Dispatch.raceWinners e.toWorld cmd ps log lastErr = some r)
    (hg : TriedIn g log ∨ .handed g ∈ winnerActs e cmd ps) : TriedIn g r.2 := by
  induction ps generalizing log lastErr with
  | nil =>
    obtain rfl := Option.some.inj h
    simpa [winnerActs] using hg
  | cons g' ps ih =>
    obtain ⟨t, ht, h⟩ := Option.bind_eq_some_iff.mp h
    have hnext := tried_of_turn ht hg
    simp only [goesOn] at hnext
    cases hv : Dispatch.verdict cmd.hasWriter t.toResult <;>
      simp only [hv, Dispatch.Verdict.goesOn, Bool.false_eq_true, if_false, if_true,
        List.not_mem_nil, or_false, bne_iff_ne, ne_eq, reduceCtorEq, not_false_eq_true] at hnext h
    all_goals first | exact ih h hnext | (obtain rfl := Option.some.inj h; exact hnext)

theorem tried_of_backupActs
    (h : Dispatch.backupLoop e.toWorld cmd ps s = some flow)
    (hg : TriedIn g s.log ∨ .handed g ∈ backupActs e cmd ps) : TriedIn g flow.log := by
  induction ps generalizing s with
  | nil =>
    obtain rfl := Option.some.inj h
    simpa [backupActs, Dispatch.Flow.log] using hg
  | cons g' ps ih =>
    simp only [backupActs, List.mem_cons, reduceCtorEq, false_or] at hg
    unfold Dispatch.backupLoop at h
    split_ifs at h hg
    · exact ih h (hg.imp_left (·.append _))
    · obtain ⟨t, ht, h⟩ := Option.bind_eq_some_iff.mp h
      have hnext := tried_of_turn ht hg
      simp only [goesOn] at hnext
      cases hv : Dispatch.verdict cmd.hasWriter t.toResult <;>
        simp only [hv, Dispatch.Verdict.goesOn, Bool.false_eq_true, if_false, if_true,
          List.not_mem_nil, or_false, bne_iff_ne, ne_eq, reduceCtorEq, not_false_eq_true] at hnext h
      all_goals first | exact ih h hnext | (obtain rfl := Option.some.inj h; exact hnext)

/-- Every live candidate of a race is probed. -/
theorem tried_of_probes {stat : Bytes} {results : List (Provider × TurnResult)}
    (h : ps.mapM (Dispatch.probe e.toWorld stat) = some results)
    (hg : .handed g ∈ ps.flatMap fun g =>
      e.turnActs .probe g (Dispatch.statCommand stat) fun _ => []) :
    TriedIn g (log ++ results.map Dispatch.probed) := by
  obtain ⟨g', hg', hmem⟩ := List.mem_flatMap.mp hg
  have heq : g = g' := by
    rcases List.mem_append.mp hmem with hturn | hbehind
    · exact Act.handed.inj (mem_turnActs hturn)
    · cases ht : Dispatch.tryGroupResilient g' (Dispatch.statCommand stat) (e.turn .probe g') <;>
        simp [ht] at hbehind
  subst heq
  rw [← (Dispatch.mapM_probe h).1] at hg'
  obtain ⟨r, hr, rfl⟩ := List.mem_map.mp hg'
  exact ⟨.probe, r.2, List.mem_append_right _ (List.mem_map_of_mem hr)⟩

theorem tried_of_raceActs {stat : Bytes} {r : Dispatch.RaceEnd × List Dispatch.Event}
    (h : Dispatch.raceCandidates e.toWorld cmd stat ps log = some r)
    (hg : TriedIn g log ∨ .handed g ∈ raceActs e cmd stat ps) : TriedIn g r.2 := by
  have hg : TriedIn g (log ++ (ps.filter (e.quota .probe)).map fun g => Dispatch.skip g cmd) ∨ _ :=
    hg.imp (·.append _) fun hmem => (List.mem_append.mp hmem).resolve_left (by simp)
  unfold Dispatch.raceCandidates at h
  dsimp only at h hg
  rcases hlive : ps.filter (fun g => !e.quota .probe g) with _ | ⟨g₁, _ | ⟨g₂, rest⟩⟩
  · simp only [hlive, List.not_mem_nil, or_false] at h hg
    obtain rfl := Option.some.inj h
    exact hg
  · simp only [hlive] at h hg
    obtain ⟨t, ht, rfl⟩ := Option.map_eq_some_iff.mp h
    have hnext := tried_of_turn ht hg
    simp only [List.not_mem_nil, or_false] at hnext
    split <;> exact hnext
  · simp only [hlive] at h hg
    obtain ⟨results, hres, h⟩ := Option.bind_eq_some_iff.mp h
    simp only [hres, List.mem_append] at hg
    -- what is handed over in the probes is in the log before the winners
    have hnext := hg.imp_left (·.append (results.map Dispatch.probed))
    rw [← or_assoc, or_iff_left_of_imp (tried_of_probes hres)] at hnext
    split_ifs at h hnext with hcancelled
    · obtain rfl := Option.some.inj h
      simpa using hnext
    · exact tried_of_winnerActs h hnext

theorem tried_of_race {stat : Bytes} (h : Dispatch.race e.toWorld cmd stat ps s = some flow)
    (hg : TriedIn g s.log ∨ .handed g ∈ raceActs e cmd stat ps) : TriedIn g flow.log := by
  obtain ⟨r, hr, rfl⟩ := Option.map_eq_some_iff.mp h
  have htried := tried_of_raceActs hr hg
  split <;> exact htried

theorem tried_of_mainActs {stat : Option Bytes}
    (h : Dispatch.mainLoop e.toWorld cmd stat ps s = some flow)
    (hg : TriedIn g s.log ∨ .handed g ∈ mainActs e cmd stat ps) : TriedIn g flow.log := by
  induction ps generalizing s with
  | nil =>
    obtain rfl := Option.some.inj h
    simpa [mainActs, Dispatch.Flow.log] using hg
  | cons g' ps ih =>
    simp only [mainActs, List.mem_cons, reduceCtorEq, false_or] at hg
    unfold Dispatch.mainLoop at h
    split_ifs at h hg
    · exact ih h (hg.imp_left (·.append _))
    · obtain ⟨t, ht, h⟩ := Option.bind_eq_some_iff.mp h
      have hnext := tried_of_turn ht hg
      simp only [goesOn] at hnext
      cases hv : Dispatch.verdict cmd.hasWriter t.toResult with
      | absent =>
        simp only [hv, Dispatch.Verdict.goesOn, true_and, if_true] at hnext h
        cases stat with
        | none => exact ih h hnext
        | some stat => exact tried_of_race h hnext
      | _ =>
        simp only [hv, Dispatch.Verdict.goesOn, Bool.false_eq_true, if_false, if_true, false_and,
          List.not_mem_nil, or_false, bne_iff_ne, ne_eq, reduceCtorEq, not_false_eq_true] at hnext h
        first | exact ih h hnext | (obtain rfl := Option.some.inj h; exact hnext)

/-- **The acts are those of the call**: the log of a call that returns
tells of a turn of every provider it was handed to. -/
theorem tried_of_sendActs {stat : Option Bytes} {mains backups : List Provider} {start : ℕ}
    {resp : Dispatch.Response}
    (h : Dispatch.sendFrom e.toWorld cmd stat mains start backups = some (resp, log))
    (hg : .handed g ∈ sendActs e cmd stat mains start backups) : TriedIn g log := by
  unfold Dispatch.sendFrom at h
  unfold sendActs at hg
  split_ifs at h hg with hmains
  · subst hmains
    simp [mainActs] at hg
  · obtain ⟨flow, hflow, h⟩ := Option.bind_eq_some_iff.mp h
    simp only [hflow] at hg
    -- what is handed over in the loop over the mains, and what behind it
    have hnext := (List.mem_append.mp hg).imp_left fun hmain =>
      tried_of_mainActs hflow (.inr hmain)
    cases flow with
    | delivered resp' log' =>
      cases h
      simpa [Dispatch.Flow.log] using hnext
    | goOn s =>
      obtain ⟨flow, hbehind, h⟩ := Option.map_eq_some_iff.mp h
      have htried : TriedIn g flow.log := by
        cases stat with
        | none => exact tried_of_backupActs hbehind hnext
        | some stat =>
          dsimp only at hbehind hnext
          split_ifs at hbehind hnext
          · exact tried_of_race hbehind hnext
          · exact tried_of_backupActs hbehind hnext
      cases flow <;> cases h <;> exact htried

end Log

/-! ## One provider -/

/-- Requests that are never checked. -/
theorem guarded_unchecked_iff (h : ∀ a ∈ as, ∃ g, a = .handed g) : Guarded [] as ↔ as = [] := by
  constructor
  · intro hg
    cases as with
    | nil => rfl
    | cons a as =>
      obtain ⟨g, rfl⟩ := h a List.mem_cons_self
      simpa using hg [] g as rfl
  · rintro rfl
    exact guarded_nil

/-- No channel takes the first request of the turn: there is no lease, or
a context ends before. -/
def Untaken (t : Turn) (taken : ℕ → Bool) : Prop :=
  match t.lease, t.attempts with
  | .refused _, _ => True
  | .granted, [] => taken 0 = false
  | .granted, a :: _ => handsOver (taken 0) a.fin = false

/-- The channels that take the requests of a turn. -/
theorem turnActs_granted {t : Turn} {taken : ℕ → Bool} (h : t.lease = .granted) :
    turnActs g cmd t taken = [] ↔
      let n := Dispatch.retries g cmd t.delayCancelled {} (t.attempts.map (·.toTry cmd))
      (∀ x ∈ n.state.made.zipIdx, handsOver (taken x.2) x.1.a.fin = false) ∧
        ∀ s, n = .again s → taken s.made.length = false := by
  simp only [turnActs, h, List.map_eq_nil_iff, List.filter_eq_nil_iff, List.mem_append,
    List.mem_map, id, Bool.not_eq_true]
  constructor
  · intro hall
    refine ⟨fun x hx => hall _ (.inl ⟨x, hx, rfl⟩), fun s hs => hall _ (.inr ?_)⟩
    rw [hs]
    exact List.mem_singleton_self _
  · rintro ⟨hended, hwithin⟩ b (⟨x, hx, rfl⟩ | hb)
    · exact hended x hx
    · split at hb
      · next s hs => exact List.mem_singleton.mp hb ▸ hwithin s hs
      · cases hb

/-- **A turn hands nothing over** exactly if no channel takes its first
request: behind an answer there may be more, behind a context that ends
there are none. -/
theorem turnActs_eq_nil_iff {t : Turn} {taken : ℕ → Bool} :
    turnActs g cmd t taken = [] ↔ Untaken t taken := by
  unfold Untaken
  cases hlease : t.lease with
  | refused ctxErr => simp [turnActs, hlease]
  | granted =>
    rw [turnActs_granted hlease]
    cases hattempts : t.attempts with
    | nil => simp [Dispatch.retries, Dispatch.Next.state]
    | cons a as =>
      constructor
      · rintro ⟨hended, -⟩
        obtain ⟨rest, hmade⟩ := Dispatch.retries_made_cons g cmd t.delayCancelled {} (a.toTry cmd)
          (as.map (·.toTry cmd))
        refine hended (⟨false, a.toTry cmd⟩, 0) ?_
        rw [List.map_cons, ← hmade]
        simp
      · intro hfin
        -- a context has ended
        have hok : ((a.toTry cmd).result g cmd).ok = false := by
          cases ha : a.fin with
          | reply code status err => simp [handsOver, ha] at hfin
          | closed => simp [handsOver, ha] at hfin
          | _ => simp [Dispatch.Try.result, Dispatch.Attempt.toTry, ha]
        obtain ⟨r, hret⟩ := Dispatch.retry_returns g cmd t.delayCancelled {} hok
        simp only [List.map_cons, Dispatch.retries, hret]
        refine ⟨fun x hx => ?_, by simp⟩
        have hx : x = (⟨false, a.toTry cmd⟩, 0) := by
          simpa [Dispatch.Next.state, Dispatch.Retries.note] using hx
        rw [hx]
        exact hfin

theorem guarded_turnActs_iff {t : Turn} {taken : ℕ → Bool} :
    Guarded [] (turnActs g cmd t taken) ↔ Untaken t taken :=
  (guarded_unchecked_iff fun _ ha => ⟨g, mem_turnActs ha⟩).trans turnActs_eq_nil_iff

/-! ## A POST -/

section Post

variable {S : Post.Setup} {st st' : Post.State} {l : Post.Label} {ls : List Post.Label}

/-- The steps of an attempt keep its provider. -/
theorem provider_of_moves {broken : Bool} {left left' : Bytes} {a a' : Post.Attempt}
    {act : Post.Act} (h : Post.Moves broken left a act a' left') : a'.provider = a.provider := by
  cases h with
  | first reply deliver hp hl =>
    unfold Post.Attempt.heard
    split_ifs <;> rfl
  | _ => rfl

/-- The providers that have taken the POST. -/
def takers (st : Post.State) : List ℕ := st.attempts.map (·.provider)

/-- **Only an offer that is taken adds a provider.** -/
theorem takers_step (h : Post.step S st l = some st') :
    takers st' = takers st ++ if l = .offer then [(st.start + st.tried) % S.n] else [] := by
  cases l with
  | offer =>
    simp only [Post.step, Option.ite_none_right_eq_some, Option.some.injEq] at h
    obtain ⟨-, rfl⟩ := h
    simp [takers]
  | skip | giveUp e | exhausted =>
    simp only [Post.step, Option.ite_none_right_eq_some, Option.some.injEq] at h
    obtain ⟨-, rfl⟩ := h
    simp [takers]
  | receive =>
    simp only [Post.step, Option.ite_none_right_eq_some, Option.bind_eq_some_iff] at h
    obtain ⟨-, a, -, h⟩ := h
    cases hbuf : a.ch.buf with
    | some reply =>
      simp only [hbuf, Option.some.injEq] at h
      subst h
      unfold Post.State.received
      cases reply.err <;> simp [takers]
    | none =>
      simp only [hbuf, Option.ite_none_right_eq_some, Option.some.injEq] at h
      obtain ⟨-, rfl⟩ := h
      simp [takers]
  | run j act =>
    obtain ⟨a, hj, h⟩ := Option.bind_eq_some_iff.mp h
    obtain ⟨⟨a', left'⟩, hm, rfl⟩ := Option.map_eq_some_iff.mp h
    have hprovider := provider_of_moves (Post.Attempt.step_moves hm)
    obtain ⟨hlt, rfl⟩ := List.getElem?_eq_some_iff.mp hj
    have hself := List.set_getElem_self (by simpa [takers] using hlt : j < (takers st).length)
    simpa [takers, List.map_set, hprovider] using hself

/-- They are main providers, and there is one exactly if an offer was
taken. -/
theorem takers_exec (h : exec (Post.step S) st ls = some st')
    (hlt : ∀ i ∈ takers st, i < S.n) :
    (∀ i ∈ takers st', i < S.n) ∧ (takers st' = [] ↔ takers st = [] ∧ .offer ∉ ls) := by
  induction ls generalizing st with
  | nil =>
    obtain rfl := Option.some.inj h
    exact ⟨hlt, by simp⟩
  | cons l ls ih =>
    obtain ⟨m, hm, hrun⟩ := exec_cons.1 h
    have htakers := takers_step hm
    by_cases hl : l = .offer
    · subst hl
      have hpos : 0 < S.n := by
        simp only [Post.step, Option.ite_none_right_eq_some, Post.State.offers, Bool.and_eq_true,
          decide_eq_true_eq] at hm
        omega
      have hmod := Nat.mod_lt (st.start + st.tried) hpos
      rw [if_pos rfl] at htakers
      obtain ⟨hall, hnil⟩ := ih hrun (by
        rw [htakers]
        exact List.forall_mem_append.mpr ⟨hlt, by simpa using hmod⟩)
      exact ⟨hall, by simp [hnil, htakers]⟩
    · rw [if_neg hl, List.append_nil] at htakers
      obtain ⟨hall, hnil⟩ := ih hrun (htakers ▸ hlt)
      exact ⟨hall, by simp [hnil, htakers, Ne.symm hl]⟩

end Post

/-- No channel takes the POST, as far as it has come. -/
def Scene.Unposted (s : Scene) : Prop := ∀ st, s.posted = some st → .offer ∉ s.run

theorem guarded_post_iff (s : Scene) : Guarded [] (Request.post.acts s) ↔ s.Unposted := by
  have hall : ∀ a ∈ Request.post.acts s, ∃ g, a = .handed g := by
    intro a ha
    obtain ⟨x, -, hx⟩ := List.mem_filterMap.mp ha
    obtain ⟨g, -, rfl⟩ := Option.map_eq_some_iff.mp hx
    exact ⟨g, rfl⟩
  rw [guarded_unchecked_iff hall, Scene.Unposted]
  cases hposted : s.posted with
  | none => simp [Request.acts, hposted]
  | some st =>
    obtain ⟨s₀, hstart, hrun⟩ := Option.bind_eq_some_iff.mp hposted
    have hnone : takers s₀ = [] := by
      simp only [Post.start] at hstart
      split_ifs at hstart with hn
      · obtain rfl := Option.some.inj hstart
        rfl
      · obtain ⟨start, -, rfl⟩ := Option.map_eq_some_iff.mp hstart
        rfl
    obtain ⟨hlt, hnil⟩ := takers_exec hrun (by simp [hnone])
    have hacts : Request.post.acts s = [] ↔ takers st = [] := by
      simp only [Request.acts, hposted, Option.elim_some, List.filterMap_eq_nil_iff,
        Option.map_eq_none_iff, List.getElem?_eq_none_iff, takers, List.map_eq_nil_iff]
      constructor
      · intro hall
        refine List.eq_nil_iff_forall_not_mem.mpr fun a ha => ?_
        have hprovider : a.provider < s.mains.length := by
          simpa [Post.Setup.n] using hlt a.provider (List.mem_map_of_mem ha)
        exact Nat.not_le.mpr hprovider (hall a ha)
      · rintro h a ha
        simp [h] at ha
    simp [hacts, hnil, hnone]

/-! ## The calls -/

/-- The call goes to the pool: it names no provider, and is no POST. -/
def Entry.PoolWide : Entry → Prop
  | .send _ _ => True
  | .call c _ => c.target = none
  | .postYenc => False

/-- No channel takes the first request, at the provider of the request or,
for a POST, at any. -/
def Request.Untaken (s : Scene) : Request → Prop
  | .pool _ => False
  | .only _ _ => Client.Untaken s.turn s.taken
  | .post => s.Unposted

/-- A call that names no provider goes to the pool, and no other does. -/
theorem Entry.route {groups : List Provider} {c : Entry} {r : Request}
    (h : r ∈ c.requests groups) : c.PoolWide ↔ ∃ cmd, r = .pool cmd := by
  cases c with
  | send payload writer =>
    obtain rfl := List.mem_singleton.mp h
    exact iff_of_true trivial ⟨_, rfl⟩
  | call c asyncWriter =>
    obtain ⟨payload, -, hr⟩ := List.mem_filterMap.mp h
    cases htarget : c.target with
    | none =>
      simp only [htarget, Option.some.injEq] at hr
      exact iff_of_true htarget ⟨_, hr.symm⟩
    | some name =>
      simp only [htarget, Option.map_eq_some_iff] at hr
      obtain ⟨g, -, rfl⟩ := hr
      exact iff_of_false (by simp [Entry.PoolWide, htarget]) (by simp)
  | postYenc =>
    obtain rfl := List.mem_singleton.mp h
    exact iff_of_false id (by simp)

/-- **When a request is handed over behind a check alone**: for every
client and every call, whatever the environment does and wherever the
request stands, exactly if the call goes to the pool, or no channel takes
the request. -/
theorem guarded_iff (s : Scene) (c : Entry) {r : Request}
    (h : r ∈ c.requests (s.mains ++ s.backups)) :
    Guarded [] (r.acts s) ↔ c.PoolWide ∨ r.Untaken s := by
  rw [Entry.route h]
  cases r with
  | pool cmd => exact iff_of_true (guarded_sendActs _ _ _ _ _ _) (.inl ⟨cmd, rfl⟩)
  | only g cmd =>
    refine guarded_turnActs_iff.trans ?_
    simp [Request.Untaken]
  | post =>
    refine (guarded_post_iff s).trans ?_
    simp [Request.Untaken]

/-- A provider that has used up its quota of a hundred bytes. -/
def spent : Provider := ⟨"p", "p", false⟩

def spentQuota : Bool := (Quota.isQuotaExceeded { quotaBytes := 100 } ⟨100, true, 0⟩ 0 0).2

/-- It is the only one, it would answer every request, and its channels
take them all. -/
def spentScene : Scene where
  mains := [spent]
  backups := []
  statProbe := false
  start := 0
  env :=
    { quota := fun _ _ => spentQuota
      turn := fun _ _ => ⟨.granted, [.answer 223 []], false⟩
      cancelCause := none
      taken := fun _ _ _ => true }
  turn := ⟨.granted, [.answer 223 []], false⟩
  taken := fun _ => true
  available := fun _ => 1
  setup := { available := [], headers := [], encoded := [] }
  run := [.offer]

def statSpent : Command := ⟨statPayload (ascii "a"), false, false⟩

/-- A `Stat` that goes to the pool is checked, and not handed over. -/
theorem guarded_iff_stat :
    let r := Request.pool statSpent
    r ∈ (Entry.call (.stat (ascii "a")) false).requests (spentScene.mains ++ spentScene.backups) ∧
      r.acts spentScene = [.checked spent true] ∧ Guarded [] (r.acts spentScene) := by
  intro r
  have hr : r ∈ (Entry.call (.stat (ascii "a")) false).requests
      (spentScene.mains ++ spentScene.backups) := List.mem_singleton.mpr rfl
  exact ⟨hr, by decide, (guarded_iff spentScene _ hr).mpr (.inl rfl)⟩

/-- The request was handed over without a check. -/
theorem not_guarded_of_handed (h : as = [.handed g]) : ¬Guarded [] as := by
  intro hg
  simpa using hg [] g [] h

/-- **The same `STAT` for the provider by name is handed over**, unchecked,
and so is a POST. -/
theorem spent_provider_is_handed :
    spentQuota = true ∧
      (Entry.call (.statMany [ascii "a"] "p") false).requests [spent] = [.only spent statSpent] ∧
      ¬Guarded [] ((Request.only spent statSpent).acts spentScene) ∧
      ¬Guarded [] (Request.post.acts spentScene) :=
  ⟨by decide, rfl, not_guarded_of_handed (g := spent) (by decide),
    not_guarded_of_handed (g := spent) (by decide)⟩

end Client

end NntpPool
