import NntpPool.Dispatch.Course
/-!
# Dispatch — failover

Unless it is cancelled or has written into the caller's writer, a call
should end without a success only after it has turned to every provider.
It does, with one exception: when the race behind a main provider's
absence has a single candidate left, that candidate is asked without a
probe and any status it answers but an absence and 502 is delivered, so
that the backups are never reached (`failover_complete_iff`).
-/

namespace NntpPool

namespace Dispatch

/-- The response is no success: an error, or a status outside 200..399. -/
def NonSuccess (resp : Response) : Prop :=
  resp.err.isSome = true ∨ resp.statusCode < 200 ∨ 400 ≤ resp.statusCode

instance (resp : Response) : Decidable (NonSuccess resp) :=
  inferInstanceAs (Decidable (_ ∨ _))

/-- The call is cancelled in the event, or decoded bytes are committed to
the caller's writer. -/
def Event.disturbs (cmd : Command) : Event → Bool
  | .skipped _ _ => false
  | .tried _ _ t => t.cancelled || (cmd.hasWriter && t.resp.committed)

/-- **Failover is complete**: without a success, the call has turned to
every provider. -/
def FailoverComplete (c : Send) (resp : Response) (log : List Event) : Prop :=
  NonSuccess resp → ∀ p ∈ c.mains ++ c.backups, p ∈ log.map Event.provider

/-- **The shortcut**: a main provider is asked as the only candidate of a
race, and answers neither a success nor an absence nor 502. -/
def Shortcut (c : Send) (log : List Event) : Prop :=
  ∃ g ∈ c.mains, ∃ t, .tried g .single t ∈ log ∧ verdict c.cmd.hasWriter t.toResult = .odd

/-- The event takes it. -/
def Event.isShortcut (c : Send) : Event → Bool
  | .tried g .single t => decide (g ∈ c.mains) && verdict c.cmd.hasWriter t.toResult == .odd
  | _ => false

theorem any_isShortcut {c : Send} {log : List Event} :
    log.any (Event.isShortcut c) = true ↔ Shortcut c log := by
  rw [List.any_eq_true]
  constructor
  · rintro ⟨e, he, hs⟩
    unfold Event.isShortcut at hs
    split at hs
    · next g t =>
      simp only [Bool.and_eq_true, decide_eq_true_eq, beq_iff_eq] at hs
      exact ⟨g, hs.1, t, he, hs.2⟩
    · cases hs
  · rintro ⟨g, hg, t, he, hv⟩
    exact ⟨_, he, by simp [Event.isShortcut, hg, hv]⟩

instance (c : Send) (log : List Event) : Decidable (Shortcut c log) :=
  decidable_of_iff _ any_isShortcut

variable {cmd : Command} {ps : List Provider} {log : List Event}

/-- An event the call goes on from does not take the shortcut. -/
theorem Passes.ne_odd {g : Provider} {t : TurnResult} (h : Passes cmd (.tried g .single t)) :
    verdict cmd.hasWriter t.toResult ≠ .odd := by
  cases h with
  | turn _ _ hv =>
    intro ho
    rw [ho] at hv
    cases hv

theorem not_shortcut_of_passes {c : Send} (h : ∀ e ∈ log, Passes c.cmd e) :
    ¬Shortcut c log := by
  rintro ⟨g, _, t, hmem, hv⟩
  exact (h _ hmem).ne_odd hv

/-- Nor does a last event whose verdict is another. -/
theorem not_shortcut_concat {c : Send} {g : Provider} {stage : Stage} {t : TurnResult}
    (h : ∀ e ∈ log, Passes c.cmd e) (hv : verdict c.cmd.hasWriter t.toResult ≠ .odd) :
    ¬Shortcut c (log ++ [.tried g stage t]) := by
  rintro ⟨g', _, t', hmem, hv'⟩
  rcases List.mem_append.mp hmem with hmem | hmem
  · exact (h _ hmem).ne_odd hv'
  · cases List.mem_singleton.mp hmem
    exact hv hv'

theorem disturbs_of_stopped (h : Stopped cmd [] log) : ∃ e ∈ log, e.disturbs cmd = true := by
  cases h with
  | @turn front g stage t _ _ _ hc => exact ⟨.tried g stage t, by simp, by simp [Event.disturbs, hc]⟩
  | probes _ _ _ hc =>
    obtain ⟨r, hr, hc⟩ := hc
    exact ⟨probed r, List.mem_append_right _ (List.mem_map_of_mem hr),
      by simp [Event.disturbs, probed, hc]⟩

/-- **What an undisturbed call delivers before the providers are
exhausted**: a success, or the answer of the single candidate of a race
over the providers `ps`. -/
theorem Delivered.undisturbed {c : Send} {resp : Response} {qs : List Provider}
    {front : List Event} (hfront : Course c.cmd qs front)
    (h : Delivered c.cmd ps front resp log) (hd : ∀ e ∈ log, e.disturbs c.cmd = false) :
    (¬NonSuccess resp ∧ ¬Shortcut c log) ∨
      NonSuccess resp ∧ (∃ g ∈ ps, ∃ t, .tried g .single t ∈ log ∧
        verdict c.cmd.hasWriter t.toResult = .odd ∧
        ∀ g' t', .tried g' .single t' ∈ log → verdict c.cmd.hasWriter t'.toResult = .odd → g' = g) ∧
        ∀ p, p ∈ log.map Event.provider ↔ p ∈ qs ++ ps := by
  cases h with
  | @mk new g stage t hnew hstage ht hv =>
    have hpass : ∀ e ∈ front ++ new, Passes c.cmd e :=
      List.forall_mem_append.mpr ⟨hfront.passes, hnew⟩
    cases hv with
    | committed hv =>
      -- the response is committed to the caller's writer
      have hlast := hd (.tried g stage t) (by simp)
      obtain ⟨_, _, hcom⟩ := Verdict.Says.of_eq hv
      simp [Event.disturbs, hasWriter_of_committed hv, hcom] at hlast
    | success hv =>
      obtain ⟨_, herr, hlo, hhi⟩ := Verdict.Says.of_eq hv
      refine .inl ⟨?_, not_shortcut_concat hpass (by rw [hv]; nofun)⟩
      simp only [NonSuccess, deliver, herr, Option.map_none, Option.isSome_none,
        Bool.false_eq_true, false_or]
      omega
    | shortcut hv hst hall =>
      subst hst
      obtain ⟨_, herr, hcode⟩ := Verdict.Says.of_eq hv
      refine .inr ⟨.inr hcode, ⟨g, (hall g).mpr (.inr rfl), t, by simp, hv, ?_⟩, fun p => ?_⟩
      · intro g' t' hmem hv'
        rcases List.mem_append.mp hmem with hmem | hmem
        · exact absurd hv' (hpass _ hmem).ne_odd
        · cases List.mem_singleton.mp hmem
          rfl
      · rw [List.map_append, List.map_append, List.mem_append, List.mem_append, List.mem_append,
          hfront.mem_iff, hall, List.map_singleton, List.mem_singleton, or_assoc]
        rfl

theorem mem_order {c : Send} {p : Provider} : p ∈ c.order ↔ p ∈ c.mains := List.mem_rotate

/-- No main provider is a backup. -/
theorem Send.not_mem_backups (c : Send) {p : Provider} (hm : p ∈ c.mains) : p ∉ c.backups := by
  intro hb
  have h := c.distinct
  rw [List.map_append, List.nodup_append] at h
  exact h.2.2 _ (List.mem_map_of_mem hm) _ (List.mem_map_of_mem hb) rfl

/-- **When failover is complete.** A call that is not disturbed turns to
every provider before it ends without a success, exactly if there are no
backups to miss, or there are main providers and none of them takes the
shortcut. -/
theorem failover_complete_iff {w : World} {c : Send} {resp : Response}
    (h : doSendWithRetry w c = some (resp, log)) (hd : ∀ e ∈ log, e.disturbs c.cmd = false) :
    FailoverComplete c resp log ↔ c.backups = [] ∨ c.mains ≠ [] ∧ ¬Shortcut c log := by
  by_cases hm : c.mains = []
  · rw [doSendWithRetry, if_pos hm] at h
    cases h
    simp only [FailoverComplete, hm, List.nil_append, ne_eq, not_true, false_and, or_false]
    constructor
    · intro hall
      exact List.eq_nil_iff_forall_not_mem.mpr fun p hp => nomatch hall (.inl rfl) p hp
    · intro hb _ p hp
      rw [hb] at hp
      cases hp
  · rw [and_iff_right hm]
    cases doSendWithRetry_sent h with
    | noMains h' => exact absurd h' hm
    | cancelled hs =>
      obtain ⟨e, he, hdist⟩ := disturbs_of_stopped hs
      rw [hd e he] at hdist
      cases hdist
    | exhausted hc =>
      refine iff_of_true (fun _ p hp => ?_) (.inr (not_shortcut_of_passes hc.passes))
      rw [← hc.mem_iff, List.mem_append, mem_order, ← List.mem_append]
      exact hp
    | main hdel =>
      rcases Delivered.undisturbed .nil hdel hd with ⟨hs, hn⟩ | ⟨hs, ⟨g, hg, t, hmem, hv, _⟩, hall⟩
      · exact iff_of_true (fun h => absurd h hs) (.inr hn)
      · -- the shortcut was taken, and only main providers were visited
        have hshort : Shortcut c log := ⟨g, mem_order.1 hg, t, hmem, hv⟩
        simp only [hshort, not_true, or_false]
        constructor
        · intro hcomp
          refine List.eq_nil_iff_forall_not_mem.mpr fun p hp => ?_
          have hlog := (hall p).mp (hcomp hs p (List.mem_append_right _ hp))
          exact c.not_mem_backups (mem_order.1 hlog) hp
        · intro hb _ p hp
          rw [hb, List.append_nil] at hp
          exact (hall p).mpr (mem_order.2 hp)
    | backup hmains hdel =>
      rcases Delivered.undisturbed hmains hdel hd with ⟨hs, hn⟩ | ⟨_, ⟨g, hg, _, _, _, huniq⟩, hall⟩
      · exact iff_of_true (fun h => absurd h hs) (.inr hn)
      · -- the single candidate is the last backup
        refine iff_of_true (fun _ p hp => ?_) (.inr ?_)
        · rw [hall, List.mem_append, mem_order, ← List.mem_append]
          exact hp
        · rintro ⟨g', hg', t', hmem', hv'⟩
          rw [huniq g' t' hmem' hv'] at hg'
          exact c.not_mem_backups hg' hg

/-- BODY with STAT probing on, on two main providers and a backup. -/
def probedCall : Send where
  cmd := ⟨ascii "BODY <a@b>" ++ crlf, false, false⟩
  statProbe := true
  strategy := .roundRobin
  loads := [⟨1, false, 1⟩, ⟨1, false, 1⟩]
  nextIdx := 0
  mains := [⟨"first", "first", false⟩, ⟨"second", "second", false⟩]
  backups := [⟨"third", "third", false⟩]
  distinct := by decide

/-- The first provider lacks the article, the second answers the given
status, and the backup has the article. -/
def failoverWorld (code : ℤ) (status : Bytes) : World where
  quota := fun _ _ => false
  turn := fun _ g =>
    ⟨.granted, [if g.id = "first" then .answer 430 (ascii "430 no such article")
      else if g.id = "second" then .answer code status
      else .answer 222 (ascii "222 0 <a@b>")], false⟩
  cancelCause := none

/-- The second provider lacks the article too, and the backup is asked. -/
theorem failover_complete_at_absent :
    ∃ resp log, doSendWithRetry (failoverWorld 430 (ascii "430 no such article")) probedCall =
      some (resp, log) ∧ FailoverComplete probedCall resp log := by
  have hrun : (doSendWithRetry (failoverWorld 430 (ascii "430 no such article")) probedCall).map
      (fun r => (r.2.any (Event.disturbs probedCall.cmd), decide (Shortcut probedCall r.2))) =
        some (false, false) := by decide
  obtain ⟨⟨resp, log⟩, h, hr⟩ := Option.map_eq_some_iff.mp hrun
  obtain ⟨hdist, hshort⟩ := Prod.mk.inj hr
  have hd : ∀ e ∈ log, e.disturbs probedCall.cmd = false := by
    simpa using List.any_eq_false.mp hdist
  have hmains : probedCall.mains ≠ [] := List.cons_ne_nil _ _
  exact ⟨resp, log, h,
    (failover_complete_iff h hd).mpr (.inr ⟨hmains, of_decide_eq_false hshort⟩)⟩

/-- **An incomplete failover**: the second provider asks for a login
through the shortcut, and the backup is not asked. -/
theorem failover_incomplete_at_480 :
    ∃ resp log,
      doSendWithRetry (failoverWorld 480 (ascii "480 authentication required")) probedCall =
        some (resp, log) ∧ (∀ e ∈ log, e.disturbs probedCall.cmd = false) ∧
        ¬FailoverComplete probedCall resp log := by
  have hrun : (doSendWithRetry (failoverWorld 480 (ascii "480 authentication required"))
      probedCall).map (fun r => (r.2.any (Event.disturbs probedCall.cmd),
        decide (NonSuccess r.1), r.2.map fun e => e.provider.id)) =
      some (false, true, ["first", "second"]) := by decide
  obtain ⟨⟨resp, log⟩, h, hr⟩ := Option.map_eq_some_iff.mp hrun
  obtain ⟨hdist, hr⟩ := Prod.mk.inj hr
  obtain ⟨hns, hids⟩ := Prod.mk.inj hr
  refine ⟨resp, log, h, by simpa using List.any_eq_false.mp hdist, fun hcomp => ?_⟩
  have hmem := hcomp (of_decide_eq_true hns) ⟨"third", "third", false⟩ (by simp [probedCall])
  have hid := List.mem_map_of_mem (f := Provider.id) hmem
  rw [List.map_map, show log.map (Provider.id ∘ Event.provider) = ["first", "second"] from hids]
    at hid
  simp at hid

end Dispatch

end NntpPool
