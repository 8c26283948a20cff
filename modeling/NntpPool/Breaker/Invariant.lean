import NntpPool.Breaker.Model.Breaker
import Mathlib.Data.List.Perm.Basic
/-!
# Breaker — probe exclusivity

What one operation can do to a breaker is said once (`Moves`). The
invariant of all runs follows from it: a closed breaker keeps nothing of
its past but a few failures, an open one keeps no failures, and the probe
in flight is the one probe lease of the current generation.
-/

namespace NntpPool

namespace Breaker

/-- The lease is a probe of the generation. -/
def Lease.probes (generation : ℕ) (l : Lease) : Bool := l.probe && l.generation == generation

/-- The probe leases of the current generation that are outstanding. -/
def System.probing (s : System) : ℕ :=
  s.outstanding.countP fun x => x.2.probes s.breaker.generation

/-- **The invariant of an enabled breaker.** -/
structure Sound (s : System) : Prop where
  enabled : s.breaker.enabled = true
  leases : ∀ x ∈ s.outstanding, x.2.enabled = true ∧ x.2.breaker = some s.breaker.self ∧
    x.2.generation ≤ s.breaker.generation
  numbers : ∀ x ∈ s.outstanding, x.1 < s.acquired
  state : s.breaker.state = .closed ∨ s.breaker.state = .opened
  closed : s.breaker.state = .closed → s.breaker.probeInFlight = false ∧
    s.breaker.openUntil = none ∧ s.breaker.cooldownIndex = 0 ∧
    s.breaker.failures.length < failureThreshold
  opened : s.breaker.state = .opened → s.breaker.failures = [] ∧
    s.breaker.cooldownIndex < cooldowns.length
  probe : s.probing = s.breaker.probeInFlight.toNat

variable {s s' : System} {l : Label}

/-! ## Operations -/

/-- The index behind a failed probe. -/
def nextIndex (i : ℕ) : ℕ := if i < cooldowns.length - 1 then i + 1 else i

/-- The lease a breaker grants. -/
def ProviderCircuitBreaker.lease (b : ProviderCircuitBreaker) (probe : Bool) : Lease :=
  ⟨some b.self, b.generation, b.enabled, probe⟩

/-- **What a completion does to the breaker.** -/
inductive Completes (b : ProviderCircuitBreaker) (x : Lease) :
    Completion → ℤ → ℤ → ProviderCircuitBreaker → Prop
  /-- A success resets the breaker, however old the lease. -/
  | reset {now later : ℤ} : Completes b x .success now later b.resetLocked
  /-- A lease of an older generation, a neutral completion of a lease that
  is no probe, or a failure of one while the breaker is open. -/
  | ignored {c : Completion} {now later : ℤ} (hc : c ≠ .success)
      (hold : x.probes b.generation = false)
      (h : x.generation ≠ b.generation ∨ c = .neutral ∨ b.state ≠ .closed) :
      Completes b x c now later b
  | released {now later : ℤ} (hp : x.probes b.generation = true)
      (hf : b.probeInFlight = true) :
      Completes b x .neutral now later { b with probeInFlight := false }
  | reopened {now later : ℤ} (hp : x.probes b.generation = true)
      (hf : b.probeInFlight = true) :
      Completes b x .failure now later
        ({ b with cooldownIndex := nextIndex b.cooldownIndex }.openLocked now)
  | counted {now later : ℤ} (hg : x.generation = b.generation) (hp : x.probe = false)
      (hs : b.state = .closed)
      (hn : (b.pruneFailuresLocked now).failures.length + 1 < failureThreshold) :
      Completes b x .failure now later
        { b with failures := (b.pruneFailuresLocked now).failures ++ [now] }
  | tripped {now later : ℤ} (hg : x.generation = b.generation) (hp : x.probe = false)
      (hs : b.state = .closed)
      (hn : failureThreshold ≤ (b.pruneFailuresLocked now).failures.length + 1) :
      Completes b x .failure now later ({ b with cooldownIndex := 0 }.openLocked later)

theorem complete_completes {b : ProviderCircuitBreaker} {x : Lease} {c : Completion}
    {now later : ℤ} (he : x.enabled = true) (hb : x.breaker = some b.self)
    (hf : x.probes b.generation = true → b.probeInFlight = true) :
    Completes b x c now later (b.complete x c now later) := by
  unfold ProviderCircuitBreaker.complete
  rw [if_neg (by simp [he, hb])]
  by_cases hs : c = .success
  · subst hs
    exact .reset
  rw [if_neg hs]
  by_cases hg : x.generation = b.generation
  case neg =>
    rw [if_pos hg]
    exact .ignored hs (by simp [Lease.probes, hg]) (.inl hg)
  rw [if_neg (not_not_intro hg)]
  by_cases hp : x.probe = true
  · have hprobes : x.probes b.generation = true := by simp [Lease.probes, hp, hg]
    rw [if_pos hp, if_neg (by simp [hf hprobes])]
    cases c with
    | success => exact absurd rfl hs
    | neutral => exact .released hprobes (hf hprobes)
    | failure =>
      rw [if_pos rfl]
      convert Completes.reopened hprobes (hf hprobes) using 1
      rw [nextIndex]
      split <;> rfl
  · have hp : x.probe = false := by simpa using hp
    rw [if_neg (by simp [hp])]
    by_cases hc : c = .failure ∧ b.state = .closed
    case neg =>
      rw [if_pos (by tauto)]
      refine .ignored hs (by simp [Lease.probes, hp]) (.inr ?_)
      cases c <;> simp_all
    obtain ⟨rfl, hclosed⟩ := hc
    rw [if_neg (by simp [hclosed])]
    dsimp only
    rw [List.length_append, List.length_singleton]
    split_ifs with hn
    · exact .tripped hg hp hclosed hn
    · exact .counted hg hp hclosed (Nat.not_le.mp hn)

/-- **What an operation does.** -/
inductive Moves (s : System) : Label → System → Prop
  /-- A closed breaker grants a plain lease. -/
  | granted {providerID : String} {now : ℤ} (ht : s.clock ≤ now)
      (hs : s.breaker.state = .closed) :
      Moves s (.acquire providerID now) { s with
        outstanding := (s.acquired, s.breaker.lease false) :: s.outstanding
        acquired := s.acquired + 1
        clock := now
        history := .acquired s.acquired false :: s.history }
  /-- An open breaker grants one probe once it has cooled down. -/
  | probe {providerID : String} {now : ℤ} (ht : s.clock ≤ now)
      (hs : s.breaker.state = .opened) (hcool : s.breaker.cooling now = false)
      (hf : s.breaker.probeInFlight = false) :
      Moves s (.acquire providerID now) { s with
        breaker := { s.breaker with probeInFlight := true }
        outstanding := (s.acquired, s.breaker.lease true) :: s.outstanding
        acquired := s.acquired + 1
        clock := now
        history := .acquired s.acquired true :: s.history }
  | refused {providerID : String} {now : ℤ} (ht : s.clock ≤ now)
      (hs : s.breaker.state = .opened) :
      Moves s (.acquire providerID now) { s with clock := now, history := .refused :: s.history }
  | completed {x : ℕ × Lease} {c : Completion} {now later : ℤ} {b : ProviderCircuitBreaker}
      (ht : s.clock ≤ now) (hl : now ≤ later) (hx : x ∈ s.outstanding)
      (hb : Completes s.breaker x.2 c now later b) :
      Moves s (.complete x.1 c now later) { s with
        breaker := b
        outstanding := s.outstanding.erase x
        clock := later
        history := .completed x.1 c now later :: s.history }
  | pruned {now : ℤ} (ht : s.clock ≤ now) (hs : s.breaker.state = .closed) :
      Moves s (.snapshot now) { s with
        breaker := s.breaker.pruneFailuresLocked now, clock := now }
  | shown {now : ℤ} (ht : s.clock ≤ now) : Moves s (.snapshot now) { s with clock := now }

/-- The probe that is completed is in flight. -/
theorem Sound.inFlight (h : Sound s) {x : ℕ × Lease} (hx : x ∈ s.outstanding)
    (hp : x.2.probes s.breaker.generation = true) : s.breaker.probeInFlight = true := by
  have hpos : 0 < s.probing := List.countP_pos_iff.mpr ⟨x, hx, hp⟩
  rw [h.probe] at hpos
  cases hf : s.breaker.probeInFlight with
  | true => rfl
  | false => simp [hf] at hpos

theorem Sound.moves (h : Sound s) (hstep : s.step l = some s') : Moves s l s' := by
  cases l with
  | acquire providerID now =>
    rw [System.step] at hstep
    split_ifs at hstep with ht
    have ht := Int.not_lt.mp ht
    rw [ProviderCircuitBreaker.acquire] at hstep
    rcases h.state with hs | hs
    · rw [if_pos (.inr hs)] at hstep
      cases hstep
      exact .granted ht hs
    · rw [if_neg (by simp [h.enabled, hs])] at hstep
      split_ifs at hstep with hc
      · cases hstep
        exact .probe ht hs hc.1 hc.2
      all_goals
        cases hstep
        exact .refused ht hs
  | complete n c now later =>
    rw [System.step] at hstep
    split_ifs at hstep with ht
    obtain ⟨ht, hl⟩ := not_or.mp ht
    obtain ⟨x, hx, rfl⟩ := Option.map_eq_some_iff.mp hstep
    have hn : x.1 = n := by simpa using List.find?_some hx
    subst hn
    have hx := List.mem_of_find?_eq_some hx
    obtain ⟨he, hb, -⟩ := h.leases x hx
    exact .completed (Int.not_lt.mp ht) (Int.not_lt.mp hl) hx (complete_completes he hb (h.inFlight hx))
  | snapshot now =>
    rw [System.step] at hstep
    split_ifs at hstep with ht
    cases hstep
    rw [ProviderCircuitBreaker.snapshot]
    split_ifs with hs
    · exact .pruned (Int.not_lt.mp ht) hs.2
    · exact .shown (Int.not_lt.mp ht)

/-! ## Runs -/

/-- A new generation has no leases yet. -/
theorem Sound.probing_next (h : Sound s) (xs : List (ℕ × Lease))
    (hsub : ∀ x ∈ xs, x ∈ s.outstanding) :
    xs.countP (fun x => x.2.probes (s.breaker.generation + 1)) = 0 := by
  refine List.countP_eq_zero.mpr fun x hx => ?_
  have := (h.leases x (hsub x hx)).2.2
  simp only [Lease.probes, Bool.and_eq_true, beq_iff_eq, not_and]
  omega

/-- The probes, with one lease completed. -/
theorem probing_erase {x : ℕ × Lease} (hx : x ∈ s.outstanding) :
    s.probing = (s.outstanding.erase x).countP (fun x => x.2.probes s.breaker.generation) +
      (x.2.probes s.breaker.generation).toNat := by
  rw [System.probing, (List.perm_cons_erase hx).countP_eq, List.countP_cons]
  cases x.2.probes s.breaker.generation <;> rfl

theorem nextIndex_lt {i : ℕ} (h : i < cooldowns.length) : nextIndex i < cooldowns.length := by
  rw [nextIndex]
  split_ifs <;> omega

/-- A failure that is retained was retained before, or is new. -/
theorem pruned_length_le (b : ProviderCircuitBreaker) (now : ℤ) :
    (b.pruneFailuresLocked now).failures.length ≤ b.failures.length :=
  (List.dropWhile_sublist _).length_le

/-- **A completion keeps the invariant.** -/
theorem Sound.complete {x : ℕ × Lease} {c : Completion} {now later : ℤ}
    {b : ProviderCircuitBreaker} (h : Sound s) (hx : x ∈ s.outstanding)
    (hb : Completes s.breaker x.2 c now later b) :
    Sound { s with
      breaker := b
      outstanding := s.outstanding.erase x
      clock := later
      history := .completed x.1 c now later :: s.history } := by
  have hsub : ∀ y ∈ s.outstanding.erase x, y ∈ s.outstanding := fun y => List.mem_of_mem_erase
  have hprobe := h.probe
  rw [probing_erase hx] at hprobe
  have hnum := fun y hy => h.numbers y (hsub y hy)
  have hsame := fun y hy => h.leases y (hsub y hy)
  have hnext : ∀ y ∈ s.outstanding.erase x, y.2.enabled = true ∧
      y.2.breaker = some s.breaker.self ∧ y.2.generation ≤ s.breaker.generation + 1 :=
    fun y hy => ⟨(hsame y hy).1, (hsame y hy).2.1, Nat.le_succ_of_le (hsame y hy).2.2⟩
  cases hb with
  | reset =>
    exact ⟨h.enabled, hnext, hnum, .inl rfl, fun _ => ⟨rfl, rfl, rfl, Nat.zero_lt_succ 2⟩, nofun,
      h.probing_next _ hsub⟩
  | ignored hc hold =>
    rw [hold] at hprobe
    exact ⟨h.enabled, hsame, hnum, h.state, h.closed, h.opened, hprobe⟩
  | released hp hf =>
    rw [hp, hf] at hprobe
    refine ⟨h.enabled, hsame, hnum, h.state, fun hs => ⟨rfl, (h.closed hs).2⟩, h.opened, ?_⟩
    exact Nat.succ.inj hprobe
  | reopened hp hf =>
    have hs : s.breaker.state = .opened := by
      refine h.state.resolve_left fun hs => ?_
      exact Bool.false_ne_true ((h.closed hs).1.symm.trans hf)
    exact ⟨h.enabled, hnext, hnum, .inr rfl, nofun, fun _ => ⟨rfl, nextIndex_lt (h.opened hs).2⟩,
      h.probing_next _ hsub⟩
  | counted hg hp hs hn =>
    rw [show x.2.probes s.breaker.generation = false by simp [Lease.probes, hp]] at hprobe
    refine ⟨h.enabled, hsame, hnum, h.state, fun hs => ?_, fun hs' => ?_, hprobe⟩
    · obtain ⟨h1, h2, h3, -⟩ := h.closed hs
      exact ⟨h1, h2, h3, by rwa [List.length_append]⟩
    · cases hs.symm.trans hs'
  | tripped =>
    exact ⟨h.enabled, hnext, hnum, .inr rfl, nofun, fun _ => ⟨rfl, Nat.zero_lt_succ 4⟩,
      h.probing_next _ hsub⟩

/-- **Every operation keeps the invariant.** -/
theorem Sound.step (h : Sound s) (hm : Moves s l s') : Sound s' := by
  cases hm with
  | granted ht hs =>
    refine ⟨h.enabled, List.forall_mem_cons.mpr ⟨⟨h.enabled, rfl, Nat.le_refl _⟩, h.leases⟩, ?_, h.state,
      h.closed, h.opened, ?_⟩
    · exact List.forall_mem_cons.mpr
        ⟨Nat.lt_succ_self _, fun x hx => Nat.lt_succ_of_lt (h.numbers x hx)⟩
    · exact (List.countP_cons_of_neg (by simp [Lease.probes, ProviderCircuitBreaker.lease])).trans
        h.probe
  | probe ht hs hcool hf =>
    refine ⟨h.enabled, List.forall_mem_cons.mpr ⟨⟨h.enabled, rfl, Nat.le_refl _⟩, h.leases⟩, ?_, h.state,
      fun hs' => ?_, h.opened, ?_⟩
    · exact List.forall_mem_cons.mpr
        ⟨Nat.lt_succ_self _, fun x hx => Nat.lt_succ_of_lt (h.numbers x hx)⟩
    · cases hs.symm.trans hs'
    · have hprobe := h.probe
      rw [hf] at hprobe
      refine (List.countP_cons_of_pos ?_).trans (congrArg Nat.succ hprobe)
      simp [Lease.probes, ProviderCircuitBreaker.lease]
  | refused ht hs => exact ⟨h.enabled, h.leases, h.numbers, h.state, h.closed, h.opened, h.probe⟩
  | completed ht hl hx hb => exact h.complete hx hb
  | pruned ht hs =>
    refine ⟨h.enabled, h.leases, h.numbers, h.state, fun hs => ?_, fun hs' => ?_, h.probe⟩
    · obtain ⟨h1, h2, h3, h4⟩ := h.closed hs
      exact ⟨h1, h2, h3, Nat.lt_of_le_of_lt (pruned_length_le _ _) h4⟩
    · cases hs.symm.trans hs'
  | shown ht => exact ⟨h.enabled, h.leases, h.numbers, h.state, h.closed, h.opened, h.probe⟩

theorem Sound.start (clock : ℤ) : Sound (System.start true clock) :=
  ⟨rfl, nofun, nofun, .inl rfl, fun _ => ⟨rfl, rfl, rfl, Nat.zero_lt_succ 2⟩, nofun, rfl⟩

/-- The invariant of a run. -/
theorem sound_run {clock : ℤ} {ls : List Label}
    (h : exec System.step (System.start true clock) ls = some s) : Sound s := by
  refine exec_invariant (P := fun _ _ => True) (fun s l s' hs _ hstep => ?_) ls (.start clock)
    (along_true _ _) h
  exact hs.step (hs.moves hstep)

/-- **The breaker is in one of its two states, and has one probe at
most.** -/
structure Exclusive (s : System) : Prop where
  state : s.breaker.state = .closed ∨ s.breaker.state = .opened
  closed : s.breaker.state = .closed → s.breaker.probeInFlight = false ∧
    s.breaker.openUntil = none ∧ s.breaker.cooldownIndex = 0 ∧ s.breaker.failures.length < 3
  opened : s.breaker.state = .opened → s.breaker.failures = [] ∧
    s.breaker.cooldownIndex < cooldowns.length
  probe : s.breaker.probeInFlight = true ↔ s.probing = 1
  single : s.probing ≤ 1
  /-- Nothing is granted before the cooldown is over. -/
  cooling : s.breaker.state = .opened → ∀ providerID now, s.breaker.cooling now = true →
    ∃ e, s.breaker.acquire providerID now = (s.breaker, .error e)

/-- **Probe exclusivity**, in every run of an enabled breaker. -/
theorem probe_exclusive {clock : ℤ} {ls : List Label}
    (hrun : exec System.step (System.start true clock) ls = some s) : Exclusive s := by
  have h := sound_run hrun
  refine ⟨h.state, h.closed, h.opened, ?_, ?_, fun hs providerID now hc => ?_⟩
  · rw [h.probe]
    cases s.breaker.probeInFlight <;> simp
  · rw [h.probe]
    cases s.breaker.probeInFlight <;> simp
  · refine ⟨⟨providerID, .opened, s.breaker.openUntil⟩, ?_⟩
    rw [ProviderCircuitBreaker.acquire, if_neg (by simp [h.enabled, hs]), if_neg (by simp [hc]),
      if_pos hc]

/-- Three failures open the breaker, a probe is granted behind the
cooldown, and no second one next to it. -/
theorem probe_exclusive_halfOpen :
    ∃ s, exec System.step (System.start true 0)
        [.acquire "a" 1, .acquire "a" 2, .acquire "a" 3, .complete 0 .failure 4 4,
          .complete 1 .failure 5 5, .complete 2 .failure 6 7, .acquire "a" (11 * second),
          .acquire "a" (11 * second)] = some s ∧
      s.breaker.probeInFlight = true ∧ Exclusive s := by
  have hrun : (exec System.step (System.start true 0)
      [.acquire "a" 1, .acquire "a" 2, .acquire "a" 3, .complete 0 .failure 4 4,
        .complete 1 .failure 5 5, .complete 2 .failure 6 7, .acquire "a" (11 * second),
        .acquire "a" (11 * second)]).map (fun s => s.breaker.probeInFlight) = some true := by
    decide
  obtain ⟨s, hs, hp⟩ := Option.map_eq_some_iff.mp hrun
  exact ⟨s, hs, hp, probe_exclusive hs⟩

end Breaker

end NntpPool
