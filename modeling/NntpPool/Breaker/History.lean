import NntpPool.Breaker.Invariant
/-!
# Breaker — the history specification

What a breaker should do is said over the history of its leases alone,
without generations, retained failures or indices (`Account`): three
failures within the window open it, a success closes it, and every failed
probe prolongs the cooldown. The breaker refines this account.
-/

namespace NntpPool

namespace Breaker

/-! ## The account of a history -/

/-- The lease was acquired in this part of the history. -/
def since (era : List Event) (n : ℕ) : Bool :=
  era.contains (.acquired n false) || era.contains (.acquired n true)

/-- The times of the failures of leases that were acquired in this part of
the history, in their order. -/
def failureTimes : List Event → List ℤ
  | [] => []
  | .completed n .failure now _ :: era =>
    if since era n then failureTimes era ++ [now] else failureTimes era
  | _ :: era => failureTimes era

/-- **What a history amounts to.** The era is the part since the last
reset, opening or failed probe. -/
structure Account where
  isOpen : Bool := false
  era : List Event := []
  /-- The failed probes since the breaker opened. -/
  probeFailures : ℕ := 0
  /-- When the breaker opened, or a probe of it failed, last. -/
  opening : ℤ := 0

/-- The failures of the era that are in the window before `now`. -/
def Account.recent (a : Account) (now : ℤ) : ℕ :=
  (failureTimes a.era).countP fun t => now - failureWindow ≤ t ∧ t ≤ now

/-- A failure at `now` is one too many. -/
def Account.trips (a : Account) (n : ℕ) (now : ℤ) : Bool :=
  since a.era n && decide (failureThreshold ≤ a.recent now + 1)

/-- The account of one more event. -/
def Account.add (a : Account) (e : Event) : Account :=
  match e with
  | .completed _ .success _ _ => { isOpen := false, era := [], opening := a.opening }
  | .completed n .failure now later =>
    if a.isOpen then
      if a.era.contains (.acquired n true) then
        { a with era := [], probeFailures := a.probeFailures + 1, opening := now }
      else { a with era := e :: a.era }
    else if a.trips n now then { isOpen := true, era := [], probeFailures := 0, opening := later }
    else { a with era := e :: a.era }
  | _ => { a with era := e :: a.era }

/-- The account of a history. -/
def account (history : List Event) : Account := history.foldr (fun e a => a.add e) {}

/-- The account of a system. -/
def System.account (s : System) : Account := Breaker.account s.history

variable {s s' : System} {l : Label}

/-! ## Refinement -/

/-- **The breaker keeps what the account says.** -/
structure Refines (s : System) (a : Account) : Prop where
  state : s.breaker.state = .opened ↔ a.isOpen = true
  leases : ∀ x ∈ s.outstanding, (x.2.generation = s.breaker.generation ↔ since a.era x.1 = true) ∧
    (x.2.generation = s.breaker.generation → x.2.probe = a.isOpen)
  granted : ∀ n p, .acquired n p ∈ a.era → n < s.acquired ∧ p = a.isOpen
  past : ∀ t ∈ failureTimes a.era, t ≤ s.clock
  sorted : (failureTimes a.era).Pairwise (· ≤ ·)
  /-- A closed breaker has dropped failures only that are out of reach. -/
  failures : a.isOpen = false → ∃ c ≤ s.clock - failureWindow,
    s.breaker.failures = (failureTimes a.era).filter fun t => c ≤ t
  opened : a.isOpen = true → s.breaker.cooldownIndex = min 4 a.probeFailures ∧
    s.breaker.openUntil = some (a.opening + cooldown s.breaker.cooldownIndex)

/-- Of times in their order, pruning drops those before the window. -/
theorem dropWhile_eq_filter {ts : List ℤ} (h : ts.Pairwise (· ≤ ·)) (c : ℤ) :
    ts.dropWhile (fun t => t < c) = ts.filter fun t => c ≤ t := by
  induction ts with
  | nil => rfl
  | cons t ts ih =>
    obtain ⟨hle, hts⟩ := List.pairwise_cons.mp h
    by_cases ht : t < c
    · rw [List.dropWhile_cons_of_pos (by simpa using ht), ih hts,
        List.filter_cons_of_neg (by simpa using ht)]
    · rw [List.dropWhile_cons_of_neg (by simpa using ht), List.filter_cons_of_pos (by simpa using ht)]
      refine congrArg _ (List.filter_eq_self.mpr fun t' ht' => ?_).symm
      have := hle t' ht'
      simp only [decide_eq_true_eq]
      omega

/-- What pruning leaves, once more has been dropped than before. -/
theorem Refines.pruned {a : Account} (h : Refines s a) (hc : a.isOpen = false) {now : ℤ}
    (ht : s.clock ≤ now) : (s.breaker.pruneFailuresLocked now).failures =
      (failureTimes a.era).filter fun t => now - failureWindow ≤ t := by
  obtain ⟨c, hle, hf⟩ := h.failures hc
  show s.breaker.failures.dropWhile _ = _
  rw [hf, dropWhile_eq_filter (h.sorted.filter _), List.filter_filter]
  refine List.filter_congr fun t _ => ?_
  rw [Bool.and_eq_left_iff_imp, decide_eq_true_eq, decide_eq_true_eq]
  omega

/-- **The failures that count** are those the breaker retains. -/
theorem Refines.recent {a : Account} (h : Refines s a) (hc : a.isOpen = false) {now : ℤ}
    (ht : s.clock ≤ now) : (s.breaker.pruneFailuresLocked now).failures.length = a.recent now := by
  rw [h.pruned hc ht, ← List.countP_eq_length_filter]
  refine List.countP_congr fun t htm => ?_
  have := h.past t htm
  simp only [decide_eq_true_eq]
  omega

/-! ## One event -/

theorem since_acquired (era : List Event) (m n : ℕ) (p : Bool) :
    since (.acquired m p :: era) n = (n == m || since era n) := by
  by_cases h : n = m <;> cases p <;> simp [since, h]

theorem since_completed (era : List Event) (m n : ℕ) (c : Completion) (now later : ℤ) :
    since (.completed m c now later :: era) n = since era n := by
  simp [since]

theorem since_refused (era : List Event) (n : ℕ) : since (.refused :: era) n = since era n := by
  simp [since]

theorem since_iff {era : List Event} {n : ℕ} : since era n = true ↔ ∃ p, .acquired n p ∈ era := by
  simp [since]

/-- **An event that is only noted**: the breaker keeps its state, and no
lease is granted. -/
theorem Refines.note {a : Account} {e : Event} (h : Refines s a)
    (hnew : ∀ n p, e ≠ .acquired n p)
    (hsince : ∀ n, since (e :: a.era) n = since a.era n)
    (htimes : failureTimes (e :: a.era) = failureTimes a.era) (hclock : s.clock ≤ s'.clock)
    (hacq : s'.acquired = s.acquired) (hsub : ∀ x ∈ s'.outstanding, x ∈ s.outstanding)
    (hb : s'.breaker = { s.breaker with probeInFlight := s'.breaker.probeInFlight }) :
    Refines s' { a with era := e :: a.era } where
  state := by rw [hb]; exact h.state
  leases := by
    intro x hx
    rw [hb, hsince]
    exact h.leases x (hsub x hx)
  granted := by
    intro n p hn
    rw [hacq]
    rcases List.mem_cons.mp hn with rfl | hn
    · exact absurd rfl (hnew n p)
    · exact h.granted n p hn
  past := by
    rw [htimes]
    exact fun t ht => Int.le_trans (h.past t ht) hclock
  sorted := by rw [htimes]; exact h.sorted
  failures := by
    intro hc
    obtain ⟨c, hle, hf⟩ := h.failures hc
    rw [hb, htimes]
    exact ⟨c, by omega, hf⟩
  opened := by
    intro ho
    rw [hb]
    exact h.opened ho

/-- A granted lease. -/
theorem Refines.grant {a : Account} (hsound : Sound s) (h : Refines s a) {p : Bool}
    (hp : p = a.isOpen) (hclock : s.clock ≤ s'.clock) (hacq : s'.acquired = s.acquired + 1)
    (hout : s'.outstanding = (s.acquired, s.breaker.lease p) :: s.outstanding)
    (hb : s'.breaker = { s.breaker with probeInFlight := s'.breaker.probeInFlight }) :
    Refines s' { a with era := .acquired s.acquired p :: a.era } where
  state := by rw [hb]; exact h.state
  leases := by
    rw [hout, hb]
    refine List.forall_mem_cons.mpr ⟨⟨iff_of_true rfl (by simp [since_acquired]), fun _ => hp⟩, ?_⟩
    intro x hx
    have hne : x.1 ≠ s.acquired := Nat.ne_of_lt (hsound.numbers x hx)
    rw [since_acquired, beq_false_of_ne hne, Bool.false_or]
    exact h.leases x hx
  granted := by
    intro n q hn
    rw [hacq]
    rcases List.mem_cons.mp hn with hn | hn
    · cases hn
      exact ⟨Nat.lt_succ_self _, hp⟩
    · exact ⟨Nat.lt_succ_of_lt (h.granted n q hn).1, (h.granted n q hn).2⟩
  past := fun t ht => Int.le_trans (h.past t ht) hclock
  sorted := h.sorted
  failures := by
    intro hc
    obtain ⟨c, hle, hf⟩ := h.failures hc
    rw [hb]
    exact ⟨c, by omega, hf⟩
  opened := by
    intro ho
    rw [hb]
    exact h.opened ho

/-- A new generation: no lease of it is outstanding. -/
theorem Refines.renew {a : Account} (hsound : Sound s)
    (hgen : s'.breaker.generation = s.breaker.generation + 1)
    (hsub : ∀ x ∈ s'.outstanding, x ∈ s.outstanding) (hera : a.era = [])
    (hstate : s'.breaker.state = .opened ↔ a.isOpen = true)
    (hfail : s'.breaker.failures = [])
    (hopen : a.isOpen = true → s'.breaker.cooldownIndex = min 4 a.probeFailures ∧
      s'.breaker.openUntil = some (a.opening + cooldown s'.breaker.cooldownIndex)) :
    Refines s' a where
  state := hstate
  leases := by
    intro x hx
    have := (hsound.leases x (hsub x hx)).2.2
    have hne : x.2.generation ≠ s'.breaker.generation := by omega
    rw [hera]
    exact ⟨iff_of_false hne nofun, fun h => absurd h hne⟩
  granted := by rw [hera]; nofun
  past := by rw [hera]; nofun
  sorted := by rw [hera]; exact .nil
  failures := by
    intro _
    rw [hera, hfail]
    exact ⟨_, Int.le_refl _, rfl⟩
  opened := hopen

theorem nextIndex_min {k : ℕ} : nextIndex (min 4 k) = min 4 (k + 1) := by
  rw [nextIndex, show cooldowns.length - 1 = 4 from rfl]
  split_ifs <;> omega

/-- The lease of an outstanding probe was granted in the era. -/
theorem Refines.probe_mem {a : Account} (h : Refines s a) {x : ℕ × Lease}
    (hx : x ∈ s.outstanding) (hp : x.2.probes s.breaker.generation = true) :
    a.isOpen = true ∧ a.era.contains (.acquired x.1 true) = true := by
  obtain ⟨hprobe, hgen⟩ : x.2.probe = true ∧ x.2.generation = s.breaker.generation := by
    simpa [Lease.probes] using hp
  have ho : a.isOpen = true := ((h.leases x hx).2 hgen).symm.trans hprobe
  obtain ⟨p, hp⟩ := since_iff.1 ((h.leases x hx).1.mp hgen)
  obtain rfl : p = true := (h.granted _ _ hp).2.trans ho
  exact ⟨ho, by simpa using hp⟩

/-- A lease that was granted in an open era is a probe. -/
theorem Refines.probes_of_mem {a : Account} (h : Refines s a) {x : ℕ × Lease}
    (hx : x ∈ s.outstanding) (hmem : a.era.contains (.acquired x.1 true) = true) :
    x.2.probes s.breaker.generation = true := by
  have hmem : .acquired x.1 true ∈ a.era := by simpa using hmem
  have hgen := (h.leases x hx).1.mpr (since_iff.2 ⟨_, hmem⟩)
  have ho := (h.granted _ _ hmem).2
  simp [Lease.probes, hgen, (h.leases x hx).2 hgen, ← ho]

/-- A failure that is ignored is that of a lease of an older era, or the
lease would be the probe of this one. -/
theorem Refines.since_of_ignored {a : Account} {x : ℕ × Lease} (hsound : Sound s)
    (h : Refines s a) (hx : x ∈ s.outstanding)
    (hold : x.2.probes s.breaker.generation = false)
    (hwhy : x.2.generation ≠ s.breaker.generation ∨ s.breaker.state ≠ .closed) :
    since a.era x.1 = false := by
  rw [← Bool.not_eq_true]
  intro hs
  have hg := (h.leases x hx).1.mpr hs
  have ho : a.isOpen = true := by
    refine h.state.mp (hsound.state.resolve_left ?_)
    exact hwhy.resolve_left (not_not_intro hg)
  simp [Lease.probes, hg, (h.leases x hx).2 hg, ho] at hold

/-- **A failure that is counted**, of a lease of this era. -/
theorem Refines.count {a : Account} {n : ℕ} {now later : ℤ} (h : Refines s a)
    (hc : a.isOpen = false) (hsince : since a.era n = true) (ht : s.clock ≤ now)
    (hl : now ≤ later) (hsub : ∀ y ∈ s'.outstanding, y ∈ s.outstanding)
    (hclock : s'.clock = later) (hacq : s'.acquired = s.acquired)
    (hb : s'.breaker =
      { s.breaker with failures := (s.breaker.pruneFailuresLocked now).failures ++ [now] }) :
    Refines s' { a with era := .completed n .failure now later :: a.era } := by
  have htimes : failureTimes (.completed n .failure now later :: a.era) =
      failureTimes a.era ++ [now] := by
    rw [failureTimes, hsince]
    rfl
  refine ⟨by rw [hb]; exact h.state, ?_, ?_, ?_, ?_, fun _ => ?_, fun ho => ?_⟩
  · intro y hy
    rw [hb, since_completed]
    exact h.leases y (hsub y hy)
  · intro m p hm
    rw [hacq]
    exact h.granted m p (by simpa using hm)
  · rw [htimes, hclock]
    intro t htm
    rcases List.mem_append.mp htm with htm | htm
    · exact Int.le_trans (h.past t htm) (Int.le_trans ht hl)
    · rw [List.mem_singleton.mp htm]
      exact hl
  · rw [htimes]
    refine List.pairwise_append.mpr ⟨h.sorted, List.pairwise_singleton _ _, fun t htm t' ht' => ?_⟩
    rw [List.mem_singleton.mp ht']
    exact Int.le_trans (h.past t htm) ht
  · have hwin : now - failureWindow ≤ now := Int.sub_le_self _ (by decide)
    rw [hclock, hb, htimes]
    refine ⟨now - failureWindow, Int.sub_le_sub_right hl _, ?_⟩
    rw [List.filter_append, List.filter_cons_of_pos (by simpa using hwin), h.pruned hc ht]
    rfl
  · rw [hb]
    exact h.opened ho

/-- **A completion is accounted for.** -/
theorem Refines.complete {a : Account} {x : ℕ × Lease} {c : Completion} {now later : ℤ}
    {b : ProviderCircuitBreaker} (hsound : Sound s) (h : Refines s a) (ht : s.clock ≤ now)
    (hl : now ≤ later) (hx : x ∈ s.outstanding) (hb : Completes s.breaker x.2 c now later b) :
    Refines { s with
      breaker := b
      outstanding := s.outstanding.erase x
      clock := later
      history := .completed x.1 c now later :: s.history } (a.add (.completed x.1 c now later)) := by
  have hsub : ∀ y ∈ s.outstanding.erase x, y ∈ s.outstanding := fun y => List.mem_of_mem_erase
  have hclosed (hs : s.breaker.state = .closed) : a.isOpen = false := by
    rw [← Bool.not_eq_true, ← h.state, hs]
    nofun
  cases hb with
  | reset => exact .renew hsound rfl hsub rfl (iff_of_false nofun nofun) rfl nofun
  | ignored hc hold hwhy =>
    cases c with
    | success => exact absurd rfl hc
    | neutral => exact h.note nofun (since_completed _ _ · _ _ _) rfl (by simp; omega) rfl hsub rfl
    | failure =>
      have hsince := h.since_of_ignored hsound hx hold (hwhy.imp_right (·.resolve_left nofun))
      have hmem : a.era.contains (.acquired x.1 true) = false := by
        simp only [since, Bool.or_eq_false_iff] at hsince
        exact hsince.2
      have hadd : a.add (.completed x.1 .failure now later) =
          { a with era := .completed x.1 .failure now later :: a.era } := by
        rw [Account.add, hmem, Account.trips, hsince]
        simp
      rw [hadd]
      refine h.note nofun (since_completed _ _ · _ _ _) ?_ (by simp; omega) rfl hsub rfl
      rw [failureTimes, hsince]
      rfl
  | released hp hf =>
    exact h.note nofun (since_completed _ _ · _ _ _) rfl (by simp; omega) rfl hsub rfl
  | reopened hp hf =>
    obtain ⟨ho, hmem⟩ := h.probe_mem hx hp
    rw [Account.add, if_pos ho, if_pos hmem]
    refine .renew hsound rfl hsub rfl (iff_of_true rfl ho) rfl fun _ => ⟨?_, rfl⟩
    exact (congrArg nextIndex (h.opened ho).1).trans nextIndex_min
  | counted hg hp hs hn =>
    have hc := hclosed hs
    have hsince := (h.leases x hx).1.mp hg
    rw [h.recent hc ht] at hn
    have htrips : a.trips x.1 now = false := by simp [Account.trips, hsince, hn]
    rw [Account.add, if_neg (by simp [hc]), if_neg (by simp [htrips])]
    exact h.count hc hsince ht hl hsub rfl rfl rfl
  | tripped hg hp hs hn =>
    have hc := hclosed hs
    rw [Account.add, if_neg (by simp [hc]), if_pos ?_]
    · exact .renew hsound rfl hsub rfl (iff_of_true rfl rfl) rfl fun _ => ⟨rfl, rfl⟩
    · rw [h.recent hc ht] at hn
      simp [Account.trips, (h.leases x hx).1.mp hg, hn]

/-- **Every operation is accounted for.** -/
theorem Refines.step (hsound : Sound s) (h : Refines s s.account) (hm : Moves s l s') :
    Refines s' s'.account := by
  cases hm with
  | granted ht hs =>
    have hc : false = s.account.isOpen := by
      rw [eq_comm, ← Bool.not_eq_true, ← h.state, hs]
      nofun
    exact h.grant hsound hc ht rfl rfl rfl
  | probe ht hs => exact h.grant hsound (h.state.mp hs).symm ht rfl rfl rfl
  | refused ht hs => exact h.note nofun (since_refused _) rfl ht rfl (fun _ hx => hx) rfl
  | completed ht hl hx hb => exact h.complete hsound ht hl hx hb
  | pruned ht hs =>
    refine ⟨h.state, h.leases, h.granted, fun t htm => Int.le_trans (h.past t htm) ht, h.sorted,
      fun hc => ⟨_, Int.le_refl _, h.pruned hc ht⟩, h.opened⟩
  | shown ht =>
    refine ⟨h.state, h.leases, h.granted, fun t htm => Int.le_trans (h.past t htm) ht, h.sorted,
      fun hc => ?_, h.opened⟩
    obtain ⟨c, hle, hf⟩ := h.failures hc
    exact ⟨c, Int.le_trans hle (Int.sub_le_sub_right ht _), hf⟩

theorem Refines.start (clock : ℤ) :
    Refines (System.start true clock) (System.start true clock).account :=
  ⟨iff_of_false nofun nofun, nofun, nofun, nofun, .nil, fun _ => ⟨_, Int.le_refl _, rfl⟩, nofun⟩

/-- The account of a run. -/
theorem refines_run {clock : ℤ} {ls : List Label}
    (h : exec System.step (System.start true clock) ls = some s) :
    Sound s ∧ Refines s s.account := by
  refine exec_invariant (P := fun _ _ => True) (I := fun s => Sound s ∧ Refines s s.account)
    (fun s l s' hs _ hstep => ?_) ls ⟨.start clock, .start clock⟩ (along_true _ _) h
  have hm := hs.1.moves hstep
  exact ⟨hs.1.step hm, hs.2.step hs.1 hm⟩

/-- **The breaker does what the account of its history says.** -/
structure FollowsHistory (s : System) : Prop where
  state : (s.breaker.state = .opened ↔ s.account.isOpen = true) ∧
    (s.breaker.state = .closed ↔ s.account.isOpen = false)
  /-- It opens at the failure that is one too many. -/
  opens : s.breaker.state = .closed → ∀ l s', s.step l = some s' →
    (s'.breaker.state = .opened ↔ ∃ n now later, l = .complete n .failure now later ∧
      since s.account.era n = true ∧ 3 ≤ s.account.recent now + 1)
  /-- How long it stays open. -/
  cools : s.breaker.state = .opened →
    s.breaker.cooldownIndex = min 4 s.account.probeFailures ∧
    s.breaker.openUntil = some (s.account.opening + cooldown s.breaker.cooldownIndex)
  /-- It closes at a success. -/
  closes : s.breaker.state = .opened → ∀ l s', s.step l = some s' →
    (s'.breaker.state = .closed ↔ ∃ n now later, l = .complete n .success now later)
  /-- A neutral completion, or a failure of an older era, changes nothing
  but the probe it holds. -/
  ignores : ∀ n c now later s', s.step (.complete n c now later) = some s' →
    c = .neutral ∨ (c = .failure ∧ since s.account.era n = false) →
    s'.breaker = { s.breaker with
      probeInFlight := s.breaker.probeInFlight && !s.account.era.contains (.acquired n true) }

/-- A closed breaker opens at the failure that is one too many. -/
theorem Refines.opens_iff (hsound : Sound s) (h : Refines s s.account)
    (hs : s.breaker.state = .closed) (hm : Moves s l s') :
    s'.breaker.state = .opened ↔ ∃ n now later, l = .complete n .failure now later ∧
      since s.account.era n = true ∧ 3 ≤ s.account.recent now + 1 := by
  have hc : s.account.isOpen = false := by
    rw [← Bool.not_eq_true, ← h.state, hs]
    nofun
  have hstay : s.breaker.state ≠ .opened := by simp [hs]
  have hidle : s.breaker.probeInFlight ≠ true := by simp [(hsound.closed hs).1]
  cases hm with
  | granted => exact iff_of_false hstay nofun
  | probe ht ho => exact absurd ho hstay
  | refused ht ho => exact absurd ho hstay
  | pruned => exact iff_of_false hstay nofun
  | shown => exact iff_of_false hstay nofun
  | @completed x c now later b ht hl hx hb =>
    cases hb with
    | reset => exact iff_of_false nofun nofun
    | ignored hc' hold hwhy =>
      refine iff_of_false hstay ?_
      rintro ⟨n, now', later', hl', hsince, -⟩
      cases hl'
      rcases hwhy with hne | hn | hn
      · exact hne ((h.leases x hx).1.mpr hsince)
      · cases hn
      · exact hn hs
    | released hp hf => exact absurd hf hidle
    | reopened hp hf => exact absurd hf hidle
    | counted hg hp _ hn =>
      refine iff_of_false hstay ?_
      rintro ⟨n, now', later', hl', -, hthree⟩
      cases hl'
      rw [h.recent hc ht] at hn
      exact absurd hthree (Nat.not_le.mpr hn)
    | tripped hg hp _ hn =>
      rw [h.recent hc ht] at hn
      exact iff_of_true rfl ⟨_, _, _, rfl, (h.leases x hx).1.mp hg, hn⟩

/-- An open breaker closes at a success. -/
theorem Refines.closes_iff (hs : s.breaker.state = .opened) (hm : Moves s l s') :
    s'.breaker.state = .closed ↔ ∃ n now later, l = .complete n .success now later := by
  have hstay : s.breaker.state ≠ .closed := by simp [hs]
  cases hm with
  | granted ht hc => exact absurd hc hstay
  | probe => exact iff_of_false hstay nofun
  | refused => exact iff_of_false hstay nofun
  | pruned ht hc => exact absurd hc hstay
  | shown => exact iff_of_false hstay nofun
  | completed ht hl hx hb =>
    cases hb with
    | reset => exact iff_of_true rfl ⟨_, _, _, rfl⟩
    | ignored hc =>
      refine iff_of_false hstay ?_
      rintro ⟨n, now', later', hl'⟩
      cases hl'
      exact hc rfl
    | released => exact iff_of_false hstay nofun
    | reopened => exact iff_of_false nofun nofun
    | counted hg hp hc => exact absurd hc hstay
    | tripped hg hp hc => exact absurd hc hstay

/-- A completion that is neutral, or of an older era. -/
theorem Refines.ignores {x : ℕ × Lease} {c : Completion} {now later : ℤ}
    {b : ProviderCircuitBreaker} (h : Refines s s.account) (hx : x ∈ s.outstanding)
    (hc : c = .neutral ∨ (c = .failure ∧ since s.account.era x.1 = false))
    (hb : Completes s.breaker x.2 c now later b) :
    b = { s.breaker with
      probeInFlight := s.breaker.probeInFlight && !s.account.era.contains (.acquired x.1 true) } := by
  have hcur (hg : x.2.generation = s.breaker.generation) :
      ¬(Completion.failure = .neutral ∨
        (Completion.failure = .failure ∧ since s.account.era x.1 = false)) := by
    simp [(h.leases x hx).1.mp hg]
  cases hb with
  | reset => simp at hc
  | ignored _ hold =>
    have hmem : s.account.era.contains (.acquired x.1 true) = false := by
      rw [← Bool.not_eq_true]
      intro hm
      exact Bool.false_ne_true (hold.symm.trans (h.probes_of_mem hx hm))
    rw [hmem, Bool.not_false, Bool.and_true]
  | released hp hf => rw [(h.probe_mem hx hp).2, Bool.not_true, Bool.and_false]
  | reopened hp hf =>
    have hg : x.2.generation = s.breaker.generation := by
      simp only [Lease.probes, Bool.and_eq_true, beq_iff_eq] at hp
      exact hp.2
    exact absurd hc (hcur hg)
  | counted hg => exact absurd hc (hcur hg)
  | tripped hg => exact absurd hc (hcur hg)

/-- **The breaker refines its history specification**, in every run of an
enabled breaker. -/
theorem breaker_follows_history {clock : ℤ} {ls : List Label}
    (hrun : exec System.step (System.start true clock) ls = some s) : FollowsHistory s := by
  obtain ⟨hsound, h⟩ := refines_run hrun
  refine ⟨⟨h.state, ?_⟩, fun hs l s' hstep => h.opens_iff hsound hs (hsound.moves hstep),
    fun hs => h.opened (h.state.mp hs),
    fun hs l s' hstep => Refines.closes_iff hs (hsound.moves hstep), ?_⟩
  · rw [← Bool.not_eq_true, ← h.state]
    rcases hsound.state with hs | hs <;> simp [hs]
  · intro n c now later s' hstep hc
    cases hsound.moves hstep with
    | completed ht hl hx hb => exact h.ignores hx hc hb

/-- The breaker opens at the third failure, and a failed probe prolongs
the cooldown. -/
theorem breaker_follows_history_probed :
    ∃ s, exec System.step (System.start true 0)
        [.acquire "a" 1, .acquire "a" 2, .acquire "a" 3, .acquire "a" 3, .complete 0 .failure 4 4,
          .complete 1 .failure 5 5, .complete 2 .failure 6 7, .acquire "a" (11 * second),
          .complete 4 .failure (12 * second) (12 * second)] = some s ∧
      s.breaker.state = .opened ∧ s.account.probeFailures = 1 ∧ FollowsHistory s := by
  have hrun : (exec System.step (System.start true 0)
      [.acquire "a" 1, .acquire "a" 2, .acquire "a" 3, .acquire "a" 3, .complete 0 .failure 4 4,
        .complete 1 .failure 5 5, .complete 2 .failure 6 7, .acquire "a" (11 * second),
        .complete 4 .failure (12 * second) (12 * second)]).map
          (fun s => (s.breaker.state, s.account.probeFailures)) = some (.opened, 1) := by
    decide
  obtain ⟨s, hs, hp⟩ := Option.map_eq_some_iff.mp hrun
  obtain ⟨ho, hn⟩ : s.breaker.state = .opened ∧ s.account.probeFailures = 1 := by simpa using hp
  exact ⟨s, hs, ho, hn, breaker_follows_history hs⟩

end Breaker

end NntpPool
