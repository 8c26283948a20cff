import NntpPool.Gate.Model.Gate
import NntpPool.Common.Shares
/-!
# Gate — the slots and the limit

The gate counts the slots that are past it and those that run. Each count
is the number of slots in the right places, whatever the order of their
steps, so none is left when all are idle. The limit is tightened to the
number of slots that run, which is never above the number of connections.

What is published for readers without the lock is an `int32`.
-/

namespace NntpPool

namespace Gate

variable {s s' : State} {l : Label} {max : ℤ}

/-! ## Steps -/

/-- **What a slot does at the gate**: it goes from one place to another,
and the gate changes. -/
inductive Moves (g : ConnGate) : Label → ℕ → Slot → Slot → ConnGate → Prop
  | enter (i : ℕ) (hlt : g.held < g.allowed) :
      Moves g (.enter i) i .idle .connecting { g with held := g.held + 1 }.publish
  | refuse (i : ℕ) : Moves g (.refuse i) i .idle .idle g
  | fail (i : ℕ) : Moves g (.fail i) i .connecting .leaving g
  | reject (i : ℕ) : Moves g (.reject i) i .connecting .rejected g
  | markRunning (i : ℕ) : Moves g (.markRunning i) i .connecting .running g.markRunning
  | markNotRunning (i : ℕ) : Moves g (.markNotRunning i) i .running .leaving g.markNotRunning
  | exit (i : ℕ) : Moves g (.exit i) i .leaving .idle g.exit

/-- **The steps of the gate.** -/
inductive Steps (s : State) : Label → State → Prop
  | slot {l : Label} {i : ℕ} {p q : Slot} {g : ConnGate} (hp : s.slots[i]? = some p)
      (h : Moves s.gate l i p q g) : Steps s l { s with gate := g, slots := s.slots.set i q }
  | throttled {i : ℕ} (hp : s.slots[i]? = some .rejected) :
      Steps s (.throttled i) { s with slots := s.slots.set i .leaving }.throttle
  | throttle : Steps s .throttle s.throttle
  | fire {t : ℕ} (h : s.timers[t]? = some .armed) :
      Steps s (.fire t) { s with timers := s.timers.set t .fired }
  | restore {t : ℕ} (h : s.timers[t]? = some .fired) :
      Steps s (.restore t) { s with gate := s.gate.restore, timers := s.timers.set t .spent }
  | stop : Steps s .stop { s with gate := s.gate.stop, timers := s.stopTimer, stopped := true }

theorem State.move_eq_some {i : ℕ} {p q : Slot} (h : s.move i p q = some s') :
    s.slots[i]? = some p ∧ s' = { s with slots := s.slots.set i q } := by
  unfold State.move at h
  split_ifs at h with hp
  exact ⟨hp, (Option.some.inj h).symm⟩

/-- `enter` is granted only below the limit. -/
theorem enter_eq_some {g g' : ConnGate} (h : g.enter = some g') :
    g.held < g.allowed ∧ g' = { g with held := g.held + 1 }.publish := by
  unfold ConnGate.enter at h
  split_ifs at h with hle
  exact ⟨by omega, (Option.some.inj h).symm⟩

/-- **There is no other step.** -/
theorem step_steps (h : step s l = some s') : Steps s l s' := by
  cases l with
  | enter i =>
    obtain ⟨m, hm, h⟩ := Option.bind_eq_some_iff.mp h
    obtain ⟨hp, rfl⟩ := State.move_eq_some hm
    obtain ⟨g, hg, rfl⟩ := Option.map_eq_some_iff.mp h
    obtain ⟨hlt, rfl⟩ := enter_eq_some hg
    exact .slot hp (.enter i hlt)
  | refuse i =>
    simp only [step] at h
    split_ifs at h
    obtain ⟨hp, rfl⟩ := State.move_eq_some h
    exact .slot hp (.refuse i)
  | fail i =>
    obtain ⟨hp, rfl⟩ := State.move_eq_some h
    exact .slot hp (.fail i)
  | reject i =>
    obtain ⟨hp, rfl⟩ := State.move_eq_some h
    exact .slot hp (.reject i)
  | throttled i =>
    obtain ⟨m, hm, rfl⟩ := Option.map_eq_some_iff.mp h
    obtain ⟨hp, rfl⟩ := State.move_eq_some hm
    exact .throttled hp
  | markRunning i =>
    obtain ⟨m, hm, rfl⟩ := Option.map_eq_some_iff.mp h
    obtain ⟨hp, rfl⟩ := State.move_eq_some hm
    exact .slot hp (.markRunning i)
  | markNotRunning i =>
    obtain ⟨m, hm, rfl⟩ := Option.map_eq_some_iff.mp h
    obtain ⟨hp, rfl⟩ := State.move_eq_some hm
    exact .slot hp (.markNotRunning i)
  | exit i =>
    obtain ⟨m, hm, rfl⟩ := Option.map_eq_some_iff.mp h
    obtain ⟨hp, rfl⟩ := State.move_eq_some hm
    exact .slot hp (.exit i)
  | throttle => exact Option.some.inj h ▸ .throttle
  | fire t =>
    simp only [step] at h
    split_ifs at h with ht
    exact Option.some.inj h ▸ .fire ht
  | restore t =>
    simp only [step] at h
    split_ifs at h with ht
    exact Option.some.inj h ▸ .restore ht
  | stop => exact Option.some.inj h ▸ .stop

/-- A slot that moves leaves the limit and the timer alone. -/
theorem Moves.frame {g g' : ConnGate} {i : ℕ} {p q : Slot} (h : Moves g l i p q g') :
    g'.maxSlots = g.maxSlots ∧ g'.allowed = g.allowed ∧ g'.restoreTimer = g.restoreTimer := by
  cases h <;> exact ⟨rfl, rfl, rfl⟩

/-! ## Counting slots -/

/-- The slot is past `enter`. -/
def Slot.past : Slot → ℕ
  | .idle => 0
  | _ => 1

/-- The slot is in `Run`. -/
def Slot.runs : Slot → ℕ
  | .running => 1
  | _ => 0

theorem Slot.runs_le_past (p : Slot) : p.runs ≤ p.past := by
  cases p <;> decide

/-- The gate counts the slots that move. -/
theorem Moves.counts {g g' : ConnGate} {i : ℕ} {p q : Slot} (h : Moves g l i p q g') :
    g'.held = g.held + q.past - p.past ∧ g'.running = g.running + q.runs - p.runs := by
  cases h <;>
    simp [ConnGate.publish, ConnGate.exit, ConnGate.markRunning, ConnGate.markNotRunning,
      Slot.past, Slot.runs]

/-- What is published is up to date, and more is held only below the
limit. -/
theorem Moves.publishes {g g' : ConnGate} {i : ℕ} {p q : Slot} (h : Moves g l i p q g')
    (havailable : g.available = int32 (g.allowed - g.held)) :
    g'.available = int32 (g'.allowed - g'.held) ∧ (g'.held ≤ g.held ∨ g'.held ≤ g'.allowed) := by
  cases h with
  | enter i hlt =>
    refine ⟨rfl, .inr ?_⟩
    simp only [ConnGate.publish]
    omega
  | exit i =>
    refine ⟨rfl, .inl ?_⟩
    simp only [ConnGate.exit, ConnGate.publish]
    omega
  | _ => exact ⟨havailable, .inl (Int.le_refl _)⟩

/-- **The invariant of the gate**: its counts are those of the slots, and
the limit is within the number of connections. -/
structure Counted (max : ℤ) (s : State) : Prop where
  maxSlots : s.gate.maxSlots = max
  one_le : 1 ≤ max
  held : s.gate.held = (shares Slot.past s.slots : ℕ)
  running : s.gate.running = (shares Slot.runs s.slots : ℕ)
  held_le : s.gate.held ≤ max
  one_le_allowed : 1 ≤ s.gate.allowed
  allowed_le : s.gate.allowed ≤ max
  available : s.gate.available = int32 (s.gate.allowed - s.gate.held)

/-- No more slots run than are past the gate. -/
theorem Counted.running_le (h : Counted max s) : s.gate.running ≤ s.gate.held := by
  have hle : shares Slot.runs s.slots ≤ shares Slot.past s.slots :=
    shares_mono fun p _ => p.runs_le_past
  have hheld := h.held
  have hrunning := h.running
  omega

theorem Counted.running_nonneg (h : Counted max s) : 0 ≤ s.gate.running := by
  have hrunning := h.running
  omega

/-- A slot moves, and the gate's counts with it. -/
theorem Counted.slot {i : ℕ} {p q : Slot} {g : ConnGate} (h : Counted max s)
    (hp : s.slots[i]? = some p) (hm : Moves s.gate l i p q g) :
    Counted max { s with gate := g, slots := s.slots.set i q } := by
  obtain ⟨hmax, hallowed, -⟩ := hm.frame
  obtain ⟨hheld, hrunning⟩ := hm.counts
  obtain ⟨havailable, hle⟩ := hm.publishes h.available
  have hpast := shares_set (f := Slot.past) hp q
  have hruns := shares_set (f := Slot.runs) hp q
  have hheld₀ := h.held
  have hrunning₀ := h.running
  have hheld_le := h.held_le
  have hallowed_le := h.allowed_le
  refine ⟨hmax.trans h.maxSlots, h.one_le, ?_, ?_, ?_, ?_, ?_, havailable⟩
  · simp only
    omega
  · simp only
    omega
  · simp only
    omega
  · exact hallowed ▸ h.one_le_allowed
  · exact hallowed ▸ h.allowed_le

/-- **`throttle` keeps the limit between one and the number of
connections.** -/
theorem Counted.throttle (h : Counted max s) : Counted max s.throttle := by
  have hrunning := h.running_nonneg
  have hle := h.running_le
  have hheld := h.held_le
  have hone := h.one_le
  have hallowed := h.one_le_allowed
  have hallowed_le := h.allowed_le
  refine ⟨h.maxSlots, h.one_le, h.held, h.running, h.held_le, ?_, ?_, rfl⟩
  · simp only [State.throttle, ConnGate.throttle, ConnGate.publish]
    split_ifs <;> omega
  · simp only [State.throttle, ConnGate.throttle, ConnGate.publish]
    split_ifs <;> omega

/-- **Every step keeps the counts.** -/
theorem Counted.step (h : Counted max s) (hs : Steps s l s') : Counted max s' := by
  cases hs with
  | slot hp hm => exact h.slot hp hm
  | @throttled i hp =>
    -- a rejected slot that leaves is counted as before
    have hmoved : Counted max { s with slots := s.slots.set i .leaving } := by
      have hpast := shares_set (f := Slot.past) hp .leaving
      have hruns := shares_set (f := Slot.runs) hp .leaving
      have hheld := h.held
      have hrunning := h.running
      simp only [Slot.past, Slot.runs] at hpast hruns
      refine ⟨h.maxSlots, h.one_le, ?_, ?_, h.held_le, h.one_le_allowed, h.allowed_le, h.available⟩
      · simp only
        omega
      · simp only
        omega
    exact hmoved.throttle
  | throttle => exact h.throttle
  | restore ht =>
    have hmax := h.maxSlots
    have hone := h.one_le
    refine ⟨hmax, hone, h.held, h.running, h.held_le, ?_, ?_, rfl⟩
    · simp only [ConnGate.restore, ConnGate.publish]
      omega
    · simp only [ConnGate.restore, ConnGate.publish]
      omega
  | fire ht =>
    exact ⟨h.maxSlots, h.one_le, h.held, h.running, h.held_le, h.one_le_allowed, h.allowed_le,
      h.available⟩
  | stop =>
    exact ⟨h.maxSlots, h.one_le, h.held, h.running, h.held_le, h.one_le_allowed, h.allowed_le,
      h.available⟩

theorem Counted.start (hmax : 1 ≤ max) (n : ℕ) : Counted max (start max n) := by
  have hzero (f : Slot → ℕ) (hf : f .idle = 0) : shares f (List.replicate n Slot.idle) = 0 :=
    shares_eq_zero.2 fun p hp => by rw [List.eq_of_mem_replicate hp, hf]
  refine ⟨rfl, hmax, ?_, ?_, ?_, hmax, Int.le_refl _, ?_⟩
  · simp [Gate.start, newConnGate, hzero Slot.past rfl]
  · simp [Gate.start, newConnGate, hzero Slot.runs rfl]
  · simp only [Gate.start, newConnGate]
    omega
  · simp [Gate.start, newConnGate]

theorem counted_run (hmax : 1 ≤ max) {n : ℕ} {ls : List Label}
    (h : exec step (start max n) ls = some s) : Counted max s :=
  exec_invariant (P := fun _ _ => True) (fun _ _ _ hs _ hstep => hs.step (step_steps hstep)) ls
    (Counted.start hmax n) (along_true _ _) h

/-- Idle slots hold nothing. -/
theorem Counted.idle (h : Counted max s) (hidle : ∀ p ∈ s.slots, p = .idle) :
    s.gate.held = 0 ∧ s.gate.running = 0 := by
  have hpast : shares Slot.past s.slots = 0 :=
    shares_eq_zero.2 fun p hp => by rw [hidle p hp]; rfl
  have hruns : shares Slot.runs s.slots = 0 :=
    shares_eq_zero.2 fun p hp => by rw [hidle p hp]; rfl
  have hheld := h.held
  have hrunning := h.running
  omega

/-! ## What is published -/

/-- A number that fits is converted to itself. -/
theorem int32_of_lt {x : ℤ} (hlo : -(2 ^ 31) ≤ x) (hhi : x < 2 ^ 31) : int32 x = x := by
  unfold int32
  exact Int.bmod_eq_of_le_mul_two (by omega) (by omega)

theorem int32_lt (x : ℤ) : int32 x < 2 ^ 31 := by
  have hlt : x.bmod (2 ^ 32) < _ := Int.bmod_lt (by decide)
  unfold int32
  omega

theorem Counted.available_eq (h : Counted max s) (hmax : max < 2 ^ 31) :
    s.gate.available = s.gate.allowed - s.gate.held := by
  have hheld := h.held
  have hheld_le := h.held_le
  have hone := h.one_le_allowed
  have hallowed := h.allowed_le
  rw [h.available]
  exact int32_of_lt (by omega) (by omega)

/-- **The gate keeps its counts.** Whatever the slots, the timers and
their callers do: no more slots run than are past the gate, no more are
past it than there are connections, the limit is between one and their
number, `enter` is granted only below it, and nothing is held once all
slots are idle. What is published is the number of slots that are free,
in every run, exactly if the number of connections is an `int32`. -/
theorem gate_invariant_iff (max : ℤ) (n : ℕ) (hmax : 1 ≤ max) :
    (∀ ls s, exec step (start max n) ls = some s →
      0 ≤ s.gate.running ∧ s.gate.running ≤ s.gate.held ∧ s.gate.held ≤ s.gate.maxSlots ∧
      1 ≤ s.gate.allowed ∧ s.gate.allowed ≤ s.gate.maxSlots ∧
      (∀ i s', step s (.enter i) = some s' → s.gate.held < s.gate.allowed) ∧
      ((∀ p ∈ s.slots, p = .idle) → s.gate.held = 0 ∧ s.gate.running = 0)) ∧
    ((∀ ls s, exec step (start max n) ls = some s →
      s.gate.available = s.gate.allowed - s.gate.held) ↔ max < 2 ^ 31) := by
  refine ⟨fun ls s h => ?_, fun h => ?_, fun hlt ls s h => (counted_run hmax h).available_eq hlt⟩
  · have hcounted := counted_run hmax h
    rw [hcounted.maxSlots]
    refine ⟨hcounted.running_nonneg, hcounted.running_le, hcounted.held_le,
      hcounted.one_le_allowed, hcounted.allowed_le, fun i s' hs => ?_, hcounted.idle⟩
    cases step_steps hs with
    | slot hp hm =>
      cases hm with
      | enter _ hlt => exact hlt
  · -- the new gate shows it already
    have hstart := h [] (start max n) rfl
    have hlt := int32_lt max
    simp only [start, newConnGate] at hstart
    omega

theorem gate_invariant_iff_two :
    (1 : ℤ) ≤ 2 ∧ ∀ ls s, exec step (start 2 2) ls = some s →
      s.gate.available = s.gate.allowed - s.gate.held :=
  ⟨by decide, (gate_invariant_iff 2 2 (by decide)).2.mpr (by decide)⟩

/-- **The count of a gate for `2 ^ 31` connections is published with the
wrong sign.** -/
theorem available_overflows :
    ∃ s, exec step (start (2 ^ 31) 0) [] = some s ∧ s.gate.allowed = 2 ^ 31 ∧ s.gate.held = 0 ∧
      s.gate.available = -2 ^ 31 :=
  ⟨_, rfl, rfl, rfl, by decide⟩

end Gate

end NntpPool
