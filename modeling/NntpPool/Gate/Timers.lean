import NntpPool.Gate.Slots
/-!
# Gate — throttles and their timers

Each `throttle` starts a timer whose callback loosens the limit again. A
callback carries no mark of the throttle it belongs to. One that waits
for the mutex while the next throttle, or `stop`, has it is not recalled,
and undoes what came behind it. Where nobody throttles or stops the gate
while a callback waits, the only timer that may still expire is that of
the last throttle.
-/

namespace NntpPool

namespace Gate

variable {s s' : State} {l : Label}

/-- The step is a call of `throttle`. -/
def Label.throttles : Label → Bool
  | .throttled _ => true
  | .throttle => true
  | _ => false

/-- `throttle` and `stop` are called while no callback waits for the
mutex, and `throttle` not behind `stop`. -/
def Quiet (s : State) : Label → Bool
  | .throttled _ => s.timers.all (· != .fired) && !s.stopped
  | .throttle => s.timers.all (· != .fired) && !s.stopped
  | .stop => s.timers.all (· != .fired)
  | _ => true

/-- **Only the last throttle has a timer that may still loosen the
limit**, and none has behind `stop`. -/
structure Current (s : State) : Prop where
  last : ∀ t x, s.timers[t]? = some x → x ≠ .spent → t + 1 = s.timers.length
  armed : ∀ t, s.timers[t]? = some .armed → s.gate.restoreTimer = some t
  stopped : s.stopped = true → ∀ x ∈ s.timers, x = .spent

@[simp] theorem length_stopTimer (s : State) : s.stopTimer.length = s.timers.length := by
  unfold State.stopTimer
  split <;> simp

/-- The timer that is armed is the one that is stopped. -/
theorem Current.stopTimer (h : Current s) (hquiet : s.timers.all (· != .fired) = true) :
    ∀ x ∈ s.stopTimer, x = .spent := by
  intro x hx
  obtain ⟨t, ht⟩ := List.mem_iff_getElem?.mp hx
  have hfired : s.timers[t]? ≠ some .fired := fun hf => by
    have := List.all_eq_true.mp hquiet _ (List.mem_of_getElem? hf)
    simp at this
  unfold State.stopTimer at ht
  cases hr : s.gate.restoreTimer with
  | none =>
    rw [hr] at ht
    cases x with
    | armed => simp [h.armed t ht] at hr
    | fired => exact absurd ht hfired
    | spent => rfl
  | some u =>
    rw [hr] at ht
    simp only [List.getElem?_modify] at ht
    obtain ⟨y, hy, hxy⟩ := Option.map_eq_some_iff.mp ht
    split_ifs at hxy with hut
    · cases y with
      | armed => exact hxy.symm
      | fired => exact absurd hy hfired
      | spent => exact hxy.symm
    · cases y with
      | armed =>
        have := h.armed t hy
        rw [hr] at this
        exact absurd (Option.some.inj this) hut
      | fired => exact absurd hy hfired
      | spent => exact hxy.symm

/-- A throttle stops the timer before it and starts its own. -/
theorem Current.throttle (h : Current s) (hquiet : s.timers.all (· != .fired) = true)
    (hstopped : s.stopped = false) : Current s.throttle := by
  have hspent := h.stopTimer hquiet
  have hnew {t : ℕ} {x : Timer} (ht : (s.stopTimer ++ [Timer.armed])[t]? = some x)
      (hx : x ≠ .spent) : t = s.timers.length := by
    rw [List.getElem?_append] at ht
    split_ifs at ht with hlt
    · exact absurd (hspent x (List.mem_of_getElem? ht)) hx
    · have := (List.getElem?_eq_some_iff.mp ht).1
      simp only [length_stopTimer, List.length_singleton] at this hlt
      omega
  refine ⟨fun t x ht hx => ?_, fun t ht => ?_, fun hs => ?_⟩
  · have := hnew ht hx
    simp only [State.throttle, List.length_append, length_stopTimer, List.length_singleton]
    omega
  · rw [hnew ht (by decide)]
    rfl
  · simp only [State.throttle] at hs
    simp [hstopped] at hs

/-- **Every step that meets the condition keeps the timers current.** -/
theorem Current.step (h : Current s) (hquiet : Quiet s l = true) (hs : Steps s l s') :
    Current s' := by
  cases hs with
  | slot hp hm =>
    refine ⟨h.last, ?_, h.stopped⟩
    rw [hm.frame.2.2]
    exact h.armed
  | @throttled i hp =>
    simp only [Quiet, Bool.and_eq_true, Bool.not_eq_true'] at hquiet
    have hmoved : Current { s with slots := s.slots.set i .leaving } := ⟨h.last, h.armed, h.stopped⟩
    exact hmoved.throttle hquiet.1 hquiet.2
  | throttle =>
    simp only [Quiet, Bool.and_eq_true, Bool.not_eq_true'] at hquiet
    exact h.throttle hquiet.1 hquiet.2
  | @fire t harmed =>
    have hlast := h.last t .armed harmed (by decide)
    refine ⟨fun u x hu hx => ?_, fun u hu => ?_, fun hstopped x hx => ?_⟩
    · simp only [List.length_set]
      simp only [List.getElem?_set] at hu
      split_ifs at hu with htu hlt
      · omega
      · exact h.last u x hu hx
    · simp only [List.getElem?_set] at hu
      split_ifs at hu with htu hlt
      · simp at hu
      · exact h.armed u hu
    · have := h.stopped hstopped _ (List.mem_of_getElem? harmed)
      simp at this
  | @restore t hfired =>
    have hlast := h.last t .fired hfired (by decide)
    -- it was the only one
    have hnone {u : ℕ} {x : Timer} (hu : (s.timers.set t .spent)[u]? = some x) : x = .spent := by
      by_contra hx
      simp only [List.getElem?_set] at hu
      split_ifs at hu with htu hlt
      · exact hx (Option.some.inj hu).symm
      · have := h.last u x hu hx
        omega
    refine ⟨fun u x hu hx => absurd (hnone hu) hx, fun u hu => ?_, fun _ x hx => ?_⟩
    · have := hnone hu
      simp at this
    · obtain ⟨u, hu⟩ := List.mem_iff_getElem?.mp hx
      exact hnone hu
  | stop =>
    have hspent := h.stopTimer hquiet
    refine ⟨fun t x ht hx => absurd (hspent x (List.mem_of_getElem? ht)) hx, fun t ht => ?_,
      fun _ => hspent⟩
    have := hspent _ (List.mem_of_getElem? ht)
    simp at this

theorem current_run {max : ℤ} {n : ℕ} {ls : List Label}
    (hquiet : Along step (fun s l => Quiet s l = true) (start max n) ls)
    (h : exec step (start max n) ls = some s) : Current s :=
  exec_invariant (fun _ _ _ hs hl hstep => hs.step hl (step_steps hstep)) ls
    ⟨by simp [start], by simp [start], by simp [start]⟩ hquiet h

/-! ## What loosens the limit -/

/-- **No step but a callback loosens the limit**, and none but a throttle
tightens it. -/
theorem Steps.allowed (h : Steps s l s') (hrestore : ∀ t, l ≠ .restore t) :
    s.timers.length ≤ s'.timers.length ∧ s'.gate.allowed ≤ s.gate.allowed ∧
      (l.throttles = false → s'.gate.allowed = s.gate.allowed) := by
  have hthrottle (m : State) : m.throttle.gate.allowed ≤ m.gate.allowed := by
    simp only [State.throttle, ConnGate.throttle, ConnGate.publish]
    split_ifs <;> omega
  cases h with
  | slot hp hm =>
    have hallowed := hm.frame.2.1
    exact ⟨Nat.le_refl _, Int.le_of_eq hallowed, fun _ => hallowed⟩
  | throttled hp =>
    refine ⟨?_, hthrottle _, fun h => absurd h Bool.true_eq_false.mp⟩
    simp [State.throttle]
  | throttle =>
    refine ⟨?_, hthrottle _, fun h => absurd h Bool.true_eq_false.mp⟩
    simp [State.throttle]
  | fire ht => exact ⟨by simp, Int.le_refl _, fun _ => rfl⟩
  | restore ht => exact absurd rfl (hrestore _)
  | stop => exact ⟨by simp, Int.le_refl _, fun _ => rfl⟩

/-- A callback that runs is that of the last throttle, and no `stop` is
before it. -/
theorem Current.restore {t : ℕ} (h : Current s) (hs : Steps s (.restore t) s') :
    t + 1 = s.timers.length ∧ s.stopped = false := by
  cases hs with
  | slot hp hm => cases hm
  | restore hfired =>
    refine ⟨h.last t .fired hfired (by decide), ?_⟩
    by_contra hstopped
    have := h.stopped (by simpa using hstopped) _ (List.mem_of_getElem? hfired)
    simp at this

/-- A throttle adds its timer. -/
theorem Steps.length_of_throttles (h : Steps s l s') (hl : l.throttles = true) :
    s'.timers.length = s.timers.length + 1 := by
  cases h with
  | slot hp hm => cases hm <;> cases hl
  | throttled hp => simp [State.throttle]
  | throttle => simp [State.throttle]
  | _ => cases hl

/-- **The limit a throttle has set stays**, as long as only callbacks of
earlier throttles could run. -/
theorem Current.kept {post : List Label} {k : ℕ} {s₂ : State} (h : Current s)
    (hk : k < s.timers.length) (hquiet : Along Gate.step (fun s l => Quiet s l = true) s post)
    (hpost : exec Gate.step s post = some s₂) (hearlier : ∀ t, .restore t ∈ post → t < k) :
    s₂.gate.allowed ≤ s.gate.allowed ∧
      ((∀ l ∈ post, l.throttles = false) → s₂.gate.allowed = s.gate.allowed) := by
  -- no callback that could run is old enough
  have hstep (m : State) (l : Label) (m' : State) (hm : Current m) (hkm : k < m.timers.length)
      (hl : Quiet m l = true) (hle : ∀ t, l = .restore t → t < k) (hs : Gate.step m l = some m') :
      Current m' ∧ k < m'.timers.length ∧ m'.gate.allowed ≤ m.gate.allowed ∧
        (l.throttles = false → m'.gate.allowed = m.gate.allowed) := by
    have hs := step_steps hs
    have hrestore (t : ℕ) : l ≠ .restore t := by
      rintro rfl
      have := (hm.restore hs).1
      have := hle t rfl
      omega
    obtain ⟨hlen, hallowed, heq⟩ := hs.allowed hrestore
    exact ⟨hm.step hl hs, by omega, hallowed, heq⟩
  let none := ∀ l ∈ post, l.throttles = false
  have hinv : Current s₂ ∧ k < s₂.timers.length ∧ s₂.gate.allowed ≤ s.gate.allowed ∧
      (none → s₂.gate.allowed = s.gate.allowed) := by
    refine exec_invariant (I := fun m => Current m ∧ k < m.timers.length ∧
      m.gate.allowed ≤ s.gate.allowed ∧ (none → m.gate.allowed = s.gate.allowed)) ?_ post
      ⟨h, hk, Int.le_refl _, fun _ => rfl⟩
      (hquiet.and (Q := fun l => (∀ t, l = .restore t → t < k) ∧ (none → l.throttles = false))
        fun l hl => ⟨fun t ht => hearlier t (ht ▸ hl), fun hnone => hnone l hl⟩) hpost
    rintro m l m' ⟨hm, hkm, hle, heq⟩ ⟨hl, hearly, hthrottles⟩ hs
    obtain ⟨hm', hkm', hallowed, hsame⟩ := hstep m l m' hm hkm hl hearly hs
    exact ⟨hm', hkm', by omega, fun hnone => (hsame (hthrottles hnone)).trans (heq hnone)⟩
  exact hinv.2.2

/-- **A throttle is not undone by a callback that is not its own.** Where
nobody throttles or stops the gate while a callback waits, and nobody
throttles it behind `stop`: a callback that an earlier throttle has
scheduled never raises the limit; behind `stop` none changes the gate;
and behind a throttle the limit is not raised, nor changed but by the
next throttle, until its own callback or a later one runs. -/
theorem throttle_kept_of_quiet (max : ℤ) (n : ℕ) (ls : List Label) (s : State)
    (hquiet : Along step (fun s l => Quiet s l = true) (start max n) ls)
    (h : exec step (start max n) ls = some s) :
    (∀ t s', step s (.restore t) = some s' →
      (t + 1 < s.timers.length → s'.gate.allowed ≤ s.gate.allowed) ∧
      (s.stopped = true → s'.gate = s.gate)) ∧
    ∀ l s₁ post s₂, l.throttles = true → Quiet s l = true → step s l = some s₁ →
      Along step (fun s l => Quiet s l = true) s₁ post → exec step s₁ post = some s₂ →
      (∀ t, .restore t ∈ post → t < s.timers.length) →
      s₂.gate.allowed ≤ s₁.gate.allowed ∧
        ((∀ l ∈ post, l.throttles = false) → s₂.gate.allowed = s₁.gate.allowed) := by
  have hcurrent := current_run hquiet h
  refine ⟨fun t s' hs => ?_, fun l s₁ post s₂ hl hl' hs hpost hrun hearlier => ?_⟩
  · obtain ⟨hlast, hstopped⟩ := hcurrent.restore (step_steps hs)
    refine ⟨fun hlt => by omega, fun hst => ?_⟩
    rw [hstopped] at hst
    cases hst
  · have hlen := (step_steps hs).length_of_throttles hl
    exact (hcurrent.step hl' (step_steps hs)).kept (by omega) hpost hrun hearlier

/-- Two slots are turned down, and the first throttles the gate. -/
def throttledOnce : List Label :=
  [.enter 0, .enter 1, .reject 0, .reject 1, .throttled 0]

theorem throttle_kept_of_quiet_once :
    ∃ s, exec step (start 2 2) throttledOnce = some s ∧ s.gate.allowed = 1 ∧
      ∃ s₁, step s (.throttled 1) = some s₁ ∧ s₁.gate.allowed = 1 ∧
        ∀ s₂, exec step s₁ [.fire 1] = some s₂ → s₂.gate.allowed ≤ s₁.gate.allowed := by
  refine ⟨_, rfl, rfl, _, rfl, rfl, fun s₂ hs₂ => ?_⟩
  have hkept := throttle_kept_of_quiet 2 2 throttledOnce _ (by decide) rfl
  exact (hkept.2 (.throttled 1) _ [.fire 1] s₂ rfl (by decide) rfl (by decide) hs₂ (by simp)).1

/-- **The callback of a throttle undoes the next one, and one that waits
undoes the throttle behind `stop`.** -/
theorem stale_callback_restores :
    (∃ s s', exec step (start 2 2) (throttledOnce ++ [.fire 0, .throttled 1]) = some s ∧
      step s (.restore 0) = some s' ∧ s.timers = [.fired, .armed] ∧ s.gate.allowed = 1 ∧
      s'.gate.allowed = 2) ∧
    ∃ s s', exec step (start 2 2) (throttledOnce ++ [.fire 0, .stop]) = some s ∧
      step s (.restore 0) = some s' ∧ s.gate.allowed = 1 ∧ s'.gate.allowed = 2 :=
  ⟨⟨_, _, rfl, rfl, rfl, rfl, rfl⟩, _, _, rfl, rfl, rfl, rfl⟩

end Gate

end NntpPool
