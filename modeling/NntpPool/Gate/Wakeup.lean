import NntpPool.Gate.Model.Enter
import NntpPool.Gate.Slots
import Mathlib.Tactic.SplitIfs
/-!
# Gate — waking a cancelled `enter`

The goroutine of `enter` broadcasts once, without the mutex, when a
context of the call is done. The caller has looked at the contexts before
it registers with the condition variable, so the broadcast can fall in
between and reach nobody. Along a run every cancelled caller that is
parked has its broadcast to come exactly if nobody parks behind it.
-/

namespace NntpPool

namespace Gate

namespace Enter

variable {s s' : State} {l : Label} {n : ℕ} {c c' : Call}

/-! ## Steps -/

/-- The call is behind `close(done)`. -/
def Pc.past : Pc → Bool
  | .unlocking _ | .returned _ => true
  | _ => false

/-- **What a step of `enter` makes of its call.** -/
structure Ran (c c' : Call) : Prop where
  slot : c'.slot = c.slot
  slotCtx : c'.slotCtx = c.slotCtx
  reqCtx : c'.reqCtx = c.reqCtx
  helper : c'.helper = c.helper
  closed : c.closed = c.pc.past → c'.closed = c'.pc.past
  stays : c.closed = true → c'.closed = true
  /-- It parks only from `Wait`. -/
  parks : c'.pc = .parked ↔ c.pc = .waiting

/-- **What a step makes of call `n`.** -/
inductive Goes (s : State) (n : ℕ) (c : Call) : Label → Call → Prop
  | keep {l : Label} (hl : l ≠ .run n) : Goes s n c l c
  | wake {l : Label} (hl : l ≠ .run n) : Goes s n c l c.wake
  | run {c' : Call} (h : Ran c c') : Goes s n c (.run n) c'
  | select (h : s.doomed c = true ∨ c.closed = true) :
      Goes s n c (.helper n) { c with helper := .broadcasting }
  | broadcast (h : c.helper = .broadcasting) :
      Goes s n c (.helper n) { c with helper := .ended }.wake

/-- The call goes on to `pc`. -/
theorem Ran.go {pc : Pc} (hpast : pc.past = c.pc.past)
    (hparks : pc = .parked ↔ c.pc = .waiting) : Ran c { c with pc } :=
  ⟨rfl, rfl, rfl, rfl, fun h => h.trans hpast.symm, id, hparks⟩

theorem run_eq_some (h : s.run n c = some s') :
    ∃ c', Ran c c' ∧ s'.calls = s.calls.set n c' ∧ s'.cancelled = s.cancelled := by
  unfold State.run at h
  cases hpc : c.pc with
  | locking | woken =>
    simp only [hpc] at h
    split_ifs at h
    obtain rfl := Option.some.inj h
    exact ⟨_, .go (by simp [hpc, Pc.past]) (by simp [hpc]), rfl, rfl⟩
  | looping =>
    simp only [hpc] at h
    split_ifs at h
    · obtain rfl := Option.some.inj h
      exact ⟨_, .go (by simp [hpc, Pc.past]) (by simp [hpc]), rfl, rfl⟩
    · obtain ⟨b, -, rfl⟩ := Option.map_eq_some_iff.mp h
      exact ⟨_, .go (by simp [hpc, Pc.past]) (by simp [hpc]), rfl, rfl⟩
  | testSlot | testReq =>
    simp only [hpc] at h
    obtain rfl := Option.some.inj h
    refine ⟨_, .go ?_ ?_, rfl, rfl⟩
    · split_ifs <;> simp [hpc, Pc.past]
    · split_ifs <;> simp [hpc]
  | waiting =>
    simp only [hpc] at h
    obtain rfl := Option.some.inj h
    exact ⟨_, .go (by simp [hpc, Pc.past]) (by simp [hpc]), rfl, rfl⟩
  | closing granted =>
    simp only [hpc] at h
    obtain rfl := Option.some.inj h
    refine ⟨{ c with closed := true, pc := .unlocking granted }, ?_, by simp [State.go], rfl⟩
    exact ⟨rfl, rfl, rfl, rfl, fun _ => rfl, fun _ => rfl, by simp [hpc]⟩
  | unlocking granted =>
    simp only [hpc] at h
    obtain rfl := Option.some.inj h
    exact ⟨_, .go (by simp [hpc, Pc.past]) (by simp [hpc]), rfl, rfl⟩
  | parked | returned granted => simp [hpc] at h

theorem operate_eq_some {l : Gate.Label} (h : s.operate l = some s') :
    ∃ b, Gate.step s.base l = some b ∧
      s' = { s with base := b, owed := if broadcasts l then l :: s.owed else s.owed } := by
  unfold State.operate at h
  by_cases hblocked : enters l || (locks l && s.owner.isSome) || (slotOf l).any fun i => !s.free i
  · simp [hblocked] at h
  · rw [if_neg hblocked] at h
    obtain ⟨b, hb, rfl⟩ := Option.map_eq_some_iff.mp h
    exact ⟨b, hb, rfl⟩

/-- A call in the list behind one that was set. -/
theorem getElem?_set_cases {xs : List Call} {m : ℕ} {x : Call} (h : (xs.set m x)[n]? = some c') :
    (m = n ∧ c' = x) ∨ (m ≠ n ∧ xs[n]? = some c') := by
  rw [List.getElem?_set] at h
  split_ifs at h with hmn hlt
  · exact .inl ⟨hmn, (Option.some.inj h).symm⟩
  · exact .inr ⟨hmn, h⟩

theorem wakeAll_calls (h : s.wakeAll.calls[n]? = some c') :
    ∃ c, s.calls[n]? = some c ∧ c' = c.wake := by
  simp only [State.wakeAll, List.getElem?_map, Option.map_eq_some_iff] at h
  obtain ⟨c, hc, rfl⟩ := h
  exact ⟨c, hc, rfl⟩

/-- **Every call comes from one that was there**, or is new. -/
theorem step_goes (h : step s l = some s') (hc' : s'.calls[n]? = some c') :
    (∃ c, s.calls[n]? = some c ∧ Goes s n c l c') ∨
      (c'.pc = .locking ∧ c'.helper = .selecting ∧ c'.closed = false) := by
  cases l with
  | call i slotCtx reqCtx =>
    simp only [step] at h
    split_ifs at h
    obtain rfl := Option.some.inj h
    rcases Nat.lt_or_ge n s.calls.length with hlt | hge
    · rw [List.getElem?_append_left hlt] at hc'
      exact .inl ⟨c', hc', .keep (by simp)⟩
    · rw [List.getElem?_append_right hge] at hc'
      obtain rfl := List.mem_singleton.mp (List.mem_of_getElem? hc')
      exact .inr ⟨rfl, rfl, rfl⟩
  | run m =>
    obtain ⟨c, hc, h⟩ := Option.bind_eq_some_iff.mp h
    obtain ⟨x, hran, hcalls, -⟩ := run_eq_some h
    rw [hcalls] at hc'
    rcases getElem?_set_cases hc' with ⟨rfl, rfl⟩ | ⟨hne, hc'⟩
    · exact .inl ⟨c, hc, .run hran⟩
    · exact .inl ⟨c', hc', .keep (by simpa using hne)⟩
  | helper m =>
    obtain ⟨c, hc, h⟩ := Option.bind_eq_some_iff.mp h
    unfold State.help at h
    cases hhelper : c.helper with
    | selecting =>
      simp only [hhelper] at h
      split_ifs at h with hready
      obtain rfl := Option.some.inj h
      rcases getElem?_set_cases hc' with ⟨rfl, rfl⟩ | ⟨-, hc'⟩
      · exact .inl ⟨c, hc, .select (by simpa using hready)⟩
      · exact .inl ⟨c', hc', .keep (by simp)⟩
    | broadcasting =>
      simp only [hhelper] at h
      obtain rfl := Option.some.inj h
      obtain ⟨x, hx, rfl⟩ := wakeAll_calls hc'
      rcases getElem?_set_cases hx with ⟨rfl, rfl⟩ | ⟨-, hx⟩
      · exact .inl ⟨c, hc, .broadcast hhelper⟩
      · exact .inl ⟨x, hx, .wake (by simp)⟩
    | ended => simp [hhelper] at h
  | cancel ctx =>
    obtain rfl := Option.some.inj h
    exact .inl ⟨c', hc', .keep (by simp)⟩
  | other l =>
    obtain ⟨b, -, rfl⟩ := operate_eq_some h
    exact .inl ⟨c', hc', .keep (by simp)⟩
  | broadcast l =>
    simp only [step] at h
    split_ifs at h
    obtain rfl := Option.some.inj h
    obtain ⟨c, hc, rfl⟩ := wakeAll_calls hc'
    exact .inl ⟨c, hc, .wake (by simp)⟩

/-- Contexts stay done. -/
theorem step_cancelled (h : step s l = some s') : s.cancelled ⊆ s'.cancelled := by
  cases l with
  | call i slotCtx reqCtx =>
    simp only [step] at h
    split_ifs at h
    exact Option.some.inj h ▸ List.Subset.refl _
  | run m =>
    obtain ⟨c, -, h⟩ := Option.bind_eq_some_iff.mp h
    obtain ⟨x, -, -, hcancelled⟩ := run_eq_some h
    exact hcancelled ▸ List.Subset.refl _
  | helper m =>
    obtain ⟨c, -, h⟩ := Option.bind_eq_some_iff.mp h
    unfold State.help at h
    split at h
    · split_ifs at h
      exact Option.some.inj h ▸ List.Subset.refl _
    · exact Option.some.inj h ▸ List.Subset.refl _
    · simp at h
  | cancel ctx => exact Option.some.inj h ▸ List.subset_cons_self ..
  | other l =>
    obtain ⟨b, -, rfl⟩ := operate_eq_some h
    exact List.Subset.refl _
  | broadcast l =>
    simp only [step] at h
    split_ifs at h
    exact Option.some.inj h ▸ List.Subset.refl _

/-! ## The gate below -/

/-- What `enter` does to the gate is the gate's own `enter`. -/
theorem run_base (h : s.run n c = some s') :
    s'.base = s.base ∨ Gate.step s.base (.enter c.slot) = some s'.base := by
  unfold State.run at h
  split at h
  case h_3 =>
    split_ifs at h
    · exact .inl (Option.some.inj h ▸ rfl)
    · obtain ⟨b, hb, rfl⟩ := Option.map_eq_some_iff.mp h
      exact .inr hb
  case h_1 | h_2 =>
    split_ifs at h
    exact .inl (Option.some.inj h ▸ rfl)
  case h_9 | h_10 => simp at h
  all_goals exact .inl (Option.some.inj h ▸ rfl)

/-- **A step leaves the gate alone or is one of its steps.** -/
theorem step_base (h : step s l = some s') :
    s'.base = s.base ∨ ∃ k, Gate.step s.base k = some s'.base := by
  cases l with
  | call i slotCtx reqCtx =>
    simp only [step] at h
    split_ifs at h
    exact .inl (Option.some.inj h ▸ rfl)
  | run m =>
    obtain ⟨c, -, h⟩ := Option.bind_eq_some_iff.mp h
    exact (run_base h).imp_right fun hb => ⟨_, hb⟩
  | helper m =>
    obtain ⟨c, -, h⟩ := Option.bind_eq_some_iff.mp h
    unfold State.help at h
    split at h
    · split_ifs at h
      exact .inl (Option.some.inj h ▸ rfl)
    · exact .inl (Option.some.inj h ▸ rfl)
    · simp at h
  | cancel ctx => exact .inl (Option.some.inj h ▸ rfl)
  | other k =>
    obtain ⟨b, hb, rfl⟩ := operate_eq_some h
    exact .inr ⟨k, hb⟩
  | broadcast k =>
    simp only [step] at h
    split_ifs at h
    exact .inl (Option.some.inj h ▸ rfl)

/-- **Step by step, the gate is the gate**: what a run does to it, a run
of the gate does. -/
theorem refines_gate {max : ℤ} {slots : ℕ} {ls : List Label}
    (h : exec step (start max slots) ls = some s) :
    ∃ ks, exec Gate.step (Gate.start max slots) ks = some s.base := by
  refine exec_invariant (P := fun _ _ => True)
    (I := fun s => ∃ ks, exec Gate.step (Gate.start max slots) ks = some s.base)
    (fun s l s' hs _ hstep => ?_) ls ⟨[], rfl⟩ (along_true _ _) h
  obtain ⟨ks, hks⟩ := hs
  rcases step_base hstep with hbase | ⟨k, hk⟩
  · exact ⟨ks, hbase ▸ hks⟩
  · exact ⟨ks ++ [k], exec_concat hks hk⟩

/-- So its counts are kept. -/
theorem counted {max : ℤ} (hmax : 1 ≤ max) {slots : ℕ} {ls : List Label}
    (h : exec step (start max slots) ls = some s) : Counted max s.base := by
  obtain ⟨ks, hks⟩ := refines_gate h
  exact counted_run hmax hks

/-! ## The goroutine of a call -/

@[simp] theorem Call.wake_helper (c : Call) : c.wake.helper = c.helper := by
  unfold Call.wake
  split_ifs <;> rfl

@[simp] theorem Call.wake_closed (c : Call) : c.wake.closed = c.closed := by
  unfold Call.wake
  split_ifs <;> rfl

@[simp] theorem Call.wake_past (c : Call) : c.wake.pc.past = c.pc.past := by
  unfold Call.wake
  split_ifs with h
  · simp [h, Pc.past]
  · rfl

/-- Behind a broadcast nobody is parked. -/
theorem Call.wake_not_parked (c : Call) : c.wake.pc ≠ .parked := by
  unfold Call.wake
  split_ifs with h
  · simp
  · exact h

@[simp] theorem doomed_wake (c : Call) : s.doomed c.wake = s.doomed c := by
  unfold Call.wake
  split_ifs <;> rfl

theorem doomed_mono (hsub : s.cancelled ⊆ s'.cancelled) (h : s.doomed c = true) :
    s'.doomed c = true := by
  simp only [State.doomed, Bool.or_eq_true, List.contains_iff_mem] at h ⊢
  exact h.imp (hsub ·) (hsub ·)

/-- **The invariant of a call**: `done` is closed behind the loop only,
and the goroutine has left its `select` for a reason. -/
structure Sound (s : State) (c : Call) : Prop where
  closed : c.closed = c.pc.past
  selected : c.helper ≠ .selecting → s.doomed c = true ∨ c.closed = true

theorem Goes.sound (hs : Sound s c) (hsub : s.cancelled ⊆ s'.cancelled) (h : Goes s n c l c') :
    Sound s' c' := by
  have hselected (hne : c.helper ≠ .selecting) : s'.doomed c = true ∨ c.closed = true :=
    (hs.selected hne).imp_left (doomed_mono hsub)
  cases h with
  | keep => exact ⟨hs.closed, hselected⟩
  | wake => exact ⟨by simpa using hs.closed, by simpa using hselected⟩
  | run hran =>
    refine ⟨hran.closed hs.closed, fun hne => ?_⟩
    rw [State.doomed, hran.slotCtx, hran.reqCtx]
    exact (hselected (hran.helper ▸ hne)).imp_right hran.stays
  | select hready => exact ⟨hs.closed, fun _ => hready.imp_left (doomed_mono hsub)⟩
  | broadcast hhelper =>
    have hready := hselected (by simp [hhelper])
    refine ⟨by simpa using hs.closed, fun _ => ?_⟩
    rw [doomed_wake, Call.wake_closed]
    exact hready

theorem sound_step (hs : ∀ c ∈ s.calls, Sound s c) (h : step s l = some s') :
    ∀ c ∈ s'.calls, Sound s' c := by
  intro c' hc'
  obtain ⟨n, hn⟩ := List.mem_iff_getElem?.mp hc'
  rcases step_goes h hn with ⟨c, hc, hgoes⟩ | ⟨hpc, hhelper, hclosed⟩
  · exact hgoes.sound (hs c (List.mem_of_getElem? hc)) (step_cancelled h)
  · exact ⟨by simp [hpc, hclosed, Pc.past], fun hne => absurd hhelper hne⟩

theorem sound_run {max : ℤ} {slots : ℕ} {ls : List Label}
    (h : exec step (start max slots) ls = some s) : ∀ c ∈ s.calls, Sound s c :=
  exec_invariant (P := fun _ _ => True) (I := fun s => ∀ c ∈ s.calls, Sound s c)
    (fun _ _ _ hs _ hstep => sound_step hs hstep) ls (by simp [start]) (along_true _ _) h

/-- **Who parks behind its broadcast** has been cancelled. -/
theorem Sound.doomed (hs : Sound s c) (hpc : c.pc = .waiting ∨ c.pc = .parked)
    (hhelper : c.helper = .ended) : s.doomed c = true := by
  refine (hs.selected (by simp [hhelper])).resolve_right fun hclosed => ?_
  rw [hs.closed] at hclosed
  rcases hpc with hpc | hpc <;> simp [hpc, Pc.past] at hclosed

/-! ## Wake-ups -/

/-- A broadcast reaches a caller that is parked. -/
theorem wakes_of_broadcasting (hc : s.calls[n]? = some c) (hpc : c.pc = .parked)
    (hhelper : c.helper = .broadcasting) : s.wakes n := by
  have hlt : n < s.calls.length := (List.getElem?_eq_some_iff.mp hc).1
  refine ⟨1, { s with calls := s.calls.set n { c with helper := .ended } }.wakeAll,
    { c with pc := .woken, helper := .ended }, ?_, ?_, rfl⟩
  · simp [exec, step, hc, State.help, hhelper]
  · simp [State.wakeAll, hlt, Call.wake, hpc]

/-- The goroutine of a cancelled caller that is parked can always go on,
until it has broadcast. -/
theorem wakes_iff (hc : s.calls[n]? = some c) (hpc : c.pc = .parked) (hdoomed : s.doomed c = true) :
    s.wakes n ↔ c.helper ≠ .ended := by
  have hlt : n < s.calls.length := (List.getElem?_eq_some_iff.mp hc).1
  constructor
  · rintro ⟨k, s', c', hrun, hc', hpc'⟩ hended
    cases k with
    | zero =>
      cases hrun
      obtain rfl : c = c' := by simpa [hc] using hc'
      simp [hpc] at hpc'
    | succ k =>
      obtain ⟨m, hm, -⟩ := exec_cons.1 hrun
      simp [step, hc, State.help, hended] at hm
  · intro hne
    cases hhelper : c.helper with
    | selecting =>
      have hselect : step s (.helper n) =
          some { s with calls := s.calls.set n { c with helper := .broadcasting } } := by
        simp [step, hc, State.help, hhelper, hdoomed]
      obtain ⟨k, s', c', hrun, hwoken⟩ := wakes_of_broadcasting
        (s := { s with calls := s.calls.set n { c with helper := .broadcasting } })
        (n := n) (c := { c with helper := .broadcasting }) (by simp [hlt]) hpc rfl
      exact ⟨k + 1, s', c', exec_cons.2 ⟨_, hselect, hrun⟩, hwoken⟩
    | broadcasting => exact wakes_of_broadcasting hc hpc hhelper
    | ended => exact absurd hhelper hne

/-- **Every cancelled caller will be woken**: where one is parked, a
broadcast is still to come from its own goroutine. -/
def State.heard (s : State) : Prop :=
  ∀ n c, s.calls[n]? = some c → c.pc = .parked → s.doomed c = true → s.wakes n

/-- **The step does not park a caller behind its broadcast.** -/
def State.prompt (s : State) (l : Label) : Prop :=
  ∀ n c, l = .run n → s.calls[n]? = some c → c.pc = .waiting → c.helper ≠ .ended

/-- A caller that is parked behind its broadcast was so before, or parks
now. -/
theorem Goes.missed (h : Goes s n c l c') (hpc : c'.pc = .parked) (hhelper : c'.helper = .ended) :
    c.helper = .ended ∧ (c.pc = .parked ∨ l = .run n ∧ c.pc = .waiting) := by
  cases h with
  | keep => exact ⟨hhelper, .inl hpc⟩
  | wake => exact absurd hpc c.wake_not_parked
  | run hran => exact ⟨hran.helper ▸ hhelper, .inr ⟨rfl, hran.parks.mp hpc⟩⟩
  | select => simp at hhelper
  | broadcast => exact absurd hpc (Call.wake_not_parked _)

/-- **A step keeps the wake-ups exactly if it is prompt.** -/
theorem heard_step (hs : ∀ c ∈ s.calls, Sound s c) (hheard : s.heard) (h : step s l = some s') :
    s.prompt l ↔ s'.heard := by
  constructor
  · intro hprompt n c' hc' hpc hdoomed
    refine (wakes_iff hc' hpc hdoomed).mpr fun hended => ?_
    rcases step_goes h hc' with ⟨c, hc, hgoes⟩ | ⟨-, hhelper, -⟩
    · obtain ⟨hhelper, hparked | ⟨rfl, hwaiting⟩⟩ := hgoes.missed hpc hended
      · have hdoomed := (hs c (List.mem_of_getElem? hc)).doomed (.inr hparked) hhelper
        exact (wakes_iff hc hparked hdoomed).mp (hheard n c hc hparked hdoomed) hhelper
      · exact hprompt n c rfl hc hwaiting hhelper
    · simp [hhelper] at hended
  · rintro hheard' n c rfl hc hwaiting hended
    -- it parks, and is cancelled already
    have hdoomed := (hs c (List.mem_of_getElem? hc)).doomed (.inl hwaiting) hended
    have hlt : n < s.calls.length := (List.getElem?_eq_some_iff.mp hc).1
    obtain rfl : { s with owner := none }.go n c .parked = s' := by
      simpa [step, hc, State.run, hwaiting] using h
    have hc' : ({ s with owner := none }.go n c .parked).calls[n]? = some { c with pc := .parked } := by
      simp [State.go, hlt]
    exact (wakes_iff hc' rfl hdoomed).mp (hheard' n _ hc' rfl hdoomed) hended

/-- **No wake-up is lost, except between the look at the contexts and
`Wait`.** Along any run, every cancelled caller that is parked has a
broadcast of its goroutine to come, exactly if no caller registers with
the condition variable behind that broadcast. -/
theorem wakeups_kept_iff (max : ℤ) (slots : ℕ) (ls : List Label) :
    (∀ ks s, ks <+: ls → exec step (start max slots) ks = some s → s.heard) ↔
      Along step State.prompt (start max slots) ls := by
  have hstep (s : State) (l : Label) (s' : State)
      (hs : (∀ c ∈ s.calls, Sound s c) ∧ s.heard) (h : step s l = some s') :
      s.prompt l ↔ (∀ c ∈ s'.calls, Sound s' c) ∧ s'.heard := by
    rw [heard_step hs.1 hs.2 h]
    exact ⟨fun hheard => ⟨sound_step hs.1 h, hheard⟩, And.right⟩
  have hstuck (s : State) (l : Label) (h : step s l = none) : s.prompt l := by
    rintro n c rfl hc hwaiting -
    simp [step, hc, State.run, hwaiting] at h
  rw [along_iff_reached hstep hstuck ls ⟨by simp [start], by simp [State.heard, start]⟩]
  constructor
  · intro h ks s hks hrun
    exact ⟨sound_run hrun, h ks s hks hrun⟩
  · intro h ks s hks hrun
    exact (h ks s hks hrun).2

/-- **A wake-up is lost.** The one connection is taken; the second caller
has looked at its contexts and not yet called `Wait` when its request is
cancelled and the goroutine broadcasts. Then it parks, cancelled, and no
broadcast of its goroutine is to come. -/
theorem wakeup_lost :
    ∃ s c, exec step (start 1 2)
        [.call 0 0 1, .run 0, .run 0, .run 0, .run 0, .call 1 2 3, .run 1, .run 1, .run 1, .run 1,
          .cancel 3, .helper 1, .helper 1, .run 1] = some s ∧
      s.calls[1]? = some c ∧ c.pc = .parked ∧ s.doomed c = true ∧ ¬ s.wakes 1 := by
  have hrun : (exec step (start 1 2)
      [.call 0 0 1, .run 0, .run 0, .run 0, .run 0, .call 1 2 3, .run 1, .run 1, .run 1, .run 1,
        .cancel 3, .helper 1, .helper 1, .run 1]).bind (fun s => s.calls[1]?.map fun c =>
          (c.pc, c.helper, s.doomed c)) = some (.parked, .ended, true) := by
    decide
  obtain ⟨s, hs, hc⟩ := Option.bind_eq_some_iff.mp hrun
  obtain ⟨c, hc, heq⟩ := Option.map_eq_some_iff.mp hc
  obtain ⟨hpc, hhelper, hdoomed⟩ : c.pc = .parked ∧ c.helper = .ended ∧ s.doomed c = true := by
    simpa using heq
  exact ⟨s, c, hs, hc, hpc, hdoomed, fun h => (wakes_iff hc hpc hdoomed).mp h hhelper⟩

end Enter

end Gate

end NntpPool
