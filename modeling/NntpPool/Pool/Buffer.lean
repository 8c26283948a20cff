import NntpPool.Pool.Owned
/-!
# Pool — the read buffer of a slot

A slot hands its read buffer from one connection to the next: the new one
reads its greeting into the array the old one read into. The array is
handed over when `Run` has returned. `Run` does not wait for the
`readerLoop` it has started, so the old reader may still be in the middle
of a response. Where `Run` returns only behind its reader, the buffer has
one reader at any time.
-/

namespace NntpPool

namespace Pool

variable {S : Setup} {s s' : State} {l : Label} {c c' : Conn} {effs : List Effect}

/-- `readerLoop` has returned. -/
def Reader.terminated : Reader → Bool
  | .returned => true
  | .ended => true
  | _ => false

/-- **The slot's buffer has one reader.** While a slot builds a
connection on it, the readers of all its earlier connections are gone;
and of two connections of one slot, one reader is gone. -/
structure OneReader (s : State) : Prop where
  building : ∀ i first second, s.slots[i]? = some (.greet first second) →
    ∀ c ∈ s.conns, c.slot = i → c.reader.terminated = true
  apart : ∀ (j k : ℕ) (c d : Conn), j ≠ k → s.conns[j]? = some c → s.conns[k]? = some d →
    c.slot = d.slot → c.reader.terminated = true ∨ d.reader.terminated = true

/-- `Run` returns only behind its reader. -/
def Waits (s : State) : Label → Bool
  | .conn k (.writer .go) => s.conns[k]?.all fun c =>
    c.writer != .closing .loop || !c.pending.isEmpty || c.reader.terminated
  | _ => true

/-! ## Who runs a connection -/

/-- **A connection whose `Run` has not returned is the one its slot
runs.** -/
def Runs (s : State) : Prop :=
  ∀ (k : ℕ) (c : Conn), s.conns[k]? = some c → c.writer ≠ .dead → s.slots[c.slot]? = some (.run k)

/-- A connection stays with its slot, and does not come back. -/
theorem Conn.step_slot {env : Env} {a : ConnAct} (h : c.step S env a = some (c', effs)) :
    c'.slot = c.slot ∧ (c'.writer ≠ .dead → c.writer ≠ .dead) := by
  cases a with
  | writer a =>
    refine ⟨(writerStep_writes h).frame.1, fun _ hdead => ?_⟩
    simp [Conn.step, Conn.writerStep, hdead] at h
  | reader a =>
    obtain ⟨hslot, hw, -⟩ := (readerStep_reads h).frame
    exact ⟨hslot, fun hne => hw ▸ hne⟩

/-- A slot that runs a connection leaves it only dead. -/
theorem Acts.slots_get {i k : ℕ} (h : Acts S s l s' effs) (hi : s.slots[i]? = some (.run k)) :
    s'.slots[i]? = some (.run k) ∨ s.dead k = true := by
  cases h with
  | @slot j _ p q _ _ hp hs =>
    rw [foldl_apply_slots, List.getElem?_set]
    by_cases hij : j = i
    · subst hij
      obtain rfl := Option.some.inj (hi.symm.trans hp)
      cases hs
      case runEnd hdead => exact .inr hdead
    · exact .inl (by simp [hij, hi])
  | sendHot => exact .inl (by rw [foldl_apply_slots]; exact hi)
  | conn => exact .inl (by rw [foldl_apply_slots]; exact hi)
  | _ => exact .inl hi

theorem Runs.step (h : Runs s) (hact : Acts S s l s' effs) : Runs s' := by
  intro k c' hc' hne
  -- a connection from before, which its slot has not left
  have hkeep {c : Conn} (hc : s.conns[k]? = some c) (hslot : c'.slot = c.slot)
      (hlive : c.writer ≠ .dead) : s'.slots[c'.slot]? = some (.run k) := by
    rw [hslot]
    rcases hact.slots_get (h k c hc hlive) with hrun | hdead
    · exact hrun
    · simp [State.dead, hc, hlive] at hdead
  cases hact.origin hc' with
  | old hc => exact hkeep hc rfl hne
  | stepped hc hl hprio hhot hs =>
    obtain ⟨hslot, hlive⟩ := Conn.step_slot hs
    exact hkeep hc hslot (hlive hne)
  | new hnew hk hi hrun =>
    subst hnew
    exact hrun

theorem Runs.start (S : Setup) : Runs (Pool.start S) := by
  intro k c hc
  simp [Pool.start] at hc

/-! ## The reader -/

/-- **Where `Run` has returned, so has the reader.** -/
def Joined (s : State) : Prop := ∀ c ∈ s.conns, c.writer = .dead → c.reader.terminated = true

/-- A reader that has returned takes no other turn. -/
theorem Conn.step_terminated {env : Env} {a : ConnAct} (h : c.step S env a = some (c', effs))
    (hc : c.reader.terminated = true) : c'.reader.terminated = true := by
  cases a with
  | writer a => rwa [(writerStep_writes h).frame.2]
  | reader a =>
    cases readerStep_reads h
    case returned => rfl
    all_goals simp_all [Reader.terminated]

/-- `Run` returns at the end of its last `failOutstanding`. -/
theorem Writes.dead {env : Env} {a : WriterAct} (h : Writes S env c a c' effs)
    (hdead : c'.writer = .dead) : a = .go ∧ c.writer = .closing .loop ∧ c.pending = [] := by
  cases h
  case closing f f' d hw hf =>
    cases hf
    case empty hp => exact ⟨rfl, hw, hp⟩
    all_goals simp [Writer.after] at hdead
  case abort f' _ _ _ => cases f' <;> simp [Writer.after] at hdead
  case takeGo b _ _ => cases b <;> simp at hdead
  case postReady b _ _ => cases b <;> simp at hdead
  case keepaliveAnswer hto => rcases hto with rfl | rfl <;> simp at hdead
  all_goals simp_all

theorem Joined.step (h : Joined s) (hw : Waits s l = true) (hact : Acts S s l s' effs) :
    Joined s' := by
  intro c' hc' hdead
  obtain ⟨k, hk⟩ := List.mem_iff_getElem?.mp hc'
  cases hact.origin hk with
  | old hc => exact h c' (List.mem_of_getElem? hc) hdead
  | @stepped env a c hc hl hprio hhot hs =>
    by_cases hbefore : c.writer = .dead
    · exact Conn.step_terminated hs (h c (List.mem_of_getElem? hc) hbefore)
    cases a with
    | writer a =>
      obtain ⟨rfl, hclosing, hp⟩ := (writerStep_writes hs).dead hdead
      rcases hl with ⟨rfl, -⟩ | ⟨r, -, ha | ha⟩
      · have hterm : c.reader.terminated = true := by simpa [Waits, hc, hclosing, hp] using hw
        exact Conn.step_terminated hs hterm
      · cases ha
      · cases ha
    | reader a => exact absurd ((readerStep_reads hs).frame.2.1 ▸ hdead) hbefore
  | new hnew => subst hnew; cases hdead

theorem Joined.oneReader (h : Joined s) (hruns : Runs s) : OneReader s where
  building i first second hi c hc hslot := by
    refine h c hc ?_
    by_contra hlive
    obtain ⟨k, hk⟩ := List.mem_iff_getElem?.mp hc
    have hrun := hruns k c hk hlive
    rw [hslot, hi] at hrun
    cases hrun
  apart j k c d hjk hc hd hslot := by
    by_contra hboth
    obtain ⟨hcr, hdr⟩ := not_or.mp hboth
    have hrunc := hruns j c hc fun hdead => hcr (h c (List.mem_of_getElem? hc) hdead)
    have hrund := hruns k d hd fun hdead => hdr (h d (List.mem_of_getElem? hd) hdead)
    rw [hslot, hrund] at hrunc
    cases hrunc
    exact hjk rfl

/-- **Where `Run` waits for its reader, the buffer has one reader.** -/
theorem oneReader_of_waits (S : Setup) (ls : List Label) (s : State)
    (hwaits : Along (Pool.step S) (fun s l => Waits s l = true) (Pool.start S) ls)
    (h : exec (Pool.step S) (Pool.start S) ls = some s) : OneReader s := by
  have hinv : Joined s ∧ Runs s := by
    refine exec_invariant (I := fun s => Joined s ∧ Runs s) ?_ ls
      ⟨fun c hc => by simp [Pool.start] at hc, Runs.start S⟩ hwaits h
    rintro s l s' ⟨hjoined, hruns⟩ hw hstep
    obtain ⟨effs, hact⟩ := step_eq_some.1 hstep
    exact ⟨hjoined.step hw (act_acts hact), hruns.step (act_acts hact)⟩
  exact hinv.1.oneReader hinv.2

/-- `Run` fails on its next flush, and is about to fail what is on the
queue. -/
def writerLeaves : List Label :=
  [.conn 0 (.writer (.ioErr (.sentinel .connectionDied))), .conn 0 (.writer .go),
    .conn 0 (.writer .go), .conn 0 (.writer .go)]

/-- It finds the queue empty. -/
def writerReturns : List Label := [.conn 0 (.writer .go), .conn 0 (.writer .go)]

/-- The slot takes the next request and dials. -/
def nextDial : List Label :=
  [.slot 0 .go, .start 1, .send 1, .slot 0 .req, .slot 0 .go, .slot 0 .go, .slot 0 .go,
    .slot 0 .go]

/-- The reader fails what is on the queue, and returns before the writer
does. -/
def joinedRun : List Label :=
  written ++ writerLeaves ++ .conn 0 (.reader .connDone) ::
    List.replicate 6 (.conn 0 (.reader .go)) ++ writerReturns ++ nextDial

theorem oneReader_of_waits_joinedRun :
    ∃ s, exec (Pool.step statPool) (Pool.start statPool) joinedRun = some s ∧
      s.slots = [.greet 1 none] ∧ s.conns.map Conn.reader = [.returned] ∧ OneReader s := by
  have hrun : (exec (Pool.step statPool) (Pool.start statPool) joinedRun).map
      (fun s => (s.slots, s.conns.map Conn.reader)) = some ([.greet 1 none], [.returned]) := by
    decide
  obtain ⟨s, hs, hp⟩ := Option.map_eq_some_iff.mp hrun
  obtain ⟨hslots, hreaders⟩ := Prod.mk.inj hp
  exact ⟨s, hs, hslots, hreaders,
    oneReader_of_waits statPool joinedRun s (by decide) hs⟩

/-- The reader takes the request, and is reading its response when the
writer leaves. -/
def overlappingRun : List Label :=
  written ++ List.replicate 4 (.conn 0 (.reader .go)) ++ writerLeaves ++ writerReturns ++ nextDial

/-- **A slot builds a connection on a buffer that is being read into.** -/
theorem buffer_shared_with_old_reader :
    ∃ s, exec (Pool.step statPool) (Pool.start statPool) overlappingRun = some s ∧
      s.slots = [.greet 1 none] ∧ s.conns.map Conn.reader = [.feed ⟨0, false, true, true⟩ true] ∧
      ¬OneReader s := by
  have hrun : (exec (Pool.step statPool) (Pool.start statPool) overlappingRun).map
      (fun s => (s.slots, s.conns.map fun c => (c.slot, c.reader))) =
        some ([.greet 1 none], [(0, .feed ⟨0, false, true, true⟩ true)]) := by
    decide
  obtain ⟨s, hs, hp⟩ := Option.map_eq_some_iff.mp hrun
  obtain ⟨hslots, hconns⟩ := Prod.mk.inj hp
  obtain ⟨c, hc, hreader⟩ := List.map_eq_singleton_iff.mp hconns
  obtain ⟨hslot, hreader⟩ := Prod.mk.inj hreader
  refine ⟨s, hs, hslots, by simp [hc, hreader], fun h => ?_⟩
  have hterm := h.building 0 1 none (by simp [hslots]) c (by simp [hc]) hslot
  rw [hreader] at hterm
  cases hterm

end Pool

end NntpPool
