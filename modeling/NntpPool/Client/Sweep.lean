import NntpPool.Client.Model.StatMany
import NntpPool.Common.Shares
import Mathlib.Data.List.Perm.Subperm
/-!
# Client — every message-ID is reported once

What the steps of a sweep can do is said once (`Steps`). In every state a
sweep comes to, the semaphore counts the workers that have a slot and the
wait group those that are not done, and a result that was sent is received
or in the channel, once. So the channel is closed behind the last worker,
and nothing is lost unless the context is done.

Every step is one of finitely many (`Sound.cost_lt`), and there is one
until the channel is closed and drained (`Sound.progress`): a sweep comes
to its end, whatever its parties do.
-/

namespace NntpPool

namespace Client

namespace Sweep

variable {S : Sweep} {s s' : State} {l : Label} {w w' : Worker} {j : ℕ}

/-! ## Steps -/

/-- **The steps of a sweep.** -/
inductive Steps (S : Sweep) (s : State) : Label → State → Prop
  | acquire {id : Bytes} {todo : List Bytes} (hd : s.dispatcher = .choosing)
      (ht : s.todo = id :: todo) (hsem : s.sem < S.conc) :
      Steps S s .acquire { s with dispatcher := .starting id, todo := todo, sem := s.sem + 1 }
  | breakOff (hd : s.dispatcher = .choosing) (hc : s.cancelled = true) :
      Steps S s .breakOff { s with dispatcher := .waiting }
  | start {id : Bytes} (hd : s.dispatcher = .starting id) :
      Steps S s .start { s with
        dispatcher := .choosing
        wg := s.wg + 1
        workers := s.workers ++ [{ messageID := id }] }
  | loopEnd (hd : s.dispatcher = .choosing) (ht : s.todo = []) :
      Steps S s .loopEnd { s with dispatcher := .waiting }
  | close (hd : s.dispatcher = .waiting) (hwg : s.wg = 0) :
      Steps S s .close { s with dispatcher := .closed }
  | check {j : ℕ} {w : Worker} (a : Answers) (hj : s.workers[j]? = some w)
      (hp : w.phase = .checking) :
      Steps S s (.work j (.check a))
        (s.put j { w with phase := .sending (statOne w.messageID S.target S.targetErr a) })
  | send {j : ℕ} {w : Worker} {res : StatManyResult} (hj : s.workers[j]? = some w)
      (hp : w.phase = .sending res) (hd : s.dispatcher ≠ .closed) (hroom : s.out.length < S.conc) :
      Steps S s (.work j .send)
        ({ s with out := s.out ++ [res] }.put j { w with phase := .releasing, sent := true })
  | sendClosed {j : ℕ} {w : Worker} {res : StatManyResult} (hj : s.workers[j]? = some w)
      (hp : w.phase = .sending res) (hd : s.dispatcher = .closed) :
      Steps S s (.work j .send) { s with panicked := true }
  | abandon {j : ℕ} {w : Worker} {res : StatManyResult} (hj : s.workers[j]? = some w)
      (hp : w.phase = .sending res) (hc : s.cancelled = true) :
      Steps S s (.work j .abandon) (s.put j { w with phase := .releasing })
  | release {j : ℕ} {w : Worker} (hj : s.workers[j]? = some w) (hp : w.phase = .releasing)
      (hsem : s.sem ≠ 0) :
      Steps S s (.work j .release)
        ({ s with sem := s.sem - 1 }.put j { w with phase := .finishing })
  | finish {j : ℕ} {w : Worker} (hj : s.workers[j]? = some w) (hp : w.phase = .finishing)
      (hwg : s.wg ≠ 0) :
      Steps S s (.work j .finish) ({ s with wg := s.wg - 1 }.put j { w with phase := .done })
  | finishBelow {j : ℕ} {w : Worker} (hj : s.workers[j]? = some w) (hp : w.phase = .finishing)
      (hwg : s.wg = 0) : Steps S s (.work j .finish) { s with panicked := true }
  | receive {res : StatManyResult} {out : List StatManyResult} (ho : s.out = res :: out) :
      Steps S s .receive { s with out := out, received := s.received ++ [res] }
  | cancel (hc : s.cancelled = false) : Steps S s .cancel { s with cancelled := true }

theorem work_steps {act : Act} (hj : s.workers[j]? = some w) (h : S.work s j w act = some s') :
    Steps S s (.work j act) s' := by
  cases act with
  | check a =>
    rw [work] at h
    split at h
    · cases h
      exact .check a hj (by assumption)
    · cases h
  | send =>
    rw [work] at h
    split at h
    · split_ifs at h with hd hroom
      · cases h
        exact .sendClosed hj (by assumption) hd
      · cases h
        exact .send hj (by assumption) hd hroom
    · cases h
  | abandon =>
    rw [work] at h
    split at h
    · split_ifs at h with hc
      cases h
      exact .abandon hj (by assumption) hc
    · cases h
  | release =>
    rw [work] at h
    split at h
    · split_ifs at h with hsem
      cases h
      exact .release hj (by assumption) hsem
    · cases h
  | finish =>
    rw [work] at h
    split at h
    · split_ifs at h with hwg
      · cases h
        exact .finishBelow hj (by assumption) hwg
      · cases h
        exact .finish hj (by assumption) hwg
    · cases h

/-- **A sweep takes no other step.** -/
theorem step_steps (h : S.step s l = some s') : Steps S s l s' := by
  cases l with
  | acquire =>
    rw [step] at h
    split at h
    · split_ifs at h with hsem
      cases h
      exact .acquire (by assumption) (by assumption) hsem
    · cases h
  | breakOff =>
    rw [step] at h
    split at h
    · split_ifs at h with hc
      cases h
      exact .breakOff (by assumption) hc
    · cases h
  | start =>
    rw [step] at h
    split at h
    · cases h
      exact .start (by assumption)
    · cases h
  | loopEnd =>
    rw [step] at h
    split at h
    · cases h
      exact .loopEnd (by assumption) (by assumption)
    · cases h
  | close =>
    rw [step] at h
    split_ifs at h with hg
    cases h
    exact .close hg.1 hg.2
  | work j act =>
    obtain ⟨w, hj, h⟩ := Option.bind_eq_some_iff.mp h
    exact work_steps hj h
  | receive =>
    rw [step] at h
    split at h
    · cases h
      exact .receive (by assumption)
    · cases h
  | cancel =>
    rw [step] at h
    split_ifs at h with hc
    cases h
    exact .cancel (by simpa using hc)

/-! ## The invariant -/

/-- The slots a worker has. -/
def Worker.slots (w : Worker) : ℕ :=
  match w.phase with
  | .checking => 1
  | .sending _ => 1
  | .releasing => 1
  | _ => 0

/-- What the wait group counts of it. -/
def Worker.pending (w : Worker) : ℕ :=
  match w.phase with
  | .done => 0
  | _ => 1

/-- The results for a message-ID it has sent. -/
def Worker.delivered (id : Bytes) (w : Worker) : ℕ :=
  if w.sent = true ∧ w.messageID = id then 1 else 0

/-- What is to be known of a worker: what it is about to send is its own,
and what it has not sent, it was told to drop. -/
def Worker.Ok (cancelled : Bool) (w : Worker) : Prop :=
  match w.phase with
  | .checking => w.sent = false
  | .sending res => w.sent = false ∧ res.messageID = w.messageID
  | _ => cancelled = false → w.sent = true

/-- The message-ID of the worker that is about to be started. -/
def Dispatcher.held : Dispatcher → List Bytes
  | .starting id => [id]
  | _ => []

/-- How often a message-ID is among what was sent. -/
def State.sentCount (s : State) (id : Bytes) : ℕ :=
  ((s.received ++ s.out).map StatManyResult.messageID).count id

/-- **The invariant of a sweep.** -/
structure Sound (S : Sweep) (s : State) : Prop where
  ids : s.dispatched ++ s.dispatcher.held ++ s.todo = S.messageIDs
  sem : s.sem = shares Worker.slots s.workers + s.dispatcher.held.length
  sem_le : s.sem ≤ S.conc
  wg : s.wg = shares Worker.pending s.workers
  room : s.out.length ≤ S.conc
  delivered : ∀ id, s.sentCount id = shares (Worker.delivered id) s.workers
  workers : ∀ w ∈ s.workers, w.Ok s.cancelled
  stops : s.dispatcher = .waiting ∨ s.dispatcher = .closed → s.cancelled = false → s.todo = []
  closed : s.dispatcher = .closed → s.wg = 0
  panicked : s.panicked = false

theorem statOne_messageID (id : Bytes) (target : Option Group) (targetErr : Option GoError)
    (a : Answers) : (statOne id target targetErr a).messageID = id := by
  unfold statOne
  split <;> rfl

theorem Worker.pending_le (w : Worker) : w.pending ≤ 1 := by
  unfold Worker.pending
  split <;> omega

theorem Worker.slots_le (w : Worker) : w.slots ≤ w.pending := by
  unfold Worker.slots Worker.pending
  cases w.phase <;> simp

/-- A worker that is not done keeps the channel open. -/
theorem Sound.open (h : Sound S s) (hj : s.workers[j]? = some w) (hp : w.pending = 1) :
    0 < s.wg ∧ s.dispatcher ≠ .closed := by
  have hle := le_shares (f := Worker.pending) hj
  rw [hp, ← h.wg] at hle
  refine ⟨hle, fun hclosed => ?_⟩
  have := h.closed hclosed
  omega

/-- A worker keeps its message-ID. -/
theorem map_set_messageID (hj : s.workers[j]? = some w) (p : Phase) (sent : Bool) :
    (s.workers.set j ⟨w.messageID, p, sent⟩).map Worker.messageID = s.dispatched := by
  refine List.ext_getElem? fun i => ?_
  rw [State.dispatched, List.getElem?_map, List.getElem?_map]
  by_cases hij : j = i
  · subst hij
    rw [List.getElem?_set_self (List.getElem?_eq_some_iff.mp hj).1, hj, Option.map_some,
      Option.map_some]
  · rw [List.getElem?_set_ne hij]

/-- **A worker takes a step**, with its share of what is counted. -/
theorem Sound.put (h : Sound S s) (hj : s.workers[j]? = some w) (p : Phase) (sent : Bool)
    (sem wg : ℕ) (out : List StatManyResult) (hpending : w.pending = 1)
    (hok : Worker.Ok s.cancelled ⟨w.messageID, p, sent⟩)
    (hsem : sem + w.slots = s.sem + Worker.slots ⟨w.messageID, p, sent⟩) (hle : sem ≤ s.sem)
    (hwg : wg + 1 = s.wg + Worker.pending ⟨w.messageID, p, sent⟩) (hroom : out.length ≤ S.conc)
    (hsent : ∀ id, ((s.received ++ out).map StatManyResult.messageID).count id + w.delivered id =
      s.sentCount id + Worker.delivered id ⟨w.messageID, p, sent⟩) :
    Sound S ({ s with sem := sem, wg := wg, out := out }.put j ⟨w.messageID, p, sent⟩) := by
  have hslots := shares_set (f := Worker.slots) hj ⟨w.messageID, p, sent⟩
  have hwait := shares_set (f := Worker.pending) hj ⟨w.messageID, p, sent⟩
  have hopen := (h.open hj hpending).2
  constructor
  case ids =>
    rw [← h.ids, ← map_set_messageID hj p sent]
    rfl
  case sem =>
    have := h.sem
    simp only [State.put]
    omega
  case sem_le =>
    have := h.sem_le
    simp only [State.put]
    omega
  case wg =>
    have := h.wg
    simp only [State.put]
    omega
  case room => exact hroom
  case delivered =>
    intro id
    have hset := shares_set (f := Worker.delivered id) hj ⟨w.messageID, p, sent⟩
    have hold := h.delivered id
    have hnew := hsent id
    simp only [State.put, State.sentCount] at *
    omega
  case workers =>
    intro x hx
    rcases List.mem_or_eq_of_mem_set hx with hx | rfl
    · exact h.workers x hx
    · exact hok
  case stops => exact h.stops
  case closed => exact fun hclosed => absurd hclosed hopen
  case panicked => exact h.panicked

/-- **The dispatcher takes a step**, and leaves the workers alone. -/
theorem Sound.dispatch (h : Sound S s) {d : Dispatcher} {todo : List Bytes} {sem : ℕ}
    (hids : d.held ++ todo = s.dispatcher.held ++ s.todo)
    (hsem : sem + s.dispatcher.held.length = s.sem + d.held.length) (hle : sem ≤ S.conc)
    (hstops : d = .waiting ∨ d = .closed → s.cancelled = false → todo = [])
    (hclosed : d = .closed → s.wg = 0) :
    Sound S { s with dispatcher := d, todo := todo, sem := sem } where
  ids := by
    rw [← h.ids, List.append_assoc, List.append_assoc, ← hids]
    rfl
  sem := by
    have := h.sem
    dsimp only
    omega
  sem_le := hle
  wg := h.wg
  room := h.room
  delivered := h.delivered
  workers := h.workers
  stops := hstops
  closed := hclosed
  panicked := h.panicked

/-- A worker is started. -/
theorem Sound.started (h : Sound S s) {id : Bytes} (hd : s.dispatcher = .starting id) :
    Sound S { s with
      dispatcher := .choosing
      wg := s.wg + 1
      workers := s.workers ++ [{ messageID := id }] } where
  ids := by
    have := h.ids
    rw [hd] at this
    simpa [State.dispatched, Dispatcher.held] using this
  sem := by
    have := h.sem
    rw [hd] at this
    simpa [Dispatcher.held, Worker.slots] using this
  sem_le := h.sem_le
  wg := by
    have := h.wg
    simp [Worker.pending, this]
  room := h.room
  delivered x := by
    rw [shares_append, ← h.delivered x]
    simp [State.sentCount, Worker.delivered]
  workers := List.forall_mem_append.mpr ⟨h.workers, by simp [Worker.Ok]⟩
  stops := by simp
  closed := by simp
  panicked := h.panicked

/-- Something is received. -/
theorem Sound.received (h : Sound S s) {res : StatManyResult} {out : List StatManyResult}
    (ho : s.out = res :: out) :
    Sound S { s with out := out, received := s.received ++ [res] } where
  ids := h.ids
  sem := h.sem
  sem_le := h.sem_le
  wg := h.wg
  room := by
    have := h.room
    rw [ho, List.length_cons] at this
    exact Nat.le_of_succ_le this
  delivered id := by
    have := h.delivered id
    rw [State.sentCount, ho] at this
    simpa [State.sentCount] using this
  workers := h.workers
  stops := h.stops
  closed := h.closed
  panicked := h.panicked

/-- The context ends. -/
theorem Sound.cancel (h : Sound S s) : Sound S { s with cancelled := true } where
  ids := h.ids
  sem := h.sem
  sem_le := h.sem_le
  wg := h.wg
  room := h.room
  delivered := h.delivered
  workers w hw := by
    have := h.workers w hw
    unfold Worker.Ok at this ⊢
    split <;> simp_all
  stops := by simp
  closed := h.closed
  panicked := h.panicked

/-- **One step.** -/
theorem Sound.step (h : Sound S s) (hs : Steps S s l s') : Sound S s' := by
  cases hs with
  | @acquire id todo hd ht hsem =>
    exact h.dispatch (by rw [hd, ht]; rfl) (by rw [hd]; rfl) hsem (by simp) (by simp)
  | breakOff hd hc =>
    exact h.dispatch (by rw [hd]; rfl) (by rw [hd]; rfl) h.sem_le (by simp [hc]) (by simp)
  | start hd => exact h.started hd
  | loopEnd hd ht =>
    exact h.dispatch (by rw [hd]; rfl) (by rw [hd]; rfl) h.sem_le (fun _ _ => ht) (by simp)
  | close hd hwg =>
    exact h.dispatch (by rw [hd]; rfl) (by rw [hd]; rfl) h.sem_le (fun _ => h.stops (.inl hd))
      (fun _ => hwg)
  | @check j w a hj hp =>
    have hok := h.workers w (List.mem_of_getElem? hj)
    rw [Worker.Ok, hp] at hok
    refine h.put hj (.sending _) w.sent s.sem s.wg s.out (by rw [Worker.pending, hp])
      ⟨hok, statOne_messageID _ _ _ a⟩ (by rw [Worker.slots, hp]; rfl) le_rfl rfl h.room
      fun id => rfl
  | @send j w res hj hp hd hroom =>
    have hok := h.workers w (List.mem_of_getElem? hj)
    rw [Worker.Ok, hp] at hok
    refine h.put hj .releasing true s.sem s.wg (s.out ++ [res]) (by rw [Worker.pending, hp])
      (fun _ => rfl) (by rw [Worker.slots, hp]; rfl) le_rfl rfl
      (by simpa using Nat.succ_le_of_lt hroom) fun id => ?_
    rw [← List.append_assoc, List.map_append, List.count_append]
    simp [State.sentCount, Worker.delivered, hok, List.count_singleton]
  | sendClosed hj hp hd => exact absurd hd (h.open hj (by rw [Worker.pending, hp])).2
  | @abandon j w res hj hp hc =>
    refine h.put hj .releasing w.sent s.sem s.wg s.out (by rw [Worker.pending, hp])
      (fun hnot => ?_) (by rw [Worker.slots, hp]; rfl) le_rfl rfl h.room fun id => rfl
    rw [hc] at hnot
    cases hnot
  | @release j w hj hp hsem =>
    have hok := h.workers w (List.mem_of_getElem? hj)
    rw [Worker.Ok, hp] at hok
    refine h.put hj .finishing w.sent (s.sem - 1) s.wg s.out (by rw [Worker.pending, hp]) hok
      ?_ (Nat.sub_le _ _) rfl h.room fun id => rfl
    rw [Worker.slots, hp]
    dsimp only [Worker.slots]
    omega
  | @finish j w hj hp hwg =>
    have hok := h.workers w (List.mem_of_getElem? hj)
    rw [Worker.Ok, hp] at hok
    refine h.put hj .done w.sent s.sem (s.wg - 1) s.out (by rw [Worker.pending, hp]) hok
      (by rw [Worker.slots, hp]; rfl) le_rfl ?_ h.room fun id => rfl
    dsimp only [Worker.pending]
    omega
  | finishBelow hj hp hwg =>
    have := (h.open hj (by rw [Worker.pending, hp])).1
    omega
  | receive ho => exact h.received ho
  | cancel => exact h.cancel

theorem Sound.begin (h : S.begin = some s) : Sound S s := by
  unfold Sweep.begin at h
  split_ifs at h
  cases h
  constructor <;> simp [State.dispatched, Dispatcher.held, State.sentCount]

/-- **A sweep is sound**, in every state it comes to. -/
theorem sound_run {s₀ : State} {ls : List Label} (hbegin : S.begin = some s₀)
    (hrun : exec S.step s₀ ls = some s) : Sound S s :=
  exec_invariant (fun _ _ _ h _ hs => h.step (step_steps hs)) ls (.begin hbegin)
    (along_true s₀ ls) hrun

/-! ## What follows -/

/-- The checks that are outstanding have slots. -/
theorem Sound.outstanding_le (h : Sound S s) : s.outstanding ≤ S.conc := by
  have hle : s.outstanding ≤ shares Worker.slots s.workers := by
    unfold State.outstanding
    generalize s.workers = ws
    induction ws with
    | nil => exact Nat.le_refl 0
    | cons w ws ih =>
      rw [List.countP_cons, shares_cons]
      cases hp : w.phase <;> simp [Worker.slots, hp] <;> omega
  have := h.sem
  have := h.sem_le
  omega

theorem count_dispatched (s : State) (id : Bytes) :
    s.dispatched.count id = shares (fun w => if w.messageID = id then 1 else 0) s.workers := by
  unfold State.dispatched
  generalize s.workers = ws
  induction ws with
  | nil => rfl
  | cons w ws ih =>
    rw [List.map_cons, List.count_cons, shares_cons, ih, Nat.add_comm]
    simp

theorem count_receivedIDs_le (s : State) (id : Bytes) :
    s.receivedIDs.count id ≤ s.sentCount id := by
  rw [State.sentCount, List.map_append, List.count_append]
  exact Nat.le_add_right _ _

/-- **What was received was dispatched**, and is received once. -/
theorem Sound.received_subperm (h : Sound S s) : s.receivedIDs.Subperm s.dispatched := by
  refine List.subperm_ext_iff.mpr fun id _ => ?_
  calc
    s.receivedIDs.count id ≤ s.sentCount id := count_receivedIDs_le s id
    _ = shares (Worker.delivered id) s.workers := h.delivered id
    _ ≤ shares (fun w => if w.messageID = id then 1 else 0) s.workers :=
      shares_mono fun w _ => by
        unfold Worker.delivered
        split_ifs <;> simp_all
    _ = s.dispatched.count id := (count_dispatched s id).symm

/-- The workers are started in the order of the message-IDs. -/
theorem Sound.dispatched_prefix (h : Sound S s) : s.dispatched <+: S.messageIDs := by
  rw [← h.ids, List.append_assoc]
  exact List.prefix_append _ _

/-- **The channel is closed behind the last worker.** -/
theorem Sound.all_done (h : Sound S s) (hclosed : s.dispatcher = .closed) :
    ∀ w ∈ s.workers, w.phase = .done := by
  have hwg := h.wg
  rw [h.closed hclosed] at hwg
  intro w hw
  have hpending := shares_eq_zero.1 hwg.symm w hw
  unfold Worker.pending at hpending
  split at hpending
  · assumption
  · cases hpending

/-- **Nothing is lost** unless the context is done. -/
theorem Sound.received_perm (h : Sound S s) (hdrained : s.Drained) (hc : s.cancelled = false) :
    s.receivedIDs.Perm S.messageIDs := by
  obtain ⟨hclosed, hout⟩ := hdrained
  have hids := h.ids
  rw [hclosed, h.stops (.inr hclosed) hc] at hids
  have hall : s.dispatched = S.messageIDs := by simpa [Dispatcher.held] using hids
  rw [← hall]
  refine List.perm_iff_count.mpr fun id => ?_
  have hsent : ∀ w ∈ s.workers, w.sent = true := by
    intro w hw
    have hok := h.workers w hw
    rw [Worker.Ok, h.all_done hclosed w hw] at hok
    exact hok hc
  have hcount : s.receivedIDs.count id = s.sentCount id := by
    rw [State.sentCount, hout, List.append_nil]
    rfl
  rw [hcount, h.delivered id, count_dispatched]
  refine le_antisymm (shares_mono fun w hw => ?_) (shares_mono fun w hw => ?_)
  all_goals simp [Worker.delivered, hsent w hw]

/-! ## The end of a sweep -/

theorem conc_pos (S : Sweep) : 0 < S.conc := by
  unfold conc defaultStatConcurrency
  dsimp only
  split_ifs <;> omega

/-- The steps that are left to a worker, and the one in which its result
is received. -/
def Worker.cost (w : Worker) : ℕ :=
  match w.phase with
  | .checking => 5
  | .sending _ => 4
  | .releasing => 2
  | .finishing => 1
  | .done => 0

/-- Those left to the dispatcher, with a worker it is about to start. -/
def Dispatcher.cost : Dispatcher → ℕ
  | .choosing => 2
  | .starting _ => 8
  | .waiting => 1
  | .closed => 0

/-- **The steps that are left.** -/
def State.cost (s : State) : ℕ :=
  7 * s.todo.length + s.dispatcher.cost + shares Worker.cost s.workers + s.out.length +
    (!s.cancelled).toNat

theorem cost_put (hj : s.workers[j]? = some w) (w' : Worker) :
    (s.put j w').cost + w.cost = s.cost + w'.cost := by
  have := shares_set (f := Worker.cost) hj w'
  simp only [State.cost, State.put]
  omega

/-- **Every step is one less.** -/
theorem Sound.cost_lt (h : Sound S s) (hs : Steps S s l s') : s'.cost < s.cost := by
  cases hs with
  | acquire hd ht =>
    simp only [State.cost, Dispatcher.cost, hd, ht, List.length_cons]
    omega
  | breakOff hd | loopEnd hd | close hd =>
    simp only [State.cost, Dispatcher.cost, hd]
    omega
  | start hd =>
    simp only [State.cost, Dispatcher.cost, hd, shares_append, shares_cons, shares_nil, Worker.cost]
    omega
  | @check j w a hj hp =>
    have := cost_put hj { w with phase := .sending (statOne w.messageID S.target S.targetErr a) }
    simp only [Worker.cost, hp] at this
    omega
  | @send j w res hj hp hd hroom =>
    have := cost_put (s := { s with out := s.out ++ [res] }) hj
      { w with phase := .releasing, sent := true }
    simp only [Worker.cost, hp] at this
    simp only [State.cost, List.length_append, List.length_singleton] at this ⊢
    omega
  | @abandon j w res hj hp =>
    have := cost_put hj { w with phase := .releasing }
    simp only [Worker.cost, hp] at this
    omega
  | @release j w hj hp =>
    have := cost_put (s := { s with sem := s.sem - 1 }) hj { w with phase := .finishing }
    simp only [Worker.cost, hp] at this
    simp only [State.cost] at this ⊢
    omega
  | @finish j w hj hp =>
    have := cost_put (s := { s with wg := s.wg - 1 }) hj { w with phase := .done }
    simp only [Worker.cost, hp] at this
    simp only [State.cost] at this ⊢
    omega
  | sendClosed hj hp hd => exact absurd hd (h.open hj (by rw [Worker.pending, hp])).2
  | finishBelow hj hp hwg =>
    have := (h.open hj (by rw [Worker.pending, hp])).1
    omega
  | receive ho =>
    simp only [State.cost, ho, List.length_cons]
    omega
  | cancel hc =>
    simp only [State.cost, hc]
    simp

theorem Sound.cheaper (s : State) (l : Label) (s' : State) (h : Sound S s)
    (hs : S.step s l = some s') : Sound S s' ∧ s'.cost < s.cost :=
  ⟨h.step (step_steps hs), h.cost_lt (step_steps hs)⟩

/-- There is a step other than the end of the context. -/
def CanStep (S : Sweep) (s : State) : Prop := ∃ l s', l ≠ .cancel ∧ S.step s l = some s'

theorem canStep_receive (h : s.out ≠ []) : CanStep S s := by
  obtain ⟨res, out, ho⟩ := List.exists_cons_of_ne_nil h
  exact ⟨.receive, _, nofun, by rw [Sweep.step, ho]⟩

/-- **A worker that is not done can go on**, or what it waits for can be
received. -/
theorem Sound.canStep_worker (h : Sound S s) (hj : s.workers[j]? = some w) (hp : 0 < w.pending) :
    CanStep S s := by
  have hone : w.pending = 1 := le_antisymm w.pending_le hp
  obtain ⟨hwg, hopen⟩ := h.open hj hone
  have hwork (act : Act) {s' : State} (hact : S.work s j w act = some s') : CanStep S s :=
    ⟨.work j act, s', nofun, by rw [Sweep.step, hj]; exact hact⟩
  cases hphase : w.phase with
  | checking => exact hwork (.check {}) (by rw [work, hphase])
  | sending res =>
    by_cases hroom : s.out.length < S.conc
    · exact hwork .send (by rw [work, hphase]; exact (if_neg hopen).trans (if_pos hroom))
    · refine canStep_receive fun hnil => hroom ?_
      rw [hnil]
      exact conc_pos S
  | releasing =>
    have hslot := le_shares (f := Worker.slots) hj
    have hsem := h.sem
    simp only [Worker.slots, hphase] at hslot
    exact hwork .release (by rw [work, hphase]; exact if_neg (by omega))
  | finishing => exact hwork .finish (by rw [work, hphase]; exact if_neg (by omega))
  | done =>
    rw [Worker.pending, hphase] at hone
    cases hone

/-- **A sweep does not get stuck.** -/
theorem Sound.progress (h : Sound S s) (hdrained : ¬ s.Drained) : CanStep S s := by
  cases hd : s.dispatcher with
  | choosing =>
    cases ht : s.todo with
    | nil => exact ⟨.loopEnd, _, nofun, by rw [Sweep.step, hd, ht]⟩
    | cons id todo =>
      by_cases hsem : s.sem < S.conc
      · exact ⟨.acquire, _, nofun, by rw [Sweep.step, hd, ht]; exact if_pos hsem⟩
      · -- the slots are with workers
        have hslots := h.sem
        simp only [hd, Dispatcher.held, List.length_nil] at hslots
        have hpos := conc_pos S
        have hheld : 0 < shares Worker.slots s.workers := by omega
        obtain ⟨j, w, hj, hw⟩ := exists_of_shares hheld
        exact h.canStep_worker hj (Nat.lt_of_lt_of_le hw w.slots_le)
  | starting id => exact ⟨.start, _, nofun, by rw [Sweep.step, hd]⟩
  | waiting =>
    by_cases hwg : s.wg = 0
    · exact ⟨.close, _, nofun, by rw [Sweep.step, if_pos ⟨hd, hwg⟩]⟩
    · have hleft : 0 < shares Worker.pending s.workers := by
        rw [← h.wg]
        omega
      obtain ⟨j, w, hj, hw⟩ := exists_of_shares hleft
      exact h.canStep_worker hj hw
  | closed => exact canStep_receive fun hnil => hdrained ⟨hd, hnil⟩

/-- **A sweep comes to its end**, from wherever it is. -/
theorem Sound.finishes (h : Sound S s) :
    ∃ ms s', exec S.step s ms = some s' ∧ .cancel ∉ ms ∧ s'.Drained := by
  obtain ⟨ms, s', hrun, hnot, hend⟩ := exec_ends Sound.cheaper (fun _ => Sound.progress) h
  exact ⟨ms, s', hrun, fun hmem => hnot .cancel hmem rfl, hend⟩

/-! ## The calls -/

/-- **When a call panics**: `make` is asked for the concurrency of the
options if there is no message-ID to hold it against. -/
theorem begin_eq_none_iff (hdefault : defaultStatConcurrency ≤ S.maxRoom)
    (hlen : S.messageIDs.length ≤ S.maxRoom) :
    S.begin = none ↔ S.messageIDs = [] ∧ (S.maxRoom : ℤ) < S.concurrency := by
  have hnil : S.messageIDs = [] ↔ S.messageIDs.length = 0 := List.length_eq_zero_iff.symm
  have hnone : S.begin = none ↔ S.maxRoom < S.conc := by
    unfold Sweep.begin
    split_ifs with h <;> simp [h]
  rw [hnone, hnil]
  unfold conc defaultStatConcurrency at *
  dsimp only
  split_ifs <;> omega

theorem uncancelled_run {s₀ : State} {ls : List Label} (hbegin : S.begin = some s₀)
    (hrun : exec S.step s₀ ls = some s) (hls : .cancel ∉ ls) : s.cancelled = false := by
  have hstart : s₀.cancelled = false := by
    unfold Sweep.begin at hbegin
    split_ifs at hbegin
    cases hbegin
    rfl
  have hsteps (m : State) (l : Label) (m' : State) (hm : m.cancelled = false)
      (hP : True ∧ l ≠ .cancel) (hs : S.step m l = some m') : m'.cancelled = false := by
    cases step_steps hs with
    | cancel => exact absurd rfl hP.2
    | _ => exact hm
  exact exec_invariant hsteps ls hstart
    ((along_true s₀ ls).and fun l hl heq => hls (heq ▸ hl)) hrun

/-- **`StatMany` reports each message-ID once.** At any moment at most as
many checks are outstanding as the concurrency allows, what was received
is of message-IDs that were dispatched, each of them once, and the channel
is closed only when every worker is done. If the context does not end,
what was received when the channel is seen closed is what was asked for.
No run is longer than so many steps for each message-ID, and every run can
go on until the channel is seen closed. -/
theorem sweep_reports_once {s₀ : State} {ls : List Label} (hbegin : S.begin = some s₀)
    (hrun : exec S.step s₀ ls = some s) :
    s.outstanding ≤ S.conc ∧ s.receivedIDs.Subperm s.dispatched ∧
      s.dispatched <+: S.messageIDs ∧
      (s.dispatcher = .closed → ∀ w ∈ s.workers, w.phase = .done) ∧
      (.cancel ∉ ls → s.Drained → s.receivedIDs.Perm S.messageIDs) ∧
      s.panicked = false ∧ ls.length ≤ 7 * S.messageIDs.length + 3 ∧
      ∃ ms s', exec S.step s ms = some s' ∧ .cancel ∉ ms ∧ s'.Drained := by
  have h := sound_run hbegin hrun
  have hlength : ls.length ≤ 7 * S.messageIDs.length + 3 := by
    have hcost : s₀.cost = 7 * S.messageIDs.length + 3 := by
      unfold Sweep.begin at hbegin
      split_ifs at hbegin
      cases hbegin
      rfl
    have := exec_length_le Sound.cheaper ls (.begin hbegin) hrun
    omega
  exact ⟨h.outstanding_le, h.received_subperm, h.dispatched_prefix, h.all_done,
    fun hls hdrained => h.received_perm hdrained (uncancelled_run hbegin hrun hls),
    h.panicked, hlength, h.finishes⟩

/-- Three message-IDs, two of them the same, by two at once. -/
def threeIDs : Sweep where
  messageIDs := [ascii "a", ascii "b", ascii "a"]
  concurrency := 2
  maxRoom := 64

/-- A run in which the second worker is the first to send. -/
def overtaking : List Label :=
  [.acquire, .start, .acquire, .start, .work 0 (.check {}), .work 1 (.check {}), .work 1 .send,
    .work 1 .release, .acquire, .start, .work 2 (.check {}), .work 0 .send, .receive,
    .work 0 .release, .work 0 .finish, .work 1 .finish, .work 2 .send, .work 2 .release,
    .work 2 .finish, .loopEnd, .close, .receive, .receive]

/-- All of them are reported. -/
theorem sweep_reports_once_overtaking : ∃ s₀ s, threeIDs.begin = some s₀ ∧
    exec threeIDs.step s₀ overtaking = some s ∧ s.Drained ∧
    s.receivedIDs = [ascii "b", ascii "a", ascii "a"] ∧
    s.receivedIDs.Perm threeIDs.messageIDs := by
  have hrun : (exec threeIDs.step { todo := threeIDs.messageIDs } overtaking).map
      (fun s => (s.dispatcher, s.out.length, s.receivedIDs)) =
        some (.closed, 0, [ascii "b", ascii "a", ascii "a"]) := by
    decide
  obtain ⟨s, hs, hview⟩ := Option.map_eq_some_iff.mp hrun
  simp only [Prod.mk.injEq, List.length_eq_zero_iff] at hview
  obtain ⟨hclosed, hout, hreceived⟩ := hview
  have hls : Label.cancel ∉ overtaking := by simp [overtaking]
  have hall := sweep_reports_once (S := threeIDs) rfl hs
  exact ⟨_, s, rfl, hs, ⟨hclosed, hout⟩, hreceived, hall.2.2.2.2.1 hls ⟨hclosed, hout⟩⟩

end Sweep

end Client

end NntpPool
