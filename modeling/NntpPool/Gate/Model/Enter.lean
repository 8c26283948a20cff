import NntpPool.Gate.Model.Gate
/-!
# Gate — `enter`, step by step

`enter` with the mutex, the condition variable and the goroutine that it
starts, laid over the gate. What else is done under the mutex is one step
of the gate; the broadcast behind it is a step of its own, since it is
made without the mutex.

`cond.Wait` registers the caller before it gives the mutex back, and a
broadcast needs no mutex, so the two are one step. A broadcast reaches
those who are registered and nobody else.
-/

namespace NntpPool

namespace Gate

namespace Enter

/-- **Where a call of `enter` stands.** -/
inductive Pc
  /-- Before `g.mu.Lock()`. -/
  | locking
  /-- Before `g.held >= g.allowed`. -/
  | looping
  /-- Before `slotCtx.Err()`. -/
  | testSlot
  /-- Before `reqCtx.Err()`. -/
  | testReq
  /-- Before `g.cond.Wait()`. -/
  | waiting
  | parked
  /-- A broadcast has reached it; `Wait` takes the mutex again. -/
  | woken
  /-- Before `close(done)`. -/
  | closing (granted : Bool)
  /-- Before `g.mu.Unlock()`. -/
  | unlocking (granted : Bool)
  | returned (granted : Bool)
  deriving DecidableEq, Repr

/-- Where the goroutine stands that `enter` starts. -/
inductive Helper
  | selecting
  | broadcasting
  | ended
  deriving DecidableEq, Repr

/-- **A call of `enter`** with its goroutine. Contexts are numbered. -/
structure Call where
  slot : ℕ
  slotCtx : ℕ
  reqCtx : ℕ
  pc : Pc := .locking
  helper : Helper := .selecting
  /-- The channel `done` is closed. -/
  closed : Bool := false
  deriving DecidableEq, Repr

/-- **The gate, its mutex and the calls of `enter`.** -/
structure State where
  base : Gate.State
  /-- The call that holds the mutex. -/
  owner : Option ℕ := none
  calls : List Call := []
  /-- The contexts that are done. -/
  cancelled : List ℕ := []
  /-- The operations that have given the mutex back and have not yet
  broadcast. -/
  owed : List Gate.Label := []
  deriving DecidableEq, Repr

/-- A new gate, and `n` slots. -/
def start (max : ℤ) (n : ℕ) : State := { base := Gate.start max n }

/-- **The steps.** -/
inductive Label
  /-- Slot `i` calls `enter`. -/
  | call (i slotCtx reqCtx : ℕ)
  | run (n : ℕ)
  /-- The goroutine of call `n`. -/
  | helper (n : ℕ)
  | cancel (ctx : ℕ)
  /-- An operation of the gate other than `enter`. -/
  | other (l : Gate.Label)
  /-- The broadcast at the end of the operation. -/
  | broadcast (l : Gate.Label)
  deriving DecidableEq, Repr

/-- The slot whose goroutine makes the step. -/
def slotOf : Gate.Label → Option ℕ
  | .enter i | .refuse i | .fail i | .reject i | .throttled i | .markRunning i
  | .markNotRunning i | .exit i => some i
  | .throttle | .fire _ | .restore _ | .stop => none

/-- The step is made under the mutex. -/
def locks : Gate.Label → Bool
  | .fail _ | .reject _ | .fire _ => false
  | _ => true

/-- The operation ends with `g.cond.Broadcast()`. -/
def broadcasts : Gate.Label → Bool
  | .exit _ | .restore _ | .stop => true
  | _ => false

/-- The step is one of `enter`. -/
def enters : Gate.Label → Bool
  | .enter _ | .refuse _ => true
  | _ => false

/-- The call has returned. -/
def Pc.over : Pc → Bool
  | .returned _ => true
  | _ => false

/-- Slot `i` is neither in `enter` nor in an `exit` that has yet to
broadcast. -/
def State.free (s : State) (i : ℕ) : Bool :=
  (s.calls.all fun c => c.slot != i || c.pc.over) && !s.owed.contains (.exit i)

/-- One of the contexts of the call is done. -/
def State.doomed (s : State) (c : Call) : Bool :=
  s.cancelled.contains c.slotCtx || s.cancelled.contains c.reqCtx

/-- What a broadcast does to a call. -/
def Call.wake (c : Call) : Call := if c.pc = .parked then { c with pc := .woken } else c

/-- `g.cond.Broadcast()`. -/
def State.wakeAll (s : State) : State := { s with calls := s.calls.map Call.wake }

/-- Call `n` goes on to `pc`. -/
def State.go (s : State) (n : ℕ) (c : Call) (pc : Pc) : State :=
  { s with calls := s.calls.set n { c with pc } }

/-- **`enter` goes on.** -/
def State.run (s : State) (n : ℕ) (c : Call) : Option State :=
  match c.pc with
  | .locking | .woken =>
    if s.owner = none then some ({ s with owner := some n }.go n c .looping) else none
  | .looping =>
    if s.base.gate.allowed ≤ s.base.gate.held then some (s.go n c .testSlot)
    else (Gate.step s.base (.enter c.slot)).map fun b => { s with base := b }.go n c (.closing true)
  | .testSlot =>
    some (s.go n c (if s.cancelled.contains c.slotCtx then .closing false else .testReq))
  | .testReq =>
    some (s.go n c (if s.cancelled.contains c.reqCtx then .closing false else .waiting))
  | .waiting => some ({ s with owner := none }.go n c .parked)
  | .closing granted => some (s.go n { c with closed := true } (.unlocking granted))
  | .unlocking granted => some ({ s with owner := none }.go n c (.returned granted))
  | .parked | .returned _ => none

/-- **The goroutine goes on**: it selects on the contexts and on `done`,
and broadcasts, without the mutex. -/
def State.help (s : State) (n : ℕ) (c : Call) : Option State :=
  match c.helper with
  | .selecting =>
    if s.doomed c || c.closed then
      some { s with calls := s.calls.set n { c with helper := .broadcasting } }
    else none
  | .broadcasting => some { s with calls := s.calls.set n { c with helper := .ended } }.wakeAll
  | .ended => none

/-- An operation of the gate, which leaves its broadcast to be made. -/
def State.operate (s : State) (l : Gate.Label) : Option State :=
  if enters l || (locks l && s.owner.isSome) || (slotOf l).any fun i => !s.free i then none
  else (Gate.step s.base l).map fun b =>
    { s with base := b, owed := if broadcasts l then l :: s.owed else s.owed }

/-- **One step.** -/
def step (s : State) : Label → Option State
  | .call i slotCtx reqCtx =>
    if s.free i ∧ s.base.slots[i]? = some .idle then
      some { s with calls := s.calls ++ [{ slot := i, slotCtx, reqCtx }] }
    else none
  | .run n => s.calls[n]?.bind (s.run n)
  | .helper n => s.calls[n]?.bind (s.help n)
  | .cancel ctx => some { s with cancelled := ctx :: s.cancelled }
  | .other l => s.operate l
  | .broadcast l =>
    if l ∈ s.owed then some { s with owed := s.owed.erase l }.wakeAll else none

/-- **A broadcast is still to come** from the goroutine of call `n`: its
steps from here wake the call. -/
def State.wakes (s : State) (n : ℕ) : Prop :=
  ∃ k s' c, exec step s (List.replicate k (.helper n)) = some s' ∧ s'.calls[n]? = some c ∧
    c.pc = .woken

end Enter

end Gate

end NntpPool
