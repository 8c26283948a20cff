import NntpPool.Common.Run
import Mathlib.Algebra.Order.Ring.Int
/-!
# Gate — the limit on a provider's connections

`connGate`, with the slot goroutines that pass it and the timers it
starts. All operations of the gate run under its mutex, so each is one
step. A timer of `time.AfterFunc` is `armed` until it expires; then its
callback is a goroutine of its own, which has `fired` and waits for the
mutex. `Timer.Stop` does not recall it.

The timers are numbered by the calls of `throttle` that start them. When
a timer expires is left open, so the duration is left out.
-/

namespace NntpPool

namespace Gate

/-- The conversion to `int32`. -/
def int32 (x : ℤ) : ℤ := x.bmod (2 ^ 32)

/-- **`connGate`.** -/
structure ConnGate where
  maxSlots : ℤ
  allowed : ℤ
  held : ℤ := 0
  running : ℤ := 0
  restoreTimer : Option ℕ := none
  available : ℤ
  deriving DecidableEq, Repr

/-- `newConnGate`. -/
def newConnGate (max : ℤ) : ConnGate := { maxSlots := max, allowed := max, available := int32 max }

/-- `g.available.Store(int32(g.allowed - g.held))`. -/
def ConnGate.publish (g : ConnGate) : ConnGate := { g with available := int32 (g.allowed - g.held) }

/-- `enter`, where it is granted. -/
def ConnGate.enter (g : ConnGate) : Option ConnGate :=
  if g.allowed ≤ g.held then none else some { g with held := g.held + 1 }.publish

/-- `exit`. -/
def ConnGate.exit (g : ConnGate) : ConnGate := { g with held := g.held - 1 }.publish

/-- `markRunning`. -/
def ConnGate.markRunning (g : ConnGate) : ConnGate := { g with running := g.running + 1 }

/-- `markNotRunning`. -/
def ConnGate.markNotRunning (g : ConnGate) : ConnGate := { g with running := g.running - 1 }

/-- `throttle`, which starts timer `t`. -/
def ConnGate.throttle (g : ConnGate) (t : ℕ) : ConnGate :=
  let newAllowed := max 1 g.running
  { g with
    -- it only tightens
    allowed := if newAllowed < g.allowed then newAllowed else g.allowed
    restoreTimer := some t }.publish

/-- `restore`. -/
def ConnGate.restore (g : ConnGate) : ConnGate :=
  { g with allowed := g.maxSlots, restoreTimer := none }.publish

/-- `stop`. -/
def ConnGate.stop (g : ConnGate) : ConnGate := { g with restoreTimer := none }

/-- Where a timer and its callback stand; `spent` is one that was stopped,
or whose callback has run. -/
inductive Timer
  | armed
  | fired
  | spent
  deriving DecidableEq, Repr

/-- `Timer.Stop`. -/
def Timer.stop : Timer → Timer
  | .armed => .spent
  | t => t

/-- **Where `runConnSlot` stands** as far as the gate is concerned. -/
inductive Slot
  | idle
  /-- It dials, greets and authenticates. -/
  | connecting
  /-- The server has said that it has too many connections. -/
  | rejected
  | running
  /-- Before `exit`. -/
  | leaving
  deriving DecidableEq, Repr

/-- **The gate, its timers and the slots.** That `stop` was called is kept
for the statements; nothing reads it. -/
structure State where
  gate : ConnGate
  timers : List Timer := []
  slots : List Slot
  stopped : Bool := false
  deriving DecidableEq, Repr

/-- A new gate, and `n` slots. -/
def start (max : ℤ) (n : ℕ) : State :=
  { gate := newConnGate max, slots := List.replicate n .idle }

/-- **The steps.** -/
inductive Label
  | enter (i : ℕ)
  /-- `enter` returns `false`. -/
  | refuse (i : ℕ)
  /-- The dial fails, or the server turns the connection down for another
  reason than their number. -/
  | fail (i : ℕ)
  | reject (i : ℕ)
  | throttled (i : ℕ)
  | markRunning (i : ℕ)
  | markNotRunning (i : ℕ)
  | exit (i : ℕ)
  /-- A call of `throttle` by somebody else. -/
  | throttle
  /-- A timer expires; its callback runs. -/
  | fire (t : ℕ)
  | restore (t : ℕ)
  | stop
  deriving DecidableEq, Repr

/-- Slot `i` goes from `p` to `q`. -/
def State.move (s : State) (i : ℕ) (p q : Slot) : Option State :=
  if s.slots[i]? = some p then some { s with slots := s.slots.set i q } else none

/-- The timer the gate refers to is stopped. -/
def State.stopTimer (s : State) : List Timer :=
  match s.gate.restoreTimer with
  | none => s.timers
  | some t => s.timers.modify t Timer.stop

/-- `throttle`, with the timers. -/
def State.throttle (s : State) : State :=
  { s with gate := s.gate.throttle s.timers.length, timers := s.stopTimer ++ [.armed] }

/-- **One step.** -/
def step (s : State) : Label → Option State
  | .enter i =>
    (s.move i .idle .connecting).bind fun s => s.gate.enter.map fun g => { s with gate := g }
  | .refuse i => if s.gate.allowed ≤ s.gate.held then s.move i .idle .idle else none
  | .fail i => s.move i .connecting .leaving
  | .reject i => s.move i .connecting .rejected
  | .throttled i => (s.move i .rejected .leaving).map State.throttle
  | .markRunning i =>
    (s.move i .connecting .running).map fun s => { s with gate := s.gate.markRunning }
  | .markNotRunning i =>
    (s.move i .running .leaving).map fun s => { s with gate := s.gate.markNotRunning }
  | .exit i => (s.move i .leaving .idle).map fun s => { s with gate := s.gate.exit }
  | .throttle => some s.throttle
  | .fire t =>
    if s.timers[t]? = some .armed then some { s with timers := s.timers.set t .fired } else none
  | .restore t =>
    if s.timers[t]? = some .fired then
      some { s with gate := s.gate.restore, timers := s.timers.set t .spent }
    else none
  | .stop => some { s with gate := s.gate.stop, timers := s.stopTimer, stopped := true }

end Gate

end NntpPool
