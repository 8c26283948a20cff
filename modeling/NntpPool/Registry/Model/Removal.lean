import NntpPool.Registry.Model.Client
/-!
# Registry — the handling of a 502

A request takes a group from the lists and waits for its answer. If that
is a 502, the request calls `RemoveProvider` with the name of the group
and then, if the provider has a delay, `scheduleReconnect`, which calls
`AddProvider` with the group's provider when the delay is over. In
`doSendWithRetry` and in `raceCandidates` this is the same code.

The calls are those of the registry, with all their steps; they are
numbered as they are made. Between any two steps other requests may ask
and be answered, other calls may be made and may move on, and delays may
run out.
-/

namespace NntpPool

namespace Registry

namespace Removal

/-- A provider, with what the handling of a 502 reads. -/
structure Config extends Provider where
  reconnectDelay : ℤ := 0
  deriving DecidableEq, Repr

/-- Where a request stands. -/
inductive Request
  | idle
  /-- The group was in the lists when it was taken, and has the request. -/
  | asked (g : Group)
  /-- The answer was a 502; `RemoveProvider(g.name)` is call `i`. -/
  | removing (g : Group) (i : ℕ)
  deriving DecidableEq, Repr

structure State extends Registry.State where
  /-- The number of calls so far. -/
  calls : ℕ
  /-- `g.p`, by the key of the group. -/
  config : Key → Config
  request : ℕ → Request
  /-- The goroutines of `scheduleReconnect` that wait, by their group. -/
  pending : List Group

/-- What can happen. -/
inductive Event
  /-- `AddProvider` and `RemoveProvider` are called from outside. -/
  | add (p : Config)
  | remove (name : String)
  /-- The call takes a step. -/
  | call (i : ℕ)
  /-- The request takes the group from the lists. -/
  | ask (h : ℕ) (g : Group)
  /-- The answer is not a 502. -/
  | answer (h : ℕ)
  /-- The answer is a 502, and the removal is called. -/
  | unavailable (h : ℕ)
  /-- The removal has returned, and the handling of the 502 ends. -/
  | handled (h : ℕ)
  /-- The delay of a pending reconnect is over. -/
  | fire (n : ℕ)
  /-- The client is closed before the delay is over. -/
  | drop (n : ℕ)
  deriving DecidableEq, Repr

/-- A call is made. -/
def State.begin (s : State) (c : Call) : State :=
  { s with toState := s.toState.move s.calls (.ready c), calls := s.calls + 1 }

/-- **`AddProvider`** is called. If a group comes of it, this is its
provider. -/
def State.beginAdd (s : State) (p : Config) : State :=
  { s.begin (.add p.toProvider) with config := Function.update s.config (.made s.calls) p }

/-- **`scheduleReconnect`**, where the provider has a delay. -/
def State.schedule (s : State) (g : Group) : State :=
  if 0 < (s.config g.key).reconnectDelay then { s with pending := s.pending ++ [g] } else s

/-- The request moves on. -/
def State.moveRequest (s : State) (h : ℕ) (q : Request) : State :=
  { s with request := Function.update s.request h q }

/-- **One step.** -/
def step (s : State) : Event → Option State
  | .add p => some (s.beginAdd p)
  | .remove name => some (s.begin (.remove name))
  | .call i => (Registry.step s.toState i).map fun r => { s with toState := r }
  | .ask h g =>
    if s.request h = .idle ∧ g ∈ s.groups then some (s.moveRequest h (.asked g)) else none
  | .answer h =>
    match s.request h with
    | .asked _ => some (s.moveRequest h .idle)
    | _ => none
  | .unavailable h =>
    match s.request h with
    | .asked g => some ((s.begin (.remove g.name)).moveRequest h (.removing g s.calls))
    | _ => none
  | .handled h =>
    match s.request h with
    | .removing g i =>
      match s.pc i with
      | .returned _ _ => some ((s.schedule g).moveRequest h .idle)
      | _ => none
    | _ => none
  | .fire n =>
    match s.pending[n]? with
    | some g => some { s.beginAdd (s.config g.key) with pending := s.pending.eraseIdx n }
    | none => none
  | .drop n =>
    if n < s.pending.length then some { s with pending := s.pending.eraseIdx n } else none

/-- The state after `NewClient`. -/
def start (providers : List Config) (c : Client) : State where
  toLists := c.toLists
  providerIdx := c.providerIdx
  cancelled := []
  pc := fun _ => .idle
  calls := 0
  config := fun
    | .initial n => providers.getD n {}
    | .made _ => {}
  request := fun _ => .idle
  pending := []

end Removal

end Registry

end NntpPool
