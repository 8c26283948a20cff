import NntpPool.Common.Run
import Mathlib.Data.Int.Notation
/-!
# Breaker — the circuit breaker of a provider

`circuit_breaker.go`. A request acquires a lease before its first attempt
and completes it behind its last one, which may be long after; in between
the breaker may have been opened and reset by others. Every operation
runs under the breaker's mutex, so a run of the breaker is a sequence of
whole operations. The clock is read within them, by `openLocked` a second
time. Points and spans of time are integers, in nanoseconds.

The generation is a counter that is only compared for equality; it is
taken not to wrap around.
-/

namespace NntpPool

namespace Breaker

/-- `time.Second`. -/
def second : ℤ := 1000000000

/-- `providerBreakerFailureThreshold`. -/
def failureThreshold : ℕ := 3

/-- `providerBreakerFailureWindow`. -/
def failureWindow : ℤ := 30 * second

/-- `providerBreakerCooldowns`. -/
def cooldowns : List ℤ := [10 * second, 20 * second, 40 * second, 80 * second, 120 * second]

/-- The cooldown of an index. -/
def cooldown (i : ℕ) : ℤ := cooldowns.getD i 0

/-- `CircuitBreakerState`. -/
inductive BreakerState
  | disabled
  | closed
  | opened
  | halfOpen
  deriving DecidableEq, Repr

/-- `circuitBreakerCompletion`. -/
inductive Completion
  | neutral
  | success
  | failure
  deriving DecidableEq, Repr

/-- `circuitBreakerLease`; a breaker is known by a number, and the zero
lease is that of none. -/
structure Lease where
  breaker : Option ℕ := none
  generation : ℕ := 0
  enabled : Bool := false
  probe : Bool := false
  deriving DecidableEq, Repr

/-- `CircuitBreakerError`. -/
structure CircuitBreakerError where
  providerID : String
  state : BreakerState
  retryAt : Option ℤ
  deriving DecidableEq, Repr

/-- `CircuitBreakerStats`. -/
structure CircuitBreakerStats where
  state : BreakerState
  qualifyingFailures : ℕ := 0
  openUntil : Option ℤ := none
  cooldown : ℤ := 0
  probeInFlight : Bool := false
  deriving DecidableEq, Repr

/-- `providerCircuitBreaker`; an `openUntil` of `none` is the zero
time. -/
structure ProviderCircuitBreaker where
  self : ℕ := 0
  enabled : Bool
  state : BreakerState
  failures : List ℤ := []
  cooldownIndex : ℕ := 0
  openUntil : Option ℤ := none
  probeInFlight : Bool := false
  generation : ℕ := 0
  deriving DecidableEq, Repr

/-- `newProviderCircuitBreaker`. -/
def newProviderCircuitBreaker (enabled : Bool) : ProviderCircuitBreaker where
  enabled := enabled
  state := if enabled then .closed else .disabled

namespace ProviderCircuitBreaker

variable (b : ProviderCircuitBreaker)

/-- `now.Before(b.openUntil)`. -/
def cooling (now : ℤ) : Bool := b.openUntil.any fun t => now < t

/-- **`acquire`.** -/
def acquire (providerID : String) (now : ℤ) :
    ProviderCircuitBreaker × Except CircuitBreakerError Lease :=
  let lease : Lease := { breaker := some b.self, generation := b.generation, enabled := b.enabled }
  if b.enabled = false ∨ b.state = .closed then (b, .ok lease)
  else if b.cooling now = false ∧ b.probeInFlight = false then
    ({ b with probeInFlight := true }, .ok { lease with probe := true })
  else
    let state := if b.cooling now then BreakerState.opened else .halfOpen
    (b, .error ⟨providerID, state, b.openUntil⟩)

/-- `pruneFailuresLocked`. -/
def pruneFailuresLocked (now : ℤ) : ProviderCircuitBreaker :=
  { b with failures := b.failures.dropWhile fun t => t < now - failureWindow }

/-- `openLocked`; `now` is what its own reading of the clock answers. -/
def openLocked (now : ℤ) : ProviderCircuitBreaker :=
  { b with
    state := .opened
    failures := []
    probeInFlight := false
    openUntil := some (now + cooldown b.cooldownIndex)
    generation := b.generation + 1 }

/-- `resetLocked`. -/
def resetLocked : ProviderCircuitBreaker :=
  { b with
    state := .closed
    failures := []
    cooldownIndex := 0
    openUntil := none
    probeInFlight := false
    generation := b.generation + 1 }

/-- **`complete`**, with what the clock answers the first time and the
second. -/
def complete (lease : Lease) (completion : Completion) (now later : ℤ) :
    ProviderCircuitBreaker :=
  if lease.enabled = false ∨ lease.breaker ≠ some b.self then b
  else if completion = .success then b.resetLocked
  else if lease.generation ≠ b.generation then b
  else if lease.probe then
    if b.probeInFlight = false then b
    else
      let b := { b with probeInFlight := false }
      if completion = .failure then
        let b := if b.cooldownIndex < cooldowns.length - 1 then
            { b with cooldownIndex := b.cooldownIndex + 1 } else b
        b.openLocked now
      else b
  else if completion ≠ .failure ∨ b.state ≠ .closed then b
  else
    let b := b.pruneFailuresLocked now
    let b := { b with failures := b.failures ++ [now] }
    if failureThreshold ≤ b.failures.length then { b with cooldownIndex := 0 }.openLocked later
    else b

/-- What `snapshot` leaves: a closed breaker prunes its failures. -/
def snapshot (now : ℤ) : ProviderCircuitBreaker :=
  if b.enabled ∧ b.state = .closed then b.pruneFailuresLocked now else b

/-- **What `snapshot` answers.** -/
def stats (now : ℤ) : CircuitBreakerStats :=
  if b.enabled = false then { state := .disabled }
  else
    { state := if b.state ≠ .closed ∧ b.cooling now = false then .halfOpen else b.state
      qualifyingFailures := (b.snapshot now).failures.length
      openUntil := b.openUntil
      cooldown := if b.state = .opened then cooldown b.cooldownIndex else 0
      probeInFlight := b.probeInFlight }

end ProviderCircuitBreaker

/-! ## Runs -/

/-- What has happened, by the number of the lease. -/
inductive Event
  | acquired (n : ℕ) (probe : Bool)
  | refused
  | completed (n : ℕ) (completion : Completion) (now later : ℤ)
  deriving DecidableEq, Repr

/-- **A breaker and its requests**: the leases that are not completed yet,
the last time the clock was read, and the history, latest first. -/
structure System where
  breaker : ProviderCircuitBreaker
  outstanding : List (ℕ × Lease) := []
  acquired : ℕ := 0
  clock : ℤ := 0
  history : List Event := []
  deriving DecidableEq, Repr

/-- The operations. -/
inductive Label
  | acquire (providerID : String) (now : ℤ)
  | complete (n : ℕ) (completion : Completion) (now later : ℤ)
  | snapshot (now : ℤ)
  deriving DecidableEq, Repr

/-- **One operation.** The clock does not go back, and a lease is
completed once. -/
def System.step (s : System) : Label → Option System
  | .acquire providerID now =>
    if now < s.clock then none
    else match s.breaker.acquire providerID now with
      | (b, .ok lease) =>
        some { s with
          breaker := b
          outstanding := (s.acquired, lease) :: s.outstanding
          acquired := s.acquired + 1
          clock := now
          history := .acquired s.acquired lease.probe :: s.history }
      | (b, .error _) =>
        some { s with breaker := b, clock := now, history := .refused :: s.history }
  | .complete n completion now later =>
    if now < s.clock ∨ later < now then none
    else (s.outstanding.find? fun x => x.1 == n).map fun x =>
      { s with
        breaker := s.breaker.complete x.2 completion now later
        outstanding := s.outstanding.erase x
        clock := later
        history := .completed n completion now later :: s.history }
  | .snapshot now =>
    if now < s.clock then none
    else some { s with breaker := s.breaker.snapshot now, clock := now }

/-- An operation as the breaker sees it: any lease may be completed, at
any time. -/
inductive Op
  | acquire (providerID : String) (now : ℤ)
  | complete (lease : Lease) (completion : Completion) (now later : ℤ)
  | snapshot (now : ℤ)
  deriving DecidableEq, Repr

/-- What an operation shows: the result of `acquire` and of `snapshot`,
and what the breaker is behind `complete`, without its failures. -/
inductive Answer
  | acquired (result : Except CircuitBreakerError Lease)
  | completed (state : BreakerState) (generation cooldownIndex : ℕ) (openUntil : Option ℤ)
      (probeInFlight : Bool)
  | stats (stats : CircuitBreakerStats)

/-- **A breaker and its clock.** -/
structure Clocked where
  breaker : ProviderCircuitBreaker
  clock : ℤ
  deriving DecidableEq, Repr

/-- One operation; the clock does not go back. -/
def Clocked.step (t : Clocked) : Op → Option Clocked
  | .acquire providerID now =>
    if now < t.clock then none else some ⟨(t.breaker.acquire providerID now).1, now⟩
  | .complete lease completion now later =>
    if now < t.clock ∨ later < now then none
    else some ⟨t.breaker.complete lease completion now later, later⟩
  | .snapshot now => if now < t.clock then none else some ⟨t.breaker.snapshot now, now⟩

/-- What it shows. -/
def Clocked.answer (t : Clocked) : Op → Answer
  | .acquire providerID now => .acquired (t.breaker.acquire providerID now).2
  | .complete lease completion now later =>
    let b := t.breaker.complete lease completion now later
    .completed b.state b.generation b.cooldownIndex b.openUntil b.probeInFlight
  | .snapshot now => .stats (t.breaker.stats now)

/-- The answers of a run, in order. -/
def answers : Clocked → List Op → List Answer := logged Clocked.step fun t op => [t.answer op]

/-- A new breaker. -/
def Clocked.start (enabled : Bool) (clock : ℤ) : Clocked :=
  ⟨newProviderCircuitBreaker enabled, clock⟩

/-- A breaker that was just made, at any time. -/
def System.start (enabled : Bool) (clock : ℤ) : System where
  breaker := newProviderCircuitBreaker enabled
  clock := clock

end Breaker

end NntpPool
