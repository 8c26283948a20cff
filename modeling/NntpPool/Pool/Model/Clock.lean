import NntpPool.Common.Stamps
import NntpPool.Pool.Model.Bootstrap
import NntpPool.Dispatch.Model.Retry
import NntpPool.Breaker.Model.Breaker
/-!
# Pool — the pool and the clock

`tryGroup` notes the time in `submittedAt` of the request it makes, and
`newNNTPConnectionFromConn` in `createdAt` of the connection, before it
waits for the greeting. `Run` compares the two for a request with
`FreshTransport`, once for the bootstrap request and once in its loop.
Here the steps of the pool are taken at times, which do not decrease, and
both checks are made.

A POST and a keepalive have no `submittedAt`: it is the zero time, which
no time is before.
-/

namespace NntpPool

namespace Pool

/-! ## Times -/

/-- **The pool with the times that were noted.** Each is kept with the
number of its step, which the code does not know. -/
structure Timed where
  pool : State
  last : Stamp ℕ := ⟨0, 0⟩
  /-- `createdAt` of the connection a slot waits to be greeted on. -/
  greetedAt : ℕ → Stamp ℕ := fun _ => ⟨0, 0⟩
  createdAt : ℕ → Stamp ℕ := fun _ => ⟨0, 0⟩
  submittedAt : ℕ → Stamp ℕ := fun _ => ⟨0, 0⟩

/-- Before the first request. -/
def Timed.start (S : Setup) : Timed := { pool := Pool.start S }

/-- A step, and when it is taken. -/
structure Tick where
  time : ℕ
  label : Label

/-- **`req.FreshTransport && c.createdAt.Before(req.submittedAt)`.** -/
def Timed.tooOld (S : Setup) (T : Timed) (k r : ℕ) : Bool :=
  (S.info r).freshTransport && decide ((T.createdAt k).time < (T.submittedAt r).time)

/-- The check of the bootstrap request, which comes before the look at its
context, and that of a request from a channel, which comes behind it. -/
def Timed.checks (S : Setup) (T : Timed) (k r : ℕ) : Writer → WriterAct → Bool
  | .first, .tooOld => T.tooOld S k r
  | .first, _ => !T.tooOld S k r
  | .got, .tooOld => T.tooOld S k r
  | .got, .go => !T.tooOld S k r
  | _, _ => true

/-- What `Run` does is what its checks say. -/
def Timed.admits (S : Setup) (T : Timed) : Label → Bool
  | .conn k (.writer a) =>
    T.pool.conns[k]?.all fun c => c.unsent.all fun r => T.checks S k r c.writer a
  | _ => true

/-- **What is noted in a step.** -/
def Timed.note (S : Setup) (T : Timed) (now : Stamp ℕ) : Label → Timed
  | .start r =>
    if (S.info r).postMode then T
    else { T with submittedAt := Function.update T.submittedAt r now }
  | .slot i .go =>
    match T.pool.slots[i]? with
    | some (.dial _ _) => { T with greetedAt := Function.update T.greetedAt i now }
    | some (.greet _ _) =>
      { T with createdAt := Function.update T.createdAt T.pool.conns.length (T.greetedAt i) }
    | _ => T
  | _ => T

/-- **One step of the pool, at its time.** -/
def tick (S : Setup) (T : Timed) (e : Tick) : Option Timed :=
  if T.last.time ≤ e.time ∧ T.admits S e.label = true then
    (step S T.pool e.label).map fun s =>
      { T.note S ⟨e.time, T.last.step + 1⟩ e.label with
        pool := s
        last := ⟨e.time, T.last.step + 1⟩ }
  else none

/-- **The requests whose payload is written** in a step, in whole or in
part. -/
def State.writes (s : State) : Label → List ℕ
  | .conn k (.writer _) =>
    match s.conns[k]? with
    | some c =>
      match c.writer with
      | .write _ _ => c.unsent.toList
      | .keepalive r => [r]
      | _ => []
    | none => []
  | _ => []

/-! ## Calls -/

/-- **A call of `tryGroupResilient`** behind its lease, by how its tries
end. -/
structure Resilient where
  g : Dispatch.Provider
  cmd : Dispatch.Command
  lease : Breaker.Lease
  freshTransport : Bool := false
  delayCancelled : Bool := false
  tries : List Dispatch.Try

/-- The tries it makes; those of a probe all want a fresh transport. -/
def Resilient.made (q : Resilient) : List Dispatch.Tried :=
  (Dispatch.retries q.g q.cmd q.delayCancelled
    { freshTransport := if q.lease.probe then true else q.freshTransport } q.tries).state.made

/-- **The requests of a call**: `tryGroup` makes one for each try, with
the `freshTransport` it is given. -/
structure Requests (S : Setup) extends Resilient where
  reqs : List ℕ
  flags : reqs.map (fun r => (S.info r).freshTransport) =
    toResilient.made.map Dispatch.Tried.freshTransport

/-- Its `n`-th try is part of a half-open probe, or behind a 451. -/
def Resilient.Renews (q : Resilient) (n : ℕ) : Prop :=
  q.lease.probe = true ∨ ∃ t ∈ q.made.take n, t.a.is451 = true

end Pool

end NntpPool
