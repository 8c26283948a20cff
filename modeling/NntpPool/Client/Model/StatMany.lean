import NntpPool.Client.Payload
import NntpPool.Common.Run
import Mathlib.Data.List.DropRight
/-!
# Client — many checks at once

`stat.go`. `StatMany` starts a goroutine that takes a slot of a semaphore
for each message-ID and starts a worker for it, and behind the last one
waits for the workers and closes the channel of the results. A worker
makes its check, sends what came of it unless the context is done first,
gives its slot back and tells the wait group. Whoever has called receives
until the channel is closed.

A state is where the dispatcher and each of the workers stands, with the
semaphore, the wait group and the channel as they are. Which of the cases
of a `select` is taken is up to the run.
-/

namespace NntpPool

namespace Client

open Dispatch (Response FinalErr Evidence responseError)

/-! ## One check -/

/-- `StatResult`. -/
structure StatResult where
  messageID : Bytes
  providerID : String
  attempts : List Evidence
  number : ℤ := 0

/-- `StatManyResult`. -/
structure StatManyResult where
  messageID : Bytes
  result : Option StatResult := none
  err : Option FinalErr := none

/-- `strings.Trim`, for the angle brackets. -/
def trimAngles (s : Bytes) : Bytes :=
  (s.dropWhile fun b => b == 60 || b == 62).rdropWhile fun b => b == 60 || b == 62

/-- **`parseStat`.** Of the four parts of the status line the last is not
looked at. -/
def parseStat (messageID : Bytes) (resp : Response) : Option StatResult × Option FinalErr :=
  match responseError resp with
  | some e => (none, some e)
  | none =>
    let parts := resp.status.splitOn 32
    (some
      { messageID := (parts[2]?.map trimAngles).getD messageID
        providerID := resp.providerID
        attempts := resp.attempts
        number := (parts[1]?.map fun part => (parseInt part).1).getD 0 }, none)

/-- What the environment answers a check: what `Send` or `SendPriority`
does, and for a check at one provider what `tryGroupResilient` returns, and
the errors of the caller's context and the client's. -/
structure Answers where
  sent : Response := {}
  turn : Dispatch.Result := ⟨{}, false, false⟩
  ctxErr : Option CtxErr := none
  clientErr : Option CtxErr := none

/-- **`statViaGroup`.** -/
def statViaGroup (a : Answers) : Response :=
  if a.turn.cancelled then
    { err := (a.ctxErr.or a.clientErr).map fun e => .plain e.toError }
  else if a.turn.ok = false then { err := some (.plain (.sentinel .connectionDied)) }
  else
    { statusCode := a.turn.resp.statusCode
      status := a.turn.resp.status
      err := a.turn.resp.err.map .plain
      attempts := a.turn.resp.attempts
      providerID := a.turn.resp.providerID }

/-- **`statOne`.** -/
def statOne (messageID : Bytes) (target : Option Group) (targetErr : Option GoError)
    (a : Answers) : StatManyResult :=
  match targetErr with
  | some e => { messageID := messageID, err := some (.plain e) }
  | none =>
    let resp := match target with
      | some _ => statViaGroup a
      | none => a.sent
    let parsed := parseStat messageID resp
    { messageID := messageID, result := parsed.1, err := parsed.2 }

/-! ## The call -/

/-- `defaultStatConcurrency`. -/
def defaultStatConcurrency : ℕ := 64

/-- **What `StatMany` is given**, and the providers it looks the name up
in. -/
structure Sweep where
  messageIDs : List Bytes
  concurrency : ℤ := 0
  provider : String := ""
  groups : List Group := []
  /-- The results a channel may have room for; `make` panics on more. -/
  maxRoom : ℕ

namespace Sweep

variable (S : Sweep)

/-- **The effective concurrency.** -/
def conc : ℕ :=
  let conc := if S.concurrency ≤ 0 then defaultStatConcurrency else S.concurrency.toNat
  if S.messageIDs.length < conc ∧ 0 < S.messageIDs.length then S.messageIDs.length else conc

def target : Option Group := if S.provider = "" then none else findGroup S.groups S.provider

def targetErr : Option GoError :=
  if S.provider ≠ "" ∧ S.target.isNone then
    some (.external ⟨"nntp: provider " ++ S.provider.quote ++ " not found", [], [], none, false⟩)
  else none

/-! ## Runs -/

/-- **Where a worker stands.** -/
inductive Phase
  /-- `statOne` is under way. -/
  | checking
  /-- At the `select`, with what came of it. -/
  | sending (res : StatManyResult)
  /-- Its slot is given back next, and then the wait group is told. -/
  | releasing
  | finishing
  | done

/-- **A worker**; `sent` records that the channel has its result. -/
structure Worker where
  messageID : Bytes
  phase : Phase := .checking
  sent : Bool := false

/-- **Where the dispatcher stands.** -/
inductive Dispatcher
  /-- At the head of its loop. -/
  | choosing
  /-- It has a slot for a worker that it is about to start. -/
  | starting (id : Bytes)
  /-- In `wg.Wait`. -/
  | waiting
  /-- It has closed the channel. -/
  | closed
  deriving DecidableEq, Repr

/-- **The state of a sweep.** -/
structure State where
  todo : List Bytes
  dispatcher : Dispatcher := .choosing
  workers : List Worker := []
  sem : ℕ := 0
  wg : ℕ := 0
  out : List StatManyResult := []
  cancelled : Bool := false
  /-- A send on a closed channel, or `wg.Done` below zero. -/
  panicked : Bool := false
  received : List StatManyResult := []

/-- What a worker does next. -/
inductive Act
  | check (a : Answers)
  | send
  | abandon
  | release
  | finish

/-- **The steps of a sweep**: those of the dispatcher, of a worker, of
whoever receives, and the end of the context. -/
inductive Label
  | acquire
  | breakOff
  | start
  | loopEnd
  | close
  | work (j : ℕ) (act : Act)
  | receive
  | cancel

/-- The call is made; `none` if it panics. -/
def begin : Option State :=
  if S.maxRoom < S.conc then none else some { todo := S.messageIDs }

/-- Worker `j` is now this one. -/
def State.put (s : State) (j : ℕ) (w : Worker) : State := { s with workers := s.workers.set j w }

/-- **One step of a worker.** -/
def work (s : State) (j : ℕ) (w : Worker) : Act → Option State
  | .check a =>
    match w.phase with
    | .checking =>
      some (s.put j { w with phase := .sending (statOne w.messageID S.target S.targetErr a) })
    | _ => none
  | .send =>
    match w.phase with
    | .sending res =>
      if s.dispatcher = .closed then some { s with panicked := true }
      else if s.out.length < S.conc then
        some ({ s with out := s.out ++ [res] }.put j { w with phase := .releasing, sent := true })
      else none
    | _ => none
  | .abandon =>
    match w.phase with
    | .sending _ => if s.cancelled then some (s.put j { w with phase := .releasing }) else none
    | _ => none
  | .release =>
    match w.phase with
    | .releasing =>
      if s.sem = 0 then none
      else some ({ s with sem := s.sem - 1 }.put j { w with phase := .finishing })
    | _ => none
  | .finish =>
    match w.phase with
    | .finishing =>
      if s.wg = 0 then some { s with panicked := true }
      else some ({ s with wg := s.wg - 1 }.put j { w with phase := .done })
    | _ => none

/-- **One step.** -/
def step (s : State) : Label → Option State
  | .acquire =>
    match s.dispatcher, s.todo with
    | .choosing, id :: todo =>
      if s.sem < S.conc then
        some { s with dispatcher := .starting id, todo := todo, sem := s.sem + 1 }
      else none
    | _, _ => none
  | .breakOff =>
    match s.dispatcher, s.todo with
    | .choosing, _ :: _ => if s.cancelled then some { s with dispatcher := .waiting } else none
    | _, _ => none
  | .start =>
    match s.dispatcher with
    | .starting id =>
      some { s with
        dispatcher := .choosing
        wg := s.wg + 1
        workers := s.workers ++ [{ messageID := id }] }
    | _ => none
  | .loopEnd =>
    match s.dispatcher, s.todo with
    | .choosing, [] => some { s with dispatcher := .waiting }
    | _, _ => none
  | .close =>
    if s.dispatcher = .waiting ∧ s.wg = 0 then some { s with dispatcher := .closed } else none
  | .work j act => s.workers[j]?.bind fun w => S.work s j w act
  | .receive =>
    match s.out with
    | res :: out => some { s with out := out, received := s.received ++ [res] }
    | [] => none
  | .cancel => if s.cancelled then none else some { s with cancelled := true }

/-- The checks that are outstanding. -/
def State.outstanding (s : State) : ℕ :=
  s.workers.countP fun w => match w.phase with
    | .checking => true
    | _ => false

/-- The message-IDs that were dispatched. -/
def State.dispatched (s : State) : List Bytes := s.workers.map Worker.messageID

/-- The message-IDs of what was received. -/
def State.receivedIDs (s : State) : List Bytes := s.received.map StatManyResult.messageID

/-- Whoever receives has seen the channel closed. -/
def State.Drained (s : State) : Prop := s.dispatcher = .closed ∧ s.out = []

end Sweep

end Client

end NntpPool
