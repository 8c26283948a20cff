import NntpPool.Dispatch.Model.Attempt
/-!
# Dispatch — the loop of `tryGroupResilient`

The loop of `tryGroupResilient` one turn at a time, with all of its
variables. A `Try` is how a call of `tryGroup` ends, whatever the
provider, the connection or the caller does; the loop takes one try after
the other until it returns, which it need not do.

What was tried, with the `freshTransport` it was called with, and why the
loop went on each time are kept for the statements.
-/

namespace NntpPool

namespace Dispatch

/-! ## Tries -/

/-- **How a call of `tryGroup` ends**, and what it leaves in the request:
whether it came to its response head, whether its context is done, and
`decodedCommitted`. -/
structure Try where
  fin : AttemptEnd
  atHead : Bool := true
  ctxDone : Bool := false
  committed : Bool := false

/-- The request was refused with `errFreshTransportRequired`. -/
def Try.refused (a : Try) : Bool :=
  match a.fin with
  | .reply _ _ (some e) => e.isSentinel .freshTransportRequired
  | _ => false

/-- **What `tryGroup` returns.** A response to a refused request has no
`Request`. -/
def Try.result (g : Provider) (cmd : Command) (a : Try) : Result :=
  let req : RequestInfo := ⟨cmd.payload, cmd.validateBody, g.maps451, a.atHead, a.ctxDone⟩
  let failAttempt (cause : GoError) : Resp :=
    { err := some cause
      attempts := [buildAttemptEvidence req g.id 0 [] (some cause)]
      committed := a.committed
      providerID := g.id }
  match a.fin with
  | .clientDone e => ⟨failAttempt e.toError, false, true⟩
  | .callerDone e => ⟨failAttempt e.toError, false, true⟩
  | .groupDone => ⟨failAttempt (.sentinel .connectionDied), false, false⟩
  | .closed => ⟨{}, false, false⟩
  | .reply code status err =>
    ⟨{ statusCode := code
       status := status
       err := err
       attempts := if a.refused then [] else [buildAttemptEvidence req g.id code status err]
       committed := !a.refused && a.committed
       providerID := if a.refused then "" else g.id }, true, false⟩

/-- The article operations of the provider map a 451 to an absence. -/
def maps (g : Provider) (cmd : Command) : Bool :=
  g.maps451 && isArticleOperation (operationFromPayload cmd.payload)

/-- The server answers 451. -/
def Try.is451 (a : Try) : Bool :=
  match a.fin with
  | .reply code _ none => code == 451
  | _ => false

/-- The transport has failed. -/
def Try.died (a : Try) : Bool :=
  match a.fin with
  | .reply _ _ (some e) => isConnectionDeathError e
  | _ => false

/-! ## The loop -/

/-- Why the loop goes on. -/
inductive Why
  | refused
  | temporary
  | died
  deriving DecidableEq, Repr

/-- A try, and the `freshTransport` it was called with. -/
structure Tried where
  freshTransport : Bool
  a : Try

/-- **The variables of the loop**, what was tried, and why it went on. -/
structure Retries where
  attempts : List Evidence := []
  connRetries : ℕ := 0
  temporaryRetried : Bool := false
  mapped451Retry : Bool := false
  freshTransport : Bool := false
  made : List Tried := []
  why : List Why := []

/-- The loop goes on, or returns. -/
inductive Next
  | again (s : Retries)
  | ret (s : Retries) (r : Result)

def Next.state : Next → Retries
  | .again s => s
  | .ret s _ => s

/-- A try is over. -/
def Retries.note (s : Retries) (t : Result) (a : Try) : Retries :=
  { s with
    attempts := s.attempts ++ t.resp.attempts
    made := s.made ++ [⟨s.freshTransport, a⟩] }

/-- **One turn of the loop.** `delayCancelled` says that the caller's
context ends in the delay behind a 451. -/
def retry (g : Provider) (cmd : Command) (delayCancelled : Bool) (s : Retries) (a : Try) : Next :=
  let t := a.result g cmd
  let s := s.note t a
  let ret (cancelled : Bool) : Next :=
    .ret s ⟨{ t.resp with attempts := s.attempts }, t.ok, cancelled⟩
  if t.cancelled ∨ t.ok = false then ret t.cancelled
  else if cmd.hasWriter ∧ t.resp.committed then ret false
  else if t.resp.err.any (·.isSentinel .freshTransportRequired) then
    .again { s with why := s.why ++ [.refused] }
  else if s.temporaryRetried = false ∧ t.resp.err.isNone ∧ t.resp.statusCode = 451 then
    if delayCancelled then ret true
    else
      .again { s with
        temporaryRetried := true
        mapped451Retry := requestMaps451ToAbsence
          ⟨cmd.payload, cmd.validateBody, g.maps451, a.atHead, a.ctxDone⟩ t.resp.statusCode
        freshTransport := true
        why := s.why ++ [.temporary] }
  else if s.mapped451Retry ∧ t.resp.err.any isConnectionDeathError then ret false
  else if s.connRetries < maxConnDiedRetries ∧ t.resp.err.any isConnectionDeathError then
    .again { s with connRetries := s.connRetries + 1, why := s.why ++ [.died] }
  else ret false

/-- **The loop**, for as long as there are tries. -/
def retries (g : Provider) (cmd : Command) (delayCancelled : Bool) : Retries → List Try → Next
  | s, [] => .again s
  | s, a :: as =>
    match retry g cmd delayCancelled s a with
    | .again s => retries g cmd delayCancelled s as
    | .ret s r => .ret s r

end Dispatch

end NntpPool
