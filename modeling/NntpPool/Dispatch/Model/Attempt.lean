import NntpPool.Dispatch.Model.Evidence
/-!
# Dispatch — attempts on one provider

`tryGroup` hands a request to a provider's connections and waits for what
comes first: a response, the end of its reply channel, or the end of one
of the contexts. `tryGroupResilient` repeats it on the same provider when
the connection died, and once behind a 451. What the environment does in
an attempt is an `Attempt`; a `Turn` is what it does in one call of
`tryGroupResilient`, which has not returned if its attempts run out.
-/

namespace NntpPool

namespace Dispatch

/-- The fields of `providerGroup` that dispatch reads and that do not
change. -/
structure Provider where
  id : String
  name : String
  /-- Its policy is `Response451AbsentAfterRetry`. -/
  maps451 : Bool
  deriving DecidableEq, Repr

/-- The arguments of `tryGroup` that do not change within a call. -/
structure Command where
  payload : Bytes
  validateBody : Bool
  /-- `bodyWriter` is not `nil`. -/
  hasWriter : Bool

/-- **How a call of `tryGroup` ends.** -/
inductive AttemptEnd
  /-- The client's context is done. -/
  | clientDone (e : CtxErr)
  /-- The request's context is done, which only the caller's context can
  bring about before the call returns. -/
  | callerDone (e : CtxErr)
  /-- The provider was removed from the pool. -/
  | groupDone
  /-- The reply channel is closed without a reply. -/
  | closed
  /-- A response arrives. -/
  | reply (code : ℤ) (status : Bytes) (err : Option GoError)

/-- **One attempt**, by what the environment does in it. `touched` says
that the decoder has called the request's writer, and `wrote` is what of
the `decoded` bytes the writer takes, also after `tryGroup` has left. -/
structure Attempt where
  fin : AttemptEnd
  atHead : Bool
  ctxDone : Bool
  touched : Bool
  decoded : Bytes
  wrote : Bytes
  wrote_front : wrote <+: decoded
  touched_of_wrote : wrote ≠ [] → touched = true
  /-- Only 220 and 222 replies have a body to decode. -/
  coded : ∀ code status err, fin = .reply code status err → touched = true →
    code = 220 ∨ code = 222
  /-- A request refused for want of a fresh transport is not sent. -/
  unsent : ∀ code status e, fin = .reply code status (some e) →
    e.isSentinel .freshTransportRequired = true → touched = false
  /-- An error that is `ErrArticleNotFound` comes from the login dialogue;
  no connection or writer makes one up. -/
  genuine : ∀ code status e, fin = .reply code status (some e) → e.isCode 430 = true →
    touched = false ∧ classifyOutcome code (some e) = .hardArticleAbsence

theorem nothing_front : ([] : Bytes) <+: [] := List.nil_prefix

/-- An attempt in which nothing is decoded. -/
def Attempt.plain (fin : AttemptEnd) (h : ∀ code status e, fin ≠ .reply code status (some e)) :
    Attempt where
  fin := fin
  atHead := true
  ctxDone := false
  touched := false
  decoded := []
  wrote := []
  wrote_front := nothing_front
  touched_of_wrote := fun h => absurd rfl h
  coded := fun _ _ _ _ h => absurd h Bool.false_ne_true
  unsent := fun _ _ _ _ _ => rfl
  genuine := fun code status e hf => absurd hf (h code status e)

/-- An attempt answered by a status line alone. -/
def Attempt.answer (code : ℤ) (status : Bytes) : Attempt := .plain (.reply code status none) nofun

/-- An attempt whose reply channel is closed without a reply. -/
def Attempt.hangup : Attempt := .plain .closed nofun

/-- A response within dispatch; `committed` is `attemptCommittedResp`. -/
structure Resp where
  statusCode : ℤ := 0
  status : Bytes := []
  err : Option GoError := none
  attempts : List Evidence := []
  committed : Bool := false
  providerID : String := ""

/-- What `tryGroup` and `tryGroupResilient` return. -/
structure Result where
  resp : Resp
  ok : Bool
  cancelled : Bool

/-- The request of an attempt. -/
def requestInfo (g : Provider) (cmd : Command) (a : Attempt) : RequestInfo :=
  ⟨cmd.payload, cmd.validateBody, g.maps451, a.atHead, a.ctxDone⟩

/-- **`tryGroup`.** -/
def tryGroup (g : Provider) (cmd : Command) (a : Attempt) : Result :=
  let req := requestInfo g cmd a
  let committed := isBodyCommand cmd.payload && a.touched
  let failAttempt (cause : GoError) : Resp :=
    { err := some cause
      attempts := [buildAttemptEvidence req g.id 0 [] (some cause)]
      committed := committed
      providerID := g.id }
  match a.fin with
  | .clientDone e => ⟨failAttempt e.toError, false, true⟩
  | .callerDone e => ⟨failAttempt e.toError, false, true⟩
  | .groupDone => ⟨failAttempt (.sentinel .connectionDied), false, false⟩
  | .closed => ⟨{}, false, false⟩
  | .reply code status err =>
    -- a request refused for want of a fresh transport leaves no evidence
    let fresh := err.any (·.isSentinel .freshTransportRequired)
    ⟨{ statusCode := code
       status := status
       err := err
       attempts := if fresh then [] else [buildAttemptEvidence req g.id code status err]
       committed := committed
       providerID := if fresh then "" else g.id }, true, false⟩

/-- What `breaker.acquire` answers; on a refusal, with the error of a
context that is done. -/
inductive Lease
  | granted
  | refused (ctxErr : Option CtxErr)

/-- **What the environment does in a call of `tryGroupResilient`.** -/
structure Turn where
  lease : Lease
  attempts : List Attempt
  /-- The caller's context ends in the delay behind a 451. -/
  delayCancelled : Bool

/-- `maxConnDiedRetries`. -/
def maxConnDiedRetries : ℕ := 2

/-- The variables of the loop of `tryGroupResilient`, and the attempts it
has made. -/
structure Retry where
  attempts : List Evidence := []
  connRetries : ℕ := 0
  temporaryRetried : Bool := false
  mapped451Retry : Bool := false
  made : List Attempt := []

/-- What `tryGroupResilient` returns, with the attempts it made. -/
structure TurnResult extends Result where
  made : List Attempt

/-- The loop of `tryGroupResilient`. -/
def resilientLoop (g : Provider) (cmd : Command) (delayCancelled : Bool) :
    List Attempt → Retry → Option TurnResult
  | [], _ => none
  | a :: rest, s =>
    let t := tryGroup g cmd a
    let s := { s with attempts := s.attempts ++ t.resp.attempts, made := s.made ++ [a] }
    let ret (cancelled : Bool) : Option TurnResult :=
      some ⟨⟨{ t.resp with attempts := s.attempts }, t.ok, cancelled⟩, s.made⟩
    let died := t.resp.err.any isConnectionDeathError
    if t.cancelled ∨ t.ok = false then ret t.cancelled
    else if cmd.hasWriter ∧ t.resp.committed then ret false
    else if t.resp.err.any (·.isSentinel .freshTransportRequired) then
      resilientLoop g cmd delayCancelled rest s
    else if s.temporaryRetried = false ∧ t.resp.err.isNone ∧ t.resp.statusCode = 451 then
      if delayCancelled then ret true
      else
        resilientLoop g cmd delayCancelled rest
          { s with
            temporaryRetried := true
            mapped451Retry := requestMaps451ToAbsence (requestInfo g cmd a) t.resp.statusCode }
    else if s.mapped451Retry ∧ died then ret false
    else if s.connRetries < maxConnDiedRetries ∧ died then
      resilientLoop g cmd delayCancelled rest { s with connRetries := s.connRetries + 1 }
    else ret false

/-- **`tryGroupResilient`.** -/
def tryGroupResilient (g : Provider) (cmd : Command) (t : Turn) : Option TurnResult :=
  let ineligible (e : GoError) : Resp :=
    { err := some e
      attempts := [buildEligibilityEvidence cmd.payload g.id e cmd.validateBody]
      providerID := g.id }
  match t.lease with
  | .granted => resilientLoop g cmd t.delayCancelled t.attempts {}
  | .refused (some e) => some ⟨⟨ineligible e.toError, false, true⟩, []⟩
  | .refused none => some ⟨⟨ineligible (.breakerOpen g.id), true, false⟩, []⟩

/-- `responseIsHardArticleAbsence`. -/
def responseIsHardArticleAbsence (resp : Resp) : Bool :=
  resp.statusCode == 423 || resp.statusCode == 430 ||
    (resp.statusCode == 451 && resp.attempts.getLast?.any fun e =>
      e.responseCode == 451 && e.outcome == .hardArticleAbsence)

end Dispatch

end NntpPool
