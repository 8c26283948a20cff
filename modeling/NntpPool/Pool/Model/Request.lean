import NntpPool.Dispatch.Model.Evidence
/-!
# Pool — requests

A `Request` of `nntp.go`, by the fields the pool decides by, and the
channel its `Response` comes on. A request is named by a number; what
never changes of it is a function of that name.

The limits of a provider's pipeline are computed from its configuration
as `startProviderGroup` does.
-/

namespace NntpPool

namespace Pool

/-- **`Request`**, without what its holders write into it. Only a POST is
streamed from a reader behind its payload. -/
structure Request where
  payload : Bytes
  validateBody : Bool := false
  freshTransport : Bool := false
  /-- `response451Policy` is `Response451AbsentAfterRetry`. -/
  maps451 : Bool := false
  priority : Bool := false
  postMode : Bool := false
  /-- `BodyWriter` is not `nil`. -/
  hasWriter : Bool := false
  /-- A connection has made it itself, to keep alive. -/
  keepalive : Bool := false
  /-- The call it is an attempt of. -/
  call : ℕ := 0
  post_payload : postMode = true → isCheapCommand payload = false := by decide
  keepalive_writer : keepalive = true → hasWriter = false := by decide

/-- A request that is no keepalive may have a writer. -/
theorem Request.any_writer {hasWriter : Bool} : false = true → hasWriter = false :=
  fun h => absurd h Bool.false_ne_true

/-- What is read of a `Response`. -/
structure Reply where
  statusCode : ℤ := 0
  status : Bytes := []
  err : Option GoError := none
  deriving DecidableEq, Repr

/-- **`RespCh`**, which has room for one response: how many were ever
sent, whether it is closed, and what is in it. -/
structure RespCh where
  sent : ℕ := 0
  closed : Bool := false
  buf : Option Reply := none
  deriving DecidableEq, Repr

/-- A send that gives up on a channel that is full. -/
def RespCh.put (ch : RespCh) (reply : Reply) : RespCh :=
  if ch.buf.isNone then { ch with sent := ch.sent + 1, buf := some reply } else ch

/-- `failRequest`: on a closed channel the send panics, is recovered from,
and nothing is left of it. -/
def failRequest (ch : RespCh) (e : GoError) : RespCh :=
  if ch.closed then ch else { ch.put { err := some e } with closed := true }

/-- The end of `readerLoop` for a request: the response is sent if it is
to be delivered, and the channel is closed. -/
def RespCh.answer (ch : RespCh) (deliver : Bool) (reply : Reply) : RespCh :=
  { (if deliver then ch.put reply else ch) with closed := true }

/-- The outcome of the evidence that is recorded for a response. -/
def Request.outcome (q : Request) (reply : Reply) : Dispatch.OutcomeKind :=
  Dispatch.attemptOutcome ⟨q.payload, q.validateBody, q.maps451, false, false⟩ reply.statusCode
    reply.status reply.err

/-! ## Limits -/

/-- The fields of `Provider` the limits are computed from. -/
structure Provider where
  connections : ℕ
  inflight : ℤ := 0
  statInflight : ℤ := 0
  backgroundStatInflight : ℤ := 0
  priorityHeadroom : ℤ := 0

/-- `inflight`. -/
def Provider.bodyLimit (p : Provider) : ℤ := if p.inflight ≤ 0 then 1 else p.inflight

/-- `statInflight`, the depth of the pipeline. -/
def Provider.pipelineLimit (p : Provider) : ℤ :=
  if p.statInflight < p.bodyLimit then p.bodyLimit else p.statInflight

/-- `priorityHeadroom`. -/
def Provider.headroom (p : Provider) : ℤ :=
  let headroom := max p.priorityHeadroom 0
  if p.pipelineLimit ≤ headroom then p.pipelineLimit - 1 else headroom

/-- `backgroundStatInflight`. -/
def Provider.backgroundLimit (p : Provider) : ℤ :=
  let background :=
    if p.backgroundStatInflight ≤ 0 then p.pipelineLimit else p.backgroundStatInflight
  min background (p.pipelineLimit - p.headroom)

/-- The capacities of the three semaphores of a connection. -/
structure Limits where
  inflight : ℕ
  body : ℕ
  background : ℕ

def Provider.limits (p : Provider) : Limits :=
  ⟨p.pipelineLimit.toNat, p.bodyLimit.toNat, p.backgroundLimit.toNat⟩

end Pool

end NntpPool
