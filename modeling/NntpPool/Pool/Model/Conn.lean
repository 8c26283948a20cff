import NntpPool.Pool.Model.Request
/-!
# Pool — one connection

`NNTPConnection` as two goroutines: `Run` writes requests and puts them
on the `pending` queue, `readerLoop` takes them off in turn and answers
them. Both end in `failOutstanding`, which fails what is left on the
queue, under a lock. A state of a connection is where the two stand, what
each holds, and the counts of the semaphores; an `Act` is one step of one
of the two, with what the environment decides in it. What a step does to
the rest of the pool is its list of `Effect`s.

The bytes on the wire, the deadlines and the statistics other than the
two gauges are left out. An I/O operation may fail at any time.
-/

namespace NntpPool

namespace Pool

/-- A request with the slots it holds. -/
structure Entry where
  req : ℕ
  heldBody : Bool := false
  heldBackgroundStat : Bool := false
  heldPipeline : Bool := false
  deriving DecidableEq, Repr

/-- **Where `failOutstanding` stands**: before its lock, in its loop, and
with a request it has taken off the queue, whose slots it has given back,
and which it has failed. -/
inductive Failing
  | lock
  | loop
  | popped (e : Entry)
  | released (e : Entry)
  | failed
  deriving DecidableEq, Repr

/-- **Where `Run` stands.** The request it is about is `unsent`, but for
one that was `chosen` before a look for a priority request. -/
inductive Writer
  /-- The bootstrap request is checked, and a slot in the pipeline taken. -/
  | first
  | firstSlot
  /-- The head of the loop; a slot is taken before a request is looked
  for. -/
  | top
  | flush
  /-- Whether a deferred STAT is blocked is read before the channels. -/
  | look
  | take (blockedDeferredStat : Bool)
  | blocked
  | normal
  | wait
  | chosen (r : ℕ)
  | got
  | body (boot : Bool)
  | background (boot heldBody : Bool)
  | write (heldBody heldBackgroundStat : Bool)
  | flushPost (heldBody heldBackgroundStat : Bool)
  | enqueue (heldBody heldBackgroundStat : Bool)
  /-- A POST waits for 340, and its article is sent. -/
  | postWait
  | postCopy
  | keepalive (r : ℕ)
  | keepaliveWait (r : ℕ)
  /-- `waitForInflightDrain`. -/
  | drain
  /-- `failOutstanding` behind an error, before the return. -/
  | abort (f : Failing)
  /-- The deferred function, with the `failOutstanding` at its end. -/
  | exitUnsent
  | exitDeferred
  | exitCancel
  | closing (f : Failing)
  | dead
  deriving DecidableEq, Repr

/-- **Where `readerLoop` stands**, and at its end the goroutine that runs
it. -/
inductive Reader
  | top
  | wait
  | head (e : Entry)
  /-- Before a control point, and behind it. -/
  | control (e : Entry) (deliver : Bool)
  | feed (e : Entry) (deliver : Bool)
  | fed (e : Entry) (deliver : Bool) (reply : Reply)
  /-- The second response to a POST is read. -/
  | second (e : Entry) (deliver : Bool) (reply : Reply)
  /-- The response is sent and its slots are given back; with the code of
  the first line that was read. -/
  | respond (e : Entry) (deliver : Bool) (reply : Reply) (code : ℤ)
  | freeInflight (e : Entry) (reply : Reply) (code : ℤ)
  | freePending (e : Entry) (reply : Reply) (code : ℤ)
  | freeBody (e : Entry) (reply : Reply) (code : ℤ)
  | decide (e : Entry) (reply : Reply) (code : ℤ)
  | retire (f : Failing)
  | returned
  | ended
  deriving DecidableEq, Repr

/-- **A connection.** -/
structure Conn where
  /-- The slot it belongs to. -/
  slot : ℕ
  writer : Writer := .first
  unsent : Option ℕ := none
  deferredNormal : Option ℕ := none
  reader : Reader := .top
  pending : List Entry := []
  /-- `failMu` is locked. -/
  failMu : Bool := false
  inflightSem : ℕ := 0
  bodySem : ℕ := 0
  backgroundStatSem : ℕ := 0
  backgroundStatFreed : Bool := false
  /-- `cancel` was called. -/
  cancelled : Bool := false
  /-- `postReadyCh` of the POST that is on its way: 340, or not. -/
  postReady : Option Bool := none
  deriving DecidableEq, Repr

/-- What a connection sees of the rest of the pool. -/
structure Env where
  /-- The contexts of the requests. -/
  done : ℕ → Option CtxErr
  /-- The context of the slot. -/
  slotDone : Option CtxErr
  prioCh : List ℕ
  reqCh : List ℕ
  /-- What is in the reply channels. -/
  reply : ℕ → Option Reply

/-- The context of the connection. -/
def Conn.done (c : Conn) (env : Env) : Option CtxErr :=
  if c.cancelled then some .canceled else env.slotDone

/-- Who calls `failRequest`. -/
inductive Party
  | slot
  | writer
  | outstanding
  deriving DecidableEq, Repr

/-- **What a step does to the rest of the pool.** -/
inductive Effect
  | fail (who : Party) (r : ℕ) (e : GoError)
  | answer (r : ℕ) (deliver : Bool) (reply : Reply)
  | takePrio
  | takeReq
  /-- A keepalive request is made. -/
  | make (r : ℕ)
  /-- `PipelineInUse` and `BackgroundStatInUse`. -/
  | pipelineInUse (d : ℤ)
  | backgroundStatInUse (d : ℤ)
  /-- Decoded bytes are written to the request's writer. -/
  | wrote (r : ℕ)
  deriving DecidableEq, Repr

/-- **The parameters of a provider's pool.** -/
structure Setup where
  /-- The number of slots, and the room of the two request channels. -/
  connections : ℕ
  limits : Limits
  providerName : String
  keepaliveCode : ℤ
  info : ℕ → Request

/-- What `fmt.Errorf("%s: %w", c.providerName, err)` makes of an error, if
the provider has a name. -/
def Setup.named (S : Setup) (e : GoError) : GoError :=
  if S.providerName ≠ "" then .wrapped S.providerName e else e

/-- The request needs a slot of the background STATs. -/
def Setup.isBackground (S : Setup) (r : ℕ) : Bool :=
  isCheapCommand (S.info r).payload && !(S.info r).priority

variable (S : Setup) (env : Env)

/-! ## Slots -/

/-- `<-c.inflightSem`. -/
def Conn.freeInflight (c : Conn) : Conn := { c with inflightSem := c.inflightSem - 1 }

/-- `<-c.bodySem`, if the slot is held. -/
def Conn.freeBody (c : Conn) (held : Bool) : Conn :=
  if held then { c with bodySem := c.bodySem - 1 } else c

/-- `releaseBackgroundStat`. -/
def Conn.freeBackground (c : Conn) (held : Bool) : Conn :=
  if held then
    { c with backgroundStatSem := c.backgroundStatSem - 1, backgroundStatFreed := true }
  else c

/-- What it does to the gauge. -/
def backgroundFreed (held : Bool) : List Effect := if held then [.backgroundStatInUse (-1)] else []

/-- What `releaseRequestPending` does to the gauges. -/
def pendingFreed (e : Entry) : List Effect :=
  backgroundFreed e.heldBackgroundStat ++ if e.heldPipeline then [.pipelineInUse (-1)] else []

/-! ## `failOutstanding` -/

/-- **One step of `failOutstanding`**; `none` in the second place when it
returns. -/
def Conn.failStep (c : Conn) : Failing → Option (Conn × Option Failing × List Effect)
  | .lock => if c.failMu then none else some ({ c with failMu := true }, some .loop, [])
  | .loop =>
    match c.pending with
    | [] => some ({ c with failMu := false }, none, [])
    | e :: rest => some ({ c with pending := rest }, some (.popped e), [])
  | .popped e =>
    some (c.freeBackground e.heldBackgroundStat,
      some (.released { e with heldBackgroundStat := false, heldPipeline := false }),
      pendingFreed e)
  | .released e =>
    some (c, some .failed, [.fail .outstanding e.req (S.named (.sentinel .connectionDied))])
  | .failed => some (c.freeInflight, some .loop, [])

/-! ## `Run` -/

/-- **What may happen to `Run`** where it stands: it goes on, an I/O
operation fails, a context is done, a channel answers, or a timer
fires. -/
inductive WriterAct
  | go
  | ioErr (e : GoError)
  | connDone
  | reqDone
  /-- The connection is older than a request that wants a fresh one. -/
  | tooOld
  | prio
  | req
  | freed
  | idle
  | keepalive (r : ℕ)
  | hotPrio (r : ℕ)
  | hotReq (r : ℕ)
  deriving DecidableEq, Repr

/-- The bootstrap request, before it has a slot. -/
def Conn.atFirst (c : Conn) (r : ℕ) : WriterAct → Option (Conn × List Effect)
  | .tooOld =>
    if (S.info r).freshTransport then
      some ({ c with writer := .exitUnsent },
        [.fail .writer r (.sentinel .freshTransportRequired)])
    else none
  | .reqDone =>
    (env.done r).map fun e => ({ c with writer := .top }, [.fail .writer r e.toError])
  | .go => if (env.done r).isNone then some ({ c with writer := .firstSlot }, []) else none
  | _ => none

/-- Its slot in the pipeline. -/
def Conn.atFirstSlot (c : Conn) (r : ℕ) : WriterAct → Option (Conn × List Effect)
  | .go =>
    if c.inflightSem < S.limits.inflight then
      some ({ c with inflightSem := c.inflightSem + 1, writer := .body true }, [])
    else none
  | .connDone =>
    (c.done env).map fun e => ({ c with writer := .exitUnsent }, [.fail .writer r e.toError])
  | _ => none

/-- The head of the loop: the context, a flush, and a slot. -/
def Conn.atTop (c : Conn) : WriterAct → Option (Conn × List Effect)
  | .connDone => (c.done env).map fun _ => ({ c with writer := .exitUnsent }, [])
  | .ioErr _ => some ({ c with writer := .exitUnsent }, [])
  | .go =>
    if c.inflightSem < S.limits.inflight then
      some ({ c with inflightSem := c.inflightSem + 1, writer := .flush }, [])
    else none
  | _ => none

/-- The flush before the channels are read. -/
def Conn.atFlush (c : Conn) : WriterAct → Option (Conn × List Effect)
  | .ioErr _ => some ({ c.freeInflight with writer := .exitUnsent }, [])
  | .go => some ({ c with writer := .look }, [])
  | _ => none

/-- `blockedDeferredStat`. -/
def Conn.blockedDeferredStat (c : Conn) : Bool :=
  c.deferredNormal.any fun r =>
    S.isBackground r && c.backgroundStatSem == S.limits.background

/-- `takePriority`, first. -/
def Conn.atTake (c : Conn) (blockedDeferredStat : Bool) : WriterAct → Option (Conn × List Effect)
  | .prio => env.prioCh.head?.map fun p => ({ c with unsent := some p, writer := .got }, [.takePrio])
  | .go =>
    if env.prioCh = [] then
      some ({ c with writer := if blockedDeferredStat then .blocked else .normal }, [])
    else none
  | _ => none

/-- The wait behind a STAT that is blocked. -/
def Conn.atBlocked (c : Conn) : WriterAct → Option (Conn × List Effect)
  | .prio => env.prioCh.head?.map fun p => ({ c with unsent := some p, writer := .got }, [.takePrio])
  | .hotPrio p => some ({ c with unsent := some p, writer := .got }, [])
  | .freed =>
    if c.backgroundStatFreed then
      some ({ c with backgroundStatFreed := false, writer := .normal }, [])
    else none
  | .connDone => (c.done env).map fun _ => ({ c.freeInflight with writer := .exitUnsent }, [])
  | _ => none

/-- A request without priority: the deferred one, or one that waits. -/
def Conn.atNormal (c : Conn) : WriterAct → Option (Conn × List Effect)
  | .go =>
    match c.deferredNormal, env.reqCh with
    | some r, _ => some ({ c with deferredNormal := none, writer := .chosen r }, [])
    | none, [] => some ({ c with writer := .wait }, [])
    | none, r :: _ => some ({ c with writer := .chosen r }, [.takeReq])
  | _ => none

/-- The wait on all channels. -/
def Conn.atWait (c : Conn) : WriterAct → Option (Conn × List Effect)
  | .prio => env.prioCh.head?.map fun p => ({ c with unsent := some p, writer := .got }, [.takePrio])
  | .hotPrio p => some ({ c with unsent := some p, writer := .got }, [])
  | .req => env.reqCh.head?.map fun r => ({ c with writer := .chosen r }, [.takeReq])
  | .hotReq r => some ({ c with writer := .chosen r }, [])
  | .connDone => (c.done env).map fun _ => ({ c.freeInflight with writer := .exitUnsent }, [])
  | .idle => some ({ c.freeInflight with writer := .drain }, [])
  | .keepalive r =>
    if (S.info r).keepalive then some ({ c with writer := .keepalive r }, [.make r]) else none
  | _ => none

/-- `takePriority`, once more behind a request without priority, which is
then deferred. -/
def Conn.atChosen (c : Conn) (r : ℕ) : WriterAct → Option (Conn × List Effect)
  | .go =>
    match env.prioCh with
    | [] => some ({ c with unsent := some r, writer := .got }, [])
    | p :: _ =>
      some ({ c with deferredNormal := some r, unsent := some p, writer := .got }, [.takePrio])
  | _ => none

/-- The checks of a request from a channel. -/
def Conn.atGot (c : Conn) (r : ℕ) : WriterAct → Option (Conn × List Effect)
  | .reqDone =>
    (env.done r).map fun e =>
      ({ c.freeInflight with writer := .top }, [.fail .writer r e.toError])
  | .tooOld =>
    if (S.info r).freshTransport then
      some ({ c.freeInflight with writer := .exitUnsent },
        [.fail .writer r (.sentinel .freshTransportRequired)])
    else none
  | .go => if (env.done r).isNone then some ({ c with writer := .body false }, []) else none
  | _ => none

/-- The slot of a body. Of the bootstrap request a failure is reported
here, of others on exit. -/
def Conn.atBody (c : Conn) (r : ℕ) (boot : Bool) : WriterAct → Option (Conn × List Effect)
  | .go =>
    if isCheapCommand (S.info r).payload then
      some ({ c with writer := .background boot false }, [])
    else if c.bodySem < S.limits.body then
      some ({ c with bodySem := c.bodySem + 1, writer := .background boot true }, [])
    else none
  | .reqDone =>
    if isCheapCommand (S.info r).payload then none
    else (env.done r).map fun e =>
      ({ c.freeInflight with writer := .top }, [.fail .writer r e.toError])
  | .connDone =>
    if isCheapCommand (S.info r).payload then none
    else (c.done env).map fun e =>
      ({ c.freeInflight with writer := .exitUnsent },
        if boot then [.fail .writer r e.toError] else [])
  | _ => none

/-- `acquireBackgroundStat`. Of a full window the bootstrap request is
told, any other is deferred. -/
def Conn.atBackground (c : Conn) (r : ℕ) (boot heldBody : Bool) :
    WriterAct → Option (Conn × List Effect)
  | .go =>
    if S.isBackground r then
      if c.backgroundStatSem < S.limits.background then
        some ({ c with
          backgroundStatSem := c.backgroundStatSem + 1, writer := .write heldBody true },
          [.backgroundStatInUse 1])
      else if boot then
        some ({ (c.freeInflight.freeBody heldBody) with writer := .top },
          [.fail .writer r (.sentinel .backgroundStatWindowFull)])
      else
        some ({ (c.freeInflight.freeBody heldBody) with
          deferredNormal := some r, unsent := none, writer := .top }, [])
    else some ({ c with writer := .write heldBody false }, [])
  | _ => none

/-- The payload is written. -/
def Conn.atWrite (c : Conn) (r : ℕ) (heldBody heldBackgroundStat : Bool) :
    WriterAct → Option (Conn × List Effect)
  | .go =>
    some ({ c with writer :=
      if (S.info r).postMode then .flushPost heldBody heldBackgroundStat
      else .enqueue heldBody heldBackgroundStat }, [])
  | .ioErr e =>
    some ({ (c.freeInflight.freeBackground heldBackgroundStat) with writer := .abort .lock },
      backgroundFreed heldBackgroundStat ++ [.fail .writer r e])
  | _ => none

/-- A POST is flushed at once. -/
def Conn.atFlushPost (c : Conn) (r : ℕ) (heldBody heldBackgroundStat : Bool) :
    WriterAct → Option (Conn × List Effect)
  | .go => some ({ c with writer := .enqueue heldBody heldBackgroundStat }, [])
  | .ioErr e =>
    some ({ c.freeInflight with writer := .abort .lock }, [.fail .writer r e])
  | _ => none

/-- `markRequestPending`, and the request is put on the queue. -/
def Conn.atEnqueue (c : Conn) (r : ℕ) (heldBody heldBackgroundStat : Bool) :
    WriterAct → Option (Conn × List Effect)
  | .go =>
    if c.pending.length < S.limits.inflight then
      some ({ c with
        pending := c.pending ++ [⟨r, heldBody, heldBackgroundStat, true⟩]
        unsent := none
        postReady := if (S.info r).postMode then none else c.postReady
        writer := if (S.info r).postMode then .postWait else .top }, [.pipelineInUse 1])
    else none
  | _ => none

/-- A POST waits for the answer to its first line. -/
def Conn.atPostWait (c : Conn) : WriterAct → Option (Conn × List Effect)
  | .go => c.postReady.map fun ready => ({ c with writer := if ready then .postCopy else .top }, [])
  | .connDone => (c.done env).map fun _ => ({ c with writer := .exitUnsent }, [])
  | _ => none

/-- The article is copied. -/
def Conn.atPostCopy (c : Conn) : WriterAct → Option (Conn × List Effect)
  | .go => some ({ c with writer := .top }, [])
  | .ioErr _ => some ({ c with writer := .abort .lock }, [])
  | _ => none

/-- A keepalive command is written, and put on the queue. -/
def Conn.atKeepalive (c : Conn) (r : ℕ) : WriterAct → Option (Conn × List Effect)
  | .go =>
    if c.pending.length < S.limits.inflight then
      some ({ c with pending := c.pending ++ [⟨r, false, false, false⟩]
                     writer := .keepaliveWait r }, [])
    else none
  | .ioErr _ => some ({ c with writer := .abort .lock }, [])
  | _ => none

/-- Its answer. -/
def Conn.atKeepaliveWait (c : Conn) (r : ℕ) : WriterAct → Option (Conn × List Effect)
  | .go => (env.reply r).map fun reply =>
    ({ c with writer :=
      if reply.err.isSome ∨ reply.statusCode ≠ S.keepaliveCode then .abort .lock else .top }, [])
  | .connDone => (c.done env).map fun _ => ({ c with writer := .exitUnsent }, [])
  | _ => none

/-- `waitForInflightDrain`, which may be cut short. -/
def Conn.atDrain (c : Conn) : WriterAct → Option (Conn × List Effect)
  | .go =>
    if c.inflightSem < S.limits.inflight then
      some ({ c with inflightSem := c.inflightSem + 1 }, [])
    else none
  | .idle => some ({ c with writer := .exitUnsent }, [])
  | _ => none

/-- `failOutstanding` of the writer, where `next` says what comes
behind. -/
def Conn.writerFails (c : Conn) (f : Failing) (during : Failing → Writer) (next : Writer) :
    Option (Conn × List Effect) :=
  (c.failStep S f).map fun r =>
    ({ r.1 with writer := match r.2.1 with
        | some f => during f
        | none => next }, r.2.2)

/-- The deferred function fails a request that is not `nil`. -/
def exitFails : Option ℕ → List Effect
  | some r => [.fail .writer r (.sentinel .connectionDied)]
  | none => []

/-- **One step of `Run`.** -/
def Conn.writerStep (c : Conn) (a : WriterAct) : Option (Conn × List Effect) :=
  match c.writer with
  | .first => c.unsent.bind fun r => c.atFirst S env r a
  | .firstSlot => c.unsent.bind fun r => c.atFirstSlot S env r a
  | .top => c.atTop S env a
  | .flush => c.atFlush a
  | .look => if a = .go then some ({ c with writer := .take (c.blockedDeferredStat S) }, []) else none
  | .take blockedDeferredStat => c.atTake env blockedDeferredStat a
  | .blocked => c.atBlocked env a
  | .normal => c.atNormal env a
  | .wait => c.atWait S env a
  | .chosen r => c.atChosen env r a
  | .got => c.unsent.bind fun r => c.atGot S env r a
  | .body boot => c.unsent.bind fun r => c.atBody S env r boot a
  | .background boot heldBody => c.unsent.bind fun r => c.atBackground S r boot heldBody a
  | .write hb hg => c.unsent.bind fun r => c.atWrite S r hb hg a
  | .flushPost hb hg => c.unsent.bind fun r => c.atFlushPost r hb hg a
  | .enqueue hb hg => c.unsent.bind fun r => c.atEnqueue S r hb hg a
  | .postWait => c.atPostWait env a
  | .postCopy => c.atPostCopy a
  | .keepalive r => c.atKeepalive S r a
  | .keepaliveWait r => c.atKeepaliveWait S env r a
  | .drain => c.atDrain S a
  | .abort f => if a = .go then c.writerFails S f .abort .exitUnsent else none
  | .exitUnsent =>
    if a = .go then some ({ c with writer := .exitDeferred }, exitFails c.unsent) else none
  | .exitDeferred =>
    if a = .go then
      some ({ c with deferredNormal := none, writer := .exitCancel }, exitFails c.deferredNormal)
    else none
  | .exitCancel =>
    if a = .go then some ({ c with cancelled := true, writer := .closing .lock }, []) else none
  | .closing f => if a = .go then c.writerFails S f .closing .dead else none
  | .dead => none

/-! ## `readerLoop` -/

/-- **What may happen to `readerLoop`**: it goes on, the connection's
context is done, a control point gives the response up, `Feed` wants more
or is done, where it may have written, and the second response of a POST
is read. -/
inductive ReaderAct
  | go
  | connDone
  | limit (statusCode : ℤ) (status : Bytes)
  | more (wrote : Bool)
  | finish (wrote : Bool) (reply : Reply)
  | second (checked : Bool) (reply : Reply)
  deriving DecidableEq, Repr

/-- Decoded bytes go to the request's writer while it is to be
delivered. -/
def wroteTo (S : Setup) (r : ℕ) (deliver wrote : Bool) : List Effect :=
  if deliver && wrote && (S.info r).hasWriter then [.wrote r] else []

/-- The error of a response: the request's context comes first. -/
def respErr (r : ℕ) (reply : Reply) : Reply :=
  { reply with err := reply.err.map fun e => S.named (((env.done r).map CtxErr.toError).getD e) }

/-- The connection is not used again behind the response. -/
def retires (r : ℕ) (reply : Reply) (code : ℤ) : Bool :=
  reply.err.isSome && isBodyCommand (S.info r).payload ||
    reply.err.any (·.isTimeout) || reply.err.any (·.isSentinel .protocolDesync) ||
    code == 502 || code == 451

/-- The response is read. -/
def Conn.atFed (c : Conn) (e : Entry) (deliver : Bool) (reply : Reply) : Conn :=
  let reply := respErr S env e.req reply
  if (S.info e.req).postMode then
    if reply.statusCode = 340 then
      { c with postReady := some true, reader := .second e deliver reply }
    else { c with postReady := some false, reader := .respond e deliver reply reply.statusCode }
  else { c with reader := .respond e deliver reply reply.statusCode }

/-- The second response to a POST, whose error comes before that of the
first. -/
def secondReply (S : Setup) (first reply : Reply) : Reply :=
  { reply with err := (reply.err.map S.named) <|> first.err }

/-- **One step of `readerLoop`.** -/
def Conn.readerStep (c : Conn) (a : ReaderAct) : Option (Conn × List Effect) :=
  match c.reader, a with
  | .top, .connDone => (c.done env).map fun _ => ({ c with reader := .retire .lock }, [])
  | .top, .go => if (c.done env).isNone then some ({ c with reader := .wait }, []) else none
  | .wait, .connDone => (c.done env).map fun _ => ({ c with reader := .returned }, [])
  | .wait, .go =>
    match c.pending with
    | [] => none
    | e :: rest => some ({ c with pending := rest, reader := .head e }, [])
  | .head e, .go => some ({ c with reader := .control e (env.done e.req).isNone }, [])
  | .control e deliver, .go =>
    some ({ c with reader := .feed e (deliver && (env.done e.req).isNone) }, [])
  | .control e deliver, .limit statusCode status =>
    -- a bounded part of a body that nobody waits for is drained
    if (deliver && (env.done e.req).isNone) = false ∧ isBodyCommand (S.info e.req).payload then
      let reply : Reply := ⟨statusCode, status, some (.sentinel .abandonedBodyDrainLimit)⟩
      some ({ c with reader := .fed e false reply }, [])
    else none
  | .feed e deliver, .more wrote =>
    some ({ c with reader := .control e deliver }, wroteTo S e.req deliver wrote)
  | .feed e deliver, .finish wrote reply =>
    some ({ c with reader := .fed e deliver reply }, wroteTo S e.req deliver wrote)
  | .fed e deliver reply, .go => some (c.atFed S env e deliver reply, [])
  | .second e deliver first, .second checked reply =>
    let deliver := deliver && !(checked && (env.done e.req).isSome)
    let reply := secondReply S first reply
    some ({ c with reader := .respond e deliver reply first.statusCode }, [])
  | .respond e deliver reply code, .go =>
    some ({ c with reader := .freeInflight e reply code }, [.answer e.req deliver reply])
  | .freeInflight e reply code, .go =>
    if 0 < c.inflightSem then
      some ({ c.freeInflight with reader := .freePending e reply code }, [])
    else none
  | .freePending e reply code, .go =>
    let freed : Entry := { e with heldBackgroundStat := false, heldPipeline := false }
    some ({ (c.freeBackground e.heldBackgroundStat) with reader := .freeBody freed reply code },
      pendingFreed e)
  | .freeBody e reply code, .go =>
    some ({ (c.freeBody e.heldBody) with reader := .decide e reply code }, [])
  | .decide e reply code, .go =>
    some ({ c with reader := if retires S e.req reply code then .retire .lock else .top }, [])
  | .retire f, .go =>
    (c.failStep S f).map fun r =>
      ({ r.1 with reader := match r.2.1 with
          | some f => .retire f
          | none => .returned }, r.2.2)
  | .returned, .go => some ({ c with cancelled := true, reader := .ended }, [])
  | _, _ => none

/-- A step of either goroutine. -/
inductive ConnAct
  | writer (a : WriterAct)
  | reader (a : ReaderAct)
  deriving DecidableEq, Repr

/-- **One step of a connection.** -/
def Conn.step (c : Conn) : ConnAct → Option (Conn × List Effect)
  | .writer a => c.writerStep S env a
  | .reader a => c.readerStep S env a

end Pool

end NntpPool
