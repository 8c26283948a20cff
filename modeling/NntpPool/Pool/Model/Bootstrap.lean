import NntpPool.Pool.Model.Pool
import NntpPool.Breaker.Model.Breaker
/-!
# Pool — connecting

Before `runConnSlot` runs a connection it calls the provider's factory,
by default `newNetConn`, and then `newNNTPConnectionFromConn`, which
reads the greeting and logs in. What the network and the server do in the
two is a `Dial` and a `Dialogue`; the error that comes of it is computed
as the code does, and the slot fails its request with that error.

`serve` is the pool with these two calls made by the code. In
`Pool.Model.Pool` they may fail in any way.
-/

namespace NntpPool

namespace Pool

/-! ## `newNetConn` -/

/-- Whether `errors.As` finds a `*net.AddrError`. -/
def asAddrError : GoError → Bool
  | .wrapped _ e => asAddrError e
  | .joined a b => asAddrError a || asAddrError b
  | .classified a b => asAddrError a || asAddrError b
  | .external e => e.addrError
  | _ => false

/-- `classifyDialConfigurationError`. -/
def classifyDialConfigurationError (e : GoError) : GoError :=
  if asAddrError e then withErrorClassification e (.sentinel .invalidProviderConfiguration) else e

/-- `isBootstrapTransportError`. -/
def isBootstrapTransportError (e : GoError) : Bool :=
  e.isSentinel .canceled || e.isSentinel .deadlineExceeded || e.isSentinel .eof ||
    e.isSentinel .unexpectedEOF || e.isSentinel .closedPipe || e.isSentinel .netClosed ||
    e.asNetError.isSome

/-- `classifyTLSConfigurationError`. -/
def classifyTLSConfigurationError (e : GoError) : GoError :=
  if isBootstrapTransportError e then e
  else withErrorClassification e (.sentinel .invalidProviderConfiguration)

/-- **Why `DialContext` or `HandshakeContext` fails**: by itself, because
the timeout `newNetConn` has put on both has passed, or because the
slot's context is done. -/
inductive Stop
  | network (e : External)
  | expired
  | slotDone (e : CtxErr)
  deriving DecidableEq, Repr

/-- The `net` package's own values for the two errors of a context. -/
def dialCtxError : CtxErr → GoError
  | .canceled => .external ⟨"operation was canceled", [.canceled], [], some false, false⟩
  | .deadlineExceeded => .external ⟨"i/o timeout", [.deadlineExceeded], [], some true, false⟩

/-- The error of `DialContext`. -/
def Stop.dialError : Stop → GoError
  | .network e => .external e
  | .expired => dialCtxError .deadlineExceeded
  | .slotDone e => dialCtxError e

/-- The error of `HandshakeContext`, which returns that of its context. -/
def Stop.handshakeError : Stop → GoError
  | .network e => .external e
  | .expired => CtxErr.toError .deadlineExceeded
  | .slotDone e => e.toError

/-- **What happens in a call of the factory.** -/
structure Dial where
  /-- What a factory of the caller's returns. -/
  custom : Option GoError := none
  dial : Option Stop := none
  handshake : Option Stop := none
  deriving DecidableEq, Repr

/-- **`newNetConn`**; `tls` is whether there is a `tlsConfig`. -/
def newNetConn (tls : Bool) (d : Dial) : Option GoError :=
  match d.dial with
  | some stop => some (classifyDialConfigurationError stop.dialError)
  | none =>
    if tls then d.handshake.map fun stop => classifyTLSConfigurationError stop.handshakeError
    else none

/-! ## `newNNTPConnectionFromConn` -/

/-- `Auth`. -/
structure Auth where
  username : String := ""
  password : String := ""

/-- What is read of an `NNTPResponse`. -/
structure Line where
  statusCode : ℤ
  message : Bytes
  deriving DecidableEq, Repr

/-- **What happens on a new connection**: the outcomes of the reads of
`readOneResponse`, and the errors of the writes. -/
structure Dialogue where
  greeting : Except GoError Line
  userWrite : Option GoError := none
  user : Except GoError Line := .ok ⟨281, []⟩
  passWrite : Option GoError := none
  pass : Except GoError Line := .ok ⟨281, []⟩

/-- An error that is nothing but its text. -/
def plainError (text : String) : GoError := .external ⟨text, [], [], none, false⟩

/-- The text of a status line. -/
def textOf (b : Bytes) : String := String.ofList (b.map fun c => Char.ofNat c.toNat)

/-- **`authResponseError`.** -/
def authResponseError (stage : String) (resp : Line) : GoError :=
  let cause := plainError
    ("nntp auth: unexpected response to " ++ stage ++ ": " ++ textOf resp.message)
  let category :=
    (toError resp.statusCode resp.message).getD (.protocol resp.statusCode resp.message)
  withErrorClassification cause category

/-- The second half of `auth`. -/
def authPass (d : Dialogue) : Option GoError :=
  match d.passWrite, d.pass with
  | some e, _ => some (.wrapped "nntp auth: AUTHINFO PASS" e)
  | none, .error e => some (.wrapped "nntp auth: AUTHINFO PASS" e)
  | none, .ok resp =>
    if resp.statusCode ≠ 281 then some (authResponseError "AUTHINFO PASS" resp) else none

/-- **`auth`.** -/
def auth (d : Dialogue) : Option GoError :=
  match d.userWrite, d.user with
  | some e, _ => some (.wrapped "nntp auth: AUTHINFO USER" e)
  | none, .error e => some (.wrapped "nntp auth: AUTHINFO USER" e)
  | none, .ok resp =>
    if resp.statusCode = 281 then none
    else if resp.statusCode = 381 then authPass d
    else some (authResponseError "AUTHINFO USER" resp)

/-- **`newNNTPConnectionFromConn`**, by the error it returns. -/
def newNNTPConnectionFromConn (a : Auth) (d : Dialogue) : Option GoError :=
  match d.greeting with
  | .error e => some (.wrapped "nntp greeting" e)
  | .ok greeting =>
    if greeting.statusCode ≠ 200 ∧ greeting.statusCode ≠ 201 then
      some (.greeting greeting.statusCode greeting.message)
    else if a.username ≠ "" then
      if a.password = "" then
        some (withErrorClassification
          (plainError "nntp auth: password required when username is set")
          (.sentinel .invalidProviderConfiguration))
      else auth d
    else none

/-! ## The pool that connects -/

/-- What of a provider's configuration connecting depends on. -/
structure Config where
  auth : Auth := {}
  /-- `Factory` is not `nil`. -/
  customFactory : Bool := false
  /-- `TLSConfig` is not `nil`. -/
  tls : Bool := false

/-- The error of the factory. -/
def Config.factory (cfg : Config) (d : Dial) : Option GoError :=
  if cfg.customFactory then d.custom else newNetConn cfg.tls d

/-- **A step of the pool**: a slot dials, or waits for the server to greet
and logs in, or it is any other step. -/
inductive Event
  | dial (i : ℕ) (d : Dial)
  | greet (i : ℕ) (d : Dialogue)
  | other (l : Label)

/-- What a call that may fail does to the slot. -/
def SlotAct.ofError : Option GoError → SlotAct
  | none => .go
  | some e => .err e

/-- The step of the pool it is. -/
def Event.label (cfg : Config) : Event → Label
  | .dial i d => .slot i (.ofError (cfg.factory d))
  | .greet i d => .slot i (.ofError (newNNTPConnectionFromConn cfg.auth d))
  | .other l => l

def Slot.isDial : Slot → Bool
  | .dial _ _ => true
  | _ => false

def Slot.isGreet : Slot → Bool
  | .greet _ _ => true
  | _ => false

/-- A context ends a dial only if it is done. -/
def Stop.due (s : State) : Stop → Bool
  | .slotDone e => s.groupDone == some e
  | _ => true

/-- The calls are made where the slot stands at them, and nowhere else
does anything happen in them. -/
def Event.allowed (s : State) : Event → Bool
  | .dial i d =>
    s.slots[i]?.any Slot.isDial && d.dial.all (Stop.due s) && d.handshake.all (Stop.due s)
  | .greet i _ => s.slots[i]?.any Slot.isGreet
  | .other (.slot i _) => s.slots[i]?.all fun p => !p.isDial && !p.isGreet
  | .other _ => true

/-- **One step of the pool that connects.** -/
def serve (cfg : Config) (S : Setup) (s : State) (ev : Event) : Option State :=
  if ev.allowed s then step S s (ev.label cfg) else none

/-! ## What is recorded -/

/-- **The outcome in the evidence `tryGroup` records** when an attempt
ends in this step, with the request; nothing is recorded for a channel
closed without a response, nor for one that wants a fresh transport. The
evidence of a POST is not made by `tryGroup`. -/
def State.records (S : Setup) (s : State) : Label → Option (ℕ × Dispatch.OutcomeKind)
  | .receive r =>
    if (S.info r).postMode then none
    else (s.ch r).buf.bind fun reply =>
      if reply.err.any (·.isSentinel .freshTransportRequired) then none
      else some (r, (S.info r).outcome reply)
  | .giveUp r why =>
    if (S.info r).postMode then none
    else (s.cause (S.info r).call why).map fun e => (r, (S.info r).outcome { err := some e })
  | _ => none

/-- **What a command was answered with**: the status code of the response
a reader has read for a request, 0 if it has not come to one. -/
def State.answers (s : State) : Label → List (ℕ × ℤ)
  | .conn k (.reader a) =>
    match s.conns[k]?.map Conn.reader, a with
    | some (.feed e _), .finish _ reply => [(e.req, reply.statusCode)]
    | some (.control e _), .limit code _ => [(e.req, code)]
    | some (.second e _ _), .second _ reply => [(e.req, reply.statusCode)]
    | _, _ => []
  | _ => []

/-- **`classifyCircuitBreakerCompletion`**: what a call of
`tryGroupResilient` reports to the breaker. Of its last request, if there
was one, it reads whether it was written and whether it has reached the
response head. -/
def classifyCircuitBreakerCompletion (attempts : List Dispatch.Evidence) (ok cancelled : Bool)
    (request : Option (Bool × Bool)) : Breaker.Completion :=
  if cancelled || !ok then .neutral
  else if attempts.any fun a => a.responseCode == 451 && a.outcome == .hardArticleAbsence then
    .neutral
  else
    match attempts.getLast? with
    | none => .neutral
    | some final =>
      match final.outcome with
      | .success => .success
      | .temporaryFailure =>
        if final.cause.any (·.isSentinel .circuitBreakerOpen) then .neutral else .failure
      | .transportFailure =>
        if final.providerResponseTimeout then .failure
        else
          match request with
          | none => .neutral
          | some (written, atHead) => if !written || atHead then .failure else .neutral
      | _ => .neutral

end Pool

end NntpPool
