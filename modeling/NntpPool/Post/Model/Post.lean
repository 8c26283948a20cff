import NntpPool.Pool.Model.Request
import NntpPool.Dispatch.Model.Send
import NntpPool.Common.Run
/-!
# Post — one article, several providers

`PostYenc` writes an article into a pipe, and `doSendPost` offers the
reading end of it to one main provider after the other until one answers.
A pipe is read once. It is read by the `Run` of the connection a POST was
given to, which copies it to the server behind a 340 and drains it
otherwise, in a goroutine of its own: `doSendPost` waits for a response,
not for that.

A state is what the pipe still has, where `doSendPost` stands, and the
attempts it has made; the steps of an attempt are those of the two
goroutines of its connection. What a connection does besides a POST is
left out, and so is a POST without an article.
-/

namespace NntpPool

namespace Post

/-! ## The article -/

/-- **What a call of `PostYenc` is given.** -/
structure Setup where
  strategy : Dispatch.Strategy := .roundRobin
  /-- `gate.available` of each main provider. -/
  available : List ℤ
  nextIdx : ℕ := 0
  /-- What `headers.WriteTo` and the encoder write. -/
  headers : Bytes
  encoded : Bytes
  /-- How far the goroutine that writes comes, if it fails. -/
  broken : Option ℕ := none

/-- The number of main providers. -/
def Setup.n (S : Setup) : ℕ := S.available.length

/-- The line that ends an article. -/
def dotLine : Bytes := ascii ".\r\n"

/-- The article. -/
def Setup.article (S : Setup) : Bytes := S.headers ++ S.encoded ++ dotLine

/-- What there is to read in the pipe, before its end or the writer's
error. -/
def Setup.stream (S : Setup) : Bytes :=
  match S.broken with
  | none => S.article
  | some k => S.article.take k

/-! ## One attempt -/

/-- **Where `Run` stands with a POST.** -/
inductive Phase
  /-- On its way to a connection, or with one, and not written. -/
  | queued
  /-- It was failed before it was written. -/
  | failed
  /-- Written, and `Run` waits for the answer to its first line. -/
  | waiting
  /-- `io.Copy` to the server, and to `io.Discard`. -/
  | copying
  | draining
  /-- The copy has come to the end of the article. -/
  | sent
  /-- `Run` is done with the article otherwise. -/
  | finished
  deriving DecidableEq, Repr

/-- Where `readerLoop` stands with it; the error of the first response is
kept for the second. -/
inductive Listen
  | first
  | second (firstErr : Option GoError)
  | done
  deriving DecidableEq, Repr

/-- **An attempt at a provider.** -/
structure Attempt where
  provider : ℕ
  phase : Phase := .queued
  listen : Listen := .first
  /-- `postReadyCh`: 340, or not. -/
  ready : Option Bool := none
  /-- What of the article was written to the connection. -/
  sent : Bytes := []
  /-- `innerCh`. -/
  ch : Pool.RespCh := {}
  deriving DecidableEq, Repr

/-- The POST was written. -/
def Phase.written : Phase → Bool
  | .queued => false
  | .failed => false
  | _ => true

/-- **What may happen to an attempt.** -/
inductive Act
  /-- It fails before it is written: no connection, a context, or the
  write itself. -/
  | fail (e : GoError)
  | write
  /-- `failOutstanding`. -/
  | outstanding (e : GoError)
  /-- The response to the first line, and to the article, which may no
  longer be delivered. -/
  | first (reply : Pool.Reply) (deliver : Bool)
  | second (reply : Pool.Reply) (deliver : Bool)
  /-- `Run` takes what is in `postReadyCh`, or sees its context done. -/
  | ready
  | connDone
  /-- `io.Copy` reads `n` bytes and writes them, or only `m` of them and
  fails. -/
  | copy (n : ℕ)
  | copyErr (n m : ℕ)
  | copyEnd
  | drain (n : ℕ)
  | drainEnd
  deriving DecidableEq, Repr

/-- The first response is read. -/
def Attempt.heard (a : Attempt) (reply : Pool.Reply) (deliver : Bool) : Attempt :=
  if reply.statusCode = 340 then { a with ready := some true, listen := .second reply.err }
  else { a with ready := some false, listen := .done, ch := a.ch.answer deliver reply }

/-- **One step of an attempt**, with what it leaves in the pipe. -/
def Attempt.step (broken : Bool) (left : Bytes) (a : Attempt) : Act → Option (Attempt × Bytes)
  | .fail e =>
    if a.phase = .queued then
      some ({ a with phase := .failed, ch := Pool.failRequest a.ch e }, left)
    else none
  | .write => if a.phase = .queued then some ({ a with phase := .waiting }, left) else none
  | .outstanding e =>
    if a.phase.written ∧ a.listen = .first then
      some ({ a with listen := .done, ch := Pool.failRequest a.ch e }, left)
    else none
  | .first reply deliver =>
    if a.phase.written ∧ a.listen = .first then some (a.heard reply deliver, left) else none
  | .second reply deliver =>
    match a.listen with
    | .second firstErr =>
      some ({ a with
        listen := .done
        ch := a.ch.answer deliver { reply with err := reply.err <|> firstErr } }, left)
    | _ => none
  | .ready =>
    if a.phase = .waiting then
      a.ready.map fun ok => ({ a with phase := if ok then .copying else .draining }, left)
    else none
  | .connDone =>
    if a.phase = .waiting then some ({ a with phase := .draining }, left) else none
  | .copy n =>
    if a.phase = .copying ∧ n ≤ left.length then
      some ({ a with sent := a.sent ++ left.take n }, left.drop n)
    else none
  | .copyErr n m =>
    if a.phase = .copying ∧ m ≤ n ∧ n ≤ left.length then
      some ({ a with phase := .finished, sent := a.sent ++ left.take m }, left.drop n)
    else none
  | .copyEnd =>
    -- the end of the pipe, or the error its writer has left there
    if a.phase = .copying ∧ left = [] then
      some ({ a with phase := if broken then .finished else .sent }, left)
    else none
  | .drain n =>
    if a.phase = .draining ∧ n ≤ left.length then some (a, left.drop n) else none
  | .drainEnd =>
    if a.phase = .draining ∧ left = [] then some ({ a with phase := .finished }, left) else none

/-! ## `doSendPost` -/

/-- The cumulative weights of the main providers. -/
def postWeights : ℕ → List ℤ → List ℕ
  | _, [] => []
  | total, a :: as => (total + (max 1 a).toNat) :: postWeights (total + (max 1 a).toNat) as

/-- The provider to start with. The array of the weights has room for
eight, and the loop that fills it panics on a ninth. -/
def postStart (S : Setup) : Option ℕ :=
  match S.strategy with
  | .fifo => some ((S.available.findIdx? fun a => decide (0 < a)).getD 0)
  | .roundRobin =>
    if 8 < S.n then none
    else
      let weights := postWeights 0 S.available
      let slot := S.nextIdx % weights.getLast?.getD 0
      some (weights.findIdx fun w => decide (slot + 1 ≤ w))

/-- **The state of a call.** -/
structure State where
  left : Bytes
  start : ℕ := 0
  /-- How many providers the loop has come to. -/
  tried : ℕ := 0
  attempts : List Attempt := []
  /-- `doSendPost` waits on `innerCh` of its last attempt. -/
  waits : Bool := false
  lastErr : Option GoError := none
  /-- The response it delivers, and the attempt that had it. -/
  result : Option Pool.Reply := none
  winner : Option ℕ := none

/-- The call is made; `none` if it panics. -/
def start (S : Setup) : Option State :=
  if S.n = 0 then
    some { left := S.stream
           result := some { err := some (.sentinel .noMainProviders) } }
  else (postStart S).map fun start => { left := S.stream, start := start }

/-- **The steps of a call and its attempts.** -/
inductive Label
  /-- The next provider takes the request, or is gone. -/
  | offer
  | skip
  /-- The client's context or the caller's is done. -/
  | giveUp (e : CtxErr)
  | receive
  | exhausted
  | run (j : ℕ) (a : Act)
  deriving DecidableEq, Repr

/-- `doSendPost` is about to offer the article. -/
def State.offers (S : Setup) (s : State) : Bool :=
  s.result.isNone && !s.waits && decide (s.tried < S.n)

/-- What `doSendPost` makes of the response of its attempt `j`. -/
def State.received (s : State) (j : ℕ) (reply : Pool.Reply) : State :=
  match reply.err with
  | some e => { s with waits := false, lastErr := some e }
  | none => { s with waits := false, result := some reply, winner := some j }

/-- The error behind the last provider. -/
def State.failure (s : State) : GoError :=
  match s.lastErr with
  | some e => .wrapped "nntp: post failed" e
  | none => .external ⟨"nntp: post failed: all providers exhausted", [], [], none, false⟩

/-- **One step.** -/
def step (S : Setup) (s : State) : Label → Option State
  | .offer =>
    if s.offers S then
      some { s with
        tried := s.tried + 1
        attempts := s.attempts ++ [{ provider := (s.start + s.tried) % S.n }]
        waits := true }
    else none
  | .skip => if s.offers S then some { s with tried := s.tried + 1 } else none
  | .giveUp e =>
    if s.offers S then some { s with result := some { err := some e.toError } } else none
  | .receive =>
    if s.waits then
      s.attempts.getLast?.bind fun a =>
        match a.ch.buf with
        | some reply => some (s.received (s.attempts.length - 1) reply)
        | none => if a.ch.closed then some { s with waits := false } else none
    else none
  | .exhausted =>
    if s.result.isNone && !s.waits && s.tried == S.n then
      some { s with result := some { err := some s.failure } }
    else none
  | .run j act =>
    s.attempts[j]?.bind fun a =>
      (a.step S.broken.isSome s.left act).map fun r =>
        { s with attempts := s.attempts.set j r.1, left := r.2 }

/-- **`finishPost`**: the error `PostYenc` returns, if any. -/
def finishPost (resp : Pool.Reply) : Option GoError :=
  resp.err <|> toError resp.statusCode resp.status

/-- `PostYenc` reports that the article was posted. -/
def State.Succeeds (s : State) : Prop := ∃ resp, s.result = some resp ∧ finishPost resp = none

end Post

end NntpPool
