import NntpPool.Common.Run
import NntpPool.Conn.Model.Control
import NntpPool.Reader.Model.Grammar
import NntpPool.Reader.Model.Validate
/-!
# Conn — the pipelined connection

One `NNTPConnection`: `Run` writes commands and puts their requests into
the FIFO `pending`, `readerLoop` takes them out again and reads one
response for each, through the shared read buffer. The server answers
every command, in order, with one response. A step is what one party does
between two points where another may act, so a list of labels is an
interleaving of request arrivals, cancellations, deadlines and late bytes.

Commands are known by their place in the order they were written in: the
`i`-th response answers the `i`-th command.
-/

namespace NntpPool

namespace Conn

open Reader

/-- **A response of the server.** -/
inductive Reply
  | text (R : TextReply)
  | yenc (R : YencReply)

/-- What the server sends for it. -/
def Reply.bytes : Reply → Bytes
  | .text R => R.bytes
  | .yenc R => R.bytes

/-- A request whose command was written, and the place of the command. -/
structure Entry where
  index : ℕ
  req : Request

/-- Where `feedUntilDoneControlled` stands: at the top of its loop, before
`Feed` with a window it has just read, behind `Feed`, or before the read
at the bottom. -/
inductive Point
  | top
  | feed
  | fed (done : Bool)
  | more
  deriving DecidableEq, Repr

/-- **`readerLoop` within a response.** `out` is what went through
`outRef`. -/
structure Reading where
  cur : Entry
  p : Progress
  r : NNTPResponse
  out : Bytes
  wireBytes : ℤ
  consumedBytes : ℤ
  point : Point

/-- Where `readerLoop` stands: before the next request, within its
response, behind it with what `feedUntilDoneControlled` returned, or
returned itself. -/
inductive Phase
  | idle
  | reading (x : Reading)
  | stopped (x : Reading) (err : Option GoError)
  | dead

/-- The fields of `Response` that come from the wire; `body` is what the
request's writer, or `Response.Body`, has taken. -/
structure Response where
  statusCode : ℤ
  status : Bytes
  lines : List Bytes
  body : Bytes
  decoder : NNTPResponse
  err : Option GoError

/-- **The connection, its server, and what was delivered.** `writer` is
the request whose command was written but which is not in `pending` yet;
`failing` is set once the writer has begun to fail what is pending. -/
structure Pipeline where
  written : ℕ := 0
  writer : Option Entry := none
  pending : List Entry := []
  replies : List Reply := []
  ctxErrs : List (ℕ × CtxErr) := []
  wire : Bytes := []
  window : Bytes := []
  phase : Phase := .idle
  started : ℕ := 0
  failing : Bool := false
  delivered : List (Entry × Response) := []

/-- `req.Ctx.Err()`. -/
def Pipeline.ctxErr (s : Pipeline) (i : ℕ) : Option CtxErr := s.ctxErrs.lookup i

/-- What a call of the closure finds. -/
def Pipeline.moment (s : Pipeline) (i : ℕ) (now later : Time) : Moment :=
  ⟨(s.ctxErr i).isSome, now, later⟩

/-- `maxReadBufSize`. -/
def maxReadBufSize : ℕ := 8 * 1024 * 1024

/-- **What can happen.** -/
inductive Label
  /-- `Run` writes a request's command. -/
  | write (req : Request)
  /-- `Run` puts it into `pending`. -/
  | push
  /-- The server answers the oldest command it has not answered. -/
  | answer (R : Reply)
  /-- A request's context ends. -/
  | cancel (i : ℕ) (e : CtxErr)
  /-- `readerLoop` takes the next request. -/
  | take (now : Time)
  /-- It reads `n` bytes, with or without an error. -/
  | read (now later : Time) (n : ℕ) (err : Option GoError)
  /-- It feeds the decoder. -/
  | feed (now later : Time)
  /-- It asks the closure again behind `Feed`. -/
  | recheck (now later : Time)
  /-- It delivers the response, and retires the connection or goes on. -/
  | finish
  /-- `Run` is on its way out: `failOutstanding` takes a request. -/
  | failOutstanding
  /-- `readerLoop` finds the connection's context done. -/
  | stop

/-! ## Reading a response -/

/-- `readerLoop` up to `feedUntilDoneControlled`. -/
def beginReading (e : Entry) (ctxDone : Bool) (now : Time) : Reading where
  cur := e
  p :=
    { deliver := !ctxDone
      responseDeadline :=
        if 0 < e.req.responseTimeout then some (now + e.req.responseTimeout) else none }
  r := fresh e.req.onMeta e.req.validateBody
  out := []
  wireBytes := 0
  consumedBytes := 0
  point := .top

/-- The closure is asked. On its error `feedUntilDoneControlled` returns;
otherwise `k` goes on, with the closure's variables as it left them. -/
def Reading.ask (x : Reading) (cfg : Config) (s : Pipeline) (now later : Time)
    (k : Reading → Limits → Option Pipeline) : Option Pipeline :=
  let c := control cfg x.cur.req x.p (s.moment x.cur.index now later) x.wireBytes x.consumedBytes
  let x := { x with p := c.1 }
  match c.2 with
  | .error e => some { s with phase := .stopped x (some e) }
  | .ok lim => k x lim

/-- `outRef`. -/
def Reading.outRef (x : Reading) : Writer :=
  if x.p.deliver then x.cur.req.bodyWriter.getD accepting else accepting

/-- `readMore`, behind the closure: the read buffer is full, or `n` bytes
come in. -/
def readMore (s : Pipeline) (x : Reading) (n : ℕ) (err : Option GoError) : Option Pipeline :=
  if maxReadBufSize ≤ s.window.length then
    some { s with phase := .stopped x (some (.sentinel .readBufferExceeded)) }
  else if n ≤ s.wire.length ∧ n ≤ maxReadBufSize - s.window.length then
    let x := { x with wireBytes := x.wireBytes + n }
    let s := { s with window := s.window ++ s.wire.take n, wire := s.wire.drop n }
    match err with
    | some e => some { s with phase := .stopped x (some e) }
    | none =>
      some { s with phase := .reading { x with point := if x.point = .top then .feed else .top } }
  else none

/-- The window `Feed` is given. -/
def feedWindow (lim : Limits) (window : Bytes) : Bytes :=
  if 0 < lim.maxFeed ∧ lim.maxFeed < window.length then window.take lim.maxFeed.toNat else window

/-- `Feed`, behind the closure. A panic is the end of the reader. -/
def feedOnce (N : Rapidyenc) (s : Pipeline) (x : Reading) (lim : Limits) : Pipeline :=
  let w := feedWindow lim s.window
  match Reader.feed N.decodeIncremental x.outRef x.r x.out w with
  | none => { s with phase := .dead }
  | some f =>
    let s := { s with window := f.rest ++ s.window.drop w.length }
    let x := { x with r := f.r, out := f.out, consumedBytes := x.consumedBytes + max f.consumed 0 }
    match f.err with
    | some e => { s with phase := .stopped x (some e) }
    | none => { s with phase := .reading { x with point := .fed f.done } }

/-! ## Behind a response -/

/-- The decoder and the error behind `validateBody`. -/
def Reading.validated (x : Reading) (err : Option GoError) : NNTPResponse × Option GoError :=
  match err with
  | some e => (x.r, some e)
  | none =>
    if x.cur.req.validateBody then
      let v := Reader.validateBody x.r.toDecoder
      (⟨v.1, x.r.bytesConsumed⟩, v.2)
    else (x.r, none)

/-- `resp.Err`: a context that is done takes the place of the error, and
the provider's name stands before it. -/
def respErr (cfg : Config) (ctxErr : Option CtxErr) (err : Option GoError) : Option GoError :=
  err.map fun e =>
    let e := (ctxErr.map CtxErr.toError).getD e
    if cfg.providerName = "" then e else .wrapped cfg.providerName e

/-- The response `readerLoop` builds. -/
def Reading.response (x : Reading) (cfg : Config) (ctxErr : Option CtxErr)
    (err : Option GoError) : Response :=
  let v := x.validated err
  ⟨v.1.statusCode, v.1.message, v.1.lines, x.out, v.1, respErr cfg ctxErr v.2⟩

/-- **Whether `readerLoop` retires the connection** behind a response. -/
def retires (payload : Bytes) (resp : Response) : Bool :=
  match resp.err with
  | some e => isBodyCommand payload || e.isTimeout || e.isSentinel .protocolDesync ||
      resp.statusCode == 502 || resp.statusCode == 451
  | none => resp.statusCode == 502 || resp.statusCode == 451

/-- The end of an iteration of `readerLoop`. -/
def finishReading (cfg : Config) (s : Pipeline) (x : Reading) (err : Option GoError) : Pipeline :=
  let resp := x.response cfg (s.ctxErr x.cur.index) err
  { s with
    delivered := if x.p.deliver then s.delivered ++ [(x.cur, resp)] else s.delivered
    phase := if retires x.cur.req.payload resp then .dead else .idle }

/-! ## Steps -/

/-- Behind the last call of the closure in a turn: the response is over,
or more has to be read. -/
def feedAgain (s : Pipeline) (x : Reading) (done : Bool) : Pipeline :=
  if done then { s with phase := .stopped x none }
  else { s with phase := .reading { x with point := .more } }

/-- What the reader does within a response. -/
def Reading.step (N : Rapidyenc) (cfg : Config) (s : Pipeline) (x : Reading) :
    Label → Option Pipeline
  | .read now later n err =>
    if x.point = .more ∨ (x.point = .top ∧ s.window = []) then
      x.ask cfg s now later fun x _ => readMore s x n err
    else none
  | .feed now later =>
    if x.point = .feed ∨ (x.point = .top ∧ s.window ≠ []) then
      x.ask cfg s now later fun x lim => some (feedOnce N s x lim)
    else none
  | .recheck now later =>
    match x.point with
    | .fed done => x.ask cfg s now later fun x _ => some (feedAgain s x done)
    | _ => none
  | _ => none

/-- What the reader does, by where it stands. -/
def Pipeline.readerStep (N : Rapidyenc) (cfg : Config) (s : Pipeline) (l : Label) :
    Option Pipeline :=
  match s.phase with
  | .idle =>
    match l with
    | .take now =>
      match s.pending with
      | e :: rest => some { s with
          pending := rest
          started := s.started + 1
          phase := .reading (beginReading e (s.ctxErr e.index).isSome now) }
      | [] => none
    | .stop => some { s with phase := .dead }
    | _ => none
  | .reading x => x.step N cfg s l
  | .stopped x err =>
    match l with
    | .finish => some (finishReading cfg s x err)
    | _ => none
  | .dead => none

/-- **One step of the connection.** -/
def Pipeline.step (N : Rapidyenc) (cfg : Config) (s : Pipeline) : Label → Option Pipeline
  | .write req =>
    if s.writer.isSome ∨ s.failing then none
    else some { s with writer := some ⟨s.written, req⟩, written := s.written + 1 }
  | .push => s.writer.map fun e => { s with writer := none, pending := s.pending ++ [e] }
  | .answer R =>
    if s.replies.length < s.written then
      some { s with replies := s.replies ++ [R], wire := s.wire ++ R.bytes }
    else none
  | .cancel i e => some { s with ctxErrs := s.ctxErrs ++ [(i, e)] }
  | .failOutstanding => some { s with pending := s.pending.tail, failing := true }
  | l => s.readerStep N cfg l

end Conn

end NntpPool
