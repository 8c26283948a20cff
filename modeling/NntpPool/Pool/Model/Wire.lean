import NntpPool.Pool.Model.Pool
/-!
# Pool — what a connection writes

`Run` with the bytes it writes. Commands and articles go through a
`bufio.Writer`, which hands on a part of what it has whenever it is full,
and all of it when it is flushed. The write deadline of the socket is set
through a cache (`setWriteDeadline`), and everything that is handed to the
socket goes under the deadline that is in force.

The goroutines are those of `Conn`, and what they see of the rest of the
pool is open at every step; here `Run` takes more steps, those in which it
writes, copies an article and flushes.
-/

namespace NntpPool

namespace Pool

/-- `Run` is where it uses its `bufio.Writer`. -/
def Writer.writes : Writer → Bool
  | .top | .flush | .write _ _ | .flushPost _ _ | .postCopy | .keepalive _ => true
  | _ => false

namespace Wire

/-- What `Run` reads of the requests to write them. -/
structure Texts where
  /-- `req.Ctx.Deadline()`. -/
  deadline : ℕ → Option ℤ
  /-- What there is to read from `req.PayloadBody`. -/
  article : ℕ → Bytes

/-- A command `Run` has written: whether it is a keepalive, and whether an
article follows. -/
structure Turn where
  req : ℕ
  probe : Bool
  article : Bool := false
  deriving DecidableEq, Repr

/-- The text of a turn. -/
def Turn.text (S : Setup) (T : Texts) (t : Turn) : Bytes :=
  (S.info t.req).payload ++ if t.article then T.article t.req else []

/-- What was handed to the socket at once, under its deadline, and the
number of commands `Run` had written then. -/
structure Sent where
  bytes : Bytes
  deadline : Option ℤ
  turn : ℕ
  deriving DecidableEq, Repr

/-- **A connection with what it writes.** -/
structure State where
  conn : Conn
  /-- The payload is with the `bufio.Writer`. -/
  said : Bool := false
  /-- What is left of the article to copy. -/
  rest : Bytes := []
  /-- What the `bufio.Writer` has. -/
  buffered : Bytes := []
  /-- The write deadline of the socket. -/
  socketDL : Option ℤ := none
  lastWriteDL : ℤ := 0
  lastWriteHasDL : Bool := false
  writeDLSet : Bool := false
  /-- The history: what the socket has taken, the commands that were
  written, and the requests that were put on `pending`. -/
  sent : List Sent := []
  turns : List Turn := []
  queued : List ℕ := []

/-- A new connection. -/
def start (i first : ℕ) (second : Option ℕ) : State := { conn := newConn i first second }

/-- **The steps**: those of the connection, and of `Run` where it writes a
payload, copies `n` bytes of an article, flushes at the head of its loop,
or hands on `n` bytes that are buffered. -/
inductive Label
  | act (env : Env) (a : ConnAct)
  | write
  | copy (n : ℕ)
  | flush
  | emit (n : ℕ)

/-- **`setWriteDeadline`.** -/
def State.setWriteDeadline (w : State) (dl : ℤ) (hasDL : Bool) : State :=
  if w.writeDLSet && w.lastWriteHasDL == hasDL && (!hasDL || dl == w.lastWriteDL) then w
  else
    { w with
      socketDL := if hasDL then some dl else none
      lastWriteDL := dl
      lastWriteHasDL := hasDL
      writeDLSet := true }

/-- The deadline of a request is set; without one it is the zero time. -/
def State.setDeadline (T : Texts) (w : State) (r : ℕ) : State :=
  w.setWriteDeadline ((T.deadline r).getD 0) (T.deadline r).isSome

/-- `bw.Write`. -/
def State.say (S : Setup) (w : State) (r : ℕ) (probe : Bool) : State :=
  { w with
    said := true
    buffered := w.buffered ++ (S.info r).payload
    turns := w.turns ++ [⟨r, probe, false⟩] }

/-- The first bytes that are buffered go to the socket. -/
def State.emit (w : State) (n : ℕ) : State :=
  { w with
    buffered := w.buffered.drop n
    sent := w.sent ++ [⟨w.buffered.take n, w.socketDL, w.turns.length⟩] }

/-- `bw.Flush`, if there is something to flush. -/
def State.flush (w : State) : State :=
  if w.buffered = [] then w else w.emit w.buffered.length

/-- The article of the last command follows. -/
def State.follow (T : Texts) (w : State) : State :=
  match w.turns.getLast? with
  | some t => { w with
      turns := w.turns.dropLast ++ [{ t with article := true }], rest := T.article t.req }
  | none => w

/-- What a step of `Run` waits for that `Conn` does not know of: the
payload is written, the article copied, the buffer flushed. -/
def State.ready (w : State) (a : WriterAct) : Bool :=
  match w.conn.writer, a with
  | .top, .go => w.buffered.isEmpty
  | .write _ _, _ => w.said
  | .keepalive _, _ => w.said
  | .postCopy, .go => w.rest.isEmpty
  | _, _ => true

/-- What a step of `Run` does to what is written, besides. -/
def State.speak (T : Texts) (w : State) (a : WriterAct) : State :=
  match w.conn.writer, a with
  | .flush, .go => w.flush
  | .write _ _, .go => { w with said := false }
  | .flushPost _ _, .go => w.flush
  | .enqueue _ _, .go => { w with queued := w.queued ++ w.conn.unsent.toList }
  | .postWait, .go => if w.conn.postReady = some true then w.follow T else w
  | .keepalive r, .go => { w.flush with said := false, queued := w.queued ++ [r] }
  | _, _ => w

/-- **One step.** -/
def step (S : Setup) (T : Texts) (w : State) : Label → Option State
  | .act env (.reader a) => (w.conn.readerStep S env a).map fun r => { w with conn := r.1 }
  | .act env (.writer a) =>
    if w.ready a then
      (w.conn.writerStep S env a).map fun r => { w.speak T a with conn := r.1 }
    else none
  | .write =>
    if w.said then none
    else
      match w.conn.writer, w.conn.unsent with
      | .write _ _, some r => some ((w.setDeadline T r).say S r false)
      -- a keepalive is written without a deadline being set
      | .keepalive r, _ => some (w.say S r true)
      | _, _ => none
  | .copy n =>
    if w.conn.writer = .postCopy then
      some { w with buffered := w.buffered ++ w.rest.take n, rest := w.rest.drop n }
    else none
  | .flush => if w.conn.writer = .top then some w.flush else none
  | .emit n =>
    if w.conn.writer.writes = true ∧ 0 < n ∧ n ≤ w.buffered.length then some (w.emit n) else none

end Wire

end Pool

end NntpPool
