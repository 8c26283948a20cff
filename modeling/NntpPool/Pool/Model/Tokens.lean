import NntpPool.Pool.Model.Pool
/-!
# Pool — giving a background slot back

`releaseBackgroundStat` takes an element out of `backgroundStatSem` and
then puts a token into `backgroundStatFreed`, and the other goroutine may
run in between. This is the connection with the two halves as steps of
their own: a goroutine that gives a slot back owes a token until it posts
it, and does nothing else before.

The goroutines of one connection are taken alone: what they see of the
rest of the pool is open at every step.
-/

namespace NntpPool

namespace Pool

namespace Tokens

/-- **A connection**, where each goroutine may owe a token. -/
structure State where
  conn : Conn
  writerOwes : Bool := false
  readerOwes : Bool := false

/-- A new connection. -/
def start (i first : ℕ) (second : Option ℕ) : State := { conn := newConn i first second }

/-- **The steps.** -/
inductive Label
  | act (env : Env) (a : ConnAct)
  | postWriter
  | postReader

/-- The step gives a background slot back. -/
def releases (effs : List Effect) : Bool := effs.contains (.backgroundStatInUse (-1))

/-- The token is still to be posted. -/
def withhold (c : Conn) (r : Conn × List Effect) : Conn :=
  if releases r.2 then { r.1 with backgroundStatFreed := c.backgroundStatFreed } else r.1

/-- The send to `backgroundStatFreed`, which drops the token if there is
one already. -/
def post (c : Conn) : Conn := { c with backgroundStatFreed := true }

/-- **One step.** -/
def step (S : Setup) (s : State) : Label → Option State
  | .act env (.writer a) =>
    if s.writerOwes then none
    else (s.conn.writerStep S env a).map fun r =>
      { s with conn := withhold s.conn r, writerOwes := releases r.2 }
  | .act env (.reader a) =>
    if s.readerOwes then none
    else (s.conn.readerStep S env a).map fun r =>
      { s with conn := withhold s.conn r, readerOwes := releases r.2 }
  | .postWriter =>
    if s.writerOwes then some { s with conn := post s.conn, writerOwes := false } else none
  | .postReader =>
    if s.readerOwes then some { s with conn := post s.conn, readerOwes := false } else none

end Tokens

end Pool

end NntpPool
