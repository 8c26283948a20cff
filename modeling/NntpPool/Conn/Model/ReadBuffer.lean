import NntpPool.Common.Slice
import NntpPool.Conn.Model.Pipeline
/-!
# Conn — the read buffer

`readBuffer.go`: the bytes of a connection that are read and not consumed
stand between two indices of an array. A `Feeding` is the buffer within
`feedUntilDoneControlled`, one step for each call of the closure, with
the connection, the closure and the feeder in the labels: a read leaves
what it likes in the space it is given and says how much of it counts,
and a feeder may write over the window it is given, as the native decoder
does. Calls follow one another on the same buffer.

The cached deadline is left out; it spares a system call.
-/

namespace NntpPool

namespace Conn

open Reader

/-- `defaultReadBufSize`. -/
def defaultReadBufSize : ℕ := 128 * 1024

/-- **`readBuffer`**; `stop` is its `end`. -/
structure ReadBuffer where
  buf : Bytes
  start : ℤ := 0
  stop : ℤ := 0
  deriving DecidableEq

namespace ReadBuffer

def init (rb : ReadBuffer) : ReadBuffer :=
  if rb.buf = [] then { rb with buf := List.replicate defaultReadBufSize 0 } else rb

/-- `window`, which panics unless the indices are in order. -/
def window (rb : ReadBuffer) : Option Bytes := slice rb.buf rb.start rb.stop

def advance (rb : ReadBuffer) (consumed : ℤ) : ReadBuffer :=
  if consumed ≤ 0 then rb
  else if rb.stop ≤ rb.start + consumed then { rb with start := 0, stop := 0 }
  else { rb with start := rb.start + consumed }

def compact (rb : ReadBuffer) : Option ReadBuffer :=
  if rb.start = 0 ∨ rb.start = rb.stop then some rb
  else rb.window.map fun w => ⟨overwrite rb.buf 0 w, 0, rb.stop - rb.start⟩

/-- The end of `ensureWriteSpace`: a buffer of twice the length. -/
def grow (rb : ReadBuffer) : Option (ReadBuffer × Option GoError) :=
  let cur := if rb.buf.length = 0 then defaultReadBufSize else rb.buf.length
  let newLen := if maxReadBufSize < cur * 2 then maxReadBufSize else cur * 2
  if newLen ≤ rb.buf.length then some (rb, some (.sentinel .readBufferExceeded))
  else rb.window.map fun w =>
    (⟨overwrite (List.replicate newLen 0) 0 w, 0, rb.stop - rb.start⟩, none)

/-- **`ensureWriteSpace`.** -/
def ensureWriteSpace (rb : ReadBuffer) : Option (ReadBuffer × Option GoError) :=
  if rb.stop < rb.buf.length then some (rb, none)
  else if 0 < rb.start then
    rb.compact.bind fun rb =>
      if rb.stop < rb.buf.length then some (rb, none) else rb.grow
  else rb.grow

end ReadBuffer

/-- Where `feedUntilDoneControlled` stands: returned, or before the call
of the closure that is at the top of the loop, before `Feed` behind a
read, behind `Feed`, or before the read at the bottom. -/
inductive Stage
  | returned (err : Option GoError)
  | top
  | feed
  | fed (consumed : ℤ) (done : Bool)
  | more
  | panicked
  deriving DecidableEq

/-- **The buffer within `feedUntilDoneControlled`.** For the statements,
`read` is what the connection has given and `consumed` how much of it the
feeders have consumed. -/
structure Feeding where
  rb : ReadBuffer
  stage : Stage := .returned none
  wireBytes : ℤ := 0
  consumedBytes : ℤ := 0
  read : Bytes := []
  consumed : ℤ := 0
  deriving DecidableEq

/-- **What can happen.** -/
inductive Input
  /-- `feedUntilDoneControlled` is called. -/
  | call
  /-- The closure returns an error. -/
  | refuse (e : GoError)
  /-- The connection leaves `p` in the space it is given, `n` bytes of it
  read. -/
  | read (p : Bytes) (n : ℕ) (err : Option GoError)
  /-- The feeder leaves `mem` in its window. -/
  | feed (lim : Limits) (mem : Bytes) (consumed : ℤ) (done : Bool) (err : Option GoError)
  /-- The closure is asked behind `Feed`. -/
  | recheck

namespace Feeding

/-- An empty buffer on `buf`, before the first call. -/
def begin (buf : Bytes) : Feeding where
  rb := ⟨buf, 0, 0⟩

/-- `readMore`, behind the deadline. -/
def readMore (s : Feeding) (next : Stage) (p : Bytes) (n : ℕ) (err : Option GoError) :
    Option Feeding :=
  match s.rb.ensureWriteSpace with
  | none => some { s with stage := .panicked }
  | some (rb, some e) => some { s with rb := rb, stage := .returned (some e) }
  | some (rb, none) =>
    match slice rb.buf rb.stop rb.buf.length with
    | none => some { s with stage := .panicked }
    | some space =>
      if p.length = space.length ∧ n ≤ p.length then
        some { s with
          rb := { rb with buf := rb.buf.take rb.stop.toNat ++ p, stop := rb.stop + n }
          wireBytes := s.wireBytes + n
          read := s.read ++ p.take n
          stage := if err.isSome then .returned err else next }
      else none

/-- `Feed`. -/
def feed (s : Feeding) (lim : Limits) (mem : Bytes) (consumed : ℤ) (done : Bool)
    (err : Option GoError) : Option Feeding :=
  match s.rb.window with
  | none => some { s with stage := .panicked }
  | some w =>
    if mem.length = (feedWindow lim w).length then
      let rb := { s.rb with buf := overwrite s.rb.buf s.rb.start mem }
      some { s with
        rb := if 0 < consumed then rb.advance consumed else rb
        consumedBytes := if 0 < consumed then s.consumedBytes + consumed else s.consumedBytes
        consumed := s.consumed + consumed
        stage := if err.isSome then .returned err else .fed consumed done }
    else none

/-- Behind `Feed`: what could not be consumed is moved to the front. -/
def goOn (s : Feeding) (consumed : ℤ) : Feeding :=
  if consumed = 0 ∧ 0 < s.rb.stop - s.rb.start then
    match s.rb.compact with
    | none => { s with stage := .panicked }
    | some rb => { s with rb := rb, stage := .more }
  else { s with stage := .more }

/-- The top of the loop, where nothing is buffered. -/
def rewind (s : Feeding) : Feeding := { s with rb := { s.rb with start := 0, stop := 0 } }

/-- **One step of `feedUntilDoneControlled`.** -/
def step (s : Feeding) (l : Input) : Option Feeding :=
  match s.stage, l with
  | .returned _, .call =>
    some { s with rb := s.rb.init, stage := .top, wireBytes := 0, consumedBytes := 0 }
  | .top, .refuse e =>
    let s := if s.rb.start = s.rb.stop then s.rewind else s
    some { s with stage := .returned (some e) }
  | .top, .read p n err =>
    if s.rb.start = s.rb.stop then s.rewind.readMore .feed p n err else none
  | .top, .feed lim mem consumed done err =>
    if s.rb.start = s.rb.stop then none else s.feed lim mem consumed done err
  | .feed, .refuse e => some { s with stage := .returned (some e) }
  | .feed, .feed lim mem consumed done err => s.feed lim mem consumed done err
  | .fed _ _, .refuse e => some { s with stage := .returned (some e) }
  | .fed consumed done, .recheck =>
    some (if done then { s with stage := .returned none } else s.goOn consumed)
  | .more, .refuse e => some { s with stage := .returned (some e) }
  | .more, .read p n err => s.readMore .top p n err
  | _, _ => none

/-- The feeder consumes within its window. -/
def Within (s : Feeding) : Input → Prop
  | .feed lim _ consumed _ _ => ∀ w ∈ s.rb.window,
      0 ≤ consumed ∧ consumed ≤ (feedWindow lim w).length
  | _ => True

/-- It leaves alone what it does not consume. -/
def Spares (s : Feeding) : Input → Prop
  | .feed lim mem consumed _ _ => ∀ w ∈ s.rb.window,
      mem.drop consumed.toNat = (feedWindow lim w).drop consumed.toNat
  | _ => True

instance (s : Feeding) : (l : Input) → Decidable (Within s l)
  | .feed lim _ consumed _ _ => inferInstanceAs (Decidable (∀ w ∈ s.rb.window,
      0 ≤ consumed ∧ consumed ≤ (feedWindow lim w).length))
  | .call | .refuse _ | .read _ _ _ | .recheck => .isTrue trivial

instance (s : Feeding) : (l : Input) → Decidable (Spares s l)
  | .feed lim mem consumed _ _ => inferInstanceAs (Decidable (∀ w ∈ s.rb.window,
      mem.drop consumed.toNat = (feedWindow lim w).drop consumed.toNat))
  | .call | .refuse _ | .read _ _ _ | .recheck => .isTrue trivial

end Feeding

end Conn

end NntpPool
