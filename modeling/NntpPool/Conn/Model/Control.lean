import NntpPool.Reader.Model.Feed
/-!
# Conn — the control of a response

`readerLoop` reads a response through `feedUntilDoneControlled`, which
asks a closure before every read and around every `Feed`. The closure
notices that the request was cancelled, bounds what is drained of an
abandoned body, and sets the read deadline: the response timeout up to
the first byte, then a rolling stall deadline.
-/

namespace NntpPool

namespace Conn

open Reader

/-- Points and spans of time, in nanoseconds. -/
abbrev Time := ℤ

/-- The fields of `NNTPConnection` that `readerLoop` reads. -/
structure Config where
  stallTimeout : Time
  abandonedDrainBytes : ℤ
  abandonedDrainTimeout : Time
  providerName : String

/-- `startProviderGroup` on `AbandonedBodyDrainBytes`. -/
def drainBytes (configured : ℤ) : ℤ := if configured ≤ 0 then 1 * 1024 * 1024 else configured

/-- `startProviderGroup` on `AbandonedBodyDrainTimeout`. -/
def drainTimeout (configured : Time) : Time := if configured ≤ 0 then 250 * 1000000 else configured

/-- The bounds of a drain are those of a provider. -/
def Config.Started (cfg : Config) : Prop :=
  ∃ bytes timeout, cfg.abandonedDrainBytes = drainBytes bytes ∧
    cfg.abandonedDrainTimeout = drainTimeout timeout

/-- The fields of `Request` that `readerLoop` reads. A `bodyWriter` of
`none` collects the body in the response. -/
structure Request where
  payload : Bytes
  bodyWriter : Option Writer
  validateBody : Bool
  onMeta : Bool
  responseTimeout : Time
  ctxDeadline : Option Time

/-- **The variables of the closure.** From `deliver` being false on, the
output goes to `io.Discard`. -/
structure Progress where
  deliver : Bool
  responseDeadline : Option Time
  lastBytes : ℤ := 0
  lastConsumed : ℤ := 0
  stallDeadline : Option Time := none
  firstByteAt : Option Time := none
  drainStarted : Option Time := none
  drainStartConsumed : ℤ := 0

/-- What a call of the closure finds: whether the request's context is
done, and what the clock answers, the first time and the second. -/
structure Moment where
  ctxDone : Bool
  now : Time
  later : Time

/-- What the closure returns: a read deadline and a bound for the next
`Feed`, where zero is none. -/
structure Limits where
  deadline : Option Time
  maxFeed : ℤ

/-- `stallDeadlineQuantum`. -/
def stallDeadlineQuantum : Time := 250 * 1000000

/-- `minDeadline`. -/
def minDeadline (d : Time) (other : Option Time) : Time :=
  match other with
  | some t => if t < d then t else d
  | none => d

/-- The cancellation is noticed. -/
def noticeCancel (p : Progress) (m : Moment) (consumedBytes : ℤ) : Progress :=
  if p.deliver ∧ m.ctxDone then
    { p with deliver := false, drainStarted := some m.now, drainStartConsumed := consumedBytes }
  else p

/-- The drain of an abandoned body starts. -/
def startDrain (p : Progress) (m : Moment) (consumedBytes : ℤ) : Progress :=
  if p.drainStarted.isNone then
    { p with drainStarted := some m.now, drainStartConsumed := consumedBytes }
  else p

/-- The closure on an abandoned body. -/
def drainLimits (cfg : Config) (p : Progress) (m : Moment) (consumedBytes : ℤ) :
    Except GoError Limits :=
  let started := p.drainStarted.getD m.now
  let remaining := cfg.abandonedDrainBytes - (consumedBytes - p.drainStartConsumed)
  if 0 < cfg.abandonedDrainTimeout ∧ started + cfg.abandonedDrainTimeout ≤ m.later then
    .error (.sentinel .abandonedBodyDrainLimit)
  else if 0 < cfg.abandonedDrainBytes ∧ remaining ≤ 0 then
    .error (.sentinel .abandonedBodyDrainLimit)
  else if 0 < cfg.abandonedDrainTimeout then
    .ok ⟨some (started + cfg.abandonedDrainTimeout), max remaining 0⟩
  else .ok ⟨none, max remaining 0⟩

/-- Bytes came in, or were consumed: the stall deadline moves, a quantum
at a time. -/
def noteProgress (cfg : Config) (p : Progress) (m : Moment) (wireBytes consumedBytes : ℤ) :
    Progress :=
  if p.lastBytes < wireBytes ∨ p.lastConsumed < consumedBytes then
    let dl := m.later + cfg.stallTimeout
    let moves : Bool := match p.stallDeadline with
      | none => true
      | some sd => decide (sd ≤ m.later) || decide (stallDeadlineQuantum ≤ dl - sd)
    { p with
      firstByteAt := p.firstByteAt <|> some m.later
      lastBytes := wireBytes
      lastConsumed := consumedBytes
      stallDeadline := if 0 < cfg.stallTimeout ∧ moves then some dl else p.stallDeadline }
  else p

/-- The read deadline of a response that is wanted. -/
def readLimits (cfg : Config) (req : Request) (p : Progress) : Limits :=
  match p.responseDeadline with
  | some dl =>
    if p.lastBytes = 0 then ⟨some (minDeadline dl req.ctxDeadline), 0⟩
    else if 0 < p.lastBytes ∧ 0 < cfg.stallTimeout then
      ⟨p.stallDeadline.map (minDeadline · req.ctxDeadline), 0⟩
    else ⟨req.ctxDeadline, 0⟩
  | none =>
    if 0 < p.lastBytes ∧ 0 < cfg.stallTimeout then
      ⟨p.stallDeadline.map (minDeadline · req.ctxDeadline), 0⟩
    else ⟨req.ctxDeadline, 0⟩

/-- **The closure `readerLoop` passes to `feedUntilDoneControlled`.** -/
def control (cfg : Config) (req : Request) (p : Progress) (m : Moment)
    (wireBytes consumedBytes : ℤ) : Progress × Except GoError Limits :=
  let p := noticeCancel p m consumedBytes
  if p.deliver = false ∧ isBodyCommand req.payload then
    let p := startDrain p m consumedBytes
    (p, drainLimits cfg p m consumedBytes)
  else
    let p := noteProgress cfg p m wireBytes consumedBytes
    (p, .ok (readLimits cfg req p))

end Conn

end NntpPool
