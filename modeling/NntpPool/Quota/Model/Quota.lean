import NntpPool.Common.Run
import Mathlib.Algebra.Order.Ring.Int
/-!
# Quota — the download quota of a provider

A provider counts the bytes it has consumed in `quotaUsed` and caches in
`quotaExceeded` that they have reached the limit. Both are atomics, and so
is the deadline `quotaResetAt`; no lock holds them together. Three
operations work on them: the accounting at the end of a response in
`readerLoop`, the check `isQuotaExceeded`, which starts a new period, and
`ResetProviderQuota`. An `Op` is a goroutine within one of them, and a
step of it is one `Load`, `Store` or `Add`.

Counters and points of time, in nanoseconds, are `int64`.
-/

namespace NntpPool

namespace Quota

/-- Arithmetic on `int64`. -/
def int64 (x : ℤ) : ℤ := x.bmod (2 ^ 64)

theorem zero_lt_int64 : (0 : ℤ) < 2 ^ 63 := by decide

/-- `QuotaBytes` and `QuotaPeriod` of a `Provider`. -/
structure Config where
  quotaBytes : ℤ
  quotaPeriod : ℤ := 0
  /-- A `time.Duration` is an `int64`. -/
  quotaPeriod_lt : quotaPeriod < 2 ^ 63 := by decide

/-- **The atomics.** -/
structure Counters where
  quotaUsed : ℤ := 0
  quotaExceeded : Bool := false
  quotaResetAt : ℤ := 0
  deriving DecidableEq, Repr

/-- `time.Now().Add(g.quotaPeriod).UnixNano()`. -/
def Config.deadline (cfg : Config) (now : ℤ) : ℤ := int64 (now + cfg.quotaPeriod)

/-- The quota of a provider that is started, from its `QuotaUsed` and its
`QuotaResetAt`, unless that is zero. The clock is read twice. -/
def startProviderGroup (cfg : Config) (quotaUsed : ℤ) (quotaResetAt : Option ℤ)
    (now now' : ℤ) : Counters :=
  if 0 < cfg.quotaBytes then
    { quotaUsed := if 0 < quotaUsed then quotaUsed else 0
      quotaExceeded := decide (0 < quotaUsed ∧ cfg.quotaBytes ≤ quotaUsed)
      quotaResetAt :=
        if 0 < cfg.quotaPeriod then
          match quotaResetAt with
          | some t => if now < t then int64 t else cfg.deadline now'
          | none => cfg.deadline now'
        else 0 }
  else {}

/-- `QuotaExceeded` of `Stats`. -/
def Config.statsExceeded (cfg : Config) (c : Counters) : Bool :=
  decide (0 < cfg.quotaBytes ∧ cfg.quotaBytes ≤ c.quotaUsed)

/-- **Where a goroutine stands in one of the operations.** The clearing of
the counters is part of the check and of `ResetProviderQuota`; what the
operation is going to return, if anything, goes with it. -/
inductive Op
  /-- `readerLoop`, before it adds `n` bytes, and before it sets the
  flag. -/
  | account (n : ℕ)
  | exceed
  /-- `isQuotaExceeded`, before it loads the flag, and the deadline. -/
  | check
  | elapsed
  | clearUsed (result : Option Bool)
  | clearExceeded (result : Option Bool)
  | schedule (result : Option Bool)
  | returned (result : Option Bool)
  deriving DecidableEq, Repr

/-- `ResetProviderQuota`, with the provider found. -/
def Op.reset : Op := .clearUsed none

/-- **One atomic access.** `now` is the clock where it is read. -/
def Op.step (cfg : Config) (now : ℤ) (c : Counters) : Op → Option (Counters × Op)
  | .account n =>
    if 0 < cfg.quotaBytes then
      let used := int64 (c.quotaUsed + n)
      some ({ c with quotaUsed := used },
        if cfg.quotaBytes ≤ used then .exceed else .returned none)
    else some (c, .returned none)
  | .exceed => some ({ c with quotaExceeded := true }, .returned none)
  | .check =>
    if cfg.quotaBytes ≤ 0 then some (c, .returned (some false))
    else some (c, if c.quotaExceeded then .elapsed else .returned (some false))
  | .elapsed =>
    some (c, if 0 < cfg.quotaPeriod ∧ 0 < c.quotaResetAt ∧ c.quotaResetAt ≤ now then
      .clearUsed (some false) else .returned (some true))
  | .clearUsed result => some ({ c with quotaUsed := 0 }, .clearExceeded result)
  | .clearExceeded result => some ({ c with quotaExceeded := false }, .schedule result)
  | .schedule result =>
    some ({ c with quotaResetAt := if 0 < cfg.quotaPeriod then cfg.deadline now else 0 },
      .returned result)
  | .returned _ => none

/-! ## Operations as a whole -/

/-- The accounting of a response of `n` bytes. -/
def account (cfg : Config) (c : Counters) (n : ℕ) : Counters :=
  if 0 < cfg.quotaBytes then
    let used := int64 (c.quotaUsed + n)
    { c with
      quotaUsed := used
      quotaExceeded := if cfg.quotaBytes ≤ used then true else c.quotaExceeded }
  else c

/-- **`isQuotaExceeded`**, with what it returns. The clock is read again for
the next deadline. -/
def isQuotaExceeded (cfg : Config) (c : Counters) (now now' : ℤ) : Counters × Bool :=
  if cfg.quotaBytes ≤ 0 then (c, false)
  else if c.quotaExceeded = false then (c, false)
  else if 0 < cfg.quotaPeriod ∧ 0 < c.quotaResetAt ∧ c.quotaResetAt ≤ now then
    ({ quotaUsed := 0, quotaExceeded := false, quotaResetAt := cfg.deadline now' }, false)
  else (c, true)

/-- `ResetProviderQuota`. -/
def resetProviderQuota (cfg : Config) (now : ℤ) : Counters :=
  { quotaUsed := 0, quotaExceeded := false,
    quotaResetAt := if 0 < cfg.quotaPeriod then cfg.deadline now else 0 }

/-! ## Interleavings -/

/-- **The atomics, and the goroutines that work on them.** -/
structure State where
  counters : Counters
  ops : List Op := []
  deriving DecidableEq, Repr

/-- An operation begins, or goroutine `i` makes its next access. -/
inductive Label
  | account (n : ℕ)
  | check
  | reset
  | step (i : ℕ) (now : ℤ)
  deriving DecidableEq, Repr

/-- **One step.** -/
def step (cfg : Config) (s : State) : Label → Option State
  | .account n => some { s with ops := s.ops ++ [.account n] }
  | .check => some { s with ops := s.ops ++ [.check] }
  | .reset => some { s with ops := s.ops ++ [.reset] }
  | .step i now =>
    s.ops[i]?.bind fun op =>
      (op.step cfg now s.counters).map fun r =>
        { counters := r.1, ops := s.ops.set i r.2 }

/-! ## Periods -/

/-- A response that was consumed: when, how much, under which deadline, and
whether the check returned `false` then. -/
structure Consumed where
  time : ℤ
  bytes : ℕ
  deadline : ℤ
  free : Bool
  deriving DecidableEq, Repr

/-- **Operations one after the other**, with the clock and what was
consumed, the latest first. The two are kept for the statements. -/
structure Course where
  counters : Counters
  clock : ℤ
  log : List Consumed := []
  deriving DecidableEq, Repr

/-- A response is consumed, or the quota is checked, where the clock is
read a second time for the next deadline. -/
inductive Event
  | consume (now : ℤ) (n : ℕ)
  | check (now now' : ℤ)
  deriving DecidableEq, Repr

/-- **One operation.** The clock does not run backwards. -/
def Course.step (cfg : Config) (s : Course) : Event → Option Course
  | .consume now n =>
    if s.clock ≤ now ∧ now < 2 ^ 63 then
      let free := !(isQuotaExceeded cfg s.counters now now).2
      some ⟨account cfg s.counters n, now, ⟨now, n, s.counters.quotaResetAt, free⟩ :: s.log⟩
    else none
  | .check now now' =>
    if s.clock ≤ now ∧ now ≤ now' ∧ now' < 2 ^ 63 then
      some ⟨(isQuotaExceeded cfg s.counters now now').1, now', s.log⟩
    else none

/-- The bytes consumed since a point of time. -/
def Course.since (s : Course) (t : ℤ) : ℕ :=
  ((s.log.filter fun e => decide (t ≤ e.time)).map Consumed.bytes).sum

/-- What was consumed in the period of a deadline while the check returned
`false`, the latest first. -/
def Course.spent (s : Course) (deadline : ℤ) : List ℕ :=
  (s.log.filter fun e => e.deadline == deadline && e.free).map Consumed.bytes

/-! ## Reconnection -/

/-- The fields of `Provider` that a group keeps and is started from
again. -/
structure Provider where
  config : Config
  quotaUsed : ℤ := 0
  quotaResetAt : Option ℤ := none
  reconnectDelay : ℤ := 0
  /-- `QuotaUsed` is an `int64`. -/
  quotaUsed_lt : quotaUsed < 2 ^ 63 := by decide

/-- **A group of the provider.** For the statements, `since` is what was
accounted to it since it was started, or since its counter was last
`cleared`. -/
structure Group where
  counters : Counters
  cleared : Bool := false
  since : ℕ := 0
  deriving DecidableEq, Repr

/-- **A reconnection**: the group as it was removed, the counters of the
group that was added for it, and when. -/
structure Reconnection where
  removed : Group
  removedAt : ℤ
  added : Counters
  addedAt : ℤ
  deriving DecidableEq, Repr

/-- **A provider over time**: its group, if it is in the pool, otherwise
the one that was removed and waits for its reconnection. -/
structure Life where
  clock : ℤ
  group : Option Group
  removed : Option (Group × ℤ) := none
  log : List Reconnection := []
  deriving DecidableEq, Repr

/-- What happens to a provider: its counters are worked on, it answers 502
to a request of `doSendWithRetry` or `raceCandidates`, or the delay of
`scheduleReconnect` is over. -/
inductive Occurrence
  | consume (now : ℤ) (n : ℕ)
  | check (now now' : ℤ)
  | reset (now : ℤ)
  | unavailable (now : ℤ)
  | reconnect (now now' : ℤ)
  deriving DecidableEq, Repr

/-- `startProviderGroup`, on the provider of a group. -/
def Provider.start (p : Provider) (now now' : ℤ) : Counters :=
  startProviderGroup p.config p.quotaUsed p.quotaResetAt now now'

def Group.consume (p : Provider) (g : Group) (n : ℕ) : Group :=
  { g with counters := account p.config g.counters n, since := g.since + n }

def Group.check (p : Provider) (g : Group) (now now' : ℤ) : Group :=
  let c := (isQuotaExceeded p.config g.counters now now').1
  if c = g.counters then g else ⟨c, true, 0⟩

def Group.reset (p : Provider) (now : ℤ) : Group := ⟨resetProviderQuota p.config now, true, 0⟩

/-- **One occurrence.** The clock does not run backwards. -/
def Life.step (p : Provider) (s : Life) : Occurrence → Option Life
  | .consume now n =>
    if s.clock ≤ now then
      s.group.map fun g => { s with clock := now, group := some (g.consume p n) }
    else none
  | .check now now' =>
    if s.clock ≤ now ∧ now ≤ now' then
      s.group.map fun g => { s with clock := now', group := some (g.check p now now') }
    else none
  | .reset now =>
    if s.clock ≤ now then
      s.group.map fun _ => { s with clock := now, group := some (.reset p now) }
    else none
  | .unavailable now =>
    if s.clock ≤ now then
      s.group.map fun g =>
        { s with
          clock := now
          group := none
          removed := if 0 < p.reconnectDelay then some (g, now) else none }
    else none
  | .reconnect now now' =>
    s.removed.bind fun r =>
      if s.clock ≤ now ∧ now ≤ now' ∧ r.2 + p.reconnectDelay ≤ now ∧ s.group = none then
        -- `AddProvider` is given the provider the removed group was started from
        let c := p.start now now'
        some ⟨now', some { counters := c }, none, ⟨r.1, r.2, c, now⟩ :: s.log⟩
      else none

/-- A provider that is started. -/
def Life.begin (p : Provider) (now now' : ℤ) : Life where
  clock := now'
  group := some { counters := p.start now now' }

end Quota

end NntpPool
