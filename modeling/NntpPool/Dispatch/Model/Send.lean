import NntpPool.Dispatch.Model.Attempt
import Mathlib.Data.List.Rotate
/-!
# Dispatch — `doSendWithRetry`

A call tries the main providers from a start that the dispatch strategy
picks, and then the backups. With STAT probing on, the first provider
that lacks the article ends the sequence: the providers left are asked by
STAT in parallel, and the article is requested from those that have it.

The log of a call lists what it did provider by provider; the evidence
`doSendWithRetry` collects in `attempts` is the evidence of the log.
-/

namespace NntpPool

namespace Dispatch

/-! ## The start -/

/-- `DispatchStrategy`. -/
inductive Strategy
  | fifo
  | roundRobin
  deriving DecidableEq, Repr

/-- What the choice of a start reads of a main provider: its free
connections, its quota, and its `speedScore`, which is 1 unless the choice
is speed-aware. -/
structure Load where
  available : ℤ
  quotaExceeded : Bool
  speedScore : ℕ

/-- The weight `dispatchWeights` gives a provider. -/
def Load.weight (l : Load) : ℕ :=
  if l.quotaExceeded then 0 else (max 1 l.available).toNat * l.speedScore

/-- The cumulative weights of `dispatchWeights`. -/
def cumWeights : ℕ → List Load → List ℕ
  | _, [] => []
  | total, l :: ls => (total + l.weight) :: cumWeights (total + l.weight) ls

/-- The index of the provider to start with. -/
def startIndex (strategy : Strategy) (loads : List Load) (nextIdx : ℕ) : ℕ :=
  match strategy with
  | .fifo => (loads.findIdx? fun l => decide (0 < l.available) && !l.quotaExceeded).getD 0
  | .roundRobin =>
    let total := (loads.map Load.weight).sum
    if total = 0 then 0
    else (cumWeights 0 loads).findIdx fun w => decide (nextIdx % total + 1 ≤ w)

/-! ## The log -/

/-- From where in `doSendWithRetry` and `raceCandidates` a provider is
tried. -/
inductive Stage
  | main
  | probe
  | single
  | winner
  | backup
  deriving DecidableEq, Repr

/-- What a call does with a provider: it is over its quota, or has its
turn. -/
inductive Event
  | skipped (g : Provider) (e : Evidence)
  | tried (g : Provider) (stage : Stage) (t : TurnResult)

def Event.provider : Event → Provider
  | .skipped g _ => g
  | .tried g _ _ => g

def Event.evidence : Event → List Evidence
  | .skipped _ e => [e]
  | .tried _ _ t => t.resp.attempts

/-- `attempts`. -/
def attemptsOf (log : List Event) : List Evidence := log.flatMap Event.evidence

/-- **What the environment does in a call**: whether a provider is over
its quota when it is asked, what happens in its turns, and the error of
the context that is done if one is. -/
structure World where
  quota : Stage → Provider → Bool
  turn : Stage → Provider → Turn
  cancelCause : Option CtxErr

/-! ## What a turn comes to -/

/-- `fmt.Errorf("%s: %w", g.name, ErrQuotaExceeded)`. -/
def quotaErr (g : Provider) : GoError := .wrapped g.name (.sentinel .quotaExceeded)

/-- `fmt.Errorf("%s: %w", g.name, ErrServiceUnavailable)`. -/
def unavailableErr (g : Provider) : GoError := .wrapped g.name errServiceUnavailable

/-- `fmt.Errorf("%s: %w", g.name, toError(code, status))`; of a success
code the wrapped error is `nil`, and only a text is left. -/
def statusErr (g : Provider) (resp : Resp) : GoError :=
  .wrapped g.name ((toError resp.statusCode resp.status).getD
    (.external ⟨"%!w(<nil>)", [], [], none, false⟩))

/-- The event of a provider over its quota. -/
def skip (g : Provider) (cmd : Command) : Event :=
  .skipped g (buildEligibilityEvidence cmd.payload g.id (quotaErr g) cmd.validateBody)

/-- What `doSendWithRetry` and `raceCandidates` tell apart. -/
inductive Verdict
  | cancelled
  | gone
  /-- An error behind decoded bytes. -/
  | committed
  | failed (e : GoError)
  | unavailable
  | absent
  /-- Any other status outside 200..399. -/
  | odd
  | success
  deriving DecidableEq, Repr

/-- **The tests they make on the result of a turn**, in their order. -/
def verdict (hasWriter : Bool) (t : Result) : Verdict :=
  if t.cancelled then .cancelled
  else if t.ok = false then .gone
  else
    match t.resp.err with
    | some e => if hasWriter && t.resp.committed then .committed else .failed e
    | none =>
      if t.resp.statusCode = 502 then .unavailable
      else if responseIsHardArticleAbsence t.resp then .absent
      else if t.resp.statusCode < 200 ∨ 400 ≤ t.resp.statusCode then .odd
      else .success

/-- The response of a turn, handed to the caller with the evidence so
far. -/
def deliver (resp : Resp) (log : List Event) : Response :=
  ⟨resp.statusCode, resp.status, resp.err.map .plain, attemptsOf log, resp.providerID⟩

/-! ## `raceCandidates` -/

/-- How a race ends: with a response, cancelled, or without either and
with the last error. -/
inductive RaceEnd
  | delivered (resp : Response)
  | cancelled
  | over (lastErr : Option GoError)

/-- The single live candidate, without a probe. It is handed any status
but an absence and 502. -/
def raceSingle (w : World) (cmd : Command) (g : Provider) (log : List Event)
    (lastErr : Option GoError) : Option (RaceEnd × List Event) :=
  (tryGroupResilient g cmd (w.turn .single g)).map fun t =>
    let log := log ++ [.tried g .single t]
    match verdict cmd.hasWriter t.toResult with
    | .cancelled => (.cancelled, log)
    | .gone => (.over lastErr, log)
    | .committed => (.delivered (deliver t.resp log), log)
    | .failed e => (.over (some e), log)
    | .unavailable => (.over (some (unavailableErr g)), log)
    | .absent => (.over lastErr, log)
    | .odd => (.delivered (deliver t.resp log), log)
    | .success => (.delivered (deliver t.resp log), log)

/-- The providers that have the article, in their configured order. -/
def raceWinners (w : World) (cmd : Command) :
    List Provider → List Event → Option GoError → Option (RaceEnd × List Event)
  | [], log, lastErr => some (.over lastErr, log)
  | g :: rest, log, lastErr =>
    (tryGroupResilient g cmd (w.turn .winner g)).bind fun t =>
      let log := log ++ [.tried g .winner t]
      match verdict cmd.hasWriter t.toResult with
      | .cancelled => some (.cancelled, log)
      | .gone => raceWinners w cmd rest log lastErr
      | .committed => some (.delivered (deliver t.resp log), log)
      | .failed e => raceWinners w cmd rest log (some e)
      | .unavailable => raceWinners w cmd rest log (some (unavailableErr g))
      | .absent => raceWinners w cmd rest log lastErr
      | .odd => raceWinners w cmd rest log (some (statusErr g t.resp))
      | .success => some (.delivered (deliver t.resp log), log)

/-- The command of a STAT probe. -/
def statCommand (statPayload : Bytes) : Command := ⟨statPayload, false, false⟩

/-- A STAT probe of one provider. -/
def probe (w : World) (statPayload : Bytes) (g : Provider) : Option (Provider × TurnResult) :=
  (tryGroupResilient g (statCommand statPayload) (w.turn .probe g)).map fun t => (g, t)

/-- The event of a probe. -/
def probed (r : Provider × TurnResult) : Event := .tried r.1 .probe r.2

/-- The probe found the article. -/
def isWinner (r : Provider × TurnResult) : Bool :=
  verdict false r.2.toResult == .success && r.2.resp.statusCode == 223

/-- `lastErr` behind a probe. -/
def probeErr (lastErr : Option GoError) (r : Provider × TurnResult) : Option GoError :=
  match verdict false r.2.toResult with
  | .failed e => some e
  | .unavailable => some (unavailableErr r.1)
  | .odd => some (statusErr r.1 r.2.resp)
  | .success => if r.2.resp.statusCode = 223 then lastErr else some (statusErr r.1 r.2.resp)
  | _ => lastErr

/-- **`raceCandidates`.** -/
def raceCandidates (w : World) (cmd : Command) (statPayload : Bytes)
    (candidates : List Provider) (log : List Event) : Option (RaceEnd × List Event) :=
  let exceeded := candidates.filter (w.quota .probe)
  let live := candidates.filter fun g => !w.quota .probe g
  let log := log ++ exceeded.map fun g => skip g cmd
  let lastErr := exceeded.getLast?.map quotaErr
  match live with
  | [] => some (.over lastErr, log)
  | [g] => raceSingle w cmd g log lastErr
  | live =>
    (live.mapM (probe w statPayload)).bind fun results =>
      let log := log ++ results.map probed
      let lastErr := results.foldl probeErr lastErr
      if results.any fun r => r.2.cancelled then some (.cancelled, log)
      else raceWinners w cmd ((results.filter isWinner).map Prod.fst) log lastErr

/-! ## The call -/

/-- The variables of `doSendWithRetry`, with the log. -/
structure Sending where
  log : List Event := []
  lastErr : Option GoError := none
  lastResp : Option Resp := none
  post430 : Bool := false

/-- The call delivers a response, or goes on. -/
inductive Flow
  | delivered (resp : Response) (log : List Event)
  | goOn (s : Sending)

/-- The call is cancelled. -/
def cancelled (w : World) (log : List Event) : Flow :=
  .delivered (cancellationResponse (attemptsOf log) (w.cancelCause.map CtxErr.toError)) log

/-- The candidates are raced. -/
def race (w : World) (cmd : Command) (statPayload : Bytes) (candidates : List Provider)
    (s : Sending) : Option Flow :=
  (raceCandidates w cmd statPayload candidates s.log).map fun r =>
    match r.1 with
    | .cancelled => cancelled w r.2
    | .delivered resp => .delivered resp r.2
    | .over e => .goOn { s with log := r.2, lastErr := e <|> s.lastErr }

/-- **The loop over the main providers.** With a `statPayload` the
first absence ends it in a race of the providers that are left. -/
def mainLoop (w : World) (cmd : Command) (statPayload : Option Bytes) :
    List Provider → Sending → Option Flow
  | [], s => some (.goOn s)
  | g :: rest, s =>
    if w.quota .main g then
      mainLoop w cmd statPayload rest
        { s with log := s.log ++ [skip g cmd], lastErr := some (quotaErr g) }
    else
      (tryGroupResilient g cmd (w.turn .main g)).bind fun t =>
        let s := { s with log := s.log ++ [.tried g .main t] }
        match verdict cmd.hasWriter t.toResult with
        | .cancelled => some (cancelled w s.log)
        | .gone => mainLoop w cmd statPayload rest s
        | .committed => some (.delivered (deliver t.resp s.log) s.log)
        | .failed e => mainLoop w cmd statPayload rest { s with lastErr := some e }
        | .unavailable =>
          mainLoop w cmd statPayload rest { s with lastErr := some (unavailableErr g) }
        | .absent =>
          let s := { s with lastResp := some t.resp, post430 := true }
          match statPayload with
          | some stat => race w cmd stat rest s
          | none => mainLoop w cmd statPayload rest s
        | .odd => mainLoop w cmd statPayload rest { s with lastErr := some (statusErr g t.resp) }
        | .success => some (.delivered (deliver t.resp s.log) s.log)

/-- The loop over the backup providers. -/
def backupLoop (w : World) (cmd : Command) : List Provider → Sending → Option Flow
  | [], s => some (.goOn s)
  | g :: rest, s =>
    if w.quota .backup g then
      backupLoop w cmd rest
        { s with log := s.log ++ [skip g cmd], lastErr := some (quotaErr g) }
    else
      (tryGroupResilient g cmd (w.turn .backup g)).bind fun t =>
        let s := { s with log := s.log ++ [.tried g .backup t] }
        match verdict cmd.hasWriter t.toResult with
        | .cancelled => some (cancelled w s.log)
        | .gone => backupLoop w cmd rest s
        | .committed => some (.delivered (deliver t.resp s.log) s.log)
        | .failed e => backupLoop w cmd rest { s with lastErr := some e }
        | .unavailable => backupLoop w cmd rest { s with lastErr := some (unavailableErr g) }
        | .absent => backupLoop w cmd rest { s with lastResp := some t.resp }
        | .odd => backupLoop w cmd rest { s with lastErr := some (statusErr g t.resp) }
        | .success => some (.delivered (deliver t.resp s.log) s.log)

/-- The response when all providers are exhausted. -/
def exhausted (s : Sending) : Response :=
  match s.lastErr, s.lastResp with
  | some e, _ =>
    { err := some (.transport (newTransportError (attemptsOf s.log) e))
      attempts := attemptsOf s.log }
  | none, some resp => deliver resp s.log
  | none, none => { err := some (.plain (.sentinel .allProvidersExhausted)) }

/-- A byte without its case bit. -/
def lower (b : UInt8) : UInt8 := b ||| 0x20

/-- `extractProbeMsgID`: the message-ID of a payload other than STAT and
POST. -/
def extractProbeMsgID (payload : Bytes) : Option Bytes :=
  let word := (payload.take 4).map lower
  if word = ascii "stat" ∨ word = ascii "post" then none
  else
    match payload.dropWhile (· != 60) with
    | [] => none
    | tail => if tail.contains 62 then some (tail.takeWhile (· != 62) ++ [62]) else none

/-- **The arguments of a call**, with the snapshots of the provider lists
and what the start is chosen by. -/
structure Send where
  cmd : Command
  statProbe : Bool
  strategy : Strategy
  loads : List Load
  /-- What `nextIdx.Add` answers. -/
  nextIdx : ℕ
  mains : List Provider
  backups : List Provider
  distinct : ((mains ++ backups).map Provider.id).Nodup

/-- The STAT command of the probes, if the call may race. -/
def Send.statPayload (c : Send) : Option Bytes :=
  if c.statProbe then
    (extractProbeMsgID c.cmd.payload).map fun id => ascii "STAT " ++ id ++ crlf
  else none

/-- The main providers in the order the call tries them in. -/
def Send.order (c : Send) : List Provider :=
  c.mains.rotate (startIndex c.strategy c.loads c.nextIdx)

/-- **`doSendWithRetry`**: the response it delivers, with its log. -/
def doSendWithRetry (w : World) (c : Send) : Option (Response × List Event) :=
  if c.mains = [] then some ({ err := some (.plain (.sentinel .noMainProviders)) }, [])
  else
    (mainLoop w c.cmd c.statPayload c.order {}).bind fun flow =>
      match flow with
      | .delivered resp log => some (resp, log)
      | .goOn s =>
        let backups := match c.statPayload with
          | some stat => if s.post430 then race w c.cmd stat c.backups s
              else backupLoop w c.cmd c.backups s
          | none => backupLoop w c.cmd c.backups s
        backups.map fun flow =>
          match flow with
          | .delivered resp log => (resp, log)
          | .goOn s => (exhausted s, s.log)

end Dispatch

end NntpPool
