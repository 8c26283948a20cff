import NntpPool.Dispatch.Model.Send
/-!
# Dispatch — the reply channel

`doSendWithRetry` and `raceCandidates` as they run: evidence is appended
to a list they share, responses are put on `respCh` from nine places, and
a race tells its caller by flags whether it has delivered one. The probes
of a race finish in any order.
-/

namespace NntpPool

namespace Dispatch

/-- `attempts` and `respCh`, with the log of what led to them. -/
structure Wire where
  log : List Event := []
  attempts : List Evidence := []
  respCh : List Response := []

/-- `attempts = append(attempts, ...)`. -/
def Wire.note (s : Wire) (e : Event) : Wire :=
  { s with log := s.log ++ [e], attempts := s.attempts ++ e.evidence }

/-- `respCh <- resp`. -/
def Wire.put (s : Wire) (resp : Response) : Wire := { s with respCh := s.respCh ++ [resp] }

/-- `resp.Attempts = cloneAttempts(attempts); respCh <- resp`. -/
def Wire.reply (s : Wire) (resp : Resp) : Wire :=
  s.put ⟨resp.statusCode, resp.status, resp.err.map .plain, s.attempts, resp.providerID⟩

/-! ## `raceCandidates` -/

/-- The two races of a call. -/
inductive Field
  | mains
  | backups
  deriving DecidableEq, Repr

/-- **The order in which the probes of a race finish**, for any number of
them. -/
structure Finish where
  order : Field → ℕ → List ℕ
  perm : ∀ f n, (order f n).Perm (List.range n)

/-- What `raceCandidates` returns. -/
structure RaceReturn where
  delivered : Bool
  cancelled : Bool
  lastErr : Option GoError

/-- The first loop: candidates over their quota are noted, the others are
live. -/
def screen (w : World) (cmd : Command) :
    List Provider → List Provider → Option GoError → Wire →
      List Provider × Option GoError × Wire
  | [], live, lastErr, s => (live, lastErr, s)
  | g :: rest, live, lastErr, s =>
    if w.quota .probe g then screen w cmd rest live (some (quotaErr g)) (s.note (skip g cmd))
    else screen w cmd rest (live ++ [g]) lastErr s

/-- The single live candidate. -/
def raceSingleCh (w : World) (cmd : Command) (g : Provider) (lastErr : Option GoError)
    (s : Wire) : Option (RaceReturn × Wire) :=
  (tryGroupResilient g cmd (w.turn .single g)).map fun t =>
    let s := s.note (.tried g .single t)
    match verdict cmd.hasWriter t.toResult with
    | .cancelled => (⟨false, true, lastErr⟩, s)
    | .gone => (⟨false, false, lastErr⟩, s)
    | .committed => (⟨true, false, none⟩, s.reply t.resp)
    | .failed e => (⟨false, false, some e⟩, s)
    | .unavailable => (⟨false, false, some (unavailableErr g)⟩, s)
    | .absent => (⟨false, false, lastErr⟩, s)
    | .odd => (⟨true, false, lastErr⟩, s.reply t.resp)
    | .success => (⟨true, false, lastErr⟩, s.reply t.resp)

/-- `ordered[pr.index] = pr`, for every result as it comes in. -/
def ordered (results : List (Provider × TurnResult)) (order : List ℕ) :
    List (Option (Provider × TurnResult)) :=
  order.foldl (fun acc i => acc.set i results[i]?) (List.replicate results.length none)

/-- The variables of the loop over the probes. -/
structure Probing where
  cancelled : Bool := false
  lastErr : Option GoError
  winners : List Provider := []
  wire : Wire

/-- One turn of that loop. -/
def Probing.see (p : Probing) (r : Provider × TurnResult) : Probing :=
  let p := { p with wire := p.wire.note (probed r) }
  match verdict false r.2.toResult with
  | .cancelled => { p with cancelled := true }
  | .gone => p
  | .committed => { p with lastErr := r.2.resp.err }
  | .failed e => { p with lastErr := some e }
  | .unavailable => { p with lastErr := some (unavailableErr r.1) }
  | .absent => p
  | .odd => { p with lastErr := some (statusErr r.1 r.2.resp) }
  | .success =>
    if r.2.resp.statusCode = 223 then { p with winners := p.winners ++ [r.1] }
    else { p with lastErr := some (statusErr r.1 r.2.resp) }

/-- The loop over the winners. -/
def raceWinnersCh (w : World) (cmd : Command) :
    List Provider → Option GoError → Wire → Option (RaceReturn × Wire)
  | [], lastErr, s => some (⟨false, false, lastErr⟩, s)
  | g :: rest, lastErr, s =>
    (tryGroupResilient g cmd (w.turn .winner g)).bind fun t =>
      let s := s.note (.tried g .winner t)
      match verdict cmd.hasWriter t.toResult with
      | .cancelled => some (⟨false, true, lastErr⟩, s)
      | .gone => raceWinnersCh w cmd rest lastErr s
      | .committed => some (⟨true, false, none⟩, s.reply t.resp)
      | .failed e => raceWinnersCh w cmd rest (some e) s
      | .unavailable => raceWinnersCh w cmd rest (some (unavailableErr g)) s
      | .absent => raceWinnersCh w cmd rest lastErr s
      | .odd => raceWinnersCh w cmd rest (some (statusErr g t.resp)) s
      | .success => some (⟨true, false, lastErr⟩, s.reply t.resp)

/-- **`raceCandidates`**, on the shared variables. -/
def raceCandidatesCh (w : World) (fin : Finish) (field : Field) (cmd : Command)
    (statPayload : Bytes) (candidates : List Provider) (s : Wire) : Option (RaceReturn × Wire) :=
  let x := screen w cmd candidates [] none s
  match x.1 with
  | [] => some (⟨false, false, x.2.1⟩, x.2.2)
  | [g] => raceSingleCh w cmd g x.2.1 x.2.2
  | live =>
    (live.mapM (probe w statPayload)).bind fun results =>
      let seen := ((ordered results (fin.order field results.length)).filterMap id).foldl
        Probing.see { lastErr := x.2.1, wire := x.2.2 }
      if seen.cancelled then some (⟨false, true, seen.lastErr⟩, seen.wire)
      else if seen.winners = [] then some (⟨false, false, seen.lastErr⟩, seen.wire)
      else raceWinnersCh w cmd seen.winners seen.lastErr seen.wire

/-! ## `doSendWithRetry` -/

/-- The variables of `doSendWithRetry`. -/
structure Vars where
  wire : Wire := {}
  lastErr : Option GoError := none
  lastResp : Option Resp := none
  post430 : Bool := false

/-- A part of the call has returned, or goes on. -/
inductive Control
  | returned (s : Wire)
  | goOn (v : Vars)

/-- `respCh <- cancellationResponse(attempts, err)`. -/
def Wire.cancel (s : Wire) (w : World) : Wire :=
  s.put (cancellationResponse s.attempts (w.cancelCause.map CtxErr.toError))

/-- The race, and what the call makes of its flags. -/
def raceCh (w : World) (fin : Finish) (field : Field) (cmd : Command) (statPayload : Bytes)
    (candidates : List Provider) (v : Vars) : Option Control :=
  (raceCandidatesCh w fin field cmd statPayload candidates v.wire).map fun r =>
    if r.1.cancelled then .returned (r.2.cancel w)
    else if r.1.delivered then .returned r.2
    else .goOn { v with wire := r.2, lastErr := r.1.lastErr <|> v.lastErr }

/-- The loop over the main providers. -/
def mainLoopCh (w : World) (fin : Finish) (cmd : Command) (statPayload : Option Bytes) :
    List Provider → Vars → Option Control
  | [], v => some (.goOn v)
  | g :: rest, v =>
    if w.quota .main g then
      mainLoopCh w fin cmd statPayload rest
        { v with wire := v.wire.note (skip g cmd), lastErr := some (quotaErr g) }
    else
      (tryGroupResilient g cmd (w.turn .main g)).bind fun t =>
        let v := { v with wire := v.wire.note (.tried g .main t) }
        match verdict cmd.hasWriter t.toResult with
        | .cancelled => some (.returned (v.wire.cancel w))
        | .gone => mainLoopCh w fin cmd statPayload rest v
        | .committed => some (.returned (v.wire.reply t.resp))
        | .failed e => mainLoopCh w fin cmd statPayload rest { v with lastErr := some e }
        | .unavailable =>
          mainLoopCh w fin cmd statPayload rest { v with lastErr := some (unavailableErr g) }
        | .absent =>
          let v := { v with lastResp := some t.resp, post430 := true }
          match statPayload with
          | some stat => raceCh w fin .mains cmd stat rest v
          | none => mainLoopCh w fin cmd statPayload rest v
        | .odd =>
          mainLoopCh w fin cmd statPayload rest { v with lastErr := some (statusErr g t.resp) }
        | .success => some (.returned (v.wire.reply t.resp))

/-- The loop over the backup providers. -/
def backupLoopCh (w : World) (cmd : Command) : List Provider → Vars → Option Control
  | [], v => some (.goOn v)
  | g :: rest, v =>
    if w.quota .backup g then
      backupLoopCh w cmd rest
        { v with wire := v.wire.note (skip g cmd), lastErr := some (quotaErr g) }
    else
      (tryGroupResilient g cmd (w.turn .backup g)).bind fun t =>
        let v := { v with wire := v.wire.note (.tried g .backup t) }
        match verdict cmd.hasWriter t.toResult with
        | .cancelled => some (.returned (v.wire.cancel w))
        | .gone => backupLoopCh w cmd rest v
        | .committed => some (.returned (v.wire.reply t.resp))
        | .failed e => backupLoopCh w cmd rest { v with lastErr := some e }
        | .unavailable => backupLoopCh w cmd rest { v with lastErr := some (unavailableErr g) }
        | .absent => backupLoopCh w cmd rest { v with lastResp := some t.resp }
        | .odd => backupLoopCh w cmd rest { v with lastErr := some (statusErr g t.resp) }
        | .success => some (.returned (v.wire.reply t.resp))

/-- The end of the call, when all providers are exhausted. -/
def exhaustedCh (v : Vars) : Wire :=
  match v.lastErr, v.lastResp with
  | some e, _ => v.wire.put
      { err := some (.transport (newTransportError v.wire.attempts e))
        attempts := v.wire.attempts }
  | none, some resp => v.wire.reply resp
  | none, none => v.wire.put { err := some (.plain (.sentinel .allProvidersExhausted)) }

/-- **`doSendWithRetry`**: what is on `respCh` when it closes it. -/
def doSendWithRetryCh (w : World) (fin : Finish) (c : Send) : Option Wire :=
  if c.mains = [] then
    some (Wire.put {} { err := some (.plain (.sentinel .noMainProviders)) })
  else
    (mainLoopCh w fin c.cmd c.statPayload c.order {}).bind fun ctl =>
      match ctl with
      | .returned s => some s
      | .goOn v =>
        let backups := match c.statPayload with
          | some stat => if v.post430 then raceCh w fin .backups c.cmd stat c.backups v
              else backupLoopCh w c.cmd c.backups v
          | none => backupLoopCh w c.cmd c.backups v
        backups.map fun ctl =>
          match ctl with
          | .returned s => s
          | .goOn v => exhaustedCh v

end Dispatch

end NntpPool
