import NntpPool.Client.Payload
import NntpPool.Dispatch.Course
import NntpPool.Dispatch.Retries
import NntpPool.Post.Model.Post
/-!
# Client — from a call to the channels of a provider

Every call that issues requests, and what each of its requests does until
a channel of a provider takes it: `doSendWithRetry` and `raceCandidates`
ask `isQuotaExceeded` before they come to a provider, while the calls
confined to one provider and `doSendPost` go to it directly. A request
leaves a list of acts, also while it is under way: the checks that were
made for it, with their answers, and the providers it was handed to.
-/

namespace NntpPool

namespace Client

open Dispatch (Provider Command World Stage Turn TurnResult AttemptEnd Next)

/-- **What a request does**, as far as the quota is concerned. -/
inductive Act
  | checked (g : Provider) (exceeded : Bool)
  | handed (g : Provider)
  deriving DecidableEq, Repr

/-! ## One provider -/

/-- A channel of the provider takes the request. It has if there is an
answer; where a context ends, it may have before. -/
def handsOver (taken : Bool) : AttemptEnd → Bool
  | .reply _ _ _ => true
  | .closed => true
  | .clientDone _ => taken
  | .callerDone _ => taken
  | .groupDone => taken

/-- **The requests of `tryGroupResilient`**, one for each attempt. A loop
that has not returned may be within a further one. -/
def turnActs (g : Provider) (cmd : Command) (t : Turn) (taken : ℕ → Bool) : List Act :=
  match t.lease with
  | .refused _ => []
  | .granted =>
    let n := Dispatch.retries g cmd t.delayCancelled {} (t.attempts.map (·.toTry cmd))
    let ended := n.state.made.zipIdx.map fun x => handsOver (taken x.2) x.1.a.fin
    let within := match n with
      | .again s => [taken s.made.length]
      | .ret _ _ => []
    ((ended ++ within).filter id).map fun _ => .handed g

/-! ## The pool -/

/-- What the environment does in a call, and which channels take the
requests of its attempts. -/
structure Env extends World where
  taken : Stage → Provider → ℕ → Bool

/-- A turn of a provider, and what is behind it once it is over. -/
def Env.turnActs (e : Env) (stage : Stage) (g : Provider) (cmd : Command)
    (behind : TurnResult → List Act) : List Act :=
  Client.turnActs g cmd (e.turn stage g) (e.taken stage g) ++
    (Dispatch.tryGroupResilient g cmd (e.turn stage g)).elim [] behind

/-- The call goes on to the next provider. -/
def goesOn (stage : Stage) (cmd : Command) (t : TurnResult) : Bool :=
  (Dispatch.verdict cmd.hasWriter t.toResult).goesOn stage

/-- The providers that have the article. -/
def winnerActs (e : Env) (cmd : Command) : List Provider → List Act
  | [] => []
  | g :: rest =>
    e.turnActs .winner g cmd fun t => if goesOn .winner cmd t then winnerActs e cmd rest else []

/-- **`raceCandidates`.** The probes run in parallel; their acts are
listed one after the other. -/
def raceActs (e : Env) (cmd : Command) (statPayload : Bytes) (candidates : List Provider) :
    List Act :=
  let checks := candidates.map fun g => Act.checked g (e.quota .probe g)
  checks ++
    match candidates.filter fun g => !e.quota .probe g with
    | [] => []
    | [g] => e.turnActs .single g cmd fun _ => []
    | live =>
      (live.flatMap fun g => e.turnActs .probe g (Dispatch.statCommand statPayload) fun _ => []) ++
        match live.mapM (Dispatch.probe e.toWorld statPayload) with
        | none => []
        | some results =>
          if results.any fun r => r.2.cancelled then []
          else winnerActs e cmd ((results.filter Dispatch.isWinner).map Prod.fst)

/-- **The loop over the main providers.** -/
def mainActs (e : Env) (cmd : Command) (statPayload : Option Bytes) : List Provider → List Act
  | [] => []
  | g :: rest =>
    .checked g (e.quota .main g) ::
      if e.quota .main g then mainActs e cmd statPayload rest
      else
        e.turnActs .main g cmd fun t =>
          if Dispatch.verdict cmd.hasWriter t.toResult = .absent ∧ statPayload.isSome then
            raceActs e cmd (statPayload.getD []) rest
          else if goesOn .main cmd t then mainActs e cmd statPayload rest
          else []

/-- The loop over the backup providers. -/
def backupActs (e : Env) (cmd : Command) : List Provider → List Act
  | [] => []
  | g :: rest =>
    .checked g (e.quota .backup g) ::
      if e.quota .backup g then backupActs e cmd rest
      else
        e.turnActs .backup g cmd fun t => if goesOn .backup cmd t then backupActs e cmd rest else []

/-- **`doSendWithRetry`**, from a start index. -/
def sendActs (e : Env) (cmd : Command) (statPayload : Option Bytes) (mains : List Provider)
    (start : ℕ) (backups : List Provider) : List Act :=
  mainActs e cmd statPayload (mains.rotate start) ++
    if mains = [] then []
    else
      match Dispatch.mainLoop e.toWorld cmd statPayload (mains.rotate start) {} with
      | some (.goOn s) =>
        match statPayload with
        | some stat => if s.post430 then raceActs e cmd stat backups else backupActs e cmd backups
        | none => backupActs e cmd backups
      | _ => []

/-! ## The calls -/

/-- **The calls that issue requests**: `Send` and `SendPriority`, those
that take message-IDs, and `PostYenc`. Of `BodyAsync` the writer is not
among the arguments of `Call`. -/
inductive Entry
  | send (payload : Bytes) (writer : Bool)
  | call (c : Call) (asyncWriter : Bool)
  | postYenc

/-- The provider a call names. -/
def Call.target : Call → Option String
  | .bodyTargeted _ provider => some provider
  | .statMany _ provider => if provider = "" then none else some provider
  | .speedTest _ _ provider => if provider = "" then none else some provider
  | _ => none

/-- The command of a request. -/
def Call.command (asyncWriter : Bool) (payload : Bytes) : Call → Command
  | .body _ => ⟨payload, true, false⟩
  | .bodyPriority _ => ⟨payload, true, false⟩
  | .bodyTargeted _ _ => ⟨payload, true, false⟩
  | .bodyStream _ writer => ⟨payload, true, writer⟩
  | .bodyAsync _ => ⟨payload, true, asyncWriter⟩
  | .speedTest _ _ _ => ⟨payload, false, true⟩
  | .head _ => ⟨payload, false, false⟩
  | .stat _ => ⟨payload, false, false⟩
  | .statPriority _ => ⟨payload, false, false⟩
  | .statAsync _ => ⟨payload, false, false⟩
  | .statMany _ _ => ⟨payload, false, false⟩

/-- **Where a request goes.** -/
inductive Request
  | pool (cmd : Command)
  | only (g : Provider) (cmd : Command)
  | post

/-- `findGroup`, on the providers of dispatch. -/
def findProvider (groups : List Provider) (name : String) : Option Provider :=
  groups.find? fun g => g.name == name || g.id == name

/-- **The requests of a call.** -/
def Entry.requests (groups : List Provider) : Entry → List Request
  | .send payload writer => [.pool ⟨payload, false, writer⟩]
  | .call c asyncWriter =>
    (c.written (groups.map fun g => ⟨g.name, g.id⟩)).filterMap fun payload =>
      let cmd := c.command asyncWriter payload
      match c.target with
      | none => some (.pool cmd)
      | some name => (findProvider groups name).map fun g => .only g cmd
  | .postYenc => [.post]

/-- **A client, and what happens to a request of it.** A request to one
provider has its own turn; of a POST, the free connections, the rest of
the setup and the run are given. -/
structure Scene where
  mains : List Provider
  backups : List Provider
  statProbe : Bool
  start : ℕ
  env : Env
  turn : Turn
  taken : ℕ → Bool
  available : Provider → ℤ
  setup : Post.Setup
  run : List Post.Label

/-- The STAT command of the probes. -/
def Scene.statPayload (s : Scene) (cmd : Command) : Option Bytes :=
  if s.statProbe then probePayload cmd.payload else none

/-- The state the POST comes to. -/
def Scene.posted (s : Scene) : Option Post.State :=
  let S := { s.setup with available := s.mains.map s.available }
  (Post.start S).bind fun s₀ => exec (Post.step S) s₀ s.run

/-- **The acts of a request.** -/
def Request.acts (s : Scene) : Request → List Act
  | .pool cmd => sendActs s.env cmd (s.statPayload cmd) s.mains s.start s.backups
  | .only g cmd => turnActs g cmd s.turn s.taken
  | .post => (s.posted.elim [] Post.State.attempts).filterMap fun a =>
      s.mains[a.provider]?.map Act.handed

end Client

end NntpPool
