import NntpPool.Pool.Model.Conn
import NntpPool.Common.Run
import Mathlib.Logic.Function.Basic
/-!
# Pool — the slots and the callers of a provider

A provider's pool is a number of slot goroutines (`runConnSlot`), the
connections they have run, two buffered request channels, and the calls
that hand requests in. A call makes one attempt after the other
(`tryGroup`, or for a POST `doSendPost`), waits on the attempt's reply
channel and on contexts, and is over once its response is delivered. A
request handed to a waiting connection directly goes over an unbuffered
channel (`sendHot`).

The gate only delays a slot, so it is a step that may be refused once a
context is done. Request channels are never closed.
-/

namespace NntpPool

namespace Pool

/-- **Where `runConnSlot` stands**, with `firstReq`, `secondReq` and
`carriedReq`. -/
inductive Slot
  | idle
  /-- A request without priority, before the look for one with it. -/
  | took (r : ℕ)
  | picked (first : ℕ) (second : Option ℕ)
  | gate (first : ℕ) (second : Option ℕ)
  | dial (first : ℕ) (second : Option ℕ)
  /-- `newNNTPConnectionFromConn`, which works on the slot's buffer. -/
  | greet (first : ℕ) (second : Option ℕ)
  | run (k : ℕ)
  | backoff (carried : Option ℕ)
  | returned (carried : Option ℕ)
  deriving DecidableEq, Repr

/-- What may happen to a slot. -/
inductive SlotAct
  | go
  | prio
  | req
  | slotDone
  | refuse
  | err (e : GoError)
  deriving DecidableEq, Repr

/-- The head of the loop, with a request that was carried over or not. -/
def Slot.next : Option ℕ → Slot
  | none => .idle
  | some r => .took r

/-- The connection a slot runs. -/
def newConn (i first : ℕ) (second : Option ℕ) : Conn :=
  { slot := i, unsent := some first, deferredNormal := second }

/-- **One step of `runConnSlot`**, with the effects and the connection it
makes. The next connection has number `k`, and `dead` tells those whose
`Run` has returned. -/
def Slot.step (S : Setup) (env : Env) (i k : ℕ) (dead : ℕ → Bool) :
    Slot → SlotAct → Option (Slot × List Effect × Option Conn)
  | .idle, .prio => env.prioCh.head?.map fun p => (.picked p none, [.takePrio], none)
  | .idle, .req => env.reqCh.head?.map fun r => (.took r, [.takeReq], none)
  | .idle, .slotDone => env.slotDone.map fun _ => (.returned none, [], none)
  | .took r, .go =>
    match env.prioCh with
    | [] => some (.picked r none, [], none)
    | p :: _ => some (.picked p (some r), [.takePrio], none)
  | .picked f s, .go =>
    match env.done f with
    | some e => some (.next s, [.fail .slot f e.toError], none)
    | none => some (.gate f s, [], none)
  | .gate f s, .go => some (.dial f s, [], none)
  | .gate f s, .refuse =>
    if env.slotDone.isSome ∨ (env.done f).isSome then
      some (.next s, [.fail .slot f (.sentinel .canceled)], none)
    else none
  | .dial f s, .go => some (.greet f s, [], none)
  | .dial f s, .err e => some (.backoff s, [.fail .slot f (.wrapped S.providerName e)], none)
  | .greet f s, .go => some (.run k, [], some (newConn i f s))
  | .greet f s, .err e => some (.backoff s, [.fail .slot f (.wrapped S.providerName e)], none)
  | .run j, .go => if dead j then some (.idle, [], none) else none
  | .backoff s, .go => some (.next s, [], none)
  | .backoff s, .slotDone => env.slotDone.map fun _ => (.returned s, [], none)
  | _, _ => none

/-- **Where an attempt stands**: not yet made, on its way into a channel,
waiting on its reply channel, and left. A keepalive request is `internal`
to its connection. -/
inductive Attempt
  | unmade
  | entering
  | waiting
  | returned
  | internal
  deriving DecidableEq, Repr

/-- **The state of a provider's pool and its callers.** -/
structure State where
  /-- The client's context. -/
  client : Option CtxErr := none
  /-- The provider was removed: the context of its group is cancelled. -/
  removed : Bool := false
  /-- The contexts of the calls. -/
  caller : ℕ → Option CtxErr := fun _ => none
  attempt : ℕ → Attempt := fun _ => .unmade
  /-- The attempt a call is in. -/
  current : ℕ → Option ℕ := fun _ => none
  /-- The response of a call is delivered. -/
  delivered : ℕ → Bool := fun _ => false
  ch : ℕ → RespCh := fun _ => {}
  prioCh : List ℕ := []
  reqCh : List ℕ := []
  slots : List Slot
  conns : List Conn := []
  pipelineInUse : ℤ := 0
  backgroundStatInUse : ℤ := 0

/-- A provider's pool before the first request. -/
def start (S : Setup) : State := { slots := List.replicate S.connections .idle }

/-- The context of a request: for a POST the caller's, otherwise it also
ends with the attempt. -/
def State.done (S : Setup) (s : State) (r : ℕ) : Option CtxErr :=
  if (S.info r).keepalive then none
  else
    match s.caller (S.info r).call with
    | some e => some e
    | none =>
      if (S.info r).postMode then none
      else if s.attempt r = .returned then some .canceled
      else none

/-- The context of the group and its slots, which is a child of the
client's. -/
def State.groupDone (s : State) : Option CtxErr := if s.removed then some .canceled else s.client

/-- What a connection or a slot sees. -/
def State.env (S : Setup) (s : State) : Env :=
  ⟨s.done S, s.groupDone, s.prioCh, s.reqCh, fun r => (s.ch r).buf⟩

/-- What an effect does. -/
def State.apply (s : State) : Effect → State
  | .fail _ r e => { s with ch := Function.update s.ch r (failRequest (s.ch r) e) }
  | .answer r deliver reply =>
    { s with ch := Function.update s.ch r ((s.ch r).answer deliver reply) }
  | .takePrio => { s with prioCh := s.prioCh.tail }
  | .takeReq => { s with reqCh := s.reqCh.tail }
  | .make r => { s with attempt := Function.update s.attempt r .internal }
  | .pipelineInUse d => { s with pipelineInUse := s.pipelineInUse + d }
  | .backgroundStatInUse d => { s with backgroundStatInUse := s.backgroundStatInUse + d }
  | .wrote _ => s

/-- The context an attempt gives up on. -/
inductive Why
  | client
  | caller
  | group
  deriving DecidableEq, Repr

/-- The error of that context, or what it stands for. -/
def State.cause (s : State) (k : ℕ) : Why → Option GoError
  | .client => s.client.map CtxErr.toError
  | .caller => (s.caller k).map CtxErr.toError
  | .group => if s.groupDone.isSome then some (.sentinel .connectionDied) else none

/-- **The steps of the pool.** -/
inductive Label
  | cancelClient (e : CtxErr)
  | removeProvider
  | cancelCaller (k : ℕ) (e : CtxErr)
  /-- A call makes an attempt, which gets into a channel, or is handed to
  a connection. -/
  | start (r : ℕ)
  | send (r : ℕ)
  | sendHot (r k : ℕ)
  /-- The attempt returns, with what came, or on a context. -/
  | receive (r : ℕ)
  | giveUp (r : ℕ) (why : Why)
  /-- The response is handed to the caller. -/
  | deliver (k : ℕ)
  | slot (i : ℕ) (a : SlotAct)
  | conn (k : ℕ) (a : ConnAct)

/-- The connection acts on its own, and makes only requests that are
new. -/
def State.allows (s : State) : ConnAct → Bool
  | .writer (.hotPrio _) => false
  | .writer (.hotReq _) => false
  | .writer (.keepalive r) => s.attempt r == .unmade
  | _ => true

/-- A connection's step, and what it does to the pool. -/
def State.connStep (S : Setup) (s : State) (k : ℕ) (a : ConnAct) : Option (State × List Effect) :=
  s.conns[k]?.bind fun c =>
    (c.step S (s.env S) a).map fun r =>
      (r.2.foldl State.apply { s with conns := s.conns.set k r.1 }, r.2)

/-- A slot's step. -/
def State.slotStep (S : Setup) (s : State) (i : ℕ) (a : SlotAct) : Option (State × List Effect) :=
  s.slots[i]?.bind fun slot =>
    let dead k := s.conns[k]?.any fun c => c.writer == .dead
    (slot.step S (s.env S) i s.conns.length dead a).map fun r =>
      (r.2.1.foldl State.apply
        { s with slots := s.slots.set i r.1, conns := s.conns ++ r.2.2.toList }, r.2.1)

/-- The attempt is in the channel, or with the connection. -/
def State.accepted (s : State) (r : ℕ) : State :=
  { s with attempt := Function.update s.attempt r .waiting }

/-- The attempt is over. -/
def State.leave (S : Setup) (s : State) (r : ℕ) : State :=
  { s with
    attempt := Function.update s.attempt r .returned
    current := Function.update s.current (S.info r).call none }

/-- **One step of the pool**, with its effects. -/
def State.act (S : Setup) (s : State) : Label → Option (State × List Effect)
  | .cancelClient e => if s.client.isNone then some ({ s with client := some e }, []) else none
  | .removeProvider => some ({ s with removed := true }, [])
  | .cancelCaller k e =>
    if (s.caller k).isNone then
      some ({ s with caller := Function.update s.caller k (some e) }, [])
    else none
  | .start r =>
    let k := (S.info r).call
    if s.attempt r = .unmade ∧ (S.info r).keepalive = false ∧ s.current k = none ∧
        s.delivered k = false then
      some ({ s with
        attempt := Function.update s.attempt r .entering
        current := Function.update s.current k (some r) }, [])
    else none
  | .send r =>
    if s.attempt r ≠ .entering then none
    else if (S.info r).priority then
      if s.prioCh.length < S.connections then
        some ({ s.accepted r with prioCh := s.prioCh ++ [r] }, [])
      else none
    else if s.reqCh.length < S.connections then
      some ({ s.accepted r with reqCh := s.reqCh ++ [r] }, [])
    else none
  | .sendHot r k =>
    if s.attempt r = .entering then
      (s.accepted r).connStep S k
        (.writer (if (S.info r).priority then .hotPrio r else .hotReq r))
    else none
  | .receive r =>
    if s.attempt r = .waiting ∧ ((s.ch r).buf.isSome ∨ (s.ch r).closed) then
      some ({ s.leave S r with ch := Function.update s.ch r { s.ch r with buf := none } }, [])
    else none
  | .giveUp r why =>
    -- a POST that is in a channel is waited for
    if (s.attempt r = .entering ∨ s.attempt r = .waiting ∧ (S.info r).postMode = false) ∧
        (s.cause (S.info r).call why).isSome then
      some (s.leave S r, [])
    else none
  | .deliver k =>
    if s.current k = none ∧ s.delivered k = false then
      some ({ s with delivered := Function.update s.delivered k true }, [])
    else none
  | .slot i a => s.slotStep S i a
  | .conn k a => if s.allows a then s.connStep S k a else none

/-- **One step of the pool.** -/
def step (S : Setup) (s : State) (l : Label) : Option State := (s.act S l).map Prod.fst

end Pool

end NntpPool
