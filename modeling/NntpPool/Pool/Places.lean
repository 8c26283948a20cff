import NntpPool.Common.Shares
import NntpPool.Pool.Steps
/-!
# Pool — where a request is

A request that was handed in is in a channel, with a slot, or with a
connection: on its queue, or held by one of its two goroutines. `held`
lists the requests of a place, each as often as it is there.

`Run` keeps a pointer to the last request it was about, `unsent`. While
it works on the request, it holds it. When it leaves from the middle of
that work, the deferred function finds it and fails it: then it is
`left`. At any other time the pointer may be `stale`, and the request was
failed already.
-/

namespace NntpPool

namespace Pool

/-! ## Places -/

/-- What `failOutstanding` has taken off the queue and not failed yet. -/
def Failing.held : Failing → List ℕ
  | .popped e => [e.req]
  | .released e => [e.req]
  | _ => []

/-- `Run` works on `unsent`. -/
def Writer.works : Writer → Bool
  | .first | .firstSlot | .got | .body _ | .background _ _ => true
  | .write _ _ | .flushPost _ _ | .enqueue _ _ => true
  | _ => false

/-- The requests `Run` holds. -/
def Writer.held (unsent : Option ℕ) (w : Writer) : List ℕ :=
  match w with
  | .chosen r => [r]
  | .keepalive r => [r]
  | .abort f => f.held
  | .closing f => f.held
  | w => if w.works then unsent.toList else []

/-- The request `readerLoop` holds. -/
def Reader.held : Reader → List ℕ
  | .head e => [e.req]
  | .control e _ => [e.req]
  | .feed e _ => [e.req]
  | .fed e _ _ => [e.req]
  | .second e _ _ => [e.req]
  | .respond e _ _ _ => [e.req]
  | .retire f => f.held
  | _ => []

/-- The requests of a connection. -/
def Conn.held (c : Conn) : List ℕ :=
  c.deferredNormal.toList ++ c.pending.map Entry.req ++ c.writer.held c.unsent ++ c.reader.held

/-- The request the deferred function of `Run` is about to fail. -/
def Conn.left (c : Conn) : List ℕ := if c.writer = .exitUnsent then c.unsent.toList else []

/-- The request `unsent` still points to, where `Run` does not work on
it. -/
def Conn.stale (c : Conn) : List ℕ :=
  if c.writer.works ∨ c.writer = .exitUnsent then [] else c.unsent.toList

/-- The requests of a slot. -/
def Slot.held : Slot → List ℕ
  | .idle => []
  | .took r => [r]
  | .picked f s => f :: s.toList
  | .gate f s => f :: s.toList
  | .dial f s => f :: s.toList
  | .greet f s => f :: s.toList
  | .run _ => []
  | .backoff s => s.toList
  | .returned s => s.toList

/-- How often a request is held in the pool. -/
def State.held (s : State) (r : ℕ) : ℕ :=
  s.prioCh.count r + s.reqCh.count r + shares (fun p : Slot => p.held.count r) s.slots +
    shares (fun c : Conn => c.held.count r) s.conns

/-- How often it was left to a deferred function. -/
def State.left (s : State) (r : ℕ) : ℕ := shares (fun c : Conn => c.left.count r) s.conns

@[simp] theorem Writer.held_abort (unsent : Option ℕ) (f : Failing) :
    (Writer.abort f).held unsent = f.held := rfl

@[simp] theorem Writer.held_closing (unsent : Option ℕ) (f : Failing) :
    (Writer.closing f).held unsent = f.held := rfl

theorem newConn_held (i f : ℕ) (s : Option ℕ) : (newConn i f s).held = s.toList ++ [f] := by
  simp [newConn, Conn.held, Writer.held, Writer.works, Reader.held]

@[simp] theorem Reader.held_retire (f : Failing) : (Reader.retire f).held = f.held := rfl

/-! ## What effects do -/

/-- The request an effect completes. -/
def Effect.ended : Effect → List ℕ
  | .fail _ r _ => [r]
  | .answer r _ _ => [r]
  | _ => []

/-- The request an effect takes out of a channel, or makes. -/
def Effect.taken (env : Env) : Effect → List ℕ
  | .takePrio => env.prioCh.head?.toList
  | .takeReq => env.reqCh.head?.toList
  | .make r => [r]
  | _ => []

/-- The request an effect makes. -/
def Effect.made : Effect → List ℕ
  | .make r => [r]
  | _ => []

/-- The request that is handed to a connection directly. -/
def ConnAct.handed : ConnAct → List ℕ
  | .writer (.hotPrio r) => [r]
  | .writer (.hotReq r) => [r]
  | _ => []

def endedBy (effs : List Effect) : List ℕ := effs.flatMap Effect.ended

def takenBy (env : Env) (effs : List Effect) : List ℕ := effs.flatMap (Effect.taken env)

def madeBy (effs : List Effect) : List ℕ := effs.flatMap Effect.made

@[simp] theorem endedBy_nil : endedBy [] = [] := rfl

@[simp] theorem takenBy_nil (env : Env) : takenBy env [] = [] := rfl

@[simp] theorem madeBy_nil : madeBy [] = [] := rfl

@[simp] theorem madeBy_cons (x : Effect) (xs : List Effect) :
    madeBy (x :: xs) = x.made ++ madeBy xs := List.flatMap_cons

@[simp] theorem madeBy_append (xs ys : List Effect) :
    madeBy (xs ++ ys) = madeBy xs ++ madeBy ys := List.flatMap_append

@[simp] theorem endedBy_cons (x : Effect) (xs : List Effect) :
    endedBy (x :: xs) = x.ended ++ endedBy xs := List.flatMap_cons

@[simp] theorem takenBy_cons (env : Env) (x : Effect) (xs : List Effect) :
    takenBy env (x :: xs) = x.taken env ++ takenBy env xs := List.flatMap_cons

@[simp] theorem endedBy_append (xs ys : List Effect) :
    endedBy (xs ++ ys) = endedBy xs ++ endedBy ys := List.flatMap_append

@[simp] theorem takenBy_append (env : Env) (xs ys : List Effect) :
    takenBy env (xs ++ ys) = takenBy env xs ++ takenBy env ys := List.flatMap_append

@[simp] theorem endedBy_backgroundFreed (held : Bool) : endedBy (backgroundFreed held) = [] := by
  cases held <;> rfl

@[simp] theorem takenBy_backgroundFreed (env : Env) (held : Bool) :
    takenBy env (backgroundFreed held) = [] := by
  cases held <;> rfl

@[simp] theorem madeBy_backgroundFreed (held : Bool) : madeBy (backgroundFreed held) = [] := by
  cases held <;> rfl

@[simp] theorem madeBy_pendingFreed (e : Entry) : madeBy (pendingFreed e) = [] := by
  rcases e with ⟨r, hb, _ | _, _ | _⟩ <;> rfl

@[simp] theorem madeBy_exitFails (r : Option ℕ) : madeBy (exitFails r) = [] := by
  cases r <;> rfl

@[simp] theorem madeBy_wroteTo (S : Setup) (r : ℕ) (deliver wrote : Bool) :
    madeBy (wroteTo S r deliver wrote) = [] := by
  unfold wroteTo
  split <;> rfl

@[simp] theorem endedBy_pendingFreed (e : Entry) : endedBy (pendingFreed e) = [] := by
  rcases e with ⟨r, hb, _ | _, _ | _⟩ <;> rfl

@[simp] theorem takenBy_pendingFreed (env : Env) (e : Entry) :
    takenBy env (pendingFreed e) = [] := by
  rcases e with ⟨r, hb, _ | _, _ | _⟩ <;> rfl

@[simp] theorem endedBy_exitFails (r : Option ℕ) : endedBy (exitFails r) = r.toList := by
  cases r <;> rfl

@[simp] theorem takenBy_exitFails (env : Env) (r : Option ℕ) : takenBy env (exitFails r) = [] := by
  cases r <;> rfl

@[simp] theorem endedBy_wroteTo (S : Setup) (r : ℕ) (deliver wrote : Bool) :
    endedBy (wroteTo S r deliver wrote) = [] := by
  unfold wroteTo
  split <;> rfl

@[simp] theorem takenBy_wroteTo (S : Setup) (env : Env) (r : ℕ) (deliver wrote : Bool) :
    takenBy env (wroteTo S r deliver wrote) = [] := by
  unfold wroteTo
  split <;> rfl

/-! ## Slots given back -/

theorem Conn.freeBody_eq (c : Conn) (held : Bool) :
    c.freeBody held = { c with bodySem := c.bodySem - held.toNat } := by
  cases held <;> rfl

theorem Conn.freeBackground_eq (c : Conn) (held : Bool) :
    c.freeBackground held = { c with
      backgroundStatSem := c.backgroundStatSem - held.toNat
      backgroundStatFreed := held || c.backgroundStatFreed } := by
  cases held <;> rfl

theorem Conn.freeBody_pending (c : Conn) (held : Bool) : (c.freeBody held).pending = c.pending := by
  rw [Conn.freeBody_eq]

theorem Conn.freeBody_reader (c : Conn) (held : Bool) : (c.freeBody held).reader = c.reader := by
  rw [Conn.freeBody_eq]

theorem Conn.freeBackground_pending (c : Conn) (held : Bool) :
    (c.freeBackground held).pending = c.pending := by
  rw [Conn.freeBackground_eq]

theorem Conn.freeBackground_reader (c : Conn) (held : Bool) :
    (c.freeBackground held).reader = c.reader := by
  rw [Conn.freeBackground_eq]

/-! ## Conservation -/

/-- **What a step does to a request.** It comes in `inn` times; of a
request that is not completed nothing is lost, unless the step may lose
it, and of one that is completed a holder lets go. Of a stale pointer
nothing is said. -/
structure Passes (inn : ℕ) (ended stale lost : Prop) (held left held' left' : ℕ) : Prop where
  keeps : ¬ended → ¬stale → held' + left' ≤ held + left + inn
  keeps_all : ¬ended → ¬stale → ¬lost → held' + left' = held + left + inn
  ends : ended → held' + 1 ≤ held + left
  held_le : held' ≤ held + inn

variable {S : Setup} {env : Env} {c c' : Conn} {effs : List Effect}

/-- `failOutstanding` touches the queue, its lock and the slots. -/
theorem Fails.frame {f : Failing} {f' : Option Failing} (h : Fails S c f c' f' effs) :
    c'.slot = c.slot ∧ c'.writer = c.writer ∧ c'.reader = c.reader ∧ c'.unsent = c.unsent ∧
      c'.deferredNormal = c.deferredNormal := by
  cases h <;> simp [Conn.freeBackground_eq, Conn.freeInflight]

/-- It takes nothing from the channels. -/
theorem Fails.takenBy_eq {f : Failing} {f' : Option Failing} (h : Fails S c f c' f' effs) :
    takenBy env effs = [] := by
  cases h <;> simp [Effect.taken]

theorem Fails.madeBy_eq {f : Failing} {f' : Option Failing} (h : Fails S c f c' f' effs) :
    madeBy effs = [] := by
  cases h <;> simp [Effect.made]

/-- What is taken off the queue is held until it is failed. -/
theorem Fails.count_eq {f : Failing} {f' : Option Failing} (h : Fails S c f c' f' effs) (r : ℕ) :
    (c'.pending.map Entry.req).count r + (f'.elim [] Failing.held).count r +
      (endedBy effs).count r = (c.pending.map Entry.req).count r + f.held.count r := by
  cases h with
  | lock h => simp [Failing.held]
  | empty h => simp [Failing.held]
  | pop h => simp [Failing.held, h, List.count_cons]
  | release e => simp [Failing.held, Conn.freeBackground_eq]
  | fail e => simp [Failing.held, Effect.ended]
  | free => simp [Failing.held, Conn.freeInflight]

theorem count_toList (o : Option ℕ) (r : ℕ) : o.toList.count r = if o = some r then 1 else 0 := by
  cases o with
  | none => rfl
  | some n => simp [List.count_cons]

/-- The holder of `failOutstanding` passes on what it does. -/
theorem Fails.passes {f : Failing} {f' : Option Failing} {stale : Prop} {left left' : ℕ}
    (h : Fails S c f c' f' effs) (r rest : ℕ) (lost : Prop) (hleft : ¬stale → left' = left) :
    Passes 0 (r ∈ endedBy effs) stale lost
      ((c.pending.map Entry.req).count r + f.held.count r + rest) left
      ((c'.pending.map Entry.req).count r + (f'.elim [] Failing.held).count r + rest) left' := by
  have hcount := h.count_eq r
  have hended := List.count_pos_iff (l := endedBy effs) (a := r)
  constructor
  · intro hr hs
    have := hleft hs
    omega
  · intro hr hs _
    have := hleft hs
    have : ¬0 < (endedBy effs).count r := fun h => hr (hended.mp h)
    omega
  · intro hr
    have := hended.mpr hr
    omega
  · omega

/-! ## The deferred request -/

/-- `Run` may defer the request it works on. -/
def Writer.defers : Writer → Bool
  | .got => true
  | .body boot => !boot
  | .background boot _ => !boot
  | _ => false

/-- **A request is deferred only where none is.** -/
structure Conn.Orderly (S : Setup) (c : Conn) : Prop where
  wait : c.writer = .wait → c.deferredNormal = none
  chosen : ∀ r, c.writer = .chosen r → c.deferredNormal = none
  turn : ∀ r, c.writer.defers = true → c.unsent = some r → S.isBackground r = true →
    c.deferredNormal = none

/-- What is taken for a priority request is one. -/
structure Sorted (S : Setup) (env : Env) (a : ConnAct) : Prop where
  prioCh : ∀ r ∈ env.prioCh, (S.info r).priority = true
  hotPrio : ∀ r, a = .writer (.hotPrio r) → (S.info r).priority = true

theorem Setup.isBackground_of_priority {r : ℕ} (h : (S.info r).priority = true) :
    S.isBackground r = false := by
  simp [Setup.isBackground, h]

/-- Where nothing is deferred there is nothing to keep to, -/
theorem Conn.Orderly.of_none (hd : c.deferredNormal = none) : c.Orderly S :=
  ⟨fun _ => hd, fun _ _ => hd, fun _ _ _ _ => hd⟩

/-- nor elsewhere in the loop, -/
theorem Conn.Orderly.elsewhere (hwait : c.writer ≠ .wait) (hchosen : ∀ r, c.writer ≠ .chosen r)
    (hturn : c.writer.defers = false) : c.Orderly S :=
  ⟨fun h => absurd h hwait, fun r h => absurd h (hchosen r), fun _ h => by simp [hturn] at h⟩

/-- nor with a priority request, which is never deferred. -/
theorem Conn.Orderly.prio {p : ℕ} (hw : c.writer = .got) (hu : c.unsent = some p)
    (hp : (S.info p).priority = true) : c.Orderly S := by
  refine ⟨fun h => ?_, fun r h => ?_, fun r _ hr hb => ?_⟩
  · rw [hw] at h
    cases h
  · rw [hw] at h
    cases h
  · obtain rfl := Option.some.inj (hu.symm.trans hr)
    rw [Setup.isBackground_of_priority hp] at hb
    cases hb

/-- **`Run` keeps to it.** -/
theorem Writes.orderly {a : WriterAct} (h : Writes S env c a c' effs)
    (hsorted : Sorted S env (.writer a)) (hc : c.Orderly S) : c'.Orderly S := by
  obtain ⟨hwait, hchosen, hturn⟩ := hc
  obtain ⟨hprio, hhot⟩ := hsorted
  cases h
  -- a priority request is taken,
  case takePrio hp | blockedPrio hp | waitPrio hp | chosenPrio hp =>
    exact .prio rfl rfl (hprio _ (by rw [hp]; exact List.mem_cons_self))
  case blockedHot | waitHotPrio => exact .prio rfl rfl (hhot _ rfl)
  -- another one, when none is deferred,
  case normalDeferred => exact .of_none rfl
  case normalWait hd _ | normalReq hd _ => exact .of_none hd
  case waitReq hw _ | waitHotReq hw => exact .of_none (hwait hw)
  case chosenGo hw _ => exact .of_none (hchosen _ hw)
  -- or the one that was taken goes on
  case gotGo hw _ | bodyCheap hw _ _ | bodyGo hw _ _ _ =>
    refine ⟨by simp, by simp, fun r hdefers hu hb => hturn r ?_ hu hb⟩
    rw [hw]
    exact hdefers
  case' abort f f' d hw hf => cases f'
  case' closing f f' d hw hf => cases f'
  case' takeGo b _ _ => cases b
  case' postReady b _ _ => cases b
  case' keepaliveAnswer hto => rcases hto with rfl | rfl
  case drainGo hw _ => exact .elsewhere (by simp [hw]) (by simp [hw]) (by rw [hw]; rfl)
  all_goals exact .elsewhere (by simp [Writer.after]) (by simp [Writer.after]) rfl

/-! ## Steps -/

/-- The four parts at once, for a proof that computes the counts. -/
theorem Passes.of_and {inn : ℕ} {ended stale lost : Prop} {held left held' left' : ℕ}
    (h : (ended → held' + 1 ≤ held + left) ∧ held' ≤ held + inn ∧ (¬ended → ¬stale →
      held' + left' ≤ held + left + inn ∧ (¬lost → held' + left' = held + left + inn))) :
    Passes inn ended stale lost held left held' left' :=
  ⟨fun he hs => (h.2.2 he hs).1, fun he hs => (h.2.2 he hs).2, h.1, h.2.1⟩

/-- **What a step of `Run` does to a request.** -/
theorem Writes.passes {a : WriterAct} (h : Writes S env c a c' effs) (hc : c.Orderly S) (r : ℕ) :
    Passes (((ConnAct.writer a).handed ++ takenBy env effs).count r) (r ∈ endedBy effs)
      (r ∈ c.stale) (c.writer = .keepalive r) (c.held.count r) (c.left.count r)
      (c'.held.count r) (c'.left.count r) := by
  obtain ⟨hwait, hchosen, hturn⟩ := hc
  cases h
  case abort f f' d hw hf =>
    obtain ⟨-, -, hreader, hu, hd⟩ := hf.frame
    -- behind the loop `unsent` is looked at again
    have hleft : r ∉ c.stale → (if f' = none then c.unsent.toList.count r else 0) = 0 := by
      simp_all [Conn.stale, Writer.works, count_toList]
    have hp := hf.passes r (c.deferredNormal.toList.count r + c.reader.held.count r)
      (c.writer = .keepalive r) hleft
    cases f' <;> simpa [Conn.held, Conn.left, hw, hreader, hu, hd, hf.takenBy_eq, Writer.after,
      Writer.held, Writer.works, ConnAct.handed, add_assoc, add_comm, add_left_comm] using hp
  case closing f f' d hw hf =>
    obtain ⟨-, -, hreader, hu, hd⟩ := hf.frame
    have hp := hf.passes r (c.deferredNormal.toList.count r + c.reader.held.count r)
      (c.writer = .keepalive r) (fun _ : r ∉ c.stale => (rfl : 0 = 0))
    cases f' <;> simpa [Conn.held, Conn.left, hw, hreader, hu, hd, hf.takenBy_eq, Writer.after,
      Writer.held, Writer.works, ConnAct.handed, add_assoc, add_comm, add_left_comm] using hp
  case' takeGo b _ _ => cases b
  case' postReady b _ _ => cases b
  case' keepaliveAnswer hto => rcases hto with rfl | rfl
  case chosenPrio hw hp =>
    have hd := hchosen _ hw
    apply Passes.of_and
    simp [hw, hp, hd, Conn.held, Conn.left, Writer.held, Writer.works, ConnAct.handed,
      Effect.taken, Effect.ended, List.count_cons]
    all_goals omega
  case backgroundFull hw hu hg hfull =>
    have hd := hturn _ (by rw [hw]; rfl) hu hg
    apply Passes.of_and
    simp [hw, hu, hd, Conn.held, Conn.left, Writer.held, Writer.works,
      ConnAct.handed, List.count_cons, Conn.freeInflight, Conn.freeBody_eq]
    all_goals omega
  all_goals
    clear hwait hchosen hturn
    apply Passes.of_and
    simp [*, Conn.held, Conn.left, Conn.stale, Writer.held, Writer.works,
      ConnAct.handed, Effect.taken, Effect.ended, Failing.held, List.count_cons, count_toList,
      Conn.freeInflight, Conn.freeBody_eq, Conn.freeBackground_eq]
  all_goals grind

/-- A pointer gets stale when its request is completed. -/
theorem Writes.stale {a : WriterAct} (h : Writes S env c a c' effs) {r : ℕ} (hr : r ∈ c'.stale) :
    r ∈ c.stale ∨ r ∈ endedBy effs := by
  cases h
  case abort f f' d hw hf | closing f f' d hw hf =>
    obtain ⟨-, -, -, hu, -⟩ := hf.frame
    cases f' <;> simp_all [Conn.stale, Writer.works, Writer.after]
  case' takeGo b _ _ => cases b
  case' postReady b _ _ => cases b
  case' keepaliveAnswer hto => rcases hto with rfl | rfl
  all_goals
    simp_all [Conn.stale, Writer.works, Effect.ended, Conn.freeInflight, Conn.freeBody_eq,
      Conn.freeBackground_eq]

/-- `Run` does not touch what is the reader's. -/
theorem Writes.frame {a : WriterAct} (h : Writes S env c a c' effs) :
    c'.slot = c.slot ∧ c'.reader = c.reader := by
  cases h
  case abort hf => exact ⟨hf.frame.1, hf.frame.2.2.1⟩
  case closing hf => exact ⟨hf.frame.1, hf.frame.2.2.1⟩
  all_goals simp [Conn.freeInflight, Conn.freeBody_eq, Conn.freeBackground_eq]

/-- `readerLoop` does not touch what is the writer's. -/
theorem Reads.frame {a : ReaderAct} (h : Reads S env c a c' effs) :
    c'.slot = c.slot ∧ c'.writer = c.writer ∧ c'.unsent = c.unsent ∧
      c'.deferredNormal = c.deferredNormal := by
  cases h
  case retire hr hf =>
    obtain ⟨hs, hw, -, hu, hd⟩ := hf.frame
    exact ⟨hs, hw, hu, hd⟩
  all_goals simp [Conn.freeInflight, Conn.freeBody_eq, Conn.freeBackground_eq]

/-- **What a step of `readerLoop` does to a request.** -/
theorem Reads.passes {a : ReaderAct} (h : Reads S env c a c' effs) (r : ℕ) :
    Passes (((ConnAct.reader a).handed ++ takenBy env effs).count r) (r ∈ endedBy effs)
      (r ∈ c.stale) (c.writer = .keepalive r) (c.held.count r) (c.left.count r)
      (c'.held.count r) (c'.left.count r) := by
  cases h
  case retire f f' d hr hf =>
    obtain ⟨-, hw, -, hu, hd⟩ := hf.frame
    have hp := hf.passes r (c.deferredNormal.toList.count r + (c.writer.held c.unsent).count r)
      (c.writer = .keepalive r) (fun _ : r ∉ c.stale => (rfl : c.left.count r = c.left.count r))
    cases f' <;> simpa [Conn.held, Conn.left, hr, hw, hu, hd, hf.takenBy_eq, Reader.after,
      Reader.held, ConnAct.handed, add_assoc, add_comm, add_left_comm] using hp
  case' decide hto => rcases hto with rfl | rfl
  all_goals
    apply Passes.of_and
    simp [*, Conn.held, Conn.left, Reader.held, Failing.held, ConnAct.handed, Effect.taken,
      Effect.ended, List.count_cons, Conn.freeInflight, Conn.freeBody_eq, Conn.freeBackground_eq]
  all_goals grind

/-- **What a step of a slot does to a request.** -/
theorem SlotSteps.passes {i k : ℕ} {dead : ℕ → Bool} {p q : Slot} {a : SlotAct}
    {made : Option Conn} (h : SlotSteps S env i k dead p a q effs made) (r : ℕ) :
    Passes ((takenBy env effs).count r) (r ∈ endedBy effs) False False (p.held.count r) 0
      (q.held.count r + shares (fun c : Conn => c.held.count r) made.toList) 0 := by
  cases h
  case' pickedDone s _ _ => cases s
  case' gateRefuse s _ => cases s
  case' backoffGo s => cases s
  all_goals
    apply Passes.of_and
    simp [*, Slot.held, Slot.next, Effect.taken, Effect.ended, List.count_cons, newConn_held]
  all_goals grind

/-- **What a step of a connection does to a request.** -/
theorem Conn.step_passes {a : ConnAct} (h : c.step S env a = some (c', effs)) (hc : c.Orderly S)
    (r : ℕ) :
    Passes ((a.handed ++ takenBy env effs).count r) (r ∈ endedBy effs) (r ∈ c.stale)
      (c.writer = .keepalive r) (c.held.count r) (c.left.count r) (c'.held.count r)
      (c'.left.count r) := by
  cases a with
  | writer a => exact (writerStep_writes h).passes hc r
  | reader a => exact (readerStep_reads h).passes r

theorem Conn.step_orderly {a : ConnAct} (h : c.step S env a = some (c', effs))
    (hsorted : Sorted S env a) (hc : c.Orderly S) : c'.Orderly S := by
  cases a with
  | writer a => exact (writerStep_writes h).orderly hsorted hc
  | reader a =>
    obtain ⟨-, hw, hu, hd⟩ := (readerStep_reads h).frame
    obtain ⟨hwait, hchosen, hturn⟩ := hc
    exact ⟨by rwa [hw, hd], by rwa [hw, hd], by rwa [hw, hu, hd]⟩

theorem Conn.step_stale {a : ConnAct} (h : c.step S env a = some (c', effs)) {r : ℕ}
    (hr : r ∈ c'.stale) : r ∈ c.stale ∨ r ∈ endedBy effs := by
  cases a with
  | writer a => exact (writerStep_writes h).stale hr
  | reader a =>
    obtain ⟨-, hw, hu, -⟩ := (readerStep_reads h).frame
    left
    simpa [Conn.stale, hw, hu] using hr

/-! ## Effects one by one -/

/-- The effect is on a gauge. -/
def Effect.isGauge : Effect → Bool
  | .pipelineInUse _ => true
  | .backgroundStatInUse _ => true
  | _ => false

/-- Behind effects on the gauges there is one other effect at most. -/
def Single (effs : List Effect) : Prop :=
  ∃ gauges x, effs = gauges ++ Option.toList x ∧ ∀ g ∈ gauges, g.isGauge = true

theorem Single.nil : Single [] := ⟨[], none, rfl, by simp⟩

theorem Single.one (x : Effect) : Single [x] := ⟨[], some x, rfl, by simp⟩

theorem Single.gauges (h : ∀ g ∈ effs, g.isGauge = true) : Single effs :=
  ⟨effs, none, by simp, h⟩

theorem isGauge_backgroundFreed (held : Bool) : ∀ g ∈ backgroundFreed held, g.isGauge = true := by
  cases held <;> simp [backgroundFreed, Effect.isGauge]

theorem isGauge_pendingFreed (e : Entry) : ∀ g ∈ pendingFreed e, g.isGauge = true := by
  intro g hg
  rcases List.mem_append.mp hg with hg | hg
  · exact isGauge_backgroundFreed _ g hg
  · split_ifs at hg <;> simp_all [Effect.isGauge]

theorem Single.exitFails (r : Option ℕ) : Single (exitFails r) := by
  cases r with
  | none => exact .nil
  | some r => exact .one _

theorem Single.wroteTo (r : ℕ) (deliver wrote : Bool) : Single (wroteTo S r deliver wrote) := by
  unfold NntpPool.Pool.wroteTo
  split
  · exact .one _
  · exact .nil

theorem Fails.single {f : Failing} {f' : Option Failing} (h : Fails S c f c' f' effs) :
    Single effs := by
  cases h
  case release e => exact .gauges (isGauge_pendingFreed e)
  case fail => exact .one _
  all_goals exact .nil

theorem Writes.single {a : WriterAct} (h : Writes S env c a c' effs) : Single effs := by
  cases h
  case abort hf => exact hf.single
  case closing hf => exact hf.single
  case exitUnsent => exact .exitFails _
  case exitDeferred => exact .exitFails _
  case writeErr hg e _ _ => exact ⟨_, some _, rfl, isGauge_backgroundFreed hg⟩
  all_goals first | exact .nil | exact .one _

theorem Reads.single {a : ReaderAct} (h : Reads S env c a c' effs) : Single effs := by
  cases h
  case retire hf => exact hf.single
  case feedMore => exact .wroteTo _ _ _
  case feedFinish => exact .wroteTo _ _ _
  case freePending e _ _ _ => exact .gauges (isGauge_pendingFreed e)
  all_goals first | exact .nil | exact .one _

theorem SlotSteps.single {i k : ℕ} {dead : ℕ → Bool} {p q : Slot} {a : SlotAct}
    {made : Option Conn} (h : SlotSteps S env i k dead p a q effs made) : Single effs := by
  cases h
  all_goals first | exact .nil | exact .one _

theorem Conn.step_single {a : ConnAct} (h : c.step S env a = some (c', effs)) : Single effs := by
  cases a with
  | writer a => exact (writerStep_writes h).single
  | reader a => exact (readerStep_reads h).single

theorem Acts.single {s s' : State} {l : Label} (h : Acts S s l s' effs) : Single effs := by
  cases h
  case sendHot hs => exact Conn.step_single hs
  case conn hs => exact Conn.step_single hs
  case slot hs => exact hs.single
  all_goals exact .nil

/-- What no gauge is part of. -/
theorem foldl_apply_gauges {β : Type} {f : State → β} {gauges : List Effect}
    (hg : ∀ g ∈ gauges, g.isGauge = true)
    (hf : ∀ s g, g.isGauge = true → f (State.apply s g) = f s) (s : State) :
    f (gauges.foldl State.apply s) = f s := by
  induction gauges generalizing s with
  | nil => rfl
  | cons g gs ih =>
    rw [List.foldl_cons, ih fun x hx => hg x (List.mem_cons_of_mem _ hx),
      hf _ _ (hg g List.mem_cons_self)]

/-- **The effects of a step are one effect**, but for the gauges. -/
theorem Single.apply (h : Single effs) (s : State) :
    ∃ (s₀ : State) (x : Option Effect), effs.foldl State.apply s = x.elim s₀ s₀.apply ∧
      (s₀.ch = s.ch ∧ s₀.prioCh = s.prioCh ∧ s₀.reqCh = s.reqCh ∧ s₀.attempt = s.attempt) ∧
      ∀ y : Effect, y.isGauge = false → (y ∈ effs ↔ x = some y) := by
  obtain ⟨gauges, x, rfl, hg⟩ := h
  refine ⟨gauges.foldl State.apply s, x, ?_, ⟨?_, ?_, ?_, ?_⟩, ?_⟩
  · cases x <;> simp
  · exact foldl_apply_gauges hg (fun s g h => by cases g <;> first | rfl | cases h) s
  · exact foldl_apply_gauges hg (fun s g h => by cases g <;> first | rfl | cases h) s
  · exact foldl_apply_gauges hg (fun s g h => by cases g <;> first | rfl | cases h) s
  · exact foldl_apply_gauges hg (fun s g h => by cases g <;> first | rfl | cases h) s
  · intro y hy
    have hnot : y ∉ gauges := fun h => by simp [hg y h] at hy
    simp [hnot]

theorem mem_endedBy {r : ℕ} : r ∈ endedBy effs ↔
    (∃ who e, .fail who r e ∈ effs) ∨ ∃ deliver reply, .answer r deliver reply ∈ effs := by
  constructor
  · intro h
    obtain ⟨x, hx, hr⟩ := List.mem_flatMap.mp h
    cases x <;> simp [Effect.ended] at hr <;> subst hr
    · exact .inl ⟨_, _, hx⟩
    · exact .inr ⟨_, _, hx⟩
  · rintro (⟨who, e, h⟩ | ⟨deliver, reply, h⟩)
    · exact List.mem_flatMap.mpr ⟨_, h, by simp [Effect.ended]⟩
    · exact List.mem_flatMap.mpr ⟨_, h, by simp [Effect.ended]⟩

/-- A request that is not completed keeps its channel. -/
theorem foldl_apply_ch_of_notMem {r : ℕ} (s : State) (h : r ∉ endedBy effs) :
    (effs.foldl State.apply s).ch r = s.ch r := by
  induction effs generalizing s with
  | nil => rfl
  | cons x xs ih =>
    simp only [endedBy_cons, List.mem_append, not_or] at h
    rw [List.foldl_cons, ih _ h.2]
    cases x <;> simp_all [State.apply, Effect.ended, Function.update]

/-- **A request is completed by one effect.** -/
theorem Single.apply_ch (h : Single effs) (s : State) {r : ℕ} (hr : r ∈ endedBy effs) :
    (∃ who e, .fail who r e ∈ effs ∧
      (effs.foldl State.apply s).ch r = failRequest (s.ch r) e) ∨
    ∃ deliver reply, .answer r deliver reply ∈ effs ∧
      (effs.foldl State.apply s).ch r = (s.ch r).answer deliver reply := by
  obtain ⟨s₀, x, heq, ⟨hch, -⟩, hmem⟩ := h.apply s
  rcases mem_endedBy.1 hr with ⟨who, e, hx⟩ | ⟨deliver, reply, hx⟩
  · obtain rfl := (hmem _ rfl).mp hx
    exact .inl ⟨who, e, hx, by simp [heq, State.apply, hch]⟩
  · obtain rfl := (hmem _ rfl).mp hx
    exact .inr ⟨deliver, reply, hx, by simp [heq, State.apply, hch]⟩

theorem takenBy_gauges (h : ∀ g ∈ effs, g.isGauge = true) : takenBy env effs = [] :=
  List.flatMap_eq_nil_iff.mpr fun g hg => by
    have := h g hg
    cases g <;> simp_all [Effect.isGauge, Effect.taken]

theorem madeBy_gauges (h : ∀ g ∈ effs, g.isGauge = true) : madeBy effs = [] :=
  List.flatMap_eq_nil_iff.mpr fun g hg => by
    have := h g hg
    cases g <;> simp_all [Effect.isGauge, Effect.made]

theorem count_madeBy_le (env : Env) (effs : List Effect) (r : ℕ) :
    (madeBy effs).count r ≤ (takenBy env effs).count r := by
  induction effs with
  | nil => rfl
  | cons x xs ih =>
    have hx : x.made.count r ≤ (x.taken env).count r := by
      cases x <;> simp [Effect.made, Effect.taken]
    rw [madeBy_cons, takenBy_cons, List.count_append, List.count_append]
    omega

theorem count_head?_add_count_tail (xs : List ℕ) (r : ℕ) :
    xs.head?.toList.count r + xs.tail.count r = xs.count r := by
  cases xs <;> simp [List.count_cons, add_comm]

/-- **What is taken leaves the channels.** -/
theorem Single.apply_queues (h : Single effs) {s : State} (hprio : env.prioCh = s.prioCh)
    (hreq : env.reqCh = s.reqCh) (r : ℕ) :
    (effs.foldl State.apply s).prioCh.count r + (effs.foldl State.apply s).reqCh.count r +
        (takenBy env effs).count r =
      s.prioCh.count r + s.reqCh.count r + (madeBy effs).count r := by
  obtain ⟨gauges, x, rfl, hg⟩ := h
  have hp : (gauges.foldl State.apply s).prioCh = s.prioCh :=
    foldl_apply_gauges hg (fun s g h => by cases g <;> first | rfl | cases h) s
  have hr : (gauges.foldl State.apply s).reqCh = s.reqCh :=
    foldl_apply_gauges hg (fun s g h => by cases g <;> first | rfl | cases h) s
  rw [List.foldl_append, takenBy_append, takenBy_gauges hg, madeBy_append, madeBy_gauges hg,
    List.nil_append, List.nil_append]
  cases x with
  | none => simp [hp, hr]
  | some x =>
    have hpr := count_head?_add_count_tail s.prioCh r
    have hrq := count_head?_add_count_tail s.reqCh r
    cases x <;> simp [State.apply, hp, hr, Effect.taken, Effect.made, hprio, hreq] <;> omega

/-! ## The pool -/

/-- The request a call hands in. -/
def Label.handed : Label → List ℕ
  | .send r => [r]
  | .sendHot r _ => [r]
  | _ => []

/-- The pointer is stale somewhere. -/
def State.Stale (s : State) (r : ℕ) : Prop := ∃ c ∈ s.conns, r ∈ c.stale

/-- A connection is about to keep itself alive with the request, and may
drop it. -/
def State.Probing (s : State) (r : ℕ) : Prop := ∃ c ∈ s.conns, c.writer = .keepalive r

/-- What one connection does, in the pool. -/
theorem State.passes_conn {s s₁ : State} {k : ℕ} {a : ConnAct} {r : ℕ}
    (hc : s.conns[k]? = some c) (hs : c.step S env a = some (c', effs)) (hord : c.Orderly S)
    (hprio : env.prioCh = s.prioCh) (hreq : env.reqCh = s.reqCh)
    (hs₁ : s₁ = effs.foldl State.apply { s with conns := s.conns.set k c' }) :
    Passes ((a.handed ++ madeBy effs).count r) (r ∈ endedBy effs) (s.Stale r) (s.Probing r)
      (s.held r) (s.left r) (s₁.held r) (s₁.left r) := by
  obtain ⟨hkeeps, hall, hends, hle⟩ := Conn.step_passes hs hord r
  have hmem := List.mem_of_getElem? hc
  have hheld := shares_set (f := fun c : Conn => c.held.count r) hc c'
  have hleft := shares_set (f := fun c : Conn => c.left.count r) hc c'
  have hqueues := (Conn.step_single hs).apply_queues (s := { s with conns := s.conns.set k c' })
    hprio hreq r
  have hmade := count_madeBy_le env effs r
  subst hs₁
  simp only [State.held, State.left, foldl_apply_slots, foldl_apply_conns, List.count_append]
    at hkeeps hall hle hqueues ⊢
  constructor
  · intro he hst
    have := hkeeps he fun h => hst ⟨c, hmem, h⟩
    omega
  · intro he hst hlost
    have := hall he (fun h => hst ⟨c, hmem, h⟩) fun h => hlost ⟨c, hmem, h⟩
    omega
  · intro he
    have := hends he
    have := le_shares (f := fun c : Conn => c.left.count r) hc
    omega
  · omega

/-- What one slot does. -/
theorem State.passes_slot {s s₁ : State} {i : ℕ} {a : SlotAct} {p q : Slot} {made : Option Conn}
    {r : ℕ} (hp : s.slots[i]? = some p)
    (hs : SlotSteps S (s.env S) i s.conns.length s.dead p a q effs made)
    (hs₁ : s₁ = effs.foldl State.apply
      { s with slots := s.slots.set i q, conns := s.conns ++ made.toList }) :
    Passes 0 (r ∈ endedBy effs) (s.Stale r) (s.Probing r) (s.held r) (s.left r) (s₁.held r)
      (s₁.left r) := by
  obtain ⟨hkeeps, hall, hends, hle⟩ := hs.passes r
  have hheld := shares_set (f := fun p : Slot => p.held.count r) hp q
  have hqueues := hs.single.apply_queues
    (s := { s with slots := s.slots.set i q, conns := s.conns ++ made.toList })
    (show (s.env S).prioCh = _ from rfl) rfl r
  have hmade : madeBy effs = [] := by cases hs <;> rfl
  have hnew : shares (fun c : Conn => c.left.count r) made.toList = 0 := by
    cases hs <;> simp [newConn, Conn.left]
  subst hs₁
  simp only [State.held, State.left, foldl_apply_slots, foldl_apply_conns, shares_append, hmade,
    hnew, List.count_nil] at hqueues ⊢
  constructor
  · intro he hst
    have := hkeeps he id
    omega
  · intro he hst hlost
    have := hall he id id
    omega
  · intro he
    have := hends he
    omega
  · omega

/-- A connection that acts on its own is handed nothing. -/
theorem State.handed_of_allows {s : State} {a : ConnAct} (h : s.allows a = true) :
    a.handed = [] := by
  rcases a with (_ | _ | _ | _ | _ | _ | _ | _ | _ | _ | _ | _) | a <;>
    first | rfl | cases h

/-- **What a step of the pool does to a request.** It comes in when a
call hands it in, or a connection makes it. -/
theorem Acts.passes {s s' : State} {l : Label} (h : Acts S s l s' effs)
    (hord : ∀ c ∈ s.conns, c.Orderly S) (r : ℕ) :
    Passes ((l.handed ++ madeBy effs).count r) (r ∈ endedBy effs) (s.Stale r) (s.Probing r)
      (s.held r) (s.left r) (s'.held r) (s'.left r) := by
  have hsame {s' : State} (hheld : s'.held r = s.held r) (hleft : s'.left r = s.left r) :
      Passes 0 (r ∈ endedBy []) (s.Stale r) (s.Probing r) (s.held r) (s.left r) (s'.held r)
        (s'.left r) :=
    ⟨fun _ _ => by omega, fun _ _ _ => by omega, fun h => absurd h List.not_mem_nil, by omega⟩
  cases h with
  | cancelClient e h => exact hsame rfl rfl
  | removeProvider => exact hsame rfl rfl
  | cancelCaller e h => exact hsame rfl rfl
  | start => exact hsame rfl rfl
  | receive => exact hsame rfl rfl
  | giveUp => exact hsame rfl rfl
  | deliver => exact hsame rfl rfl
  | sendPrio | sendReq =>
    constructor <;> simp [Label.handed, State.held, State.left, State.accepted] <;> omega
  | @sendHot n _ _ _ _ _ ha hhot hc hs =>
    have hpass := State.passes_conn (s := s.accepted n) (r := r) hc hs
      (hord _ (List.mem_of_getElem? hc)) rfl rfl rfl
    rcases hhot with ⟨rfl, -⟩ | rfl <;> exact hpass
  | slot hp hs =>
    have hmade : madeBy effs = [] := by cases hs <;> rfl
    simpa [hmade, Label.handed] using State.passes_slot hp hs rfl
  | conn hallows hc hs =>
    have hpass := State.passes_conn (r := r) hc hs (hord _ (List.mem_of_getElem? hc)) rfl rfl rfl
    rwa [State.handed_of_allows hallows] at hpass

end Pool

end NntpPool
