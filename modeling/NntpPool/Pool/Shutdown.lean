import NntpPool.Pool.Occupancy
/-!
# Pool — shutting down

`Client.Close` and `RemoveProvider` cancel a context and then rely on every
goroutine to see it: `runSlot` looks at it before it takes a request, `Run`
and the reader at each of their blocking points, and `failOutstanding` is
entered by both under one lock. What could go wrong is a goroutine that
waits for another that has gone: `Run` for room on `pending`, one of the
two for `failMu`, a slot for its connection.

`Conn.Guarded` says who has the lock and `Conn.Bounded` that a request with
a place in flight has room on the queue; with these no goroutine is stuck
behind another once its context is done (`Conn.exists_leaves`,
`Conn.exists_reader_leaves`, `Slot.exists_leaves`), and the steps it then
takes are counted down (`State.cost`). So a pool that is closed can always
come to its end from wherever it was, and what callers wait for is
completed on the way.
-/

namespace NntpPool

namespace Pool

variable {S : Setup} {env : Env} {s s' : State} {l : Label} {c c' : Conn} {effs : List Effect}

/-! ## The lock -/

/-- `failOutstanding` is behind its lock. -/
def Failing.locked : Failing → Bool
  | .lock => false
  | _ => true

def Writer.locked : Writer → Bool
  | .abort f => f.locked
  | .closing f => f.locked
  | _ => false

def Reader.locked : Reader → Bool
  | .retire f => f.locked
  | _ => false

/-- **One goroutine at most holds `failMu`**, and `Run` works on a request
where it has one. -/
structure Conn.Guarded (c : Conn) : Prop where
  lock : c.failMu.toNat = c.writer.locked.toNat + c.reader.locked.toNat
  unsent : c.writer.works = true → c.unsent.isSome = true

theorem Conn.Guarded.writer_unlocked (h : c.Guarded) (hr : c.reader.locked = true) :
    c.writer.locked = false := by
  have hlock := h.lock
  rw [hr] at hlock
  cases hw : c.writer.locked with
  | false => rfl
  | true =>
    have := Bool.toNat_le c.failMu
    simp [hw] at hlock
    omega

/-- The lock is taken and given back. -/
theorem Fails.locked {f : Failing} {f' : Option Failing} (h : Fails S c f c' f' effs)
    (hm : f.locked = true → c.failMu = true) :
    c'.failMu.toNat + f.locked.toNat =
      c.failMu.toNat + (f'.elim false Failing.locked).toNat := by
  cases h with
  | lock h => simp [Failing.locked, h]
  | empty h => simp [Failing.locked, hm rfl]
  | pop h => simp [Failing.locked]
  | release e => simp [Failing.locked, Conn.freeBackground_eq]
  | fail e => simp [Failing.locked]
  | free => simp [Failing.locked, Conn.freeInflight]

theorem Writes.guarded {a : WriterAct} (h : Writes S env c a c' effs) (hc : c.Guarded) :
    c'.Guarded := by
  obtain ⟨hlock, hunsent⟩ := hc
  cases h
  case abort f f' d hw hf | closing f f' d hw hf =>
    have hreader := hf.frame.2.2.1
    simp only [hw, Writer.locked] at hlock
    have hl := hf.locked (by grind)
    cases f' with
    | none =>
      refine ⟨?_, by simp [Writer.after, Writer.works]⟩
      simp only [Writer.after, Writer.locked, hreader, Option.elim_none] at hl ⊢
      omega
    | some f' =>
      refine ⟨?_, by simp [Writer.after, Writer.works]⟩
      simp only [Writer.after, Writer.locked, hreader, Option.elim_some] at hl ⊢
      omega
  case' takeGo b _ _ | postReady b _ _ => cases b
  case' keepaliveAnswer hto => rcases hto with rfl | rfl
  all_goals
    have hw := ‹c.writer = _›
    simp only [hw, Writer.locked, Writer.works] at hlock hunsent
    refine ⟨?_, ?_⟩
    · simp [hlock, hw, Writer.locked, Failing.locked, Conn.freeInflight, Conn.freeBody_eq,
        Conn.freeBackground_eq]
    · simp_all [Writer.works, Conn.freeInflight, Conn.freeBody_eq, Conn.freeBackground_eq]

theorem Reads.guarded {a : ReaderAct} (h : Reads S env c a c' effs) (hc : c.Guarded) :
    c'.Guarded := by
  obtain ⟨-, hw, hu, -⟩ := h.frame
  obtain ⟨hlock, hunsent⟩ := hc
  refine ⟨?_, by rwa [hw, hu]⟩
  rw [hw]
  cases h
  case retire f f' d hr hf =>
    simp only [hr, Reader.locked] at hlock
    have hl := hf.locked (by grind)
    cases f' <;>
      simp only [Reader.after, Reader.locked, Option.elim_none, Option.elim_some] at hl ⊢ <;>
      omega
  case' decide hto => rcases hto with rfl | rfl
  all_goals
    have hr := ‹c.reader = _›
    simp only [hr, Reader.locked] at hlock
    simp [hlock, Reader.locked, Failing.locked, Conn.freeInflight, Conn.freeBody_eq,
      Conn.freeBackground_eq]

theorem Conn.step_guarded {a : ConnAct} (h : c.step S env a = some (c', effs)) (hc : c.Guarded) :
    c'.Guarded := by
  cases a with
  | writer a => exact (writerStep_writes h).guarded hc
  | reader a => exact (readerStep_reads h).guarded hc

theorem newConn_guarded (i first : ℕ) (second : Option ℕ) :
    (newConn i first second).Guarded where
  lock := rfl
  unsent _ := rfl

/-! ## What is left to do -/

def Failing.cost : Failing → ℕ
  | .loop => 1
  | .failed => 2
  | .released _ => 3
  | .popped _ => 4
  | .lock => 5

/-- The steps `Run` takes at most until it has returned, once its context
is done; a request it puts on the queue counts as five. -/
def Writer.cost : Writer → ℕ
  | .dead => 0
  | .closing f => f.cost
  | .exitCancel => 6
  | .exitDeferred => 7
  | .exitUnsent => 8
  | .abort f => 8 + f.cost
  | .firstSlot | .top | .blocked | .wait | .postWait | .keepaliveWait _ | .drain => 9
  | .first | .postCopy => 10
  | .enqueue _ _ | .keepalive _ => 15
  | .flushPost _ _ => 16
  | .write _ _ => 17
  | .background _ _ => 18
  | .body _ => 19
  | .got => 20
  | .chosen _ => 21
  | .normal => 22
  | .take _ => 23
  | .look => 24
  | .flush => 25

def Reader.cost : Reader → ℕ
  | .ended => 0
  | .returned => 1
  | .retire f => 1 + f.cost
  | .wait => 2
  | .top => 7
  | .decide _ _ _ => 8
  | .freeBody _ _ _ => 9
  | .freePending _ _ _ => 10
  | .freeInflight _ _ _ => 11
  | .respond _ _ _ _ => 12
  | .second _ _ _ => 13
  | .fed _ _ _ => 14
  | .feed _ _ => 15
  | .control _ _ => 16
  | .head _ => 17

def Conn.cost (c : Conn) : ℕ := c.writer.cost + c.reader.cost + 5 * c.pending.length

/-- The step is one of the code's own: no operation of the network fails,
and nobody hands a request over. -/
def WriterAct.isOwn : WriterAct → Bool
  | .go | .connDone | .reqDone | .prio | .req | .freed | .idle => true
  | _ => false

/-- `failOutstanding` takes from the front of the queue. -/
theorem Fails.pending_suffix {f : Failing} {f' : Option Failing} (h : Fails S c f c' f' effs) :
    c'.pending <:+ c.pending := by
  cases h with
  | pop hp => simp [hp]
  | release e => simp [Conn.freeBackground_eq]
  | _ => exact List.suffix_refl _

theorem Fails.cost {f : Failing} {f' : Option Failing} (h : Fails S c f c' f' effs) :
    (f'.elim 0 Failing.cost) + 5 * c'.pending.length < f.cost + 5 * c.pending.length := by
  cases h with
  | lock h => simp [Failing.cost]
  | empty h => simp [Failing.cost]
  | pop h => simp [Failing.cost, h]; omega
  | release e => simp [Failing.cost, Conn.freeBackground_eq]
  | fail e => simp [Failing.cost]
  | free => simp [Failing.cost, Conn.freeInflight]

/-- `Run` comes to wait for the answer to a POST behind it. -/
theorem Writes.post {a : WriterAct} (h : Writes S env c a c' effs) (hw' : c'.writer = .postWait) :
    a = .go ∧ ∃ hb hg r, c.writer = .enqueue hb hg ∧ c.unsent = some r ∧
      (S.info r).postMode = true ∧ ⟨r, hb, hg, true⟩ ∈ c'.pending := by
  cases h
  case abort f f' d hw hf | closing f f' d hw hf => cases f' <;> cases hw'
  case enqueuePost r hb hg hw hu hlt hp => exact ⟨rfl, hb, hg, r, hw, hu, hp, by simp⟩
  case takeGo b _ _ | postReady b _ _ => cases b <;> cases hw'
  case keepaliveAnswer hto => rcases hto with rfl | rfl <;> cases hw'
  case drainGo hw _ => cases hw.symm.trans hw'
  all_goals cases hw'

/-- The steps that lead `Run` to its return. -/
def Writer.leaves : Writer → WriterAct → Bool
  | .firstSlot, a => a == .connDone
  | .top, a => a == .connDone
  | .blocked, a => a == .connDone
  | .wait, a => a == .connDone
  | .postWait, a => a == .connDone
  | .keepaliveWait _, a => a == .connDone
  | .drain, a => a == .idle
  | _, a => a.isOwn

/-- Each of them brings it closer. -/
theorem Writes.cost {a : WriterAct} (h : Writes S env c a c' effs)
    (hl : c.writer.leaves a = true) : c'.cost < c.cost := by
  cases h
  case abort f f' d hw hf | closing f f' d hw hf =>
    have hcost := hf.cost
    have hreader := hf.frame.2.2.1
    cases f' <;>
      simp only [Conn.cost, Writer.after, Writer.cost, hw, hreader, Option.elim_none,
        Option.elim_some] at hcost ⊢ <;>
      omega
  case' takeGo b _ _ | postReady b _ _ => cases b
  case' keepaliveAnswer hto => rcases hto with rfl | rfl
  all_goals
    have hw := ‹c.writer = _›
    simp_all [Conn.cost, Writer.leaves, WriterAct.isOwn, Writer.cost, Failing.cost,
      Conn.freeInflight, Conn.freeBody_eq]
  all_goals omega

/-- `failOutstanding` goes on, unless the other goroutine is in it. -/
theorem Conn.isSome_failStep (c : Conn) (f : Failing) (h : f = .lock → c.failMu = false) :
    (c.failStep S f).isSome = true := by
  cases f with
  | lock => simp [Conn.failStep, h rfl]
  | loop =>
    simp only [Conn.failStep]
    split <;> rfl
  | popped e => rfl
  | released e => rfl
  | failed => rfl

/-- `Run` waits for nobody, unless it is for the lock. -/
def Writer.goes : Writer → Bool
  | .firstSlot | .top | .blocked | .wait | .body _ | .enqueue _ _ | .postWait | .keepalive _
  | .keepaliveWait _ | .drain | .dead => false
  | _ => true

/-- **Where `Run` waits for nobody it can go on**, if the reader does not
hold the lock. -/
theorem Conn.exists_goes (S : Setup) (env : Env) (hg : c.Guarded)
    (hfree : c.reader.locked = false) (hgoes : c.writer.goes = true) :
    ∃ a, (a = .go ∨ a = .prio ∨ a = .reqDone) ∧ (c.writerStep S env a).isSome = true := by
  have hlock := hg.lock
  rw [hfree] at hlock
  -- where `Run` works on a request, the request is there
  have hunsent := hg.unsent
  rw [Option.isSome_iff_exists] at hunsent
  cases hw : c.writer with
  | first =>
    obtain ⟨r, hr⟩ := hunsent (by rw [hw]; rfl)
    cases hreq : env.done r with
    | none => exact ⟨.go, by simp, by simp [Conn.writerStep, hw, hr, Conn.atFirst, hreq]⟩
    | some x => exact ⟨.reqDone, by simp, by simp [Conn.writerStep, hw, hr, Conn.atFirst, hreq]⟩
  | got =>
    obtain ⟨r, hr⟩ := hunsent (by rw [hw]; rfl)
    cases hreq : env.done r with
    | none => exact ⟨.go, by simp, by simp [Conn.writerStep, hw, hr, Conn.atGot, hreq]⟩
    | some x => exact ⟨.reqDone, by simp, by simp [Conn.writerStep, hw, hr, Conn.atGot, hreq]⟩
  | background boot hb =>
    obtain ⟨r, hr⟩ := hunsent (by rw [hw]; rfl)
    refine ⟨.go, .inl rfl, ?_⟩
    simp only [Conn.writerStep, hw, hr, Conn.atBackground, Option.bind_some]
    split_ifs <;> rfl
  | write hb hg =>
    obtain ⟨r, hr⟩ := hunsent (by rw [hw]; rfl)
    exact ⟨.go, .inl rfl, by simp [Conn.writerStep, hw, hr, Conn.atWrite]⟩
  | flushPost hb hg =>
    obtain ⟨r, hr⟩ := hunsent (by rw [hw]; rfl)
    exact ⟨.go, .inl rfl, by simp [Conn.writerStep, hw, hr, Conn.atFlushPost]⟩
  | take b =>
    cases hp : env.prioCh with
    | nil => exact ⟨.go, by simp, by simp [Conn.writerStep, hw, Conn.atTake, hp]⟩
    | cons p ps => exact ⟨.prio, by simp, by simp [Conn.writerStep, hw, Conn.atTake, hp]⟩
  | normal =>
    refine ⟨.go, .inl rfl, ?_⟩
    simp only [Conn.writerStep, hw, Conn.atNormal]
    split <;> rfl
  | chosen r =>
    refine ⟨.go, .inl rfl, ?_⟩
    simp only [Conn.writerStep, hw, Conn.atChosen]
    split <;> rfl
  | abort f | closing f =>
    have hf : f = .lock → c.failMu = false := by
      rintro rfl
      simpa [hw, Writer.locked, Failing.locked] using hlock
    exact ⟨.go, .inl rfl, by simp [Conn.writerStep, hw, Conn.writerFails, c.isSome_failStep f hf]⟩
  | firstSlot | top | blocked | wait | body | enqueue | postWait | keepalive | keepaliveWait | drain
  | dead =>
    rw [hw] at hgoes
    cases hgoes
  | _ => exact ⟨.go, .inl rfl, by simp [Conn.writerStep, hw, Conn.atFlush, Conn.atPostCopy]⟩

/-- **`Run` can always go on to its return**, where its context is done
and the reader does not hold the lock. -/
theorem Conn.exists_leaves (hg : c.Guarded) (hb : c.Bounded S)
    (hdone : (c.done env).isSome = true) (hlive : c.writer ≠ .dead)
    (hfree : c.reader.locked = false) :
    ∃ a, c.writer.leaves a = true ∧ (c.writerStep S env a).isSome = true := by
  by_cases hgoes : c.writer.goes = true
  · obtain ⟨a, ha, hs⟩ := Conn.exists_goes S env hg hfree hgoes
    refine ⟨a, ?_, hs⟩
    revert hgoes
    rcases ha with rfl | rfl | rfl <;> cases c.writer <;>
      simp [Writer.goes, Writer.leaves, WriterAct.isOwn]
  have hpending (hw : c.writer.token = 1) : c.pending.length < S.limits.inflight := by
    have := hb.tokens
    have := hb.inflight
    simp only [Conn.tokens] at *
    omega
  obtain ⟨e, hdone⟩ := Option.isSome_iff_exists.mp hdone
  have hunsent := hg.unsent
  rw [Option.isSome_iff_exists] at hunsent
  cases hw : c.writer with
  | dead => exact absurd hw hlive
  | firstSlot =>
    obtain ⟨r, hr⟩ := hunsent (by rw [hw]; rfl)
    exact ⟨.connDone, rfl, by simp [Conn.writerStep, hw, hr, Conn.atFirstSlot, hdone]⟩
  | top => exact ⟨.connDone, rfl, by simp [Conn.writerStep, hw, Conn.atTop, hdone]⟩
  | blocked => exact ⟨.connDone, rfl, by simp [Conn.writerStep, hw, Conn.atBlocked, hdone]⟩
  | wait => exact ⟨.connDone, rfl, by simp [Conn.writerStep, hw, Conn.atWait, hdone]⟩
  | postWait => exact ⟨.connDone, rfl, by simp [Conn.writerStep, hw, Conn.atPostWait, hdone]⟩
  | keepaliveWait r =>
    exact ⟨.connDone, rfl, by simp [Conn.writerStep, hw, Conn.atKeepaliveWait, hdone]⟩
  | drain => exact ⟨.idle, rfl, by simp [Conn.writerStep, hw, Conn.atDrain]⟩
  | body boot =>
    obtain ⟨r, hr⟩ := hunsent (by rw [hw]; rfl)
    cases hc : isCheapCommand (S.info r).payload with
    | true => exact ⟨.go, rfl, by simp [Conn.writerStep, hw, hr, Conn.atBody, hc]⟩
    | false => exact ⟨.connDone, rfl, by simp [Conn.writerStep, hw, hr, Conn.atBody, hc, hdone]⟩
  | enqueue hb hg =>
    obtain ⟨r, hr⟩ := hunsent (by rw [hw]; rfl)
    have hroom := hpending (by rw [hw]; rfl)
    exact ⟨.go, rfl, by simp [Conn.writerStep, hw, hr, Conn.atEnqueue, hroom]⟩
  | keepalive r =>
    have hroom := hpending (by rw [hw]; rfl)
    exact ⟨.go, rfl, by simp [Conn.writerStep, hw, Conn.atKeepalive, hroom]⟩
  | _ => exact absurd (by rw [hw]; rfl) hgoes

/-- Nor does the server fail to answer. -/
def ReaderAct.isOwn : ReaderAct → Bool
  | .go | .connDone => true
  | .finish _ reply => reply.err.isNone
  | .second _ reply => reply.err.isNone
  | _ => false

/-- The steps that lead the reader to its end; what is left of a response
is read. -/
def Reader.leaves : Reader → ReaderAct → Bool
  | .top, a => a == .connDone
  | .wait, a => a == .connDone
  | .feed _ _, .finish _ reply => reply.err.isNone
  | .second _ _ _, .second _ reply => reply.err.isNone
  | _, a => a == .go

theorem Reads.cost {a : ReaderAct} (h : Reads S env c a c' effs)
    (hl : c.reader.leaves a = true) : c'.cost < c.cost := by
  cases h
  case retire f f' d hr hf =>
    have hcost := hf.cost
    have hwriter := hf.frame.2.1
    cases f' <;>
      simp only [Conn.cost, Reader.after, Reader.cost, hr, hwriter, Option.elim_none,
        Option.elim_some] at hcost ⊢ <;>
      omega
  case' decide hto => rcases hto with rfl | rfl
  all_goals
    have hr := ‹c.reader = _›
    simp_all [Conn.cost, Reader.leaves, Reader.cost, Failing.cost, Conn.freeInflight,
      Conn.freeBody_eq, Conn.freeBackground_eq]

/-- **Where the reader has a response to read or to deal with it can go
on**, if `Run` does not hold the lock. -/
theorem Conn.exists_reader_goes (env : Env) (hg : c.Guarded) (hb : c.Bounded S)
    (hfree : c.writer.locked = false)
    (hr : c.reader ≠ .top ∧ c.reader ≠ .wait ∧ c.reader ≠ .ended) :
    ∃ a, c.reader.leaves a = true ∧ (c.readerStep S env a).isSome = true := by
  have hlock := hg.lock
  rw [hfree] at hlock
  obtain ⟨htop, hwait, hended⟩ := hr
  cases hr : c.reader with
  | ended => exact absurd hr hended
  | top => exact absurd hr htop
  | wait => exact absurd hr hwait
  | feed e deliver => exact ⟨.finish false {}, rfl, by simp [Conn.readerStep, hr]⟩
  | second e deliver first => exact ⟨.second false {}, rfl, by simp [Conn.readerStep, hr]⟩
  | freeInflight e reply code =>
    -- the slot that is given back is there
    have hpos : 0 < c.inflightSem := by
      have := hb.tokens
      simp only [Conn.tokens, hr, Reader.token] at this
      omega
    exact ⟨.go, rfl, by simp [Conn.readerStep, hr, hpos]⟩
  | retire f =>
    have hf : f = .lock → c.failMu = false := by
      rintro rfl
      simpa [hr, Reader.locked, Failing.locked] using hlock
    exact ⟨.go, rfl, by simp [Conn.readerStep, hr, c.isSome_failStep f hf]⟩
  | _ => exact ⟨.go, rfl, by simp [Conn.readerStep, hr]⟩

/-- **The reader can always go on to its end**, where the connection's
context is done and `Run` is not in `failOutstanding`. -/
theorem Conn.exists_reader_leaves (hg : c.Guarded) (hb : c.Bounded S)
    (hdone : (c.done env).isSome = true) (hlive : c.reader ≠ .ended)
    (hfree : c.writer.locked = false) :
    ∃ a, c.reader.leaves a = true ∧ (c.readerStep S env a).isSome = true := by
  obtain ⟨e, hdone⟩ := Option.isSome_iff_exists.mp hdone
  by_cases htop : c.reader = .top
  · exact ⟨.connDone, by rw [htop]; rfl, by simp [Conn.readerStep, htop, hdone]⟩
  by_cases hwait : c.reader = .wait
  · exact ⟨.connDone, by rw [hwait]; rfl, by simp [Conn.readerStep, hwait, hdone]⟩
  exact Conn.exists_reader_goes env hg hb hfree ⟨htop, hwait, hlive⟩

def ConnAct.isOwn : ConnAct → Bool
  | .writer a => a.isOwn
  | .reader a => a.isOwn

/-- **A connection whose context is done can go on** until it is over: one
of its goroutines is not held up by the other. -/
theorem Conn.exists_closer (hg : c.Guarded) (hb : c.Bounded S)
    (hdone : (c.done env).isSome = true) (hlive : c.isOver = false) :
    ∃ (a : ConnAct) (c' : Conn) (effs : List Effect), a.isOwn = true ∧
      c.step S env a = some (c', effs) ∧ c'.cost < c.cost := by
  by_cases hw : c.reader.locked = false ∧ c.writer ≠ .dead
  · obtain ⟨a, hl, hsome⟩ := Conn.exists_leaves hg hb hdone hw.2 hw.1
    obtain ⟨⟨c', effs⟩, hs⟩ := Option.isSome_iff_exists.mp hsome
    have hown : a.isOwn = true := by
      revert hl
      cases c.writer <;> simp +contextual [Writer.leaves, WriterAct.isOwn]
    exact ⟨.writer a, c', effs, hown, hs, (writerStep_writes hs).cost hl⟩
  · have hne : c.reader ≠ .ended := by
      intro hr
      have hd : c.writer = .dead := by simpa [hr, Reader.locked] using hw
      simp [Conn.isOver, hd, hr] at hlive
    have hfree : c.writer.locked = false := by
      by_cases hr : c.reader.locked = true
      · exact hg.writer_unlocked hr
      · have hd : c.writer = .dead := by simpa [hr] using hw
        rw [hd]
        rfl
    obtain ⟨a, hl, hsome⟩ := Conn.exists_reader_leaves hg hb hdone hne hfree
    obtain ⟨⟨c', effs⟩, hs⟩ := Option.isSome_iff_exists.mp hsome
    have hown : a.isOwn = true := by
      revert hl
      cases c.reader <;> cases a <;> simp [Reader.leaves, ReaderAct.isOwn]
    exact ⟨.reader a, c', effs, hown, hs, (readerStep_reads hs).cost hl⟩

theorem State.allows_of_isOwn (s : State) {a : ConnAct} (h : a.isOwn = true) :
    s.allows a = true := by
  rcases a with a | a
  · cases a <;> first | rfl | cases h
  · rfl

/-- The step of a connection is one of the pool. -/
theorem State.act_conn {k : ℕ} {a : ConnAct} (hallows : s.allows a = true)
    (hk : s.conns[k]? = some c) (hs : c.step S (s.env S) a = some (c', effs)) :
    s.act S (.conn k a) =
      some (effs.foldl State.apply { s with conns := s.conns.set k c' }, effs) := by
  simp [State.act, hallows, State.connStep, hk, hs]

/-! ## Slots -/

/-- The same for a slot; the connection it makes is part of it. -/
def Slot.cost : Slot → ℕ
  | .returned _ => 0
  | .idle => 1
  | .run _ => 2
  | .gate _ none => 2
  | .picked _ none => 3
  | .took _ => 4
  | .gate _ (some _) => 5
  | .backoff _ => 5
  | .picked _ (some _) => 6
  | .greet _ _ => 20
  | .dial _ _ => 21

/-- What is left to do in the pool, where a request in a channel is one
more to fail. -/
def State.cost (s : State) : ℕ :=
  shares Slot.cost s.slots + shares Conn.cost s.conns + 3 * s.prioCh.length + 4 * s.reqCh.length

/-- The steps that lead a slot to its return. It leaves no request in a
channel, and none in its hands. -/
def Slot.leaves (env : Env) : Slot → SlotAct → Bool
  | .idle, .slotDone => env.prioCh.isEmpty && env.reqCh.isEmpty
  | .backoff _, a => a == .go
  | .gate _ _, a => a == .refuse
  | _, .err _ => false
  | _, _ => true

/-- **A slot can always go on to its return**, where its context is done
and the connection it runs is over. -/
theorem Slot.exists_leaves (env : Env) {i k : ℕ} {dead : ℕ → Bool} {p : Slot}
    (hdone : env.slotDone.isSome = true) (hrun : ∀ j, p = .run j → dead j = true)
    (hlive : p.isReturned = false) :
    ∃ a, p.leaves env a = true ∧ (p.step S env i k dead a).isSome = true := by
  obtain ⟨e, hdone⟩ := Option.isSome_iff_exists.mp hdone
  cases p with
  | idle =>
    cases hp : env.prioCh with
    | cons r rs => exact ⟨.prio, rfl, by simp [Slot.step, hp]⟩
    | nil =>
      cases hr : env.reqCh with
      | cons r rs => exact ⟨.req, rfl, by simp [Slot.step, hr]⟩
      | nil => exact ⟨.slotDone, by simp [Slot.leaves, hp, hr], by simp [Slot.step, hdone]⟩
  | took | picked =>
    refine ⟨.go, rfl, ?_⟩
    simp only [Slot.step]
    split <;> rfl
  | gate f t => exact ⟨.refuse, rfl, by simp [Slot.step, hdone]⟩
  | run j => exact ⟨.go, rfl, by simp [Slot.step, hrun j rfl]⟩
  | returned t => cases hlive
  | _ => exact ⟨.go, rfl, rfl⟩

theorem newConn_cost (i first : ℕ) (second : Option ℕ) : (newConn i first second).cost = 17 := rfl

/-- The step of a slot is one of the pool. -/
theorem State.act_slot {i : ℕ} {p q : Slot} {a : SlotAct} {made : Option Conn}
    (hi : s.slots[i]? = some p)
    (hs : p.step S (s.env S) i s.conns.length s.dead a = some (q, effs, made)) :
    s.act S (.slot i a) = some (effs.foldl State.apply
      { s with slots := s.slots.set i q, conns := s.conns ++ made.toList }, effs) := by
  have hs' : p.step S (s.env S) i s.conns.length
      (fun k => s.conns[k]?.any fun c => c.writer == .dead) a = some (q, effs, made) := hs
  simp [State.act, State.slotStep, hi, hs']

/-- Each of them brings the pool closer. -/
theorem SlotSteps.cost {i : ℕ} {p q : Slot} {a : SlotAct} {made : Option Conn}
    (h : SlotSteps S (s.env S) i s.conns.length s.dead p a q effs made)
    (hp : s.slots[i]? = some p) (hl : p.leaves (s.env S) a = true) :
    (effs.foldl State.apply
      { s with slots := s.slots.set i q, conns := s.conns ++ made.toList }).cost < s.cost := by
  have hset := shares_set (f := Slot.cost) hp q
  cases h
  case idlePrio hch | tookPrio hch =>
    replace hch : s.prioCh = _ := hch
    simp [State.cost, State.apply, hch, Slot.cost] at hset ⊢
    omega
  case idleReq hch =>
    replace hch : s.reqCh = _ := hch
    simp [State.cost, State.apply, hch, Slot.cost] at hset ⊢
    omega
  case pickedDone t _ _ | gateRefuse t _ | backoffGo t | pickedGo t _ =>
    cases t <;> simp [State.cost, State.apply, Slot.cost, Slot.next] at hset ⊢ <;> omega
  case greetGo =>
    simp [State.cost, Slot.cost, newConn_cost] at hset ⊢
    omega
  all_goals
    simp_all [State.cost, Slot.cost, Slot.leaves]
  all_goals omega

/-- No effect puts a request into a channel. -/
theorem foldl_apply_length_le (effs : List Effect) (s : State) :
    (effs.foldl State.apply s).prioCh.length ≤ s.prioCh.length ∧
      (effs.foldl State.apply s).reqCh.length ≤ s.reqCh.length := by
  induction effs generalizing s with
  | nil => exact ⟨Nat.le_refl _, Nat.le_refl _⟩
  | cons x xs ih =>
    have hx : (s.apply x).prioCh.length ≤ s.prioCh.length ∧
        (s.apply x).reqCh.length ≤ s.reqCh.length := by
      cases x <;> simp [State.apply]
    exact ⟨(ih _).1.trans hx.1, (ih _).2.trans hx.2⟩

/-- A connection's step costs what it costs the connection. -/
theorem State.cost_conn {k : ℕ} (hc : s.conns[k]? = some c) (hlt : c'.cost < c.cost)
    (effs : List Effect) :
    (effs.foldl State.apply { s with conns := s.conns.set k c' }).cost < s.cost := by
  have hset := shares_set (f := Conn.cost) hc c'
  have := foldl_apply_length_le effs { s with conns := s.conns.set k c' }
  simp only [State.cost, foldl_apply_slots, foldl_apply_conns] at *
  omega

/-! ## The pool -/

/-- A slot that runs a connection runs one there is. -/
def Placed (s : State) : Prop :=
  ∀ i k : ℕ, s.slots[i]? = some (.run k) → k < s.conns.length

theorem Placed.step (h : Placed s) (hact : Acts S s l s' effs) : Placed s' := by
  have hlen : s.conns.length ≤ s'.conns.length := by
    cases hact <;> simp [State.accepted, State.leave]
  intro i k hi
  cases hact with
  | @slot j _ p q _ _ hp hs =>
    rw [foldl_apply_slots, List.getElem?_set] at hi
    by_cases hji : j = i
    · have hq : q = .run k := by
        simp only [hji, if_true] at hi
        split_ifs at hi
        exact Option.some.inj hi
      cases hs
      case greetGo =>
        cases hq
        simp
      case pickedDone t _ _ | gateRefuse t _ | backoffGo t => cases t <;> cases hq
      all_goals cases hq
    · simp only [hji, if_false] at hi
      exact (h i k hi).trans_le hlen
  | sendHot | conn => exact (h i k (by rwa [foldl_apply_slots] at hi)).trans_le hlen
  | _ => exact (h i k hi).trans_le hlen

/-- A state of the pool that a run leads to. -/
def Reached (S : Setup) (s : State) : Prop :=
  ∃ ls, exec (Pool.step S) (Pool.start S) ls = some s

theorem Reached.step (h : Reached S s) (hs : Pool.step S s l = some s') : Reached S s' := by
  obtain ⟨ls, hrun⟩ := h
  exact ⟨ls ++ [l], exec_concat hrun hs⟩

theorem Reached.guarded (h : Reached S s) : ∀ c ∈ s.conns, c.Guarded := by
  obtain ⟨ls, hrun⟩ := h
  exact conns_invariant newConn_guarded Conn.step_guarded hrun

theorem Reached.bounded (h : Reached S s) : ∀ c ∈ s.conns, c.Bounded S := by
  obtain ⟨ls, hrun⟩ := h
  exact conns_invariant newConn_bounded Conn.step_bounded hrun

/-- The invariants of the pool as a whole. -/
theorem Reached.invariant (h : Reached S s) : Owned S s ∧ Awaited S s ∧ Runs s ∧ Placed s := by
  obtain ⟨ls, hrun⟩ := h
  refine exec_invariant (I := fun s => Owned S s ∧ Awaited S s ∧ Runs s ∧ Placed s)
    (P := fun _ _ => True) ?_ ls ⟨Owned.start S, Awaited.start S, Runs.start S, ?_⟩
    (along_true _ _) hrun
  · rintro s l s' ⟨howned, hawaited, hruns, hplaced⟩ - hstep
    obtain ⟨effs, hact⟩ := step_eq_some.1 hstep
    have hact := act_acts hact
    exact ⟨howned.step hact, hawaited.step howned hact, hruns.step hact, hplaced.step hact⟩
  · intro i k hi
    simp [Pool.start, List.getElem?_replicate] at hi

/-- **The pool has stopped**: every slot has returned, and both goroutines
of every connection have. -/
def State.Stopped (s : State) : Prop := s.AllReturned ∧ ∀ c ∈ s.conns, c.isOver = true

/-- A step of a slot or a connection in which no operation of the network
fails. -/
def Label.isOwn : Label → Bool
  | .slot _ (.err _) => false
  | .slot _ _ => true
  | .conn _ a => a.isOwn
  | _ => false

/-- No call leaves its attempt in it. -/
theorem Acts.waiting_of_isOwn {r : ℕ} (h : Acts S s l s' effs) (hown : l.isOwn = true)
    (ha : s.attempt r = .waiting) : s'.attempt r = .waiting := by
  cases h.turn r with
  | same hin heq => exact heq.trans ha
  | make hin hk hu => simp [ha] at hu
  | start hin hl | receive hin hl | giveUp hin hl => simp [hl, Label.isOwn] at hown
  | send hin he => simp [ha] at he

/-- **What holds on the way to the end**, where the way starts in `s₀`. -/
structure Winding (S : Setup) (s₀ s : State) : Prop where
  reached : Reached S s
  done : s.groupDone.isSome = true
  attempt : ∀ r, s₀.attempt r = .waiting → s.attempt r = .waiting
  /-- No slot returns with a request in its hands. -/
  carried : ∀ p ∈ s.slots, p.isReturned = true → p.held ≠ [] → p ∈ s₀.slots
  /-- And the last one only from empty channels. -/
  channels : s.AllReturned → s₀.AllReturned ∨ s.prioCh = [] ∧ s.reqCh = []

/-- What a step of the pool's own leaves of it. -/
theorem Winding.keep {s₀ : State} (h : Winding S s₀ s) (hs : s.act S l = some (s', effs))
    (hown : l.isOwn = true)
    (hcarried : ∀ p ∈ s'.slots, p.isReturned = true → p.held ≠ [] → p ∈ s.slots)
    (hchannels : s'.AllReturned → s.AllReturned ∨ s.prioCh = [] ∧ s.reqCh = []) :
    Winding S s₀ s' := by
  have hact := act_acts hs
  refine ⟨h.reached.step (step_eq_some.2 ⟨effs, hs⟩), ?_, fun r hr => ?_,
    fun p hp hret hne => h.carried p (hcarried p hp hret hne) hret hne, fun hall => ?_⟩
  · have hdone := h.done
    cases hact <;> simp_all [State.groupDone, Label.isOwn]
  · exact hact.waiting_of_isOwn hown (h.attempt r hr)
  · have hempty : s.prioCh = [] ∧ s.reqCh = [] → s'.prioCh = [] ∧ s'.reqCh = [] := by
      intro he
      cases hact <;> try cases hown
      all_goals exact foldl_apply_channels he
    rcases hchannels hall with hall | he
    · exact (h.channels hall).imp id hempty
    · exact .inr (hempty he)

/-- **A connection that is not over can go on.** -/
theorem Winding.conn {s₀ : State} (h : Winding S s₀ s) (hc : c ∈ s.conns)
    (hlive : c.isOver = false) :
    ∃ l s', l.isOwn = true ∧ Pool.step S s l = some s' ∧ Winding S s₀ s' ∧ s'.cost < s.cost := by
  obtain ⟨k, hk⟩ := List.mem_iff_getElem?.mp hc
  have hdone : (c.done (s.env S)).isSome = true := by
    unfold Conn.done
    split
    · rfl
    · exact h.done
  obtain ⟨a, c', effs, hown, hs, hlt⟩ :=
    Conn.exists_closer (h.reached.guarded c hc) (h.reached.bounded c hc) hdone hlive
  have hact := State.act_conn (s.allows_of_isOwn hown) hk hs
  refine ⟨.conn k a, _, hown, step_eq_some.2 ⟨effs, hact⟩, h.keep hact hown ?_ ?_,
    State.cost_conn hk hlt effs⟩
  · intro p hp _ _
    rwa [foldl_apply_slots] at hp
  · intro hall
    refine .inl fun p hp => hall p ?_
    rwa [foldl_apply_slots]

/-- **A slot that has not returned can go on**, where no connection does. -/
theorem Winding.slot {s₀ : State} (h : Winding S s₀ s) (hconns : ∀ c ∈ s.conns, c.isOver = true)
    {p : Slot} (hp : p ∈ s.slots) (hlive : p.isReturned = false) :
    ∃ l s', l.isOwn = true ∧ Pool.step S s l = some s' ∧ Winding S s₀ s' ∧ s'.cost < s.cost := by
  obtain ⟨i, hi⟩ := List.mem_iff_getElem?.mp hp
  have hrun : ∀ j, p = .run j → s.dead j = true := by
    rintro j rfl
    have hlt := h.reached.invariant.2.2.2 i j hi
    have hover := hconns _ (List.getElem_mem hlt)
    simp only [Conn.isOver, Bool.and_eq_true, beq_iff_eq] at hover
    simp [State.dead, List.getElem?_eq_getElem hlt, hover.1]
  obtain ⟨a, hl, hsome⟩ := Slot.exists_leaves (S := S) (i := i) (k := s.conns.length)
    (s.env S) h.done hrun hlive
  obtain ⟨⟨q, effs, made⟩, hs⟩ := Option.isSome_iff_exists.mp hsome
  have hsteps := slotStep_slotSteps hs
  have hact := State.act_slot hi hs
  have hown : (Label.slot i a).isOwn = true := by
    cases a <;> first | rfl | (cases p <;> cases hl)
  -- it returns with empty hands, from empty channels
  have hq : q.isReturned = true → q.held = [] ∧ s.prioCh = [] ∧ s.reqCh = [] := by
    intro hret
    cases hsteps
    case idleDone => exact ⟨rfl, by simpa [Slot.leaves, State.env] using hl⟩
    case backoffDone => cases hl
    case pickedDone t _ _ | gateRefuse t _ | backoffGo t => cases t <;> cases hret
    all_goals cases hret
  refine ⟨_, _, hown, step_eq_some.2 ⟨effs, hact⟩, h.keep hact hown ?_ ?_, hsteps.cost hi hl⟩
  · intro x hx hret hne
    rw [foldl_apply_slots] at hx
    rcases List.mem_or_eq_of_mem_set hx with hx | rfl
    · exact hx
    · exact absurd (hq hret).1 hne
  · intro hall
    refine .inr (hq (hall q ?_)).2
    rw [foldl_apply_slots]
    exact List.mem_set ((List.getElem?_eq_some_iff.mp hi).1) q

/-- A connection that is over holds no request. -/
theorem Conn.Cleared.count_of_over (h : c.Cleared) (hover : c.isOver = true) (r : ℕ) :
    c.held.count r = 0 ∧ c.left.count r = 0 := by
  simp only [Conn.isOver, Bool.and_eq_true, beq_iff_eq] at hover
  obtain ⟨hw, hr⟩ := hover
  have hd := h.deferred (by rw [hw]; rfl)
  have hp := h.pending hw
  simp [Conn.held, Conn.left, Writer.held, Writer.works, Reader.held, hw, hr, hd, hp]

theorem State.conns_held_eq_zero {r : ℕ}
    (h : ∀ c ∈ s.conns, c.held.count r = 0 ∧ c.left.count r = 0) :
    shares (fun c : Conn => c.held.count r) s.conns = 0 ∧
      shares (fun c : Conn => c.left.count r) s.conns = 0 :=
  ⟨shares_eq_zero.2 fun c hc => (h c hc).1, shares_eq_zero.2 fun c hc => (h c hc).2⟩

/-- **What a stopped pool has left**: a request that was waited for is
completed, or lies where no slot will look. -/
theorem Winding.completed {s₀ : State} {r : ℕ} (h : Winding S s₀ s) (hend : s.Stopped)
    (hr : s₀.attempt r = .waiting) :
    (s.ch r).closed = true ∨ (∃ p ∈ s₀.slots, p.isReturned = true ∧ r ∈ p.held) ∨
      s₀.AllReturned ∧ (r ∈ s.prioCh ∨ r ∈ s.reqCh) := by
  cases hopen : (s.ch r).closed with
  | true => exact .inl rfl
  | false =>
    right
    obtain ⟨ls, hrun⟩ := h.reached
    have hcleared := cleared_run hrun
    obtain ⟨-, hawaited, -⟩ := h.reached.invariant
    have hone := hawaited.waits r (h.attempt r hr) hopen
    obtain ⟨hheld, hleft⟩ := State.conns_held_eq_zero fun c hc =>
      (hcleared c hc).count_of_over (hend.2 c hc) r
    simp only [State.held, State.left, hheld, hleft] at hone
    by_cases hslots : ∃ p ∈ s.slots, r ∈ p.held
    · obtain ⟨p, hp, hrp⟩ := hslots
      exact .inl ⟨p, h.carried p hp (hend.1 p hp) (List.ne_nil_of_mem hrp), hend.1 p hp, hrp⟩
    · have hzero : shares (fun p : Slot => p.held.count r) s.slots = 0 :=
        shares_eq_zero.2 fun p hp =>
          List.count_eq_zero_of_not_mem fun hrp => hslots ⟨p, hp, hrp⟩
      rcases h.channels hend.1 with hall | ⟨hprio, hreq⟩
      · refine .inr ⟨hall, ?_⟩
        by_contra hno
        push Not at hno
        rw [hzero, List.count_eq_zero_of_not_mem hno.1, List.count_eq_zero_of_not_mem hno.2] at hone
        omega
      · rw [hzero, hprio, hreq] at hone
        simp at hone

end Pool

end NntpPool
