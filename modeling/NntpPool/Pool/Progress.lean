import NntpPool.Pool.Shutdown
import NntpPool.Pool.Deferred
/-!
# Pool — no request is stuck

`Run` waits in many places: for a place in flight, for a slot of a body,
behind a STAT that is deferred, for 340, for the answer to a keepalive. In
each of them somebody has to bring what it waits for, and it is the reader
in the end. `Conn.Tended` and `Probed` say so: as long as a connection is
in service no slot is taken that nobody holds, a token is there or will
be, and an answer is there or is still to be read.

So a connection whose reader has read everything lets `Run` go on
(`Conn.exists_continues`), a connection that is not over is at rest or
goes on (`Conn.exists_progress`), and a pool with a request in it does.
What it then does is counted down (`State.load`): a provider that is not
removed can always complete what its callers wait for.
-/

namespace NntpPool

namespace Pool

variable {S : Setup} {env : Env} {s s' : State} {l : Label} {c c' : Conn} {effs : List Effect}

/-! ## A connection in service -/

/-- `Run` serves requests: it is not on its way out. -/
def Writer.serves : Writer → Bool
  | .drain | .abort _ | .exitUnsent | .exitDeferred | .exitCancel | .closing _ | .dead => false
  | _ => true

def Reader.serves : Reader → Bool
  | .retire _ | .returned | .ended => false
  | _ => true

/-- The request whose first line the reader has not told `Run` of. -/
def Reader.early : Reader → List Entry
  | .head e => [e]
  | .control e _ => [e]
  | .feed e _ => [e]
  | .fed e _ _ => [e]
  | _ => []

/-- **What holds of a connection in service**: no slot is taken that
nobody holds, and where `Run` waits for something there is somebody to
bring it. -/
structure Conn.Tended (S : Setup) (c : Conn) : Prop where
  inflight : c.writer.serves = true → c.inflightSem = c.tokens
  body : c.writer.serves = true → c.reader.serves = true → c.bodySem = c.bodies
  ended : c.reader = .ended → c.cancelled = true
  closing : c.writer.isClosing = true → c.writer = .exitCancel ∨ c.cancelled = true
  woken : Tokens.Waits c.writer →
    c.backgroundStatSem = S.limits.background ∨ c.backgroundStatFreed = true
  post : c.writer = .postWait → c.reader.serves = true → c.postReady.isSome = true ∨
    ∃ e ∈ c.pending ++ c.reader.early, (S.info e.req).postMode = true

/-- `failOutstanding` gives back what it has taken. -/
theorem Fails.exact {f : Failing} {f' : Option Failing} (h : Fails S c f c' f' effs)
    (hpos : f.token ≤ c.inflightSem) :
    c'.pending.length + f'.elim 0 Failing.token + c.inflightSem =
      c.pending.length + f.token + c'.inflightSem := by
  cases h with
  | lock h => simp [Failing.token]
  | empty h => simp [Failing.token]
  | pop h => simp [Failing.token, h, Nat.add_assoc]
  | release e => simp [Failing.token, Conn.freeBackground_eq]
  | fail e => simp [Failing.token]
  | free =>
    simp [Failing.token, Conn.freeInflight] at hpos ⊢
    omega

theorem Fails.cancelled_eq {f : Failing} {f' : Option Failing} (h : Fails S c f c' f' effs) :
    c'.cancelled = c.cancelled := by
  cases h <;> simp [Conn.freeInflight, Conn.freeBackground_eq]

theorem Writes.inflight_eq {a : WriterAct} (h : Writes S env c a c' effs)
    (hc : c.writer.serves = true → c.inflightSem = c.tokens)
    (hs : c'.writer.serves = true) : c'.inflightSem = c'.tokens := by
  cases h
  case abort f f' d hw hf | closing f f' d hw hf => cases f' <;> cases hs
  case' takeGo b _ _ | postReady b _ _ => cases b
  case' keepaliveAnswer hto => rcases hto with rfl | rfl
  all_goals
    have hw := ‹c.writer = _›
    first
      | cases hs; done
      | simp only [hw, Writer.serves, Conn.tokens, Writer.token, forall_const] at hc
        simp only [Conn.tokens, Writer.token, Conn.freeInflight, Conn.freeBody_eq,
          List.length_append, List.length_singleton, Bool.false_eq_true, if_true, if_false]
        omega
      | simp [hw, Writer.serves] at hs

/-- The reader gives back the slot of each request it is done with. -/
theorem Reads.inflight {a : ReaderAct} (h : Reads S env c a c' effs)
    (hc : c.tokens ≤ c.inflightSem) : c'.tokens + c.inflightSem = c.tokens + c'.inflightSem := by
  cases h
  case retire f f' d hr hf =>
    simp only [Conn.tokens, hr, Reader.token] at hc
    have hexact := hf.exact (by omega)
    have hwriter := hf.frame.2.1
    cases f' <;>
      simp only [Conn.tokens, hr, Reader.after, Reader.token, hwriter, Option.elim_none,
        Option.elim_some] at hexact ⊢ <;>
      omega
  case' decide hto => rcases hto with rfl | rfl
  all_goals
    have hr := ‹c.reader = _›
    simp only [Conn.tokens, hr, Reader.token] at hc
    simp_all [Conn.tokens, Reader.token, Failing.token, Conn.freeInflight, Conn.freeBody_eq,
      Conn.freeBackground_eq]
  all_goals omega

theorem Writes.bodies_eq {a : WriterAct} (h : Writes S env c a c' effs)
    (hc : c.writer.serves = true → c.bodySem = c.bodies)
    (hs : c'.writer.serves = true) : c'.bodySem = c'.bodies := by
  cases h
  case abort f f' d hw hf | closing f f' d hw hf => cases f' <;> cases hs
  case' takeGo b _ _ | postReady b _ _ => cases b
  case' keepaliveAnswer hto => rcases hto with rfl | rfl
  all_goals
    have hw := ‹c.writer = _›
    first
      | cases hs; done
      | simp only [hw, Writer.serves, forall_const] at hc
        simp_all [Conn.bodies, Conn.slips, Writer.slips, Conn.freeInflight, Conn.freeBody_eq]
        done
      | simp only [hw, Writer.serves, forall_const] at hc
        simp_all [Conn.bodies, Conn.slips, Writer.slips]
        omega
      | simp [hw, Writer.serves] at hs

theorem Reads.bodies_eq {a : ReaderAct} (h : Reads S env c a c' effs)
    (hc : c.bodySem = c.bodies) (hs : c'.reader.serves = true) : c'.bodySem = c'.bodies := by
  cases h
  case retire f f' d hr hf => cases f' <;> cases hs
  case' decide hto => rcases hto with rfl | rfl
  all_goals
    have hr := ‹c.reader = _›
    simp_all [Conn.bodies, Conn.slips, Reader.slips, Entry.fade, Conn.freeInflight,
      Conn.freeBody_eq, Conn.freeBackground_eq, Reader.serves]
  all_goals omega

theorem Writes.woken {a : WriterAct} (h : Writes S env c a c' effs)
    (hc : Tokens.Waits c.writer →
      c.backgroundStatSem = S.limits.background ∨ c.backgroundStatFreed = true)
    (hwaits : Tokens.Waits c'.writer) :
    c'.backgroundStatSem = S.limits.background ∨ c'.backgroundStatFreed = true := by
  obtain ⟨-, hfull | ⟨hwaits₀, hsem, hfreed⟩⟩ := Tokens.writes_waits h hwaits
  · exact .inl hfull
  · rw [hsem, hfreed]
    exact hc hwaits₀

theorem Reads.woken {a : ReaderAct} (h : Reads S env c a c' effs)
    (hc : c.backgroundStatSem = S.limits.background ∨ c.backgroundStatFreed = true) :
    c'.backgroundStatSem = S.limits.background ∨ c'.backgroundStatFreed = true := by
  have hfrees := Tokens.Frees.reads h
  cases hfreed : Tokens.releases effs with
  | true => exact .inr (hfrees.posts hfreed)
  | false =>
    obtain ⟨hsem, htoken⟩ := hfrees.keeps hfreed
    rwa [hsem, htoken]

/-- The reader tells it. -/
theorem Reads.post {a : ReaderAct} (h : Reads S env c a c' effs) (hs : c'.reader.serves = true)
    (hc : c.postReady.isSome = true ∨
      ∃ e ∈ c.pending ++ c.reader.early, (S.info e.req).postMode = true) :
    c'.postReady.isSome = true ∨
      ∃ e ∈ c'.pending ++ c'.reader.early, (S.info e.req).postMode = true := by
  cases h
  case retire f f' d hr hf => cases f' <;> cases hs
  case fedPost | fedRejected => exact .inl rfl
  case waitGo hr hp =>
    simp only [hr, hp, Reader.early, List.append_nil, List.mem_cons] at hc
    simpa [Reader.early, or_comm] using hc
  case' decide hto => rcases hto with rfl | rfl
  all_goals
    have hr := ‹c.reader = _›
    simp_all [Reader.early, Conn.freeInflight, Conn.freeBody_eq, Conn.freeBackground_eq]

theorem Writes.cancelled {a : WriterAct} (h : Writes S env c a c' effs)
    (hc : c.cancelled = true) : c'.cancelled = true := by
  cases h
  case abort hf | closing hf => exact hf.cancelled_eq.trans hc
  all_goals simp [hc, Conn.freeInflight, Conn.freeBody_eq, Conn.freeBackground_eq]

theorem Reads.cancelled {a : ReaderAct} (h : Reads S env c a c' effs)
    (hc : c.cancelled = true) : c'.cancelled = true := by
  cases h
  case retire hf => exact hf.cancelled_eq.trans hc
  all_goals simp [hc, Conn.freeInflight, Conn.freeBody_eq, Conn.freeBackground_eq]

theorem Writes.closing_cancelled {a : WriterAct} (h : Writes S env c a c' effs)
    (hc : c.writer.isClosing = true → c.writer = .exitCancel ∨ c.cancelled = true)
    (hw' : c'.writer.isClosing = true) : c'.writer = .exitCancel ∨ c'.cancelled = true := by
  cases h
  case closing f f' d hw hf =>
    have hcan := (hc (by rw [hw]; rfl)).resolve_left (by simp [hw])
    exact .inr (hf.cancelled_eq.trans hcan)
  case abort f f' d hw hf => cases f' <;> cases hw'
  case exitDeferred => exact .inl rfl
  case exitCancel => exact .inr rfl
  case takeGo b _ _ | postReady b _ _ => cases b <;> cases hw'
  case keepaliveAnswer hto => rcases hto with rfl | rfl <;> cases hw'
  case drainGo hw _ => simp [hw, Writer.isClosing] at hw'
  all_goals cases hw'

theorem Writes.tended {a : WriterAct} (h : Writes S env c a c' effs) (hc : c.Tended S) :
    c'.Tended S := by
  obtain ⟨-, hr⟩ := h.frame
  refine ⟨h.inflight_eq hc.inflight, fun hw' hr' => ?_, fun he => ?_,
    h.closing_cancelled hc.closing, h.woken hc.woken, fun hw' hr' => ?_⟩
  · exact h.bodies_eq (fun hw => hc.body hw (hr ▸ hr')) hw'
  · exact h.cancelled (hc.ended (hr ▸ he))
  · obtain ⟨-, hb, hg, r, -, -, hp, he⟩ := h.post hw'
    exact .inr ⟨⟨r, hb, hg, true⟩, List.mem_append_left _ he, hp⟩

/-- A reader that is on its way out does not come back. -/
theorem Reads.serves {a : ReaderAct} (h : Reads S env c a c' effs) (hs : c'.reader.serves = true) :
    c.reader.serves = true := by
  cases h
  case retire f f' d hr hf => cases f' <;> cases hs
  case returned => cases hs
  all_goals
    rw [‹c.reader = _›]
    rfl

theorem Reads.tended {a : ReaderAct} (h : Reads S env c a c' effs) (hc : c.Tended S) :
    c'.Tended S := by
  obtain ⟨-, hw, -⟩ := h.frame
  refine ⟨fun hs => ?_, fun hw' hr' => ?_, fun he => ?_, fun hcl => ?_,
    fun hwaits => h.woken (hc.woken (hw ▸ hwaits)), fun hw' hr' => ?_⟩
  · have hall := hc.inflight (hw ▸ hs)
    have := h.inflight hall.ge
    omega
  · exact h.bodies_eq (hc.body (hw ▸ hw') (h.serves hr')) hr'
  · cases h
    case retire f f' d hr hf => cases f' <;> cases he
    case decide hto => rcases hto with rfl | rfl <;> cases he
    case returned => rfl
    all_goals cases he
  · rw [hw] at hcl ⊢
    exact (hc.closing hcl).imp id h.cancelled
  · exact h.post hr' (hc.post (hw ▸ hw') (h.serves hr'))

theorem Conn.step_tended {a : ConnAct} (h : c.step S env a = some (c', effs)) (hc : c.Tended S) :
    c'.Tended S := by
  cases a with
  | writer a => exact (writerStep_writes h).tended hc
  | reader a => exact (readerStep_reads h).tended hc

theorem newConn_tended (i first : ℕ) (second : Option ℕ) : (newConn i first second).Tended S where
  inflight _ := rfl
  body _ _ := rfl
  ended h := by cases h
  closing h := by cases h
  woken h := by simp [Tokens.Waits, newConn] at h
  post h := by cases h

/-! ## Keepalives -/

/-- The reader is to deliver the response it reads. -/
def Reader.delivers : Reader → Bool
  | .control _ deliver => deliver
  | .feed _ deliver => deliver
  | .fed _ deliver _ => deliver
  | .second _ deliver _ => deliver
  | .respond _ deliver _ _ => deliver
  | _ => true

/-- **Where `Run` waits for the answer to a keepalive, it is there or will
be**, and it will be delivered. -/
structure Probed (S : Setup) (s : State) : Prop where
  keepalive : ∀ c ∈ s.conns, ∀ r, c.writer = .keepaliveWait r → (S.info r).keepalive = true
  delivers : ∀ c ∈ s.conns, ∀ r ∈ c.reader.held, (S.info r).keepalive = true →
    c.reader.delivers = true
  answer : ∀ c ∈ s.conns, ∀ r, c.writer = .keepaliveWait r → c.reader.serves = true →
    (s.ch r).buf.isSome = true ∨ r ∈ c.kept

/-- A reader in service keeps a request until it answers it. -/
theorem Reads.keeps {a : ReaderAct} {r : ℕ} (h : Reads S env c a c' effs)
    (hs : c'.reader.serves = true) (hr : r ∈ c.kept) :
    r ∈ c'.kept ∨ r ∈ c.reader.held ∧ ∃ reply, effs = [.answer r c.reader.delivers reply] := by
  cases h
  case retire f f' d hr hf => cases f' <;> cases hs
  case respond e deliver reply code hrd =>
    simp only [Conn.kept, hrd, Reader.held, List.mem_append, List.mem_singleton] at hr
    rcases hr with hr | rfl
    · exact .inl (by simp [Conn.kept, hr])
    · exact .inr ⟨by simp [hrd, Reader.held], reply, by rw [hrd]; rfl⟩
  case waitGo e rest hrd hp =>
    simp only [Conn.kept, hrd, hp, Reader.held] at hr
    exact .inl (by simpa [Conn.kept, Reader.held, or_comm] using hr)
  case' decide hto => rcases hto with rfl | rfl
  all_goals
    have hrd := ‹c.reader = _›
    simp only [Conn.kept, hrd, Reader.held] at hr
    left
    simpa [Conn.kept, Reader.held, Conn.freeInflight, Conn.freeBody_eq, Conn.freeBackground_eq,
      Failing.held] using hr

/-- Nobody gives up on a request that is never done. -/
theorem Reads.delivers {a : ReaderAct} {r : ℕ} (h : Reads S env c a c' effs)
    (hdone : env.done r = none) (hc : r ∈ c.reader.held → c.reader.delivers = true)
    (hr : r ∈ c'.reader.held) : c'.reader.delivers = true := by
  cases h
  case retire f f' d hrd hf => cases f' <;> rfl
  case' decide hto => rcases hto with rfl | rfl
  all_goals
    have hrd := ‹c.reader = _›
    simp_all [Reader.held, Reader.delivers]

/-- `Run` comes to wait behind a keepalive it has put on the queue. -/
theorem Writes.keepaliveWait {a : WriterAct} {r : ℕ} (h : Writes S env c a c' effs)
    (hw' : c'.writer = .keepaliveWait r) : c.writer = .keepalive r ∧ r ∈ c'.kept := by
  cases h
  case keepaliveGo n hw hlt =>
    obtain rfl : n = r := by simpa using hw'
    exact ⟨hw, by simp [Conn.kept]⟩
  case abort f f' d hw hf | closing f f' d hw hf => cases f' <;> cases hw'
  case takeGo b _ _ | postReady b _ _ => cases b <;> cases hw'
  case keepaliveAnswer hto => rcases hto with rfl | rfl <;> cases hw'
  case drainGo hw _ => cases hw.symm.trans hw'
  all_goals cases hw'

/-- What came stays until it is received. -/
theorem Acts.buf_kept {r : ℕ} (h : Acts S s l s' effs) (ha : s.attempt r ≠ .waiting)
    (hb : (s.ch r).buf.isSome = true) : (s'.ch r).buf.isSome = true := by
  by_cases hr : r ∈ endedBy effs
  · rcases h.ch_of_mem hr with ⟨who, e, -, heq⟩ | ⟨deliver, reply, -, heq⟩
    · rw [heq]
      simp only [failRequest, RespCh.put]
      split_ifs <;> simp [hb]
    · rw [heq]
      simp only [RespCh.answer, RespCh.put]
      split_ifs <;> simp [hb]
  · cases h with
    | sendHot | slot | conn => rwa [foldl_apply_ch_of_notMem _ hr]
    | @receive n hn =>
      have hne : r ≠ n := fun heq => ha (heq ▸ hn)
      simpa [Function.update_of_ne hne] using hb
    | _ => exact hb

theorem Probed.step (h : Probed S s) (hawaited : Awaited S s) (hact : Acts S s l s' effs) :
    Probed S s' := by
  have hbuf {r : ℕ} (hk : (S.info r).keepalive = true) (hb : (s.ch r).buf.isSome = true) :
      (s'.ch r).buf.isSome = true := by
    refine hact.buf_kept (fun ha => ?_) hb
    rw [hawaited.called r (.inr ha)] at hk
    cases hk
  refine ⟨fun c' hc' r hw' => ?_, fun c' hc' r hr hk => ?_, fun c' hc' r hw' hs => ?_⟩ <;>
    obtain ⟨k, hk'⟩ := List.mem_iff_getElem?.mp hc'
  · cases hact.origin hk' with
    | old hc => exact h.keepalive c' (List.mem_of_getElem? hc) r hw'
    | @stepped _ a c hc hl _ _ hs =>
      have hmem := List.mem_of_getElem? hc
      cases a with
      | writer a => exact hawaited.keepalive c hmem r ((writerStep_writes hs).keepaliveWait hw').1
      | reader a => exact h.keepalive c hmem r ((readerStep_reads hs).frame.2.1 ▸ hw')
    | new hnew =>
      subst hnew
      cases hw'
  · cases hact.origin hk' with
    | old hc => exact h.delivers c' (List.mem_of_getElem? hc) r hr hk
    | @stepped env a c hc hl _ _ hs =>
      have hmem := List.mem_of_getElem? hc
      cases a with
      | writer a =>
        rw [(writerStep_writes hs).frame.2] at hr ⊢
        exact h.delivers c hmem r hr hk
      | reader a =>
        rcases hl with ⟨-, rfl⟩ | ⟨n, -, hn | hn⟩
        · refine (readerStep_reads hs).delivers ?_ (fun hr => h.delivers c hmem r hr hk) hr
          simp [State.env, State.done, hk]
        · cases hn
        · cases hn
    | new hnew =>
      subst hnew
      rfl
  · cases hact.origin hk' with
    | old hc =>
      have hmem := List.mem_of_getElem? hc
      exact (h.answer c' hmem r hw' hs).imp (hbuf (h.keepalive c' hmem r hw')) id
    | @stepped env a c hc hl _ _ hstep =>
      have hmem := List.mem_of_getElem? hc
      cases a with
      | writer a => exact .inr ((writerStep_writes hstep).keepaliveWait hw').2
      | reader a =>
        have hreads := readerStep_reads hstep
        have hw : c.writer = .keepaliveWait r := hreads.frame.2.1 ▸ hw'
        have hk := h.keepalive c hmem r hw
        rcases h.answer c hmem r hw (hreads.serves hs) with hb | hkept
        · exact .inl (hbuf hk hb)
        · rcases hreads.keeps hs hkept with hkept' | ⟨hheld, reply, heffs⟩
          · exact .inr hkept'
          -- it is answered, and the answer is delivered
          · left
            rw [h.delivers c hmem r hheld hk] at heffs
            rcases hact.ch_of_mem (r := r) (by simp [heffs, endedBy, Effect.ended]) with
              ⟨who, e, hmem, -⟩ | ⟨deliver, reply', hmem, heq⟩
            · simp [heffs] at hmem
            · simp only [heffs, List.mem_singleton, Effect.answer.injEq, true_and] at hmem
              rw [heq, hmem.1]
              simp only [RespCh.answer, RespCh.put, if_true]
              split_ifs <;> simp_all [Option.isSome_iff_ne_none]
    | new hnew =>
      subst hnew
      cases hw'

theorem Probed.start (S : Setup) : Probed S (Pool.start S) where
  keepalive c hc := by simp [Pool.start] at hc
  delivers c hc := by simp [Pool.start] at hc
  answer c hc := by simp [Pool.start] at hc

/-! ## What is left to do -/

/-- The steps `Run` has left, where it serves until it waits; a request it
puts on the queue counts as twenty. -/
def Writer.load : Writer → ℕ
  | .dead | .closing _ => 0
  | .exitCancel => 1
  | .exitDeferred => 2
  | .exitUnsent => 3
  | .abort f => 3 + f.cost
  | .drain => 4
  | .wait => 10
  | .normal => 11
  | .blocked => 12
  | .take _ => 13
  | .look => 14
  | .flush => 15
  | .top => 16
  | .postCopy | .keepaliveWait _ => 17
  | .postWait => 18
  | .keepalive _ => 38
  | .enqueue _ _ => 39
  | .flushPost _ _ => 40
  | .write _ _ => 41
  | .background _ _ => 42
  | .body _ => 43
  | .got | .firstSlot => 44
  | .first | .chosen _ => 45

def Reader.load : Reader → ℕ
  | .ended => 0
  | .returned => 1
  | .retire f => 1 + f.cost
  | .wait => 7
  | .top => 8
  | .decide _ _ _ => 9
  | .freeBody _ _ _ => 10
  | .freePending _ _ _ => 11
  | .freeInflight _ _ _ => 12
  | .respond _ _ _ _ => 13
  | .second _ _ _ => 14
  | .fed _ _ _ => 15
  | .feed _ _ => 16
  | .control _ _ => 17
  | .head _ => 18

/-- What a connection has left to do; once its context is cancelled, it
has to come to its end. -/
def Conn.load (c : Conn) : ℕ :=
  if c.cancelled then c.cost
  else 60 + c.writer.load + c.reader.load + 20 * c.pending.length +
    40 * c.deferredNormal.toList.length

theorem Writer.cost_le (w : Writer) : w.cost ≤ 25 := by
  cases w with
  | abort f | closing f => cases f <;> simp [Writer.cost, Failing.cost]
  | _ => simp [Writer.cost]

theorem Reader.cost_le (r : Reader) : r.cost ≤ 17 := by
  cases r with
  | retire f => cases f <;> simp [Reader.cost, Failing.cost]
  | _ => simp [Reader.cost]

/-- `Run` goes on with what it does. -/
def Writer.continues : Writer → WriterAct → Bool
  | .drain, a => a == .idle
  | _, .go | _, .prio | _, .req | _, .freed | _, .reqDone => true
  | _, _ => false

/-- A request is taken out of a channel. -/
def Takes (env : Env) (effs : List Effect) : Prop :=
  effs = [.takePrio] ∧ env.prioCh ≠ [] ∨ effs = [.takeReq] ∧ env.reqCh ≠ []

/-- Each step of `Run` brings it closer to the wait, unless it takes the
next request. -/
theorem Writes.load {a : WriterAct} (h : Writes S env c a c' effs)
    (hl : c.writer.continues a = true) (hc : c.Tended S) (hopen : c.cancelled = false)
    (hroom : ∀ boot hb, c.writer = .background boot hb →
      c.backgroundStatSem < S.limits.background) :
    c'.load < c.load ∨ Takes env effs ∧ c'.load < c.load + 130 := by
  cases h
  case abort f f' d hw hf =>
    have hcost := hf.cost
    have hlen := hf.pending_suffix.length_le
    have hcan := hf.cancelled_eq.trans hopen
    obtain ⟨-, -, hreader, -, hdef⟩ := hf.frame
    left
    cases f' <;>
      simp only [Conn.load, hopen, hcan, Writer.after, Writer.load, hw, hreader, hdef,
        Option.elim_none, Option.elim_some, Bool.false_eq_true, if_false] at hcost ⊢ <;>
      omega
  case closing f f' d hw hf => simpa [hw, hopen] using hc.closing (by rw [hw]; rfl)
  case exitCancel hw =>
    left
    have hr := c.reader.cost_le
    simp only [Conn.load, Conn.cost, hopen, Writer.cost, Failing.cost, if_true, if_false,
      Bool.false_eq_true]
    omega
  case backgroundFullFirst hw _ _ hfull | backgroundFull hw _ _ hfull =>
    exact absurd (hroom _ _ hw) hfull
  case takePrio hw hp | blockedPrio hw hp | waitPrio hw hp | chosenPrio hw hp =>
    right
    refine ⟨.inl ⟨rfl, by simp [hp]⟩, ?_⟩
    simp [Conn.load, hopen, hw, Writer.load]
    omega
  case normalReq hw _ hr | waitReq hw hr =>
    right
    refine ⟨.inr ⟨rfl, by simp [hr]⟩, ?_⟩
    simp [Conn.load, hopen, hw, Writer.load]
    omega
  case' takeGo b _ _ | postReady b _ _ => cases b
  case' keepaliveAnswer hto => rcases hto with rfl | rfl
  all_goals
    have hw := ‹c.writer = _›
    left
    simp_all [Conn.load, Writer.continues, Writer.load, Failing.cost, Conn.freeInflight]
  all_goals omega

/-- The reader goes on with what it does, and the server answers. -/
def Reader.continues : Reader → ReaderAct → Bool
  | .feed _ _, .finish _ reply => reply.err.isNone
  | .second _ _ _, .second _ reply => reply.err.isNone
  | _, a => a == .go

theorem Reads.load {a : ReaderAct} (h : Reads S env c a c' effs)
    (hl : c.reader.continues a = true) (hopen : c.cancelled = false) : c'.load < c.load := by
  cases h
  case retire f f' d hr hf =>
    have hcost := hf.cost
    have hlen := hf.pending_suffix.length_le
    have hcan := hf.cancelled_eq.trans hopen
    obtain ⟨-, hwriter, -, -, hdef⟩ := hf.frame
    cases f' <;>
      simp only [Conn.load, hopen, hcan, Reader.after, Reader.load, hr, hwriter, hdef,
        Option.elim_none, Option.elim_some, Bool.false_eq_true, if_false] at hcost ⊢ <;>
      omega
  case returned hr =>
    have hw := c.writer.cost_le
    simp only [Conn.load, Conn.cost, hopen, Reader.cost, if_true, if_false, Bool.false_eq_true]
    omega
  case' decide hto => rcases hto with rfl | rfl
  all_goals
    have hr := ‹c.reader = _›
    simp_all [Conn.load, Reader.continues, Reader.load, Failing.cost, Conn.freeInflight,
      Conn.freeBody_eq, Conn.freeBackground_eq]
  all_goals omega

/-! ## Somebody can go on -/

/-- `readerLoop` waits, and there is nothing to wait for. -/
def Conn.drained (c : Conn) : Prop := c.reader = .wait ∧ c.pending = []

/-- **`Run` can go on with what it does**, where it is on its way out or
the reader has nothing more to read, unless it waits for a request. -/
theorem Conn.exists_continues (hg : c.Guarded) (hb : c.Bounded S) (ht : c.Tended S)
    (hopen : c.cancelled = false)
    (hlimits : 0 < S.limits.inflight ∧ 0 < S.limits.body ∧ 0 < S.limits.background)
    (hreader : c.writer.serves = false ∧ c.reader.locked = false ∨ c.drained)
    (hreply : ∀ r, c.writer = .keepaliveWait r → c.drained → (env.reply r).isSome = true)
    (hwait : c.writer = .wait → env.prioCh ≠ [] ∨ env.reqCh ≠ []) :
    ∃ a, c.writer.continues a = true ∧ (c.writerStep S env a).isSome = true := by
  have hlocked : c.reader.locked = false := by
    rcases hreader with ⟨-, hl⟩ | ⟨hr, -⟩
    · exact hl
    · rw [hr]
      rfl
  have hclosing : c.writer.isClosing = true → c.writer = .exitCancel := by
    intro hcl
    exact (ht.closing hcl).resolve_right (by simp [hopen])
  by_cases hgoes : c.writer.goes = true
  · obtain ⟨a, ha, hs⟩ := Conn.exists_goes S env hg hlocked hgoes
    refine ⟨a, ?_, hs⟩
    revert hgoes
    rcases ha with rfl | rfl | rfl <;> cases c.writer <;> simp [Writer.goes, Writer.continues]
  have hunsent := hg.unsent
  rw [Option.isSome_iff_exists] at hunsent
  have hdrained (hs : c.writer.serves = true) : c.drained := by
    rcases hreader with ⟨hs', -⟩ | hd
    · rw [hs] at hs'
      cases hs'
    · exact hd
  obtain ⟨hinflight, hbody, hback⟩ := hlimits
  have hempty (hs : c.writer.serves = true) : c.inflightSem = c.writer.token := by
    obtain ⟨hr, hp⟩ := hdrained hs
    simp [ht.inflight hs, Conn.tokens, hr, hp, Reader.token]
  cases hw : c.writer with
  | dead => simpa [hw] using hclosing (by rw [hw]; rfl)
  | drain => exact ⟨.idle, rfl, by simp [Conn.writerStep, hw, Conn.atDrain]⟩
  | firstSlot =>
    obtain ⟨r, hr⟩ := hunsent (by rw [hw]; rfl)
    have hsem : c.inflightSem = 0 := (hempty (by rw [hw]; rfl)).trans (by rw [hw]; rfl)
    exact ⟨.go, rfl, by simp [Conn.writerStep, hw, hr, Conn.atFirstSlot, hsem, hinflight]⟩
  | top =>
    have hsem : c.inflightSem = 0 := (hempty (by rw [hw]; rfl)).trans (by rw [hw]; rfl)
    exact ⟨.go, rfl, by simp [Conn.writerStep, hw, Conn.atTop, hsem, hinflight]⟩
  | blocked =>
    -- nobody holds a slot of the window, so one was given back
    obtain ⟨hr, hp⟩ := hdrained (by rw [hw]; rfl)
    have hsem : c.backgroundStatSem = 0 := by
      rw [← hb.backgrounds]
      simp [Conn.backgrounds, Conn.slips, hw, hr, hp, Writer.slips, Reader.slips]
    have hfreed : c.backgroundStatFreed = true := by
      refine (ht.woken (.inr hw)).resolve_left ?_
      omega
    exact ⟨.freed, rfl, by simp [Conn.writerStep, hw, Conn.atBlocked, hfreed]⟩
  | wait =>
    cases hp : env.prioCh with
    | cons p ps => exact ⟨.prio, rfl, by simp [Conn.writerStep, hw, Conn.atWait, hp]⟩
    | nil =>
      obtain ⟨r, rs, hr⟩ := List.exists_cons_of_ne_nil ((hwait hw).resolve_left (by simp [hp]))
      exact ⟨.req, rfl, by simp [Conn.writerStep, hw, Conn.atWait, hr]⟩
  | body boot =>
    obtain ⟨r, hu⟩ := hunsent (by rw [hw]; rfl)
    obtain ⟨hr, hp⟩ := hdrained (by rw [hw]; rfl)
    have hsem : c.bodySem = 0 := by
      rw [ht.body (by rw [hw]; rfl) (by rw [hr]; rfl)]
      simp [Conn.bodies, Conn.slips, hw, hr, hp, Writer.slips, Reader.slips]
    refine ⟨.go, rfl, ?_⟩
    simp only [Conn.writerStep, hw, hu, Conn.atBody, hsem, hbody, Option.bind_some, if_true]
    split <;> rfl
  | enqueue hb hg =>
    obtain ⟨r, hu⟩ := hunsent (by rw [hw]; rfl)
    obtain ⟨-, hp⟩ := hdrained (by rw [hw]; rfl)
    exact ⟨.go, rfl, by simp [Conn.writerStep, hw, hu, Conn.atEnqueue, hp, hinflight]⟩
  | postWait =>
    obtain ⟨hr, hp⟩ := hdrained (by rw [hw]; rfl)
    have hready := (ht.post hw (by rw [hr]; rfl)).resolve_right (by simp [hr, hp, Reader.early])
    exact ⟨.go, rfl, by simpa [Conn.writerStep, hw, Conn.atPostWait] using hready⟩
  | keepalive r =>
    obtain ⟨-, hp⟩ := hdrained (by rw [hw]; rfl)
    exact ⟨.go, rfl, by simp [Conn.writerStep, hw, Conn.atKeepalive, hp, hinflight]⟩
  | keepaliveWait r =>
    have hsome := hreply r hw (hdrained (by rw [hw]; rfl))
    exact ⟨.go, rfl, by simpa [Conn.writerStep, hw, Conn.atKeepaliveWait] using hsome⟩
  | _ => exact absurd (by rw [hw]; rfl) hgoes

/-- **The reader can go on with what it does**, where `Run` is not in
`failOutstanding`, unless it waits for a request to be written. -/
theorem Conn.exists_reader_continues (hg : c.Guarded) (hb : c.Bounded S) (ht : c.Tended S)
    (hopen : c.cancelled = false) (hdone : c.done env = none)
    (hfree : c.writer.locked = false) (hbusy : ¬c.drained) :
    ∃ a, c.reader.continues a = true ∧ (c.readerStep S env a).isSome = true := by
  by_cases htop : c.reader = .top
  · exact ⟨.go, by rw [htop]; rfl, by simp [Conn.readerStep, htop, hdone]⟩
  by_cases hwait : c.reader = .wait
  · obtain ⟨e, rest, hp⟩ := List.exists_cons_of_ne_nil fun hp => hbusy ⟨hwait, hp⟩
    exact ⟨.go, by rw [hwait]; rfl, by simp [Conn.readerStep, hwait, hp]⟩
  obtain ⟨a, hl, hs⟩ := Conn.exists_reader_goes env hg hb hfree
    ⟨htop, hwait, fun hr => by simpa [hopen] using ht.ended hr⟩
  refine ⟨a, ?_, hs⟩
  revert hl htop hwait
  cases c.reader <;> cases a <;> simp [Reader.leaves, Reader.continues]

/-- The connection waits for its next request. -/
def Conn.rests (c : Conn) : Prop := c.writer = .wait ∧ c.drained

/-- **A connection that is neither over nor at rest can go on.** -/
theorem Conn.exists_progress (hg : c.Guarded) (hb : c.Bounded S) (ht : c.Tended S)
    (hslot : env.slotDone = none)
    (hlimits : 0 < S.limits.inflight ∧ 0 < S.limits.body ∧ 0 < S.limits.background)
    (hreply : ∀ r, c.writer = .keepaliveWait r → c.drained → (env.reply r).isSome = true)
    (hlive : c.isOver = false) (hrest : c.rests → env.prioCh ≠ [] ∨ env.reqCh ≠ []) :
    ∃ (a : ConnAct) (c' : Conn) (effs : List Effect), a.isOwn = true ∧
      c.step S env a = some (c', effs) ∧
      (c'.load < c.load ∨ Takes env effs ∧ c'.load < c.load + 130) := by
  cases hopen : c.cancelled with
  | true =>
    have hdone : (c.done env).isSome = true := by simp [Conn.done, hopen]
    obtain ⟨a, c', effs, hown, hs, hlt⟩ := Conn.exists_closer hg hb hdone hlive
    have hcan : c'.cancelled = true := by
      cases a with
      | writer a => exact (writerStep_writes hs).cancelled hopen
      | reader a => exact (readerStep_reads hs).cancelled hopen
    exact ⟨a, c', effs, hown, hs, .inl (by simpa [Conn.load, hopen, hcan] using hlt)⟩
  | false =>
    have hdone : c.done env = none := by simp [Conn.done, hopen, hslot]
    by_cases hw : c.writer.serves = false ∧ c.reader.locked = false ∨ c.drained
    · obtain ⟨a, hl, hsome⟩ := Conn.exists_continues hg hb ht hopen hlimits hw hreply
        fun hwait => hrest ⟨hwait, hw.resolve_left (by simp [hwait, Writer.serves])⟩
      obtain ⟨⟨c', effs⟩, hs⟩ := Option.isSome_iff_exists.mp hsome
      have hown : a.isOwn = true := by
        revert hl
        cases c.writer <;> cases a <;> simp [Writer.continues, WriterAct.isOwn]
      have hroom : ∀ boot hb, c.writer = .background boot hb →
          c.backgroundStatSem < S.limits.background := by
        intro boot held hback
        obtain ⟨hr, hp⟩ := hw.resolve_left (by simp [hback, Writer.serves])
        rw [← hb.backgrounds]
        cases hu : c.unsent <;>
          simpa [Conn.backgrounds, Conn.slips, hback, hr, hp, hu, Writer.slips, Reader.slips]
            using hlimits.2.2
      exact ⟨.writer a, c', effs, hown, hs, (writerStep_writes hs).load hl ht hopen hroom⟩
    · have hfree : c.writer.locked = false := by
        cases hl : c.reader.locked with
        | true => exact hg.writer_unlocked hl
        | false =>
          have hserves : c.writer.serves = true := by
            by_contra hne
            exact hw (.inl ⟨by simpa using hne, hl⟩)
          revert hserves
          cases c.writer <;> simp [Writer.serves, Writer.locked]
      obtain ⟨a, hl, hsome⟩ := Conn.exists_reader_continues hg hb ht hopen hdone hfree
        fun hd => hw (.inr hd)
      obtain ⟨⟨c', effs⟩, hs⟩ := Option.isSome_iff_exists.mp hsome
      have hown : a.isOwn = true := by
        revert hl
        cases c.reader <;> cases a <;> simp [Reader.continues, ReaderAct.isOwn]
      exact ⟨.reader a, c', effs, hown, hs, .inl ((readerStep_reads hs).load hl hopen)⟩

/-! ## Slots -/

/-- The same for a slot, whose requests get a connection of their own. -/
def Slot.load : Slot → ℕ
  | .returned _ => 0
  | .idle => 1
  | .run _ | .backoff none => 2
  | .greet _ s => 116 + 40 * s.toList.length
  | .dial _ s => 117 + 40 * s.toList.length
  | .gate _ s => 118 + 40 * s.toList.length
  | .picked _ s => 119 + 40 * s.toList.length
  | .took _ => 120
  | .backoff (some _) => 121

/-- What the pool has left to do, where a request in a channel may take a
connection of its own. -/
def State.load (s : State) : ℕ :=
  shares Slot.load s.slots + shares Conn.load s.conns + 130 * (s.prioCh.length + s.reqCh.length)

theorem newConn_load (i first : ℕ) (second : Option ℕ) :
    (newConn i first second).load = 113 + 40 * second.toList.length := by
  cases second <;> rfl

/-- The slot has nothing to do: there is no request, or its connection
runs. -/
def Slot.rests (dead : ℕ → Bool) : Slot → Prop
  | .idle => True
  | .run k => dead k = false
  | _ => False

/-- The step is one of a slot that goes on. -/
def SlotAct.continues : SlotAct → Bool
  | .go | .prio | .req => true
  | _ => false

theorem Slot.exists_continues (env : Env) {i k : ℕ} {dead : ℕ → Bool} {p : Slot}
    (hlive : p.isReturned = false) (hbusy : p.rests dead → p = .idle ∧
      (env.prioCh ≠ [] ∨ env.reqCh ≠ [])) :
    ∃ a : SlotAct, a.continues = true ∧ (p.step S env i k dead a).isSome = true := by
  cases p with
  | idle =>
    cases hp : env.prioCh with
    | cons r rs => exact ⟨.prio, rfl, by simp [Slot.step, hp]⟩
    | nil =>
      obtain ⟨r, rs, hr⟩ :=
        List.exists_cons_of_ne_nil ((hbusy trivial).2.resolve_left (by simp [hp]))
      exact ⟨.req, rfl, by simp [Slot.step, hr]⟩
  | took | picked =>
    refine ⟨.go, rfl, ?_⟩
    simp only [Slot.step]
    split <;> rfl
  | run j =>
    have hdead : dead j = true := by
      by_contra hne
      cases (hbusy (by simpa [Slot.rests] using hne)).1
    exact ⟨.go, rfl, by simp [Slot.step, hdead]⟩
  | returned t => cases hlive
  | _ => exact ⟨.go, rfl, rfl⟩

theorem SlotSteps.load {i : ℕ} {p q : Slot} {a : SlotAct} {made : Option Conn}
    (h : SlotSteps S (s.env S) i s.conns.length s.dead p a q effs made)
    (hp : s.slots[i]? = some p) (hl : a.continues = true) :
    (effs.foldl State.apply
      { s with slots := s.slots.set i q, conns := s.conns ++ made.toList }).load < s.load := by
  have hset := shares_set (f := Slot.load) hp q
  cases h
  case idlePrio hch | tookPrio hch =>
    replace hch : s.prioCh = _ := hch
    simp [State.load, State.apply, hch, Slot.load] at hset ⊢
    omega
  case idleReq hch =>
    replace hch : s.reqCh = _ := hch
    simp [State.load, State.apply, hch, Slot.load] at hset ⊢
    omega
  case pickedDone t _ _ | gateRefuse t _ | backoffGo t | pickedGo t _ =>
    cases t <;> simp [State.load, State.apply, Slot.load, Slot.next] at hset ⊢ <;> omega
  case greetGo =>
    simp [State.load, Slot.load, newConn_load] at hset ⊢
    omega
  all_goals
    simp_all [State.load, Slot.load, SlotAct.continues]
  all_goals omega

/-! ## The pool -/

/-- No slot has returned while the pool is open. -/
structure Open (S : Setup) (s : State) : Prop where
  length : s.slots.length = S.connections
  live : s.groupDone = none → ∀ p ∈ s.slots, p.isReturned = false

theorem State.groupDone_eq_none : s.groupDone = none ↔ s.removed = false ∧ s.client = none := by
  cases hr : s.removed <;> simp [State.groupDone, hr]

/-- A pool that was closed is not opened again. -/
theorem Acts.groupDone (h : Acts S s l s' effs) (hopen : s'.groupDone = none) :
    s.groupDone = none := by
  rw [State.groupDone_eq_none] at hopen ⊢
  cases h <;> simp_all [State.accepted, State.leave]

theorem Open.step (h : Open S s) (hact : Acts S s l s' effs) : Open S s' := by
  refine ⟨?_, fun hopen p hp => ?_⟩
  · have hlen := h.length
    cases hact <;> simpa [State.accepted, State.leave] using hlen
  · have hlive := h.live (hact.groupDone hopen)
    have hslot : (s.env S).slotDone = none := hact.groupDone hopen
    cases hact with
    | slot hi hs =>
      rw [foldl_apply_slots] at hp
      rcases List.mem_or_eq_of_mem_set hp with hp | rfl
      · exact hlive p hp
      · cases hs
        case idleDone he => simp [hslot] at he
        case backoffDone he => simp [hslot] at he
        case pickedDone t _ _ | gateRefuse t _ | backoffGo t => cases t <;> rfl
        all_goals rfl
    | sendHot | conn => exact hlive p (by rwa [foldl_apply_slots] at hp)
    | _ => exact hlive p hp

theorem Open.start (S : Setup) : Open S (Pool.start S) where
  length := by simp [Pool.start]
  live _ p hp := by
    simp only [Pool.start, List.mem_replicate] at hp
    rw [hp.2]
    rfl

/-- The invariants the pool serves by. -/
theorem Reached.serving (h : Reached S s) :
    (∀ c ∈ s.conns, c.Tended S) ∧ Probed S s ∧ Open S s := by
  obtain ⟨ls, hrun⟩ := h
  refine ⟨conns_invariant newConn_tended Conn.step_tended hrun, ?_⟩
  have hinv : Reached S s ∧ Probed S s ∧ Open S s := by
    refine exec_invariant (I := fun s => Reached S s ∧ Probed S s ∧ Open S s)
      (P := fun _ _ => True) ?_ ls ⟨⟨[], rfl⟩, Probed.start S, Open.start S⟩ (along_true _ _) hrun
    rintro s l s' ⟨hreached, hprobed, hopen⟩ - hstep
    obtain ⟨effs, hact⟩ := step_eq_some.1 hstep
    have hacts := act_acts hact
    exact ⟨hreached.step hstep, hprobed.step hreached.invariant.2.1 hacts, hopen.step hacts⟩
  exact hinv.2

/-- **The pool is at rest**: no request is on its way, every connection is
over or waits for its next one. -/
structure State.AtRest (s : State) : Prop where
  prioCh : s.prioCh = []
  reqCh : s.reqCh = []
  slots : ∀ p ∈ s.slots, p.rests s.dead
  conns : ∀ c ∈ s.conns, c.isOver = true ∨ c.rests

/-- A pool at rest holds no request. -/
theorem State.AtRest.held (h : s.AtRest) (howned : Owned S s)
    (hcleared : ∀ c ∈ s.conns, c.Cleared) (r : ℕ) : s.held r + s.left r = 0 := by
  have hslots : shares (fun p : Slot => p.held.count r) s.slots = 0 := by
    refine shares_eq_zero.2 fun p hp => ?_
    have hrest := h.slots p hp
    cases p <;> first | rfl | cases hrest
  have hconn : ∀ c ∈ s.conns, c.held.count r = 0 ∧ c.left.count r = 0 := by
    intro c hc
    rcases h.conns c hc with hover | ⟨hw, hr, hp⟩
    · exact (hcleared c hc).count_of_over hover r
    · have hd := (howned.orderly c hc).wait hw
      simp [Conn.held, Conn.left, Writer.held, Writer.works, Reader.held, hw, hr, hp, hd]
  obtain ⟨hheld, hleft⟩ := State.conns_held_eq_zero hconn
  simp [State.held, State.left, hslots, hheld, hleft, h.prioCh, h.reqCh]

/-- A connection's step lightens the load. -/
theorem State.load_conn {k : ℕ} (hc : s.conns[k]? = some c)
    (hlt : c'.load < c.load ∨ Takes (s.env S) effs ∧ c'.load < c.load + 130) :
    (effs.foldl State.apply { s with conns := s.conns.set k c' }).load < s.load := by
  have hset := shares_set (f := Conn.load) hc c'
  rcases hlt with hlt | ⟨⟨rfl, hch⟩ | ⟨rfl, hch⟩, hlt⟩
  · have := foldl_apply_length_le effs { s with conns := s.conns.set k c' }
    simp only [State.load, foldl_apply_slots, foldl_apply_conns] at *
    omega
  · have hpos : 0 < s.prioCh.length := List.length_pos_of_ne_nil hch
    simp [State.load, State.apply] at hset ⊢
    omega
  · have hpos : 0 < s.reqCh.length := List.length_pos_of_ne_nil hch
    simp [State.load, State.apply] at hset ⊢
    omega

/-- **What holds on the way to rest**, where the way starts in `s₀`. -/
structure Serving (S : Setup) (s₀ s : State) : Prop where
  reached : Reached S s
  isOpen : s.groupDone = none
  attempt : ∀ r, s₀.attempt r = .waiting → s.attempt r = .waiting

theorem Serving.keep {s₀ : State} (h : Serving S s₀ s) (hs : s.act S l = some (s', effs))
    (hown : l.isOwn = true) : Serving S s₀ s' := by
  have hact := act_acts hs
  refine ⟨h.reached.step (step_eq_some.2 ⟨effs, hs⟩), ?_, fun r hr => ?_⟩
  · have hopen := h.isOpen
    cases hact <;> simp_all [State.groupDone, Label.isOwn]
  · exact hact.waiting_of_isOwn hown (h.attempt r hr)

theorem Serving.conn {s₀ : State} (h : Serving S s₀ s)
    (hlimits : 0 < S.limits.inflight ∧ 0 < S.limits.body ∧ 0 < S.limits.background)
    (hc : c ∈ s.conns) (hlive : c.isOver = false)
    (hrest : c.rests → s.prioCh ≠ [] ∨ s.reqCh ≠ []) :
    ∃ l s', l.isOwn = true ∧ Pool.step S s l = some s' ∧ Serving S s₀ s' ∧ s'.load < s.load := by
  obtain ⟨htended, hprobed, -⟩ := h.reached.serving
  obtain ⟨k, hk⟩ := List.mem_iff_getElem?.mp hc
  have hreply : ∀ r, c.writer = .keepaliveWait r → c.drained →
      ((s.env S).reply r).isSome = true := by
    rintro r hw ⟨hr, hp⟩
    refine (hprobed.answer c hc r hw (by rw [hr]; rfl)).resolve_right ?_
    simp [Conn.kept, hr, hp, Reader.held]
  obtain ⟨a, c', effs, hown, hs, hlt⟩ := Conn.exists_progress (h.reached.guarded c hc)
    (h.reached.bounded c hc) (htended c hc) (show (s.env S).slotDone = none from h.isOpen)
    hlimits hreply hlive hrest
  have hact := State.act_conn (s.allows_of_isOwn hown) hk hs
  exact ⟨.conn k a, _, hown, step_eq_some.2 ⟨effs, hact⟩, h.keep hact hown,
    State.load_conn hk hlt⟩

theorem Serving.slot {s₀ : State} (h : Serving S s₀ s) {p : Slot} (hp : p ∈ s.slots)
    (hbusy : p.rests s.dead → p = .idle ∧ (s.prioCh ≠ [] ∨ s.reqCh ≠ [])) :
    ∃ l s', l.isOwn = true ∧ Pool.step S s l = some s' ∧ Serving S s₀ s' ∧ s'.load < s.load := by
  obtain ⟨-, -, hopen⟩ := h.reached.serving
  obtain ⟨i, hi⟩ := List.mem_iff_getElem?.mp hp
  obtain ⟨a, hl, hsome⟩ := Slot.exists_continues (S := S) (i := i) (k := s.conns.length)
    (s.env S) (hopen.live h.isOpen p hp) hbusy
  obtain ⟨⟨q, effs, made⟩, hs⟩ := Option.isSome_iff_exists.mp hsome
  have hact := State.act_slot hi hs
  have hown : (Label.slot i a).isOwn = true := by
    cases a <;> first | rfl | cases hl
  exact ⟨.slot i a, _, hown, step_eq_some.2 ⟨effs, hact⟩, h.keep hact hown,
    (slotStep_slotSteps hs).load hi hl⟩

/-- **Somebody can go on** until the pool is at rest. -/
theorem Serving.go {s₀ : State} (h : Serving S s₀ s)
    (hlimits : 0 < S.limits.inflight ∧ 0 < S.limits.body ∧ 0 < S.limits.background)
    (hslots : 0 < S.connections) (hbusy : ¬s.AtRest) :
    ∃ l s', l.isOwn = true ∧ Pool.step S s l = some s' ∧ Serving S s₀ s' ∧ s'.load < s.load := by
  obtain ⟨-, -, hopen⟩ := h.reached.serving
  by_cases hch : s.prioCh = [] ∧ s.reqCh = []
  · -- a slot or a connection is at work
    by_cases hp : ∃ p ∈ s.slots, ¬p.rests s.dead
    · obtain ⟨p, hp, hne⟩ := hp
      exact h.slot hp fun hrest => absurd hrest hne
    · push Not at hp
      obtain ⟨c, hc, hlive, hne⟩ : ∃ c ∈ s.conns, c.isOver = false ∧ ¬c.rests := by
        by_contra hno
        push Not at hno
        refine hbusy ⟨hch.1, hch.2, hp, fun c hc => ?_⟩
        cases hover : c.isOver with
        | true => exact .inl rfl
        | false => exact .inr (hno c hc hover)
      exact h.conn hlimits hc hlive fun hrest => absurd hrest hne
  · -- the first slot, or the connection it runs, takes a request
    have hne : s.prioCh ≠ [] ∨ s.reqCh ≠ [] := by
      by_contra hno
      push Not at hno
      exact hch hno
    obtain ⟨p, ps, hps⟩ := List.exists_cons_of_length_pos (hopen.length.symm ▸ hslots)
    have hp : p ∈ s.slots := by simp [hps]
    cases hrun : p with
    | run k =>
      subst hrun
      cases hdead : s.dead k with
      | true => exact h.slot hp fun hrest => by simp [Slot.rests, hdead] at hrest
      | false =>
        have hlt : k < s.conns.length := h.reached.invariant.2.2.2 0 k (by simp [hps])
        refine h.conn hlimits (List.getElem_mem hlt) ?_ fun _ => hne
        cases hover : (s.conns[k]).isOver with
        | false => rfl
        | true =>
          simp only [Conn.isOver, Bool.and_eq_true, beq_iff_eq] at hover
          simp [State.dead, List.getElem?_eq_getElem hlt, hover.1] at hdead
    | idle =>
      subst hrun
      exact h.slot hp fun _ => ⟨rfl, hne⟩
    | _ =>
      subst hrun
      exact h.slot hp fun hrest => by cases hrest

/-- **No request is stuck.** From every state of every run of a provider
that is neither removed nor closed, steps of its slots and connections in
which no operation of the network fails lead to one where the pool is at
rest, and every request that was waited for is completed. -/
theorem requests_completed (p : Provider) (S : Setup) (hlimits : S.limits = p.limits)
    (hslots : 0 < S.connections) (ls : List Label) (s : State)
    (h : exec (Pool.step S) (Pool.start S) ls = some s) (hopen : s.groupDone = none) :
    ∃ ks s', exec (Pool.step S) s ks = some s' ∧ (∀ l ∈ ks, l.isOwn = true) ∧
      s'.groupDone = none ∧ s'.AtRest ∧ ∀ r, s.attempt r = .waiting → (s'.ch r).closed = true := by
  have hpos : 0 < S.limits.inflight ∧ 0 < S.limits.body ∧ 0 < S.limits.background := by
    have hbody := p.bodyLimit_eq
    have hpipe := p.pipelineLimit_eq
    have hback := p.one_le_backgroundLimit
    simp only [hlimits, Provider.limits]
    omega
  have hstart : Serving S s s := ⟨⟨ls, h⟩, hopen, fun _ => id⟩
  obtain ⟨ks, s', hrun, hown, hw, hrest⟩ := exec_reaches
    (fun t ht hbusy => Serving.go ht hpos hslots hbusy) hstart
  refine ⟨ks, s', hrun, hown, hw.isOpen, hrest, fun r hr => ?_⟩
  by_contra hne
  obtain ⟨howned, hawaited, -⟩ := hw.reached.invariant
  have hone := hawaited.waits r (hw.attempt r hr) (by simpa using hne)
  obtain ⟨ls', hrun'⟩ := hw.reached
  rw [hrest.held howned (cleared_run hrun') r] at hone
  cases hone

/-- A request is in flight. -/
theorem requests_completed_written :
    ∃ s, exec (Pool.step statPool) (Pool.start statPool) written = some s ∧
      s.attempt 0 = .waiting ∧ (s.ch 0).closed = false ∧
      ∃ ks s', exec (Pool.step statPool) s ks = some s' ∧ s'.AtRest ∧ (s'.ch 0).closed = true := by
  have hrun : (exec (Pool.step statPool) (Pool.start statPool) written).map
      (fun s => (s.attempt 0, (s.ch 0).closed, s.groupDone)) = some (.waiting, false, none) := by
    decide
  obtain ⟨s, hs, hp⟩ := Option.map_eq_some_iff.mp hrun
  simp only [Prod.mk.injEq] at hp
  obtain ⟨hattempt, hclosed, hopen⟩ := hp
  obtain ⟨ks, s', hks, -, -, hrest, hreq⟩ :=
    requests_completed statProvider statPool rfl (by decide) written s hs hopen
  exact ⟨s, hs, hattempt, hclosed, ks, s', hks, hrest, hreq 0 hattempt⟩

end Pool

end NntpPool
