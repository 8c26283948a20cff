import NntpPool.Pool.Owned
import NntpPool.Pool.Model.Bootstrap
/-!
# Pool — where a response comes from

The error in a response is what an attempt is judged by. `Fault` lists
everything the pool ever fails a request with, `Reading` everything a
reader may hold as a response. So what is to be shown of every response
is shown of these (`Vouched.step`): the readers and the reply channels
have no others.
-/

namespace NntpPool

namespace Pool

variable {S : Setup} {env : Env} {s s' : State} {l : Label} {c c' : Conn} {effs : List Effect}
variable {r : ℕ} {e : GoError} {reply : Reply}

/-! ## Failed requests -/

/-- **What a request is failed with.** -/
inductive Fault (S : Setup) (s : State) (l : Label) (r : ℕ) : GoError → Prop
  /-- Its own context is done. -/
  | own {x : CtxErr} (h : s.done S r = some x) : Fault S s l r x.toError
  /-- An error the pool has for it. -/
  | pool {x : Sentinel}
      (hx : x ∈ [Sentinel.connectionDied, .freshTransportRequired, .backgroundStatWindowFull]) :
      Fault S s l r (.sentinel x)
  | died : Fault S s l r (S.named (.sentinel .connectionDied))
  /-- The gate has refused it. -/
  | refused {i : ℕ} {second : Option ℕ} (hl : l = .slot i .refuse)
      (hi : s.slots[i]? = some (.gate r second)) : Fault S s l r (.sentinel .canceled)
  /-- The slot could not connect. -/
  | connect {i : ℕ} {second : Option ℕ} {x : GoError} (hl : l = .slot i (.err x))
      (hi : s.slots[i]? = some (.dial r second) ∨ s.slots[i]? = some (.greet r second)) :
      Fault S s l r (.wrapped S.providerName x)
  /-- The connection's context is done while it waits for a place. -/
  | conn {k : ℕ} {c : Conn} {x : CtxErr} (hl : l = .conn k (.writer .connDone))
      (hc : s.conns[k]? = some c) (hw : c.writer = .firstSlot ∨ c.writer = .body true)
      (hu : c.unsent = some r) (hx : c.done (s.env S) = some x) : Fault S s l r x.toError
  /-- It could not be written. -/
  | io {k : ℕ} {c : Conn} {x : GoError} (hl : l = .conn k (.writer (.ioErr x)))
      (hc : s.conns[k]? = some c) (hu : c.unsent = some r) : Fault S s l r x

theorem fail_notMem_backgroundFreed (who : Party) (held : Bool) :
    .fail who r e ∉ backgroundFreed held :=
  fun h => Bool.false_ne_true (isGauge_backgroundFreed held _ h)

theorem mem_exitFails {who : Party} {u : Option ℕ} (h : .fail who r e ∈ exitFails u) :
    e = .sentinel .connectionDied := by
  cases u <;> simp_all [exitFails]

/-- `failOutstanding` fails with one error. -/
theorem Fails.fault {f : Failing} {f' : Option Failing} {who : Party}
    (h : Fails S c f c' f' effs) (hr : .fail who r e ∈ effs) : Fault S s l r e := by
  cases h
  case release => exact absurd hr (fail_notMem_pendingFreed _ _ _)
  case fail =>
    obtain ⟨-, rfl, rfl⟩ : who = .outstanding ∧ _ := by simpa using hr
    exact .died
  all_goals cases hr

theorem Writes.fault {a : WriterAct} {k : ℕ} {who : Party} (h : Writes S (s.env S) c a c' effs)
    (hc : s.conns[k]? = some c) (hl : l = .conn k (.writer a)) (hr : .fail who r e ∈ effs) :
    Fault S s l r e := by
  cases h
  case firstOld | gotOld =>
    obtain ⟨-, rfl, rfl⟩ := by simpa using hr
    exact .pool (by decide)
  case firstDone he | gotDone he | bodyDone he =>
    obtain ⟨-, rfl, rfl⟩ := by simpa using hr
    exact .own he
  case firstSlotConn hw hu he =>
    obtain ⟨-, rfl, rfl⟩ := by simpa using hr
    exact .conn hl hc (.inl hw) hu he
  case bodyConnFirst hw hu he =>
    obtain ⟨-, rfl, rfl⟩ := by simpa using hr
    exact .conn hl hc (.inr hw) hu he
  case backgroundFullFirst =>
    obtain ⟨-, rfl, rfl⟩ := by simpa using hr
    exact .pool (by decide)
  case writeErr hg x hw hu =>
    obtain ⟨-, rfl, rfl⟩ := by simpa [fail_notMem_backgroundFreed] using hr
    exact .io hl hc hu
  case flushPostErr hu =>
    obtain ⟨-, rfl, rfl⟩ := by simpa using hr
    exact .io hl hc hu
  case abort hf | closing hf => exact hf.fault hr
  case exitUnsent | exitDeferred =>
    obtain rfl := mem_exitFails hr
    exact .pool (by decide)
  all_goals simp at hr

theorem Reads.fault {a : ReaderAct} {who : Party} (h : Reads S env c a c' effs)
    (hr : .fail who r e ∈ effs) : Fault S s l r e := by
  cases h
  case retire hf => exact hf.fault hr
  case freePending => exact absurd hr (fail_notMem_pendingFreed _ _ _)
  case feedMore | feedFinish => exact absurd hr (notMem_wroteTo (by simp))
  all_goals simp at hr

theorem SlotSteps.fault {i k : ℕ} {dead : ℕ → Bool} {p q : Slot} {a : SlotAct}
    {made : Option Conn} {who : Party} (h : SlotSteps S (s.env S) i k dead p a q effs made)
    (hp : s.slots[i]? = some p) (hl : l = .slot i a) (hr : .fail who r e ∈ effs) :
    Fault S s l r e := by
  cases h
  case pickedDone he =>
    obtain ⟨-, rfl, rfl⟩ := by simpa using hr
    exact .own he
  case gateRefuse =>
    obtain ⟨-, rfl, rfl⟩ := by simpa using hr
    exact .refused hl hp
  case dialErr =>
    obtain ⟨-, rfl, rfl⟩ := by simpa using hr
    exact .connect hl (.inl hp)
  case greetErr =>
    obtain ⟨-, rfl, rfl⟩ := by simpa using hr
    exact .connect hl (.inr hp)
  all_goals simp at hr

/-- A request that is handed over directly fails nothing. -/
theorem Writes.hot {a : WriterAct} {n : ℕ} (h : Writes S env c a c' effs)
    (ha : a = .hotPrio n ∨ a = .hotReq n) : effs = [] := by
  rcases ha with rfl | rfl <;> cases h <;> rfl

/-- **The pool fails a request with nothing else.** -/
theorem Acts.fault {who : Party} (h : Acts S s l s' effs) (hr : .fail who r e ∈ effs) :
    Fault S s l r e := by
  cases h with
  | sendHot ha hhot hc hs =>
    have hnil := (writerStep_writes hs).hot (hhot.imp And.left id)
    simp [hnil] at hr
  | slot hp hs => exact hs.fault hp rfl hr
  | @conn k a c c' _ hallows hc hs =>
    cases a with
    | writer a => exact (writerStep_writes hs).fault hc rfl hr
    | reader a => exact (readerStep_reads hs).fault hr
  | _ => simp at hr

/-! ## Responses that are read -/

/-- The response a reader holds, with the request it is for. -/
def Reader.reply? : Reader → Option (ℕ × Reply)
  | .fed e _ reply => some (e.req, reply)
  | .second e _ reply => some (e.req, reply)
  | .respond e _ reply _ => some (e.req, reply)
  | _ => none

/-- **How a reader comes to a response**, from the one it has held. -/
inductive Reading (S : Setup) (env : Env) (c : Conn) (a : ReaderAct) (r : ℕ) : Reply → Prop
  | finish {x : Entry} {deliver wrote : Bool} {reply : Reply} (ha : a = .finish wrote reply)
      (hr : c.reader = .feed x deliver) (hx : x.req = r) : Reading S env c a r reply
  | limit {x : Entry} {deliver : Bool} {code : ℤ} {status : Bytes} (ha : a = .limit code status)
      (hr : c.reader = .control x deliver) (hx : x.req = r) :
      Reading S env c a r ⟨code, status, some (.sentinel .abandonedBodyDrainLimit)⟩
  | fed {reply : Reply} (h : c.reader.reply? = some (r, reply)) :
      Reading S env c a r (respErr S env r reply)
  | second {x : Entry} {deliver checked : Bool} {first reply : Reply}
      (ha : a = .second checked reply) (hr : c.reader = .second x deliver first)
      (hx : x.req = r) : Reading S env c a r (secondReply S first reply)

theorem Reads.reading {a : ReaderAct} (h : Reads S env c a c' effs)
    (hr : c'.reader.reply? = some (r, reply)) : Reading S env c a r reply := by
  cases h
  case controlLimit x deliver code status he hd =>
    obtain ⟨rfl, rfl⟩ := by simpa [Reader.reply?] using hr
    exact .limit rfl he rfl
  case feedFinish x deliver he =>
    obtain ⟨rfl, rfl⟩ := by simpa [Reader.reply?] using hr
    exact .finish rfl he rfl
  case fed he hp | fedPost he hp hcode | fedRejected he hp hcode =>
    obtain ⟨rfl, rfl⟩ := by simpa [Reader.reply?] using hr
    exact .fed (by rw [he]; rfl)
  case second he =>
    obtain ⟨rfl, rfl⟩ := by simpa [Reader.reply?] using hr
    exact .second rfl he rfl
  case decide hp => rcases hp with rfl | rfl <;> cases hr
  case retire f' _ _ _ => cases f' <;> cases hr
  all_goals cases hr

/-- A response that is sent is the one the reader holds. -/
theorem Conn.step_sent {a : ConnAct} {deliver : Bool} (h : c.step S env a = some (c', effs))
    (hr : .answer r deliver reply ∈ effs) : c.reader.reply? = some (r, reply) := by
  obtain ⟨e, code, he, rfl, -⟩ := Conn.step_answer h hr
  rw [he]
  rfl

/-! ## All responses -/

/-- Every response that is held, or is in a channel, is as `Q` says. -/
structure Vouched (Q : ℕ → Reply → Prop) (s : State) : Prop where
  held : ∀ c ∈ s.conns, ∀ r reply, c.reader.reply? = some (r, reply) → Q r reply
  sent : ∀ r reply, (s.ch r).buf = some reply → Q r reply

theorem Vouched.start (Q : ℕ → Reply → Prop) (S : Setup) : Vouched Q (Pool.start S) where
  held c hc := by simp [Pool.start] at hc
  sent r reply hr := by simp [Pool.start] at hr

theorem RespCh.put_buf {ch : RespCh} {reply' : Reply} (h : (ch.put reply).buf = some reply') :
    ch.buf = some reply' ∨ reply' = reply := by
  unfold RespCh.put at h
  split_ifs at h
  · exact .inr (Option.some.inj h).symm
  · exact .inl h

theorem failRequest_buf {ch : RespCh} (h : (failRequest ch e).buf = some reply) :
    ch.buf = some reply ∨ reply = { err := some e } := by
  unfold failRequest at h
  split_ifs at h
  · exact .inl h
  · exact RespCh.put_buf h

theorem RespCh.answer_buf {ch : RespCh} {deliver : Bool} {sent : Reply}
    (h : (ch.answer deliver sent).buf = some reply) : ch.buf = some reply ∨ reply = sent := by
  cases deliver with
  | false => exact .inl h
  | true => exact RespCh.put_buf h

/-- A request that is not completed gets nothing. -/
theorem Acts.buf_of_notMem (h : Acts S s l s' effs) (hn : r ∉ endedBy effs)
    (hr : (s'.ch r).buf = some reply) : (s.ch r).buf = some reply := by
  cases h with
  | sendHot | slot | conn => rwa [foldl_apply_ch_of_notMem _ hn] at hr
  | @receive n =>
    by_cases hrn : r = n
    · subst hrn
      simp at hr
    · simpa [Function.update_of_ne hrn] using hr
  | _ => exact hr

theorem Acts.sent {deliver : Bool} (h : Acts S s l s' effs)
    (hr : .answer r deliver reply ∈ effs) :
    ∃ c ∈ s.conns, c.reader.reply? = some (r, reply) := by
  cases h with
  | sendHot ha hhot hc hs => exact ⟨_, List.mem_of_getElem? hc, Conn.step_sent hs hr⟩
  | conn hallows hc hs => exact ⟨_, List.mem_of_getElem? hc, Conn.step_sent hs hr⟩
  | slot hp hs => cases hs <;> simp at hr
  | _ => simp at hr

/-- **What is in a channel** was there, or was sent by a reader, or is an
error the request was failed with. -/
theorem Acts.buf (h : Acts S s l s' effs) (hr : (s'.ch r).buf = some reply) :
    (s.ch r).buf = some reply ∨ (∃ c ∈ s.conns, c.reader.reply? = some (r, reply)) ∨
      ∃ e, Fault S s l r e ∧ reply = { err := some e } := by
  by_cases hmem : r ∈ endedBy effs
  · rcases h.ch_of_mem hmem with ⟨who, e, he, heq⟩ | ⟨deliver, sent, hs, heq⟩
    · rcases failRequest_buf (heq ▸ hr) with hold | rfl
      · exact .inl hold
      · exact .inr (.inr ⟨e, h.fault he, rfl⟩)
    · rcases RespCh.answer_buf (heq ▸ hr) with hold | rfl
      · exact .inl hold
      · exact .inr (.inl (h.sent hs))
  · exact .inl (h.buf_of_notMem hmem hr)

/-- **What is to be shown of every response**: it stays true, and holds of
the errors requests are failed with and of what readers read. -/
theorem Vouched.step {Q Q' : ℕ → Reply → Prop} (h : Vouched Q s) (hact : Acts S s l s' effs)
    (hkept : ∀ r reply, Q r reply → Q' r reply)
    (hfault : ∀ r e, Fault S s l r e → Q' r { err := some e })
    (hread : ∀ k a c r reply, l = .conn k (.reader a) → s.conns[k]? = some c →
      (∀ reply, c.reader.reply? = some (r, reply) → Q r reply) →
      Reading S (s.env S) c a r reply → Q' r reply) : Vouched Q' s' where
  held c' hc' r reply hr := by
    obtain ⟨k, hk⟩ := List.mem_iff_getElem?.mp hc'
    cases hact.origin hk with
    | old hc => exact hkept r reply (h.held c' (List.mem_of_getElem? hc) r reply hr)
    | @stepped env a c hc hl hprio hhot hs =>
      have hold := h.held c (List.mem_of_getElem? hc)
      cases a with
      | writer a =>
        rw [(writerStep_writes hs).frame.2] at hr
        exact hkept r reply (hold r reply hr)
      | reader a =>
        -- no request is handed over in a reader's step
        rcases hl with ⟨rfl, rfl⟩ | ⟨n, -, ha | ha⟩
        · exact hread k a c r reply rfl hc (hold r) ((readerStep_reads hs).reading hr)
        · cases ha
        · cases ha
    | new hnew =>
      subst hnew
      cases hr
  sent r reply hr := by
    rcases hact.buf hr with hold | ⟨c, hc, hheld⟩ | ⟨e, he, rfl⟩
    · exact hkept r reply (h.sent r reply hold)
    · exact hkept r reply (h.held c hc r reply hheld)
    · exact hfault r e he

/-! ## What is recorded -/

/-- **An attempt is recorded** by the response it has, or by the context
it gives up on. -/
theorem State.records_eq_some {o : Dispatch.OutcomeKind} (h : s.records S l = some (r, o)) :
    (∃ reply, l = .receive r ∧ (s.ch r).buf = some reply ∧ (S.info r).outcome reply = o) ∨
      ∃ why e, l = .giveUp r why ∧ s.cause (S.info r).call why = some e ∧
        (S.info r).outcome { err := some e } = o := by
  cases l with
  | receive n =>
    simp only [State.records] at h
    split_ifs at h
    obtain ⟨reply, hbuf, h⟩ := Option.bind_eq_some_iff.mp h
    split_ifs at h
    obtain ⟨rfl, ho⟩ := Prod.mk.inj (Option.some.inj h)
    exact .inl ⟨reply, rfl, hbuf, ho⟩
  | giveUp n why =>
    simp only [State.records] at h
    split_ifs at h
    obtain ⟨e, he, h⟩ := Option.map_eq_some_iff.mp h
    obtain ⟨rfl, ho⟩ := Prod.mk.inj h
    exact .inr ⟨why, e, rfl, he, ho⟩
  | _ => cases h

/-! ## The pool that connects -/

section Serve

variable {cfg : Config} {ev : Event} {i k : ℕ}

/-- A step of the pool that connects is a step of the pool. -/
theorem serve_acts (h : serve cfg S s ev = some s') :
    ev.allowed s = true ∧ ∃ effs, Acts S s (ev.label cfg) s' effs := by
  unfold serve at h
  split_ifs at h with hallowed
  obtain ⟨effs, hact⟩ := step_eq_some.1 h
  exact ⟨hallowed, effs, act_acts hact⟩

/-- Only other steps are a connection's. -/
theorem Event.of_conn {a : ConnAct} (h : ev.label cfg = .conn k a) : ev = .other (.conn k a) := by
  cases ev with
  | other l => exact congrArg Event.other h
  | _ => cases h

/-- Only other steps are refused at the gate. -/
theorem Event.of_refuse (h : ev.label cfg = .slot i .refuse) : ev = .other (.slot i .refuse) := by
  cases ev with
  | dial j d =>
    simp only [Event.label, Label.slot.injEq] at h
    cases hd : cfg.factory d <;> simp [hd, SlotAct.ofError] at h
  | greet j d =>
    simp only [Event.label, Label.slot.injEq] at h
    cases hd : newNNTPConnectionFromConn cfg.auth d <;> simp [hd, SlotAct.ofError] at h
  | other l => exact congrArg Event.other h

theorem SlotAct.ofError_eq_err {x : Option GoError} (h : SlotAct.ofError x = .err e) :
    x = some e := by
  cases x <;> simp_all [SlotAct.ofError]

/-- **A slot fails to connect** by the error of its factory, or of the
bootstrap. -/
theorem Event.of_connect {second : Option ℕ} (hallowed : ev.allowed s = true)
    (h : ev.label cfg = .slot i (.err e))
    (hi : s.slots[i]? = some (.dial r second) ∨ s.slots[i]? = some (.greet r second)) :
    (∃ d, ev = .dial i d ∧ cfg.factory d = some e) ∨
      ∃ d, ev = .greet i d ∧ newNNTPConnectionFromConn cfg.auth d = some e := by
  cases ev with
  | dial j d =>
    obtain ⟨rfl, ha⟩ : j = i ∧ _ := by simpa [Event.label] using h
    exact .inl ⟨d, rfl, SlotAct.ofError_eq_err ha⟩
  | greet j d =>
    obtain ⟨rfl, ha⟩ : j = i ∧ _ := by simpa [Event.label] using h
    exact .inr ⟨d, rfl, SlotAct.ofError_eq_err ha⟩
  | other l =>
    obtain rfl : l = .slot i (.err e) := h
    rcases hi with hi | hi <;> simp [Event.allowed, hi, Slot.isDial, Slot.isGreet] at hallowed

end Serve

end Pool

end NntpPool
