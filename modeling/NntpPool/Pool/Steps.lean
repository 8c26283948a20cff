import NntpPool.Pool.Model.Pool
/-!
# Pool — what one step can do

The steps of a connection and of a slot, one by one: where the goroutine
stands before, what has to hold, and what is left. Everything that is
proved of all steps is proved from these lists.
-/

namespace NntpPool

namespace Pool

variable {S : Setup} {env : Env} {c c' : Conn} {effs : List Effect}

/-! ## `failOutstanding` -/

/-- **The steps of `failOutstanding`.** -/
inductive Fails (S : Setup) (c : Conn) : Failing → Conn → Option Failing → List Effect → Prop
  | lock (h : c.failMu = false) : Fails S c .lock { c with failMu := true } (some .loop) []
  | empty (h : c.pending = []) : Fails S c .loop { c with failMu := false } none []
  | pop {e : Entry} {rest : List Entry} (h : c.pending = e :: rest) :
      Fails S c .loop { c with pending := rest } (some (.popped e)) []
  | release (e : Entry) :
      Fails S c (.popped e) (c.freeBackground e.heldBackgroundStat)
        (some (.released { e with heldBackgroundStat := false, heldPipeline := false }))
        (pendingFreed e)
  | fail (e : Entry) :
      Fails S c (.released e) c (some .failed)
        [.fail .outstanding e.req (S.named (.sentinel .connectionDied))]
  | free : Fails S c .failed c.freeInflight (some .loop) []

theorem failStep_fails {f : Failing} {f' : Option Failing}
    (h : c.failStep S f = some (c', f', effs)) : Fails S c f c' f' effs := by
  cases f with
  | lock =>
    simp only [Conn.failStep] at h
    split_ifs at h with hm
    cases h
    exact .lock (by simpa using hm)
  | loop =>
    simp only [Conn.failStep] at h
    split at h
    · cases h
      exact .empty (by assumption)
    · cases h
      exact .pop (by assumption)
  | popped e => cases h; exact .release e
  | released e => cases h; exact .fail e
  | failed => cases h; exact .free

/-! ## `Run` -/

/-- The writer's pc behind a step of its `failOutstanding`. -/
def Writer.after (during : Failing → Writer) (next : Writer) : Option Failing → Writer
  | some f => during f
  | none => next

/-- **The steps of `Run`.** -/
inductive Writes (S : Setup) (env : Env) (c : Conn) : WriterAct → Conn → List Effect → Prop
  | firstOld {r : ℕ} (hw : c.writer = .first) (hu : c.unsent = some r) :
      Writes S env c .tooOld { c with writer := .exitUnsent }
        [.fail .writer r (.sentinel .freshTransportRequired)]
  | firstDone {r : ℕ} {e : CtxErr} (hw : c.writer = .first) (hu : c.unsent = some r)
      (he : env.done r = some e) :
      Writes S env c .reqDone { c with writer := .top } [.fail .writer r e.toError]
  | firstGo {r : ℕ} (hw : c.writer = .first) (hu : c.unsent = some r) :
      Writes S env c .go { c with writer := .firstSlot } []
  | firstSlotGo {r : ℕ} (hw : c.writer = .firstSlot) (hu : c.unsent = some r)
      (hlt : c.inflightSem < S.limits.inflight) :
      Writes S env c .go { c with inflightSem := c.inflightSem + 1, writer := .body true } []
  | firstSlotConn {r : ℕ} {e : CtxErr} (hw : c.writer = .firstSlot) (hu : c.unsent = some r)
      (he : c.done env = some e) :
      Writes S env c .connDone { c with writer := .exitUnsent } [.fail .writer r e.toError]
  | topConn {e : CtxErr} (hw : c.writer = .top) (he : c.done env = some e) :
      Writes S env c .connDone { c with writer := .exitUnsent } []
  | topErr (e : GoError) (hw : c.writer = .top) :
      Writes S env c (.ioErr e) { c with writer := .exitUnsent } []
  | topGo (hw : c.writer = .top) (hlt : c.inflightSem < S.limits.inflight) :
      Writes S env c .go { c with inflightSem := c.inflightSem + 1, writer := .flush } []
  | flushErr (e : GoError) (hw : c.writer = .flush) :
      Writes S env c (.ioErr e) { c.freeInflight with writer := .exitUnsent } []
  | flushGo (hw : c.writer = .flush) : Writes S env c .go { c with writer := .look } []
  | look (hw : c.writer = .look) :
      Writes S env c .go { c with writer := .take (c.blockedDeferredStat S) } []
  | takePrio {b : Bool} {p : ℕ} {ps : List ℕ} (hw : c.writer = .take b)
      (hp : env.prioCh = p :: ps) :
      Writes S env c .prio { c with unsent := some p, writer := .got } [.takePrio]
  | takeGo {b : Bool} (hw : c.writer = .take b) (hp : env.prioCh = []) :
      Writes S env c .go { c with writer := if b then .blocked else .normal } []
  | blockedPrio {p : ℕ} {ps : List ℕ} (hw : c.writer = .blocked) (hp : env.prioCh = p :: ps) :
      Writes S env c .prio { c with unsent := some p, writer := .got } [.takePrio]
  | blockedHot (p : ℕ) (hw : c.writer = .blocked) :
      Writes S env c (.hotPrio p) { c with unsent := some p, writer := .got } []
  | blockedFreed (hw : c.writer = .blocked) (hf : c.backgroundStatFreed = true) :
      Writes S env c .freed { c with backgroundStatFreed := false, writer := .normal } []
  | blockedConn {e : CtxErr} (hw : c.writer = .blocked) (he : c.done env = some e) :
      Writes S env c .connDone { c.freeInflight with writer := .exitUnsent } []
  | normalDeferred {r : ℕ} (hw : c.writer = .normal) (hd : c.deferredNormal = some r) :
      Writes S env c .go { c with deferredNormal := none, writer := .chosen r } []
  | normalWait (hw : c.writer = .normal) (hd : c.deferredNormal = none) (hr : env.reqCh = []) :
      Writes S env c .go { c with writer := .wait } []
  | normalReq {r : ℕ} {rs : List ℕ} (hw : c.writer = .normal) (hd : c.deferredNormal = none)
      (hr : env.reqCh = r :: rs) :
      Writes S env c .go { c with writer := .chosen r } [.takeReq]
  | waitPrio {p : ℕ} {ps : List ℕ} (hw : c.writer = .wait) (hp : env.prioCh = p :: ps) :
      Writes S env c .prio { c with unsent := some p, writer := .got } [.takePrio]
  | waitHotPrio (p : ℕ) (hw : c.writer = .wait) :
      Writes S env c (.hotPrio p) { c with unsent := some p, writer := .got } []
  | waitReq {r : ℕ} {rs : List ℕ} (hw : c.writer = .wait) (hr : env.reqCh = r :: rs) :
      Writes S env c .req { c with writer := .chosen r } [.takeReq]
  | waitHotReq (r : ℕ) (hw : c.writer = .wait) :
      Writes S env c (.hotReq r) { c with writer := .chosen r } []
  | waitConn {e : CtxErr} (hw : c.writer = .wait) (he : c.done env = some e) :
      Writes S env c .connDone { c.freeInflight with writer := .exitUnsent } []
  | waitIdle (hw : c.writer = .wait) :
      Writes S env c .idle { c.freeInflight with writer := .drain } []
  | waitKeepalive {r : ℕ} (hw : c.writer = .wait) (hk : (S.info r).keepalive = true) :
      Writes S env c (.keepalive r) { c with writer := .keepalive r } [.make r]
  | chosenGo {r : ℕ} (hw : c.writer = .chosen r) (hp : env.prioCh = []) :
      Writes S env c .go { c with unsent := some r, writer := .got } []
  | chosenPrio {r p : ℕ} {ps : List ℕ} (hw : c.writer = .chosen r) (hp : env.prioCh = p :: ps) :
      Writes S env c .go { c with deferredNormal := some r, unsent := some p, writer := .got }
        [.takePrio]
  | gotDone {r : ℕ} {e : CtxErr} (hw : c.writer = .got) (hu : c.unsent = some r)
      (he : env.done r = some e) :
      Writes S env c .reqDone { c.freeInflight with writer := .top } [.fail .writer r e.toError]
  | gotOld {r : ℕ} (hw : c.writer = .got) (hu : c.unsent = some r) :
      Writes S env c .tooOld { c.freeInflight with writer := .exitUnsent }
        [.fail .writer r (.sentinel .freshTransportRequired)]
  | gotGo {r : ℕ} (hw : c.writer = .got) (hu : c.unsent = some r) :
      Writes S env c .go { c with writer := .body false } []
  | bodyCheap {r : ℕ} {boot : Bool} (hw : c.writer = .body boot) (hu : c.unsent = some r)
      (hc : isCheapCommand (S.info r).payload = true) :
      Writes S env c .go { c with writer := .background boot false } []
  | bodyGo {r : ℕ} {boot : Bool} (hw : c.writer = .body boot) (hu : c.unsent = some r)
      (hc : isCheapCommand (S.info r).payload = false) (hlt : c.bodySem < S.limits.body) :
      Writes S env c .go { c with bodySem := c.bodySem + 1, writer := .background boot true } []
  | bodyDone {r : ℕ} {boot : Bool} {e : CtxErr} (hw : c.writer = .body boot)
      (hu : c.unsent = some r) (he : env.done r = some e) :
      Writes S env c .reqDone { c.freeInflight with writer := .top } [.fail .writer r e.toError]
  | bodyConnFirst {r : ℕ} {e : CtxErr} (hw : c.writer = .body true) (hu : c.unsent = some r)
      (he : c.done env = some e) :
      Writes S env c .connDone { c.freeInflight with writer := .exitUnsent }
        [.fail .writer r e.toError]
  | bodyConn {r : ℕ} {e : CtxErr} (hw : c.writer = .body false) (hu : c.unsent = some r)
      (he : c.done env = some e) :
      Writes S env c .connDone { c.freeInflight with writer := .exitUnsent } []
  | backgroundNot {r : ℕ} {boot hb : Bool} (hw : c.writer = .background boot hb)
      (hu : c.unsent = some r) (hg : S.isBackground r = false) :
      Writes S env c .go { c with writer := .write hb false } []
  | backgroundGo {r : ℕ} {boot hb : Bool} (hw : c.writer = .background boot hb)
      (hu : c.unsent = some r) (hg : S.isBackground r = true)
      (hlt : c.backgroundStatSem < S.limits.background) :
      Writes S env c .go
        { c with backgroundStatSem := c.backgroundStatSem + 1, writer := .write hb true }
        [.backgroundStatInUse 1]
  | backgroundFullFirst {r : ℕ} {hb : Bool} (hw : c.writer = .background true hb)
      (hu : c.unsent = some r) (hg : S.isBackground r = true)
      (hfull : ¬c.backgroundStatSem < S.limits.background) :
      Writes S env c .go { (c.freeInflight.freeBody hb) with writer := .top }
        [.fail .writer r (.sentinel .backgroundStatWindowFull)]
  | backgroundFull {r : ℕ} {hb : Bool} (hw : c.writer = .background false hb)
      (hu : c.unsent = some r) (hg : S.isBackground r = true)
      (hfull : ¬c.backgroundStatSem < S.limits.background) :
      Writes S env c .go
        { (c.freeInflight.freeBody hb) with
          deferredNormal := some r, unsent := none, writer := .top } []
  | writePost {r : ℕ} {hb hg : Bool} (hw : c.writer = .write hb hg) (hu : c.unsent = some r)
      (hp : (S.info r).postMode = true) :
      Writes S env c .go { c with writer := .flushPost hb hg } []
  | writeGo {r : ℕ} {hb hg : Bool} (hw : c.writer = .write hb hg) (hu : c.unsent = some r)
      (hp : (S.info r).postMode = false) :
      Writes S env c .go { c with writer := .enqueue hb hg } []
  | writeErr {r : ℕ} {hb hg : Bool} (e : GoError) (hw : c.writer = .write hb hg)
      (hu : c.unsent = some r) :
      Writes S env c (.ioErr e)
        { (c.freeInflight.freeBackground hg) with writer := .abort .lock }
        (backgroundFreed hg ++ [.fail .writer r e])
  | flushPostGo {r : ℕ} {hb hg : Bool} (hw : c.writer = .flushPost hb hg)
      (hu : c.unsent = some r) : Writes S env c .go { c with writer := .enqueue hb hg } []
  | flushPostErr {r : ℕ} {hb hg : Bool} (e : GoError) (hw : c.writer = .flushPost hb hg)
      (hu : c.unsent = some r) :
      Writes S env c (.ioErr e) { c.freeInflight with writer := .abort .lock } [.fail .writer r e]
  | enqueuePost {r : ℕ} {hb hg : Bool} (hw : c.writer = .enqueue hb hg) (hu : c.unsent = some r)
      (hlt : c.pending.length < S.limits.inflight) (hp : (S.info r).postMode = true) :
      Writes S env c .go { c with
        pending := c.pending ++ [⟨r, hb, hg, true⟩], unsent := none, postReady := none
        writer := .postWait } [.pipelineInUse 1]
  | enqueueGo {r : ℕ} {hb hg : Bool} (hw : c.writer = .enqueue hb hg) (hu : c.unsent = some r)
      (hlt : c.pending.length < S.limits.inflight) (hp : (S.info r).postMode = false) :
      Writes S env c .go { c with
        pending := c.pending ++ [⟨r, hb, hg, true⟩], unsent := none
        writer := .top } [.pipelineInUse 1]
  | postReady {b : Bool} (hw : c.writer = .postWait) (hp : c.postReady = some b) :
      Writes S env c .go { c with writer := if b then .postCopy else .top } []
  | postConn {e : CtxErr} (hw : c.writer = .postWait) (he : c.done env = some e) :
      Writes S env c .connDone { c with writer := .exitUnsent } []
  | postCopyGo (hw : c.writer = .postCopy) : Writes S env c .go { c with writer := .top } []
  | postCopyErr (e : GoError) (hw : c.writer = .postCopy) :
      Writes S env c (.ioErr e) { c with writer := .abort .lock } []
  | keepaliveGo {r : ℕ} (hw : c.writer = .keepalive r)
      (hlt : c.pending.length < S.limits.inflight) :
      Writes S env c .go { c with
        pending := c.pending ++ [⟨r, false, false, false⟩], writer := .keepaliveWait r } []
  | keepaliveErr {r : ℕ} (e : GoError) (hw : c.writer = .keepalive r) :
      Writes S env c (.ioErr e) { c with writer := .abort .lock } []
  | keepaliveAnswer {r : ℕ} {reply : Reply} {w : Writer} (hw : c.writer = .keepaliveWait r)
      (hr : env.reply r = some reply) (hto : w = .abort .lock ∨ w = .top) :
      Writes S env c .go { c with writer := w } []
  | keepaliveConn {r : ℕ} {e : CtxErr} (hw : c.writer = .keepaliveWait r)
      (he : c.done env = some e) :
      Writes S env c .connDone { c with writer := .exitUnsent } []
  | drainGo (hw : c.writer = .drain) (hlt : c.inflightSem < S.limits.inflight) :
      Writes S env c .go { c with inflightSem := c.inflightSem + 1 } []
  | drained (hw : c.writer = .drain) :
      Writes S env c .idle { c with writer := .exitUnsent } []
  | abort {f : Failing} {f' : Option Failing} {d : Conn} {effs : List Effect}
      (hw : c.writer = .abort f)
      (hf : Fails S c f d f' effs) :
      Writes S env c .go { d with writer := .after .abort .exitUnsent f' } effs
  | exitUnsent (hw : c.writer = .exitUnsent) :
      Writes S env c .go { c with writer := .exitDeferred } (exitFails c.unsent)
  | exitDeferred (hw : c.writer = .exitDeferred) :
      Writes S env c .go { c with deferredNormal := none, writer := .exitCancel }
        (exitFails c.deferredNormal)
  | exitCancel (hw : c.writer = .exitCancel) :
      Writes S env c .go { c with cancelled := true, writer := .closing .lock } []
  | closing {f : Failing} {f' : Option Failing} {d : Conn} {effs : List Effect}
      (hw : c.writer = .closing f)
      (hf : Fails S c f d f' effs) :
      Writes S env c .go { d with writer := .after .closing .dead f' } effs

/-- **`Run` takes no other step.** -/
theorem writerStep_writes {a : WriterAct} (h : c.writerStep S env a = some (c', effs)) :
    Writes S env c a c' effs := by
  unfold Conn.writerStep at h
  split at h
  case h_1 hw =>
    obtain ⟨r, hu, h⟩ := Option.bind_eq_some_iff.mp h
    cases a <;> simp [Conn.atFirst] at h
    · obtain ⟨-, rfl, rfl⟩ := h
      exact .firstGo hw hu
    · obtain ⟨e, he, rfl, rfl⟩ := h
      exact .firstDone hw hu he
    · obtain ⟨-, rfl, rfl⟩ := h
      exact .firstOld hw hu
  case h_2 hw =>
    obtain ⟨r, hu, h⟩ := Option.bind_eq_some_iff.mp h
    cases a <;> simp [Conn.atFirstSlot] at h
    · obtain ⟨hlt, rfl, rfl⟩ := h
      exact .firstSlotGo hw hu hlt
    · obtain ⟨e, he, rfl, rfl⟩ := h
      exact .firstSlotConn hw hu he
  case h_3 hw =>
    cases a <;> simp [Conn.atTop] at h
    · obtain ⟨hlt, rfl, rfl⟩ := h
      exact .topGo hw hlt
    · obtain ⟨rfl, rfl⟩ := h
      exact .topErr _ hw
    · obtain ⟨⟨e, he⟩, rfl, rfl⟩ := h
      exact .topConn hw he
  case h_4 hw =>
    cases a <;> simp [Conn.atFlush] at h
    · obtain ⟨rfl, rfl⟩ := h
      exact .flushGo hw
    · obtain ⟨rfl, rfl⟩ := h
      exact .flushErr _ hw
  case h_5 hw =>
    split_ifs at h with ha
    cases h
    exact ha ▸ .look hw
  case h_6 b hw =>
    cases a <;> simp [Conn.atTake] at h
    · obtain ⟨hp, rfl, rfl⟩ := h
      exact .takeGo hw hp
    · obtain ⟨p, hp, rfl, rfl⟩ := h
      obtain ⟨ps, hp⟩ := List.head?_eq_some_iff.mp hp
      exact .takePrio hw hp
  case h_7 hw =>
    cases a <;> simp [Conn.atBlocked] at h
    · obtain ⟨⟨e, he⟩, rfl, rfl⟩ := h
      exact .blockedConn hw he
    · obtain ⟨p, hp, rfl, rfl⟩ := h
      obtain ⟨ps, hp⟩ := List.head?_eq_some_iff.mp hp
      exact .blockedPrio hw hp
    · obtain ⟨hf, rfl, rfl⟩ := h
      exact .blockedFreed hw hf
    · obtain ⟨rfl, rfl⟩ := h
      exact .blockedHot _ hw
  case h_8 hw =>
    cases a <;> simp only [Conn.atNormal] at h <;> try cases h
    split at h <;> cases h
    · exact .normalDeferred hw (by assumption)
    · exact .normalWait hw (by assumption) (by assumption)
    · exact .normalReq hw (by assumption) (by assumption)
  case h_9 hw =>
    cases a <;> simp [Conn.atWait] at h
    · obtain ⟨⟨e, he⟩, rfl, rfl⟩ := h
      exact .waitConn hw he
    · obtain ⟨p, hp, rfl, rfl⟩ := h
      obtain ⟨ps, hp⟩ := List.head?_eq_some_iff.mp hp
      exact .waitPrio hw hp
    · obtain ⟨p, hp, rfl, rfl⟩ := h
      obtain ⟨ps, hp⟩ := List.head?_eq_some_iff.mp hp
      exact .waitReq hw hp
    · obtain ⟨rfl, rfl⟩ := h
      exact .waitIdle hw
    · obtain ⟨hk, rfl, rfl⟩ := h
      exact .waitKeepalive hw hk
    · obtain ⟨rfl, rfl⟩ := h
      exact .waitHotPrio _ hw
    · obtain ⟨rfl, rfl⟩ := h
      exact .waitHotReq _ hw
  case h_10 r hw =>
    cases a <;> simp only [Conn.atChosen] at h <;> try cases h
    split at h <;> cases h
    · exact .chosenGo hw (by assumption)
    · exact .chosenPrio hw (by assumption)
  case h_11 hw =>
    obtain ⟨r, hu, h⟩ := Option.bind_eq_some_iff.mp h
    cases a <;> simp [Conn.atGot] at h
    · obtain ⟨-, rfl, rfl⟩ := h
      exact .gotGo hw hu
    · obtain ⟨e, he, rfl, rfl⟩ := h
      exact .gotDone hw hu he
    · obtain ⟨-, rfl, rfl⟩ := h
      exact .gotOld hw hu
  case h_12 boot hw =>
    obtain ⟨r, hu, h⟩ := Option.bind_eq_some_iff.mp h
    cases a <;> simp only [Conn.atBody] at h <;> try cases h
    · split_ifs at h with hc hlt <;> cases h
      · exact .bodyCheap hw hu hc
      · exact .bodyGo hw hu (by simpa using hc) hlt
    · split_ifs at h with hc hb <;> obtain ⟨e, he, h⟩ := Option.map_eq_some_iff.mp h <;> cases h
      · exact .bodyConnFirst (hb ▸ hw) hu he
      · exact .bodyConn (by simpa [hb] using hw) hu he
    · split_ifs at h with hc
      obtain ⟨e, he, h⟩ := Option.map_eq_some_iff.mp h
      cases h
      exact .bodyDone hw hu he
  case h_13 boot hb hw =>
    obtain ⟨r, hu, h⟩ := Option.bind_eq_some_iff.mp h
    cases a <;> simp only [Conn.atBackground] at h <;> try cases h
    split_ifs at h with hg hlt hb <;> cases h
    · exact .backgroundGo hw hu hg hlt
    · exact .backgroundFullFirst (hb ▸ hw) hu hg hlt
    · exact .backgroundFull (by simpa [hb] using hw) hu hg hlt
    · exact .backgroundNot hw hu (by simpa using hg)
  case h_14 hb hg hw =>
    obtain ⟨r, hu, h⟩ := Option.bind_eq_some_iff.mp h
    cases a <;> simp only [Conn.atWrite] at h <;> cases h
    · by_cases hp : (S.info r).postMode
      · simpa [hp] using Writes.writePost hw hu hp
      · simpa [hp] using Writes.writeGo hw hu (by simpa using hp)
    · exact .writeErr _ hw hu
  case h_15 hb hg hw =>
    obtain ⟨r, hu, h⟩ := Option.bind_eq_some_iff.mp h
    cases a <;> simp only [Conn.atFlushPost] at h <;> cases h
    · exact .flushPostGo hw hu
    · exact .flushPostErr _ hw hu
  case h_16 hb hg hw =>
    obtain ⟨r, hu, h⟩ := Option.bind_eq_some_iff.mp h
    cases a <;> simp only [Conn.atEnqueue] at h <;> try cases h
    split_ifs at h with hlt hp <;> cases h
    · exact .enqueuePost hw hu hlt hp
    · exact .enqueueGo hw hu hlt (by simpa using hp)
  case h_17 hw =>
    cases a <;> simp only [Conn.atPostWait] at h <;> try cases h
    · obtain ⟨b, hp, h⟩ := Option.map_eq_some_iff.mp h
      cases h
      exact .postReady hw hp
    · obtain ⟨e, he, h⟩ := Option.map_eq_some_iff.mp h
      cases h
      exact .postConn hw he
  case h_18 hw =>
    cases a <;> simp [Conn.atPostCopy] at h
    · obtain ⟨rfl, rfl⟩ := h
      exact .postCopyGo hw
    · obtain ⟨rfl, rfl⟩ := h
      exact .postCopyErr _ hw
  case h_19 r hw =>
    cases a <;> simp [Conn.atKeepalive] at h
    · obtain ⟨hlt, rfl, rfl⟩ := h
      exact .keepaliveGo hw hlt
    · obtain ⟨rfl, rfl⟩ := h
      exact .keepaliveErr _ hw
  case h_20 r hw =>
    cases a <;> simp only [Conn.atKeepaliveWait] at h <;> try cases h
    · obtain ⟨reply, hr, h⟩ := Option.map_eq_some_iff.mp h
      cases h
      exact .keepaliveAnswer hw hr (ite_eq_or_eq ..)
    · obtain ⟨e, he, h⟩ := Option.map_eq_some_iff.mp h
      cases h
      exact .keepaliveConn hw he
  case h_21 hw =>
    cases a <;> simp [Conn.atDrain] at h
    · obtain ⟨hlt, rfl, rfl⟩ := h
      exact .drainGo hw hlt
    · obtain ⟨rfl, rfl⟩ := h
      exact .drained hw
  case h_22 f hw =>
    split_ifs at h with ha
    obtain ⟨⟨d, f', fx⟩, hf, h⟩ := Option.map_eq_some_iff.mp h
    cases h
    exact ha ▸ .abort hw (failStep_fails hf)
  case h_23 hw =>
    split_ifs at h with ha
    cases h
    exact ha ▸ .exitUnsent hw
  case h_24 hw =>
    split_ifs at h with ha
    cases h
    exact ha ▸ .exitDeferred hw
  case h_25 hw =>
    split_ifs at h with ha
    cases h
    exact ha ▸ .exitCancel hw
  case h_26 f hw =>
    split_ifs at h with ha
    obtain ⟨⟨d, f', fx⟩, hf, h⟩ := Option.map_eq_some_iff.mp h
    cases h
    exact ha ▸ .closing hw (failStep_fails hf)
  case h_27 hw => cases h

/-! ## `readerLoop` -/

@[simp] theorem respErr_statusCode (r : ℕ) (reply : Reply) :
    (respErr S env r reply).statusCode = reply.statusCode := rfl

/-- The reader's pc behind a step of its `failOutstanding`. -/
def Reader.after : Option Failing → Reader
  | some f => .retire f
  | none => .returned

/-- **The steps of `readerLoop`.** -/
inductive Reads (S : Setup) (env : Env) (c : Conn) : ReaderAct → Conn → List Effect → Prop
  | topConn {e : CtxErr} (hr : c.reader = .top) (he : c.done env = some e) :
      Reads S env c .connDone { c with reader := .retire .lock } []
  | topGo (hr : c.reader = .top) : Reads S env c .go { c with reader := .wait } []
  | waitConn {e : CtxErr} (hr : c.reader = .wait) (he : c.done env = some e) :
      Reads S env c .connDone { c with reader := .returned } []
  | waitGo {e : Entry} {rest : List Entry} (hr : c.reader = .wait) (hp : c.pending = e :: rest) :
      Reads S env c .go { c with pending := rest, reader := .head e } []
  | head {e : Entry} (hr : c.reader = .head e) :
      Reads S env c .go { c with reader := .control e (env.done e.req).isNone } []
  | controlGo {e : Entry} {deliver : Bool} (hr : c.reader = .control e deliver) :
      Reads S env c .go { c with reader := .feed e (deliver && (env.done e.req).isNone) } []
  | controlLimit {e : Entry} {deliver : Bool} {code : ℤ} {status : Bytes}
      (hr : c.reader = .control e deliver) (hd : (deliver && (env.done e.req).isNone) = false) :
      Reads S env c (.limit code status)
        { c with
          reader := .fed e false ⟨code, status, some (.sentinel .abandonedBodyDrainLimit)⟩ } []
  | feedMore {e : Entry} {deliver : Bool} (wrote : Bool) (hr : c.reader = .feed e deliver) :
      Reads S env c (.more wrote) { c with reader := .control e deliver }
        (wroteTo S e.req deliver wrote)
  | feedFinish {e : Entry} {deliver : Bool} (wrote : Bool) (reply : Reply)
      (hr : c.reader = .feed e deliver) :
      Reads S env c (.finish wrote reply) { c with reader := .fed e deliver reply }
        (wroteTo S e.req deliver wrote)
  | fed {e : Entry} {deliver : Bool} {reply : Reply} (hr : c.reader = .fed e deliver reply)
      (hp : (S.info e.req).postMode = false) :
      Reads S env c .go
        { c with reader := .respond e deliver (respErr S env e.req reply) reply.statusCode } []
  | fedPost {e : Entry} {deliver : Bool} {reply : Reply} (hr : c.reader = .fed e deliver reply)
      (hp : (S.info e.req).postMode = true) (hcode : reply.statusCode = 340) :
      Reads S env c .go
        { c with
          postReady := some true, reader := .second e deliver (respErr S env e.req reply) } []
  | fedRejected {e : Entry} {deliver : Bool} {reply : Reply}
      (hr : c.reader = .fed e deliver reply)
      (hp : (S.info e.req).postMode = true) (hcode : reply.statusCode ≠ 340) :
      Reads S env c .go
        { c with
          postReady := some false
          reader := .respond e deliver (respErr S env e.req reply) reply.statusCode } []
  | second {e : Entry} {deliver : Bool} {first : Reply} (checked : Bool) (reply : Reply)
      (hr : c.reader = .second e deliver first) :
      Reads S env c (.second checked reply)
        { c with
          reader := .respond e (deliver && !(checked && (env.done e.req).isSome))
            (secondReply S first reply) first.statusCode } []
  | respond {e : Entry} {deliver : Bool} {reply : Reply} {code : ℤ}
      (hr : c.reader = .respond e deliver reply code) :
      Reads S env c .go { c with reader := .freeInflight e reply code }
        [.answer e.req deliver reply]
  | freeInflight {e : Entry} {reply : Reply} {code : ℤ}
      (hr : c.reader = .freeInflight e reply code) (hpos : 0 < c.inflightSem) :
      Reads S env c .go { c.freeInflight with reader := .freePending e reply code } []
  | freePending {e : Entry} {reply : Reply} {code : ℤ}
      (hr : c.reader = .freePending e reply code) :
      Reads S env c .go
        { (c.freeBackground e.heldBackgroundStat) with
          reader := .freeBody { e with heldBackgroundStat := false, heldPipeline := false }
            reply code } (pendingFreed e)
  | freeBody {e : Entry} {reply : Reply} {code : ℤ} (hr : c.reader = .freeBody e reply code) :
      Reads S env c .go { (c.freeBody e.heldBody) with reader := .decide e reply code } []
  | decide {e : Entry} {reply : Reply} {code : ℤ} {p : Reader}
      (hr : c.reader = .decide e reply code) (hp : p = .retire .lock ∨ p = .top) :
      Reads S env c .go { c with reader := p } []
  | retire {f : Failing} {f' : Option Failing} {d : Conn} {effs : List Effect}
      (hr : c.reader = .retire f) (hf : Fails S c f d f' effs) :
      Reads S env c .go { d with reader := .after f' } effs
  | returned (hr : c.reader = .returned) :
      Reads S env c .go { c with cancelled := true, reader := .ended } []

/-- **`readerLoop` takes no other step.** -/
theorem readerStep_reads {a : ReaderAct} (h : c.readerStep S env a = some (c', effs)) :
    Reads S env c a c' effs := by
  unfold Conn.readerStep at h
  split at h
  case h_1 hr =>
    obtain ⟨e, he, h⟩ := Option.map_eq_some_iff.mp h
    cases h
    exact .topConn hr he
  case h_2 hr =>
    split_ifs at h
    cases h
    exact .topGo hr
  case h_3 hr =>
    obtain ⟨e, he, h⟩ := Option.map_eq_some_iff.mp h
    cases h
    exact .waitConn hr he
  case h_4 hr =>
    split at h <;> cases h
    exact .waitGo hr (by assumption)
  case h_5 hr => cases h; exact .head hr
  case h_6 hr => cases h; exact .controlGo hr
  case h_7 hr =>
    split_ifs at h with hd
    cases h
    exact .controlLimit hr hd.1
  case h_8 hr => cases h; exact .feedMore _ hr
  case h_9 hr => cases h; exact .feedFinish _ _ hr
  case h_10 e deliver reply hr =>
    simp only [Option.some.injEq, Prod.mk.injEq] at h
    obtain ⟨rfl, rfl⟩ := h
    cases hp : (S.info e.req).postMode with
    | false => simpa [Conn.atFed, hp] using Reads.fed hr hp
    | true =>
      by_cases hcode : reply.statusCode = 340
      · simpa [Conn.atFed, hp, hcode] using Reads.fedPost hr hp hcode
      · simpa [Conn.atFed, hp, hcode] using Reads.fedRejected hr hp hcode
  case h_11 hr => cases h; exact .second _ _ hr
  case h_12 hr => cases h; exact .respond hr
  case h_13 hr =>
    split_ifs at h with hpos
    cases h
    exact .freeInflight hr hpos
  case h_14 hr => cases h; exact .freePending hr
  case h_15 hr => cases h; exact .freeBody hr
  case h_16 hr => cases h; exact .decide hr (ite_eq_or_eq ..)
  case h_17 hr =>
    obtain ⟨⟨d, f', fx⟩, hf, h⟩ := Option.map_eq_some_iff.mp h
    cases h
    exact .retire hr (failStep_fails hf)
  case h_18 hr => cases h; exact .returned hr
  case h_19 => cases h

/-! ## `runConnSlot` -/

/-- **The steps of `runConnSlot`.** -/
inductive SlotSteps (S : Setup) (env : Env) (i k : ℕ) (dead : ℕ → Bool) :
    Slot → SlotAct → Slot → List Effect → Option Conn → Prop
  | idlePrio {p : ℕ} {ps : List ℕ} (hp : env.prioCh = p :: ps) :
      SlotSteps S env i k dead .idle .prio (.picked p none) [.takePrio] none
  | idleReq {r : ℕ} {rs : List ℕ} (hr : env.reqCh = r :: rs) :
      SlotSteps S env i k dead .idle .req (.took r) [.takeReq] none
  | idleDone {e : CtxErr} (he : env.slotDone = some e) :
      SlotSteps S env i k dead .idle .slotDone (.returned none) [] none
  | tookGo {r : ℕ} (hp : env.prioCh = []) :
      SlotSteps S env i k dead (.took r) .go (.picked r none) [] none
  | tookPrio {r p : ℕ} {ps : List ℕ} (hp : env.prioCh = p :: ps) :
      SlotSteps S env i k dead (.took r) .go (.picked p (some r)) [.takePrio] none
  | pickedDone {f : ℕ} {s : Option ℕ} {e : CtxErr} (he : env.done f = some e) :
      SlotSteps S env i k dead (.picked f s) .go (.next s) [.fail .slot f e.toError] none
  | pickedGo {f : ℕ} {s : Option ℕ} (he : env.done f = none) :
      SlotSteps S env i k dead (.picked f s) .go (.gate f s) [] none
  | gateGo (f : ℕ) (s : Option ℕ) :
      SlotSteps S env i k dead (.gate f s) .go (.dial f s) [] none
  | gateRefuse {f : ℕ} {s : Option ℕ} (he : env.slotDone.isSome ∨ (env.done f).isSome) :
      SlotSteps S env i k dead (.gate f s) .refuse (.next s)
        [.fail .slot f (.sentinel .canceled)] none
  | dialGo (f : ℕ) (s : Option ℕ) :
      SlotSteps S env i k dead (.dial f s) .go (.greet f s) [] none
  | dialErr (f : ℕ) (s : Option ℕ) (e : GoError) :
      SlotSteps S env i k dead (.dial f s) (.err e) (.backoff s)
        [.fail .slot f (.wrapped S.providerName e)] none
  | greetGo (f : ℕ) (s : Option ℕ) :
      SlotSteps S env i k dead (.greet f s) .go (.run k) [] (some (newConn i f s))
  | greetErr (f : ℕ) (s : Option ℕ) (e : GoError) :
      SlotSteps S env i k dead (.greet f s) (.err e) (.backoff s)
        [.fail .slot f (.wrapped S.providerName e)] none
  | runEnd {j : ℕ} (hd : dead j = true) :
      SlotSteps S env i k dead (.run j) .go .idle [] none
  | backoffGo (s : Option ℕ) :
      SlotSteps S env i k dead (.backoff s) .go (.next s) [] none
  | backoffDone {s : Option ℕ} {e : CtxErr} (he : env.slotDone = some e) :
      SlotSteps S env i k dead (.backoff s) .slotDone (.returned s) [] none

/-- **`runConnSlot` takes no other step.** -/
theorem slotStep_slotSteps {i k : ℕ} {dead : ℕ → Bool} {p q : Slot} {a : SlotAct}
    {made : Option Conn} (h : p.step S env i k dead a = some (q, effs, made)) :
    SlotSteps S env i k dead p a q effs made := by
  unfold Slot.step at h
  split at h
  case h_1 =>
    obtain ⟨r, hr, h⟩ := Option.map_eq_some_iff.mp h
    obtain ⟨rs, hr⟩ := List.head?_eq_some_iff.mp hr
    cases h
    exact .idlePrio hr
  case h_2 =>
    obtain ⟨r, hr, h⟩ := Option.map_eq_some_iff.mp h
    obtain ⟨rs, hr⟩ := List.head?_eq_some_iff.mp hr
    cases h
    exact .idleReq hr
  case h_3 =>
    obtain ⟨e, he, h⟩ := Option.map_eq_some_iff.mp h
    cases h
    exact .idleDone he
  case h_4 =>
    split at h <;> cases h
    · exact .tookGo (by assumption)
    · exact .tookPrio (by assumption)
  case h_5 =>
    split at h <;> cases h
    · exact .pickedDone (by assumption)
    · exact .pickedGo (by assumption)
  case h_6 => cases h; exact .gateGo _ _
  case h_7 =>
    split_ifs at h with he
    cases h
    exact .gateRefuse he
  case h_8 => cases h; exact .dialGo _ _
  case h_9 => cases h; exact .dialErr _ _ _
  case h_10 => cases h; exact .greetGo _ _
  case h_11 => cases h; exact .greetErr _ _ _
  case h_12 =>
    split_ifs at h with hd
    cases h
    exact .runEnd hd
  case h_13 => cases h; exact .backoffGo _
  case h_14 =>
    obtain ⟨e, he, h⟩ := Option.map_eq_some_iff.mp h
    cases h
    exact .backoffDone he
  case h_15 => cases h

/-! ## The pool -/

/-- A connection's step. -/
theorem connStep_eq_some {s s' : State} {k : ℕ} {a : ConnAct}
    (h : s.connStep S k a = some (s', effs)) :
    ∃ c c', s.conns[k]? = some c ∧ c.step S (s.env S) a = some (c', effs) ∧
      s' = effs.foldl State.apply { s with conns := s.conns.set k c' } := by
  obtain ⟨c, hc, h⟩ := Option.bind_eq_some_iff.mp h
  obtain ⟨⟨c', fx⟩, hs, h⟩ := Option.map_eq_some_iff.mp h
  cases h
  exact ⟨c, c', hc, hs, rfl⟩

/-- The connections whose `Run` has returned. -/
def State.dead (s : State) (k : ℕ) : Bool := s.conns[k]?.any fun c => c.writer == .dead

/-- **The steps of the pool.** A request that is handed over directly is
accepted before the connection takes it. -/
inductive Acts (S : Setup) (s : State) : Label → State → List Effect → Prop
  | cancelClient (e : CtxErr) (h : s.client = none) :
      Acts S s (.cancelClient e) { s with client := some e } []
  | removeProvider : Acts S s .removeProvider { s with removed := true } []
  | cancelCaller {k : ℕ} (e : CtxErr) (h : s.caller k = none) :
      Acts S s (.cancelCaller k e) { s with caller := Function.update s.caller k (some e) } []
  | start {r : ℕ} (ha : s.attempt r = .unmade) (hk : (S.info r).keepalive = false)
      (hc : s.current (S.info r).call = none) (hd : s.delivered (S.info r).call = false) :
      Acts S s (.start r) { s with
        attempt := Function.update s.attempt r .entering
        current := Function.update s.current (S.info r).call (some r) } []
  | sendPrio {r : ℕ} (ha : s.attempt r = .entering) (hp : (S.info r).priority = true) :
      Acts S s (.send r) { s.accepted r with prioCh := s.prioCh ++ [r] } []
  | sendReq {r : ℕ} (ha : s.attempt r = .entering) (hp : (S.info r).priority = false) :
      Acts S s (.send r) { s.accepted r with reqCh := s.reqCh ++ [r] } []
  | sendHot {r k : ℕ} {a : WriterAct} {c c' : Conn} {effs : List Effect}
      (ha : s.attempt r = .entering)
      (hhot : a = .hotPrio r ∧ (S.info r).priority = true ∨ a = .hotReq r)
      (hc : s.conns[k]? = some c)
      (hs : c.step S ((s.accepted r).env S) (.writer a) = some (c', effs)) :
      Acts S s (.sendHot r k)
        (effs.foldl State.apply { s.accepted r with conns := s.conns.set k c' }) effs
  | receive {r : ℕ} (ha : s.attempt r = .waiting) (hr : (s.ch r).buf.isSome ∨ (s.ch r).closed) :
      Acts S s (.receive r)
        { s.leave S r with ch := Function.update s.ch r { s.ch r with buf := none } } []
  | giveUp {r : ℕ} {why : Why}
      (ha : s.attempt r = .entering ∨ s.attempt r = .waiting ∧ (S.info r).postMode = false)
      (hcause : (s.cause (S.info r).call why).isSome) :
      Acts S s (.giveUp r why) (s.leave S r) []
  | deliver {k : ℕ} (hc : s.current k = none) (hd : s.delivered k = false) :
      Acts S s (.deliver k) { s with delivered := Function.update s.delivered k true } []
  | slot {i : ℕ} {a : SlotAct} {p q : Slot} {made : Option Conn} {effs : List Effect}
      (hp : s.slots[i]? = some p)
      (hs : SlotSteps S (s.env S) i s.conns.length s.dead p a q effs made) :
      Acts S s (.slot i a)
        (effs.foldl State.apply
          { s with slots := s.slots.set i q, conns := s.conns ++ made.toList }) effs
  | conn {k : ℕ} {a : ConnAct} {c c' : Conn} {effs : List Effect} (hallows : s.allows a = true)
      (hc : s.conns[k]? = some c) (hs : c.step S (s.env S) a = some (c', effs)) :
      Acts S s (.conn k a) (effs.foldl State.apply { s with conns := s.conns.set k c' }) effs

/-- **The pool takes no other step.** -/
theorem act_acts {s s' : State} {l : Label} (h : s.act S l = some (s', effs)) :
    Acts S s l s' effs := by
  cases l with
  | cancelClient e =>
    simp only [State.act] at h
    split_ifs at h with hc
    cases h
    exact .cancelClient e (by simpa using hc)
  | removeProvider => cases h; exact .removeProvider
  | cancelCaller k e =>
    simp only [State.act] at h
    split_ifs at h with hc
    cases h
    exact .cancelCaller e (by simpa using hc)
  | start r =>
    simp only [State.act] at h
    split_ifs at h with hg
    cases h
    exact .start hg.1 hg.2.1 hg.2.2.1 hg.2.2.2
  | send r =>
    simp only [State.act] at h
    split_ifs at h with ha hp hlt hlt <;> cases h
    · exact .sendPrio (not_not.mp ha) hp
    · exact .sendReq (not_not.mp ha) (by simpa using hp)
  | sendHot r k =>
    simp only [State.act] at h
    split_ifs at h with ha hp
    · obtain ⟨c, c', hc, hs, rfl⟩ := connStep_eq_some h
      exact .sendHot ha (.inl ⟨rfl, hp⟩) hc hs
    · obtain ⟨c, c', hc, hs, rfl⟩ := connStep_eq_some h
      exact .sendHot ha (.inr rfl) hc hs
  | receive r =>
    simp only [State.act] at h
    split_ifs at h with hg
    cases h
    exact .receive hg.1 hg.2
  | giveUp r why =>
    simp only [State.act] at h
    split_ifs at h with hg
    cases h
    exact .giveUp hg.1 hg.2
  | deliver k =>
    simp only [State.act] at h
    split_ifs at h with hg
    cases h
    exact .deliver hg.1 hg.2
  | slot i a =>
    obtain ⟨p, hp, h⟩ := Option.bind_eq_some_iff.mp h
    obtain ⟨⟨q, fx, made⟩, hs, h⟩ := Option.map_eq_some_iff.mp h
    cases h
    exact .slot hp (slotStep_slotSteps hs)
  | conn k a =>
    simp only [State.act] at h
    split_ifs at h with hallows
    obtain ⟨c, c', hc, hs, rfl⟩ := connStep_eq_some h
    exact .conn hallows hc hs

/-- A step has its effects. -/
theorem step_eq_some {s s' : State} {l : Label} :
    step S s l = some s' ↔ ∃ effs, s.act S l = some (s', effs) := by
  simp [step, Option.map_eq_some_iff]

/-! ## Effects on the pool -/

/-- What no effect touches. -/
theorem foldl_apply_eq {β : Type} (f : State → β) (hf : ∀ s x, f (s.apply x) = f s) (s : State)
    (effs : List Effect) : f (effs.foldl State.apply s) = f s := by
  induction effs generalizing s with
  | nil => rfl
  | cons x xs ih => rw [List.foldl_cons, ih, hf]

@[simp] theorem foldl_apply_client (s : State) (effs : List Effect) :
    (effs.foldl State.apply s).client = s.client :=
  foldl_apply_eq State.client (fun _ x => by cases x <;> rfl) s effs

@[simp] theorem foldl_apply_removed (s : State) (effs : List Effect) :
    (effs.foldl State.apply s).removed = s.removed :=
  foldl_apply_eq State.removed (fun _ x => by cases x <;> rfl) s effs

@[simp] theorem foldl_apply_caller (s : State) (effs : List Effect) :
    (effs.foldl State.apply s).caller = s.caller :=
  foldl_apply_eq State.caller (fun _ x => by cases x <;> rfl) s effs

@[simp] theorem foldl_apply_current (s : State) (effs : List Effect) :
    (effs.foldl State.apply s).current = s.current :=
  foldl_apply_eq State.current (fun _ x => by cases x <;> rfl) s effs

@[simp] theorem foldl_apply_delivered (s : State) (effs : List Effect) :
    (effs.foldl State.apply s).delivered = s.delivered :=
  foldl_apply_eq State.delivered (fun _ x => by cases x <;> rfl) s effs

@[simp] theorem foldl_apply_slots (s : State) (effs : List Effect) :
    (effs.foldl State.apply s).slots = s.slots :=
  foldl_apply_eq State.slots (fun _ x => by cases x <;> rfl) s effs

@[simp] theorem foldl_apply_conns (s : State) (effs : List Effect) :
    (effs.foldl State.apply s).conns = s.conns :=
  foldl_apply_eq State.conns (fun _ x => by cases x <;> rfl) s effs

/-! ## Connections that come and go -/

/-- **A connection behind a step** is one from before, or took the step,
or is new. -/
inductive Origin (S : Setup) (s : State) (l : Label) (s' : State) (effs : List Effect) (k : ℕ)
    (c' : Conn) : Prop
  | old (h : s.conns[k]? = some c')
  | stepped {env : Env} {a : ConnAct} {c : Conn} (h : s.conns[k]? = some c)
      (hl : l = .conn k a ∧ env = s.env S ∨
        ∃ r, l = .sendHot r k ∧ (a = .writer (.hotPrio r) ∨ a = .writer (.hotReq r)))
      (hprio : env.prioCh = s.prioCh)
      (hhot : ∀ r, a = .writer (.hotPrio r) → (S.info r).priority = true)
      (hs : c.step S env a = some (c', effs))
  | new {i first : ℕ} {second : Option ℕ} (h : c' = newConn i first second)
      (hk : k = s.conns.length) (hi : s.slots[i]? = some (.greet first second))
      (hrun : s'.slots[i]? = some (.run k))

theorem Acts.origin {s s' : State} {l : Label} (h : Acts S s l s' effs) {k : ℕ}
    (hc : s'.conns[k]? = some c') : Origin S s l s' effs k c' := by
  have hset {j : ℕ} {b b' : Conn} {a : ConnAct} {env : Env} (hb : s.conns[j]? = some b)
      (hs : b.step S env a = some (b', effs))
      (hl : l = .conn j a ∧ env = s.env S ∨
        ∃ r, l = .sendHot r j ∧ (a = .writer (.hotPrio r) ∨ a = .writer (.hotReq r)))
      (hprio : env.prioCh = s.prioCh)
      (hhot : ∀ r, a = .writer (.hotPrio r) → (S.info r).priority = true)
      (hset : (s.conns.set j b')[k]? = some c') : Origin S s l s' effs k c' := by
    rw [List.getElem?_set] at hset
    split_ifs at hset with hjk hlt
    · subst hjk
      obtain rfl := Option.some.inj hset
      exact .stepped hb hl hprio hhot hs
    · exact .old hset
  cases h with
  | @sendHot n _ _ _ _ _ ha hhot hb hs =>
    rw [foldl_apply_conns] at hc
    rcases hhot with ⟨rfl, hp⟩ | rfl
    · refine hset hb hs (.inr ⟨n, rfl, .inl rfl⟩) rfl (fun m hm => ?_) hc
      cases hm
      exact hp
    · exact hset hb hs (.inr ⟨n, rfl, .inr rfl⟩) rfl nofun hc
  | conn hallows hb hs =>
    rw [foldl_apply_conns] at hc
    refine hset hb hs (.inl ⟨rfl, rfl⟩) rfl (fun m hm => ?_) hc
    subst hm
    cases hallows
  | slot hp hs =>
    rw [foldl_apply_conns] at hc
    simp only [List.getElem?_append] at hc
    split_ifs at hc with hlt
    · exact .old hc
    · cases hs
      case greetGo =>
        obtain ⟨hk, hnew⟩ := List.getElem?_eq_some_iff.mp hc
        have hlen : k = s.conns.length := by
          simp only [Option.toList_some, List.length_singleton] at hk
          omega
        have hi := (List.getElem?_eq_some_iff.mp hp).1
        exact .new (by simpa [hlen] using hnew.symm) hlen hp (by simp [hlen, hi])
      all_goals simp at hc
  | _ => exact .old hc

/-- What a new connection has and every step of one keeps, a step of the
pool keeps. -/
theorem Acts.conns {I : Conn → Prop} {s s' : State} {l : Label} (h : Acts S s l s' effs)
    (hnew : ∀ i first second, I (newConn i first second))
    (hstep : ∀ {env a c c' effs}, c.step S env a = some (c', effs) → I c → I c')
    (hs : ∀ c ∈ s.conns, I c) : ∀ c ∈ s'.conns, I c := by
  intro c' hc'
  obtain ⟨k, hk⟩ := List.mem_iff_getElem?.mp hc'
  cases h.origin hk with
  | old hc => exact hs c' (List.mem_of_getElem? hc)
  | stepped hc hl hprio hhot hconn => exact hstep hconn (hs _ (List.mem_of_getElem? hc))
  | new heq => exact heq ▸ hnew ..

/-- **What every connection starts with and keeps.** -/
theorem conns_invariant {I : Conn → Prop}
    (hnew : ∀ i first second, I (newConn i first second))
    (hstep : ∀ {env a c c' effs}, c.step S env a = some (c', effs) → I c → I c')
    {ls : List Label} {s : State} (h : exec (step S) (start S) ls = some s) :
    ∀ c ∈ s.conns, I c := by
  refine exec_invariant (I := fun s => ∀ c ∈ s.conns, I c) (P := fun _ _ => True) ?_ ls
    (by simp [start]) (along_true _ _) h
  intro s l s' hs _ hs'
  obtain ⟨effs, hact⟩ := step_eq_some.1 hs'
  exact (act_acts hact).conns hnew hstep hs

end Pool

end NntpPool
