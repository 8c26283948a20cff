import NntpPool.Pool.Stranded
/-!
# Pool — how much a connection has outstanding

Three semaphores bound what a connection has written and not finished:
one for the whole pipeline, one for bodies, one for STATs without
priority. A request carries flags for the slots it holds. A `slip` is a
request with its flags, wherever it is; the counts of the flags are
bounded by the semaphores, and equal to the gauges.

`failOutstanding` gives the slot of a background STAT back before it
fails the request. In between the STAT is `faded`: it is outstanding, and
its slot may be taken by the next one.
-/

namespace NntpPool

namespace Pool

variable {S : Setup} {env : Env} {s s' : State} {l : Label} {c c' : Conn} {effs : List Effect}

/-! ## Slips -/

/-- A request whose slots of the gauges are given back. -/
def Entry.fade (e : Entry) : Entry := { e with heldBackgroundStat := false, heldPipeline := false }

def Failing.slips : Failing → List Entry
  | .popped e => [e]
  | .released e => [e.fade]
  | _ => []

/-- What `Run` holds slots for: the request it works on, once it may have
one, or what `failOutstanding` has taken. -/
def Writer.slips (unsent : Option ℕ) : Writer → List Entry
  | .background _ hb => unsent.toList.map fun r => ⟨r, hb, false, false⟩
  | .write hb hg => unsent.toList.map fun r => ⟨r, hb, hg, false⟩
  | .flushPost hb hg => unsent.toList.map fun r => ⟨r, hb, hg, false⟩
  | .enqueue hb hg => unsent.toList.map fun r => ⟨r, hb, hg, false⟩
  | .abort f => f.slips
  | .closing f => f.slips
  | _ => []

/-- What `readerLoop` holds slots for. -/
def Reader.slips : Reader → List Entry
  | .head e => [e]
  | .control e _ => [e]
  | .feed e _ => [e]
  | .fed e _ _ => [e]
  | .second e _ _ => [e]
  | .respond e _ _ _ => [e]
  | .freeInflight e _ _ => [e]
  | .freePending e _ _ => [e]
  | .freeBody e _ _ => [e.fade]
  | .retire f => f.slips
  | _ => []

def Conn.slips (c : Conn) : List Entry := c.writer.slips c.unsent ++ c.pending ++ c.reader.slips

/-- The number of requests that hold a slot. -/
def Conn.bodies (c : Conn) : ℕ := shares (fun e => e.heldBody.toNat) c.slips

def Conn.backgrounds (c : Conn) : ℕ := shares (fun e => e.heldBackgroundStat.toNat) c.slips

def Conn.pipelined (c : Conn) : ℕ := shares (fun e => e.heldPipeline.toNat) c.slips

/-! ## Slots of the pipeline -/

def Failing.token : Failing → ℕ
  | .popped _ => 1
  | .released _ => 1
  | .failed => 1
  | _ => 0

/-- `Run` holds a slot of the pipeline from before it looks for a request
until the request is on the queue. -/
def Writer.token : Writer → ℕ
  | .flush | .look | .take _ | .blocked | .normal | .wait | .chosen _ | .got => 1
  | .body _ | .background _ _ | .write _ _ | .flushPost _ _ | .enqueue _ _ | .keepalive _ => 1
  | .abort f => f.token
  | .closing f => f.token
  | _ => 0

def Reader.token : Reader → ℕ
  | .head _ | .control _ _ | .feed _ _ | .fed _ _ _ | .second _ _ _ => 1
  | .respond _ _ _ _ | .freeInflight _ _ _ => 1
  | .retire f => f.token
  | _ => 0

/-- The slots of the pipeline that are held. -/
def Conn.tokens (c : Conn) : ℕ := c.writer.token + c.pending.length + c.reader.token

@[simp] theorem Writer.token_abort (f : Failing) : (Writer.abort f).token = f.token := rfl

@[simp] theorem Writer.token_closing (f : Failing) : (Writer.closing f).token = f.token := rfl

@[simp] theorem Reader.token_retire (f : Failing) : (Reader.retire f).token = f.token := rfl

@[simp] theorem Writer.slips_abort (unsent : Option ℕ) (f : Failing) :
    (Writer.abort f).slips unsent = f.slips := rfl

@[simp] theorem Writer.slips_closing (unsent : Option ℕ) (f : Failing) :
    (Writer.closing f).slips unsent = f.slips := rfl

@[simp] theorem Reader.slips_retire (f : Failing) : (Reader.retire f).slips = f.slips := rfl

/-! ## Steps of `failOutstanding` -/

/-- It keeps the slot of a request until it has failed it. -/
theorem Fails.tokens {f : Failing} {f' : Option Failing} (h : Fails S c f c' f' effs) :
    c'.pending.length + (f'.elim 0 Failing.token) + c.inflightSem ≤
      c.pending.length + f.token + c'.inflightSem ∧ c'.inflightSem ≤ c.inflightSem := by
  cases h with
  | lock h => simp [Failing.token]
  | empty h => simp [Failing.token]
  | pop h => simp [Failing.token, h, Nat.add_assoc]
  | release e => simp [Failing.token, Conn.freeBackground_eq]
  | fail e => simp [Failing.token]
  | free =>
    simp [Failing.token, Conn.freeInflight]
    omega

/-- **A step of `Run` takes and gives back slots of the pipeline.** -/
theorem Writes.tokens {a : WriterAct} (h : Writes S env c a c' effs)
    (hle : c.tokens ≤ c.inflightSem) (hlimit : c.inflightSem ≤ S.limits.inflight) :
    c'.tokens ≤ c'.inflightSem ∧ c'.inflightSem ≤ S.limits.inflight := by
  cases h
  case abort f f' d hw hf | closing f f' d hw hf =>
    obtain ⟨htok, hsem⟩ := hf.tokens
    have hreader := hf.frame.2.2.1
    cases f' <;> simp_all [Conn.tokens, Writer.after, Writer.token] <;> omega
  case' takeGo b _ _ => cases b
  case' postReady b _ _ => cases b
  case' keepaliveAnswer hto => rcases hto with rfl | rfl
  all_goals
    have hw := ‹c.writer = _›
    simp only [Conn.tokens, Writer.token, hw] at hle
    simp only [Conn.tokens, Writer.token, Failing.token, hw, Conn.freeInflight, Conn.freeBody_eq,
      Conn.freeBackground_eq, List.length_append, List.length_singleton, Bool.false_eq_true,
      if_true, if_false]
    omega

theorem Reads.tokens {a : ReaderAct} (h : Reads S env c a c' effs)
    (hle : c.tokens ≤ c.inflightSem) (hlimit : c.inflightSem ≤ S.limits.inflight) :
    c'.tokens ≤ c'.inflightSem ∧ c'.inflightSem ≤ S.limits.inflight := by
  cases h
  case retire f f' d hr hf =>
    obtain ⟨htok, hsem⟩ := hf.tokens
    have hwriter := hf.frame.2.1
    cases f' <;> simp_all [Conn.tokens, Reader.after, Reader.token] <;> omega
  case' decide hto => rcases hto with rfl | rfl
  all_goals
    simp_all [Conn.tokens, Reader.token, Failing.token, Conn.freeInflight, Conn.freeBody_eq,
      Conn.freeBackground_eq]
  all_goals omega

/-! ## Slots of bodies and background STATs -/

theorem Fails.bodies {f : Failing} {f' : Option Failing} (h : Fails S c f c' f' effs) :
    shares (fun e => e.heldBody.toNat) c'.pending +
        shares (fun e => e.heldBody.toNat) (f'.elim [] Failing.slips) ≤
      shares (fun e => e.heldBody.toNat) c.pending +
        shares (fun e => e.heldBody.toNat) f.slips ∧
      c'.bodySem = c.bodySem := by
  cases h with
  | lock h => simp [Failing.slips]
  | empty h => simp [Failing.slips]
  | pop h => simp [Failing.slips, h, Nat.add_comm]
  | release e => simp [Failing.slips, Entry.fade, Conn.freeBackground_eq]
  | fail e => simp [Failing.slips]
  | free => simp [Failing.slips, Conn.freeInflight]

/-- `Run` holds no slot of its own behind the step. -/
theorem Conn.bodies_le {m : ℕ} (h : c.bodies ≤ m) (hw : c'.writer.slips c'.unsent = [])
    (hp : c'.pending = c.pending) (hr : c'.reader = c.reader) : c'.bodies ≤ m := by
  simp only [Conn.bodies, Conn.slips, shares_append] at h
  simp only [Conn.bodies, Conn.slips, hw, hp, hr, List.nil_append, shares_append]
  omega

/-- **The holders of a body slot are counted by its semaphore.** -/
theorem Writes.bodies {a : WriterAct} (h : Writes S env c a c' effs)
    (hle : c.bodies ≤ c.bodySem) (hlimit : c.bodySem ≤ S.limits.body) :
    c'.bodies ≤ c'.bodySem ∧ c'.bodySem ≤ S.limits.body := by
  cases h
  case abort f f' d hw hf | closing f f' d hw hf =>
    obtain ⟨hcount, hsem⟩ := hf.bodies
    have hreader := hf.frame.2.2.1
    cases f' <;> simp_all [Conn.bodies, Conn.slips, Writer.after, Writer.slips] <;> omega
  -- the request gets a slot, gives it back, or keeps it until it is on the queue
  case bodyCheap hw hu _ | bodyGo hw hu _ _ | backgroundNot hw hu _ | backgroundGo hw hu _ _ |
      backgroundFullFirst hw hu _ _ | backgroundFull hw hu _ _ | writePost hw hu _ |
      writeGo hw hu _ | flushPostGo hw hu | enqueuePost hw hu _ _ | enqueueGo hw hu _ _ =>
    simp [Conn.bodies, Conn.slips, Writer.slips, hw, hu] at hle
    simp [Conn.bodies, Conn.slips, Writer.slips, hu, Conn.freeInflight, Conn.freeBody_eq]
    omega
  case keepaliveGo hw _ =>
    simp [Conn.bodies, Conn.slips, Writer.slips, hw] at hle
    simp [Conn.bodies, Conn.slips, Writer.slips]
    omega
  case writeErr =>
    simp only [Conn.freeInflight, Conn.freeBackground_eq]
    exact ⟨Conn.bodies_le hle rfl rfl rfl, hlimit⟩
  case drainGo hw _ => exact ⟨Conn.bodies_le hle (by rw [hw]; rfl) rfl rfl, hlimit⟩
  case' takeGo b _ _ => cases b
  case' postReady b _ _ => cases b
  case' keepaliveAnswer hto => rcases hto with rfl | rfl
  all_goals exact ⟨Conn.bodies_le hle rfl rfl rfl, hlimit⟩

theorem Reads.bodies {a : ReaderAct} (h : Reads S env c a c' effs)
    (hle : c.bodies ≤ c.bodySem) (hlimit : c.bodySem ≤ S.limits.body) :
    c'.bodies ≤ c'.bodySem ∧ c'.bodySem ≤ S.limits.body := by
  cases h
  case retire f f' d hr hf =>
    obtain ⟨hcount, hsem⟩ := hf.bodies
    obtain ⟨-, hw, -, hu, -⟩ := hf.frame
    cases f' <;> simp_all [Conn.bodies, Conn.slips, Reader.after, Reader.slips] <;> omega
  case' decide hto => rcases hto with rfl | rfl
  all_goals
    simp_all [Conn.bodies, Conn.slips, Reader.slips, Failing.slips, Entry.fade,
      Conn.freeInflight, Conn.freeBody_eq, Conn.freeBackground_eq]
  all_goals omega

/-! ## The gauges -/

def Effect.background : Effect → ℤ
  | .backgroundStatInUse d => d
  | _ => 0

def Effect.pipeline : Effect → ℤ
  | .pipelineInUse d => d
  | _ => 0

/-- What effects do to `BackgroundStatInUse`, and to `PipelineInUse`. -/
def backgroundBy (effs : List Effect) : ℤ := (effs.map Effect.background).sum

def pipelineBy (effs : List Effect) : ℤ := (effs.map Effect.pipeline).sum

@[simp] theorem backgroundBy_nil : backgroundBy [] = 0 := rfl

@[simp] theorem pipelineBy_nil : pipelineBy [] = 0 := rfl

@[simp] theorem backgroundBy_cons (x : Effect) (xs : List Effect) :
    backgroundBy (x :: xs) = x.background + backgroundBy xs := by simp [backgroundBy]

@[simp] theorem pipelineBy_cons (x : Effect) (xs : List Effect) :
    pipelineBy (x :: xs) = x.pipeline + pipelineBy xs := by simp [pipelineBy]

@[simp] theorem backgroundBy_append (xs ys : List Effect) :
    backgroundBy (xs ++ ys) = backgroundBy xs + backgroundBy ys := by simp [backgroundBy]

@[simp] theorem pipelineBy_append (xs ys : List Effect) :
    pipelineBy (xs ++ ys) = pipelineBy xs + pipelineBy ys := by simp [pipelineBy]

@[simp] theorem backgroundBy_backgroundFreed (held : Bool) :
    backgroundBy (backgroundFreed held) = -held.toNat := by
  cases held <;> rfl

@[simp] theorem pipelineBy_backgroundFreed (held : Bool) :
    pipelineBy (backgroundFreed held) = 0 := by
  cases held <;> rfl

@[simp] theorem backgroundBy_pendingFreed (e : Entry) :
    backgroundBy (pendingFreed e) = -e.heldBackgroundStat.toNat := by
  rcases e with ⟨r, hb, _ | _, _ | _⟩ <;> rfl

@[simp] theorem pipelineBy_pendingFreed (e : Entry) :
    pipelineBy (pendingFreed e) = -e.heldPipeline.toNat := by
  rcases e with ⟨r, hb, _ | _, _ | _⟩ <;> rfl

@[simp] theorem backgroundBy_exitFails (r : Option ℕ) : backgroundBy (exitFails r) = 0 := by
  cases r <;> rfl

@[simp] theorem pipelineBy_exitFails (r : Option ℕ) : pipelineBy (exitFails r) = 0 := by
  cases r <;> rfl

@[simp] theorem backgroundBy_wroteTo (r : ℕ) (deliver wrote : Bool) :
    backgroundBy (wroteTo S r deliver wrote) = 0 := by
  unfold wroteTo
  split <;> rfl

@[simp] theorem pipelineBy_wroteTo (r : ℕ) (deliver wrote : Bool) :
    pipelineBy (wroteTo S r deliver wrote) = 0 := by
  unfold wroteTo
  split <;> rfl

theorem foldl_apply_gauge (s : State) (effs : List Effect) :
    (effs.foldl State.apply s).backgroundStatInUse = s.backgroundStatInUse + backgroundBy effs ∧
      (effs.foldl State.apply s).pipelineInUse = s.pipelineInUse + pipelineBy effs := by
  induction effs generalizing s with
  | nil => simp
  | cons x xs ih =>
    obtain ⟨hb, hp⟩ := ih (s.apply x)
    rw [List.foldl_cons, hb, hp]
    cases x <;> simp [State.apply, Effect.background, Effect.pipeline, add_assoc]

/-- The gauges move with the flags. -/
theorem Fails.gauges {f : Failing} {f' : Option Failing} (h : Fails S c f c' f' effs) :
    ((shares (fun e => e.heldBackgroundStat.toNat) c'.pending +
        shares (fun e => e.heldBackgroundStat.toNat) (f'.elim [] Failing.slips) : ℕ) : ℤ) =
      (shares (fun e => e.heldBackgroundStat.toNat) c.pending +
        shares (fun e => e.heldBackgroundStat.toNat) f.slips : ℕ) + backgroundBy effs ∧
    ((shares (fun e => e.heldPipeline.toNat) c'.pending +
        shares (fun e => e.heldPipeline.toNat) (f'.elim [] Failing.slips) : ℕ) : ℤ) =
      (shares (fun e => e.heldPipeline.toNat) c.pending +
        shares (fun e => e.heldPipeline.toNat) f.slips : ℕ) + pipelineBy effs := by
  cases h with
  | lock h => simp [Failing.slips]
  | empty h => simp [Failing.slips]
  | pop h => simp [Failing.slips, h, Int.add_comm]
  | release e => simp [Failing.slips, Entry.fade, Conn.freeBackground_eq]
  | fail e => simp [Failing.slips, Entry.fade, Effect.background, Effect.pipeline]
  | free => simp [Failing.slips, Conn.freeInflight]

/-- **`Run` takes and gives back a slot with its flag.** A POST takes no
slot of the background STATs. -/
theorem Writes.gauges {a : WriterAct} (h : Writes S env c a c' effs)
    (hpost : ∀ hb, c.writer ≠ .flushPost hb true) :
    (c'.backgrounds : ℤ) = c.backgrounds + backgroundBy effs ∧
      (c'.pipelined : ℤ) = c.pipelined + pipelineBy effs := by
  cases h
  case abort f f' d hw hf | closing f f' d hw hf =>
    obtain ⟨hb, hp⟩ := hf.gauges
    have hreader := hf.frame.2.2.1
    cases f' <;>
      simp_all [Conn.backgrounds, Conn.pipelined, Conn.slips, Writer.after, Writer.slips] <;>
      omega
  case' takeGo b _ _ => cases b
  case' postReady b _ _ => cases b
  case' keepaliveAnswer hto => rcases hto with rfl | rfl
  all_goals
    simp_all [Conn.backgrounds, Conn.pipelined, Conn.slips, Writer.slips, Failing.slips,
      Effect.background, Effect.pipeline, Conn.freeInflight, Conn.freeBody_eq,
      Conn.freeBackground_eq]
  all_goals omega

theorem Reads.gauges {a : ReaderAct} (h : Reads S env c a c' effs) :
    (c'.backgrounds : ℤ) = c.backgrounds + backgroundBy effs ∧
      (c'.pipelined : ℤ) = c.pipelined + pipelineBy effs := by
  cases h
  case retire f f' d hr hf =>
    obtain ⟨hb, hp⟩ := hf.gauges
    obtain ⟨-, hw, -, hu, -⟩ := hf.frame
    cases f' <;>
      simp_all [Conn.backgrounds, Conn.pipelined, Conn.slips, Reader.after, Reader.slips] <;>
      omega
  case' decide hto => rcases hto with rfl | rfl
  all_goals
    simp_all [Conn.backgrounds, Conn.pipelined, Conn.slips, Reader.slips, Failing.slips,
      Entry.fade, Effect.background, Effect.pipeline, Conn.freeInflight, Conn.freeBody_eq,
      Conn.freeBackground_eq]
  all_goals omega

/-- The semaphore of the background STATs moves with its gauge. -/
theorem Fails.backgroundSem {f : Failing} {f' : Option Failing} (h : Fails S c f c' f' effs)
    (hle : shares (fun e => e.heldBackgroundStat.toNat) f.slips ≤ c.backgroundStatSem) :
    (c'.backgroundStatSem : ℤ) = c.backgroundStatSem + backgroundBy effs ∧
      c'.backgroundStatSem ≤ c.backgroundStatSem := by
  cases h with
  | release e =>
    simp [Failing.slips, Conn.freeBackground_eq] at hle ⊢
    omega
  | fail e => simp [Effect.background]
  | free => simp [Conn.freeInflight]
  | _ => simp

theorem Writes.backgroundSem {a : WriterAct} (h : Writes S env c a c' effs)
    (hle : c.backgrounds ≤ c.backgroundStatSem)
    (hlimit : c.backgroundStatSem ≤ S.limits.background) :
    (c'.backgroundStatSem : ℤ) = c.backgroundStatSem + backgroundBy effs ∧
      c'.backgroundStatSem ≤ S.limits.background := by
  cases h
  case abort f f' d hw hf =>
    obtain ⟨heq, hsem⟩ := hf.backgroundSem (by
      simp only [Conn.backgrounds, Conn.slips, hw, Writer.slips_abort, shares_append] at hle
      omega)
    exact ⟨heq, hsem.trans hlimit⟩
  case closing f f' d hw hf =>
    obtain ⟨heq, hsem⟩ := hf.backgroundSem (by
      simp only [Conn.backgrounds, Conn.slips, hw, Writer.slips_closing, shares_append] at hle
      omega)
    exact ⟨heq, hsem.trans hlimit⟩
  case writeErr hg e hw hu =>
    simp [Conn.backgrounds, Conn.slips, Writer.slips, hw, hu] at hle
    simp [Effect.background, Conn.freeInflight, Conn.freeBackground_eq]
    omega
  case backgroundGo hlt => exact ⟨by simp [Effect.background], Nat.succ_le_of_lt hlt⟩
  all_goals simp_all [Effect.background, Conn.freeInflight, Conn.freeBody_eq]

theorem Reads.backgroundSem {a : ReaderAct} (h : Reads S env c a c' effs)
    (hle : c.backgrounds ≤ c.backgroundStatSem)
    (hlimit : c.backgroundStatSem ≤ S.limits.background) :
    (c'.backgroundStatSem : ℤ) = c.backgroundStatSem + backgroundBy effs ∧
      c'.backgroundStatSem ≤ S.limits.background := by
  cases h
  case retire f f' d hr hf =>
    obtain ⟨heq, hsem⟩ := hf.backgroundSem (by
      simp only [Conn.backgrounds, Conn.slips, hr, Reader.slips_retire, shares_append] at hle
      omega)
    exact ⟨heq, hsem.trans hlimit⟩
  case freePending e _ _ hr =>
    simp [Conn.backgrounds, Conn.slips, Reader.slips, hr] at hle
    simp [Conn.freeBackground_eq]
    omega
  all_goals simp_all [Effect.background, Conn.freeInflight, Conn.freeBody_eq]

/-! ## What is outstanding -/

/-- The request needs a slot of the bodies: it is neither a STAT nor a
keepalive. -/
def Setup.needsBody (S : Setup) (r : ℕ) : Bool :=
  !isCheapCommand (S.info r).payload && !(S.info r).keepalive

/-- A STAT without priority. A keepalive is none, whatever its command. -/
def Setup.backgroundStat (S : Setup) (r : ℕ) : Bool :=
  S.isBackground r && !(S.info r).keepalive

/-- What `Run` has written and not put on the queue, and what
`failOutstanding` has taken off it. -/
def Writer.written (unsent : Option ℕ) : Writer → List ℕ
  | .flushPost _ _ => unsent.toList
  | .enqueue _ _ => unsent.toList
  | .abort f => f.held
  | .closing f => f.held
  | _ => []

/-- **The commands that are written and neither answered nor failed.** -/
def Conn.outstanding (c : Conn) : List ℕ :=
  c.writer.written c.unsent ++ c.pending.map Entry.req ++ c.reader.held

/-- Slips with all their flags. -/
def Failing.whole : Failing → List Entry
  | .popped e => [e]
  | _ => []

def Writer.whole (unsent : Option ℕ) : Writer → List Entry
  | .write hb hg => unsent.toList.map fun r => ⟨r, hb, hg, false⟩
  | .flushPost hb hg => unsent.toList.map fun r => ⟨r, hb, hg, false⟩
  | .enqueue hb hg => unsent.toList.map fun r => ⟨r, hb, hg, false⟩
  | .abort f => f.whole
  | .closing f => f.whole
  | _ => []

def Reader.whole : Reader → List Entry
  | .head e => [e]
  | .control e _ => [e]
  | .feed e _ => [e]
  | .fed e _ _ => [e]
  | .second e _ _ => [e]
  | .respond e _ _ _ => [e]
  | .retire f => f.whole
  | _ => []

/-- Slips that have given their slot of a background STAT back. -/
def Failing.faded : Failing → List Entry
  | .released e => [e]
  | _ => []

def Writer.faded : Writer → List Entry
  | .abort f => f.faded
  | .closing f => f.faded
  | _ => []

def Reader.faded : Reader → List Entry
  | .retire f => f.faded
  | _ => []

def Conn.whole (c : Conn) : List Entry := c.writer.whole c.unsent ++ c.pending ++ c.reader.whole

def Conn.faded (c : Conn) : List Entry := c.writer.faded ++ c.reader.faded

/-- The flags say which slots the request needs. -/
structure Entry.Sound (S : Setup) (e : Entry) : Prop where
  body : S.needsBody e.req = true → e.heldBody = true
  background : S.backgroundStat e.req = true → e.heldBackgroundStat = true

/-- What `Run` knows of the slots of the request it works on. -/
structure Conn.Flagged (S : Setup) (c : Conn) : Prop where
  keepalive : ∀ r, c.writer = .keepalive r → (S.info r).keepalive = true
  body : ∀ boot hb r, c.writer = .background boot hb → c.unsent = some r →
    S.needsBody r = true → hb = true
  background : ∀ hb r, c.writer = .write hb true → c.unsent = some r → S.isBackground r = true
  post : ∀ hb, c.writer ≠ .flushPost hb true

/-- **A request that is written holds the slots it needs.** -/
structure Conn.Sound (S : Setup) (c : Conn) : Prop where
  whole : ∀ e ∈ c.whole, e.Sound S
  faded : ∀ e ∈ c.faded, S.needsBody e.req = true → e.heldBody = true

theorem Setup.isBackground_of_postMode {r : ℕ} (h : (S.info r).postMode = true) :
    S.isBackground r = false := by
  simp [Setup.isBackground, (S.info r).post_payload h]

theorem Setup.needsBody_of_cheap {r : ℕ} (h : isCheapCommand (S.info r).payload = true) :
    S.needsBody r = false := by
  simp [Setup.needsBody, h]

/-- Here `Run` knows something of them. -/
def Writer.knows : Writer → Bool
  | .keepalive _ | .background _ _ | .write _ _ | .flushPost _ _ => true
  | _ => false

theorem Conn.Flagged.elsewhere (h : c.writer.knows = false) : c.Flagged S := by
  refine ⟨fun r hw => ?_, fun boot hb r hw => ?_, fun hb r hw => ?_, fun hb hw => ?_⟩
  all_goals
    rw [hw] at h
    cases h

theorem Writes.flagged {a : WriterAct} (h : Writes S env c a c' effs) (hc : c.Flagged S) :
    c'.Flagged S := by
  cases h
  case' abort f f' d hw hf => cases f'
  case' closing f f' d hw hf => cases f'
  case' takeGo b _ _ => cases b
  case' postReady b _ _ => cases b
  case' keepaliveAnswer hto => rcases hto with rfl | rfl
  case bodyCheap hw hu hcheap =>
    constructor <;> simp [hu, Setup.needsBody_of_cheap hcheap]
  case bodyGo => constructor <;> simp
  case backgroundNot => constructor <;> simp
  case waitKeepalive hw hk => constructor <;> simp [hk]
  case backgroundGo hw hu hg hlt => constructor <;> simp [hu, hg]
  case writePost r hb hg hw hu hp =>
    -- a STAT is no POST
    have hfalse : hg = false := by
      by_contra htrue
      have := hc.background hb r (by simp_all) hu
      simp [Setup.isBackground_of_postMode hp] at this
    constructor <;> simp [hfalse]
  case drainGo hw _ => exact .elsewhere (by rw [hw]; rfl)
  all_goals exact .elsewhere rfl

theorem Conn.Sound.mono (h : c.Sound S) (hwhole : ∀ e ∈ c'.whole, e ∈ c.whole ∨ e.Sound S)
    (hfaded : ∀ e ∈ c'.faded, e ∈ c.faded ∨ (S.needsBody e.req = true → e.heldBody = true)) :
    c'.Sound S :=
  ⟨fun e he => (hwhole e he).elim (h.whole e) id, fun e he => (hfaded e he).elim (h.faded e) id⟩

/-- `failOutstanding` gives a slot back only of what it has taken off the
queue. -/
theorem Fails.whole {f : Failing} {f' : Option Failing} (h : Fails S c f c' f' effs) :
    (∀ e, e ∈ c'.pending ∨ e ∈ f'.elim [] Failing.whole → e ∈ c.pending ∨ e ∈ f.whole) ∧
      ∀ e ∈ f'.elim [] Failing.faded, ∃ x ∈ f.whole, x.req = e.req ∧ x.heldBody = e.heldBody := by
  cases h with
  | lock h => simp [Failing.whole, Failing.faded]
  | empty h => simp [Failing.whole]
  | pop h => simp [Failing.whole, Failing.faded, h, or_comm]
  | release e => simp +contextual [Failing.whole, Failing.faded, Conn.freeBackground_eq]
  | fail e => simp [Failing.whole, Failing.faded]
  | free => simp [Failing.whole, Failing.faded, Conn.freeInflight]

/-- `Run` has written nothing behind the step. -/
theorem Conn.Sound.of_nil (h : c.Sound S) (hwhole : c'.writer.whole c'.unsent = [])
    (hfaded : c'.writer.faded = []) (hp : c'.pending = c.pending) (hr : c'.reader = c.reader) :
    c'.Sound S := by
  refine h.mono (fun e he => .inl ?_) (fun e he => .inl ?_)
  · rw [Conn.whole, hwhole, List.nil_append, hp, hr] at he
    rw [Conn.whole, List.append_assoc]
    exact List.mem_append_right _ he
  · rw [Conn.faded, hfaded, List.nil_append, hr] at he
    exact List.mem_append_right _ he

/-- A request that goes on the queue keeps its slots. -/
theorem Conn.Sound.enqueue {r : ℕ} {hb hg : Bool} (h : c.Sound S)
    (hw : c.writer = .enqueue hb hg) (hu : c.unsent = some r)
    (hwhole : c'.whole = c.pending ++ [⟨r, hb, hg, true⟩] ++ c.reader.whole)
    (hfaded : c'.faded = c.reader.faded) : c'.Sound S := by
  have hsound : (⟨r, hb, hg, false⟩ : Entry).Sound S :=
    h.whole _ (by simp [Conn.whole, Writer.whole, hw, hu])
  refine h.mono (fun e he => ?_) (fun e he => .inl ?_)
  · simp only [hwhole, List.mem_append, List.mem_singleton] at he
    rcases he with (he | rfl) | he
    · exact .inl (by simp [Conn.whole, he])
    · exact .inr ⟨hsound.body, hsound.background⟩
    · exact .inl (by simp [Conn.whole, he])
  · rw [hfaded] at he
    simp [Conn.faded, he]

/-- What the writer's `failOutstanding` does is sound. -/
theorem Conn.Sound.fails {f : Failing} {f' : Option Failing} {d : Conn} (h : c.Sound S)
    (hf : Fails S c f d f' effs) (hsub : ∀ e ∈ f.whole, e ∈ c.whole)
    (hwhole : ∀ e ∈ c'.whole, e ∈ c.whole ∨ e ∈ d.pending ∨ e ∈ f'.elim [] Failing.whole)
    (hfaded : ∀ e ∈ c'.faded, e ∈ c.faded ∨ e ∈ f'.elim [] Failing.faded) : c'.Sound S := by
  obtain ⟨hkeep, hfade⟩ := hf.whole
  refine h.mono (fun e he => .inl ?_) (fun e he => ?_)
  · rcases hwhole e he with he | he
    · exact he
    · rcases hkeep e he with he | he
      · simp [Conn.whole, he]
      · exact hsub e he
  · rcases hfaded e he with he | he
    · exact .inl he
    · obtain ⟨x, hx, hreq, hheld⟩ := hfade e he
      exact .inr fun hb => hheld ▸ (h.whole x (hsub x hx)).body (hreq ▸ hb)

/-- **`Run` takes the slots a request needs before it writes it.** -/
theorem Writes.sound {a : WriterAct} (h : Writes S env c a c' effs) (hc : c.Flagged S)
    (hs : c.Sound S) : c'.Sound S := by
  cases h
  case abort f f' d hw hf | closing f f' d hw hf =>
    have hreader := hf.frame.2.2.1
    refine hs.fails hf (by simp +contextual [Conn.whole, Writer.whole, hw]) (fun e he => ?_)
      (fun e he => ?_)
    · cases f' <;> simp_all [Conn.whole, Writer.whole, Writer.after] <;> tauto
    · cases f' <;> simp_all [Conn.faded, Writer.faded, Writer.after]
      tauto
  case backgroundNot r boot hb hw hu hg =>
    refine hs.mono (fun e he => ?_) (fun e he => .inl (by simp_all [Conn.faded, Writer.faded]))
    simp only [Conn.whole, Writer.whole, hu, Option.toList_some, List.map_cons, List.map_nil,
      List.mem_append, List.mem_singleton] at he
    rcases he with (rfl | he) | he
    · exact .inr ⟨hc.body boot hb r hw hu, by simp [Setup.backgroundStat, hg]⟩
    · exact .inl (by simp [Conn.whole, he])
    · exact .inl (by simp [Conn.whole, he])
  case backgroundGo r boot hb hw hu hg hlt =>
    refine hs.mono (fun e he => ?_) (fun e he => .inl (by simp_all [Conn.faded, Writer.faded]))
    simp only [Conn.whole, Writer.whole, hu, Option.toList_some, List.map_cons, List.map_nil,
      List.mem_append, List.mem_singleton] at he
    rcases he with (rfl | he) | he
    · exact .inr ⟨hc.body boot hb r hw hu, fun _ => rfl⟩
    · exact .inl (by simp [Conn.whole, he])
    · exact .inl (by simp [Conn.whole, he])
  case keepaliveGo r hw hlt =>
    refine hs.mono (fun e he => ?_) (fun e he => .inl (by simp_all [Conn.faded, Writer.faded]))
    simp only [Conn.whole, Writer.whole, List.nil_append, List.mem_append,
      List.mem_singleton] at he
    rcases he with (he | rfl) | he
    · exact .inl (by simp [Conn.whole, he])
    · have hk := hc.keepalive r hw
      exact .inr ⟨by simp [Setup.needsBody, hk], by simp [Setup.backgroundStat, hk]⟩
    · exact .inl (by simp [Conn.whole, he])
  case enqueuePost r hb hg hw hu hlt hp => exact hs.enqueue hw hu rfl rfl
  case enqueueGo r hb hg hw hu hlt hp => exact hs.enqueue hw hu rfl rfl
  case writePost hw _ _ | writeGo hw _ _ | flushPostGo hw _ =>
    refine hs.mono (fun e he => .inl ?_) (fun e he => .inl ?_)
    · rw [Conn.whole, hw]
      exact he
    · rw [Conn.faded, hw]
      exact he
  case backgroundFullFirst | backgroundFull =>
    exact hs.of_nil rfl rfl (Conn.freeBody_pending _ _) (Conn.freeBody_reader _ _)
  case writeErr =>
    exact hs.of_nil rfl rfl (Conn.freeBackground_pending _ _) (Conn.freeBackground_reader _ _)
  case drainGo hw _ => exact hs.of_nil (by rw [hw]; rfl) (by rw [hw]; rfl) rfl rfl
  case' takeGo b _ _ => cases b
  case' postReady b _ _ => cases b
  case' keepaliveAnswer hto => rcases hto with rfl | rfl
  all_goals exact hs.of_nil rfl rfl rfl rfl

theorem Reads.sound {a : ReaderAct} (h : Reads S env c a c' effs) (hs : c.Sound S) :
    c'.Sound S := by
  cases h
  case retire f f' d hr hf =>
    obtain ⟨-, hw, -, hu, -⟩ := hf.frame
    refine hs.fails hf (by simp +contextual [Conn.whole, Reader.whole, hr]) (fun e he => ?_)
      (fun e he => ?_)
    · cases f' <;> simp_all [Conn.whole, Reader.whole, Reader.after] <;> tauto
    · cases f' <;> simp_all [Conn.faded, Reader.faded, Reader.after]
      tauto
  case waitGo hr hp =>
    refine hs.mono (fun e he => .inl ?_) (fun e he => .inl (by simp_all [Conn.faded, Reader.faded]))
    simp only [Conn.whole, Reader.whole, hr, hp, List.mem_append, List.mem_cons] at he ⊢
    tauto
  case respond hr =>
    refine hs.mono (fun e he => .inl ?_) (fun e he => .inl (by simp_all [Conn.faded, Reader.faded]))
    simp only [Conn.whole, Reader.whole, hr, List.mem_append, List.not_mem_nil] at he ⊢
    tauto
  case' decide hto => rcases hto with rfl | rfl
  all_goals
    refine hs.mono (fun e he => .inl ?_) (fun e he => .inl ?_)
    · simp_all [Conn.whole, Reader.whole, Failing.whole, Conn.freeInflight, Conn.freeBody_eq,
        Conn.freeBackground_eq]
    · simp_all [Conn.faded, Reader.faded, Failing.faded, Conn.freeInflight, Conn.freeBody_eq,
        Conn.freeBackground_eq]

/-! ## The bounds -/

/-- **The invariant of one connection.** -/
structure Conn.Bounded (S : Setup) (c : Conn) : Prop where
  tokens : c.tokens ≤ c.inflightSem
  inflight : c.inflightSem ≤ S.limits.inflight
  bodies : c.bodies ≤ c.bodySem
  body : c.bodySem ≤ S.limits.body
  backgrounds : c.backgrounds = c.backgroundStatSem
  background : c.backgroundStatSem ≤ S.limits.background
  flagged : c.Flagged S
  sound : c.Sound S

theorem Conn.step_gauges {a : ConnAct} (h : c.step S env a = some (c', effs)) (hc : c.Flagged S) :
    (c'.backgrounds : ℤ) = c.backgrounds + backgroundBy effs ∧
      (c'.pipelined : ℤ) = c.pipelined + pipelineBy effs := by
  cases a with
  | writer a => exact (writerStep_writes h).gauges hc.post
  | reader a => exact (readerStep_reads h).gauges

theorem Conn.step_bounded {a : ConnAct} (h : c.step S env a = some (c', effs))
    (hc : c.Bounded S) : c'.Bounded S := by
  have hgauge := (Conn.step_gauges h hc.flagged).1
  have hback := hc.backgrounds
  cases a with
  | writer a =>
    have hw := writerStep_writes h
    obtain ⟨ht, hi⟩ := hw.tokens hc.tokens hc.inflight
    obtain ⟨hbs, hb⟩ := hw.bodies hc.bodies hc.body
    obtain ⟨hsem, hlimit⟩ := hw.backgroundSem hback.le hc.background
    exact ⟨ht, hi, hbs, hb, by omega, hlimit, hw.flagged hc.flagged, hw.sound hc.flagged hc.sound⟩
  | reader a =>
    have hr := readerStep_reads h
    obtain ⟨ht, hi⟩ := hr.tokens hc.tokens hc.inflight
    obtain ⟨hbs, hb⟩ := hr.bodies hc.bodies hc.body
    obtain ⟨hsem, hlimit⟩ := hr.backgroundSem hback.le hc.background
    obtain ⟨-, hw, hu, -⟩ := hr.frame
    obtain ⟨hkeep, hbody, hbackground, hpost⟩ := hc.flagged
    refine ⟨ht, hi, hbs, hb, by omega, hlimit, ⟨?_, ?_, ?_, ?_⟩, hr.sound hc.sound⟩
    · rwa [hw]
    · rwa [hw, hu]
    · rwa [hw, hu]
    · rwa [hw]

theorem newConn_bounded (i first : ℕ) (second : Option ℕ) :
    (newConn i first second).Bounded S where
  tokens := Nat.le_refl _
  inflight := Nat.zero_le _
  bodies := Nat.le_refl _
  body := Nat.zero_le _
  backgrounds := rfl
  background := Nat.zero_le _
  flagged := ⟨nofun, nofun, nofun, nofun⟩
  sound := ⟨nofun, nofun⟩

/-- What is outstanding holds a slot of the pipeline. -/
theorem Conn.length_outstanding_le (c : Conn) : c.outstanding.length ≤ c.tokens := by
  have hf (f : Failing) : f.held.length ≤ f.token := by
    cases f <;> simp [Failing.held, Failing.token]
  have hw : (c.writer.written c.unsent).length ≤ c.writer.token := by
    cases hx : c.writer <;> cases c.unsent <;> simp [Writer.written, Writer.token, hf]
  have hr : c.reader.held.length ≤ c.reader.token := by
    cases hx : c.reader <;> simp [Reader.held, Reader.token, hf]
  simp only [Conn.outstanding, Conn.tokens, List.length_append, List.length_map]
  omega

/-- Slips of requests of a kind that all hold a slot. -/
theorem countP_map_req_le {P : ℕ → Bool} {es : List Entry} (flag : Entry → Bool)
    (h : ∀ e ∈ es, P e.req = true → flag e = true) :
    (es.map Entry.req).countP P ≤ shares (fun e => (flag e).toNat) es := by
  induction es with
  | nil => simp
  | cons e es ih =>
    have hes := ih fun x hx => h x (List.mem_cons_of_mem _ hx)
    have he := h e List.mem_cons_self
    simp only [List.map_cons, List.countP_cons, shares_cons]
    cases hP : P e.req <;> simp_all <;> omega

/-- What is outstanding has its flags, or has faded. -/
theorem Conn.countP_outstanding_le (c : Conn) (P : ℕ → Bool) :
    c.outstanding.countP P ≤
      (c.whole.map Entry.req).countP P + (c.faded.map Entry.req).countP P := by
  have hf (f : Failing) : f.held.countP P =
      (f.whole.map Entry.req).countP P + (f.faded.map Entry.req).countP P := by
    cases f <;> simp [Failing.held, Failing.whole, Failing.faded]
  have hw : (c.writer.written c.unsent).countP P ≤
      ((c.writer.whole c.unsent).map Entry.req).countP P +
        (c.writer.faded.map Entry.req).countP P := by
    cases hx : c.writer <;> cases c.unsent <;>
      simp [Writer.written, Writer.whole, Writer.faded, hf]
  have hr : c.reader.held.countP P ≤
      (c.reader.whole.map Entry.req).countP P + (c.reader.faded.map Entry.req).countP P := by
    cases hx : c.reader <;> simp [Reader.held, Reader.whole, Reader.faded, hf]
  simp only [Conn.outstanding, Conn.whole, Conn.faded, List.countP_append, List.map_append]
  omega

/-- The flags are those of the slips. -/
theorem Conn.shares_whole_le (c : Conn) (flag : Entry → Bool) :
    shares (fun e => (flag e).toNat) c.whole ≤ shares (fun e => (flag e).toNat) c.slips := by
  have hf (f : Failing) : shares (fun e => (flag e).toNat) f.whole ≤
      shares (fun e => (flag e).toNat) f.slips := by
    cases f <;> simp [Failing.whole, Failing.slips]
  have hw : shares (fun e => (flag e).toNat) (c.writer.whole c.unsent) ≤
      shares (fun e => (flag e).toNat) (c.writer.slips c.unsent) := by
    cases hx : c.writer <;> simp [Writer.whole, Writer.slips, hf]
  have hr : shares (fun e => (flag e).toNat) c.reader.whole ≤
      shares (fun e => (flag e).toNat) c.reader.slips := by
    cases hx : c.reader <;> simp [Reader.whole, Reader.slips, hf]
  simp only [Conn.whole, Conn.slips, shares_append]
  omega

/-- A body slot is not given back by `failOutstanding`. -/
theorem Conn.shares_body_le (c : Conn) :
    shares (fun e => e.heldBody.toNat) c.whole + shares (fun e => e.heldBody.toNat) c.faded ≤
      c.bodies := by
  have hf (f : Failing) : shares (fun e => e.heldBody.toNat) f.whole +
      shares (fun e => e.heldBody.toNat) f.faded = shares (fun e => e.heldBody.toNat) f.slips := by
    cases f <;> simp [Failing.whole, Failing.faded, Failing.slips, Entry.fade]
  have hw : shares (fun e => e.heldBody.toNat) (c.writer.whole c.unsent) +
      shares (fun e => e.heldBody.toNat) c.writer.faded ≤
        shares (fun e => e.heldBody.toNat) (c.writer.slips c.unsent) := by
    cases hx : c.writer <;> simp [Writer.whole, Writer.faded, Writer.slips, hf]
  have hr : shares (fun e => e.heldBody.toNat) c.reader.whole +
      shares (fun e => e.heldBody.toNat) c.reader.faded ≤
        shares (fun e => e.heldBody.toNat) c.reader.slips := by
    cases hx : c.reader <;> simp [Reader.whole, Reader.faded, Reader.slips, hf]
  simp only [Conn.whole, Conn.faded, Conn.bodies, Conn.slips, shares_append]
  omega

/-- **Bodies are bounded.** -/
theorem Conn.Bounded.countP_needsBody_le (h : c.Bounded S) :
    c.outstanding.countP S.needsBody ≤ S.limits.body := by
  have hout := c.countP_outstanding_le S.needsBody
  have hwhole := countP_map_req_le Entry.heldBody fun e he => (h.sound.whole e he).body
  have hfaded := countP_map_req_le Entry.heldBody h.sound.faded
  have hslips := c.shares_body_le
  have := h.bodies
  have := h.body
  omega

/-- The background STATs that have faded. -/
def Conn.fading (S : Setup) (c : Conn) : ℕ := (c.faded.map Entry.req).countP S.backgroundStat

/-- Background STATs are bounded, but for those that have faded. -/
theorem Conn.Bounded.countP_backgroundStat_le (h : c.Bounded S) :
    c.outstanding.countP S.backgroundStat ≤ c.backgroundStatSem + c.fading S := by
  have hout := c.countP_outstanding_le S.backgroundStat
  have hwhole := countP_map_req_le Entry.heldBackgroundStat
    fun e he => (h.sound.whole e he).background
  have hslips := c.shares_whole_le Entry.heldBackgroundStat
  have hback := h.backgrounds
  simp only [Conn.backgrounds] at hback
  unfold Conn.fading
  omega

/-! ## Fading -/

/-- `failOutstanding` gives back the slot of a STAT that fades. -/
theorem Fails.fading {f : Failing} {f' : Option Failing} (h : Fails S c f c' f' effs)
    (hsound : ∀ e ∈ f.whole, e.Sound S)
    (hle : shares (fun e => e.heldBackgroundStat.toNat) f.slips ≤ c.backgroundStatSem) :
    c'.backgroundStatSem + ((f'.elim [] Failing.faded).map Entry.req).countP S.backgroundStat ≤
      c.backgroundStatSem + (f.faded.map Entry.req).countP S.backgroundStat := by
  cases h with
  | release e =>
    have hback := (hsound e (by simp [Failing.whole])).background
    simp [Failing.slips] at hle
    simp [Failing.faded, Conn.freeBackground_eq, List.countP_cons]
    cases hb : S.backgroundStat e.req <;> simp_all
  | fail e => simp [Failing.faded]
  | free => simp [Failing.faded, Conn.freeInflight]
  | _ => simp [Failing.faded]

/-- `Run` takes a slot of the background STATs. -/
def Conn.acquires (S : Setup) (c : Conn) : Bool :=
  match c.writer with
  | .background _ _ => c.unsent.any S.isBackground
  | _ => false

/-- `Run` has let nothing fade behind the step, and has taken no slot. -/
theorem Conn.fading_le {m : ℕ} (h : c.backgroundStatSem + c.fading S ≤ m)
    (hw : c'.writer.faded = []) (hr : c'.reader = c.reader)
    (hsem : c'.backgroundStatSem ≤ c.backgroundStatSem) :
    c'.backgroundStatSem + c'.fading S ≤ m := by
  simp only [Conn.fading, Conn.faded, List.map_append, List.countP_append] at h
  simp only [Conn.fading, Conn.faded, hw, hr, List.nil_append]
  omega

theorem Writes.fading {a : WriterAct} (h : Writes S env c a c' effs) (hc : c.Bounded S)
    (hle : c.backgroundStatSem + c.fading S ≤ S.limits.background)
    (hquiet : c.acquires S = true → c.fading S = 0) :
    c'.backgroundStatSem + c'.fading S ≤ S.limits.background := by
  have hback := hc.backgrounds
  cases h
  case abort f f' d hw hf =>
    have hreader := hf.frame.2.2.1
    have hfade := hf.fading
      (fun e he => hc.sound.whole e (by simp [Conn.whole, Writer.whole, hw, he]))
      (by
        simp only [Conn.backgrounds, Conn.slips, hw, Writer.slips_abort, shares_append] at hback
        omega)
    cases f' <;> simp_all [Conn.fading, Conn.faded, Writer.faded, Writer.after] <;> omega
  case closing f f' d hw hf =>
    have hreader := hf.frame.2.2.1
    have hfade := hf.fading
      (fun e he => hc.sound.whole e (by simp [Conn.whole, Writer.whole, hw, he]))
      (by
        simp only [Conn.backgrounds, Conn.slips, hw, Writer.slips_closing, shares_append] at hback
        omega)
    cases f' <;> simp_all [Conn.fading, Conn.faded, Writer.faded, Writer.after] <;> omega
  case backgroundGo r boot hb hw hu hg hlt =>
    have := hquiet (by simp [Conn.acquires, hw, hu, hg])
    simp only [Conn.fading, Conn.faded, Writer.faded, hw] at this ⊢
    omega
  case backgroundFullFirst | backgroundFull =>
    exact Conn.fading_le hle rfl (Conn.freeBody_reader _ _)
      (by simp [Conn.freeInflight, Conn.freeBody_eq])
  case writeErr =>
    exact Conn.fading_le hle rfl (Conn.freeBackground_reader _ _)
      (by simp [Conn.freeInflight, Conn.freeBackground_eq])
  case drainGo hw _ => exact Conn.fading_le hle (by rw [hw]; rfl) rfl (Nat.le_refl _)
  case' takeGo b _ _ => cases b
  case' postReady b _ _ => cases b
  case' keepaliveAnswer hto => rcases hto with rfl | rfl
  all_goals exact Conn.fading_le hle rfl rfl (Nat.le_refl _)

theorem Reads.fading {a : ReaderAct} (h : Reads S env c a c' effs) (hc : c.Bounded S)
    (hle : c.backgroundStatSem + c.fading S ≤ S.limits.background) :
    c'.backgroundStatSem + c'.fading S ≤ S.limits.background := by
  have hback := hc.backgrounds
  cases h
  case retire f f' d hr hf =>
    obtain ⟨-, hw, -, hu, -⟩ := hf.frame
    have hfade := hf.fading
      (fun e he => hc.sound.whole e (by simp [Conn.whole, Reader.whole, hr, he]))
      (by
        simp only [Conn.backgrounds, Conn.slips, hr, Reader.slips_retire, shares_append] at hback
        omega)
    cases f' <;> simp_all [Conn.fading, Conn.faded, Reader.faded, Reader.after] <;> omega
  case' decide hto => rcases hto with rfl | rfl
  all_goals
    clear hback
    simp_all [Conn.fading, Conn.faded, Reader.faded, Failing.faded, Conn.freeInflight,
      Conn.freeBody_eq, Conn.freeBackground_eq]
  all_goals omega

/-! ## The pool -/

/-- A slot of the background STATs is taken only while no STAT that has
given its slot back is still outstanding. -/
def Settles (S : Setup) (s : State) : Label → Bool
  | .conn k (.writer .go) => s.conns[k]?.all fun c => !c.acquires S || c.fading S == 0
  | _ => true

theorem Writes.eq_go_of_acquires {a : WriterAct} (h : Writes S env c a c' effs)
    (hacq : c.acquires S = true) : a = .go := by
  cases h <;> simp_all [Conn.acquires]

/-- A connection that takes a slot under the condition has none fading. -/
theorem fading_eq_zero_of_settles {k : ℕ} {a : WriterAct} (h : Settles S s l = true)
    (hc : s.conns[k]? = some c)
    (hl : l = .conn k (.writer a) ∨ ∃ r, a = .hotPrio r ∨ a = .hotReq r)
    (hw : Writes S env c a c' effs) (hacq : c.acquires S = true) : c.fading S = 0 := by
  obtain rfl := hw.eq_go_of_acquires hacq
  rcases hl with rfl | ⟨r, hr | hr⟩
  · simpa [Settles, hc, hacq] using h
  · cases hr
  · cases hr

/-- **The STATs of a connection that have a slot or have faded.** -/
structure Conn.Paced (S : Setup) (c : Conn) : Prop where
  bounded : c.Bounded S
  background : c.backgroundStatSem + c.fading S ≤ S.limits.background

theorem paced_step (h : ∀ c ∈ s.conns, c.Paced S) (hsettles : Settles S s l = true)
    (hact : Acts S s l s' effs) : ∀ c ∈ s'.conns, c.Paced S := by
  intro c' hc'
  obtain ⟨k, hk⟩ := List.mem_iff_getElem?.mp hc'
  cases hact.origin hk with
  | old hc => exact h c' (List.mem_of_getElem? hc)
  | @stepped _ a c hc hl hprio hhot hs =>
    obtain ⟨hbounded, hback⟩ := h c (List.mem_of_getElem? hc)
    refine ⟨Conn.step_bounded hs hbounded, ?_⟩
    cases a with
    | writer a =>
      have hw := writerStep_writes hs
      refine hw.fading hbounded hback (fading_eq_zero_of_settles hsettles hc ?_ hw)
      rcases hl with ⟨rfl, -⟩ | ⟨r, -, hr | hr⟩
      · exact .inl rfl
      · exact .inr ⟨r, .inl (ConnAct.writer.inj hr)⟩
      · exact .inr ⟨r, .inr (ConnAct.writer.inj hr)⟩
    | reader a => exact (readerStep_reads hs).fading hbounded hback
  | new heq =>
    subst heq
    exact ⟨newConn_bounded .., Nat.zero_le _⟩

theorem paced_run {ls : List Label}
    (hsettles : Along (Pool.step S) (fun s l => Settles S s l = true) (Pool.start S) ls)
    (h : exec (Pool.step S) (Pool.start S) ls = some s) : ∀ c ∈ s.conns, c.Paced S := by
  refine exec_invariant (I := fun s => ∀ c ∈ s.conns, c.Paced S) ?_ ls
    (by simp [Pool.start]) hsettles h
  intro s l s' hs hl hstep
  obtain ⟨effs, hact⟩ := step_eq_some.1 hstep
  exact paced_step hs hl (act_acts hact)

/-- **The gauges count the requests that hold the slots.** -/
structure Gauged (S : Setup) (s : State) : Prop where
  bounded : ∀ c ∈ s.conns, c.Bounded S
  background : s.backgroundStatInUse = (shares Conn.backgrounds s.conns : ℕ)
  pipeline : s.pipelineInUse = (shares Conn.pipelined s.conns : ℕ)

/-- No step of a slot moves a gauge, and a new connection holds nothing. -/
theorem SlotSteps.gauges {i k : ℕ} {dead : ℕ → Bool} {p q : Slot} {a : SlotAct}
    {made : Option Conn} (h : SlotSteps S env i k dead p a q effs made) :
    backgroundBy effs = 0 ∧ pipelineBy effs = 0 ∧
      shares Conn.backgrounds made.toList = 0 ∧ shares Conn.pipelined made.toList = 0 := by
  cases h
  all_goals
    simp [Effect.background, Effect.pipeline, Conn.backgrounds, Conn.pipelined, Conn.slips,
      newConn, Writer.slips, Reader.slips]

/-- A step of a connection moves the gauges by what the connection takes
or gives back. -/
theorem Gauged.conn {k : ℕ} {a : ConnAct} (u : State) (h : Gauged S s)
    (hc : s.conns[k]? = some c) (hs : c.step S env a = some (c', effs))
    (hb : u.backgroundStatInUse = s.backgroundStatInUse) (hp : u.pipelineInUse = s.pipelineInUse)
    (hbounded : ∀ b ∈ s'.conns, b.Bounded S)
    (hs' : s' = effs.foldl State.apply { u with conns := s.conns.set k c' }) : Gauged S s' := by
  obtain ⟨hback, hpipe⟩ := Conn.step_gauges hs (h.bounded c (List.mem_of_getElem? hc)).flagged
  have hsetb := shares_set (f := Conn.backgrounds) hc c'
  have hsetp := shares_set (f := Conn.pipelined) hc c'
  have hgb := h.background
  have hgp := h.pipeline
  obtain ⟨hfb, hfp⟩ := foldl_apply_gauge { u with conns := s.conns.set k c' } effs
  refine ⟨hbounded, ?_, ?_⟩
  · rw [hs', foldl_apply_conns, hfb]
    simp only
    omega
  · rw [hs', foldl_apply_conns, hfp]
    simp only
    omega

theorem Gauged.step (h : Gauged S s) (hact : Acts S s l s' effs) : Gauged S s' := by
  have hbounded := hact.conns newConn_bounded Conn.step_bounded h.bounded
  cases hact with
  | @sendHot r _ _ _ _ _ ha hhot hc hs =>
    exact h.conn (s.accepted r) hc hs rfl rfl hbounded rfl
  | conn hallows hc hs => exact h.conn s hc hs rfl rfl hbounded rfl
  | @slot i a p q made effs hp hs =>
    obtain ⟨hback, hpipe, hnewb, hnewp⟩ := hs.gauges
    obtain ⟨hfb, hfp⟩ := foldl_apply_gauge
      { s with slots := s.slots.set i q, conns := s.conns ++ made.toList } effs
    refine ⟨hbounded, ?_, ?_⟩
    · rw [foldl_apply_conns, hfb, hback, shares_append, hnewb]
      simp [h.background]
    · rw [foldl_apply_conns, hfp, hpipe, shares_append, hnewp]
      simp [h.pipeline]
  | _ => exact ⟨hbounded, h.background, h.pipeline⟩

theorem gauged_run {ls : List Label} (h : exec (Pool.step S) (Pool.start S) ls = some s) :
    Gauged S s := by
  refine exec_invariant (I := Gauged S) (P := fun _ _ => True) ?_ ls
    ⟨by simp [Pool.start], rfl, rfl⟩ (along_true _ _) h
  intro s l s' hs _ hstep
  obtain ⟨effs, hact⟩ := step_eq_some.1 hstep
  exact hs.step (act_acts hact)

/-- Both goroutines of the connection have ended. -/
def Conn.isOver (c : Conn) : Bool := c.writer == .dead && c.reader == .ended

/-- A connection that is over holds no slot of the gauges. -/
theorem Conn.Cleared.slips_eq_nil (h : c.Cleared) (hover : c.isOver = true) : c.slips = [] := by
  simp only [Conn.isOver, Bool.and_eq_true, beq_iff_eq] at hover
  obtain ⟨hw, hr⟩ := hover
  simp [Conn.slips, h.pending hw, hw, hr, Writer.slips, Reader.slips]

/-! ## The limits of a provider -/

theorem Provider.bodyLimit_eq (p : Provider) : p.bodyLimit = max 1 p.inflight := by
  unfold Provider.bodyLimit
  split_ifs <;> omega

theorem Provider.pipelineLimit_eq (p : Provider) :
    p.pipelineLimit = max 1 (max p.inflight p.statInflight) := by
  unfold Provider.pipelineLimit
  rw [p.bodyLimit_eq]
  split_ifs <;> omega

theorem Provider.headroom_eq (p : Provider) :
    p.headroom = min (max p.priorityHeadroom 0) (p.pipelineLimit - 1) := by
  unfold Provider.headroom
  dsimp only
  split_ifs <;> omega

/-- The window of the background STATs is never closed. -/
theorem Provider.one_le_backgroundLimit (p : Provider) : 1 ≤ p.backgroundLimit := by
  have hpipeline : 1 ≤ p.pipelineLimit := by rw [p.pipelineLimit_eq]; omega
  have hheadroom := p.headroom_eq
  unfold Provider.backgroundLimit
  dsimp only
  split_ifs <;> omega

/-- **The window of the background STATs in terms of the
configuration.** -/
def Provider.backgroundWindow (p : Provider) : ℤ :=
  let pipeline := max 1 (max p.inflight p.statInflight)
  let headroom := min (max p.priorityHeadroom 0) (pipeline - 1)
  min (if 0 < p.backgroundStatInflight then p.backgroundStatInflight else pipeline)
    (pipeline - headroom)

theorem Provider.backgroundLimit_eq (p : Provider) : p.backgroundLimit = p.backgroundWindow := by
  unfold Provider.backgroundLimit Provider.backgroundWindow
  dsimp only
  rw [p.headroom_eq, p.pipelineLimit_eq]
  split_ifs <;> omega

/-- **How much is outstanding.** In every reachable state the commands
that are written and neither answered nor failed are within the pipeline,
those that take a body slot within the bodies, and each gauge is the
number of requests that hold its slot, none once all connections are
over. The STATs without priority are within their window, of one at
least, as long as no slot of theirs is taken while `failOutstanding` is
between giving one back and failing its request. -/
theorem occupancy_of_settles (p : Provider) (S : Setup) (hlimits : S.limits = p.limits)
    (ls : List Label) (s : State) (h : exec (Pool.step S) (Pool.start S) ls = some s) :
    (∀ c ∈ s.conns,
      (c.outstanding.length : ℤ) ≤ max 1 (max p.inflight p.statInflight) ∧
      (c.outstanding.countP S.needsBody : ℤ) ≤ max 1 p.inflight ∧
      (Along (Pool.step S) (fun s l => Settles S s l = true) (Pool.start S) ls →
        (c.outstanding.countP S.backgroundStat : ℤ) ≤ p.backgroundWindow)) ∧
    1 ≤ p.backgroundWindow ∧
    s.pipelineInUse = (shares Conn.pipelined s.conns : ℕ) ∧
    s.backgroundStatInUse = (shares Conn.backgrounds s.conns : ℕ) ∧
    ((∀ c ∈ s.conns, c.isOver = true) → s.pipelineInUse = 0 ∧ s.backgroundStatInUse = 0) := by
  have hgauged := gauged_run h
  have hwindow := p.one_le_backgroundLimit
  rw [p.backgroundLimit_eq] at hwindow
  refine ⟨fun c hc => ⟨?_, ?_, fun hsettles => ?_⟩, hwindow, hgauged.pipeline,
    hgauged.background, fun hover => ?_⟩
  · have hlength := c.length_outstanding_le
    have htokens := (hgauged.bounded c hc).tokens
    have hinflight := (hgauged.bounded c hc).inflight
    rw [hlimits] at hinflight
    simp only [Provider.limits, p.pipelineLimit_eq] at hinflight
    omega
  · have hcount := (hgauged.bounded c hc).countP_needsBody_le
    rw [hlimits] at hcount
    simp only [Provider.limits, p.bodyLimit_eq] at hcount
    omega
  · have hpaced := paced_run hsettles h c hc
    have hcount := hpaced.bounded.countP_backgroundStat_le
    have hback := hpaced.background
    rw [hlimits] at hback
    simp only [Provider.limits, p.backgroundLimit_eq] at hback
    omega
  · have hnil (c : Conn) (hc : c ∈ s.conns) : c.slips = [] :=
      (cleared_run h c hc).slips_eq_nil (hover c hc)
    have hpipelined : shares Conn.pipelined s.conns = 0 :=
      shares_eq_zero.2 fun c hc => by simp [Conn.pipelined, hnil c hc]
    have hbackgrounds : shares Conn.backgrounds s.conns = 0 :=
      shares_eq_zero.2 fun c hc => by simp [Conn.backgrounds, hnil c hc]
    exact ⟨by rw [hgauged.pipeline, hpipelined]; rfl, by rw [hgauged.background, hbackgrounds]; rfl⟩

/-- The configuration of `statPool`. -/
def statProvider : Provider where
  connections := 1
  statInflight := 2
  backgroundStatInflight := 1

theorem occupancy_of_settles_written :
    ∃ s, exec (Pool.step statPool) (Pool.start statPool) written = some s ∧
      s.conns.map Conn.outstanding = [[0]] ∧ s.pipelineInUse = 1 ∧
      ∀ c ∈ s.conns,
        (c.outstanding.countP statPool.backgroundStat : ℤ) ≤ statProvider.backgroundWindow := by
  have hrun : (exec (Pool.step statPool) (Pool.start statPool) written).map
      (fun s => (s.conns.map Conn.outstanding, s.pipelineInUse)) = some ([[0]], 1) := by
    decide
  obtain ⟨s, hs, hp⟩ := Option.map_eq_some_iff.mp hrun
  obtain ⟨hout, hpipeline⟩ := Prod.mk.inj hp
  have hoccupancy := occupancy_of_settles statProvider statPool rfl written s hs
  exact ⟨s, hs, hout, hpipeline, fun c hc => (hoccupancy.1 c hc).2.2 (by decide)⟩

/-- The provider is removed while a STAT is outstanding. The reader has
given its slot back and not failed it yet, when `Run` takes the slot for
the next one and writes it. -/
def removedInWindow : List Label :=
  written ++
    [.conn 0 (.writer .go), .conn 0 (.writer .go), .conn 0 (.writer .go), .conn 0 (.writer .go),
      .conn 0 (.writer .go), .start 1, .send 1, .removeProvider, .conn 0 (.reader .connDone),
      .conn 0 (.reader .go), .conn 0 (.reader .go), .conn 0 (.reader .go), .conn 0 (.writer .req),
      .conn 0 (.writer .go), .conn 0 (.writer .go), .conn 0 (.writer .go), .conn 0 (.writer .go),
      .conn 0 (.writer .go)]

/-- **Two STATs without priority are outstanding in a window of one.** -/
theorem window_exceeded_behind_release :
    ∃ s, exec (Pool.step statPool) (Pool.start statPool) removedInWindow = some s ∧
      statPool.limits = statProvider.limits ∧ statProvider.backgroundWindow = 1 ∧
      ∃ c ∈ s.conns, c.outstanding = [1, 0] ∧ (s.ch 0).closed = false ∧
        c.outstanding.countP statPool.backgroundStat = 2 := by
  have hrun : (exec (Pool.step statPool) (Pool.start statPool) removedInWindow).map
      (fun s => (s.conns.map Conn.outstanding, (s.ch 0).closed)) = some ([[1, 0]], false) := by
    decide
  obtain ⟨s, hs, hp⟩ := Option.map_eq_some_iff.mp hrun
  obtain ⟨hout, hopen⟩ := Prod.mk.inj hp
  obtain ⟨c, hc, hcout⟩ : ∃ c ∈ s.conns, c.outstanding = [1, 0] :=
    List.mem_map.mp (by rw [hout]; exact List.mem_singleton_self _)
  refine ⟨s, hs, rfl, by decide, c, hc, hcout, hopen, ?_⟩
  rw [hcout]
  decide

end Pool

end NntpPool
