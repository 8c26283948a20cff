import NntpPool.Pool.Owned
/-!
# Pool — the caller's writer

The reader writes decoded bytes to the writer of the call. It looks at
the request's context at its control points, between two calls of `Feed`,
and no longer writes once it has seen it done. An attempt that gives up
ends that context and returns, and does not wait for the reader to come
to its next control point. Where it does, nothing is written once the
call has its response: while a reader may write, its attempt is the one
the call is in.
-/

namespace NntpPool

namespace Pool

variable {S : Setup} {env : Env} {s s' : State} {l : Label} {c c' : Conn} {effs : List Effect}
variable {r : ℕ}

/-- **Nothing is written behind the response.** -/
def Quiescent (S : Setup) (s : State) : Prop :=
  ∀ l s' effs r, s.act S l = some (s', effs) → .wrote r ∈ effs →
    s.delivered (S.info r).call = false

/-- The reader is in a `Feed` that writes to the request's writer. -/
def Reader.writes (S : Setup) (reader : Reader) (r : ℕ) : Bool :=
  match reader with
  | .feed e deliver => deliver && e.req == r && (S.info r).hasWriter
  | _ => false

/-- An attempt gives up only where no reader is in a `Feed` that writes
for it. -/
def Joins (S : Setup) (s : State) : Label → Bool
  | .giveUp r _ => s.conns.all fun c => !c.reader.writes S r
  | _ => true

/-! ## Who writes -/

theorem wrote_notMem_pendingFreed (e : Entry) : .wrote r ∉ pendingFreed e :=
  fun h => Bool.false_ne_true (isGauge_pendingFreed e _ h)

/-- Bytes are written in a `Feed`. -/
theorem Conn.step_wrote {a : ConnAct} (h : c.step S env a = some (c', effs))
    (hr : .wrote r ∈ effs) : c.reader.writes S r = true := by
  have hfails {c c' : Conn} {f f'} (hf : Fails S c f c' f' effs) : False := by
    cases hf <;> simp [wrote_notMem_pendingFreed] at hr
  have hwrote {e : Entry} {deliver wrote : Bool} (he : c.reader = .feed e deliver)
      (hr : .wrote r ∈ wroteTo S e.req deliver wrote) : c.reader.writes S r = true := by
    unfold wroteTo at hr
    split_ifs at hr with hw
    · obtain rfl : r = e.req := by simpa using hr
      simp_all [Reader.writes]
    · cases hr
  cases a with
  | writer a =>
    cases writerStep_writes h
    case abort hf => exact (hfails hf).elim
    case closing hf => exact (hfails hf).elim
    case exitUnsent => cases hu : c.unsent <;> simp [hu, exitFails] at hr
    case exitDeferred => cases hd : c.deferredNormal <;> simp [hd, exitFails] at hr
    case writeErr hg _ _ _ => cases hg <;> simp [backgroundFreed] at hr
    all_goals simp at hr
  | reader a =>
    cases readerStep_reads h
    case feedMore he => exact hwrote he hr
    case feedFinish he => exact hwrote he hr
    case retire hf => exact (hfails hf).elim
    case freePending => exact absurd hr (wrote_notMem_pendingFreed _)
    all_goals simp at hr

theorem Acts.wrote (h : Acts S s l s' effs) (hr : .wrote r ∈ effs) :
    ∃ c ∈ s.conns, c.reader.writes S r = true := by
  cases h with
  | sendHot ha hhot hc hs => exact ⟨_, List.mem_of_getElem? hc, Conn.step_wrote hs hr⟩
  | conn hallows hc hs => exact ⟨_, List.mem_of_getElem? hc, Conn.step_wrote hs hr⟩
  | slot hp hs => cases hs <;> simp at hr
  | _ => simp at hr

/-- A reader comes to write only behind a control point that has found
the request's context alive. -/
theorem Conn.step_writes {a : ConnAct} (h : c.step S env a = some (c', effs))
    (hw : c'.reader.writes S r = true) :
    c.reader.writes S r = true ∨
      r ∈ c.reader.held ∧ env.done r = none ∧ (S.info r).hasWriter = true := by
  cases a with
  | writer a => exact .inl ((writerStep_writes h).frame.2 ▸ hw)
  | reader a =>
    cases readerStep_reads h
    case controlGo e deliver he =>
      right
      simp only [Reader.writes, Bool.and_eq_true, beq_iff_eq, Option.isNone_iff_eq_none] at hw
      obtain ⟨⟨⟨-, hdone⟩, rfl⟩, hinfo⟩ := hw
      exact ⟨by simp [he, Reader.held], hdone, hinfo⟩
    case retire f' _ _ _ => cases f' <;> simp [Reader.after, Reader.writes] at hw
    case decide hp => rcases hp with rfl | rfl <;> simp [Reader.writes] at hw
    all_goals simp_all [Reader.writes]

/-! ## Calls and their attempts -/

/-- **A call is in one attempt at a time**, and in none behind its
response. -/
structure Called (S : Setup) (s : State) : Prop where
  current : ∀ r, s.attempt r = .entering ∨ s.attempt r = .waiting →
    s.current (S.info r).call = some r
  delivered : ∀ k, s.delivered k = true → s.current k = none
  internal : ∀ r, s.attempt r = .internal → (S.info r).keepalive = true
  /-- What is in a channel was its last. -/
  buf : ∀ r, (s.ch r).buf.isSome = true → (s.ch r).closed = true
  /-- A POST that was sent is waited for. -/
  post : ∀ r, (S.info r).postMode = true → s.attempt r = .returned → s.held r = 0

theorem Called.start (S : Setup) : Called S (Pool.start S) where
  current r hr := by simp [Pool.start] at hr
  delivered k hk := by cases hk
  internal r hr := by cases hr
  buf r hr := by cases hr
  post r _ hr := by cases hr

/-- What a step makes of the attempt a call is in. -/
theorem Acts.current (h : Acts S s l s' effs) (k : ℕ) :
    s'.current k = s.current k ∨ s.current k = none ∨
      ∃ n, k = (S.info n).call ∧ (s.attempt n = .entering ∨ s.attempt n = .waiting) ∧
        s'.attempt n = .returned ∧ s'.current k = none := by
  cases h with
  | @start n ha hk hc hd =>
    by_cases hn : k = (S.info n).call
    · exact .inr (.inl (hn ▸ hc))
    · exact .inl (Function.update_of_ne hn ..)
  | @receive n ha hready =>
    by_cases hn : k = (S.info n).call
    · exact .inr (.inr ⟨n, hn, .inr ha, Function.update_self .., hn ▸ Function.update_self ..⟩)
    · exact .inl (Function.update_of_ne hn ..)
  | @giveUp n why ha hcause =>
    by_cases hn : k = (S.info n).call
    · exact .inr (.inr ⟨n, hn, ha.imp id And.left, Function.update_self ..,
        hn ▸ Function.update_self ..⟩)
    · exact .inl (Function.update_of_ne hn ..)
  | sendHot => exact .inl (by rw [foldl_apply_current]; rfl)
  | slot => exact .inl (by rw [foldl_apply_current])
  | conn => exact .inl (by rw [foldl_apply_current])
  | _ => exact .inl rfl

theorem Called.current_step (h : Called S s) (hact : Acts S s l s' effs)
    (hr : s'.attempt r = .entering ∨ s'.attempt r = .waiting) :
    s'.current (S.info r).call = some r := by
  have hkeep (hbefore : s.attempt r = .entering ∨ s.attempt r = .waiting) :
      s'.current (S.info r).call = some r := by
    have hcur := h.current r hbefore
    rcases hact.current (S.info r).call with heq | hnone | ⟨n, hcall, hn, hn', -⟩
    · rw [heq, hcur]
    · simp [hnone] at hcur
    · have hcurn := h.current n hn
      rw [← hcall, hcur] at hcurn
      obtain rfl := Option.some.inj hcurn
      simp [hn'] at hr
  cases hact.turn r with
  | same hin heq => exact hkeep (heq ▸ hr)
  | start hin hl hk ha ha' =>
    subst hl
    cases hact
    exact Function.update_self ..
  | send hin ha ha' => exact hkeep (.inl ha)
  | receive hin hl ha hready ha' => simp [ha'] at hr
  | giveUp hin hl ha ha' => simp [ha'] at hr
  | make hin hk ha ha' => simp [ha'] at hr

theorem Called.delivered_step (h : Called S s) (hact : Acts S s l s' effs) {k : ℕ}
    (hk : s'.delivered k = true) : s'.current k = none := by
  cases hact with
  | @start n ha hkeep hc hd =>
    have hne : k ≠ (S.info n).call := fun heq => by simp_all
    exact (Function.update_of_ne hne ..).trans (h.delivered k hk)
  | @deliver n hc hd =>
    by_cases hn : k = n
    · exact hn ▸ hc
    · exact h.delivered k ((Function.update_of_ne hn ..).symm.trans hk)
  | @receive n ha hready =>
    by_cases hn : k = (S.info n).call
    · exact hn ▸ Function.update_self ..
    · exact (Function.update_of_ne hn ..).trans (h.delivered k hk)
  | @giveUp n why ha hcause =>
    by_cases hn : k = (S.info n).call
    · exact hn ▸ Function.update_self ..
    · exact (Function.update_of_ne hn ..).trans (h.delivered k hk)
  | sendHot => simp_all [h.delivered k, State.accepted]
  | slot => simp_all [h.delivered k]
  | conn => simp_all [h.delivered k]
  | _ => exact h.delivered k hk

theorem Called.internal_step (h : Called S s) (hact : Acts S s l s' effs)
    (hr : s'.attempt r = .internal) : (S.info r).keepalive = true := by
  cases hact.turn r with
  | same hin heq => exact h.internal r (heq ▸ hr)
  | start hin hl hk ha ha' => simp [ha'] at hr
  | send hin ha ha' => simp [ha'] at hr
  | receive hin hl ha hready ha' => simp [ha'] at hr
  | giveUp hin hl ha ha' => simp [ha'] at hr
  | make hin hk ha ha' => exact hk

theorem Called.buf_step (h : Called S s) (hact : Acts S s l s' effs)
    (hr : (s'.ch r).buf.isSome = true) : (s'.ch r).closed = true := by
  by_cases hended : r ∈ endedBy effs
  · exact hact.closed_of_mem hended
  · refine hact.closed (h.buf r ?_)
    cases hact with
    | sendHot => rwa [foldl_apply_ch_of_notMem _ hended] at hr
    | slot => rwa [foldl_apply_ch_of_notMem _ hended] at hr
    | conn => rwa [foldl_apply_ch_of_notMem _ hended] at hr
    | @receive n =>
      by_cases hn : r = n
      · subst hn
        simp at hr
      · simpa [Function.update_of_ne hn] using hr
    | _ => exact hr

theorem Called.post_step (h : Called S s) (howned : Owned S s) (hact : Acts S s l s' effs)
    (hpost : (S.info r).postMode = true) (hr : s'.attempt r = .returned) : s'.held r = 0 := by
  have hle := (hact.passes howned.orderly r).held_le
  cases hact.turn r with
  | same hin heq =>
    have := h.post r hpost (heq ▸ hr)
    omega
  | receive hin hl ha hready ha' =>
    refine howned.gone_step hact (hact.closed ?_)
    exact hready.elim (h.buf r) id
  | giveUp hin hl ha ha' =>
    rcases ha with ha | ⟨-, hp⟩
    · have := (howned.early r (by rw [ha]; rfl)).2
      omega
    · simp [hp] at hpost
  | start hin hl hk ha ha' => simp [ha'] at hr
  | send hin ha ha' => simp [ha'] at hr
  | make hin hk ha ha' => simp [ha'] at hr

theorem Called.step (h : Called S s) (howned : Owned S s) (hact : Acts S s l s' effs) :
    Called S s' where
  current _ := h.current_step hact
  delivered _ := h.delivered_step hact
  internal _ := h.internal_step hact
  buf _ := h.buf_step hact
  post _ := h.post_step howned hact

/-! ## Readers that write -/

/-- A request a reader holds, with a live context and a writer, is waited
for. -/
theorem Called.waiting_of_alive (h : Called S s) (howned : Owned S s) (hc : c ∈ s.conns)
    (hr : r ∈ c.reader.held) (hdone : s.done S r = none) (hwriter : (S.info r).hasWriter = true) :
    s.attempt r = .waiting := by
  have hkeep : (S.info r).keepalive = false := by
    by_contra hne
    simp [(S.info r).keepalive_writer (by simpa using hne)] at hwriter
  have hpos : 0 < s.held r := by
    have : 0 < c.held.count r := List.count_pos_iff.mpr (by simp [Conn.held, hr])
    exact this.trans_le (le_held_of_mem hc)
  cases ha : s.attempt r with
  | waiting => rfl
  | unmade =>
    have := (howned.early r (by rw [ha]; rfl)).2
    omega
  | entering =>
    have := (howned.early r (by rw [ha]; rfl)).2
    omega
  | internal => simp [h.internal r ha] at hkeep
  | returned =>
    cases hp : (S.info r).postMode with
    | true =>
      have := h.post r hp ha
      omega
    | false =>
      cases hcaller : s.caller (S.info r).call <;>
        simp [State.done, hkeep, hp, ha, hcaller] at hdone

/-- **While a reader may write, its attempt is waited for.** -/
def Writing (S : Setup) (s : State) : Prop :=
  ∀ c ∈ s.conns, ∀ r, c.reader.writes S r = true → s.attempt r = .waiting

theorem Writing.step (h : Writing S s) (howned : Owned S s) (hcalled : Called S s)
    (hjoins : Joins S s l = true) (hact : Acts S s l s' effs) : Writing S s' := by
  intro c' hc' r hw
  obtain ⟨k, hk⟩ := List.mem_iff_getElem?.mp hc'
  -- an attempt that was waited for, by a reader that may write
  have hkeep {c : Conn} (hc : s.conns[k]? = some c) (hw : c.reader.writes S r = true) :
      s'.attempt r = .waiting := by
    have hmem := List.mem_of_getElem? hc
    have hbefore := h c hmem r hw
    have hopen : (s.ch r).closed = false := by
      refine howned.open_of_mem_reader hmem ?_
      cases hreader : c.reader <;> simp_all [Reader.writes, Reader.held]
    cases hact.turn r with
    | same hin heq => rw [heq, hbefore]
    | send hin ha ha' => exact ha'
    | receive hin hl ha hready ha' =>
      have := hready.elim (hcalled.buf r) id
      simp [hopen] at this
    | giveUp hin hl ha ha' =>
      subst hl
      have := List.all_eq_true.mp hjoins c hmem
      simp [hw] at this
    | start hin hl hk ha ha' => simp [ha] at hbefore
    | make hin hk ha ha' => simp [ha] at hbefore
  cases hact.origin hk with
  | old hc => exact hkeep hc hw
  | @stepped env a c hc hl hprio hhot hs =>
    rcases hl with ⟨rfl, rfl⟩ | ⟨n, rfl, ha⟩
    · rcases Conn.step_writes hs hw with hw | ⟨hheld, hdone, hwriter⟩
      · exact hkeep hc hw
      · have hwaits := hcalled.waiting_of_alive howned (List.mem_of_getElem? hc) hheld hdone hwriter
        -- a step of a connection ends no attempt that is waited for
        cases hact.turn r with
        | same hin heq => rw [heq, hwaits]
        | send hin ha ha' => exact ha'
        | receive hin hl => cases hl
        | giveUp hin hl => cases hl
        | start hin hl => cases hl
        | make hin hk ha => simp [ha] at hwaits
    · have hreader : c'.reader = c.reader := by
        rcases ha with rfl | rfl <;> exact (writerStep_writes hs).frame.2
      exact hkeep hc (hreader ▸ hw)
  | new hnew =>
    subst hnew
    cases hw

/-- **Where an attempt gives up only behind its reader's `Feed`, nothing
is written once the call has its response.** -/
theorem quiescent_of_joins (S : Setup) (ls : List Label) (s : State)
    (hjoins : Along (Pool.step S) (fun s l => Joins S s l = true) (Pool.start S) ls)
    (h : exec (Pool.step S) (Pool.start S) ls = some s) : Quiescent S s := by
  have hinv : Owned S s ∧ Called S s ∧ Writing S s := by
    refine exec_invariant (I := fun s => Owned S s ∧ Called S s ∧ Writing S s) ?_ ls
      ⟨Owned.start S, Called.start S, fun c hc => by simp [Pool.start] at hc⟩ hjoins h
    rintro s l s' ⟨howned, hcalled, hwriting⟩ hl hstep
    obtain ⟨effs, hact⟩ := step_eq_some.1 hstep
    have hact := act_acts hact
    exact ⟨howned.step hact, hcalled.step howned hact, hwriting.step howned hcalled hl hact⟩
  obtain ⟨-, hcalled, hwriting⟩ := hinv
  intro l s' effs r hact hr
  obtain ⟨c, hc, hw⟩ := (act_acts hact).wrote hr
  have hcur := hcalled.current r (.inr (hwriting c hc r hw))
  by_contra hne
  have := hcalled.delivered _ (by simpa using hne)
  simp [this] at hcur

/-- A provider with one connection, and requests that stream a body to a
writer. -/
def bodyPool : Setup where
  connections := 1
  limits := Provider.limits { connections := 1 }
  providerName := "p"
  keepaliveCode := 111
  info r := { payload := ascii "BODY <a@b>" ++ crlf, hasWriter := true, call := r }

/-- The caller gives up, and has its response. -/
def cancelled : List Label := [.cancelCaller 0 .canceled, .giveUp 0 .caller, .deliver 0]

/-- The reader is before a control point when the caller gives up. -/
def cancelledBetween : List Label :=
  written ++ List.replicate 3 (.conn 0 (.reader .go)) ++ cancelled

theorem quiescent_of_joins_between :
    ∃ s, exec (Pool.step bodyPool) (Pool.start bodyPool) cancelledBetween = some s ∧
      s.delivered 0 = true ∧
      s.conns.map Conn.reader = [.control ⟨0, true, false, true⟩ true] ∧
      Quiescent bodyPool s := by
  have hrun : (exec (Pool.step bodyPool) (Pool.start bodyPool) cancelledBetween).map
      (fun s => (s.delivered 0, s.conns.map Conn.reader)) =
        some (true, [.control ⟨0, true, false, true⟩ true]) := by
    decide
  obtain ⟨s, hs, hp⟩ := Option.map_eq_some_iff.mp hrun
  obtain ⟨hdelivered, hreaders⟩ := Prod.mk.inj hp
  exact ⟨s, hs, hdelivered, hreaders,
    quiescent_of_joins bodyPool cancelledBetween s (by decide) hs⟩

/-- The reader is in a `Feed` when the caller gives up. -/
def cancelledInFeed : List Label :=
  written ++ List.replicate 4 (.conn 0 (.reader .go)) ++ cancelled

/-- **The reader writes to the writer of a call that has its response.** -/
theorem writes_behind_the_response :
    ∃ s, exec (Pool.step bodyPool) (Pool.start bodyPool) cancelledInFeed = some s ∧
      s.delivered 0 = true ∧
      (s.act bodyPool (.conn 0 (.reader (.more true)))).map Prod.snd = some [.wrote 0] ∧
      ¬Quiescent bodyPool s := by
  have hrun : (exec (Pool.step bodyPool) (Pool.start bodyPool) cancelledInFeed).map
      (fun s => (s.delivered 0,
        (s.act bodyPool (.conn 0 (.reader (.more true)))).map Prod.snd)) =
        some (true, some [.wrote 0]) := by
    decide
  obtain ⟨s, hs, hp⟩ := Option.map_eq_some_iff.mp hrun
  obtain ⟨hdelivered, hact⟩ := Prod.mk.inj hp
  refine ⟨s, hs, hdelivered, hact, fun h => ?_⟩
  obtain ⟨⟨s', effs⟩, hstep, heffs⟩ := Option.map_eq_some_iff.mp hact
  have := h _ s' effs 0 hstep (by simp [show effs = _ from heffs])
  simp [bodyPool, hdelivered] at this

end Pool

end NntpPool
