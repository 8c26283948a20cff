import NntpPool.Pool.Places
/-!
# Pool — every request has one owner

As long as a request is open, it is in one place. Once its channel is
closed it is nowhere, but for a pointer that `Run` may have kept. So
nobody completes it a second time: whoever is about to complete it holds
it, and the deferred function of `Run`, which may find a stale pointer,
finds the channel closed.
-/

namespace NntpPool

namespace Pool

variable {S : Setup} {env : Env} {s s' : State} {l : Label} {c c' : Conn} {effs : List Effect}
variable {r : ℕ}

/-! ## Channels -/

/-- The request was not handed in yet. -/
def Attempt.early : Attempt → Bool
  | .unmade => true
  | .entering => true
  | _ => false

/-- A request that is not completed. -/
theorem Acts.ch_of_notMem (h : Acts S s l s' effs) (hr : r ∉ endedBy effs) :
    (s'.ch r).closed = (s.ch r).closed ∧ (s'.ch r).sent = (s.ch r).sent := by
  cases h with
  | sendHot => rw [foldl_apply_ch_of_notMem _ hr]; exact ⟨rfl, rfl⟩
  | slot => rw [foldl_apply_ch_of_notMem _ hr]; exact ⟨rfl, rfl⟩
  | conn => rw [foldl_apply_ch_of_notMem _ hr]; exact ⟨rfl, rfl⟩
  | @receive n =>
    by_cases hn : r = n
    · subst hn
      simp
    · simp [Function.update_of_ne hn]
  | _ => exact ⟨rfl, rfl⟩

/-- A request that is completed. -/
theorem Acts.ch_of_mem (h : Acts S s l s' effs) (hr : r ∈ endedBy effs) :
    (∃ who e, .fail who r e ∈ effs ∧ s'.ch r = failRequest (s.ch r) e) ∨
      ∃ deliver reply, .answer r deliver reply ∈ effs ∧
        s'.ch r = (s.ch r).answer deliver reply := by
  have hsingle := h.single
  cases h with
  | sendHot => exact hsingle.apply_ch _ hr
  | slot => exact hsingle.apply_ch _ hr
  | conn => exact hsingle.apply_ch _ hr
  | _ => simp at hr

theorem failRequest_closed (ch : RespCh) (e : GoError) : (failRequest ch e).closed = true := by
  unfold failRequest
  split <;> simp_all

theorem Acts.closed_of_mem (h : Acts S s l s' effs) (hr : r ∈ endedBy effs) :
    (s'.ch r).closed = true := by
  rcases h.ch_of_mem hr with ⟨-, e, -, heq⟩ | ⟨deliver, reply, -, heq⟩
  · rw [heq]
    exact failRequest_closed _ _
  · rw [heq]
    rfl

/-- A closed channel stays closed. -/
theorem Acts.closed (h : Acts S s l s' effs) (hc : (s.ch r).closed = true) :
    (s'.ch r).closed = true := by
  by_cases hr : r ∈ endedBy effs
  · exact h.closed_of_mem hr
  · rw [(h.ch_of_notMem hr).1, hc]

/-! ## Requests that come in -/

/-- Only a keepalive is made, by a connection that was idle. -/
theorem Conn.step_madeBy {a : ConnAct} (h : c.step S env a = some (c', effs)) :
    madeBy effs = [] ∨
      ∃ n, a = .writer (.keepalive n) ∧ madeBy effs = [n] ∧ (S.info n).keepalive = true := by
  cases a with
  | writer a =>
    cases writerStep_writes h
    case waitKeepalive n hw hk => exact .inr ⟨n, rfl, rfl, hk⟩
    case abort hf => exact .inl hf.madeBy_eq
    case closing hf => exact .inl hf.madeBy_eq
    all_goals simp [Effect.made]
  | reader a =>
    left
    cases readerStep_reads h
    case retire hf => exact hf.madeBy_eq
    all_goals simp [Effect.made]

theorem foldl_apply_attempt (s : State) (effs : List Effect) (r : ℕ) :
    (effs.foldl State.apply s).attempt r =
      if r ∈ madeBy effs then .internal else s.attempt r := by
  induction effs generalizing s with
  | nil => rfl
  | cons x xs ih =>
    rw [List.foldl_cons, ih]
    cases x <;> simp [State.apply, Effect.made, Function.update_apply]
    split_ifs <;> simp_all

/-- **What a step makes of an attempt**, with how often it hands the
request in. -/
inductive Turn (S : Setup) (s : State) (l : Label) (s' : State) (inn r : ℕ) : Prop
  | same (hin : inn = 0) (h : s'.attempt r = s.attempt r)
  | start (hin : inn = 0) (hl : l = .start r) (hk : (S.info r).keepalive = false)
      (h : s.attempt r = .unmade) (h' : s'.attempt r = .entering)
  | send (hin : inn = 1) (h : s.attempt r = .entering) (h' : s'.attempt r = .waiting)
  | receive (hin : inn = 0) (hl : l = .receive r) (h : s.attempt r = .waiting)
      (hready : (s.ch r).buf.isSome ∨ (s.ch r).closed) (h' : s'.attempt r = .returned)
  | giveUp {why : Why} (hin : inn = 0) (hl : l = .giveUp r why)
      (h : s.attempt r = .entering ∨ s.attempt r = .waiting ∧ (S.info r).postMode = false)
      (h' : s'.attempt r = .returned)
  | make (hin : inn = 1) (hk : (S.info r).keepalive = true) (h : s.attempt r = .unmade)
      (h' : s'.attempt r = .internal)

theorem Acts.turn (h : Acts S s l s' effs) (r : ℕ) :
    Turn S s l s' ((l.handed ++ madeBy effs).count r) r := by
  cases h with
  | @start n ha hk =>
    by_cases hn : r = n
    · subst hn
      exact .start rfl rfl hk ha (Function.update_self ..)
    · exact .same rfl (Function.update_of_ne hn ..)
  | @sendPrio n ha | @sendReq n ha =>
    by_cases hn : r = n
    · subst hn
      exact .send (by simp [Label.handed]) ha (Function.update_self ..)
    · exact .same (by simp [Label.handed, Ne.symm hn]) (Function.update_of_ne hn ..)
  | @sendHot n _ _ _ _ _ ha hhot hc hs =>
    have hmade : madeBy effs = [] := by
      rcases Conn.step_madeBy hs with h | ⟨m, hm, -⟩
      · exact h
      · rcases hhot with ⟨rfl, -⟩ | rfl <;> cases hm
    by_cases hn : r = n
    · subst hn
      exact .send (by simp [Label.handed, hmade]) ha
        (by simp [foldl_apply_attempt, hmade, State.accepted])
    · exact .same (by simp [Label.handed, hmade, Ne.symm hn])
        (by simp [foldl_apply_attempt, hmade, State.accepted, Function.update_of_ne hn])
  | @receive n ha hready =>
    by_cases hn : r = n
    · subst hn
      exact .receive rfl rfl ha hready (Function.update_self ..)
    · exact .same rfl (Function.update_of_ne hn ..)
  | @giveUp n _ ha =>
    by_cases hn : r = n
    · subst hn
      exact .giveUp rfl rfl ha (Function.update_self ..)
    · exact .same rfl (Function.update_of_ne hn ..)
  | slot hp hs =>
    have hmade : madeBy effs = [] := by cases hs <;> rfl
    exact .same (by simp [Label.handed, hmade]) (by simp [foldl_apply_attempt, hmade])
  | conn hallows hc hs =>
    rcases Conn.step_madeBy hs with hmade | ⟨n, rfl, hmade, hk⟩
    · exact .same (by simp [Label.handed, hmade]) (by simp [foldl_apply_attempt, hmade])
    · by_cases hn : r = n
      · subst hn
        have ha : s.attempt r = .unmade := by simpa [State.allows] using hallows
        exact .make (by simp [Label.handed, hmade]) hk ha (by simp [foldl_apply_attempt, hmade])
      · exact .same (by simp [Label.handed, hmade, Ne.symm hn])
          (by simp [foldl_apply_attempt, hmade, hn])
  | _ => exact .same rfl rfl

/-- **A request comes in once**, and was not handed in before. -/
theorem Acts.comes (h : Acts S s l s' effs) (r : ℕ) :
    (l.handed ++ madeBy effs).count r = 0 ∧
        ((s'.attempt r).early = true → (s.attempt r).early = true) ∨
      (l.handed ++ madeBy effs).count r = 1 ∧ (s.attempt r).early = true ∧
        (s'.attempt r).early = false := by
  cases h.turn r with
  | same hin heq => exact .inl ⟨hin, by rw [heq]; exact id⟩
  | start hin hl hk ha ha' => exact .inl ⟨hin, by simp [ha, Attempt.early]⟩
  | receive hin hl ha hready ha' => exact .inl ⟨hin, by simp [ha', Attempt.early]⟩
  | giveUp hin hl ha ha' => exact .inl ⟨hin, by simp [ha', Attempt.early]⟩
  | send hin ha ha' => exact .inr ⟨hin, by simp [ha, Attempt.early], by simp [ha', Attempt.early]⟩
  | make hin hk ha ha' => exact .inr ⟨hin, by simp [ha, Attempt.early], by simp [ha', Attempt.early]⟩

/-! ## Who completes a request -/

theorem answer_notMem_pendingFreed (e : Entry) (deliver : Bool) (reply : Reply) :
    .answer r deliver reply ∉ pendingFreed e :=
  fun h => Bool.false_ne_true (isGauge_pendingFreed e _ h)

theorem fail_notMem_pendingFreed (e : Entry) (who : Party) (err : GoError) :
    .fail who r err ∉ pendingFreed e :=
  fun h => Bool.false_ne_true (isGauge_pendingFreed e _ h)

theorem notMem_wroteTo {x : Effect} (hx : x ≠ .wrote r) {deliver wrote : Bool} :
    x ∉ wroteTo S r deliver wrote := by
  unfold wroteTo
  split <;> simp [hx]

/-- **A response is sent by a reader that is about to.** -/
theorem Conn.step_answer {a : ConnAct} {deliver : Bool} {reply : Reply}
    (h : c.step S env a = some (c', effs)) (hr : .answer r deliver reply ∈ effs) :
    ∃ e code, c.reader = .respond e deliver reply code ∧ e.req = r ∧
      c' = { c with reader := .freeInflight e reply code } := by
  have hfails {c c' : Conn} {f f'} (hf : Fails S c f c' f' effs) : False := by
    cases hf <;> simp [answer_notMem_pendingFreed] at hr
  cases a with
  | writer a =>
    cases writerStep_writes h
    case abort hf => exact (hfails hf).elim
    case closing hf => exact (hfails hf).elim
    case exitUnsent => cases hu : c.unsent <;> simp [hu, exitFails] at hr
    case exitDeferred => cases hd : c.deferredNormal <;> simp [hd, exitFails] at hr
    case writeErr hg _ _ _ => cases hg <;> simp [backgroundFreed] at hr
    all_goals simp at hr
  | reader a =>
    cases readerStep_reads h
    case respond e deliver' reply' code he =>
      obtain ⟨rfl, rfl, rfl⟩ : r = e.req ∧ _ := by simpa using hr
      exact ⟨e, code, he, rfl, rfl⟩
    case retire hf => exact (hfails hf).elim
    case freePending => exact absurd hr (answer_notMem_pendingFreed _ _ _)
    case feedMore => exact absurd hr (notMem_wroteTo (by simp))
    case feedFinish => exact absurd hr (notMem_wroteTo (by simp))
    all_goals simp at hr

/-- It holds the request. -/
theorem Conn.mem_held_of_answer {a : ConnAct} {deliver : Bool} {reply : Reply}
    (h : c.step S env a = some (c', effs)) (hr : .answer r deliver reply ∈ effs) :
    r ∈ c.reader.held := by
  obtain ⟨e, code, he, rfl, -⟩ := Conn.step_answer h hr
  simp [he, Reader.held]

/-- The requests of the queue and the reader. -/
def Conn.kept (c : Conn) : List ℕ := c.pending.map Entry.req ++ c.reader.held

/-- The writer fails a request only outside the queue. -/
theorem Conn.step_fail {a : ConnAct} {who : Party} {e : GoError}
    (h : c.step S env a = some (c', effs)) (hr : .fail who r e ∈ effs) :
    who = .outstanding ∨
      who = .writer ∧ c.kept.count r + 1 ≤ c.held.count r + c.left.count r := by
  have hfails {c c' : Conn} {f f'} (hf : Fails S c f c' f' effs) : who = .outstanding := by
    cases hf <;> simp_all [fail_notMem_pendingFreed]
  cases a with
  | writer a =>
    cases writerStep_writes h
    case abort hf => exact .inl (hfails hf)
    case closing hf => exact .inl (hfails hf)
    case exitUnsent hw =>
      right
      cases hu : c.unsent <;> simp_all [exitFails, Conn.kept, Conn.held, Conn.left]
      omega
    case exitDeferred hw =>
      right
      cases hd : c.deferredNormal <;> simp_all [exitFails, Conn.kept, Conn.held]
      omega
    case writeErr hg _ _ _ =>
      right
      cases hg <;> simp_all [backgroundFreed, Conn.kept, Conn.held, Writer.held, Writer.works] <;>
        omega
    all_goals simp_all [Conn.kept, Conn.held, Writer.held, Writer.works]
    all_goals omega
  | reader a =>
    cases readerStep_reads h
    case retire hf => exact .inl (hfails hf)
    case freePending => exact absurd hr (fail_notMem_pendingFreed _ _ _)
    case feedMore => exact absurd hr (notMem_wroteTo (by simp))
    case feedFinish => exact absurd hr (notMem_wroteTo (by simp))
    all_goals simp at hr

/-! ## The invariant -/

/-- **Every request has one owner.** -/
structure Owned (S : Setup) (s : State) : Prop where
  orderly : ∀ c ∈ s.conns, c.Orderly S
  sorted : ∀ r ∈ s.prioCh, (S.info r).priority = true
  /-- An open request is in one place at most. -/
  one : ∀ r, (s.ch r).closed = false → s.held r + s.left r ≤ 1
  /-- A closed one is in none. -/
  gone : ∀ r, (s.ch r).closed = true → s.held r = 0
  stale : ∀ r, s.Stale r → (s.ch r).closed = true
  early : ∀ r, (s.attempt r).early = true → (s.ch r).closed = false ∧ s.held r + s.left r = 0
  sent : ∀ r, (s.ch r).sent ≤ (s.ch r).closed.toNat

theorem le_held_of_mem (hc : c ∈ s.conns) : c.held.count r ≤ s.held r := by
  obtain ⟨k, hk⟩ := List.mem_iff_getElem?.mp hc
  have := le_shares (f := fun c : Conn => c.held.count r) hk
  unfold State.held
  omega

/-- What the reader holds is open. -/
theorem Owned.open_of_mem_reader (h : Owned S s) (hc : c ∈ s.conns) (hr : r ∈ c.reader.held) :
    (s.ch r).closed = false := by
  have hpos : 0 < s.held r := by
    have : 0 < c.held.count r := List.count_pos_iff.mpr (by simp [Conn.held, hr])
    exact this.trans_le (le_held_of_mem hc)
  by_contra hne
  have := h.gone r (by simpa using hne)
  omega

/-- A request that is answered is held by a reader, and open. -/
theorem Owned.answered (h : Owned S s) (hact : Acts S s l s' effs) {deliver : Bool}
    {reply : Reply} (hr : .answer r deliver reply ∈ effs) : (s.ch r).closed = false := by
  cases hact with
  | sendHot ha hhot hc hs =>
    exact h.open_of_mem_reader (List.mem_of_getElem? hc) (Conn.mem_held_of_answer hs hr)
  | conn hallows hc hs =>
    exact h.open_of_mem_reader (List.mem_of_getElem? hc) (Conn.mem_held_of_answer hs hr)
  | slot hp hs => cases hs <;> simp at hr
  | _ => simp at hr

theorem Owned.start (S : Setup) : Owned S (start S) where
  orderly := by simp [Pool.start]
  sorted := by simp [Pool.start]
  one r _ := by
    simp [State.held, State.left, Pool.start, shares, Slot.held]
  gone r h := by cases h
  stale r h := by
    obtain ⟨c, hc, -⟩ := h
    simp [Pool.start] at hc
  early r _ := by
    refine ⟨rfl, ?_⟩
    simp [State.held, State.left, Pool.start, shares, Slot.held]
  sent r := Nat.le_refl _

/-- An open request is in one place, still. -/
theorem Owned.one_step (h : Owned S s) (hact : Acts S s l s' effs)
    (hopen : (s'.ch r).closed = false) : s'.held r + s'.left r ≤ 1 := by
  have hr : r ∉ endedBy effs := fun hr => by simp [hact.closed_of_mem hr] at hopen
  have hbefore : (s.ch r).closed = false := by rw [← (hact.ch_of_notMem hr).1, hopen]
  have hstale : ¬s.Stale r := fun hst => by simp [h.stale r hst] at hbefore
  have hkeeps := (hact.passes h.orderly r).keeps hr hstale
  rcases hact.comes r with ⟨hin, -⟩ | ⟨hin, hearly, -⟩
  · have := h.one r hbefore
    omega
  · have := (h.early r hearly).2
    omega

/-- Nobody takes up a request that is closed. -/
theorem Owned.gone_step (h : Owned S s) (hact : Acts S s l s' effs)
    (hclosed : (s'.ch r).closed = true) : s'.held r = 0 := by
  have hpass := hact.passes h.orderly r
  cases hbefore : (s.ch r).closed with
  | true =>
    have hheld := h.gone r hbefore
    have hle := hpass.held_le
    rcases hact.comes r with ⟨hin, -⟩ | ⟨-, hearly, -⟩
    · omega
    · simp [(h.early r hearly).1] at hbefore
  | false =>
    have hr : r ∈ endedBy effs := by
      by_contra hr
      rw [(hact.ch_of_notMem hr).1, hbefore] at hclosed
      cases hclosed
    have := hpass.ends hr
    have := h.one r hbefore
    omega

/-- A pointer is stale only behind its request. -/
theorem Owned.stale_step (h : Owned S s) (hact : Acts S s l s' effs) (hst : s'.Stale r) :
    (s'.ch r).closed = true := by
  obtain ⟨c', hc', hr⟩ := hst
  obtain ⟨k, hk⟩ := List.mem_iff_getElem?.mp hc'
  cases hact.origin hk with
  | old hc => exact hact.closed (h.stale r ⟨c', List.mem_of_getElem? hc, hr⟩)
  | stepped hc hl hprio hhot hs =>
    rcases Conn.step_stale hs hr with hr | hr
    · exact hact.closed (h.stale r ⟨_, List.mem_of_getElem? hc, hr⟩)
    · exact hact.closed_of_mem hr
  | new hnew =>
    subst hnew
    simp [Conn.stale, newConn, Writer.works] at hr

theorem Owned.early_step (h : Owned S s) (hact : Acts S s l s' effs)
    (hearly : (s'.attempt r).early = true) :
    (s'.ch r).closed = false ∧ s'.held r + s'.left r = 0 := by
  rcases hact.comes r with ⟨hin, hbefore⟩ | ⟨-, -, hlate⟩
  · obtain ⟨hopen, hnone⟩ := h.early r (hbefore hearly)
    have hpass := hact.passes h.orderly r
    have hr : r ∉ endedBy effs := fun hr => by
      have := hpass.ends hr
      omega
    have hstale : ¬s.Stale r := fun hst => by simp [h.stale r hst] at hopen
    have := hpass.keeps hr hstale
    exact ⟨by rw [(hact.ch_of_notMem hr).1, hopen], by omega⟩
  · rw [hearly] at hlate
    cases hlate

/-- **One response is sent**, before the channel is closed. -/
theorem Owned.sent_step (h : Owned S s) (hact : Acts S s l s' effs) :
    (s'.ch r).sent ≤ (s'.ch r).closed.toNat := by
  have hsent := h.sent r
  by_cases hr : r ∈ endedBy effs
  · rcases hact.ch_of_mem hr with ⟨who, e, -, heq⟩ | ⟨deliver, reply, hmem, heq⟩
    · rw [heq, failRequest_closed]
      unfold failRequest
      split_ifs with hclosed
      · simpa [hclosed] using hsent
      · simp only [hclosed, RespCh.put] at hsent ⊢
        split_ifs <;> simp_all
    · have hopen := h.answered hact hmem
      rw [hopen] at hsent
      rw [heq]
      simp only [RespCh.answer, RespCh.put]
      split_ifs <;> simp_all
  · obtain ⟨hclosed, hs⟩ := hact.ch_of_notMem hr
    rw [hclosed, hs]
    exact hsent

theorem mem_prioCh_of_foldl_apply {s : State} (hr : r ∈ (effs.foldl State.apply s).prioCh) :
    r ∈ s.prioCh := by
  induction effs generalizing s with
  | nil => exact hr
  | cons x xs ih =>
    have hx : r ∈ (s.apply x).prioCh := ih hr
    cases x <;> first | exact hx | exact List.mem_of_mem_tail hx

/-- What is in the priority channel has priority. -/
theorem Owned.sorted_step (h : Owned S s) (hact : Acts S s l s' effs) :
    ∀ r ∈ s'.prioCh, (S.info r).priority = true := by
  intro r hr
  cases hact with
  | sendPrio ha hp =>
    rcases List.mem_append.mp hr with hr | hr
    · exact h.sorted r hr
    · rwa [List.mem_singleton.mp hr]
  | sendHot =>
    have hr := mem_prioCh_of_foldl_apply hr
    exact h.sorted r hr
  | slot =>
    have hr := mem_prioCh_of_foldl_apply hr
    exact h.sorted r hr
  | conn =>
    have hr := mem_prioCh_of_foldl_apply hr
    exact h.sorted r hr
  | _ => exact h.sorted r hr

theorem Owned.orderly_step (h : Owned S s) (hact : Acts S s l s' effs) :
    ∀ c ∈ s'.conns, c.Orderly S := by
  intro c' hc'
  obtain ⟨k, hk⟩ := List.mem_iff_getElem?.mp hc'
  cases hact.origin hk with
  | old hc => exact h.orderly c' (List.mem_of_getElem? hc)
  | stepped hc hl hprio hhot hs =>
    have hbefore := h.orderly _ (List.mem_of_getElem? hc)
    exact Conn.step_orderly hs ⟨by rw [hprio]; exact h.sorted, hhot⟩ hbefore
  | new hnew =>
    subst hnew
    exact ⟨nofun, nofun, nofun⟩

/-- **Every step keeps it.** -/
theorem Owned.step (h : Owned S s) (hact : Acts S s l s' effs) : Owned S s' where
  orderly := h.orderly_step hact
  sorted := h.sorted_step hact
  one _ := h.one_step hact
  gone _ := h.gone_step hact
  stale _ := h.stale_step hact
  early _ := h.early_step hact
  sent _ := h.sent_step hact

/-- **Every reachable state has it.** -/
theorem Owned.run {ls : List Label} (h : exec (Pool.step S) (Pool.start S) ls = some s) :
    Owned S s := by
  refine exec_invariant (I := Owned S) (P := fun _ _ => True) ?_ ls (Owned.start S)
    (along_true _ _) h
  intro s l s' hs _ hstep
  obtain ⟨effs, hact⟩ := step_eq_some.1 hstep
  exact hs.step (act_acts hact)

/-! ## Answered requests -/

/-- The request the reader has answered and not let go of. -/
def Reader.past : Reader → List ℕ
  | .freeInflight e _ _ => [e.req]
  | .freePending e _ _ => [e.req]
  | .freeBody e _ _ => [e.req]
  | .decide e _ _ => [e.req]
  | _ => []

/-- **No writer points to a request that was answered.** -/
structure Settled (s : State) (r : ℕ) : Prop where
  closed : (s.ch r).closed = true
  left : s.left r = 0
  stale : ¬s.Stale r

theorem Conn.step_past {a : ConnAct} (h : c.step S env a = some (c', effs))
    (hr : r ∈ c'.reader.past) :
    r ∈ c.reader.past ∨ ∃ deliver reply, .answer r deliver reply ∈ effs := by
  cases a with
  | writer a => exact .inl ((writerStep_writes h).frame.2 ▸ hr)
  | reader a =>
    cases readerStep_reads h
    case respond =>
      obtain rfl : r = _ := by simpa [Reader.past] using hr
      exact .inr ⟨_, _, List.mem_singleton_self _⟩
    case retire f' _ _ _ => cases f' <;> simp [Reader.after, Reader.past] at hr
    case decide hp => rcases hp with rfl | rfl <;> simp [Reader.past] at hr
    all_goals simp_all [Reader.past]

/-- Behind its answer a request stays as it is. -/
theorem Settled.step (hs : Settled s r) (h : Owned S s) (hact : Acts S s l s' effs) :
    Settled s' r := by
  have hheld := h.gone r hs.closed
  have hpass := hact.passes h.orderly r
  have hr : r ∉ endedBy effs := fun hr => by
    have := hpass.ends hr
    have := hs.left
    omega
  have hin : (l.handed ++ madeBy effs).count r = 0 := by
    rcases hact.comes r with ⟨hin, -⟩ | ⟨-, hearly, -⟩
    · exact hin
    · have := hs.closed
      simp [(h.early r hearly).1] at this
  refine ⟨hact.closed hs.closed, ?_, ?_⟩
  · have := hpass.keeps hr hs.stale
    have := hs.left
    omega
  · rintro ⟨c', hc', hst⟩
    obtain ⟨k, hk⟩ := List.mem_iff_getElem?.mp hc'
    cases hact.origin hk with
    | old hc => exact hs.stale ⟨c', List.mem_of_getElem? hc, hst⟩
    | stepped hc hl hprio hhot hstep =>
      rcases Conn.step_stale hstep hst with hst | hst
      · exact hs.stale ⟨_, List.mem_of_getElem? hc, hst⟩
      · exact hr hst
    | new hnew =>
      subst hnew
      simp [Conn.stale, newConn, Writer.works] at hst

/-- Its answer leaves a request settled. -/
theorem Settled.of_answer (h : Owned S s) (hact : Acts S s l s' effs) {deliver : Bool}
    {reply : Reply} (hr : .answer r deliver reply ∈ effs) : Settled s' r := by
  have hopen := h.answered hact hr
  have hended : r ∈ endedBy effs := mem_endedBy.2 (.inr ⟨_, _, hr⟩)
  have hstale : ¬s.Stale r := fun hst => by simp [h.stale r hst] at hopen
  -- the step is the reader's, and the writer stays where it is
  have hconn {k : ℕ} {a : ConnAct} {c c' : Conn} {env : Env} (hc : s.conns[k]? = some c)
      (hs : c.step S env a = some (c', effs)) (hconns : s'.conns = s.conns.set k c') :
      Settled s' r := by
    have hread := Conn.mem_held_of_answer hs hr
    have hframe : c'.left = c.left ∧ c'.stale = c.stale := by
      obtain ⟨e, code, -, -, rfl⟩ := Conn.step_answer hs hr
      exact ⟨rfl, rfl⟩
    obtain ⟨hleft, hst⟩ := hframe
    refine ⟨hact.closed_of_mem hended, ?_, ?_⟩
    · have hpos : 0 < c.held.count r := List.count_pos_iff.mpr (by simp [Conn.held, hread])
      have := le_held_of_mem (r := r) (List.mem_of_getElem? hc)
      have := h.one r hopen
      have hset := shares_set (f := fun c : Conn => c.left.count r) hc c'
      simp only [State.left, hconns, hleft] at this hset ⊢
      omega
    · rintro ⟨d, hd, hmem⟩
      rw [hconns] at hd
      rcases List.mem_or_eq_of_mem_set hd with hd | rfl
      · exact hstale ⟨d, hd, hmem⟩
      · exact hstale ⟨c, List.mem_of_getElem? hc, hst ▸ hmem⟩
  cases hact with
  | sendHot ha hhot hc hs => exact hconn hc hs (foldl_apply_conns _ _)
  | conn hallows hc hs => exact hconn hc hs (foldl_apply_conns _ _)
  | slot hp hs => cases hs <;> simp at hr
  | _ => simp at hr

/-- **What the reader has answered is settled**, in every reachable
state. -/
theorem settled_of_past {ls : List Label} (h : exec (Pool.step S) (Pool.start S) ls = some s) :
    ∀ c ∈ s.conns, ∀ r ∈ c.reader.past, Settled s r := by
  have hinv : Owned S s ∧ ∀ c ∈ s.conns, ∀ r ∈ c.reader.past, Settled s r := by
    refine exec_invariant (P := fun _ _ => True)
      (I := fun s => Owned S s ∧ ∀ c ∈ s.conns, ∀ r ∈ c.reader.past, Settled s r) ?_ ls
      ⟨Owned.start S, by simp [Pool.start]⟩ (along_true _ _) h
    rintro s l s' ⟨howned, hpast⟩ - hstep
    obtain ⟨effs, hact⟩ := step_eq_some.1 hstep
    have hact := act_acts hact
    refine ⟨howned.step hact, fun c' hc' r hr => ?_⟩
    obtain ⟨k, hk⟩ := List.mem_iff_getElem?.mp hc'
    cases hact.origin hk with
    | old hc => exact (hpast c' (List.mem_of_getElem? hc) r hr).step howned hact
    | stepped hc hl hprio hhot hs =>
      rcases Conn.step_past hs hr with hr | ⟨deliver, reply, hr⟩
      · exact (hpast _ (List.mem_of_getElem? hc) r hr).step howned hact
      · exact .of_answer howned hact hr
    | new hnew =>
      subst hnew
      cases hr
  exact hinv.2

/-! ## The exits of the writer and the slot -/

/-- A request the writer or a slot fails is in no queue and with no
reader. -/
theorem Owned.fail_notMem (h : Owned S s) (hact : Acts S s l s' effs) {who : Party} {e : GoError}
    (hr : .fail who r e ∈ effs) (hwho : who ≠ .outstanding) : ∀ d ∈ s.conns, r ∉ d.kept := by
  intro d hd hmem
  have hkept : 0 < d.kept.count r := List.count_pos_iff.mpr hmem
  have hle : d.kept.count r ≤ d.held.count r := by
    simp only [Conn.kept, Conn.held, List.count_append]
    omega
  have hpos := le_held_of_mem (r := r) hd
  have hopen : (s.ch r).closed = false := by
    by_contra hne
    have := h.gone r (by simpa using hne)
    omega
  have hone := h.one r hopen
  obtain ⟨j, hj⟩ := List.mem_iff_getElem?.mp hd
  have hconn {k : ℕ} {a : ConnAct} {c c' : Conn} {env : Env} (hc : s.conns[k]? = some c)
      (hs : c.step S env a = some (c', effs)) : False := by
    rcases Conn.step_fail hs hr with hout | ⟨-, hcount⟩
    · exact hwho hout
    have hheld := le_shares (f := fun c : Conn => c.held.count r) hc
    have hleft := le_shares (f := fun c : Conn => c.left.count r) hc
    simp only [State.held, State.left] at hone
    by_cases hjk : k = j
    · subst hjk
      obtain rfl : c = d := Option.some.inj (hc.symm.trans hj)
      omega
    · have := add_le_shares (f := fun c : Conn => c.held.count r) hjk hc hj
      omega
  cases hact with
  | sendHot ha hhot hc hs => exact hconn hc hs
  | conn hallows hc hs => exact hconn hc hs
  | slot hp hs =>
    have hslot := (hs.passes r).ends (mem_endedBy.2 (.inl ⟨who, e, hr⟩))
    have := le_shares (f := fun p : Slot => p.held.count r) hp
    have := le_shares (f := fun c : Conn => c.held.count r) hj
    simp only [State.held] at hone
    omega
  | _ => simp at hr

/-- A request the writer or a slot fails was not answered. -/
theorem Owned.fail_not_settled (h : Owned S s) (hact : Acts S s l s' effs) {who : Party}
    {e : GoError} (hr : .fail who r e ∈ effs) : ¬Settled s r := by
  intro hs
  have := (hact.passes h.orderly r).ends (mem_endedBy.2 (.inl ⟨who, e, hr⟩))
  have := h.gone r hs.closed
  have := hs.left
  omega

/-- A deferred request makes way for none. -/
theorem Conn.step_deferred {a : ConnAct} {d d' : ℕ} (h : c.step S env a = some (c', effs))
    (hc : c.Orderly S) (hd : c.deferredNormal = some d) (hd' : c'.deferredNormal = some d') :
    d' = d := by
  cases a with
  | writer a =>
    cases writerStep_writes h
    case abort hf =>
      have hsame := hf.frame.2.2.2.2
      simp_all
    case closing hf =>
      have hsame := hf.frame.2.2.2.2
      simp_all
    case chosenPrio hw hp => simp [hc.chosen _ hw] at hd
    case backgroundFull hw hu hg hfull => simp [hc.turn _ (by rw [hw]; rfl) hu hg] at hd
    all_goals
      simp_all [Conn.freeInflight, Conn.freeBody_eq, Conn.freeBackground_eq]
  | reader a =>
    rw [(readerStep_reads h).frame.2.2.2] at hd'
    simp_all

theorem Owned.deferred (h : Owned S s) (hact : Acts S s l s' effs) {k d d' : ℕ}
    (hc : s.conns[k]? = some c) (hc' : s'.conns[k]? = some c') (hd : c.deferredNormal = some d)
    (hd' : c'.deferredNormal = some d') : d' = d := by
  cases hact.origin hc' with
  | old hold =>
    obtain rfl : c = c' := Option.some.inj (hc.symm.trans hold)
    exact Option.some.inj (hd'.symm.trans hd)
  | stepped hb hl hprio hhot hs =>
    obtain rfl := Option.some.inj (hc.symm.trans hb)
    exact Conn.step_deferred hs (h.orderly _ (List.mem_of_getElem? hb)) hd hd'
  | new hnew hlen =>
    rw [hlen, List.getElem?_eq_none (Nat.le_refl _)] at hc
    cases hc

/-- **Each request is completed at most once.** In every reachable state
at most one response was ever sent on a request's channel. And whatever
the next step is: a reader answers only on an open channel; what the
writer or a slot fails is in no queue, and with no reader, before its
answer or behind it; and a deferred request is not overwritten. -/
theorem completed_at_most_once (S : Setup) (ls : List Label) (s : State)
    (h : exec (Pool.step S) (Pool.start S) ls = some s) :
    (∀ r, (s.ch r).sent ≤ 1) ∧
    ∀ l s' effs, s.act S l = some (s', effs) →
      (∀ r deliver reply, .answer r deliver reply ∈ effs → (s.ch r).closed = false) ∧
      (∀ who r e, .fail who r e ∈ effs → who ≠ .outstanding → ∀ c ∈ s.conns,
        r ∉ c.pending.map Entry.req ∧ r ∉ c.reader.held ∧ r ∉ c.reader.past) ∧
      ∀ (k : ℕ) (c c' : Conn) (d d' : ℕ), s.conns[k]? = some c → s'.conns[k]? = some c' →
        c.deferredNormal = some d → c'.deferredNormal = some d' → d' = d := by
  have howned := Owned.run h
  refine ⟨fun r => (howned.sent r).trans (Bool.toNat_le _), fun l s' effs hact => ?_⟩
  have hact := act_acts hact
  refine ⟨fun r deliver reply hr => howned.answered hact hr, fun who r e hr hwho c hc => ?_,
    fun k c c' d d' hc hc' hd hd' => howned.deferred hact hc hc' hd hd'⟩
  have hkept := howned.fail_notMem hact hr hwho c hc
  simp only [Conn.kept, List.mem_append, not_or] at hkept
  exact ⟨hkept.1, hkept.2,
    fun hpast => howned.fail_not_settled hact hr (settled_of_past h c hc r hpast)⟩

/-- A provider with one connection, and requests that are STATs. -/
def statPool : Setup where
  connections := 1
  limits := Provider.limits { connections := 1, statInflight := 2, backgroundStatInflight := 1 }
  providerName := "p"
  keepaliveCode := 111
  info r := { payload := ascii "STAT <a@b>" ++ crlf, call := r,
              keepalive_writer := Request.any_writer }

/-- A call's request is taken by the slot, which dials, and is written by
the connection. -/
def written : List Label :=
  [.start 0, .send 0, .slot 0 .req, .slot 0 .go, .slot 0 .go, .slot 0 .go, .slot 0 .go,
    .slot 0 .go, .conn 0 (.writer .go), .conn 0 (.writer .go), .conn 0 (.writer .go),
    .conn 0 (.writer .go), .conn 0 (.writer .go), .conn 0 (.writer .go)]

/-- And it is answered. -/
def answered : List Label :=
  written ++ [.conn 0 (.reader .go), .conn 0 (.reader .go), .conn 0 (.reader .go),
    .conn 0 (.reader .go), .conn 0 (.reader (.finish false { statusCode := 223 })),
    .conn 0 (.reader .go), .conn 0 (.reader .go)]

theorem completed_at_most_once_answered :
    ∃ s, exec (Pool.step statPool) (Pool.start statPool) answered = some s ∧
      (s.ch 0).sent = 1 ∧ s.conns.map (fun c => c.reader.past) = [[0]] ∧
      ∀ r, (s.ch r).sent ≤ 1 := by
  have hrun : (exec (Pool.step statPool) (Pool.start statPool) answered).map
      (fun s => ((s.ch 0).sent, s.conns.map fun c => c.reader.past)) = some (1, [[0]]) := by
    decide
  obtain ⟨s, hs, hp⟩ := Option.map_eq_some_iff.mp hrun
  obtain ⟨hsent, hpast⟩ := Prod.mk.inj hp
  exact ⟨s, hs, hsent, hpast, (completed_at_most_once statPool answered s hs).1⟩

end Pool

end NntpPool
