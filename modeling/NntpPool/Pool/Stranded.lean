import NntpPool.Pool.Buffer
/-!
# Pool — requests that are left behind

A request that a call has handed in and waits for is in one place until
it is completed. When all slots of a provider have returned, nobody takes
requests out of the channels any more, nor those a slot has carried to
its end. The slots look at neither before they return. Where they do, a
request that is still open is with a reader that is still running.
-/

namespace NntpPool

namespace Pool

variable {S : Setup} {env : Env} {s s' : State} {l : Label} {c c' : Conn} {effs : List Effect}
variable {r : ℕ}

/-! ## Requests that are waited for -/

/-- A keepalive is made by the connection that sends it. -/
theorem Conn.step_keepalive {a : ConnAct} (h : c.step S env a = some (c', effs))
    (hw : c'.writer = .keepalive r) : c.writer = .keepalive r ∨ (S.info r).keepalive = true := by
  cases a with
  | writer a =>
    cases writerStep_writes h
    case waitKeepalive hk =>
      cases hw
      exact .inr hk
    case abort f' _ _ _ => cases f' <;> simp [Writer.after] at hw
    case closing f' _ _ _ => cases f' <;> simp [Writer.after] at hw
    case takeGo b _ _ => cases b <;> simp at hw
    case postReady b _ _ => cases b <;> simp at hw
    case keepaliveAnswer hto => rcases hto with rfl | rfl <;> simp at hw
    all_goals simp_all
  | reader a => exact .inl ((readerStep_reads h).frame.2.1 ▸ hw)

/-- **A request that is waited for is somewhere.** -/
structure Awaited (S : Setup) (s : State) : Prop where
  keepalive : ∀ c ∈ s.conns, ∀ r, c.writer = .keepalive r → (S.info r).keepalive = true
  called : ∀ r, s.attempt r = .entering ∨ s.attempt r = .waiting → (S.info r).keepalive = false
  waits : ∀ r, s.attempt r = .waiting → (s.ch r).closed = false → s.held r + s.left r = 1

theorem Awaited.keepalive_step (h : Awaited S s) (hact : Acts S s l s' effs) :
    ∀ c ∈ s'.conns, ∀ r, c.writer = .keepalive r → (S.info r).keepalive = true := by
  intro c' hc' r hw
  obtain ⟨k, hk⟩ := List.mem_iff_getElem?.mp hc'
  cases hact.origin hk with
  | old hc => exact h.keepalive c' (List.mem_of_getElem? hc) r hw
  | stepped hc hl hprio hhot hs =>
    rcases Conn.step_keepalive hs hw with hw | hinfo
    · exact h.keepalive _ (List.mem_of_getElem? hc) r hw
    · exact hinfo
  | new hnew =>
    subst hnew
    cases hw

theorem Awaited.called_step (h : Awaited S s) (hact : Acts S s l s' effs)
    (hr : s'.attempt r = .entering ∨ s'.attempt r = .waiting) :
    (S.info r).keepalive = false := by
  cases hact.turn r with
  | same hin heq => exact h.called r (heq ▸ hr)
  | start hin hl hk ha ha' => exact hk
  | send hin ha ha' => exact h.called r (.inl ha)
  | receive hin hl ha hready ha' => exact h.called r (.inr ha)
  | giveUp hin hl ha ha' => exact h.called r (ha.imp id And.left)
  | make hin hk ha ha' => simp [ha'] at hr

/-- A request that is waited for is not lost. -/
theorem Awaited.waits_step (h : Awaited S s) (howned : Owned S s) (hact : Acts S s l s' effs)
    (hr : s'.attempt r = .waiting) (hopen : (s'.ch r).closed = false) :
    s'.held r + s'.left r = 1 := by
  have hended : r ∉ endedBy effs := fun he => by simp [hact.closed_of_mem he] at hopen
  have hbefore : (s.ch r).closed = false := by rw [← (hact.ch_of_notMem hended).1, hopen]
  have hstale : ¬s.Stale r := fun hst => by simp [howned.stale r hst] at hbefore
  have hcalled := h.called_step hact (.inr hr)
  have hprobing : ¬s.Probing r := by
    rintro ⟨c, hc, hw⟩
    simp [h.keepalive c hc r hw] at hcalled
  have hall := (hact.passes howned.orderly r).keeps_all hended hstale hprobing
  cases hact.turn r with
  | same hin heq =>
    have := h.waits r (heq ▸ hr) hbefore
    omega
  | send hin ha ha' =>
    have := (howned.early r (by rw [ha]; rfl)).2
    omega
  | start hin hl hk ha ha' => simp [ha'] at hr
  | receive hin hl ha hready ha' => simp [ha'] at hr
  | giveUp hin hl ha ha' => simp [ha'] at hr
  | make hin hk ha ha' => simp [ha'] at hr

theorem Awaited.step (h : Awaited S s) (howned : Owned S s) (hact : Acts S s l s' effs) :
    Awaited S s' where
  keepalive := h.keepalive_step hact
  called _ := h.called_step hact
  waits _ := h.waits_step howned hact

theorem Awaited.start (S : Setup) : Awaited S (Pool.start S) where
  keepalive c hc := by simp [Pool.start] at hc
  called r hr := by simp [Pool.start] at hr
  waits r hr := by simp [Pool.start] at hr

/-! ## Connections that are over -/

/-- `Run` is behind the request it has deferred. -/
def Writer.isClosing : Writer → Bool
  | .exitCancel => true
  | .closing _ => true
  | .dead => true
  | _ => false

/-- **`Run` leaves nothing behind.** -/
structure Conn.Cleared (c : Conn) : Prop where
  deferred : c.writer.isClosing = true → c.deferredNormal = none
  pending : c.writer = .dead → c.pending = []

theorem Writes.cleared {a : WriterAct} (h : Writes S env c a c' effs) (hc : c.Cleared) :
    c'.Cleared := by
  obtain ⟨hd, hp⟩ := hc
  cases h
  case abort f' _ _ hf => cases f' <;> constructor <;> simp [Writer.after, Writer.isClosing]
  case closing f f' d hw hf =>
    have hnone : d.deferredNormal = none := by rw [hf.frame.2.2.2.2, hd (by rw [hw]; rfl)]
    refine ⟨fun _ => hnone, fun hdead => ?_⟩
    cases hf <;> simp_all [Writer.after]
  case takeGo b _ _ => cases b <;> constructor <;> simp [Writer.isClosing]
  case postReady b _ _ => cases b <;> constructor <;> simp [Writer.isClosing]
  case keepaliveAnswer hto => rcases hto with rfl | rfl <;> constructor <;> simp [Writer.isClosing]
  all_goals
    constructor <;> simp_all [Writer.isClosing, Conn.freeInflight, Conn.freeBody_eq,
      Conn.freeBackground_eq]

theorem Conn.step_cleared {a : ConnAct} (h : c.step S env a = some (c', effs)) (hc : c.Cleared) :
    c'.Cleared := by
  cases a with
  | writer a => exact (writerStep_writes h).cleared hc
  | reader a =>
    have hreads := readerStep_reads h
    obtain ⟨-, hw, -, hd⟩ := hreads.frame
    refine ⟨fun hx => by rw [hd]; exact hc.deferred (hw ▸ hx), fun hx => ?_⟩
    have hp := hc.pending (hw ▸ hx)
    cases hreads
    case retire hf => cases hf <;> simp_all [Conn.freeInflight, Conn.freeBackground_eq]
    all_goals simp_all [Conn.freeInflight, Conn.freeBody_eq, Conn.freeBackground_eq]

theorem cleared_run {ls : List Label} (h : exec (Pool.step S) (Pool.start S) ls = some s) :
    ∀ c ∈ s.conns, c.Cleared :=
  conns_invariant (fun _ _ _ => ⟨nofun, nofun⟩) Conn.step_cleared h

/-! ## Slots that are over -/

def Slot.isReturned : Slot → Bool
  | .returned _ => true
  | _ => false

/-- All slots of the provider have returned. -/
def State.AllReturned (s : State) : Prop := ∀ p ∈ s.slots, p.isReturned = true

/-- **No request is stranded**: where all slots have returned, what is in
a channel or with a slot was completed. -/
def NoneStranded (s : State) : Prop :=
  s.AllReturned → ∀ r, (r ∈ s.prioCh ∨ r ∈ s.reqCh ∨ ∃ p ∈ s.slots, r ∈ p.held) →
    (s.ch r).closed = true

/-- A slot returns with nothing in hand, and the last one only from empty
channels; and a call sends only where there is a slot to receive. -/
def Looks (s : State) : Label → Bool
  | .slot i .slotDone =>
    (s.slots[i]?.all fun p => p.held.isEmpty) &&
      ((s.slots.eraseIdx i).any (fun p => !p.isReturned) || s.prioCh.isEmpty && s.reqCh.isEmpty)
  | .send _ => s.slots.any fun p => !p.isReturned
  | _ => true

/-- The slots have left nothing behind. -/
structure Looked (s : State) : Prop where
  held : ∀ p ∈ s.slots, p.isReturned = true → p.held = []
  channels : s.AllReturned → s.prioCh = [] ∧ s.reqCh = []

theorem mem_reqCh_of_foldl_apply {s : State} (hr : r ∈ (effs.foldl State.apply s).reqCh) :
    r ∈ s.reqCh := by
  induction effs generalizing s with
  | nil => exact hr
  | cons x xs ih =>
    have hx : r ∈ (s.apply x).reqCh := ih hr
    cases x <;> first | exact hx | exact List.mem_of_mem_tail hx

/-- Nothing comes into an empty channel but by a `send`. -/
theorem foldl_apply_channels {s : State} (h : s.prioCh = [] ∧ s.reqCh = []) :
    (effs.foldl State.apply s).prioCh = [] ∧ (effs.foldl State.apply s).reqCh = [] := by
  constructor
  · refine List.eq_nil_iff_forall_not_mem.mpr fun r hr => ?_
    have := mem_prioCh_of_foldl_apply hr
    simp [h.1] at this
  · refine List.eq_nil_iff_forall_not_mem.mpr fun r hr => ?_
    have := mem_reqCh_of_foldl_apply hr
    simp [h.2] at this

/-- A slot returns on the end of its context. -/
theorem SlotSteps.returned {i k : ℕ} {dead : ℕ → Bool} {p q : Slot} {a : SlotAct}
    {made : Option Conn} (h : SlotSteps S env i k dead p a q effs made)
    (hq : q.isReturned = true) : a = .slotDone ∧ q.held = p.held ∧ effs = [] := by
  cases h
  case idleDone => exact ⟨rfl, rfl, rfl⟩
  case backoffDone => exact ⟨rfl, rfl, rfl⟩
  case pickedDone second _ _ => cases second <;> simp [Slot.next, Slot.isReturned] at hq
  case gateRefuse second _ => cases second <;> simp [Slot.next, Slot.isReturned] at hq
  case backoffGo second => cases second <;> simp [Slot.next, Slot.isReturned] at hq
  all_goals simp [Slot.isReturned] at hq

theorem Looked.slot {i : ℕ} {a : SlotAct} {p q : Slot} {made : Option Conn} (h : Looked s)
    (hlooks : Looks s (.slot i a) = true) (hp : s.slots[i]? = some p)
    (hs : SlotSteps S (s.env S) i s.conns.length s.dead p a q effs made)
    (hslots : s'.slots = s.slots.set i q)
    (hs' : s' = effs.foldl State.apply
      { s with slots := s.slots.set i q, conns := s.conns ++ made.toList }) : Looked s' := by
  have hi := (List.getElem?_eq_some_iff.mp hp).1
  refine ⟨fun x hx hret => ?_, fun hall => ?_⟩
  · rw [hslots] at hx
    rcases List.mem_or_eq_of_mem_set hx with hx | rfl
    · exact h.held x hx hret
    · obtain ⟨rfl, hheld, -⟩ := hs.returned hret
      simp only [Looks, hp, Option.all_some, Bool.and_eq_true, List.isEmpty_iff] at hlooks
      rw [hheld, hlooks.1]
  · have hq : q.isReturned = true := hall q (by rw [hslots]; exact List.mem_set hi q)
    obtain ⟨rfl, -, rfl⟩ := hs.returned hq
    simp only [Looks, Bool.and_eq_true, Bool.or_eq_true, List.any_eq_true, List.isEmpty_iff]
      at hlooks
    -- the others have returned, so it has looked at the channels
    rcases hlooks.2 with ⟨x, hx, hlive⟩ | hempty
    · have hmem : x ∈ s'.slots := by
        rw [hslots]
        obtain ⟨j, hj, hne⟩ := List.mem_eraseIdx_iff_getElem?.mp hx
        exact List.mem_of_getElem? (i := j) (by rw [List.getElem?_set_ne (Ne.symm hj)]; exact hne)
      simp [hall x hmem] at hlive
    · rw [hs']
      exact hempty

theorem Looked.step (h : Looked s) (hlooks : Looks s l = true) (hact : Acts S s l s' effs) :
    Looked s' := by
  have hsend (hslots : s'.slots = s.slots) (hany : s.slots.any (fun p => !p.isReturned) = true) :
      Looked s' := by
    refine ⟨by rw [hslots]; exact h.held, fun hall => ?_⟩
    obtain ⟨p, hp, hlive⟩ := List.any_eq_true.mp hany
    have := hall p (by rwa [hslots])
    simp [this] at hlive
  have hsame (hslots : s'.slots = s.slots)
      (hch : s.prioCh = [] ∧ s.reqCh = [] → s'.prioCh = [] ∧ s'.reqCh = []) : Looked s' :=
    ⟨by rw [hslots]; exact h.held,
      fun hall => hch (h.channels fun p hp => hall p (by rwa [hslots]))⟩
  cases hact with
  | sendPrio => exact hsend rfl hlooks
  | sendReq => exact hsend rfl hlooks
  | slot hp hs => exact h.slot hlooks hp hs (foldl_apply_slots _ _) rfl
  | sendHot => exact hsame (foldl_apply_slots _ _) fun hch => foldl_apply_channels hch
  | conn => exact hsame (foldl_apply_slots _ _) fun hch => foldl_apply_channels hch
  | _ => exact hsame rfl id

theorem Looked.start (S : Setup) : Looked (Pool.start S) where
  held p hp hret := by
    rw [List.eq_of_mem_replicate hp] at hret
    cases hret
  channels _ := ⟨rfl, rfl⟩

/-- Slots that have looked leave nothing. -/
theorem Looked.noneStranded (h : Looked s) : NoneStranded s := by
  rintro hall r (hr | hr | ⟨p, hp, hr⟩)
  · simp [(h.channels hall).1] at hr
  · simp [(h.channels hall).2] at hr
  · simp [h.held p hp (hall p hp)] at hr

/-- What is still open is with a reader. -/
theorem Looked.with_reader (h : Looked s) (hall : s.AllReturned) (hruns : Runs s)
    (hcleared : ∀ c ∈ s.conns, c.Cleared) (hone : s.held r + s.left r = 1) :
    ∃ c ∈ s.conns, r ∈ c.reader.held := by
  by_contra hnone
  have hconn : ∀ c ∈ s.conns, c.held.count r = 0 ∧ c.left.count r = 0 := by
    intro c hc
    obtain ⟨k, hk⟩ := List.mem_iff_getElem?.mp hc
    have hdead : c.writer = .dead := by
      by_contra hlive
      cases hall _ (List.mem_of_getElem? (hruns k c hk hlive))
    have hd := (hcleared c hc).deferred (by rw [hdead]; rfl)
    have hp := (hcleared c hc).pending hdead
    have hr : r ∉ c.reader.held := fun hr => hnone ⟨c, hc, hr⟩
    simp [Conn.held, Conn.left, Writer.held, Writer.works, hdead, hd, hp,
      List.count_eq_zero_of_not_mem hr]
  have hslots : shares (fun p : Slot => p.held.count r) s.slots = 0 :=
    shares_eq_zero.2 fun p hp => by simp [h.held p hp (hall p hp)]
  have hheld : shares (fun c : Conn => c.held.count r) s.conns = 0 :=
    shares_eq_zero.2 fun c hc => (hconn c hc).1
  have hleft : shares (fun c : Conn => c.left.count r) s.conns = 0 :=
    shares_eq_zero.2 fun c hc => (hconn c hc).2
  simp only [State.held, State.left, (h.channels hall).1, (h.channels hall).2, hslots, hheld,
    hleft, List.count_nil] at hone
  omega

/-- **Where the slots look before they return, no request is stranded.**
Once all have returned, a call that still waits has its answer, or its
request is with a reader that is still running. -/
theorem none_stranded_of_looks (S : Setup) (ls : List Label) (s : State)
    (hlooks : Along (Pool.step S) (fun s l => Looks s l = true) (Pool.start S) ls)
    (h : exec (Pool.step S) (Pool.start S) ls = some s) :
    NoneStranded s ∧ (s.AllReturned → ∀ r, s.attempt r = .waiting →
      (s.ch r).closed = true ∨ ∃ c ∈ s.conns, r ∈ c.reader.held) := by
  have hinv : Owned S s ∧ Awaited S s ∧ Runs s ∧ Looked s := by
    refine exec_invariant (I := fun s => Owned S s ∧ Awaited S s ∧ Runs s ∧ Looked s) ?_ ls
      ⟨Owned.start S, Awaited.start S, Runs.start S, Looked.start S⟩ hlooks h
    rintro s l s' ⟨howned, hawaited, hruns, hlooked⟩ hl hstep
    obtain ⟨effs, hact⟩ := step_eq_some.1 hstep
    have hact := act_acts hact
    exact ⟨howned.step hact, hawaited.step howned hact, hruns.step hact, hlooked.step hl hact⟩
  obtain ⟨-, hawaited, hruns, hlooked⟩ := hinv
  refine ⟨hlooked.noneStranded, fun hall r hr => ?_⟩
  cases hopen : (s.ch r).closed with
  | true => exact .inl rfl
  | false =>
    exact .inr (hlooked.with_reader hall hruns (cleared_run h) (hawaited.waits r hr hopen))

/-- A provider with one connection, and requests that are POSTs. -/
def postPool : Setup where
  connections := 1
  limits := Provider.limits { connections := 1 }
  providerName := "p"
  keepaliveCode := 111
  info r := { payload := ascii "POST" ++ crlf, postMode := true, call := r,
              keepalive_writer := Request.any_writer }

/-- The dial fails, and the slot returns from its back-off once the
provider is removed. -/
def failedDial : List Label :=
  [.start 0, .send 0, .slot 0 .req, .slot 0 .go, .slot 0 .go, .slot 0 .go,
    .slot 0 (.err (.sentinel .connectionDied)), .removeProvider, .slot 0 .slotDone]

theorem none_stranded_of_looks_failedDial :
    ∃ s, exec (Pool.step postPool) (Pool.start postPool) failedDial = some s ∧
      s.slots = [.returned none] ∧ (s.ch 0).closed = true ∧ NoneStranded s := by
  have hrun : (exec (Pool.step postPool) (Pool.start postPool) failedDial).map
      (fun s => (s.slots, (s.ch 0).closed)) = some ([.returned none], true) := by
    decide
  obtain ⟨s, hs, hp⟩ := Option.map_eq_some_iff.mp hrun
  obtain ⟨hslots, hclosed⟩ := Prod.mk.inj hp
  exact ⟨s, hs, hslots, hclosed,
    (none_stranded_of_looks postPool failedDial s (by decide) hs).1⟩

/-- The provider is removed while its slot is idle and a POST is in the
channel. -/
def removedEarly : List Label := [.start 0, .send 0, .removeProvider, .slot 0 .slotDone]

/-- **The only slot returns, and a POST is left in the channel.** The call
waits for its response and gives up on no context. -/
theorem removed_provider_strands_post :
    ∃ s, exec (Pool.step postPool) (Pool.start postPool) removedEarly = some s ∧
      s.AllReturned ∧ s.reqCh = [0] ∧ s.attempt 0 = .waiting ∧ ¬NoneStranded s ∧
      (s.act postPool (.receive 0)).isNone ∧ ∀ why, (s.act postPool (.giveUp 0 why)).isNone := by
  have hrun : (exec (Pool.step postPool) (Pool.start postPool) removedEarly).map
      (fun s => (s.slots, s.reqCh, s.attempt 0, s.ch 0)) =
        some ([.returned none], [0], .waiting, {}) := by
    decide
  obtain ⟨s, hs, hp⟩ := Option.map_eq_some_iff.mp hrun
  simp only [Prod.mk.injEq] at hp
  obtain ⟨hslots, hreq, hattempt, hch⟩ := hp
  have hall : s.AllReturned := by simp [State.AllReturned, hslots, Slot.isReturned]
  refine ⟨s, hs, hall, hreq, hattempt, fun h => ?_, ?_, fun why => ?_⟩
  · have := h hall 0 (.inr (.inl (by simp [hreq])))
    simp [hch] at this
  · simp [State.act, hattempt, hch]
  · simp [State.act, hattempt, postPool]

end Pool

end NntpPool
