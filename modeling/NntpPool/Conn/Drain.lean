import NntpPool.Conn.Model.Pipeline
import NntpPool.Reader.Consumption
/-!
# Conn — the drain of an abandoned body

A call of the closure finds the request of a body cancelled. From then on
the closure answers with a budget: what is left of
`abandonedDrainBytes`, which bounds the next window, and nothing once it
is spent or `abandonedDrainTimeout` is over. `readingStep_goes` says what
a step within a response comes to by what the closure answers, and
`Abandoned` is what such a step keeps; `drain_bounded` follows the reader
from the call that noticed to the end of the response.
-/

namespace NntpPool

namespace Conn

open Reader

variable {N : Rapidyenc} {cfg : Config} {req : Request} {p : Progress} {m : Moment}
variable {s s' : Pipeline} {x y : Reading} {l : Label} {lim : Limits} {started : Time} {c₀ : ℤ}

theorem drainBytes_pos (configured : ℤ) : 0 < drainBytes configured := by
  unfold drainBytes
  split_ifs <;> omega

theorem drainTimeout_pos (configured : Time) : 0 < drainTimeout configured := by
  unfold drainTimeout
  split_ifs with h
  · decide
  · exact Int.not_le.mp h

theorem Config.Started.pos (h : cfg.Started) :
    0 < cfg.abandonedDrainBytes ∧ 0 < cfg.abandonedDrainTimeout := by
  obtain ⟨bytes, timeout, hb, ht⟩ := h
  exact ⟨hb ▸ drainBytes_pos bytes, ht ▸ drainTimeout_pos timeout⟩

/-! ## The closure -/

/-- The drain has started, at `started` and behind `c₀` bytes. -/
structure Draining (started : Time) (c₀ : ℤ) (p : Progress) : Prop where
  deliver : p.deliver = false
  drainStarted : p.drainStarted = some started
  drainStartConsumed : p.drainStartConsumed = c₀

/-- **The call that finds the request cancelled** starts the drain. -/
theorem control_notices (cfg : Config) (hbody : isBodyCommand req.payload = true)
    (hnew : p.drainStarted = none) (hc : p.deliver = false ∨ m.ctxDone = true)
    (wireBytes consumedBytes : ℤ) :
    Draining m.now consumedBytes (control cfg req p m wireBytes consumedBytes).1 ∧
      (control cfg req p m wireBytes consumedBytes).2 =
        drainLimits cfg (control cfg req p m wireBytes consumedBytes).1 m consumedBytes := by
  cases hd : p.deliver with
  | false => simp [control, noticeCancel, startDrain, hd, hbody, hnew, Draining.mk]
  | true =>
    have hdone : m.ctxDone = true := by simpa [hd] using hc
    simp [control, noticeCancel, startDrain, hd, hdone, hbody, Draining.mk]

/-- A later call leaves it as it is. -/
theorem control_draining (cfg : Config) (hbody : isBodyCommand req.payload = true)
    (h : Draining started c₀ p) (wireBytes consumedBytes : ℤ) :
    control cfg req p m wireBytes consumedBytes = (p, drainLimits cfg p m consumedBytes) := by
  simp [control, noticeCancel, startDrain, h.deliver, h.drainStarted, hbody]

/-- **What the closure lets pass**: the time is not over, and the next
window is bounded by what is left. -/
theorem drainLimits_ok (hcfg : cfg.Started) (h : Draining started c₀ p) {consumedBytes : ℤ}
    (hok : drainLimits cfg p m consumedBytes = .ok lim) :
    m.later < started + cfg.abandonedDrainTimeout ∧
      consumedBytes - c₀ < cfg.abandonedDrainBytes ∧
      lim.maxFeed = cfg.abandonedDrainBytes - (consumedBytes - c₀) := by
  obtain ⟨hbytes, htime⟩ := hcfg.pos
  simp only [drainLimits, h.drainStarted, h.drainStartConsumed, Option.getD_some, hbytes, htime,
    true_and, if_true] at hok
  split_ifs at hok with hlate hspent
  obtain rfl := Except.ok.inj hok
  refine ⟨Int.not_le.mp hlate, by omega, ?_⟩
  simp only
  omega

/-- The window is no longer than that. -/
theorem feedWindow_length_le (hpos : 0 < lim.maxFeed) (window : Bytes) :
    ((feedWindow lim window).length : ℤ) ≤ lim.maxFeed := by
  unfold feedWindow
  split_ifs with h
  · rw [List.length_take]
    omega
  · omega

/-! ## Steps within a response -/

/-- When the closure is called in a step. -/
def Label.clock : Label → Option (Time × Time)
  | .read now later _ _ => some (now, later)
  | .feed now later => some (now, later)
  | .recheck now later => some (now, later)
  | _ => none

/-- **What a step within a response comes to**, by what the closure
answers. The closure's variables are in the reading already. -/
inductive Goes (N : Rapidyenc) (window : Bytes) (x : Reading) :
    Label → Except GoError Limits → Phase → Prop
  | refused (l : Label) (e : GoError) : Goes N window x l (.error e) (.stopped x (some e))
  | unread (l : Label) (lim : Limits) (wireBytes : ℤ) (e : GoError) :
      Goes N window x l (.ok lim) (.stopped { x with wireBytes := wireBytes } (some e))
  | read (l : Label) (lim : Limits) (wireBytes : ℤ) (point : Point)
      (h : ∀ done, point ≠ .fed done) :
      Goes N window x l (.ok lim) (.reading { x with wireBytes := wireBytes, point := point })
  | panics (l : Label) (lim : Limits) : Goes N window x l (.ok lim) .dead
  | failed (l : Label) (lim : Limits) (f : Fed) (e : GoError)
      (hf : Reader.feed N.decodeIncremental x.outRef x.r x.out (feedWindow lim window) = some f) :
      Goes N window x l (.ok lim) (.stopped { x with
        r := f.r, out := f.out, consumedBytes := x.consumedBytes + max f.consumed 0 } (some e))
  | fed (l : Label) (lim : Limits) (f : Fed)
      (hf : Reader.feed N.decodeIncremental x.outRef x.r x.out (feedWindow lim window) = some f)
      (he : f.err = none) :
      Goes N window x l (.ok lim) (.reading { x with
        r := f.r, out := f.out, consumedBytes := x.consumedBytes + max f.consumed 0
        point := .fed f.done })
  | finished (now later : Time) (lim : Limits) (h : x.point = .fed true) :
      Goes N window x (.recheck now later) (.ok lim) (.stopped x none)
  | more (l : Label) (lim : Limits) :
      Goes N window x l (.ok lim) (.reading { x with point := .more })

/-- The closure's answer in a step. -/
def Reading.asked (x : Reading) (cfg : Config) (s : Pipeline) (now later : Time) :
    Progress × Except GoError Limits :=
  control cfg x.cur.req x.p (s.moment x.cur.index now later) x.wireBytes x.consumedBytes

theorem ask_goes {now later : Time} {k : Reading → Limits → Option Pipeline}
    (hk : ∀ lim, k { x with p := (x.asked cfg s now later).1 } lim = some s' →
      Goes N s.window { x with p := (x.asked cfg s now later).1 } l (.ok lim) s'.phase)
    (h : x.ask cfg s now later k = some s') :
    Goes N s.window { x with p := (x.asked cfg s now later).1 } l (x.asked cfg s now later).2
      s'.phase := by
  unfold Reading.ask at h
  cases hans : (x.asked cfg s now later).2 with
  | error e =>
    rw [Reading.asked] at hans
    simp only [hans] at h
    obtain rfl := Option.some.inj h
    exact .refused l e
  | ok lim =>
    refine hk lim ?_
    rw [Reading.asked] at hans
    simp only [hans] at h
    exact h

theorem readMore_goes (l : Label) (lim : Limits) {n : ℕ} {err : Option GoError}
    (h : readMore s x n err = some s') : Goes N s.window x l (.ok lim) s'.phase := by
  unfold readMore at h
  split_ifs at h with hfull hn
  · obtain rfl := Option.some.inj h
    exact .unread l lim x.wireBytes _
  · cases err with
    | some e =>
      obtain rfl := Option.some.inj h
      exact .unread l lim _ e
    | none =>
      obtain rfl := Option.some.inj h
      refine .read l lim _ _ fun done => ?_
      split_ifs <;> nofun

theorem feedOnce_goes (l : Label) (lim : Limits) :
    Goes N s.window x l (.ok lim) (feedOnce N s x lim).phase := by
  cases hf : Reader.feed N.decodeIncremental x.outRef x.r x.out (feedWindow lim s.window) with
  | none =>
    simp only [feedOnce, hf]
    exact .panics l lim
  | some f =>
    cases he : f.err with
    | none =>
      simp only [feedOnce, hf, he]
      exact .fed l lim f hf he
    | some e =>
      simp only [feedOnce, hf, he]
      exact .failed l lim f e hf

/-- **The step.** -/
theorem readingStep_goes (h : x.step N cfg s l = some s') :
    ∃ now later, l.clock = some (now, later) ∧
      Goes N s.window { x with p := (x.asked cfg s now later).1 } l (x.asked cfg s now later).2
        s'.phase := by
  cases l with
  | read now later n err =>
    simp only [Reading.step, Option.ite_none_right_eq_some] at h
    exact ⟨now, later, rfl, ask_goes (fun lim hk => readMore_goes _ lim hk) h.2⟩
  | feed now later =>
    simp only [Reading.step, Option.ite_none_right_eq_some] at h
    refine ⟨now, later, rfl, ask_goes (fun lim hk => ?_) h.2⟩
    obtain rfl := Option.some.inj hk
    exact feedOnce_goes _ lim
  | recheck now later =>
    obtain ⟨done, hpt⟩ : ∃ done, x.point = .fed done := by
      cases hpt : x.point with
      | fed done => exact ⟨done, rfl⟩
      | _ => simp [Reading.step, hpt] at h
    simp only [Reading.step, hpt] at h
    refine ⟨now, later, rfl, ask_goes (fun lim hk => ?_) h⟩
    obtain rfl := Option.some.inj hk
    cases done with
    | true => exact .finished now later lim hpt
    | false => exact .more _ lim
  | _ => cases h

/-- Only the reader moves within a response. -/
theorem step_phase (h : s.step N cfg l = some s') :
    s'.phase = s.phase ∨ s.readerStep N cfg l = some s' := by
  cases l with
  | write req =>
    simp only [Pipeline.step, Option.ite_none_left_eq_some, Option.some.injEq] at h
    obtain ⟨-, rfl⟩ := h
    exact .inl rfl
  | push =>
    obtain ⟨e, -, rfl⟩ := Option.map_eq_some_iff.mp h
    exact .inl rfl
  | answer R =>
    simp only [Pipeline.step, Option.ite_none_right_eq_some, Option.some.injEq] at h
    obtain ⟨-, rfl⟩ := h
    exact .inl rfl
  | cancel i e =>
    obtain rfl := Option.some.inj h
    exact .inl rfl
  | failOutstanding =>
    obtain rfl := Option.some.inj h
    exact .inl rfl
  | _ => exact .inr h

/-- A `Feed` that returns consumes within its window. -/
theorem consumed_of_feed {w : Writer} {r : NNTPResponse} (hr : Settled r.toDecoder)
    {out buf : Bytes} {f : Fed} (hf : Reader.feed N.decodeIncremental w r out buf = some f) :
    0 ≤ f.consumed ∧ f.consumed ≤ buf.length := by
  have hsound :
      (Reader.Call.mk r.toDecoder buf (Reader.feed N.decodeIncremental w r out buf)).Sound w := by
    refine (feed_sound_iff N w hr out buf).mpr ?_
    rintro ⟨hbody, hyenc, hsplit⟩
    simp [Reader.feed, decode_of_splitTerminator N w hr out hbody hyenc hsplit] at hf
  obtain ⟨f', hf', h0, hle, -⟩ := hsound
  obtain rfl := Option.some.inj (hf.symm.trans hf')
  exact ⟨h0, hle⟩

theorem eof_of_feed {w : Writer} {r : NNTPResponse} {out buf : Bytes} {f : Fed}
    (hf : Reader.feed N.decodeIncremental w r out buf = some f) (hdone : f.done = true) :
    f.r.eof = true := by
  obtain ⟨d, -, rfl⟩ := Option.map_eq_some_iff.mp hf
  exact (Bool.and_eq_true _ _ ▸ hdone).2

/-- The decoder of a response that is being read. -/
structure Sound (x : Reading) : Prop where
  settled : Settled x.r.toDecoder
  ended : x.point = .fed true → x.r.eof = true

/-- Every response is read by such a decoder. -/
def Phase.Sound : Phase → Prop
  | .reading x => Conn.Sound x
  | _ => True

theorem sound_beginReading (e : Entry) (ctxDone : Bool) (now : Time) :
    Sound (beginReading e ctxDone now) where
  settled := Clear.settled ⟨nofun, nofun, nofun⟩
  ended := nofun

theorem Goes.sound {window : Bytes} {ans : Except GoError Limits} {phase : Phase}
    (h : Sound x) (hgo : Goes N window x l ans phase) : phase.Sound := by
  cases hgo with
  | read l lim wireBytes point hpoint => exact ⟨h.settled, fun hp => absurd hp (hpoint true)⟩
  | fed l lim f hf he =>
    exact ⟨settled_of_feed N _ h.settled hf he, fun hp => eof_of_feed hf (Point.fed.inj hp)⟩
  | more l lim => exact ⟨h.settled, nofun⟩
  | _ => trivial

theorem Sound.step (h : s.phase.Sound) (hs : s.step N cfg l = some s') : s'.phase.Sound := by
  rcases step_phase hs with heq | hr
  · exact heq ▸ h
  · unfold Pipeline.readerStep at hr
    cases hphase : s.phase with
    | idle =>
      rw [hphase] at hr
      cases l with
      | take now =>
        cases hp : s.pending with
        | nil => simp [hp] at hr
        | cons e rest =>
          simp only [hp, Option.some.injEq] at hr
          subst hr
          exact sound_beginReading _ _ _
      | stop =>
        obtain rfl := Option.some.inj hr
        trivial
      | _ => cases hr
    | reading x =>
      rw [hphase] at hr h
      obtain ⟨now, later, -, hgo⟩ := readingStep_goes hr
      refine Goes.sound ?_ hgo
      exact ⟨h.settled, h.ended⟩
    | stopped x err =>
      rw [hphase] at hr
      cases l with
      | finish =>
        obtain rfl := Option.some.inj hr
        simp only [finishReading]
        split_ifs <;> trivial
      | _ => cases hr
    | dead =>
      rw [hphase] at hr
      cases hr

/-! ## The drain -/

/-- **A response that is drained**, within its budget. -/
structure Abandoned (cfg : Config) (e : Entry) (started : Time) (c₀ : ℤ) (x : Reading) : Prop where
  cur : x.cur = e
  draining : Draining started c₀ x.p
  spent : x.consumedBytes - c₀ ≤ cfg.abandonedDrainBytes

/-- The reader on such a response, until it has left
`feedUntilDoneControlled` behind. -/
def Phase.Abandoned (cfg : Config) (e : Entry) (started : Time) (c₀ : ℤ) : Phase → Prop
  | .reading x => Conn.Abandoned cfg e started c₀ x ∧ Conn.Sound x
  | .stopped x err => Conn.Abandoned cfg e started c₀ x ∧
      (err = none → x.consumedBytes - c₀ < cfg.abandonedDrainBytes ∧ x.r.eof = true)
  | .idle => False
  | .dead => True

/-- **A step behind a call of the closure keeps the budget**, and returns
without an error only in time. -/
theorem Abandoned.goes (hcfg : cfg.Started) {e : Entry} {window : Bytes} {phase : Phase}
    (h : Abandoned cfg e started c₀ x) (hx : Sound x)
    (hgo : Goes N window x l (drainLimits cfg x.p m x.consumedBytes) phase) :
    phase.Abandoned cfg e started c₀ ∧
      ∀ y, phase = .stopped y none → m.later < started + cfg.abandonedDrainTimeout := by
  generalize hans : drainLimits cfg x.p m x.consumedBytes = ans at hgo
  have hok : ∀ lim, ans = .ok lim → _ := fun lim he =>
    drainLimits_ok hcfg h.draining (hans.trans he)
  -- what `Feed` consumes is within a window within the budget
  have hfeed : ∀ lim f, ans = .ok lim →
      Reader.feed N.decodeIncremental x.outRef x.r x.out (feedWindow lim window) = some f →
      x.consumedBytes + max f.consumed 0 - c₀ ≤ cfg.abandonedDrainBytes := by
    intro lim f he hf
    obtain ⟨-, hlt, hmax⟩ := hok lim he
    obtain ⟨h0, hle⟩ := consumed_of_feed hx.settled hf
    have hwindow := feedWindow_length_le (by omega : 0 < lim.maxFeed) window
    omega
  cases hgo with
  | refused l e => exact ⟨⟨h, by simp⟩, by simp⟩
  | unread l lim wireBytes e => exact ⟨⟨⟨h.cur, h.draining, h.spent⟩, by simp⟩, by simp⟩
  | read l lim wireBytes point hpoint =>
    exact ⟨⟨⟨h.cur, h.draining, h.spent⟩, hx.settled, fun hp => absurd hp (hpoint true)⟩, by simp⟩
  | panics l lim => exact ⟨trivial, by simp⟩
  | failed l lim f e hf =>
    exact ⟨⟨⟨h.cur, h.draining, hfeed lim f rfl hf⟩, by simp⟩, by simp⟩
  | fed l lim f hf he =>
    exact ⟨⟨⟨h.cur, h.draining, hfeed lim f rfl hf⟩, settled_of_feed N _ hx.settled hf he,
      fun hp => eof_of_feed hf (Point.fed.inj hp)⟩, by simp⟩
  | finished now later lim hpt =>
    obtain ⟨hin, hlt, -⟩ := hok lim rfl
    exact ⟨⟨h, fun _ => ⟨hlt, hx.ended hpt⟩⟩, fun _ _ => hin⟩
  | more l lim =>
    exact ⟨⟨⟨h.cur, h.draining, h.spent⟩, hx.settled, by simp⟩, by simp⟩

/-! ## From the call that notices on -/

/-- What a step writes to the caller's writer, or to `Response.Body`. -/
def toCaller (N : Rapidyenc) (cfg : Config) (s : Pipeline) (l : Label) : Bytes :=
  match s.phase, l with
  | .reading x, .feed now later =>
    let c := x.asked cfg s now later
    let x := { x with p := c.1 }
    match x.p.deliver, c.2 with
    | true, .ok lim =>
      match Reader.feed N.decodeIncremental x.outRef x.r x.out (feedWindow lim s.window) with
      | some f => f.out.drop x.out.length
      | none => []
    | _, _ => []
  | _, _ => []

/-- When `feedUntilDoneControlled` returns `nil` in a step: the time its
last call of the closure read. -/
def returnsNil (N : Rapidyenc) (cfg : Config) (s : Pipeline) (l : Label) : List Time :=
  match s.phase, l.clock, s.step N cfg l with
  | .reading _, some (_, later), some s' =>
    match s'.phase with
    | .stopped _ none => [later]
    | _ => []
  | _, _, _ => []

/-- What a step of a drain comes to. -/
structure Drains (N : Rapidyenc) (cfg : Config) (e : Entry) (started : Time) (c₀ : ℤ)
    (s : Pipeline) (l : Label) (s' : Pipeline) : Prop where
  phase : s'.phase.Abandoned cfg e started c₀
  silent : toCaller N cfg s l = []
  inTime : ∀ t ∈ returnsNil N cfg s l, t < started + cfg.abandonedDrainTimeout

theorem step_of_clock {t : Time × Time} (h : l.clock = some t) :
    s.step N cfg l = s.readerStep N cfg l := by
  cases l <;> first | rfl | cases h

/-- **A step of another party** moves nothing. -/
theorem drains_of_other {e : Entry} (h : s.phase.Abandoned cfg e started c₀)
    (hquiet : s.readerStep N cfg l = none) (hs : s.step N cfg l = some s') :
    Drains N cfg e started c₀ s l s' := by
  have hclock : l.clock = none := by
    cases hc : l.clock with
    | none => rfl
    | some t => rw [step_of_clock hc, hquiet] at hs; cases hs
  have hphase : s'.phase = s.phase := by
    rcases step_phase hs with heq | hr
    · exact heq
    · rw [hquiet] at hr
      cases hr
  refine ⟨hphase ▸ h, ?_, ?_⟩
  · unfold toCaller
    split
    · cases hclock
    · rfl
  · simp [returnsNil, hclock]

/-- **A step on a cancelled request.** -/
theorem drains_of_asked (hcfg : cfg.Started) (hphase : s.phase = .reading x) (hx : Sound x)
    {now later : Time} (hclock : l.clock = some (now, later))
    (hdraining : Draining started c₀ (x.asked cfg s now later).1)
    (hans : (x.asked cfg s now later).2 = drainLimits cfg (x.asked cfg s now later).1
      (s.moment x.cur.index now later) x.consumedBytes)
    (hspent : x.consumedBytes - c₀ ≤ cfg.abandonedDrainBytes)
    (hs : s.step N cfg l = some s') : Drains N cfg x.cur started c₀ s l s' := by
  have hr : x.step N cfg s l = some s' := by
    rw [step_of_clock hclock] at hs
    simpa only [Pipeline.readerStep, hphase] using hs
  obtain ⟨now', later', hclock', hgo⟩ := readingStep_goes hr
  obtain ⟨rfl, rfl⟩ := Prod.mk.inj (Option.some.inj (hclock.symm.trans hclock'))
  rw [hans] at hgo
  have hb : Abandoned cfg x.cur started c₀ { x with p := (x.asked cfg s now later).1 } :=
    ⟨rfl, hdraining, hspent⟩
  obtain ⟨hphase', hin⟩ := hb.goes hcfg ⟨hx.settled, hx.ended⟩ hgo
  refine ⟨hphase', ?_, ?_⟩
  · unfold toCaller
    split
    · next y now' later' hy =>
      obtain rfl := Phase.reading.inj (hphase.symm.trans hy)
      cases hclock
      simp [hdraining.deliver]
    · rfl
  · intro t ht
    simp only [returnsNil, hphase, hclock, hs] at ht
    split at ht
    · next y hy =>
      obtain rfl := List.mem_singleton.mp ht
      exact hin y hy
    · cases ht

/-- **One step of the drain.** -/
theorem Abandoned.step (hcfg : cfg.Started) {e : Entry}
    (hbody : isBodyCommand e.req.payload = true) (h : s.phase.Abandoned cfg e started c₀)
    (hl : l ≠ .finish) (hs : s.step N cfg l = some s') : Drains N cfg e started c₀ s l s' := by
  cases hphase : s.phase with
  | idle =>
    rw [hphase] at h
    exact absurd h id
  | reading x =>
    cases hclock : l.clock with
    | none =>
      have hr : x.step N cfg s l = none := by
        by_contra hne
        obtain ⟨s'', hr⟩ := Option.ne_none_iff_exists'.mp hne
        obtain ⟨now, later, hsome, -⟩ := readingStep_goes hr
        rw [hclock] at hsome
        cases hsome
      exact drains_of_other h (by simp only [Pipeline.readerStep, hphase, hr]) hs
    | some t =>
      obtain ⟨now, later⟩ := t
      rw [hphase] at h
      obtain ⟨hb, hx⟩ := h
      obtain rfl := hb.cur
      have hasked := control_draining (m := s.moment x.cur.index now later) cfg hbody
        hb.draining x.wireBytes x.consumedBytes
      have hdraining : Draining started c₀ (x.asked cfg s now later).1 := by
        rw [Reading.asked, hasked]
        exact hb.draining
      refine drains_of_asked hcfg hphase hx hclock hdraining ?_ hb.spent hs
      rw [Reading.asked, hasked]
  | stopped x err =>
    refine drains_of_other h ?_ hs
    cases l with
    | finish => exact absurd rfl hl
    | _ => simp only [Pipeline.readerStep, hphase]
  | dead => exact drains_of_other h (by simp only [Pipeline.readerStep, hphase]) hs

/-- **A run of the drain**, up to the end of the response. -/
theorem Abandoned.run (hcfg : cfg.Started) {e : Entry}
    (hbody : isBodyCommand e.req.payload = true) {ls : List Label} (hin : Label.finish ∉ ls)
    (h : s.phase.Abandoned cfg e started c₀)
    (hrun : exec (Pipeline.step N cfg) s ls = some s') :
    s'.phase.Abandoned cfg e started c₀ ∧
      logged (Pipeline.step N cfg) (toCaller N cfg) s ls = [] ∧
      ∀ t ∈ logged (Pipeline.step N cfg) (returnsNil N cfg) s ls,
        t < started + cfg.abandonedDrainTimeout := by
  induction ls generalizing s with
  | nil =>
    obtain rfl := Option.some.inj hrun
    exact ⟨h, rfl, by simp [logged]⟩
  | cons l ls ih =>
    obtain ⟨m, hs, hrun⟩ := exec_cons.1 hrun
    obtain ⟨hl, hin⟩ := not_or.mp (List.mem_cons.not.mp hin)
    have hd := Abandoned.step hcfg hbody h (Ne.symm hl) hs
    obtain ⟨hend, hsilent, htimes⟩ := ih hin hd.phase hrun
    refine ⟨hend, ?_, ?_⟩
    · simp [logged, hs, hd.silent, hsilent]
    · simpa [logged, hs] using List.forall_mem_append.mpr ⟨hd.inTime, htimes⟩

/-- **The end of a drain that failed**: the connection is retired. -/
theorem finishReading_dead (hbody : isBodyCommand x.cur.req.payload = true) (s : Pipeline)
    (e : GoError) : (finishReading cfg s x (some e)).phase = .dead := by
  simp [finishReading, Reading.response, Reading.validated, respErr, retires, hbody]

/-- **The drain of an abandoned body is bounded.** The closure is called
in the step `l₁` and finds the request of a body cancelled, wherever the
response stands, whatever is buffered and whatever is to come. Until the
end of `feedUntilDoneControlled` no more than `abandonedDrainBytes` are
consumed and nothing is written to the caller's writer. `nil` is returned
for a response that has ended within fewer bytes, and in time; with an
error the connection is retired. -/
theorem drain_bounded (hcfg : cfg.Started) {s₀ s₁ : Pipeline} {ls₀ ls : List Label} {l₁ : Label}
    {x₁ : Reading} {now later : Time} (hidle : s₀.phase = .idle)
    (hrun₀ : exec (Pipeline.step N cfg) s₀ ls₀ = some s₁) (hphase : s₁.phase = .reading x₁)
    (hbody : isBodyCommand x₁.cur.req.payload = true) (hnew : x₁.p.drainStarted = none)
    (hcancelled : x₁.p.deliver = false ∨ (s₁.ctxErr x₁.cur.index).isSome = true)
    (hclock : l₁.clock = some (now, later))
    (hrun : exec (Pipeline.step N cfg) s₁ (l₁ :: ls) = some s) (hin : Label.finish ∉ ls) :
    logged (Pipeline.step N cfg) (toCaller N cfg) s₁ (l₁ :: ls) = [] ∧
    (∀ t ∈ logged (Pipeline.step N cfg) (returnsNil N cfg) s₁ (l₁ :: ls),
      t < now + cfg.abandonedDrainTimeout) ∧
    (∀ x, s.phase = .reading x → x.consumedBytes - x₁.consumedBytes ≤ cfg.abandonedDrainBytes) ∧
    (∀ x, s.phase = .stopped x none → x.r.eof = true ∧
      x.consumedBytes - x₁.consumedBytes < cfg.abandonedDrainBytes) ∧
    ∀ x e, s.phase = .stopped x (some e) →
      x.consumedBytes - x₁.consumedBytes ≤ cfg.abandonedDrainBytes ∧
      (finishReading cfg s x (some e)).phase = .dead := by
  have hsound : s₁.phase.Sound :=
    exec_invariant (I := fun s => s.phase.Sound) (fun _ _ _ h _ hs => Sound.step h hs) ls₀
      (by rw [hidle]; trivial) (along_true s₀ ls₀) hrun₀
  rw [hphase] at hsound
  obtain ⟨s₂, hs, hrun⟩ := exec_cons.1 hrun
  -- the call that notices
  obtain ⟨hdraining, hans⟩ := control_notices (m := s₁.moment x₁.cur.index now later) cfg
    hbody hnew hcancelled x₁.wireBytes x₁.consumedBytes
  obtain ⟨hbytes, -⟩ := hcfg.pos
  have hfirst : Drains N cfg x₁.cur now x₁.consumedBytes s₁ l₁ s₂ :=
    drains_of_asked hcfg hphase hsound hclock hdraining hans (by omega) hs
  -- and the steps behind it
  obtain ⟨hend, hsilent, htimes⟩ := Abandoned.run hcfg hbody hin hfirst.phase hrun
  refine ⟨?_, ?_, fun x hx => ?_, fun x hx => ?_, fun x e hx => ?_⟩
  · simp [logged, hs, hfirst.silent, hsilent]
  · simpa [logged, hs] using List.forall_mem_append.mpr ⟨hfirst.inTime, htimes⟩
  · rw [hx] at hend
    exact hend.1.spent
  · rw [hx] at hend
    exact (hend.2 rfl).symm
  · rw [hx] at hend
    exact ⟨hend.1.spent, finishReading_dead (hend.1.cur ▸ hbody) s e⟩

/-- A provider that lets sixteen bytes be drained. -/
def tightDrain : Config := ⟨0, drainBytes 16, drainTimeout 0, ""⟩

def bodyRequest : Request := ⟨ascii "BODY <a>\r\n", none, false, false, 0, none⟩

/-- A body stands in the read buffer. -/
def bufferedBody : Pipeline where
  written := 1
  pending := [⟨0, bodyRequest⟩]
  window := ascii "222 0 <a>\r\none\r\ntwo\r\n.\r\n"

/-- Its request is cancelled. -/
def cancelledBody : Pipeline :=
  { bufferedBody with
    pending := []
    started := 1
    ctxErrs := [(0, .canceled)]
    phase := .reading (beginReading ⟨0, bodyRequest⟩ false 0) }

/-- Its status line and its first line are drained. -/
theorem drain_bounded_spent :
    exec (Pipeline.step Rapidyenc.scalar tightDrain) bufferedBody [.take 0, .cancel 0 .canceled] =
        some cancelledBody ∧
      ∃ s x, exec (Pipeline.step Rapidyenc.scalar tightDrain) cancelledBody
          [.feed 10 10, .recheck 20 20] = some s ∧
        s.phase = .stopped x (some (.sentinel .abandonedBodyDrainLimit)) ∧
        x.consumedBytes = tightDrain.abandonedDrainBytes ∧ x.consumedBytes - 0 ≤ 16 ∧
        (finishReading tightDrain s x
          (some (.sentinel .abandonedBodyDrainLimit))).phase = .dead := by
  have hbegin : exec (Pipeline.step Rapidyenc.scalar tightDrain) bufferedBody
      [.take 0, .cancel 0 .canceled] = some cancelledBody := rfl
  let shown (s : Pipeline) : Option (ℤ × Option GoError) :=
    match s.phase with
    | .stopped x err => some (x.consumedBytes, err)
    | _ => none
  have hrun : (exec (Pipeline.step Rapidyenc.scalar tightDrain) cancelledBody
      [.feed 10 10, .recheck 20 20]).map shown =
        some (some (16, some (.sentinel .abandonedBodyDrainLimit))) := by decide
  obtain ⟨s, hs, hshown⟩ := Option.map_eq_some_iff.mp hrun
  obtain ⟨x, hx, hconsumed⟩ : ∃ x,
      s.phase = .stopped x (some (.sentinel .abandonedBodyDrainLimit)) ∧ x.consumedBytes = 16 := by
    cases hphase : s.phase with
    | stopped x err =>
      simp only [shown, hphase, Option.some.injEq, Prod.mk.injEq] at hshown
      exact ⟨x, by rw [hshown.2], hshown.1⟩
    | _ => simp [shown, hphase] at hshown
  obtain ⟨-, -, -, -, hend⟩ := drain_bounded ⟨16, 0, rfl, rfl⟩ rfl hbegin rfl (by decide) rfl
    (.inr (by decide)) rfl hs (by simp)
  exact ⟨hbegin, s, x, hs, hx, hconsumed, hend x _ hx⟩

end Conn

end NntpPool
