import NntpPool.Conn.Model.Control
/-!
# Conn — the stall deadline

While a response comes in, the closure of `readerLoop` returns a read
deadline that progress moves on. To save system calls it moves by a
quantum at least, so the deadline in force is `StallTimeout` behind an
earlier event than the last one, the *anchor*. The events up to a quantum
behind the anchor leave it where it is.

So a transfer is in time exactly if every event comes within
`StallTimeout` of the anchor, not of the event before (`inTime_iff`), and
what is promised of the event before holds only of gaps that are a
quantum shorter (`inTime_of_gaps`).
-/

namespace NntpPool

namespace Conn

/-! ## Progress events -/

/-- **A call of the closure**: what it finds, and the counts it is
given. -/
structure Call where
  moment : Moment
  wireBytes : ℤ
  consumedBytes : ℤ

/-- The clock of a call, where it has made progress. -/
def Call.time (c : Call) : Time := c.moment.later

/-- The closure is called. -/
def Call.ask (c : Call) (cfg : Config) (req : Request) (p : Progress) :
    Progress × Except GoError Limits :=
  control cfg req p c.moment c.wireBytes c.consumedBytes

/-- The call makes progress over what the closure has seen, and the
request is not cancelled. -/
structure Call.Advances (c : Call) (lastBytes lastConsumed : ℤ) : Prop where
  progress : lastBytes < c.wireBytes ∨ lastConsumed < c.consumedBytes
  wire : 0 ≤ c.wireBytes
  wanted : c.moment.ctxDone = false

/-- **A transfer that makes progress** from the first call on. -/
def Advancing : ℤ → ℤ → List Call → Prop
  | _, _, [] => True
  | lastBytes, lastConsumed, c :: cs =>
    c.Advances lastBytes lastConsumed ∧ Advancing c.wireBytes c.consumedBytes cs

/-- The closure has returned a read deadline later than `t`, or none. -/
def LaterThan (r : Except GoError Limits) (t : Time) : Prop :=
  ∃ lim, r = .ok lim ∧ ∀ dl, lim.deadline = some dl → t < dl

/-- **The transfer is never timed out**: the deadline returned at an event
is later than the next event. -/
def NeverLate (cfg : Config) (req : Request) : Progress → List Call → Prop
  | p, c :: d :: cs =>
    LaterThan (c.ask cfg req p).2 d.time ∧ NeverLate cfg req (c.ask cfg req p).1 (d :: cs)
  | _, _ => True

/-! ## Anchors -/

/-- The anchor behind an event at `t`: one a quantum behind the last, or
as late as that one's deadline, is the next. -/
def nextAnchor (stall anchor t : Time) : Time :=
  if anchor + stallDeadlineQuantum ≤ t ∨ anchor + stall ≤ t then t else anchor

/-- **Every event comes in time**, as seen from `c` with its anchor: up to
the first byte off the wire before the response deadline, if there is
one, and from then on within `stall` of the anchor. -/
def InTime (stall : Time) (responseDeadline : Option Time) : Time → Call → List Call → Prop
  | _, _, [] => True
  | anchor, c, d :: cs =>
    (if c.wireBytes = 0 then ∀ dl, responseDeadline = some dl → d.time < dl
      else d.time < anchor + stall) ∧
      InTime stall responseDeadline (nextAnchor stall anchor d.time) d cs

/-- What the closure holds behind an event. -/
structure Stands (cfg : Config) (responseDeadline : Option Time) (anchor : Time) (c : Call)
    (p : Progress) : Prop where
  deliver : p.deliver = true
  responseDeadline_eq : p.responseDeadline = responseDeadline
  lastBytes : p.lastBytes = c.wireBytes
  lastConsumed : p.lastConsumed = c.consumedBytes
  stallDeadline : p.stallDeadline = some (anchor + cfg.stallTimeout)
  wire : 0 ≤ c.wireBytes

variable {cfg : Config} {req : Request} {p : Progress} {c d : Call} {cs : List Call}
variable {responseDeadline : Option Time} {anchor t : Time}

/-- A wanted response is not drained. -/
theorem Call.ask_wanted (hd : p.deliver = true) (hc : c.moment.ctxDone = false) :
    c.ask cfg req p =
      let p := noteProgress cfg p c.moment c.wireBytes c.consumedBytes
      (p, .ok (readLimits cfg req p)) := by
  simp [Call.ask, control, noticeCancel, hd, hc]

/-- **A call without progress** changes nothing, and returns the deadline
that is in force. -/
theorem Stands.idle (h : Stands cfg responseDeadline anchor c p) {m : Moment}
    (hm : m.ctxDone = false) :
    Call.ask ⟨m, c.wireBytes, c.consumedBytes⟩ cfg req p = (p, .ok (readLimits cfg req p)) := by
  rw [Call.ask_wanted h.deliver hm]
  simp [noteProgress, h.lastBytes, h.lastConsumed]

/-- The first event. -/
theorem Stands.first (req : Request) (hstall : 0 < cfg.stallTimeout) (h : c.Advances 0 0) :
    Stands cfg responseDeadline c.time c
      (c.ask cfg req { deliver := true, responseDeadline := responseDeadline }).1 := by
  rw [Call.ask_wanted rfl h.wanted]
  constructor <;> simp [noteProgress, h.progress, hstall, Call.time, h.wire]

/-- **The next event** moves the anchor, or does not. -/
theorem Stands.next (req : Request) (hstall : 0 < cfg.stallTimeout)
    (h : Stands cfg responseDeadline anchor c p) (hd : d.Advances c.wireBytes c.consumedBytes) :
    Stands cfg responseDeadline (nextAnchor cfg.stallTimeout anchor d.time) d
      (d.ask cfg req p).1 := by
  have hprogress : p.lastBytes < d.wireBytes ∨ p.lastConsumed < d.consumedBytes := by
    rw [h.lastBytes, h.lastConsumed]
    exact hd.progress
  -- the old deadline has passed, or the new one is a quantum later
  have hmoves (a s q t : ℤ) : (decide (a + s ≤ t) || decide (q ≤ t + s - (a + s))) = true ↔
      a + q ≤ t ∨ a + s ≤ t := by
    rw [Bool.or_eq_true, decide_eq_true_eq, decide_eq_true_eq]
    omega
  rw [Call.ask_wanted h.deliver hd.wanted]
  constructor
  · simp [noteProgress, hprogress, h.deliver]
  · simp [noteProgress, hprogress, h.responseDeadline_eq]
  · simp [noteProgress, hprogress]
  · simp [noteProgress, hprogress]
  · by_cases hmove : anchor + stallDeadlineQuantum ≤ d.time ∨ anchor + cfg.stallTimeout ≤ d.time
    · simp only [Call.time] at hmove
      simp only [noteProgress, hprogress, h.stallDeadline, hmoves, hstall, nextAnchor, Call.time,
        hmove, if_true, and_self]
    · simp only [Call.time] at hmove
      simp only [noteProgress, hprogress, h.stallDeadline, hmoves, nextAnchor, Call.time,
        hmove, if_true, if_false, and_false]
  · exact hd.wire

/-- The deadline in force behind an event. -/
theorem Stands.laterThan_iff (hstall : 0 < cfg.stallTimeout) (hreq : req.ctxDeadline = none)
    (h : Stands cfg responseDeadline anchor c p) :
    LaterThan (.ok (readLimits cfg req p)) t ↔
      if c.wireBytes = 0 then ∀ dl, responseDeadline = some dl → t < dl
      else t < anchor + cfg.stallTimeout := by
  have hpos : c.wireBytes ≠ 0 → 0 < c.wireBytes := fun hne => by have := h.wire; omega
  have hlim : LaterThan (.ok (readLimits cfg req p)) t ↔
      ∀ dl, (readLimits cfg req p).deadline = some dl → t < dl := by
    constructor
    · rintro ⟨lim, heq, hlim⟩
      cases heq
      exact hlim
    · exact fun hlim => ⟨_, rfl, hlim⟩
  rw [hlim, readLimits, h.responseDeadline_eq, h.lastBytes]
  by_cases hzero : c.wireBytes = 0
  · cases responseDeadline <;> simp [hzero, hreq, minDeadline]
  · cases responseDeadline <;>
      simp [hzero, hpos hzero, hstall, h.stallDeadline, hreq, minDeadline]

/-- From an event on. -/
theorem Stands.neverLate_iff (hstall : 0 < cfg.stallTimeout) (hreq : req.ctxDeadline = none) :
    ∀ (cs : List Call) {c : Call} {anchor : Time} {p q : Progress},
      c.ask cfg req q = (p, .ok (readLimits cfg req p)) →
      Stands cfg responseDeadline anchor c p →
      Advancing c.wireBytes c.consumedBytes cs →
      (NeverLate cfg req q (c :: cs) ↔ InTime cfg.stallTimeout responseDeadline anchor c cs) := by
  intro cs
  induction cs with
  | nil => exact fun _ _ _ => ⟨fun _ => trivial, fun _ => trivial⟩
  | cons d cs ih =>
    intro c anchor p q hask hs hadv
    have hnext := hs.next req hstall hadv.1
    have hdask : d.ask cfg req p =
        ((d.ask cfg req p).1, .ok (readLimits cfg req (d.ask cfg req p).1)) := by
      rw [Call.ask_wanted hs.deliver hadv.1.wanted]
    rw [NeverLate, InTime, hask, ih hdask hnext hadv.2, hs.laterThan_iff hstall hreq]

/-- **A transfer is in time exactly if every event comes within
`StallTimeout` of the anchor**, and within the response timeout as long
as all its bytes were there before it began. -/
theorem inTime_iff (cfg : Config) (hstall : 0 < cfg.stallTimeout) (req : Request)
    (hreq : req.ctxDeadline = none) (responseDeadline : Option Time) (c : Call) (cs : List Call)
    (hadv : Advancing 0 0 (c :: cs)) :
    NeverLate cfg req { deliver := true, responseDeadline := responseDeadline } (c :: cs) ↔
      InTime cfg.stallTimeout responseDeadline c.time c cs := by
  refine Stands.neverLate_iff hstall hreq cs ?_ (Stands.first req hstall hadv.1) hadv.2
  rw [Call.ask_wanted rfl hadv.1.wanted]

/-- A transfer as the default configuration has it, with a quantum to
spare. -/
def slowTransfer : List Call :=
  [⟨⟨false, 0, 0⟩, 100, 0⟩, ⟨⟨false, 200000000, 200000000⟩, 200, 100⟩,
    ⟨⟨false, 7900000000, 7900000000⟩, 300, 200⟩]

/-- The default configuration. -/
def defaultStall : Config where
  stallTimeout := 8 * 1000000000
  abandonedDrainBytes := 1024 * 1024
  abandonedDrainTimeout := 250 * 1000000
  providerName := ""

/-- A BODY without a deadline. -/
def plainBody : Request where
  payload := ascii "BODY <a@b>\r\n"
  bodyWriter := none
  validateBody := false
  onMeta := false
  responseTimeout := 2 * 1000000000
  ctxDeadline := none

theorem inTime_iff_slow :
    NeverLate defaultStall plainBody { deliver := true, responseDeadline := some 2000000000 }
      slowTransfer := by
  refine (inTime_iff defaultStall (by decide) plainBody rfl (some 2000000000)
    ⟨⟨false, 0, 0⟩, 100, 0⟩ slowTransfer.tail
    ⟨⟨by decide, by decide, rfl⟩, ⟨by decide, by decide, rfl⟩,
      ⟨by decide, by decide, rfl⟩, trivial⟩).mpr ⟨?_, ?_, trivial⟩
  · rw [if_neg (by decide)]
    decide
  · rw [if_neg (by decide)]
    decide

/-- **Progress that times out**: the second event comes within a quantum
of the first and does not move the deadline; the third, less than
`StallTimeout` behind it, is late. -/
theorem progress_times_out :
    (200000000 : Time) - 0 < defaultStall.stallTimeout ∧
      (8100000000 : Time) - 200000000 < defaultStall.stallTimeout ∧
      ¬NeverLate defaultStall plainBody { deliver := true, responseDeadline := some 2000000000 }
        [⟨⟨false, 0, 0⟩, 100, 0⟩, ⟨⟨false, 200000000, 200000000⟩, 200, 100⟩,
          ⟨⟨false, 8100000000, 8100000000⟩, 300, 200⟩] := by
  refine ⟨by decide, by decide, ?_⟩
  rintro ⟨-, ⟨lim, hlim, hlater⟩, -⟩
  cases hlim
  exact absurd (hlater (8 * 1000000000) (by decide)) (by decide)

/-- **Gaps that are a quantum shorter than `StallTimeout`** are always in
time, once bytes come off the wire. -/
theorem inTime_of_gaps {stall : ℤ} :
    ∀ (cs : List Call) {c : Call} {anchor : ℤ}, c.time < anchor + stallDeadlineQuantum →
      (∀ d ∈ c :: cs, d.wireBytes ≠ 0) →
      (c :: cs).IsChain (fun c d => d.time ≤ c.time + (stall - stallDeadlineQuantum)) →
      InTime stall responseDeadline anchor c cs := by
  intro cs
  induction cs with
  | nil => exact fun _ _ _ => trivial
  | cons d cs ih =>
    intro c anchor hnear hwire hgaps
    obtain ⟨hgap, hgaps⟩ := List.isChain_cons_cons.mp hgaps
    refine ⟨?_, ih ?_ (fun e he => hwire e (List.mem_cons_of_mem c he)) hgaps⟩
    · rw [if_neg (hwire c List.mem_cons_self)]
      calc d.time ≤ c.time + (stall - stallDeadlineQuantum) := hgap
        _ < anchor + stallDeadlineQuantum + (stall - stallDeadlineQuantum) :=
          Int.add_lt_add_right hnear _
        _ = anchor + stall := by
          rw [Int.add_assoc, Int.add_comm stallDeadlineQuantum, Int.sub_add_cancel]
    · unfold nextAnchor
      split_ifs with hmove
      · exact Int.lt_add_of_pos_right d.time (by decide)
      · exact Int.lt_of_not_ge (not_or.mp hmove).1

end Conn

end NntpPool
