import NntpPool.Conn.Attribution
import NntpPool.Conn.Model.ReadBuffer
/-!
# Conn — the read buffer is a byte queue

`Holds rb q` says that the buffer stands for the queue `q`. The
operations move indices, copy and reallocate, and each is an operation on
the queue: `advance` drops its front, a read continues it, and `compact`
and growth leave it as it is. So along every run of
`feedUntilDoneControlled` the window is what was read and not consumed
(`readBuffer_queue`), and there is space to read into unless the queue
fills the largest buffer.
-/

namespace NntpPool

namespace Conn

open Reader

variable {rb rb' : ReadBuffer} {q mem p : Bytes} {c : ℤ} {n : ℕ}

/-- **The buffer stands for the queue.** An empty one has its indices at
the front, so that all of its space can be read into. -/
structure Holds (rb : ReadBuffer) (q : Bytes) : Prop where
  window : rb.window = some q
  rewound : q = [] → rb.stop = 0
  fits : rb.buf.length ≤ maxReadBufSize

namespace Holds

theorem bounds (h : Holds rb q) :
    0 ≤ rb.start ∧ rb.start ≤ rb.stop ∧ rb.stop ≤ rb.buf.length ∧
      (q.length : ℤ) = rb.stop - rb.start := slice_bounds h.window

theorem nil_iff (h : Holds rb q) : q = [] ↔ rb.start = rb.stop := by
  obtain ⟨-, -, -, hlen⟩ := h.bounds
  rw [← List.length_eq_zero_iff]
  omega

theorem start_zero (h : Holds rb q) (hq : q = []) : rb.start = 0 ∧ rb.stop = 0 := by
  have hstop := h.rewound hq
  exact ⟨(h.nil_iff.1 hq).trans hstop, hstop⟩

/-- Nothing stands in an array whose indices are zero. -/
theorem empty {buf : Bytes} (h : buf.length ≤ maxReadBufSize) : Holds ⟨buf, 0, 0⟩ [] where
  window := slice_front [] buf
  rewound := fun _ => rfl
  fits := h

/-- A queue at the front of its array. -/
theorem front {back : Bytes} (h : (q ++ back).length ≤ maxReadBufSize) :
    Holds ⟨q ++ back, 0, q.length⟩ q where
  window := slice_front q back
  rewound := fun hq => by simp [hq]
  fits := h

/-! ## The operations -/

theorem init (h : Holds rb q) : Holds rb.init q := by
  unfold ReadBuffer.init
  split_ifs with hb
  · have hq : q = [] := by
      obtain ⟨h0, hle, hstop, hlen⟩ := h.bounds
      have hnone := List.length_eq_zero_iff.mpr hb
      exact List.length_eq_zero_iff.mp (by omega)
    obtain ⟨hstart, hstop⟩ := h.start_zero hq
    rw [hstart, hstop, hq]
    refine empty ?_
    rw [List.length_replicate]
    decide
  · exact h

/-- `advance` drops what was consumed. -/
theorem advance (h : Holds rb q) (h0 : 0 ≤ c) (hc : c ≤ q.length) :
    Holds (rb.advance c) (q.drop c.toNat) := by
  obtain ⟨hs, hle, hstop, hlen⟩ := h.bounds
  unfold ReadBuffer.advance
  split_ifs with hnone hall
  · obtain rfl : c = 0 := by omega
    exact h
  · have hnil : q.drop c.toNat = [] := List.drop_eq_nil_iff.mpr (by omega)
    rw [hnil]
    exact empty h.fits
  · refine ⟨slice_drop h.window h0 hc, fun hnil => ?_, h.fits⟩
    have := List.drop_eq_nil_iff.mp hnil
    omega

/-- `compact` moves the queue to the front. -/
theorem compact (h : Holds rb q) :
    ∃ rb', rb.compact = some rb' ∧ Holds rb' q ∧ rb'.start = 0 ∧ rb'.stop = q.length ∧
      rb'.buf.length = rb.buf.length := by
  obtain ⟨hs, hle, hstop, hlen⟩ := h.bounds
  unfold ReadBuffer.compact
  split_ifs with hnone
  · have hstart : rb.start = 0 := by
      rcases hnone with h0 | heq
      · exact h0
      · exact (h.start_zero (h.nil_iff.2 heq)).1
    exact ⟨rb, rfl, h, hstart, by omega, rfl⟩
  · have hfit : q.length ≤ rb.buf.length := by omega
    have hall : (q ++ rb.buf.drop q.length).length = rb.buf.length := by
      rw [List.length_append, List.length_drop]
      omega
    rw [h.window, Option.map_some, overwrite_zero, ← hlen]
    exact ⟨_, rfl, front (hall ▸ h.fits), rfl, rfl, hall⟩

/-- There is no space behind a queue at the front of its array: the
array grows, unless it is the largest. -/
theorem grow (h : Holds rb q) (hstart : rb.start = 0) (hfull : rb.stop = rb.buf.length) :
    (q.length = maxReadBufSize ∧
      rb.grow = some (rb, some (.sentinel .readBufferExceeded))) ∨
    (q.length < maxReadBufSize ∧ ∃ rb', rb.grow = some (rb', none) ∧ Holds rb' q ∧
      rb'.stop < rb'.buf.length) := by
  obtain ⟨-, -, -, hlen⟩ := h.bounds
  have hq : q.length = rb.buf.length := by omega
  have hfits := h.fits
  have hdef : 0 < defaultReadBufSize ∧ defaultReadBufSize * 2 ≤ maxReadBufSize := by decide
  unfold ReadBuffer.grow
  extract_lets cur newLen
  -- the new array is longer exactly if the old one is not the largest
  have hnew : newLen ≤ maxReadBufSize ∧
      (newLen ≤ rb.buf.length ↔ rb.buf.length = maxReadBufSize) := by
    simp only [newLen, cur]
    split_ifs <;> omega
  split_ifs with hmax
  · exact .inl ⟨hq.trans (hnew.2.mp hmax), rfl⟩
  · have hlt : rb.buf.length ≠ maxReadBufSize := fun hc => hmax (hnew.2.mpr hc)
    have hall : (q ++ (List.replicate newLen (0 : UInt8)).drop q.length).length = newLen := by
      rw [List.length_append, List.length_drop, List.length_replicate]
      omega
    rw [h.window, Option.map_some, overwrite_zero, ← hlen]
    refine .inr ⟨by omega, _, rfl, front (hall.trans_le hnew.1), ?_⟩
    simp only [hall]
    omega

/-- **`ensureWriteSpace`** fails exactly if the queue fills the largest
array, and otherwise leaves space behind it. -/
theorem ensureWriteSpace (h : Holds rb q) :
    (q.length = maxReadBufSize ∧
      rb.ensureWriteSpace = some (rb, some (.sentinel .readBufferExceeded))) ∨
    (q.length < maxReadBufSize ∧ ∃ rb', rb.ensureWriteSpace = some (rb', none) ∧ Holds rb' q ∧
      rb'.stop < rb'.buf.length) := by
  obtain ⟨hs, hle, hstop, hlen⟩ := h.bounds
  have hfits := h.fits
  unfold ReadBuffer.ensureWriteSpace
  split_ifs with hspace hback
  · exact .inr ⟨by omega, rb, rfl, h, hspace⟩
  · -- what stands before the queue is enough
    obtain ⟨rb₁, hc, h₁, hstart₁, hstop₁, hlen₁⟩ := h.compact
    have hspace₁ : rb₁.stop < rb₁.buf.length := by omega
    refine .inr ⟨by omega, rb₁, ?_, h₁, hspace₁⟩
    rw [hc, Option.bind_some, if_pos hspace₁]
  · exact h.grow (by omega) (by omega)

/-- The space that is read into. -/
theorem space (h : Holds rb q) :
    ∃ space, slice rb.buf rb.stop rb.buf.length = some space ∧
      (space.length : ℤ) = rb.buf.length - rb.stop := by
  obtain ⟨hs, hle, hstop, -⟩ := h.bounds
  have hslice : slice rb.buf rb.stop rb.buf.length =
      some ((rb.buf.take (rb.buf.length : ℤ).toNat).drop rb.stop.toNat) := if_pos (by omega)
  exact ⟨_, hslice, (slice_bounds hslice).2.2.2⟩

/-- A read continues the queue. -/
theorem read (h : Holds rb q) (hp : (p.length : ℤ) = rb.buf.length - rb.stop) (hn : n ≤ p.length) :
    Holds { rb with buf := rb.buf.take rb.stop.toNat ++ p, stop := rb.stop + n }
      (q ++ p.take n) := by
  obtain ⟨hs, hle, hstop, hlen⟩ := h.bounds
  refine ⟨slice_continue h.window hn, fun hnil => ?_, ?_⟩
  · obtain ⟨hq, hnone⟩ := List.append_eq_nil_iff.mp hnil
    have hzero := h.rewound hq
    rw [List.take_eq_nil_iff] at hnone
    rcases hnone with rfl | rfl
    · simpa using hzero
    · obtain rfl : n = 0 := by simpa using hn
      simpa using hzero
  · have hfits := h.fits
    simp only [List.length_append, List.length_take]
    omega

/-- A feeder writes over the front of the queue. -/
theorem overwrite (h : Holds rb q) (hm : mem.length ≤ q.length) :
    Holds { rb with buf := overwrite rb.buf rb.start mem } (mem ++ q.drop mem.length) where
  window := slice_overwrite h.window hm
  rewound := fun hnil => h.rewound (by
    obtain ⟨hnone, hq⟩ := List.append_eq_nil_iff.mp hnil
    simpa [hnone] using hq)
  fits := (length_overwrite h.window hm).trans_le h.fits

/-- `Feed`, by what it leaves in its window and how much it consumes. -/
theorem fed (h : Holds rb q) (lim : Limits) (hm : mem.length = (feedWindow lim q).length)
    (h0 : 0 ≤ c) (hc : c ≤ mem.length) :
    Holds (let rb := { rb with buf := NntpPool.overwrite rb.buf rb.start mem }
        if 0 < c then rb.advance c else rb)
      (mem.drop c.toNat ++ q.drop (feedWindow lim q).length) := by
  have hq : q.length = (feedWindow lim q).length + (q.drop (feedWindow lim q).length).length := by
    rw [← List.length_append, feedWindow_append]
  have hrb := h.overwrite (by omega : mem.length ≤ q.length)
  rw [hm] at hrb
  rw [← List.drop_append_of_le_length (by omega)]
  by_cases hpos : 0 < c
  · simp only [if_pos hpos]
    refine hrb.advance h0 ?_
    rw [List.length_append]
    omega
  · obtain rfl : c = 0 := by omega
    exact hrb

end Holds

/-! ## The loop -/

namespace Feeding

variable {s s' : Feeding} {l : Input} {ls : List Input} {lim : Limits} {next : Stage}
variable {done : Bool} {err : Option GoError}

/-- **The buffer stands for what was read and not consumed**, as the
feeders have left it. -/
structure Tracks (s : Feeding) (q : Bytes) : Prop where
  holds : Holds s.rb q
  nonneg : 0 ≤ s.consumed
  count : (q.length : ℤ) + s.consumed = s.read.length
  sound : s.stage ≠ .panicked

/-- The queue is the wire's. -/
def Exact (s : Feeding) (q : Bytes) : Prop := q = s.read.drop s.consumed.toNat

theorem readMore_tracks (h : Tracks s q) (hnext : next ≠ .panicked)
    (hstep : s.readMore next p n err = some s') :
    ∃ q', Tracks s' q' ∧ (Exact s q → Exact s' q') := by
  obtain ⟨-, hfull⟩ | ⟨-, rb, hspace, hrb, hlt⟩ := h.holds.ensureWriteSpace
  · simp only [readMore, hfull, Option.some.injEq] at hstep
    subst hstep
    exact ⟨q, ⟨h.holds, h.nonneg, h.count, nofun⟩, id⟩
  · obtain ⟨hs, hle, hstop, hlen⟩ := hrb.bounds
    obtain ⟨space, hslice, hspaceLen⟩ := hrb.space
    simp only [readMore, hspace, hslice, Option.ite_none_right_eq_some, Option.some.injEq] at hstep
    obtain ⟨⟨hplen, hn⟩, rfl⟩ := hstep
    have hcount := h.count
    refine ⟨q ++ p.take n, ⟨hrb.read (by omega) hn, h.nonneg, ?_, ?_⟩, fun hex => ?_⟩
    · simp only [List.length_append]
      omega
    · simp only
      split_ifs
      · nofun
      · exact hnext
    · have hle : s.consumed.toNat ≤ s.read.length := by omega
      rw [Exact, List.drop_append_of_le_length hle, ← hex]

theorem feed_tracks (h : Tracks s q)
    (hw : Within s (.feed lim mem c done err)) (hstep : s.feed lim mem c done err = some s') :
    ∃ q', Tracks s' q' ∧ (Spares s (.feed lim mem c done err) → Exact s q → Exact s' q') := by
  have hwin := h.holds.window
  obtain ⟨h0, hc⟩ := hw q hwin
  have happend := feedWindow_append lim q
  have hq : q.length = (feedWindow lim q).length + (q.drop (feedWindow lim q).length).length := by
    rw [← List.length_append, happend]
  simp only [feed, hwin, Option.ite_none_right_eq_some, Option.some.injEq] at hstep
  obtain ⟨hmem, rfl⟩ := hstep
  have hcount := h.count
  have hnonneg := h.nonneg
  refine ⟨mem.drop c.toNat ++ q.drop (feedWindow lim q).length,
    ⟨h.holds.fed lim hmem h0 (by omega), Int.add_nonneg hnonneg h0, ?_, ?_⟩, fun hspares hex => ?_⟩
  · simp only [List.length_drop, List.length_append]
    omega
  · simp only
    split_ifs <;> nofun
  · have hkept : mem.drop c.toNat ++ q.drop (feedWindow lim q).length = q.drop c.toNat := by
      rw [hspares q hwin, ← List.drop_append_of_le_length (by omega), happend]
    simp only [Exact] at hex ⊢
    rw [hkept, hex, List.drop_drop, Int.toNat_add hnonneg h0]

theorem goOn_tracks (h : Tracks s q) (c : ℤ) :
    Tracks (s.goOn c) q ∧ (Exact s q → Exact (s.goOn c) q) := by
  unfold goOn
  split_ifs with hc
  · obtain ⟨rb', hcompact, hrb, -⟩ := h.holds.compact
    rw [hcompact]
    exact ⟨⟨hrb, h.nonneg, h.count, nofun⟩, id⟩
  · exact ⟨⟨h.holds, h.nonneg, h.count, nofun⟩, id⟩

/-- At the top of the loop the indices of an empty buffer are zero
already. -/
theorem rewind_eq (h : Tracks s q) (hempty : s.rb.start = s.rb.stop) : s.rewind = s := by
  obtain ⟨hstart, hstop⟩ := h.holds.start_zero (h.holds.nil_iff.2 hempty)
  obtain ⟨⟨buf, start, stop⟩, stage, wireBytes, consumedBytes, read, consumed⟩ := s
  simp only at hstart hstop
  rw [hstart, hstop]
  rfl

/-- A call that returns leaves the buffer as it is. -/
theorem returns_tracks (h : Tracks s q) (err : Option GoError) :
    ∃ q', Tracks { s with stage := .returned err } q' ∧
      (Spares s l → Exact s q → Exact { s with stage := .returned err } q') :=
  ⟨q, ⟨h.holds, h.nonneg, h.count, nofun⟩, fun _ => id⟩

/-- **One step.** -/
theorem step_tracks (h : Tracks s q) (hw : Within s l) (hstep : s.step l = some s') :
    ∃ q', Tracks s' q' ∧ (Spares s l → Exact s q → Exact s' q') := by
  unfold step at hstep
  split at hstep
  case h_1 =>
    obtain rfl := Option.some.inj hstep
    exact ⟨q, ⟨h.holds.init, h.nonneg, h.count, nofun⟩, fun _ => id⟩
  case h_2 e hstage =>
    have hrewind : (if s.rb.start = s.rb.stop then s.rewind else s) = s := by
      split_ifs with hempty
      · exact rewind_eq h hempty
      · rfl
    rw [hrewind] at hstep
    obtain rfl := Option.some.inj hstep
    exact returns_tracks h _
  case h_3 hstage =>
    rw [Option.ite_none_right_eq_some] at hstep
    obtain ⟨hempty, hread⟩ := hstep
    rw [rewind_eq h hempty] at hread
    obtain ⟨q', htracks, hexact⟩ := readMore_tracks h (by nofun) hread
    exact ⟨q', htracks, fun _ => hexact⟩
  case h_4 hstage =>
    rw [Option.ite_none_left_eq_some] at hstep
    exact feed_tracks h hw hstep.2
  case h_6 hstage => exact feed_tracks h hw hstep
  case h_8 c done hstage =>
    obtain rfl := Option.some.inj hstep
    cases done with
    | true => exact returns_tracks h none
    | false =>
      obtain ⟨htracks, hexact⟩ := goOn_tracks h c
      exact ⟨q, htracks, fun _ => hexact⟩
  case h_10 hstage =>
    obtain ⟨q', htracks, hexact⟩ := readMore_tracks h (by nofun) hstep
    exact ⟨q', htracks, fun _ => hexact⟩
  case h_11 => cases hstep
  all_goals
    obtain rfl := Option.some.inj hstep
    exact returns_tracks h _

/-- **A run**, of any number of calls. -/
theorem exec_tracks {s₀ : Feeding} (h₀ : Tracks s₀ q) (hw : Along step Within s₀ ls)
    (h : exec step s₀ ls = some s) :
    ∃ q', Tracks s q' ∧ (Along step Spares s₀ ls → Exact s₀ q → Exact s q') := by
  induction ls generalizing s₀ q with
  | nil =>
    obtain rfl := Option.some.inj h
    exact ⟨q, h₀, fun _ => id⟩
  | cons l ls ih =>
    obtain ⟨s₁, hstep, hrun⟩ := exec_cons.1 h
    obtain ⟨q₁, h₁, hexact₁⟩ := step_tracks h₀ hw.1 hstep
    obtain ⟨q', htracks, hexact⟩ := ih h₁ (hw.2 s₁ hstep) hrun
    exact ⟨q', htracks, fun hs he => hexact (hs.2 s₁ hstep) (hexact₁ hs.1 he)⟩

/-- **The read buffer is a byte queue.** It starts empty, on an array of
any length up to the largest and with anything in it. Along every run, of
any number of calls and for any reads, closures and feeders that consume
within their windows, nothing panics, the indices stay in order, and the
window has one byte for each that was read and not consumed: those of the
connection, in order, unless a feeder wrote over bytes it did not
consume. `ensureWriteSpace` then fails exactly if the window fills the
largest array, and leaves space otherwise. -/
theorem readBuffer_queue {buf : Bytes} (hbuf : buf.length ≤ maxReadBufSize)
    (hw : Along step Within (begin buf) ls) (h : exec step (begin buf) ls = some s) :
    s.stage ≠ .panicked ∧
    0 ≤ s.rb.start ∧ s.rb.start ≤ s.rb.stop ∧ s.rb.stop ≤ s.rb.buf.length ∧
    s.rb.buf.length ≤ maxReadBufSize ∧
    ∃ q, s.rb.window = some q ∧ (q.length : ℤ) + s.consumed = s.read.length ∧
      (Along step Spares (begin buf) ls → q = s.read.drop s.consumed.toNat) ∧
      ∃ rb err, s.rb.ensureWriteSpace = some (rb, err) ∧
        (err.isSome = true ↔ q.length = maxReadBufSize) ∧
        (err = none → rb.window = some q ∧ rb.stop < rb.buf.length) := by
  have h₀ : Tracks (begin buf) [] := ⟨.empty hbuf, Int.le_refl 0, rfl, nofun⟩
  obtain ⟨q, htracks, hexact⟩ := exec_tracks h₀ hw h
  obtain ⟨hs, hle, hstop, -⟩ := htracks.holds.bounds
  refine ⟨htracks.sound, hs, hle, hstop, htracks.holds.fits, q, htracks.holds.window,
    htracks.count, fun hspares => hexact hspares rfl, ?_⟩
  obtain ⟨hfull, hens⟩ | ⟨hlt, rb', hens, hrb', hspace⟩ := htracks.holds.ensureWriteSpace
  · exact ⟨_, _, hens, iff_of_true rfl hfull, nofun⟩
  · exact ⟨_, _, hens, iff_of_false nofun hlt.ne, fun _ => ⟨hrb'.window, hspace⟩⟩

/-- A short array, and three reads: for one `compact` makes space, and for
one the array grows. -/
def threeReads : List Input :=
  let unlimited : Limits := ⟨none, 0⟩
  [.call, .read [1, 2, 3, 4] 4 none, .feed unlimited [9, 2, 3, 4] 1 false none, .recheck,
    .read [5] 1 none, .feed unlimited [2, 3, 4, 5] 0 false none, .recheck,
    .read [6, 7, 0, 0] 2 none]

/-- Where they lead. -/
def grown : Feeding where
  rb := ⟨[2, 3, 4, 5, 6, 7, 0, 0], 0, 6⟩
  stage := .top
  wireBytes := 7
  consumedBytes := 1
  read := [1, 2, 3, 4, 5, 6, 7]
  consumed := 1

/-- What is left is the rest of the wire. -/
theorem readBuffer_queue_grown :
    let buf : Bytes := [0, 0, 0, 0]
    buf.length ≤ maxReadBufSize ∧ Along step Within (begin buf) threeReads ∧
      Along step Spares (begin buf) threeReads ∧
      exec step (begin buf) threeReads = some grown ∧
      grown.rb.window = some (grown.read.drop grown.consumed.toNat) := by
  intro buf
  have hbuf : buf.length ≤ maxReadBufSize := by decide
  have hw : Along step Within (begin buf) threeReads := by decide
  have hspares : Along step Spares (begin buf) threeReads := by decide
  have hrun : exec step (begin buf) threeReads = some grown := by decide
  obtain ⟨-, -, -, -, -, q, hq, -, hexact, -⟩ := readBuffer_queue hbuf hw hrun
  exact ⟨hbuf, hw, hspares, hrun, hq.trans (congrArg some (hexact hspares))⟩

/-! ## The window of the pipeline -/

/-- **A read of the buffer is one of the pipeline.** -/
theorem readMore_pipeline {t : Pipeline} (x : Reading) (h : Holds s.rb t.window)
    (hwire : p.take n = t.wire.take n) (hn : n ≤ t.wire.length)
    (hstep : s.readMore next p n err = some s') :
    ∃ t', Conn.readMore t x n err = some t' ∧ Holds s'.rb t'.window := by
  obtain ⟨hfull, hens⟩ | ⟨hlt, rb, hens, hrb, hspace⟩ := h.ensureWriteSpace
  · simp only [readMore, hens, Option.some.injEq] at hstep
    subst hstep
    refine ⟨_, if_pos hfull.ge, h⟩
  · obtain ⟨hs, hle, hstop, hlen⟩ := hrb.bounds
    obtain ⟨space, hslice, hspaceLen⟩ := hrb.space
    simp only [readMore, hens, hslice, Option.ite_none_right_eq_some, Option.some.injEq] at hstep
    obtain ⟨⟨hplen, hnp⟩, rfl⟩ := hstep
    have hfits := hrb.fits
    have hheld := hrb.read (by omega) hnp
    rw [hwire] at hheld
    rw [Conn.readMore, if_neg (by omega), if_pos ⟨hn, by omega⟩]
    cases err with
    | none => exact ⟨_, rfl, hheld⟩
    | some e => exact ⟨_, rfl, hheld⟩

/-- **So is a `Feed` that consumes within its window**: what the decoder
leaves in the buffer is what the pipeline goes on with. -/
theorem feed_pipeline {N : Rapidyenc} {t : Pipeline} {x : Reading} {f : Fed}
    (h : Holds s.rb t.window)
    (hfeed : Reader.feed N.decodeIncremental x.outRef x.r x.out (feedWindow lim t.window) = some f)
    (h0 : 0 ≤ f.consumed) (hc : f.consumed ≤ (feedWindow lim t.window).length)
    (hmem : mem.drop f.consumed.toNat = f.rest)
    (hstep : s.feed lim mem f.consumed f.done f.err = some s') :
    Holds s'.rb (feedOnce N t x lim).window := by
  simp only [feed, h.window, Option.ite_none_right_eq_some, Option.some.injEq] at hstep
  obtain ⟨hlen, rfl⟩ := hstep
  have hheld := h.fed lim hlen h0 (by omega)
  rw [hmem] at hheld
  simp only [feedOnce, hfeed]
  cases f.err with
  | none => exact hheld
  | some e => exact hheld

end Feeding

end Conn

end NntpPool
