import NntpPool.Reader.Consumption
/-!
# Reader — resuming a response

A response arrives in pieces. `drive` is the loop that is running when a
call ends: the native decoder inside a yEnc body, else the line loop.
What it makes of a buffer it makes of its front and then of what was
handed back followed by the rest (`drive_extends`), so the place of the
cut does not show — unless it splits a terminator. `decode` is `drive`
but for a UU body, which no later call goes on with.
-/

namespace NntpPool

namespace Reader

/-! ## Answers and turns -/

/-- The answer with `n` more bytes read before it. -/
def Decoded.shift (n : ℤ) (d : Decoded) : Decoded := { d with read := n + d.read }

/-- The answer with `b` behind what it hands back. -/
def Decoded.before (d : Decoded) (b : Bytes) : Decoded := { d with rest := d.rest ++ b }

/-- The turn with `n` more bytes read before it. -/
def Turn.shift (n : ℤ) : Turn → Turn
  | .ret d => .ret (d.shift n)
  | .panic => .panic
  | .goOn r out m buf => .goOn r out (n + m) buf

/-- What the line loop comes to behind a turn. -/
def Turn.after (dec : DecodeFn) (w : Writer) : Turn → Option Decoded
  | .ret d => some d
  | .panic => none
  | .goOn r out n buf => scan dec w r out n buf

/-- **The loop that is running**, whatever a new call would do. -/
def drive (dec : DecodeFn) (w : Writer) (r : Decoder) (out buf : Bytes) : Option Decoded :=
  if r.format = .uu then scan dec w r out 0 buf else decode dec w r out buf

@[simp] theorem Decoded.shift_zero (d : Decoded) : d.shift 0 = d := by
  simp [Decoded.shift]

theorem Decoded.shift_shift (n m : ℤ) (d : Decoded) : (d.shift m).shift n = d.shift (n + m) := by
  simp only [Decoded.shift, Int.add_assoc]

theorem Turn.shift_shift (n m : ℤ) (t : Turn) : (t.shift m).shift n = t.shift (n + m) := by
  cases t <;> simp [Turn.shift, Decoded.shift, Int.add_assoc]

/-! ## The line loop, one turn at a time -/

/-- The count a loop starts from only adds to its answer. -/
theorem decodeLines_shift (dec : DecodeFn) (w : Writer) (n : ℤ) (fuel : ℕ) :
    ∀ (r : Decoder) (out : Bytes) (m : ℤ) (buf : Bytes),
      decodeLines dec w fuel r out (n + m) buf =
        (decodeLines dec w fuel r out m buf).map (Decoded.shift n) := by
  induction fuel with
  | zero => intro r out m buf; rfl
  | succ fuel ih =>
    intro r out m buf
    simp only [decodeLines]
    rcases cut crlf buf with _ | ⟨line, rest⟩
    · rfl
    · dsimp only
      rcases lineTurn dec w r out line rest with d | _ | ⟨r', out', k, buf'⟩
      · simp [Decoded.shift, Int.add_assoc]
      · rfl
      · dsimp only
        rw [← ih, Int.add_assoc]

theorem scan_shift (dec : DecodeFn) (w : Writer) (r : Decoder) (out : Bytes) (n : ℤ)
    (buf : Bytes) : scan dec w r out n buf = (scan dec w r out 0 buf).map (Decoded.shift n) := by
  rw [scan, scan, ← decodeLines_shift, Int.add_zero]

theorem Turn.after_shift (dec : DecodeFn) (w : Writer) (n : ℤ) (t : Turn) :
    (t.shift n).after dec w = (t.after dec w).map (Decoded.shift n) := by
  rcases t with d | _ | ⟨r, out, m, buf⟩
  · rfl
  · rfl
  · simp only [Turn.shift, Turn.after]
    exact decodeLines_shift dec w n _ r out m buf

section Loop

variable (N : Rapidyenc) (w : Writer) {r : Decoder}

/-- More turns than the buffer has bytes change nothing. -/
theorem decodeLines_fuel (fuel : ℕ) :
    ∀ {r : Decoder} (fuel' : ℕ) (out : Bytes) (read : ℤ) (buf : Bytes), Clear r →
      buf.length < fuel → buf.length < fuel' →
      decodeLines N.decodeIncremental w fuel r out read buf =
        decodeLines N.decodeIncremental w fuel' r out read buf := by
  induction fuel with
  | zero => intro r fuel' out read buf _ h; omega
  | succ fuel ih =>
    intro r fuel' out read buf hc h h'
    obtain ⟨fuel', rfl⟩ : ∃ k, fuel' = k + 1 := ⟨fuel' - 1, by omega⟩
    simp only [decodeLines]
    rcases hcut : cut crlf buf with _ | ⟨line, rest⟩
    · rfl
    · have hlen := cut_length hcut
      rw [crlf_length] at hlen
      have hturn := lineTurn_keeps N w out line rest hc
      dsimp only
      rcases hres : lineTurn N.decodeIncremental w r out line rest with d | _ | ⟨r', out', k, buf'⟩
      · rfl
      · rfl
      · rw [hres] at hturn
        obtain ⟨hc', j, hj, -, rfl⟩ := hturn
        exact ih fuel' out' _ _ hc' (by simp; omega) (by simp; omega)

/-- Without a line the loop waits for more. -/
theorem scan_of_cut_none (out : Bytes) (read : ℤ) {buf : Bytes} (h : cut crlf buf = none) :
    scan N.decodeIncremental w r out read buf = some ⟨r, out, read, buf, none⟩ := by
  simp only [scan, decodeLines, h]

/-- **The line loop is its first turn, then itself.** -/
theorem scan_of_cut (hc : Clear r) (out : Bytes) {line rest buf : Bytes}
    (h : cut crlf buf = some (line, rest)) :
    scan N.decodeIncremental w r out 0 buf =
      (lineTurn N.decodeIncremental w r out line rest).after N.decodeIncremental w := by
  have hlen := cut_length h
  rw [crlf_length] at hlen
  have hturn := lineTurn_keeps N w out line rest hc
  simp only [scan, decodeLines, h]
  rcases hres : lineTurn N.decodeIncremental w r out line rest with d | _ | ⟨r', out', k, buf'⟩
  · simp [Turn.after]
  · rfl
  · rw [hres] at hturn
    obtain ⟨hc', j, hj, -, rfl⟩ := hturn
    dsimp only
    rw [Int.zero_add]
    exact decodeLines_fuel N w _ _ out' _ _ hc' (by simp; omega) (by omega)

end Loop

/-! ## The native decoder, resumed -/

section Body

variable (N : Rapidyenc) {r : Decoder}

/-- The state a call leaves behind a run that goes on. -/
def resumeState (s : State) : State := if s = .crlfeq then .crlf else s

/-- **The rewind does not show.** A run that is cut, and resumed from the
state the rewind leaves with the byte it gave back, is the run over the
whole. -/
theorem run_resume {s : State} {a : Bytes} (b : Bytes) (hs : s ≠ .crlfeq)
    (h : (N.run s a).stopped = none) :
    N.run s (a ++ b) =
      let k := (N.run s a).consumed - giveBack (N.run s a)
      let o := N.run (resumeState (N.run s a).state) (a.drop k ++ b)
      ⟨(N.run s a).out ++ o.out, k + o.consumed, o.state, o.stopped⟩ := by
  have hcons := Transducer.run_consumed_of_running h
  rw [Transducer.run_append_of_running b h]
  by_cases heq : (N.run s a).state = .crlfeq
  · -- the run ends behind `=`, which is read again from the start of the line
    have hne : a ≠ [] := by
      rintro rfl
      exact hs heq
    obtain ⟨init, c, rfl, hrun, hlast, -⟩ := N.exists_last_step hne h
    obtain ⟨-, rfl⟩ := N.enter_crlfeq _ _ (by rw [← hlast, heq])
    have hstop : N.stop .crlf equals = none := N.stop_eq_none (by decide) (by decide)
    have hemit : N.emit .crlf equals = none := N.emit_marker _ _ (Or.inl N.next_equals)
    have hgive : giveBack (N.run s (init ++ [equals])) = 1 := by
      simp [giveBack, givenBack, h, heq]
    have hk : (N.run s (init ++ [equals])).consumed - giveBack (N.run s (init ++ [equals])) =
        init.length := by
      rw [hcons, hgive, List.length_append, List.length_singleton, Nat.add_sub_cancel]
    have hrest : N.run .crlf (equals :: b) = ⟨(N.run .crlfeq b).out, (N.run .crlfeq b).consumed + 1,
        (N.run .crlfeq b).state, (N.run .crlfeq b).stopped⟩ := by
      rw [Transducer.run_cons_of_running hstop, hemit, N.next_equals]
      rfl
    simp only [hk, List.drop_left, heq, resumeState, if_true, List.singleton_append, hrest,
      List.length_append, List.length_singleton]
    congr 1
    omega
  · have hgive : giveBack (N.run s a) = 0 := by simp [giveBack, givenBack, h, heq]
    simp only [hgive, hcons, Nat.sub_zero, List.drop_length, List.nil_append, resumeState, heq,
      if_false]

/-- The decoder behind a run that goes on: the output counted, the state
as the rewind leaves it. -/
theorem settle_of_running {o : Outcome State UInt8 End} (h : o.stopped = none) :
    settle r o = { absorb r o with state := resumeState o.state } := by
  simp only [settle, h, Option.getD_none, leaveBody, absorb, resumeState]
  split_ifs <;> simp_all

/-- What two runs leave is what the run over both leaves. -/
theorem settle_settle {o o' : Outcome State UInt8 End} (h : o.stopped = none) (k : ℕ) :
    settle (settle r o) o' = settle r ⟨o.out ++ o'.out, k, o'.state, o'.stopped⟩ := by
  rw [settle_of_running h]
  simp only [settle, absorb, crc32Update_append, List.length_append, Nat.add_assoc]

/-- A body goes on exactly as long as the native decoder has not
stopped. -/
theorem settle_body (s : State) (buf : Bytes) :
    (settle r (N.run s buf)).body = (r.body && (N.run s buf).stopped.isNone) := by
  cases hstop : (N.run s buf).stopped with
  | none =>
    rw [settle_of_running hstop]
    simp [absorb]
  | some e =>
    obtain ⟨_, _, _, _, _, hst, _⟩ := Transducer.exists_of_stopped hstop
    cases e with
    | none => exact absurd hst (N.stop_none _ _)
    | control => simp [settle, hstop, leaveBody]
    | article => simp [settle, hstop, leaveBody]

/-- A native run is no end of the response and changes no format. -/
theorem settle_format (o : Outcome State UInt8 End) : (settle r o).format = r.format := by
  unfold settle leaveBody absorb
  split <;> (try split_ifs) <;> rfl

theorem settle_eof (o : Outcome State UInt8 End) : (settle r o).eof = r.eof := by
  unfold settle leaveBody absorb
  split <;> (try split_ifs) <;> rfl

/-- What a yEnc body makes of a buffer, up to the line loop. -/
def bodyGo (r : Decoder) (out buf : Bytes) : Turn :=
  let o := N.run r.state buf
  let k := o.consumed - giveBack o
  if o.stopped.isSome then .goOn (settle r o) (out ++ o.out) k (buf.drop k)
  else .ret ⟨settle r o, out ++ o.out, k, buf.drop k, none⟩

/-- `decodeYenc`, with a writer that takes everything. -/
theorem bodyTurn_eq (hs : r.state ≠ .crlfeq) {buf : Bytes}
    (hsplit : ¬ SplitTerminator r.state buf) (hbody : r.body = true) (out line : Bytes) :
    bodyTurn N.decodeIncremental accepting r out line buf =
      (bodyGo N r out buf).shift (line.length + 2) := by
  have hgive := N.giveBack_le hs hsplit
  have hb := settle_body N (r := r) r.state buf
  have hy : decodeYenc N.decodeIncremental accepting r out buf = _ :=
    decodeYenc_of_accepts N hs (Or.inr rfl)
  have hk : ((N.run r.state buf).consumed : ℤ) - giveBack (N.run r.state buf) =
      ((N.run r.state buf).consumed - giveBack (N.run r.state buf) : ℕ) := by omega
  have hslice := sliceFrom_overwrite N hs hsplit
  rw [hk] at hslice
  simp only [bodyTurn, hy, hslice,
    Option.isSome_none, Bool.false_eq_true, false_or, hb, hbody, Bool.true_and, hk, bodyGo]
  cases (N.run r.state buf).stopped <;> rfl

/-- A call that resumes a yEnc body. -/
theorem decode_of_body (hs : r.state ≠ .crlfeq) {buf : Bytes}
    (hsplit : ¬ SplitTerminator r.state buf) (hbody : r.body = true) (hyenc : r.format = .yenc)
    (out : Bytes) :
    decode N.decodeIncremental accepting r out buf =
      (bodyGo N r out buf).after N.decodeIncremental accepting := by
  have hgive := N.giveBack_le hs hsplit
  have hb := settle_body N (r := r) r.state buf
  have hy : decodeYenc N.decodeIncremental accepting r out buf = _ :=
    decodeYenc_of_accepts N hs (Or.inr rfl)
  have hk : ((N.run r.state buf).consumed : ℤ) - giveBack (N.run r.state buf) =
      ((N.run r.state buf).consumed - giveBack (N.run r.state buf) : ℕ) := by omega
  have hslice := sliceFrom_overwrite N hs hsplit
  rw [hk] at hslice
  simp only [decode, hyenc, hy, hslice, Option.isSome_none, Bool.false_eq_true, if_false, if_true,
    hb, hbody, Bool.true_and, hk, bodyGo]
  cases (N.run r.state buf).stopped <;> rfl

/-- Past a stop the rest of the buffer is the line loop's. -/
theorem bodyGo_append_of_stopped {a : Bytes} (b : Bytes) {out : Bytes} {e : End}
    (h : (N.run r.state a).stopped = some e) :
    bodyGo N r out (a ++ b) =
      let k := (N.run r.state a).consumed - giveBack (N.run r.state a)
      .goOn (settle r (N.run r.state a)) (out ++ (N.run r.state a).out) k (a.drop k ++ b) := by
  have hle := Transducer.run_consumed_le (T := N.toTransducer) r.state a
  simp only [bodyGo, Transducer.run_append_of_stopped b h, h, Option.isSome_some, if_true]
  rw [List.drop_append_of_le_length (by omega)]

/-- **A body is resumed where it was cut.** -/
theorem bodyGo_append_of_running {a : Bytes} (b : Bytes) {out : Bytes} (hs : r.state ≠ .crlfeq)
    (h : (N.run r.state a).stopped = none) :
    let k := (N.run r.state a).consumed - giveBack (N.run r.state a)
    let r' := settle r (N.run r.state a)
    ¬ SplitTerminator r'.state (a.drop k ++ b) →
    bodyGo N r out (a ++ b) =
      (bodyGo N r' (out ++ (N.run r.state a).out) (a.drop k ++ b)).shift k := by
  intro k r' hsplit
  have hstate : r'.state = resumeState (N.run r.state a).state := by
    rw [show r' = _ from settle_of_running h]
  have hne : r'.state ≠ .crlfeq := by
    rw [hstate, resumeState]
    split_ifs with hc
    · simp
    · exact hc
  have hgive := N.giveBack_le hne hsplit
  have hle : k ≤ a.length :=
    le_trans (Nat.sub_le _ _) (Transducer.run_consumed_le (T := N.toTransducer) r.state a)
  have hres := run_resume N b hs h
  have hset : settle r (N.run r.state (a ++ b)) = settle r' (N.run r'.state (a.drop k ++ b)) := by
    rw [hres, show r' = settle r (N.run r.state a) from rfl, settle_settle h]
    simp only [← hstate]
    rfl
  have hcons : (N.run r.state (a ++ b)).consumed - giveBack (N.run r.state (a ++ b)) =
      k + ((N.run r'.state (a.drop k ++ b)).consumed -
        giveBack (N.run r'.state (a.drop k ++ b))) := by
    have hg : giveBack (N.run r.state (a ++ b)) = giveBack (N.run r'.state (a.drop k ++ b)) := by
      rw [hres, hstate]
      rfl
    have hc : (N.run r.state (a ++ b)).consumed =
        k + (N.run r'.state (a.drop k ++ b)).consumed := by
      rw [hres, hstate]
    omega
  have hdrop : ∀ j, (a ++ b).drop (k + j) = (a.drop k ++ b).drop j := by
    intro j
    rw [← List.drop_drop, List.drop_append_of_le_length hle]
  have hout : (N.run r.state (a ++ b)).out =
      (N.run r.state a).out ++ (N.run r'.state (a.drop k ++ b)).out := by
    rw [hres, hstate]
  have hstop : (N.run r.state (a ++ b)).stopped =
      (N.run r'.state (a.drop k ++ b)).stopped := by
    rw [hres, hstate]
  simp only [bodyGo, hset, hcons, hdrop, hout, hstop, List.append_assoc]
  cases (N.run r'.state (a.drop k ++ b)).stopped <;> simp [Turn.shift, Decoded.shift]

end Body

end Reader

end NntpPool
