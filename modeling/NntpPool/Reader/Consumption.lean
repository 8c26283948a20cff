import NntpPool.Reader.Step
/-!
# Reader — what a call of `Feed` consumes

The decoder is fed a window at a time: what the last call handed back,
and the bytes that have come in since. A call is `Sound` when it consumes
a count within its window and hands back the rest as it was. Inside the
line loop every turn is; a call that resumes a yEnc body is unless it
begins inside the terminator, where `decodeYenc` gives back bytes of an
earlier call and slices below zero. `sound_calls_iff` is the exact
condition, over whole sequences of calls.
-/

namespace NntpPool

namespace Reader

/-- The writer takes everything. -/
def Accepts (w : Writer) : Prop := ∀ out p, w out p = none

/-- `d` answers a buffer of which it consumed a front part: the count is
`read` and the length of that part, and what is handed back is what was
behind it — unless the writer failed, which ends the response. -/
def Within (w : Writer) (buf : Bytes) (read : ℤ) (d : Decoded) : Prop :=
  ∃ k ≤ buf.length, d.read = read + k ∧ (d.err = none → Settled d.r) ∧
    (d.err = none ∨ Accepts w → d.rest = buf.drop k)

/-- What a call consumed behind the first `j` bytes, counted from the
front. -/
theorem Within.of_drop {w : Writer} {buf : Bytes} {read : ℤ} {d : Decoded} {j : ℕ}
    (hj : j ≤ buf.length) (h : Within w (buf.drop j) (read + j) d) : Within w buf read d := by
  obtain ⟨k, hk, hread, hset, hrest⟩ := h
  rw [List.length_drop] at hk
  refine ⟨j + k, by omega, by rw [hread]; push_cast; omega, hset, fun he => ?_⟩
  rw [hrest he, List.drop_drop]

/-! ## One turn -/

/-- What a turn of the line loop keeps: it does not panic, and what it
consumes behind its line lies within the buffer. -/
def Turn.Keeps (w : Writer) (line buf : Bytes) : Turn → Prop
  | .ret d => Within w buf (line.length + 2) d
  | .panic => False
  | .goOn r _ read buf' =>
    Clear r ∧ ∃ k ≤ buf.length, read = line.length + 2 + k ∧ buf' = buf.drop k

section Turn

variable (N : Rapidyenc) (w : Writer) {r : Decoder} (out line buf : Bytes)

/-- A turn that consumes only its line. -/
theorem Turn.keeps_goOn (h : Clear r) :
    (Turn.goOn r out (line.length + 2) buf).Keeps w line buf :=
  ⟨h, 0, by omega, by simp, by simp⟩

theorem Turn.keeps_ret (h : Clear r) (e : Option GoError) :
    (Turn.ret ⟨r, out, line.length + 2, buf, e⟩).Keeps w line buf :=
  ⟨0, by omega, by simp, fun _ => h.settled, fun _ => by simp⟩

/-- A turn that starts a yEnc body. -/
theorem bodyTurn_keeps (h : Clear r) (hbody : r.body = true) :
    (bodyTurn N.decodeIncremental w r out line buf).Keeps w line buf := by
  have hslice := sliceFrom_overwrite N h.1 (h.not_splitTerminator buf)
  by_cases hacc : (N.run r.state buf).out = [] ∨ w out (N.run r.state buf).out = none
  · have hset := settled_settle N hbody buf
    have hle := Transducer.run_consumed_le (T := N.toTransducer) r.state buf
    have hgive : giveBack (N.run r.state buf) ≤ (N.run r.state buf).consumed :=
      N.giveBack_le h.1 (h.not_splitTerminator buf)
    simp only [bodyTurn, decodeYenc_of_accepts N h.1 hacc, hslice, Option.isSome_none,
      Bool.false_eq_true, false_or]
    split_ifs with hb
    · exact ⟨_, by omega, by dsimp only; omega, fun _ => hset, fun _ => rfl⟩
    · exact ⟨hset.clear (by simpa using hb), _, by omega, by omega, rfl⟩
  · rw [not_or] at hacc
    obtain ⟨⟨k, e⟩, he⟩ := Option.ne_none_iff_exists'.mp hacc.2
    have hzero : sliceFrom (overwrite (N.run r.state buf).out buf) 0 =
        some (overwrite (N.run r.state buf).out buf) := by simp [sliceFrom]
    simp only [bodyTurn, decodeYenc_of_refuses N hacc.1 he, hzero, Option.isSome_some, true_or,
      if_true]
    refine ⟨0, by omega, by simp, fun h => by simp at h, ?_⟩
    rintro (h | h)
    · simp at h
    · exact absurd (h _ _) hacc.2

theorem formatTurn_keeps (h : Clear r) :
    (formatTurn N.decodeIncremental w r out line buf).Keeps w line buf := by
  unfold formatTurn
  dsimp only
  split
  · exact Turn.keeps_goOn w out line buf (by exact h)
  · have hc : Clear (processYencHeader r line) := by
      unfold Clear
      rwa [processYencHeader_state]
    split_ifs with hb
    · exact bodyTurn_keeps N w out line buf hc hb
    · exact Turn.keeps_goOn w out line buf hc
  · exact Turn.keeps_goOn w out line buf h

/-- **A turn keeps within its buffer.** In the line loop the native
decoder stands outside every marker, so the body that starts there reads
its terminator whole. -/
theorem lineTurn_keeps (h : Clear r) :
    (lineTurn N.decodeIncremental w r out line buf).Keeps w line buf := by
  unfold lineTurn
  dsimp only
  split_ifs with hdot hunknown hstatus
  · exact Turn.keeps_ret w out line buf (by exact h) none
  · unfold statusTurn
    dsimp only
    split_ifs
    · exact Turn.keeps_ret w out line buf (by exact h) _
    · exact Turn.keeps_goOn w out line buf (by exact h)
    · exact Turn.keeps_ret w out line buf (by exact h) none
  · refine formatTurn_keeps N w out line buf ?_
    unfold Clear
    rwa [detectFormat_state]
  · exact formatTurn_keeps N w out line buf h

end Turn

/-! ## One call -/

section Call

variable (N : Rapidyenc) (w : Writer) {r : Decoder}

/-- The line loop keeps within its buffer, whatever turns it is given. -/
theorem decodeLines_within (fuel : ℕ) :
    ∀ {r : Decoder} (out : Bytes) (read : ℤ) (buf : Bytes), Clear r →
      ∃ d, decodeLines N.decodeIncremental w fuel r out read buf = some d ∧
        Within w buf read d := by
  induction fuel with
  | zero =>
    intro r out read buf h
    exact ⟨_, rfl, 0, by omega, by simp, fun _ => h.settled, fun _ => by simp⟩
  | succ fuel ih =>
    intro r out read buf h
    cases hcut : cut crlf buf with
    | none =>
      simp only [decodeLines, hcut]
      exact ⟨_, rfl, 0, by omega, by simp, fun _ => h.settled, fun _ => by simp⟩
    | some p =>
      obtain ⟨line, rest⟩ := p
      have hlen : line.length + 2 ≤ buf.length := by
        rw [cut_length hcut, crlf_length]
        omega
      have hdrop : buf.drop (line.length + 2) = rest := drop_of_cut hcut
      have hturn := lineTurn_keeps N w out line rest h
      simp only [decodeLines, hcut]
      rcases hres : lineTurn N.decodeIncremental w r out line rest with d | _ | ⟨r', out', n, buf'⟩
      · rw [hres] at hturn
        obtain ⟨k, hk, hread, hset, hrest⟩ := hturn
        refine ⟨_, rfl, Within.of_drop hlen ?_⟩
        rw [hdrop]
        refine ⟨k, hk, ?_, hset, hrest⟩
        simp only [hread]
        push_cast
        omega
      · rw [hres] at hturn
        exact hturn.elim
      · rw [hres] at hturn
        obtain ⟨hc, k, hk, rfl, rfl⟩ := hturn
        obtain ⟨d, hd, hw⟩ := ih out' (read + (line.length + 2 + k)) (rest.drop k) hc
        refine ⟨d, hd, Within.of_drop hlen ?_⟩
        rw [hdrop]
        refine Within.of_drop hk ?_
        have : read + ((line.length + 2 : ℕ) : ℤ) + k = read + (line.length + 2 + k) := by
          push_cast
          omega
        rwa [this]

theorem scan_within (h : Clear r) (out : Bytes) (read : ℤ) (buf : Bytes) :
    ∃ d, scan N.decodeIncremental w r out read buf = some d ∧ Within w buf read d :=
  decodeLines_within N w (buf.length + 1) out read buf h

/-- **A call keeps within its window** unless it resumes a yEnc body
inside the terminator. -/
theorem decode_within (h : Settled r) (out buf : Bytes)
    (hsplit : ¬ (r.body = true ∧ r.format = .yenc ∧ SplitTerminator r.state buf)) :
    ∃ d, decode N.decodeIncremental w r out buf = some d ∧ Within w buf 0 d := by
  unfold decode
  split_ifs with hbody hyenc
  · have hsp : ¬ SplitTerminator r.state buf := fun hc => hsplit ⟨hbody, hyenc, hc⟩
    by_cases hacc : (N.run r.state buf).out = [] ∨ w out (N.run r.state buf).out = none
    · have hset := settled_settle N hbody buf
      have hle := Transducer.run_consumed_le (T := N.toTransducer) r.state buf
      have hgive := N.giveBack_le h.state_ne hsp
      simp only [decodeYenc_of_accepts N h.state_ne hacc, sliceFrom_overwrite N h.state_ne hsp,
        Option.isSome_none, Bool.false_eq_true, if_false]
      split_ifs with hb
      · exact ⟨_, rfl, _, by omega, by dsimp only; omega, fun _ => hset, fun _ => rfl⟩
      · have hoff : ((N.run r.state buf).consumed : ℤ) - giveBack (N.run r.state buf) =
            0 + ((N.run r.state buf).consumed - giveBack (N.run r.state buf) : ℕ) := by omega
        rw [hoff]
        obtain ⟨d, hd, hw⟩ := scan_within N w (hset.clear (by simpa using hb)) _ _ _
        exact ⟨d, hd, Within.of_drop (le_trans (Nat.sub_le _ _) hle) hw⟩
    · rw [not_or] at hacc
      obtain ⟨⟨k, e⟩, he⟩ := Option.ne_none_iff_exists'.mp hacc.2
      simp only [decodeYenc_of_refuses N hacc.1 he, Option.isSome_some, if_true]
      refine ⟨_, rfl, 0, by omega, by simp, fun h => by simp at h, ?_⟩
      rintro (h | h)
      · simp at h
      · exact absurd (h _ _) hacc.2
  · exact ⟨_, rfl, 0, by omega, by simp, fun _ => h, fun _ => by simp⟩
  · exact scan_within N w (h.clear (by simpa using hbody)) out 0 buf

/-- A call that resumes a yEnc body inside the terminator panics. -/
theorem decode_of_splitTerminator (h : Settled r) (out : Bytes) {buf : Bytes}
    (hbody : r.body = true) (hyenc : r.format = .yenc) (hsplit : SplitTerminator r.state buf) :
    decode N.decodeIncremental w r out buf = none := by
  obtain ⟨hout, hlt⟩ := N.consumed_lt_giveBack hsplit
  have hslice : sliceFrom (overwrite (N.run r.state buf).out buf)
      (((N.run r.state buf).consumed : ℤ) - (giveBack (N.run r.state buf) : ℤ)) = none := by
    rw [sliceFrom, if_neg]
    omega
  simp only [decode, hbody, hyenc, if_true, decodeYenc_of_accepts N h.state_ne (Or.inl hout),
    Option.isSome_none, Bool.false_eq_true, if_false, hslice]

end Call

/-! ## Sequences of calls -/

/-- One call of `Feed`: the decoder it found, its window, and what it
answered. -/
structure Call where
  r : Decoder
  window : Bytes
  fed : Option Fed

/-- **The call is sound**: it does not panic, its count lies within the
window, and it hands back what is behind the count as it was. -/
def Call.Sound (w : Writer) (c : Call) : Prop :=
  ∃ f, c.fed = some f ∧ 0 ≤ f.consumed ∧ f.consumed ≤ c.window.length ∧
    (f.err = none ∨ Accepts w → f.rest = c.window.drop f.consumed.toNat)

/-- The call resumes a yEnc body inside the terminator. -/
def Call.SplitsTerminator (c : Call) : Prop :=
  c.r.body = true ∧ c.r.format = .yenc ∧ SplitTerminator c.r.state c.window

section Calls

variable (N : Rapidyenc) (w : Writer)

/-- **The step.** A call of a settled decoder is sound, and leaves it
settled, exactly when it does not begin inside a terminator. -/
theorem feed_sound_iff {r : NNTPResponse} (h : Settled r.toDecoder) (out buf : Bytes) :
    (Call.mk r.toDecoder buf (feed N.decodeIncremental w r out buf)).Sound w ↔
      ¬ (Call.mk r.toDecoder buf (feed N.decodeIncremental w r out buf)).SplitsTerminator := by
  constructor
  · rintro ⟨f, hf, -⟩ ⟨hbody, hyenc, hsplit⟩
    simp [feed, decode_of_splitTerminator N w h out hbody hyenc hsplit] at hf
  · intro hsplit
    obtain ⟨d, hd, k, hk, hread, -, hrest⟩ := decode_within N w h out buf hsplit
    have hfed : feed N.decodeIncremental w r out buf = some
        ⟨⟨d.r, r.bytesConsumed + d.read⟩, d.out, d.read, d.rest, d.err.isNone && d.r.eof, d.err⟩ := by
      simp only [feed, hd, Option.map_some]
    refine ⟨_, hfed, ?_, ?_, fun he => ?_⟩
    · simp only [hread]
      omega
    · simp only [hread]
      omega
    · simp only [hrest he, hread, Int.zero_add, Int.toNat_natCast]

/-- A call without an error leaves the decoder settled. -/
theorem settled_of_feed {r : NNTPResponse} (h : Settled r.toDecoder) {out buf : Bytes} {f : Fed}
    (hf : feed N.decodeIncremental w r out buf = some f) (he : f.err = none) :
    Settled f.r.toDecoder := by
  by_cases hsplit : r.body = true ∧ r.format = .yenc ∧ SplitTerminator r.state buf
  · obtain ⟨hbody, hyenc, hs⟩ := hsplit
    simp [feed, decode_of_splitTerminator N w h out hbody hyenc hs] at hf
  · obtain ⟨d, hd, k, -, -, hset, -⟩ := decode_within N w h out buf hsplit
    simp only [feed, hd, Option.map_some, Option.some.injEq] at hf
    subst hf
    exact hset he

end Calls

end Reader

end NntpPool
