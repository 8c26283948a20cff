import NntpPool.Reader.Native
/-!
# Reader — one step of the decoder

What `decodeYenc` and a turn of the line loop do, stated once. With a
writer that takes its output, `decodeYenc` is the native run followed by
`settle`, and what it hands back is the buffer it was given from there on
(`sliceFrom_overwrite`). `Settled` is what the calls keep, and `core`
what a header line leaves alone.
-/

namespace NntpPool

namespace Reader

@[simp] theorem crc32Update_nil (c : UInt32) : crc32Update c [] = c := by
  simp [crc32Update]

/-- Checksums compose. -/
theorem crc32Update_append (c : UInt32) (p q : Bytes) :
    crc32Update c (p ++ q) = crc32Update (crc32Update c p) q := by
  simp [crc32Update]

/-- The buffer after its front was overwritten with `p`. -/
def overwrite (p buf : Bytes) : Bytes := p ++ buf.drop p.length

theorem overwrite_length {p buf : Bytes} (h : p.length ≤ buf.length) :
    (overwrite p buf).length = buf.length := by
  simp only [overwrite, List.length_append, List.length_drop]
  omega

/-- Behind what was overwritten nothing changed. -/
theorem overwrite_drop {p buf : Bytes} {k : ℕ} (h : p.length ≤ k) :
    (overwrite p buf).drop k = buf.drop k := by
  obtain ⟨j, rfl⟩ := Nat.exists_eq_add_of_le h
  rw [overwrite, List.drop_append, List.drop_of_length_le (by omega), List.nil_append,
    Nat.add_sub_cancel_left, List.drop_drop]

/-- The decoder with a native run's output counted in. -/
def absorb (r : Decoder) (o : Outcome State UInt8 End) : Decoder :=
  { r with
    state := o.state
    crc := crc32Update r.crc o.out
    bytesDecoded := r.bytesDecoded + o.out.length }

/-- The decoder after a native run and what follows it. -/
def settle (r : Decoder) (o : Outcome State UInt8 End) : Decoder :=
  leaveBody (absorb r o) (o.stopped.getD .none)

section Yenc

variable (N : Rapidyenc) {w : Writer} {r : Decoder} {out buf : Bytes}

/-- **`decodeYenc` is the native run, then the rewind**, for a writer that
takes the output. -/
theorem decodeYenc_of_accepts (hs : r.state ≠ .crlfeq)
    (h : (N.run r.state buf).out = [] ∨ w out (N.run r.state buf).out = none) :
    decodeYenc N.decodeIncremental w r out buf =
      ⟨settle r (N.run r.state buf), out ++ (N.run r.state buf).out,
        ((N.run r.state buf).consumed : ℤ) - (giveBack (N.run r.state buf) : ℤ),
        overwrite (N.run r.state buf).out buf, none⟩ := by
  by_cases hbuf : buf = []
  · subst hbuf
    simp [decodeYenc, settle, absorb, leaveBody, overwrite, giveBack, givenBack, hs]
  · by_cases hout : (N.run r.state buf).out = []
    · have habs : absorb r (N.run r.state buf) = { r with state := (N.run r.state buf).state } := by
        simp [absorb, hout]
      simp only [decodeYenc, if_neg hbuf, Rapidyenc.decodeIncremental, Option.isSome_none,
        Bool.false_eq_true, false_and, if_false, hout, if_true, List.append_nil, settle, habs,
        overwrite, giveBack]
    · have hw : w out (N.run r.state buf).out = none := h.resolve_left hout
      simp only [decodeYenc, if_neg hbuf, Rapidyenc.decodeIncremental, Option.isSome_none,
        Bool.false_eq_true, false_and, if_false, hout, hw, settle, overwrite, giveBack]
      rfl

/-- A write the writer refuses ends the call, with nothing consumed. -/
theorem decodeYenc_of_refuses {k : ℕ} {e : GoError} (hout : (N.run r.state buf).out ≠ [])
    (h : w out (N.run r.state buf).out = some (k, e)) :
    decodeYenc N.decodeIncremental w r out buf =
      ⟨absorb r (N.run r.state buf), out ++ (N.run r.state buf).out.take k, 0,
        overwrite (N.run r.state buf).out buf, some e⟩ := by
  have hbuf : buf ≠ [] := by
    rintro rfl
    exact hout rfl
  simp only [decodeYenc, if_neg hbuf, Rapidyenc.decodeIncremental, Option.isSome_none,
    Bool.false_eq_true, false_and, if_false, hout, h, overwrite]
  rfl

theorem run_out_le_length (s : State) (buf : Bytes) : (N.run s buf).out.length ≤ buf.length :=
  le_trans (Transducer.run_out_le_consumed s buf) (Transducer.run_consumed_le s buf)

/-- **What `decodeYenc` hands back is what it was given, from the count it
returns on.** -/
theorem sliceFrom_overwrite (hs : r.state ≠ .crlfeq) (hsplit : ¬ SplitTerminator r.state buf) :
    sliceFrom (overwrite (N.run r.state buf).out buf)
        (((N.run r.state buf).consumed : ℤ) - (giveBack (N.run r.state buf) : ℤ)) =
      some (buf.drop ((N.run r.state buf).consumed - giveBack (N.run r.state buf))) := by
  by_cases hbuf : buf = []
  · subst hbuf
    simp [sliceFrom, overwrite, giveBack, givenBack, hs]
  · have hle := N.out_add_giveBack_le hbuf hs hsplit
    have hcons := Transducer.run_consumed_le (T := N.toTransducer) r.state buf
    have hlen := overwrite_length (run_out_le_length N r.state buf)
    rw [sliceFrom, if_pos ⟨by omega, by rw [hlen]; omega⟩]
    have hnat : (((N.run r.state buf).consumed : ℤ) - (giveBack (N.run r.state buf) : ℤ)).toNat =
        (N.run r.state buf).consumed - giveBack (N.run r.state buf) := by omega
    rw [hnat, overwrite_drop (by omega)]

end Yenc

/-! ## The state between calls -/

/-- The native decoder stands outside every marker. -/
def Clear (r : Decoder) : Prop :=
  r.state ≠ .crlfeq ∧ r.state ≠ .crlfdt ∧ r.state ≠ .crlfdtcr

/-- **What holds of the decoder between calls**: `\r\n=` is never carried
over, and outside a body no marker is. -/
structure Settled (r : Decoder) : Prop where
  state_ne : r.state ≠ .crlfeq
  clear : r.body = false → Clear r

theorem Clear.not_splitTerminator {r : Decoder} (h : Clear r) (buf : Bytes) :
    ¬ SplitTerminator r.state buf := by
  rintro (⟨hs, -⟩ | ⟨hs, -⟩)
  · exact h.2.1 hs
  · exact h.2.2 hs

theorem Clear.settled {r : Decoder} (h : Clear r) : Settled r := ⟨h.1, fun _ => h⟩

/-- A native run and its rewind leave the decoder settled. -/
theorem settled_settle (N : Rapidyenc) {r : Decoder} (hbody : r.body = true) (buf : Bytes) :
    Settled (settle r (N.run r.state buf)) := by
  unfold settle
  cases hstop : (N.run r.state buf).stopped with
  | none =>
    simp only [Option.getD_none, leaveBody]
    split
    · exact Clear.settled ⟨by simp, by simp, by simp⟩
    · rename_i hne
      refine ⟨hne, fun hb => ?_⟩
      exact absurd (hbody.symm.trans hb) (by decide)
  | some e =>
    have hclear := N.state_of_stopped hstop
    obtain ⟨_, _, _, _, _, hst, _⟩ := Transducer.exists_of_stopped hstop
    cases e with
    | none => exact absurd hst (N.stop_none _ _)
    | control => exact Clear.settled hclear
    | article => exact Clear.settled hclear

/-! ## What a header line leaves alone -/

@[simp] theorem detectFormat_state (r : Decoder) (line : Bytes) :
    (detectFormat r line).state = r.state := by
  unfold detectFormat
  split_ifs <;> try rfl
  split
  · split_ifs <;> rfl
  · rfl

/-- The fields of a decoder that a yEnc header line does not speak of. -/
structure Core where
  state : State
  format : Format
  statusCode : ℤ
  message : Bytes
  lines : List Bytes
  eof : Bool
  crc : UInt32
  bytesDecoded : ℕ

/-- The decoder without its header fields. -/
def core (r : Decoder) : Core :=
  ⟨r.state, r.format, r.statusCode, r.message, r.lines, r.eof, r.crc, r.bytesDecoded⟩

@[simp] theorem core_noteErr (r : Decoder) (e : Option HeaderErr) :
    core (noteErr r e) = core r := by
  cases e <;> rfl

@[simp] theorem core_callMeta (r : Decoder) : core (callMeta r) = core r := by
  unfold callMeta
  split_ifs <;> rfl

@[simp] theorem core_ybeginSize (r : Decoder) (line : Bytes) :
    core (ybeginSize r line) = core r := by
  rw [ybeginSize, core_noteErr]
  rfl

@[simp] theorem core_ybeginName (r : Decoder) (line : Bytes) :
    core (ybeginName r line) = core r := by
  rw [ybeginName, core_noteErr]
  rfl

@[simp] theorem core_ybeginPart (r : Decoder) (line : Bytes) :
    core (ybeginPart r line) = core r := by
  rcases h : extractInt line (ascii " part=") with ⟨v, _ | e⟩
  · simp only [ybeginPart, h]
    rfl
  · simp only [ybeginPart, h, core_callMeta]
    split_ifs <;> rfl

@[simp] theorem core_ybeginTotal (r : Decoder) (line : Bytes) :
    core (ybeginTotal r line) = core r := by
  rcases h : extractInt line (ascii " total=") with ⟨v, _ | e⟩
  · simp only [ybeginTotal, h]
    rfl
  · simp only [ybeginTotal, h]
    split_ifs <;> rfl

@[simp] theorem core_ypartBegin (r : Decoder) (line : Bytes) :
    core (ypartBegin r line) = core r := by
  unfold ypartBegin
  dsimp only
  split_ifs <;> rfl

@[simp] theorem core_ypartEnd (r : Decoder) (line : Bytes) :
    core (ypartEnd r line) = core r := by
  unfold ypartEnd
  dsimp only
  split_ifs <;> rfl

@[simp] theorem core_yendPcrc32 (r : Decoder) (line : Bytes) :
    core (yendPcrc32 r line) = core r := by
  rcases h : extractCRC line (ascii " pcrc32=") with ⟨v, _ | e⟩ <;>
  · simp only [yendPcrc32, h]
    split_ifs <;> rfl

@[simp] theorem core_yendCrc32 (r : Decoder) (line : Bytes) :
    core (yendCrc32 r line) = core r := by
  rcases h : extractCRC line (ascii " crc32=") with ⟨v, _ | e⟩ <;>
  · simp only [yendCrc32, h]
    split_ifs <;> rfl

@[simp] theorem core_chooseCRC (r : Decoder) : core (chooseCRC r) = core r := by
  unfold chooseCRC
  split_ifs <;> rfl

@[simp] theorem core_yendSize (r : Decoder) (line : Bytes) :
    core (yendSize r line) = core r := by
  rw [yendSize, core_noteErr]
  rfl

/-- **A header line touches nothing but the header fields.** -/
theorem core_processYencHeader (r : Decoder) (line : Bytes) :
    core (processYencHeader r line) = core r := by
  unfold processYencHeader
  split_ifs
  · simp only [processYbegin, core_ybeginTotal, core_ybeginPart, core_ybeginName, core_ybeginSize]
    rfl
  · simp only [processYpart, core_callMeta, core_ypartEnd, core_ypartBegin]
    rfl
  · simp only [processYend, core_yendSize, core_chooseCRC, core_yendCrc32, core_yendPcrc32]
    rfl
  · rfl

@[simp] theorem processYencHeader_state (r : Decoder) (line : Bytes) :
    (processYencHeader r line).state = r.state :=
  congrArg Core.state (core_processYencHeader r line)

end Reader

end NntpPool
