import NntpPool.Reader.Lines
import NntpPool.Reader.Chunks
/-!
# Reader — responses without a yEnc frame

A text reply is read line by line to exactly its end (`whole_textReply`).
Fed in chunks it comes to the same, unless a line that format detection
takes for the body of a UU part is complete before the last chunk: the
loop that is running skips the rest of the block, but the next call finds
the flag set and reads nothing. `textReply_chunks_iff` is that condition,
with `uuBodyEnd` the place where the line ends.
-/

namespace NntpPool

namespace Reader

/-! ## The status line -/

/-- The decoder behind a status line that announces a block. -/
def afterStatus (onMeta strict : Bool) (s : StatusLine) : Decoder :=
  { (fresh onMeta strict).toDecoder with message := s.text, statusCode := s.code }

theorem StatusLine.ne_dot (s : StatusLine) : s.text ≠ ascii "." := by
  intro h
  have := s.long
  rw [h] at this
  exact absurd this (by decide)

theorem StatusLine.code_ne_zero {s : StatusLine} (h : isMultiline s.code = true) : s.code ≠ 0 := by
  intro hz
  rw [hz] at h
  exact absurd h (by decide)

theorem ready_afterStatus (onMeta strict : Bool) (s : StatusLine) :
    Ready (afterStatus onMeta strict s) ∧ ¬ InBody (afterStatus onMeta strict s) :=
  ⟨(ready_fresh onMeta strict).of_state (not_inBody_fresh onMeta strict) rfl rfl nofun,
    fun h => nomatch h.1⟩

section Status

variable (N : Rapidyenc) (onMeta strict : Bool) (s : StatusLine)

/-- **The status line is read whole**, and ends the reply unless its code
announces a block. -/
theorem whole_status (t : Bytes) :
    whole N onMeta strict (s.text ++ crlf ++ t) =
      if isMultiline s.code then
        (scan N.decodeIncremental accepting (afterStatus onMeta strict s) [] 0 t).map
          (Decoded.shift (s.text.length + 2))
      else some ⟨{ afterStatus onMeta strict s with eof := true }, [], s.text.length + 2, t, none⟩ := by
  have hclear := (ready_fresh onMeta strict).clear (not_inBody_fresh onMeta strict)
  have hturn : lineTurn N.decodeIncremental accepting (fresh onMeta strict).toDecoder [] s.text t =
      if isMultiline s.code then .goOn (afterStatus onMeta strict s) [] (s.text.length + 2) t
      else .ret ⟨{ afterStatus onMeta strict s with eof := true }, [], s.text.length + 2, t, none⟩ := by
    have hstatus : (fresh onMeta strict).statusCode = 0 ∧ 3 ≤ s.text.length := ⟨rfl, s.long⟩
    have hformat : (fresh onMeta strict).format = .unknown := rfl
    simp only [lineTurn, if_neg s.ne_dot, if_pos hformat, if_pos hstatus, statusTurn, s.valid,
      Option.isSome_none, Bool.false_eq_true, if_false]
    rfl
  rw [whole_eq_scan, scan_of_cut N accepting hclear [] (cut_of_free t s.free), hturn]
  split_ifs
  · exact scan_shift _ _ _ _ _ _
  · rfl

/-- Until it is complete nothing is read. -/
theorem whole_of_cut_none {p : Bytes} (h : cut crlf p = none) :
    whole N onMeta strict p = some ⟨(fresh onMeta strict).toDecoder, [], 0, p, none⟩ := by
  rw [whole_eq_scan, scan_of_cut_none N accepting [] 0 h]

end Status

/-! ## Lines of text -/

section Notes

variable {r : Decoder}

@[simp] theorem detectFormat_statusCode (r : Decoder) (line : Bytes) :
    (detectFormat r line).statusCode = r.statusCode := by
  rcases detectFormat_cases r line with h | h | h | h | h <;> rw [h]

@[simp] theorem formatNote_statusCode (r : Decoder) (line : Bytes) :
    (formatNote r line).statusCode = r.statusCode := by
  unfold formatNote
  rcases r.format with _ | _ | _
  · rfl
  · exact congrArg Core.statusCode (core_processYencHeader r line)
  · rfl

@[simp] theorem noteLine_statusCode (r : Decoder) (line : Bytes) :
    (noteLine r line).statusCode = r.statusCode := by
  unfold noteLine
  split_ifs <;> simp

/-- Only a `=ybegin` line is taken for yEnc. -/
theorem detectFormat_ne_yenc {line : Bytes} (hr : r.format ≠ .yenc)
    (h : ¬ (ascii "=ybegin ").isPrefixOf line) : (detectFormat r line).format ≠ .yenc := by
  unfold detectFormat
  split_ifs <;> (try exact hr) <;> (try simp)
  split
  · split_ifs
    · simp
    · exact hr
  · exact hr

theorem noteLine_ne_yenc {line : Bytes} (hr : r.format ≠ .yenc)
    (h : ¬ (ascii "=ybegin ").isPrefixOf line) : (noteLine r line).format ≠ .yenc := by
  unfold noteLine
  split_ifs
  · rw [formatNote_format]
    exact detectFormat_ne_yenc hr h
  · rwa [formatNote_format]

/-- In the UU format a line leaves no note. -/
theorem noteLine_uu (hr : r.format = .uu) (line : Bytes) : noteLine r line = r := by
  simp [noteLine, formatNote, hr]

theorem foldl_noteLine_uu (hr : r.format = .uu) (ls : List Bytes) :
    ls.foldl noteLine r = r := by
  induction ls with
  | nil => rfl
  | cons l ls ih => rw [List.foldl_cons, noteLine_uu hr, ih]

/-- Outside a frame every line of text is quiet. -/
theorem quietLines_of_plain (ls : List Bytes) :
    ∀ {r : Decoder}, r.statusCode ≠ 0 → r.format ≠ .yenc → (∀ l ∈ ls, IsText l) →
      (∀ l ∈ ls, ¬ (ascii "=ybegin ").isPrefixOf l) →
      QuietLines r ls ∧ (ls.foldl noteLine r).format ≠ .yenc := by
  induction ls with
  | nil => intro r _ hf _ _; exact ⟨trivial, hf⟩
  | cons l ls ih =>
    intro r hs hf ht hp
    have hf' := noteLine_ne_yenc hf (hp l (by simp))
    have htext := ht l (by simp)
    obtain ⟨hq, hend⟩ := ih (r := noteLine r l) (by simpa using hs) hf'
      (fun l' h => ht l' (by simp [h])) (fun l' h => hp l' (by simp [h]))
    exact ⟨⟨⟨htext.1, htext.2, hs, fun hc => absurd hc hf'⟩, hq⟩, hend⟩

end Notes

/-! ## The line that starts a UU body -/

/-- Where the line ends that format detection takes for the body of a UU
part, counted from the first of the lines. -/
def uuBodyEnd (r : Decoder) : List Bytes → Option ℕ
  | [] => none
  | l :: ls =>
    if r.format ≠ .unknown then none
    else if Stuck (noteLine r l) then some (l.length + 2)
    else (uuBodyEnd (noteLine r l) ls).map (l.length + 2 + ·)

theorem uuBodyEnd_of_known {r : Decoder} (h : r.format ≠ .unknown) (ls : List Bytes) :
    uuBodyEnd r ls = none := by
  cases ls with
  | nil => rfl
  | cons l ls => simp [uuBodyEnd, h]

theorem joinLines_take_mono (ls : List Bytes) {i j : ℕ} (h : i ≤ j) :
    (joinLines (ls.take i)).length ≤ (joinLines (ls.take j)).length := by
  obtain ⟨k, rfl⟩ := Nat.exists_eq_add_of_le h
  rw [List.take_add, joinLines_append, List.length_append]
  omega

/-- It is the end of one of the lines. -/
theorem exists_of_uuBodyEnd (ls : List Bytes) :
    ∀ {r : Decoder} {e : ℕ}, uuBodyEnd r ls = some e →
      ∃ i < ls.length, e = (joinLines (ls.take (i + 1))).length := by
  induction ls with
  | nil => intro r e h; simp [uuBodyEnd] at h
  | cons l ls ih =>
    intro r e h
    simp only [uuBodyEnd] at h
    split_ifs at h with hf hs
    · simp only [Option.some.injEq] at h
      exact ⟨0, by simp, by simp [← h]⟩
    · obtain ⟨e', he', rfl⟩ := Option.map_eq_some_iff.mp h
      obtain ⟨i, hi, rfl⟩ := ih he'
      exact ⟨i + 1, by simpa using hi, by simp; omega⟩

/-- A format once known stays. -/
theorem foldl_noteLine_of_known (ls : List Bytes) :
    ∀ {r : Decoder}, r.format ≠ .unknown → (ls.foldl noteLine r).format = r.format := by
  induction ls with
  | nil => intro r _; rfl
  | cons l ls ih =>
    intro r h
    have hl : (noteLine r l).format = r.format := by
      rw [noteLine, if_neg h, formatNote_format]
    rw [List.foldl_cons, ih (by rwa [hl]), hl]

/-- **The decoder is in a UU body behind the lines that reach past that
place.** -/
theorem stuck_take_iff (ls : List Bytes) :
    ∀ {r : Decoder} (j : ℕ), r.format = .unknown →
      (Stuck ((ls.take j).foldl noteLine r) ↔
        ∃ e, uuBodyEnd r ls = some e ∧ e ≤ (joinLines (ls.take j)).length) := by
  induction ls with
  | nil => intro r j hr; simp [Stuck, uuBodyEnd, hr]
  | cons l ls ih =>
    intro r j hr
    cases j with
    | zero =>
      refine ⟨fun h => by simp [Stuck, hr] at h, fun ⟨e, he, hle⟩ => ?_⟩
      obtain ⟨i, -, rfl⟩ := exists_of_uuBodyEnd _ he
      simp at hle
    | succ j =>
      simp only [List.take_succ_cons, List.foldl_cons, uuBodyEnd, hr, ne_eq, not_true_eq_false,
        if_false, joinLines_cons, List.length_append, crlf_length]
      split_ifs with hs
      · rw [foldl_noteLine_uu hs.2]
        exact ⟨fun _ => ⟨_, rfl, by omega⟩, fun _ => hs⟩
      · by_cases hu : (noteLine r l).format = .unknown
        · rw [ih j hu]
          constructor
          · rintro ⟨e, he, hle⟩
            exact ⟨l.length + 2 + e, by rw [he]; rfl, by omega⟩
          · rintro ⟨e, he, hle⟩
            obtain ⟨e', he', rfl⟩ := Option.map_eq_some_iff.mp he
            exact ⟨e', he', by omega⟩
        · -- another format, or UU without the flag: the block stays as it is
          rw [uuBodyEnd_of_known hu]
          refine ⟨fun h => ?_, fun ⟨e, he, _⟩ => by simp at he⟩
          have hf := foldl_noteLine_of_known (ls.take j) hu
          rw [h.2] at hf
          rw [foldl_noteLine_uu hf.symm] at h
          exact absurd h hs

/-- The same of a front part that ends within a line. -/
theorem stuck_within_iff {r : Decoder} {ls : List Bytes} {j n : ℕ} (hr : r.format = .unknown)
    (hlo : (joinLines (ls.take j)).length ≤ n) (hhi : n < (joinLines (ls.take (j + 1))).length) :
    Stuck ((ls.take j).foldl noteLine r) ↔ ∃ e, uuBodyEnd r ls = some e ∧ e ≤ n := by
  rw [stuck_take_iff ls j hr]
  refine exists_congr fun e => and_congr_right fun he => ⟨fun h => le_trans h hlo, fun h => ?_⟩
  obtain ⟨i, -, rfl⟩ := exists_of_uuBodyEnd ls he
  rcases Nat.lt_or_ge i j with hij | hij
  · exact joinLines_take_mono ls hij
  · have := joinLines_take_mono ls (Nat.add_le_add_right hij 1)
    omega

/-! ## Text replies -/

section TextReply

variable (N : Rapidyenc) (onMeta strict : Bool)

/-- The `.` line ends the response. -/
theorem scan_terminator {r : Decoder} (hc : Clear r) (out t : Bytes) :
    scan N.decodeIncremental accepting r out 0 (terminator ++ t) =
      some ⟨{ r with eof := true }, out, 3, t, none⟩ := by
  rw [terminator, scan_of_cut N accepting hc out (cut_of_free t (by decide))]
  rfl

/-- The line loop over a block of quiet lines, to exactly its end. -/
theorem scan_block {r : Decoder} {ls : List Bytes} (h : Ready r) (hb : ¬ InBody r)
    (hq : QuietLines r ls) (out t : Bytes) :
    scan N.decodeIncremental accepting r out 0 (joinLines ls ++ (terminator ++ t)) =
      some ⟨{ ls.foldl noteLine r with eof := true }, out, (joinLines ls).length + 3, t, none⟩ := by
  obtain ⟨h', hb'⟩ := foldl_noteLine_ready ls h hb hq
  rw [scan_joinLines N ls out _ h hb hq, scan_terminator N (h'.clear hb')]
  rfl

/-- Of a block of quiet lines a proper front part leaves the loop behind
its complete lines. -/
theorem scan_block_front {r : Decoder} {ls : List Bytes} {p : Bytes} (h : Ready r)
    (hb : ¬ InBody r) (hq : QuietLines r ls) (out : Bytes) (hp : p <+: joinLines ls ++ terminator)
    (hne : p ≠ joinLines ls ++ terminator) :
    ∃ j q, (joinLines (ls.take j)).length ≤ p.length ∧
      (j < ls.length → p.length < (joinLines (ls.take (j + 1))).length) ∧
      scan N.decodeIncremental accepting r out 0 p =
        some ⟨(ls.take j).foldl noteLine r, out, (joinLines (ls.take j)).length, q, none⟩ := by
  rcases scan_front N ls out terminator h hb hq hp with ⟨j, q, hj, rfl, hlt, hscan⟩ | ⟨q, rfl, hq'⟩
  · exact ⟨j, q, by simp, fun _ => hlt, hscan⟩
  · have hterm : terminator = ascii "." ++ crlf ++ [] := rfl
    rw [hterm] at hq'
    rcases prefix_line (by decide) hq' with ⟨hcut, -⟩ | ⟨q', rfl, hq''⟩
    · refine ⟨ls.length, q, by simp, fun hc => absurd hc (by omega), ?_⟩
      rw [scan_joinLines N ls out q h hb hq, scan_of_cut_none N accepting out 0 hcut,
        List.take_length]
      simp [Decoded.shift]
    · rw [List.prefix_nil.mp hq''] at hne
      exact absurd rfl hne

/-- It is in no yEnc body, and in a UU body exactly behind the line that
starts one. -/
theorem stuck_of_block_front {r : Decoder} {ls : List Bytes} {p out : Bytes} {d : Decoded}
    (h : Ready r) (hb : ¬ InBody r) (hr : r.format = .unknown) (hq : QuietLines r ls)
    (hp : p <+: joinLines ls ++ terminator) (hne : p ≠ joinLines ls ++ terminator)
    (hd : scan N.decodeIncremental accepting r out 0 p = some d) :
    ¬ InBody d.r ∧ (Stuck d.r ↔ ∃ e, uuBodyEnd r ls = some e ∧ e ≤ p.length) := by
  obtain ⟨j, q, hlo, hhi, hscan⟩ := scan_block_front N h hb hq out hp hne
  rw [hscan, Option.some.injEq] at hd
  subst hd
  refine ⟨(foldl_noteLine_ready _ h hb (quietLines_take hq j)).2, ?_⟩
  by_cases hj : j < ls.length
  · exact stuck_within_iff hr hlo (hhi hj)
  · rw [stuck_take_iff ls j hr]
    refine exists_congr fun e => and_congr_right fun he => ⟨fun hle => le_trans hle hlo, fun _ => ?_⟩
    obtain ⟨i, hi, rfl⟩ := exists_of_uuBodyEnd _ he
    exact joinLines_take_mono _ (by omega)

variable (R : TextReply)

/-- The lines of a text reply are quiet. -/
theorem TextReply.quiet (hm : isMultiline R.status.code = true) :
    QuietLines (afterStatus onMeta strict R.status) R.lines :=
  (quietLines_of_plain R.lines (StatusLine.code_ne_zero hm) (by simp [afterStatus, fresh]) R.text
    R.plain).1

/-- **A text reply is read to exactly its end**, whatever follows. -/
theorem whole_textReply (t : Bytes) :
    ∃ d, whole N onMeta strict (R.bytes ++ t) = some d ∧ d.err = none ∧ d.r.eof = true ∧
      d.read = R.bytes.length ∧ d.rest = t := by
  obtain ⟨h, hb⟩ := ready_afterStatus onMeta strict R.status
  unfold TextReply.bytes
  split_ifs with hm
  · rw [List.append_assoc _ _ t, List.append_assoc (joinLines _), whole_status, if_pos hm,
      scan_block N h hb (R.quiet onMeta strict hm)]
    refine ⟨_, rfl, rfl, rfl, ?_, rfl⟩
    simp only [Decoded.shift, List.length_append, crlf_length]
    have : terminator.length = 3 := rfl
    omega
  · rw [List.append_nil, whole_status, if_neg hm]
    exact ⟨_, rfl, rfl, rfl, by simp, rfl⟩

/-- **What a proper front part of a text reply leaves**: never a yEnc
body, and a UU body exactly behind the line that starts one. -/
theorem whole_textReply_front {p : Bytes} {d : Decoded} (hp : p <+: R.bytes) (hne : p ≠ R.bytes)
    (hd : whole N onMeta strict p = some d) :
    ¬ InBody d.r ∧ (Stuck d.r ↔
      ∃ e, uuBodyEnd (afterStatus onMeta strict R.status) R.lines = some e ∧
        R.status.text.length + 2 + e ≤ p.length) := by
  obtain ⟨h, hb⟩ := ready_afterStatus onMeta strict R.status
  unfold TextReply.bytes at hp hne
  rcases prefix_line R.status.free hp with ⟨hcut, hlt⟩ | ⟨q, rfl, hq⟩
  · rw [whole_of_cut_none N onMeta strict hcut, Option.some.injEq] at hd
    subst hd
    refine ⟨not_inBody_fresh onMeta strict, ⟨fun hs => (nomatch hs.1), fun ⟨e, _, hle⟩ => ?_⟩⟩
    omega
  · split_ifs at hq hne with hm
    · have hqne : q ≠ joinLines R.lines ++ terminator := fun hc => hne (by rw [hc])
      rw [whole_status, if_pos hm] at hd
      obtain ⟨d', hd', rfl⟩ := Option.map_eq_some_iff.mp hd
      obtain ⟨hnb, hstuck⟩ :=
        stuck_of_block_front N h hb rfl (R.quiet onMeta strict hm) hq hqne hd'
      refine ⟨hnb, hstuck.trans ?_⟩
      simp only [List.length_append, crlf_length, Nat.add_le_add_iff_left]
    · rw [List.prefix_nil.mp hq] at hne
      exact absurd rfl hne

theorem TextReply.bytes_ne_nil : R.bytes ≠ [] := by
  simp [TextReply.bytes, crlf]

/-- The end was reported, with what `g` has read. -/
structure SameText (f g : Fed) : Prop where
  done : f.done = true
  consumed : f.r.bytesConsumed = g.r.bytesConsumed
  statusCode : f.r.statusCode = g.r.statusCode
  message : f.r.message = g.r.message
  lines : f.r.lines = g.r.lines
  format : f.r.format = g.r.format

/-- **Chunk independence of the line path.** A text reply in chunks comes
to what it comes to in one call if and only if no line that is taken for
the body of a UU part is complete before the last chunk. -/
theorem textReply_chunks_iff {chunks : List Bytes} (hflat : chunks.flatten = R.bytes)
    (hne : ∀ c ∈ chunks, c ≠ []) :
    (∃ f g, feedChunks N.decodeIncremental onMeta strict chunks = some f ∧
        feedChunks N.decodeIncremental onMeta strict [R.bytes] = some g ∧ SameText f g) ↔
      ∀ e, uuBodyEnd (afterStatus onMeta strict R.status) R.lines = some e →
        chunks.dropLast.flatten.length < R.status.text.length + 2 + e := by
  have hspec := feedChunks_spec N onMeta strict
    ((uuBodyEnd (afterStatus onMeta strict R.status) R.lines).map
      (R.status.text.length + 2 + ·))
    (by
      obtain ⟨d, hd, herr, heof, -, hrest⟩ := whole_textReply N onMeta strict R []
      exact ⟨d, by simpa using hd, herr, heof, hrest⟩)
    (fun p c b d hp hc hd hs => by
      have hpre : p <+: R.bytes := ⟨c ++ b, by rw [← List.append_assoc, hp]⟩
      have hpne : p ≠ R.bytes := by
        intro hpc
        rw [hpc, List.append_assoc, List.append_right_eq_self] at hp
        exact hc (List.append_eq_nil_iff.mp hp).1
      exact (whole_textReply_front N onMeta strict R hpre hpne hd).1 hs.1)
    (fun p d hp hpne hd => by
      rw [(whole_textReply_front N onMeta strict R hp hpne hd).2]
      simp)
    hflat hne R.bytes_ne_nil
  have hplace : (∀ e, (uuBodyEnd (afterStatus onMeta strict R.status) R.lines).map
        (R.status.text.length + 2 + ·) = some e → chunks.dropLast.flatten.length < e) ↔
      ∀ e, uuBodyEnd (afterStatus onMeta strict R.status) R.lines = some e →
        chunks.dropLast.flatten.length < R.status.text.length + 2 + e := by
    simp
  rw [hplace] at hspec
  constructor
  · rintro ⟨f, g, hf, -, hsame⟩
    by_contra hcond
    obtain ⟨f', hf', hdone⟩ := hspec.2 hcond
    rw [hf, Option.some.injEq] at hf'
    rw [← hf', hsame.done] at hdone
    exact absurd hdone (by decide)
  · intro hcond
    obtain ⟨f, g, hf, hg, hdone, hr, -, -⟩ := hspec.1 hcond
    exact ⟨f, g, hf, hg, hdone, by rw [hr], by rw [hr], by rw [hr], by rw [hr], by rw [hr]⟩

end TextReply

/-- The status line before a body. -/
def bodyFollows : StatusLine := ⟨ascii "222 0 <a>", by decide, by decide, by decide⟩

/-- A reply with a line that reads as UU data, `#12`. -/
def uuReply : TextReply where
  status := bodyFollows
  lines := [ascii "#12"]
  single := by decide
  text := by decide
  plain := by decide

/-- The line path in two chunks: the second one holds a whole line of text
and the terminator. -/
theorem textReply_chunks_iff_at_uuReply :
    (∃ f g, feedChunks Rapidyenc.scalar.decodeIncremental false false
          [ascii "222 0 <a>\r\n#1", ascii "2\r\n.\r\n"] = some f ∧
        feedChunks Rapidyenc.scalar.decodeIncremental false false [uuReply.bytes] = some g ∧
        SameText f g) ↔
      ∀ e, uuBodyEnd (afterStatus false false uuReply.status) uuReply.lines = some e →
        ([ascii "222 0 <a>\r\n#1", ascii "2\r\n.\r\n"] : List Bytes).dropLast.flatten.length <
          uuReply.status.text.length + 2 + e :=
  textReply_chunks_iff Rapidyenc.scalar false false uuReply (by decide) (by decide)

/-- **Cut behind that line, the end is never reported.** -/
theorem uuReply_not_chunk_independent :
    [ascii "222 0 <a>\r\n#12\r\n", terminator].flatten = uuReply.bytes ∧
      ¬ ∃ f g, feedChunks Rapidyenc.scalar.decodeIncremental false false
            [ascii "222 0 <a>\r\n#12\r\n", terminator] = some f ∧
          feedChunks Rapidyenc.scalar.decodeIncremental false false [uuReply.bytes] = some g ∧
          SameText f g := by
  refine ⟨by decide, ?_⟩
  rintro ⟨f, g, hf, -, hsame⟩
  have hdone : (feedChunks Rapidyenc.scalar.decodeIncremental false false
      [ascii "222 0 <a>\r\n#12\r\n", terminator]).map Fed.done = some false := by decide
  rw [hf, Option.map_some, hsame.done] at hdone
  exact absurd hdone (by decide)

end Reader

end NntpPool
