import NntpPool.Reader.Frame
/-!
# Reader — responses with a yEnc frame

The text before the frame decides whether the frame is read: when it has
been taken for UU data, or the code announces no article, all of the
block is skipped or kept as text (`Idle`). Otherwise the header lines
lead into the body (`Enters`), the native decoder reads the data, and the
lines from `=yend` on are text again. Either way the response is read to
exactly its end (`whole_yencReply`), and `yencReply_chunks_iff` says when
the place of the cuts does not show.
-/

namespace NntpPool

namespace Reader

@[simp] theorem noteLine_state (r : Decoder) (line : Bytes) :
    (noteLine r line).state = r.state := by
  have hnote : ∀ r : Decoder, (formatNote r line).state = r.state := by
    intro r
    unfold formatNote
    rcases r.format with _ | _ | _
    · rfl
    · exact processYencHeader_state r line
    · rfl
  unfold noteLine
  split_ifs
  · rw [hnote, detectFormat_state]
  · exact hnote r

theorem foldl_noteLine_state (ls : List Bytes) :
    ∀ {r : Decoder}, (ls.foldl noteLine r).state = r.state := by
  induction ls with
  | nil => intro r; rfl
  | cons l ls ih => intro r; rw [List.foldl_cons, ih, noteLine_state]

theorem foldl_noteLine_statusCode (ls : List Bytes) :
    ∀ {r : Decoder}, (ls.foldl noteLine r).statusCode = r.statusCode := by
  induction ls with
  | nil => intro r; rfl
  | cons l ls ih => intro r; rw [List.foldl_cons, ih, noteLine_statusCode]

/-- There is such a line exactly when the decoder is in a UU body behind
all of them. -/
theorem uuBodyEnd_eq_none_iff {r : Decoder} (hr : r.format = .unknown) (ls : List Bytes) :
    uuBodyEnd r ls = none ↔ ¬ Stuck (ls.foldl noteLine r) := by
  have h := stuck_take_iff ls ls.length hr
  rw [List.take_length] at h
  rw [h, Option.eq_none_iff_forall_not_mem]
  constructor
  · rintro hnone ⟨e, he, -⟩
    exact hnone e he
  · intro hno e he
    refine hno ⟨e, he, ?_⟩
    obtain ⟨i, hi, rfl⟩ := exists_of_uuBodyEnd ls he
    have := joinLines_take_mono ls (i := i + 1) (j := ls.length) hi
    rwa [List.take_length] at this

/-- Such a line among more lines. -/
theorem uuBodyEnd_append (a b : List Bytes) :
    ∀ {r : Decoder}, uuBodyEnd (a.foldl noteLine r) b = none →
      uuBodyEnd r (a ++ b) = uuBodyEnd r a := by
  induction a with
  | nil => intro r h; exact h
  | cons l a ih =>
    intro r h
    simp only [List.cons_append, uuBodyEnd, ih h]

/-! ## Blocks in which no frame is read -/

/-- The block is skipped as UU data, or kept as text. -/
def Idle (r : Decoder) : Prop :=
  r.format = .uu ∨
    (r.format = .unknown ∧ r.statusCode ≠ nntpBody ∧ r.statusCode ≠ nntpArtiicle)

theorem Idle.noteLine {r : Decoder} (h : Idle r) (line : Bytes) :
    Idle (noteLine r line) ∧ (Stuck (noteLine r line) ↔ Stuck r) := by
  rcases h with hu | ⟨hf, hb, ha⟩
  · rw [noteLine_uu hu]
    exact ⟨Or.inl hu, Iff.rfl⟩
  · have hd : detectFormat r line = r := by
      unfold detectFormat
      rw [if_pos ⟨hb, ha⟩]
    have hn : Reader.noteLine r line = { r with lines := r.lines ++ [line] } := by
      simp [Reader.noteLine, formatNote, hf, hd]
    rw [hn]
    exact ⟨Or.inr ⟨hf, hb, ha⟩, Iff.rfl⟩

/-- Every line of text is quiet there, and none starts a UU body. -/
theorem quietLines_of_idle (ls : List Bytes) :
    ∀ {r : Decoder}, r.statusCode ≠ 0 → Idle r → (∀ l ∈ ls, IsText l) →
      QuietLines r ls ∧ Idle (ls.foldl noteLine r) ∧
        (Stuck (ls.foldl noteLine r) ↔ Stuck r) := by
  induction ls with
  | nil => intro r _ h _; exact ⟨trivial, h, Iff.rfl⟩
  | cons l ls ih =>
    intro r hs h ht
    obtain ⟨hidle, hstuck⟩ := h.noteLine l
    obtain ⟨hq, hend, hs'⟩ := ih (r := noteLine r l) (by simpa using hs) hidle
      fun l' hl' => ht l' (by simp [hl'])
    have htext := ht l (by simp)
    refine ⟨⟨⟨htext.1, htext.2, hs, fun hc => ?_⟩, hq⟩, hend, hs'.trans hstuck⟩
    rcases hidle with hu | ⟨hf, -⟩
    · simp [hu] at hc
    · simp [hf] at hc

/-! ## The frame -/

/-- **How the header lines lead into the body**: all but the last are
quiet, and the last starts it. -/
structure Enters (r : Decoder) (quiet : List Bytes) (last : Bytes) (start : Decoder) : Prop where
  isQuiet : QuietLines r quiet
  free : cut crlf last = none
  turn : ∀ (dec : DecodeFn) (w : Writer) (out buf : Bytes),
    lineTurn dec w (quiet.foldl noteLine r) out last buf = bodyTurn dec w start out last buf
  ready : Ready start
  inBody : InBody start
  state : start.state = .crlf
  statusCode : start.statusCode = r.statusCode
  notStuck : ¬ Stuck (quiet.foldl noteLine r)
  metaOnce : MetaOnce r → MetaOnce start

theorem head_of_header {h line : Bytes} (hh : ascii "=y" <+: h) (hl : h.isPrefixOf line) :
    line ≠ ascii "." := by
  rintro rfl
  have hpre := hh.trans (List.isPrefixOf_iff_prefix.mp hl)
  exact absurd (List.isPrefixOf_iff_prefix.mpr hpre) (by decide)

section Frame

variable {r : Decoder} (F : Frame)

theorem Frame.ybegin_ne_nil : F.ybegin ≠ [] := by
  intro h
  have := F.ybegin_head
  rw [h] at this
  exact absurd this (by decide)

/-- In an article whose format is not yet known, `=ybegin` is detected. -/
theorem detectFormat_ybegin (hcode : r.statusCode = nntpBody ∨ r.statusCode = nntpArtiicle) :
    detectFormat r F.ybegin = { r with format := .yenc } := by
  unfold detectFormat
  rw [if_neg, if_neg F.ybegin_ne_nil, if_pos F.ybegin_head]
  rintro ⟨hb, ha⟩
  rcases hcode with h | h
  · exact hb h
  · exact ha h

/-- The decoder behind the `=ybegin` line. -/
def afterYbegin (r : Decoder) : Decoder := processYencHeader { r with format := .yenc } F.ybegin

theorem afterYbegin_body (hb : r.body = false) :
    (afterYbegin F r).body = !(multipart F.ybegin) := by
  rw [afterYbegin, processYencHeader, if_pos F.ybegin_head, processYbegin_body, hb, Bool.false_or,
    multipart]
  cases (extractInt (F.ybegin.drop (ascii "=ybegin").length) (ascii " part=")).2 <;> rfl

/-- The turn of the header line that starts the body. -/
theorem lineTurn_of_body {line : Bytes} (hdot : line ≠ ascii ".") (hf : r.format = .yenc)
    (hb : (processYencHeader r line).body = true) (dec : DecodeFn) (w : Writer) (out buf : Bytes) :
    lineTurn dec w r out line buf = bodyTurn dec w (processYencHeader r line) out line buf := by
  have hu : r.format ≠ .unknown := by
    rw [hf]
    simp
  rw [lineTurn, if_neg hdot, if_neg hu]
  simp only [formatTurn, hf, hb, if_true]

/-- **The header lines of a frame lead into its body.** -/
theorem Frame.enters (h : Ready r) (hf : r.format = .unknown) (hs : r.state = .crlf)
    (hstatus : r.statusCode ≠ 0)
    (hcode : r.statusCode = nntpBody ∨ r.statusCode = nntpArtiicle) :
    ∃ quiet last start, F.headers = quiet ++ [last] ∧ Enters r quiet last start := by
  have hb : r.body = false := by
    rw [← Bool.not_eq_true]
    exact fun hb => h.known hb hf
  obtain ⟨hr', hb'⟩ := h.detectFormat hf F.ybegin
  rw [detectFormat_ybegin F hcode] at hr' hb'
  obtain ⟨hready, -⟩ := hr'.processYencHeader hb' rfl F.ybegin
  have hbody := afterYbegin_body F hb
  have hformat : (afterYbegin F r).format = .yenc :=
    congrArg Core.format (core_processYencHeader _ _)
  have hstate : (afterYbegin F r).state = .crlf := (processYencHeader_state _ _).trans hs
  have hsc : (afterYbegin F r).statusCode = r.statusCode :=
    congrArg Core.statusCode (core_processYencHeader _ _)
  have hdot : F.ybegin ≠ ascii "." := head_of_header (by decide) F.ybegin_head
  rcases hpart : F.ypart with _ | l
  · -- one part: the body starts behind `=ybegin`
    have hmulti : multipart F.ybegin = false := by rw [← F.ypart_iff, hpart]; rfl
    rw [hmulti] at hbody
    refine ⟨[], F.ybegin, afterYbegin F r, by simp [Frame.headers, hpart],
      ⟨trivial, F.ybegin_free, ?_, hready, ⟨hbody, hformat⟩, hstate, hsc,
        fun hc => absurd (hf.symm.trans hc.2) (by decide),
        fun hm => MetaOnce.processYencHeader (by exact hm) _⟩⟩
    intro dec w out buf
    have hst : ¬ (r.statusCode = 0 ∧ 3 ≤ F.ybegin.length) := fun hc => hstatus hc.1
    have hbt : (processYencHeader { r with format := .yenc } F.ybegin).body = true := hbody
    simp only [List.foldl_nil, lineTurn, if_neg hdot, if_pos hf, if_neg hst,
      detectFormat_ybegin F hcode, formatTurn, hbt, if_true]
    rfl
  · -- multi-part: `=ybegin` is only noted, and `=ypart` starts the body
    have hmulti : multipart F.ybegin = true := by rw [← F.ypart_iff, hpart]; rfl
    rw [hmulti] at hbody
    have hnote : noteLine r F.ybegin = afterYbegin F r := by
      simp [noteLine, hf, detectFormat_ybegin F hcode, formatNote, afterYbegin]
    have hl : l ∈ F.ypart := by simp [hpart]
    have hhead := F.ypart_head l hl
    have hdot' : l ≠ ascii "." := head_of_header (by decide) hhead
    have hnot : ¬ (ascii "=ybegin ").isPrefixOf l := by
      intro hc
      have h1 := List.isPrefixOf_iff_prefix.mp hc
      have h2 := List.isPrefixOf_iff_prefix.mp hhead
      have h3 := List.prefix_of_prefix_length_le h2 h1 (by decide)
      exact absurd (List.isPrefixOf_iff_prefix.mpr h3) (by decide)
    have hb2 : (processYencHeader (afterYbegin F r) l).body = true := by
      rw [processYencHeader, if_neg hnot, if_pos hhead]
      exact processYpart_body _ _
    have hnb : ¬ InBody (afterYbegin F r) := fun hc => by simp [InBody, hbody] at hc
    obtain ⟨hready', -⟩ := hready.processYencHeader hnb hformat l
    refine ⟨[F.ybegin], l, processYencHeader (afterYbegin F r) l, by simp [Frame.headers, hpart],
      ⟨⟨⟨F.ybegin_free, hdot, hstatus, fun _ => ?_⟩, trivial⟩, F.ypart_free l hl, ?_, hready',
        ⟨hb2, (congrArg Core.format (core_processYencHeader _ _)).trans hformat⟩,
        (processYencHeader_state _ _).trans hstate,
        (congrArg Core.statusCode (core_processYencHeader _ _)).trans hsc, ?_,
        fun hm => MetaOnce.processYencHeader (MetaOnce.processYencHeader (by exact hm) _) _⟩⟩
    · rw [hnote, hbody]
      rfl
    · intro dec w out buf
      rw [List.foldl_cons, List.foldl_nil, hnote]
      exact lineTurn_of_body hdot' hformat hb2 dec w out buf
    · rw [List.foldl_cons, List.foldl_nil, hnote]
      exact fun hc => absurd (hformat.symm.trans hc.2) (by decide)

/-- The lines of a frame are lines of text. -/
theorem Frame.isText : ∀ l ∈ F.lines, IsText l := by
  intro l hl
  simp only [Frame.lines, Frame.headers, List.cons_append, List.mem_cons, List.mem_append,
    Option.mem_toList, List.not_mem_nil, or_false] at hl
  rcases hl with rfl | (hl | hl) | rfl
  · exact ⟨F.ybegin_free, head_of_header (by decide) F.ybegin_head⟩
  · exact ⟨F.ypart_free l hl, head_of_header (by decide) (F.ypart_head l hl)⟩
  · obtain ⟨hfree, hdot, -⟩ := F.isData l hl
    refine ⟨hfree, ?_⟩
    rintro rfl
    exact absurd (hdot rfl) (by decide)
  · exact ⟨F.yend_free, head_of_header (by decide) F.yend_head⟩

theorem Frame.yend_front (t : Bytes) : ascii "=y" <+: F.yend ++ t :=
  ((by decide : ascii "=y" <+: ascii "=yend ").trans
    (List.isPrefixOf_iff_prefix.mp F.yend_head)).trans (List.prefix_append _ _)

/-- A `=yend` line is no other header. -/
theorem Frame.yend_plain {h : Bytes} (hlen : (ascii "=yend ").length ≤ h.length)
    (hne : ¬ (ascii "=yend ").isPrefixOf h) : ¬ h.isPrefixOf F.yend := by
  intro hc
  have h1 := List.isPrefixOf_iff_prefix.mp hc
  have h2 := List.isPrefixOf_iff_prefix.mp F.yend_head
  exact hne (List.isPrefixOf_iff_prefix.mpr (List.prefix_of_prefix_length_le h2 h1 hlen))

/-- Behind the data the lines are quiet: none of them starts a body. -/
theorem quietLines_of_yenc (ls : List Bytes) :
    ∀ {r : Decoder}, r.statusCode ≠ 0 → r.format = .yenc → r.body = false → (∀ l ∈ ls, IsText l) →
      (∀ l ∈ ls, ¬ (ascii "=ybegin ").isPrefixOf l ∧ ¬ (ascii "=ypart ").isPrefixOf l) →
      QuietLines r ls := by
  induction ls with
  | nil => intro r _ _ _ _ _; trivial
  | cons l ls ih =>
    intro r hs hf hb ht hp
    have hu : r.format ≠ .unknown := by
      rw [hf]
      simp
    have hnote : noteLine r l = processYencHeader r l := by
      simp [noteLine, formatNote, hf]
    have hbody : (noteLine r l).body = false := by
      rw [hnote, processYencHeader_body (hp l (by simp)).1 (hp l (by simp)).2, hb]
    have hformat : (noteLine r l).format = .yenc := by
      rw [noteLine, if_neg hu, formatNote_format, hf]
    have htext := ht l (by simp)
    exact ⟨⟨htext.1, htext.2, hs, fun _ => hbody⟩, ih (by simpa using hs) hformat hbody
      (fun l' hl' => ht l' (by simp [hl'])) (fun l' hl' => hp l' (by simp [hl']))⟩

end Frame

section Body

variable (N : Rapidyenc) {r start : Decoder} {quiet : List Bytes} {last : Bytes}

/-- **A body up to a marker**: the bytes before it lead to the start of a
line, where the native decoder stops and gives back what it has read of
the marker. -/
theorem bodyGo_marked (hr : Ready start) (h : InBody start) {a m : Bytes} {k : ℕ} {s : State}
    {e : End} (ha : (N.run start.state a).stopped = none)
    (hcrlf : (N.run start.state a).state = .crlf) (hm : N.run .crlf m = ⟨[], k, s, some e⟩)
    (hk : givenBack s e = k) (out : Bytes) :
    ∃ r, bodyGo N start out (a ++ m) = .goOn r (out ++ (N.run start.state a).out) a.length m ∧
      Ready r ∧ ¬ InBody r ∧ r.body = false ∧ r.format = .yenc ∧
      r.statusCode = start.statusCode ∧ r.state = s ∧ (MetaOnce start → MetaOnce r) := by
  have hrun : N.run start.state (a ++ m) =
      ⟨(N.run start.state a).out, a.length + k, s, some e⟩ := by
    rw [Transducer.run_append_of_running _ ha, hcrlf, hm, List.append_nil]
  have hgo : bodyGo N start out (a ++ m) = .goOn (settle start (N.run start.state (a ++ m)))
      (out ++ (N.run start.state a).out) a.length m := by
    simp only [bodyGo, hrun, giveBack, Option.getD_some, hk, Option.isSome_some, if_true,
      Nat.add_sub_cancel, List.drop_left]
  have hext := bodyGo_extends N hr h out (a ++ m) []
  rw [hgo] at hext
  obtain ⟨h', hb'⟩ := hext.ready N
  have hleave : settle start (N.run start.state (a ++ m)) =
      { absorb start (N.run start.state (a ++ m)) with body := false } := by
    have hstop : (N.run start.state (a ++ m)).stopped = some e := by rw [hrun]
    obtain ⟨_, _, _, _, _, hst, _⟩ := Transducer.exists_of_stopped hstop
    cases e with
    | none => exact absurd hst (N.stop_none _ _)
    | control => simp only [settle, hstop, Option.getD_some, leaveBody]
    | article => simp only [settle, hstop, Option.getD_some, leaveBody]
  refine ⟨_, hgo, h', hb', by rw [hleave], by rw [settle_format, h.2], ?_, ?_, fun hm => hm.settle _⟩
  · rw [hleave]
    rfl
  · rw [hleave]
    exact congrArg Outcome.state hrun

/-- **The body of a frame**, behind the header line that starts it, with
the lines from `=yend` on behind the data. -/
theorem bodyGo_frame (hr : Ready start) (h : InBody start) (hs : start.state = .crlf)
    {data : List Bytes} (hdata : ∀ l ∈ data, IsData l) {t : Bytes} (ht : ascii "=y" <+: t)
    (out : Bytes) :
    ∃ r, bodyGo N start out (joinLines data ++ t) =
        .goOn r (out ++ (N.run .crlf (joinLines data)).out) (joinLines data).length t ∧
      Ready r ∧ ¬ InBody r ∧ r.body = false ∧ r.format = .yenc ∧
      r.statusCode = start.statusCode ∧ (MetaOnce start → MetaOnce r) := by
  obtain ⟨hstop, hcrlf⟩ := N.run_data hdata
  obtain ⟨u, rfl⟩ := ht
  rw [← hs] at hstop hcrlf ⊢
  obtain ⟨r, hgo, hr', hnb, hbody, hf, hc, -, hmeta⟩ :=
    bodyGo_marked N hr h hstop (hcrlf.trans hs) (N.run_header u) rfl out
  exact ⟨r, hgo, hr', hnb, hbody, hf, hc, hmeta⟩

/-- The line loop at the header line that starts a body. -/
theorem scan_enters (hr : Ready r) (hb : ¬ InBody r) (h : Enters r quiet last start)
    (out t : Bytes) :
    scan N.decodeIncremental accepting (quiet.foldl noteLine r) out 0 (last ++ crlf ++ t) =
      ((bodyGo N start out t).after N.decodeIncremental accepting).map
        (Decoded.shift (last.length + 2)) := by
  obtain ⟨h', hb'⟩ := foldl_noteLine_ready quiet hr hb h.isQuiet
  have hclear : Clear start := by
    unfold Clear
    rw [h.state]
    simp
  rw [scan_of_cut N accepting (h'.clear hb') out (cut_of_free t h.free), h.turn,
    bodyTurn_eq N h.ready.state_ne (hclear.not_splitTerminator t) h.inBody.1, Turn.after_shift]

end Body

/-! ## Replies with a frame -/

section YencReply

variable (N : Rapidyenc) (onMeta strict : Bool) (R : YencReply)

/-- The decoder behind the text before the frame. -/
def YencReply.beforeFrame : Decoder :=
  R.before.foldl noteLine (afterStatus onMeta strict R.status)

theorem YencReply.before_quiet :
    QuietLines (afterStatus onMeta strict R.status) R.before ∧
      (R.beforeFrame onMeta strict).format ≠ .yenc :=
  quietLines_of_plain R.before (StatusLine.code_ne_zero R.multi) (by simp [afterStatus, fresh])
    R.before_text R.before_plain

theorem YencReply.ready_beforeFrame :
    Ready (R.beforeFrame onMeta strict) ∧ ¬ InBody (R.beforeFrame onMeta strict) := by
  obtain ⟨h, hb⟩ := ready_afterStatus onMeta strict R.status
  exact foldl_noteLine_ready R.before h hb (R.before_quiet onMeta strict).1

theorem YencReply.beforeFrame_statusCode :
    (R.beforeFrame onMeta strict).statusCode = R.status.code :=
  foldl_noteLine_statusCode R.before

/-- **The text before the frame decides**: the block is skipped or kept
as text, or the header lines lead into the body. -/
theorem YencReply.idle_or_enters :
    Idle (R.beforeFrame onMeta strict) ∨
      (R.beforeFrame onMeta strict).format = .unknown ∧
      ∃ quiet last start, R.frame.headers = quiet ++ [last] ∧
        Enters (R.beforeFrame onMeta strict) quiet last start := by
  obtain ⟨h, -⟩ := R.ready_beforeFrame onMeta strict
  have hstatus := R.beforeFrame_statusCode onMeta strict
  rcases hf : (R.beforeFrame onMeta strict).format with _ | _ | _
  · by_cases hcode : (R.beforeFrame onMeta strict).statusCode = nntpBody ∨
        (R.beforeFrame onMeta strict).statusCode = nntpArtiicle
    · refine Or.inr ⟨rfl, R.frame.enters h hf ?_ ?_ hcode⟩
      · exact foldl_noteLine_state R.before
      · rw [hstatus]
        exact StatusLine.code_ne_zero R.multi
    · exact Or.inl (Or.inr ⟨hf, not_or.mp hcode⟩)
  · exact absurd hf (R.before_quiet onMeta strict).2
  · exact Or.inl (Or.inl hf)

/-- Where no frame is read, every line of the block is quiet. -/
theorem YencReply.quiet_of_idle (h : Idle (R.beforeFrame onMeta strict)) :
    QuietLines (afterStatus onMeta strict R.status) (R.before ++ R.frame.lines ++ R.after) := by
  rw [List.append_assoc, quietLines_append]
  refine ⟨(R.before_quiet onMeta strict).1, (quietLines_of_idle _ ?_ h ?_).1⟩
  · rw [R.beforeFrame_statusCode onMeta strict]
    exact StatusLine.code_ne_zero R.multi
  · intro l hl
    rcases List.mem_append.mp hl with hl | hl
    · exact R.frame.isText l hl
    · exact R.after_text l hl

/-- The lines from `=yend` on. -/
def YencReply.tail : List Bytes := R.frame.yend :: R.after

/-- The response, by what reads it. -/
theorem YencReply.bytes_eq {quiet : List Bytes} {last : Bytes}
    (h : R.frame.headers = quiet ++ [last]) :
    R.bytes = R.status.text ++ crlf ++ (joinLines (R.before ++ quiet) ++ (last ++ crlf ++
      (joinLines R.frame.data ++ (joinLines R.tail ++ terminator)))) := by
  simp [YencReply.bytes, Frame.lines, h, joinLines_append, YencReply.tail, List.append_assoc]

theorem YencReply.tail_front (t : Bytes) : ascii "=y" <+: joinLines R.tail ++ t := by
  rw [YencReply.tail, joinLines_cons, List.append_assoc, List.append_assoc]
  exact R.frame.yend_front _

theorem YencReply.tail_quiet {r : Decoder} (hs : r.statusCode ≠ 0) (hf : r.format = .yenc)
    (hb : r.body = false) : QuietLines r R.tail := by
  refine quietLines_of_yenc R.tail hs hf hb ?_ ?_
  · intro l hl
    rcases List.mem_cons.mp hl with rfl | hl
    · exact ⟨R.frame.yend_free, head_of_header (by decide) R.frame.yend_head⟩
    · exact R.after_text l hl
  · intro l hl
    rcases List.mem_cons.mp hl with rfl | hl
    · exact ⟨R.frame.yend_plain (by decide) (by decide), R.frame.yend_plain (by decide) (by decide)⟩
    · exact R.after_plain l hl

variable {quiet : List Bytes} {last : Bytes} {start : Decoder}

theorem YencReply.quiet_of_enters (h : Enters (R.beforeFrame onMeta strict) quiet last start) :
    QuietLines (afterStatus onMeta strict R.status) (R.before ++ quiet) :=
  (quietLines_append _ _).mpr ⟨(R.before_quiet onMeta strict).1, h.isQuiet⟩

theorem YencReply.start_statusCode (h : Enters (R.beforeFrame onMeta strict) quiet last start) :
    start.statusCode ≠ 0 := by
  rw [h.statusCode, R.beforeFrame_statusCode onMeta strict]
  exact StatusLine.code_ne_zero R.multi

/-- **A reply with a frame is read to exactly its end**, whatever
follows. -/
theorem whole_yencReply (t : Bytes) :
    ∃ d, whole N onMeta strict (R.bytes ++ t) = some d ∧ d.err = none ∧ d.r.eof = true ∧
      d.read = R.bytes.length ∧ d.rest = t ∧ MetaOnce d.r := by
  obtain ⟨h, hb⟩ := ready_afterStatus onMeta strict R.status
  have hmeta : MetaOnce (afterStatus onMeta strict R.status) := ⟨Nat.zero_le 1, fun _ => rfl⟩
  have hthree : terminator.length = 3 := rfl
  rcases R.idle_or_enters onMeta strict with hidle | ⟨-, quiet, last, start, hheaders, henter⟩
  · have hbytes : R.bytes ++ t = R.status.text ++ crlf ++
        (joinLines (R.before ++ R.frame.lines ++ R.after) ++ (terminator ++ t)) := by
      simp [YencReply.bytes, List.append_assoc]
    rw [hbytes, whole_status, if_pos R.multi, scan_block N h hb (R.quiet_of_idle onMeta strict hidle)]
    refine ⟨_, rfl, rfl, rfl, ?_, rfl, MetaOnce.foldl_noteLine _ hmeta⟩
    simp only [Decoded.shift, YencReply.bytes, List.length_append, crlf_length]
    omega
  · obtain ⟨h', hb'⟩ := R.ready_beforeFrame onMeta strict
    have hbytes : R.bytes ++ t = R.status.text ++ crlf ++ (joinLines (R.before ++ quiet) ++
        (last ++ crlf ++ (joinLines R.frame.data ++ (joinLines R.tail ++ (terminator ++ t))))) := by
      simp [R.bytes_eq hheaders, List.append_assoc]
    obtain ⟨r, hgo, hr, hnb, hbody, hformat, hcode, honce⟩ := bodyGo_frame N henter.ready henter.inBody
      henter.state R.frame.isData (R.tail_front (terminator ++ t)) []
    have htail := R.tail_quiet (hcode ▸ R.start_statusCode onMeta strict henter) hformat hbody
    rw [hbytes, whole_status, if_pos R.multi,
      scan_joinLines N _ [] _ h hb (R.quiet_of_enters onMeta strict henter), List.foldl_append,
      show R.before.foldl noteLine _ = R.beforeFrame onMeta strict from rfl,
      scan_enters N h' hb' henter, hgo, Turn.after, scan_shift, scan_block N hr hnb htail]
    refine ⟨_, rfl, rfl, rfl, ?_, rfl, MetaOnce.foldl_noteLine _
      (honce (henter.metaOnce (MetaOnce.foldl_noteLine _ hmeta)))⟩
    simp only [Decoded.shift, R.bytes_eq hheaders, List.length_append, crlf_length]
    omega

/-- The text before the frame is all that can start a UU body. -/
theorem YencReply.uuBodyEnd_of_idle (h : Idle (R.beforeFrame onMeta strict)) :
    uuBodyEnd (afterStatus onMeta strict R.status) (R.before ++ R.frame.lines ++ R.after) =
      uuBodyEnd (afterStatus onMeta strict R.status) R.before := by
  rw [List.append_assoc]
  refine uuBodyEnd_append _ _ ?_
  change uuBodyEnd (R.beforeFrame onMeta strict) _ = none
  have hcode := R.beforeFrame_statusCode onMeta strict
  rcases hf : (R.beforeFrame onMeta strict).format with _ | _ | _
  · rw [uuBodyEnd_eq_none_iff hf, (quietLines_of_idle _ ?_ h ?_).2.2]
    · exact fun hc => absurd (hf.symm.trans hc.2) (by decide)
    · rw [hcode]
      exact StatusLine.code_ne_zero R.multi
    · intro l hl
      rcases List.mem_append.mp hl with hl | hl
      · exact R.frame.isText l hl
      · exact R.after_text l hl
  · exact uuBodyEnd_of_known (by rw [hf]; simp) _
  · exact uuBodyEnd_of_known (by rw [hf]; simp) _

/-- **In the body of a frame no cut splits a terminator.** The native
decoder would have stopped there, but it stops at `=yend`. -/
theorem body_front (hr : Ready start) (hi : InBody start) (hs : start.state = .crlf)
    {q c b : Bytes} {d : Decoded} (hcode : start.statusCode ≠ 0)
    (hq : q ++ c ++ b = joinLines R.frame.data ++ (joinLines R.tail ++ terminator))
    (hne : q ≠ joinLines R.frame.data ++ (joinLines R.tail ++ terminator))
    (hd : (bodyGo N start [] q).after N.decodeIncremental accepting = some d) :
    ¬ Splits d.r (d.rest ++ c) ∧ ¬ Stuck d.r := by
  have hdata := R.frame.isData
  obtain ⟨hstop, hcons, -⟩ := N.run_frame hdata (R.tail_front terminator)
  rw [← hq, List.append_assoc] at hstop hcons
  cases hrun : (N.run start.state q).stopped with
  | none =>
    have hgo : bodyGo N start [] q = .ret ⟨settle start (N.run start.state q),
        [] ++ (N.run start.state q).out,
        ((N.run start.state q).consumed - giveBack (N.run start.state q) : ℕ),
        q.drop ((N.run start.state q).consumed - giveBack (N.run start.state q)), none⟩ := by
      simp only [bodyGo, hrun, Option.isSome_none, Bool.false_eq_true, if_false]
    rw [hgo, Turn.after, Option.some.injEq] at hd
    subst hd
    refine ⟨fun hsp => ?_, fun hst => ?_⟩
    · have happ := (hsp.append b).2
      rw [List.append_assoc] at happ
      have hart := stopped_of_splitTerminator N hrun happ
      rw [hs, hstop] at hart
      cases hart
    · have hfmt := hst.2
      rw [settle_format, hi.2] at hfmt
      cases hfmt
  | some e =>
    -- the whole run has stopped here, so the data is behind us
    rw [hs] at hrun
    rw [Transducer.run_append_of_stopped _ hrun] at hcons
    have hlen := Transducer.run_consumed_le (T := N.toTransducer) .crlf q
    obtain ⟨q', rfl⟩ : joinLines R.frame.data <+: q :=
      List.prefix_of_prefix_length_le (List.prefix_append _ _)
        ⟨c ++ b, by rw [← List.append_assoc, hq]⟩ (by omega)
    rw [List.append_assoc, List.append_assoc, List.append_cancel_left_eq] at hq
    have hq' : ascii "=y" <+: q' := by
      refine List.prefix_of_prefix_length_le (R.tail_front terminator) ⟨c ++ b, hq⟩ ?_
      rw [List.length_append] at hlen
      have : (ascii "=y").length = 2 := rfl
      omega
    obtain ⟨r, hgo, hr', hnb, hbody, hformat, hsc, -⟩ := bodyGo_frame N hr hi hs hdata hq' []
    rw [hgo, Turn.after, scan_shift] at hd
    obtain ⟨d', hd', rfl⟩ := Option.map_eq_some_iff.mp hd
    have htail := R.tail_quiet (hsc ▸ hcode) hformat hbody
    obtain ⟨j, u, -, -, hscan⟩ := scan_block_front N hr' hnb htail
      ([] ++ (N.run .crlf (joinLines R.frame.data)).out) ⟨c ++ b, hq⟩
      fun hc => hne (by rw [hc])
    rw [hscan, Option.some.injEq] at hd'
    subst hd'
    have hnot := (foldl_noteLine_ready _ hr' hnb (quietLines_take htail j)).2
    refine ⟨fun hsp => hnot hsp.1, fun hst => ?_⟩
    have hfmt := foldl_noteLine_of_known (R.tail.take j) (r := r) (by rw [hformat]; simp)
    have huu : ((R.tail.take j).foldl noteLine r).format = .uu := hst.2
    rw [hfmt, hformat] at huu
    cases huu

/-- What a front part that holds the status line leaves, when the frame is
read. -/
theorem enters_front (hheaders : R.frame.headers = quiet ++ [last])
    (henter : Enters (R.beforeFrame onMeta strict) quiet last start) {q c b : Bytes} {d : Decoded}
    (hq : R.status.text ++ crlf ++ q ++ c ++ b = R.bytes)
    (hne : R.status.text ++ crlf ++ q ≠ R.bytes)
    (hd : scan N.decodeIncremental accepting (afterStatus onMeta strict R.status) [] 0 q = some d) :
    ¬ Splits d.r (d.rest ++ c) ∧ ¬ Stuck d.r := by
  obtain ⟨h, hb⟩ := ready_afterStatus onMeta strict R.status
  obtain ⟨h', hb'⟩ := R.ready_beforeFrame onMeta strict
  have hquiet := R.quiet_of_enters onMeta strict henter
  have hfold : (R.before ++ quiet).foldl noteLine (afterStatus onMeta strict R.status) =
      quiet.foldl noteLine (R.beforeFrame onMeta strict) := List.foldl_append ..
  rw [R.bytes_eq hheaders, List.append_assoc, List.append_assoc, List.append_cancel_left_eq] at hq
  rw [R.bytes_eq hheaders, ne_eq, List.append_cancel_left_eq] at hne
  have hnone : uuBodyEnd (afterStatus onMeta strict R.status) (R.before ++ quiet) = none := by
    rw [uuBodyEnd_eq_none_iff rfl, hfold]
    exact henter.notStuck
  rcases scan_front N (R.before ++ quiet) [] _ h hb hquiet ⟨c ++ b, hq⟩ with
    ⟨j, u, -, -, -, hscan⟩ | ⟨u, rfl, hu⟩
  · rw [hscan, Option.some.injEq] at hd
    subst hd
    have hnot := (foldl_noteLine_ready _ h hb (quietLines_take hquiet j)).2
    refine ⟨fun hsp => hnot hsp.1, fun hst => ?_⟩
    obtain ⟨e, he, -⟩ := (stuck_take_iff _ j rfl).mp hst
    rw [hnone] at he
    cases he
  · rw [List.append_assoc, List.append_cancel_left_eq] at hq
    rw [List.append_cancel_left_eq] at hne
    rw [scan_joinLines N _ [] _ h hb hquiet, hfold] at hd
    obtain ⟨d₁, hd₁, rfl⟩ := Option.map_eq_some_iff.mp hd
    rcases prefix_line henter.free hu with ⟨hcut, -⟩ | ⟨v, rfl, -⟩
    · rw [scan_of_cut_none N accepting [] 0 hcut, Option.some.injEq] at hd₁
      subst hd₁
      exact ⟨fun hsp => (foldl_noteLine_ready _ h' hb' henter.isQuiet).2 hsp.1, henter.notStuck⟩
    · rw [List.append_assoc, List.append_cancel_left_eq] at hq
      rw [List.append_cancel_left_eq] at hne
      rw [scan_enters N h' hb' henter] at hd₁
      obtain ⟨d₂, hd₂, rfl⟩ := Option.map_eq_some_iff.mp hd₁
      have hbody := body_front N R henter.ready henter.inBody henter.state
        (R.start_statusCode onMeta strict henter) (by rwa [List.append_assoc]) hne hd₂
      exact hbody

/-- **What a proper front part of a reply with a frame leaves**: no cut
splits a terminator, and the decoder is in a UU body exactly behind a
line of the text before the frame that starts one. -/
theorem whole_yencReply_front {p c b : Bytes} {d : Decoded} (hp : p ++ c ++ b = R.bytes)
    (hne : p ≠ R.bytes) (hd : whole N onMeta strict p = some d) :
    ¬ Splits d.r (d.rest ++ c) ∧ (Stuck d.r ↔
      ∃ e, uuBodyEnd (afterStatus onMeta strict R.status) R.before = some e ∧
        R.status.text.length + 2 + e ≤ p.length) := by
  obtain ⟨h, hb⟩ := ready_afterStatus onMeta strict R.status
  have hpre : p <+: R.status.text ++ crlf ++
      (joinLines (R.before ++ R.frame.lines ++ R.after) ++ terminator) :=
    ⟨c ++ b, by rw [← List.append_assoc, hp]; rfl⟩
  rcases prefix_line R.status.free hpre with ⟨hcut, hlt⟩ | ⟨q, rfl, hq⟩
  · rw [whole_of_cut_none N onMeta strict hcut, Option.some.injEq] at hd
    subst hd
    refine ⟨fun hs => not_inBody_fresh onMeta strict hs.1,
      ⟨fun hs => (nomatch hs.1), fun ⟨e, _, hle⟩ => ?_⟩⟩
    omega
  · rw [whole_status, if_pos R.multi] at hd
    obtain ⟨d', hd', rfl⟩ := Option.map_eq_some_iff.mp hd
    rcases R.idle_or_enters onMeta strict with hidle | ⟨hf, quiet, last, start, hheaders, henter⟩
    · have hqne : q ≠ joinLines (R.before ++ R.frame.lines ++ R.after) ++ terminator :=
        fun hc => hne (by rw [hc]; rfl)
      obtain ⟨hnb, hstuck⟩ := stuck_of_block_front N h hb rfl (R.quiet_of_idle onMeta strict hidle)
        hq hqne hd'
      rw [R.uuBodyEnd_of_idle onMeta strict hidle] at hstuck
      refine ⟨fun hs => hnb hs.1, hstuck.trans ?_⟩
      simp only [List.length_append, crlf_length, Nat.add_le_add_iff_left]
    · obtain ⟨hsp, hst⟩ := enters_front N onMeta strict R hheaders henter hp hne hd'
      refine ⟨hsp, ⟨fun hc => absurd hc hst, fun ⟨e, he, _⟩ => ?_⟩⟩
      have hnone : uuBodyEnd (afterStatus onMeta strict R.status) R.before = none := by
        rw [uuBodyEnd_eq_none_iff rfl]
        exact fun hc => absurd (hf.symm.trans hc.2) (by decide)
      rw [hnone] at he
      cases he

/-- The end was reported, with the same output and everything a yEnc body
leaves in the response. -/
structure SameBody (f g : Fed) : Prop where
  done : f.done = true
  out : f.out = g.out
  bytesDecoded : f.r.bytesDecoded = g.r.bytesDecoded
  crc : f.r.crc = g.r.crc
  yenc : f.r.yenc = g.r.yenc
  endSize : f.r.endSize = g.r.endSize
  crcFields : (f.r.expectedCRC, f.r.hasCrc, f.r.hasPartCRC, f.r.hasFileCRC, f.r.partCRC,
    f.r.fileCRC) = (g.r.expectedCRC, g.r.hasCrc, g.r.hasPartCRC, g.r.hasFileCRC, g.r.partCRC,
    g.r.fileCRC)
  headerErr : f.r.headerErr = g.r.headerErr
  consumed : f.r.bytesConsumed = g.r.bytesConsumed
  metaCalls : f.r.metaCalls = g.r.metaCalls
  metaOnce : f.r.metaCalls.length ≤ 1

theorem YencReply.bytes_ne_nil : R.bytes ≠ [] := by
  simp [YencReply.bytes, crlf]

/-- **Chunk independence of the yEnc path.** A reply with a yEnc frame
comes to the same in chunks as in one call if and only if no line of the
text before the frame that is taken for the body of a UU part is complete
before the last chunk. -/
theorem yencReply_chunks_iff {chunks : List Bytes} (hflat : chunks.flatten = R.bytes)
    (hne : ∀ c ∈ chunks, c ≠ []) :
    (∃ f g, feedChunks N.decodeIncremental onMeta strict chunks = some f ∧
        feedChunks N.decodeIncremental onMeta strict [R.bytes] = some g ∧ SameBody f g) ↔
      ∀ e, uuBodyEnd (afterStatus onMeta strict R.status) R.before = some e →
        chunks.dropLast.flatten.length < R.status.text.length + 2 + e := by
  have hspec := feedChunks_spec N onMeta strict
    ((uuBodyEnd (afterStatus onMeta strict R.status) R.before).map
      (R.status.text.length + 2 + ·))
    (by
      obtain ⟨d, hd, herr, heof, -, hrest, -⟩ := whole_yencReply N onMeta strict R []
      exact ⟨d, by simpa using hd, herr, heof, hrest⟩)
    (fun p c b d hp hc hd => by
      refine (whole_yencReply_front N onMeta strict R hp ?_ hd).1
      intro hpc
      rw [hpc, List.append_assoc, List.append_right_eq_self] at hp
      exact hc (List.append_eq_nil_iff.mp hp).1)
    (fun p d ⟨b, hp⟩ hpne hd => by
      rw [(whole_yencReply_front N onMeta strict R (c := b) (b := []) (by simpa using hp) hpne hd).2]
      simp)
    hflat hne R.bytes_ne_nil
  have hplace : (∀ e, (uuBodyEnd (afterStatus onMeta strict R.status) R.before).map
        (R.status.text.length + 2 + ·) = some e → chunks.dropLast.flatten.length < e) ↔
      ∀ e, uuBodyEnd (afterStatus onMeta strict R.status) R.before = some e →
        chunks.dropLast.flatten.length < R.status.text.length + 2 + e := by
    simp
  rw [hplace] at hspec
  constructor
  · rintro ⟨f, g, hf, -, hsame⟩
    by_contra hcond
    obtain ⟨f', hf', hdone⟩ := hspec.2 hcond
    rw [hf, Option.some.injEq] at hf'
    rw [← hf', hsame.done] at hdone
    exact absurd hdone (by decide)
  · intro hcond
    obtain ⟨f, g, hf, hg, hdone, hr, hout, hdec⟩ := hspec.1 hcond
    obtain ⟨d, hd, -, -, -, -, honce⟩ := whole_yencReply N onMeta strict R []
    rw [← hdec d (by simpa using hd)] at honce
    exact ⟨f, g, hf, hg, hdone, hout, by rw [hr], by rw [hr], by rw [hr], by rw [hr], by rw [hr],
      by rw [hr], by rw [hr], by rw [hr], honce.1⟩

end YencReply

/-- A small frame: one data line that decodes to `A`. -/
def smallFrame : Frame where
  ybegin := ascii "=ybegin line=128 size=1 name=a"
  ypart := none
  data := [ascii "k"]
  yend := ascii "=yend size=1"
  ybegin_free := by decide
  ybegin_head := by decide
  ypart_iff := by decide
  ypart_free := nofun
  ypart_head := nofun
  isData := by decide
  yend_free := by decide
  yend_head := by decide

/-- The frame behind a line of text. -/
def framedReply (before : Bytes) (h : IsText before)
    (h' : ¬ (ascii "=ybegin ").isPrefixOf before) : YencReply where
  status := bodyFollows
  multi := by decide
  before := [before]
  frame := smallFrame
  after := []
  before_text := by simpa using h
  before_plain := by simpa using h'
  after_text := nofun
  after_plain := nofun

/-- A frame behind text that no format claims. -/
def textFramed : YencReply := framedReply (ascii "text") (by decide) (by decide)

/-- A frame behind a line that reads as UU data. -/
def uuFramed : YencReply := framedReply (ascii "#12") (by decide) (by decide)

/-- The reply cut in two behind its first `n` bytes. -/
def cutAt (n : ℕ) (R : YencReply) : List Bytes := [R.bytes.take n, R.bytes.drop n]

/-- The frame cut inside `\r\n=y`. -/
theorem yencReply_chunks_iff_at_textFramed :
    (∃ f g, feedChunks Rapidyenc.scalar.decodeIncremental true true (cutAt 53 textFramed) = some f ∧
        feedChunks Rapidyenc.scalar.decodeIncremental true true [textFramed.bytes] = some g ∧
        SameBody f g) ↔
      ∀ e, uuBodyEnd (afterStatus true true textFramed.status) textFramed.before = some e →
        (cutAt 53 textFramed).dropLast.flatten.length < textFramed.status.text.length + 2 + e :=
  yencReply_chunks_iff Rapidyenc.scalar true true textFramed (by decide) (by decide)

/-- **A line `#12` before the frame, cut behind it**: the end is never
reported. -/
theorem uuFramed_not_chunk_independent :
    (cutAt 16 uuFramed).flatten = uuFramed.bytes ∧
      ¬ ∃ f g, feedChunks Rapidyenc.scalar.decodeIncremental true true (cutAt 16 uuFramed) = some f ∧
          feedChunks Rapidyenc.scalar.decodeIncremental true true [uuFramed.bytes] = some g ∧
          SameBody f g := by
  refine ⟨by decide, ?_⟩
  rintro ⟨f, g, hf, -, hsame⟩
  have hdone : (feedChunks Rapidyenc.scalar.decodeIncremental true true (cutAt 16 uuFramed)).map
      Fed.done = some false := by decide
  rw [hf, Option.map_some, hsame.done] at hdone
  exact absurd hdone (by decide)

end Reader

end NntpPool
