import NntpPool.Reader.Yenc
/-!
# Reader — where a response ends

Responses follow each other on the connection without a mark between
them, so one call of `Feed` has to consume exactly one. The end is found
by the status line, by the line loop, or by the native decoder and the
rewind behind it. `whole_wireReply` says that it is the same byte for
every well-formed response, and `feed_frames_replies` what follows for
responses sent back to back.

The hard case is a `=ybegin` line whose part number cannot be read, in
front of a `=ypart` line: the body is entered twice, the second time with
the native decoder in the middle of a line (`bodyGo_mid`), so that without
data the `=yend` line is decoded and only the end of the article stops
it.
-/

namespace NntpPool

namespace Reader

/-- **A native decoder that finds the end of the article**: it takes note
of a dot at the start of a line. -/
structure NntpRapidyenc extends Rapidyenc where
  next_dot : next .crlf dot = .crlfdt

/-- The raw decoder does. -/
def NntpRapidyenc.scalar : NntpRapidyenc := { Rapidyenc.scalar with next_dot := rfl }

/-! ## Markers -/

section Marker

/-- **At the end of the article the native decoder stops**, behind the
`.` line. -/
theorem NntpRapidyenc.run_terminator (N : NntpRapidyenc) (u : Bytes) :
    N.run .crlf (terminator ++ u) = ⟨[], 3, N.next .crlfdtcr 10, some .article⟩ := by
  have hlf : N.stop .crlfdtcr 10 = some .article := (N.stop_article _ _).mpr ⟨rfl, rfl⟩
  have hemit : N.emit .crlf dot = none := N.emit_marker _ _ (Or.inr (Or.inl N.next_dot))
  have hemit' : N.emit .crlfdt 13 = none := N.emit_marker _ _ (Or.inr (Or.inr N.next_dot_cr))
  have hemit'' : N.emit .crlfdtcr 10 = none := N.emit_stop _ _ (by rw [hlf]; simp)
  change N.run .crlf (dot :: 13 :: 10 :: u) = _
  rw [Transducer.run_cons_of_running (N.stop_eq_none (by decide) (by decide)), N.next_dot,
    Transducer.run_cons_of_running (N.stop_eq_none (by decide) (by decide)), N.next_dot_cr,
    Transducer.run_cons_of_stop hlf, hemit, hemit', hemit'']
  rfl

variable {l : Bytes}

theorem IsStuffed.isText (h : IsStuffed l) : IsText l := by
  refine ⟨h.1, ?_⟩
  rintro rfl
  exact absurd (h.2 rfl) (by decide)

theorem IsStuffed.isData (h : IsStuffed l) (hy : ¬ (ascii "=y").isPrefixOf l) : IsData l :=
  ⟨h.1, h.2, hy⟩

theorem IsData.isStuffed (h : IsData l) : IsStuffed l := ⟨h.1, h.2.1⟩

/-- A line that starts with `=y` needs no stuffing. -/
theorem isStuffed_of_head (hfree : cut crlf l = none) (hy : ascii "=y" <+: l) : IsStuffed l := by
  obtain ⟨u, rfl⟩ := hy
  exact ⟨hfree, fun h => absurd h (by simp [ascii, dot])⟩

/-- **Lines up to the next `=y`**: data, and behind it a marker the native
decoder stops at. -/
theorem exists_marker (N : NntpRapidyenc) (ls : List Bytes) (h : ∀ l ∈ ls, IsStuffed l)
    (t : Bytes) :
    ∃ data rest k s e, ls = data ++ rest ∧ (∀ l ∈ data, IsData l) ∧
      N.run .crlf (joinLines rest ++ (terminator ++ t)) = ⟨[], k, s, some e⟩ ∧
      givenBack s e = k := by
  induction ls with
  | nil => exact ⟨[], [], _, _, _, rfl, List.forall_mem_nil _, N.run_terminator t, rfl⟩
  | cons l ls ih =>
    by_cases hy : (ascii "=y").isPrefixOf l
    · obtain ⟨u, rfl⟩ := List.isPrefixOf_iff_prefix.mp hy
      have hrun : N.run .crlf (joinLines ((ascii "=y" ++ u) :: ls) ++ (terminator ++ t)) =
          ⟨[], 2, N.next .crlfeq letterY, some .control⟩ := by
        rw [joinLines_cons, List.append_assoc, List.append_assoc, List.append_assoc]
        exact N.run_header _
      exact ⟨[], _, _, _, _, rfl, List.forall_mem_nil _, hrun, rfl⟩
    · obtain ⟨data, rest, k, s, e, rfl, hdata, hrun, hk⟩ := ih fun l' hl' => h l' (by simp [hl'])
      refine ⟨l :: data, rest, k, s, e, rfl, ?_, hrun, hk⟩
      intro l' hl'
      rcases List.mem_cons.mp hl' with rfl | hl'
      · exact (h _ (by simp)).isData hy
      · exact hdata l' hl'

end Marker

/-! ## A body entered in the middle of a line -/

section Mid

variable {start : Decoder}

/-- **A body entered in the middle of a line** takes its first line for
data whatever it is, and goes on to the next marker. -/
theorem bodyGo_mid (N : NntpRapidyenc) (hr : Ready start) (h : InBody start)
    (hs : start.state = .eq ∨ start.state = .none) {l : Bytes} {ls : List Bytes}
    (hl : cut crlf l = none) (hls : ∀ l ∈ ls, IsStuffed l) (out t : Bytes) :
    ∃ data rest r out', ls = data ++ rest ∧
      bodyGo N.toRapidyenc start out (joinLines (l :: ls) ++ (terminator ++ t)) =
        .goOn r out' (joinLines (l :: data)).length (joinLines rest ++ (terminator ++ t)) ∧
      Ready r ∧ ¬ InBody r ∧ r.body = false ∧ r.format = .yenc ∧
      r.statusCode = start.statusCode := by
  obtain ⟨data, rest, k, s, e, rfl, hdata, hmark, hk⟩ := exists_marker N ls hls t
  have hmid : Rapidyenc.Mid start.state := by
    rcases hs with hs | hs
    · exact Or.inl hs
    · exact Or.inr (Or.inr hs)
  obtain ⟨hfirst, hcrlf⟩ := N.run_mid l hmid hl fun hc => by rcases hs with hs | hs <;> simp [hs] at hc
  obtain ⟨hrest, hcrlf'⟩ := N.run_data hdata
  have hrun : (N.run start.state (joinLines (l :: data))).stopped = none ∧
      (N.run start.state (joinLines (l :: data))).state = .crlf := by
    rw [joinLines_cons, Transducer.run_append_of_running _ hfirst, hcrlf]
    exact ⟨hrest, hcrlf'⟩
  obtain ⟨r, hgo, hr', hnb, hbody, hf, hc, -, -⟩ :=
    bodyGo_marked N.toRapidyenc hr h hrun.1 hrun.2 hmark hk out
  rw [← List.append_assoc, ← joinLines_append] at hgo
  exact ⟨data, rest, r, _, rfl, hgo, hr', hnb, hbody, hf, hc⟩

end Mid

/-! ## Responses with the lines of a frame -/

namespace FrameReply

variable (R : FrameReply)

theorem ybegin_isText : IsText R.ybegin :=
  ⟨R.ybegin_free, head_of_header (by decide) R.ybegin_head⟩

theorem exists_tail : ∃ l ls, R.tail = l :: ls := by
  unfold tail
  rcases R.data with _ | ⟨l, data⟩
  · exact ⟨_, _, rfl⟩
  · exact ⟨_, _, rfl⟩

theorem tail_stuffed : ∀ l ∈ R.tail, IsStuffed l := by
  intro l hl
  simp only [tail, List.mem_append, List.mem_cons] at hl
  rcases hl with hl | rfl | hl
  · exact (R.isData l hl).isStuffed
  · exact isStuffed_of_head R.yend_free
      ((by decide : ascii "=y" <+: ascii "=yend ").trans (List.isPrefixOf_iff_prefix.mp R.yend_head))
  · exact R.after_stuffed l hl

theorem lines_text : ∀ l ∈ R.lines, IsText l := by
  intro l hl
  simp only [lines, List.mem_append, List.mem_cons, Option.mem_toList] at hl
  rcases hl with hl | rfl | hl | hl
  · exact (R.before_stuffed l hl).isText
  · exact R.ybegin_isText
  · exact ⟨R.ypart_free l hl, head_of_header (by decide) (R.ypart_head l hl)⟩
  · exact (R.tail_stuffed l hl).isText

/-- Two different headers do not start the same line. -/
theorem not_header_of_header {h h' line : Bytes} (hl : h.isPrefixOf line)
    (hlen : h.length ≤ h'.length) (hne : ¬ h.isPrefixOf h') : ¬ h'.isPrefixOf line := by
  intro hc
  exact hne (List.isPrefixOf_iff_prefix.mpr (List.prefix_of_prefix_length_le
    (List.isPrefixOf_iff_prefix.mp hl) (List.isPrefixOf_iff_prefix.mp hc) hlen))

/-- Behind its header lines the response has no other. -/
theorem tail_plain : ∀ l ∈ R.tail, ¬ IsHeader l := by
  intro l hl
  simp only [tail, List.mem_append, List.mem_cons] at hl
  rcases hl with hl | rfl | hl
  · have hy := (R.isData l hl).2.2
    rintro (hc | hc) <;> exact hy (List.isPrefixOf_iff_prefix.mpr
      (List.IsPrefix.trans (by decide) (List.isPrefixOf_iff_prefix.mp hc)))
  · rintro (hc | hc)
    · exact not_header_of_header R.yend_head (by decide) (by decide) hc
    · exact not_header_of_header R.yend_head (by decide) (by decide) hc
  · exact R.after_plain l hl

/-- The response as one with a frame, when the `=ypart` line is there
exactly if there is a part number. -/
def toYencReply (h : R.ypart.isSome = multipart R.ybegin) : YencReply where
  status := R.status
  multi := R.multi
  before := R.before
  frame :=
    { ybegin := R.ybegin, ypart := R.ypart, data := R.data, yend := R.yend
      ybegin_free := R.ybegin_free, ybegin_head := R.ybegin_head, ypart_iff := h
      ypart_free := R.ypart_free, ypart_head := R.ypart_head, isData := R.isData
      yend_free := R.yend_free, yend_head := R.yend_head }
  after := R.after
  before_text l hl := (R.before_stuffed l hl).isText
  before_plain l hl hc := R.before_plain l hl (Or.inl hc)
  after_text l hl := (R.after_stuffed l hl).isText
  after_plain l hl := not_or.mp (R.after_plain l hl)

theorem toYencReply_bytes (h : R.ypart.isSome = multipart R.ybegin) :
    (R.toYencReply h).bytes = R.bytes := by
  simp [toYencReply, YencReply.bytes, bytes, lines, tail, Frame.lines, Frame.headers]

section

variable (onMeta strict : Bool)

/-- The decoder behind the text before the frame. -/
def beforeFrame : Decoder := R.before.foldl noteLine (afterStatus onMeta strict R.status)

theorem before_quiet :
    QuietLines (afterStatus onMeta strict R.status) R.before ∧
      (R.beforeFrame onMeta strict).format ≠ .yenc :=
  quietLines_of_plain R.before (StatusLine.code_ne_zero R.multi) (by simp [afterStatus, fresh])
    (fun l hl => (R.before_stuffed l hl).isText) fun l hl hc => R.before_plain l hl (Or.inl hc)

theorem beforeFrame_ready :
    Ready (R.beforeFrame onMeta strict) ∧ ¬ InBody (R.beforeFrame onMeta strict) := by
  obtain ⟨h, hb⟩ := ready_afterStatus onMeta strict R.status
  exact foldl_noteLine_ready R.before h hb (R.before_quiet onMeta strict).1

theorem beforeFrame_status : (R.beforeFrame onMeta strict).statusCode ≠ 0 := by
  rw [beforeFrame, foldl_noteLine_statusCode]
  exact StatusLine.code_ne_zero R.multi

/-- The text before the frame leaves the response idle, or in an article
whose format is not known. -/
theorem idle_or_unknown :
    Idle (R.beforeFrame onMeta strict) ∨
      (R.beforeFrame onMeta strict).format = .unknown ∧
      ((R.beforeFrame onMeta strict).statusCode = nntpBody ∨
        (R.beforeFrame onMeta strict).statusCode = nntpArtiicle) := by
  rcases hf : (R.beforeFrame onMeta strict).format with _ | _ | _
  · by_cases hcode : (R.beforeFrame onMeta strict).statusCode = nntpBody ∨
        (R.beforeFrame onMeta strict).statusCode = nntpArtiicle
    · exact Or.inr ⟨rfl, hcode⟩
    · exact Or.inl (Or.inr ⟨hf, not_or.mp hcode⟩)
  · exact absurd hf (R.before_quiet onMeta strict).2
  · exact Or.inl (Or.inl hf)

/-- The decoder behind the `=ybegin` line. -/
def behindYbegin : Decoder :=
  processYencHeader { R.beforeFrame onMeta strict with format := .yenc } R.ybegin

/-- What the `=ybegin` line does in an article: it is detected, and starts
the body unless it has a part number. -/
structure Begins : Prop where
  detected : detectFormat (R.beforeFrame onMeta strict) R.ybegin =
    { R.beforeFrame onMeta strict with format := .yenc }
  ready : Ready (R.behindYbegin onMeta strict)
  body : (R.behindYbegin onMeta strict).body = !(multipart R.ybegin)
  format : (R.behindYbegin onMeta strict).format = .yenc
  state : (R.behindYbegin onMeta strict).state = .crlf
  status : (R.behindYbegin onMeta strict).statusCode ≠ 0

theorem begins (hf : (R.beforeFrame onMeta strict).format = .unknown)
    (hcode : (R.beforeFrame onMeta strict).statusCode = nntpBody ∨
      (R.beforeFrame onMeta strict).statusCode = nntpArtiicle) : R.Begins onMeta strict := by
  obtain ⟨h, -⟩ := R.beforeFrame_ready onMeta strict
  have hne : R.ybegin ≠ [] := by
    intro hc
    have := R.ybegin_head
    rw [hc] at this
    exact absurd this (by decide)
  have hdet : detectFormat (R.beforeFrame onMeta strict) R.ybegin =
      { R.beforeFrame onMeta strict with format := .yenc } := by
    unfold detectFormat
    rw [if_neg, if_neg hne, if_pos R.ybegin_head]
    rintro ⟨hb, ha⟩
    rcases hcode with hc | hc
    · exact hb hc
    · exact ha hc
  obtain ⟨hr', hb'⟩ := h.detectFormat hf R.ybegin
  rw [hdet] at hr' hb'
  have hb : (R.beforeFrame onMeta strict).body = false := by
    rw [← Bool.not_eq_true]
    exact fun hb => h.known hb hf
  refine ⟨hdet, (hr'.processYencHeader hb' rfl R.ybegin).1, ?_,
    congrArg Core.format (core_processYencHeader _ _), ?_, ?_⟩
  · rw [behindYbegin, processYencHeader, if_pos R.ybegin_head, processYbegin_body, hb,
      Bool.false_or, multipart]
    cases (extractInt (R.ybegin.drop (ascii "=ybegin").length) (ascii " part=")).2 <;> rfl
  · rw [behindYbegin, processYencHeader_state]
    exact foldl_noteLine_state R.before
  · have hsc : (R.behindYbegin onMeta strict).statusCode =
        (R.beforeFrame onMeta strict).statusCode :=
      congrArg Core.statusCode (core_processYencHeader _ _)
    rw [hsc]
    exact R.beforeFrame_status onMeta strict

/-- Where no body is entered, every line of the block is quiet: in an idle
response, and behind a part number without a `=ypart` line. -/
theorem quiet_of_idle (h : Idle (R.beforeFrame onMeta strict)) :
    QuietLines (afterStatus onMeta strict R.status) R.lines := by
  rw [lines, quietLines_append]
  refine ⟨(R.before_quiet onMeta strict).1,
    (quietLines_of_idle _ (R.beforeFrame_status onMeta strict) h fun l hl => ?_).1⟩
  exact R.lines_text l (List.mem_append_right _ hl)

theorem quiet_of_noPart (hf : (R.beforeFrame onMeta strict).format = .unknown)
    (h : R.Begins onMeta strict) (hmulti : multipart R.ybegin = true) (hpart : R.ypart = none) :
    QuietLines (afterStatus onMeta strict R.status) R.lines := by
  have hbody := h.body
  rw [hmulti] at hbody
  have hnote : noteLine (R.beforeFrame onMeta strict) R.ybegin = R.behindYbegin onMeta strict := by
    rw [noteLine, if_pos hf, h.detected]
    rfl
  rw [lines, quietLines_append, hpart]
  refine ⟨(R.before_quiet onMeta strict).1, ⟨R.ybegin_isText.1, R.ybegin_isText.2,
    R.beforeFrame_status onMeta strict, fun _ => ?_⟩, ?_⟩
  · exact (congrArg Decoder.body hnote).trans hbody
  · change QuietLines (noteLine (R.beforeFrame onMeta strict) R.ybegin) R.tail
    rw [hnote]
    exact quietLines_of_yenc R.tail h.status h.format hbody
      (fun l hl => (R.tail_stuffed l hl).isText) fun l hl => not_or.mp (R.tail_plain l hl)

/-- The turn of the `=ybegin` line that starts the body. -/
theorem scan_ybegin (N : NntpRapidyenc) (hf : (R.beforeFrame onMeta strict).format = .unknown)
    (h : R.Begins onMeta strict) (hmulti : multipart R.ybegin = false) (t : Bytes) :
    scan N.decodeIncremental accepting (R.beforeFrame onMeta strict) [] 0 (R.ybegin ++ crlf ++ t) =
      ((bodyGo N.toRapidyenc (R.behindYbegin onMeta strict) [] t).after
        N.decodeIncremental accepting).map (Decoded.shift (R.ybegin.length + 2)) := by
  obtain ⟨hr, hb⟩ := R.beforeFrame_ready onMeta strict
  have hbody : (R.behindYbegin onMeta strict).body = true := by
    rw [h.body, hmulti]
    rfl
  have hst : ¬ ((R.beforeFrame onMeta strict).statusCode = 0 ∧ 3 ≤ R.ybegin.length) :=
    fun hc => R.beforeFrame_status onMeta strict hc.1
  have hturn : lineTurn N.decodeIncremental accepting (R.beforeFrame onMeta strict) [] R.ybegin t =
      bodyTurn N.decodeIncremental accepting (R.behindYbegin onMeta strict) [] R.ybegin t := by
    have hbt : (processYencHeader { R.beforeFrame onMeta strict with format := .yenc }
        R.ybegin).body = true := hbody
    simp only [lineTurn, if_neg R.ybegin_isText.2, if_pos hf, if_neg hst, h.detected, formatTurn,
      hbt, if_true]
    rfl
  have hclear : Clear (R.behindYbegin onMeta strict) := by
    unfold Clear
    rw [h.state]
    simp
  rw [scan_of_cut N.toRapidyenc accepting (hr.clear hb) [] (cut_of_free t R.ybegin_free), hturn,
    bodyTurn_eq N.toRapidyenc h.ready.state_ne (hclear.not_splitTerminator t) hbody,
    Turn.after_shift]

/-- A part number that cannot be read, and a `=ypart` line: the native
decoder stops at once, and the second header line starts the body again,
now in the middle of a line. -/
theorem behindYpart (N : NntpRapidyenc) (h : R.Begins onMeta strict)
    (hmulti : multipart R.ybegin = false) {l : Bytes} (hl : l ∈ R.ypart) (t : Bytes) :
    ∃ start, Ready start ∧ InBody start ∧ (start.state = .eq ∨ start.state = .none) ∧
      start.statusCode ≠ 0 ∧
      (bodyGo N.toRapidyenc (R.behindYbegin onMeta strict) [] (l ++ crlf ++ t)).after
          N.decodeIncremental accepting =
        ((bodyGo N.toRapidyenc start [] t).after N.decodeIncremental accepting).map
          (Decoded.shift (l.length + 2)) := by
  have hhead := R.ypart_head l hl
  have hin : InBody (R.behindYbegin onMeta strict) := by
    refine ⟨?_, h.format⟩
    rw [h.body, hmulti]
    rfl
  -- the native decoder is stopped by the `=y` it starts with
  obtain ⟨u, hu⟩ : ascii "=y" <+: l :=
    (by decide : ascii "=y" <+: ascii "=ypart ").trans (List.isPrefixOf_iff_prefix.mp hhead)
  obtain ⟨r, hgo, hr, hnb, -, hf, hc, hs, -⟩ :=
    bodyGo_marked N.toRapidyenc h.ready hin (a := []) (m := l ++ crlf ++ t) (by rfl)
      (by rw [h.state]; rfl)
      (by rw [← hu, List.append_assoc, List.append_assoc]; exact N.run_header _) (by rfl) []
  have hstate : r.state = .eq ∨ r.state = .none := by
    rcases hn : r.state with _ | _ | _ | _ | _ | _ | _ <;> rw [hs] at hn
    · exact absurd (N.enter_crlf _ _ hn).1 (by decide)
    · exact Or.inl rfl
    · exact absurd (N.enter_cr _ _ hn) (by decide)
    · exact Or.inr rfl
    · exact absurd (N.enter_crlfdt _ _ hn).1 (by decide)
    · exact absurd (N.enter_crlfdtcr _ _ hn).1 (by decide)
    · exact absurd (N.enter_crlfeq _ _ hn).1 (by decide)
  have hnot : ¬ (ascii "=ybegin ").isPrefixOf l :=
    not_header_of_header hhead (by decide) (by decide)
  have hbody : (processYencHeader r l).body = true := by
    rw [processYencHeader, if_neg hnot, if_pos hhead]
    exact processYpart_body _ _
  obtain ⟨hr', hclear⟩ := hr.processYencHeader hnb hf l
  have hstate' := processYencHeader_state r l
  refine ⟨processYencHeader r l, hr', ⟨hbody, ?_⟩, by rwa [hstate'], ?_, ?_⟩
  · exact (congrArg Core.format (core_processYencHeader r l)).trans hf
  · have hsc : (processYencHeader r l).statusCode = r.statusCode :=
      congrArg Core.statusCode (core_processYencHeader r l)
    rw [hsc, hc]
    exact h.status
  · rw [List.nil_append] at hgo
    rw [hgo, Turn.after, List.length_nil, Int.ofNat_zero,
      scan_of_cut N.toRapidyenc accepting (hr.clear hnb) _ (cut_of_free t (R.ypart_free l hl)),
      lineTurn_of_body (head_of_header (by decide) hhead) hf hbody,
      bodyTurn_eq N.toRapidyenc hr'.state_ne (hclear.not_splitTerminator t) hbody, Turn.after_shift]
    rfl

/-- **A response with the lines of a frame is read to exactly its end**,
whatever follows. -/
theorem read_to_end (N : NntpRapidyenc) (t : Bytes) :
    ∃ d, whole N.toRapidyenc onMeta strict (R.bytes ++ t) = some d ∧ d.err = none ∧
      d.r.eof = true ∧ d.read = R.bytes.length ∧ d.rest = t := by
  obtain ⟨h, hb⟩ := ready_afterStatus onMeta strict R.status
  have hthree : terminator.length = 3 := rfl
  have hbytes : R.bytes ++ t =
      R.status.text ++ crlf ++ (joinLines R.lines ++ (terminator ++ t)) := by
    simp [bytes, List.append_assoc]
  have hlen : (R.bytes.length : ℤ) = R.status.text.length + 2 + ((joinLines R.lines).length + 3) := by
    simp only [bytes, List.length_append, crlf_length, hthree]
    omega
  -- a block of quiet lines
  have hquiet : QuietLines (afterStatus onMeta strict R.status) R.lines →
      ∃ d, whole N.toRapidyenc onMeta strict (R.bytes ++ t) = some d ∧ d.err = none ∧
        d.r.eof = true ∧ d.read = R.bytes.length ∧ d.rest = t := by
    intro hq
    rw [hbytes, whole_status, if_pos R.multi, scan_block N.toRapidyenc h hb hq]
    exact ⟨_, rfl, rfl, rfl, hlen.symm, rfl⟩
  rcases R.idle_or_unknown onMeta strict with hidle | ⟨hf, hcode⟩
  · exact hquiet (R.quiet_of_idle onMeta strict hidle)
  have hbegins := R.begins onMeta strict hf hcode
  by_cases hiff : R.ypart.isSome = multipart R.ybegin
  · obtain ⟨d, hd, herr, heof, hread, hrest, -⟩ :=
      whole_yencReply N.toRapidyenc onMeta strict (R.toYencReply hiff) t
    rw [R.toYencReply_bytes hiff] at hd hread
    exact ⟨d, hd, herr, heof, hread, hrest⟩
  rcases hpart : R.ypart with _ | l
  · -- a part number, but no `=ypart` line
    refine hquiet (R.quiet_of_noPart onMeta strict hf hbegins ?_ hpart)
    simpa [hpart] using hiff
  · -- no part number that can be read, but a `=ypart` line
    have hmulti : multipart R.ybegin = false := by simpa [hpart] using hiff
    obtain ⟨hd, tl, htail⟩ := R.exists_tail
    have hstuffed := R.tail_stuffed
    have hplain := R.tail_plain
    rw [htail] at hstuffed hplain
    obtain ⟨start, hr, hin, hmid, hstatus, hafter⟩ := R.behindYpart onMeta strict N hbegins hmulti
      (by simp [hpart] : l ∈ R.ypart) (joinLines (hd :: tl) ++ (terminator ++ t))
    obtain ⟨data, rest, r, out, rfl, hgo, hr', hnb, hbody, hformat, hsc⟩ :=
      bodyGo_mid N hr hin hmid (hstuffed hd (by simp)).1
        (fun l hl => hstuffed l (List.mem_cons_of_mem _ hl)) [] t
    have hq : QuietLines r rest := by
      refine quietLines_of_yenc rest (hsc ▸ hstatus) hformat hbody (fun l hl => ?_) fun l hl => ?_
      · exact (hstuffed l (by simp [hl])).isText
      · exact not_or.mp (hplain l (by simp [hl]))
    have hlines : joinLines R.lines ++ (terminator ++ t) = joinLines R.before ++
        (R.ybegin ++ crlf ++ (l ++ crlf ++ (joinLines (hd :: (data ++ rest)) ++ (terminator ++ t)))) := by
      simp [lines, hpart, htail, joinLines_append, List.append_assoc]
    rw [hbytes, whole_status, if_pos R.multi, hlines,
      scan_joinLines N.toRapidyenc R.before [] _ h hb (R.before_quiet onMeta strict).1]
    change ∃ d, ((scan N.decodeIncremental accepting (R.beforeFrame onMeta strict) [] 0 _).map
      _).map _ = some d ∧ _
    rw [R.scan_ybegin onMeta strict N hf hbegins hmulti, hafter, hgo, Turn.after, scan_shift,
      scan_block N.toRapidyenc hr' hnb hq]
    refine ⟨_, rfl, rfl, rfl, ?_, rfl⟩
    rw [hlen]
    simp only [Decoded.shift, lines, hpart, htail, Option.toList_some, List.singleton_append,
      joinLines_append, joinLines_cons, List.length_append, crlf_length]
    omega

end

end FrameReply

/-! ## Responses back to back -/

/-- **A well-formed response is read to exactly its end**, whatever
follows. -/
theorem whole_wireReply (N : NntpRapidyenc) (onMeta strict : Bool) (R : WireReply) (t : Bytes) :
    ∃ d, whole N.toRapidyenc onMeta strict (R.bytes ++ t) = some d ∧ d.err = none ∧
      d.r.eof = true ∧ d.read = R.bytes.length ∧ d.rest = t := by
  rcases R with R | R
  · exact whole_textReply N.toRapidyenc onMeta strict R t
  · exact R.read_to_end onMeta strict N t

/-- `Feed` on a fresh response is the line loop from its start. -/
theorem feed_fresh (N : Rapidyenc) (onMeta strict : Bool) (buf : Bytes) :
    feed N.decodeIncremental accepting (fresh onMeta strict) [] buf =
      (whole N onMeta strict buf).map fun d =>
        ⟨⟨d.r, d.read⟩, d.out, d.read, d.rest, d.err.isNone && d.r.eof, d.err⟩ := by
  have hbody : (fresh onMeta strict).body = false := rfl
  have hread : (fresh onMeta strict).bytesConsumed = 0 := rfl
  rw [whole_eq_scan, feed, decode, hbody, hread]
  simp only [Bool.false_eq_true, if_false, Int.zero_add]

/-- The requests of a connection in turn, each with the two flags of its
fresh response: what `Feed` consumed for each, and what is left. -/
def feedReplies (dec : DecodeFn) : List (Bool × Bool) → Bytes → Option (List ℤ × Bytes)
  | [], buf => some ([], buf)
  | (onMeta, strict) :: reqs, buf =>
    match feed dec accepting (fresh onMeta strict) [] buf with
    | none => none
    | some f =>
      if f.done then (feedReplies dec reqs f.rest).map fun x => (f.consumed :: x.1, x.2) else none

/-- **Responses are split at exactly the right byte**: a call of `Feed` on
a well-formed response and anything behind it consumes the response and
reports its end, and so responses sent back to back are taken apart one
by one. -/
theorem feed_frames_replies (N : NntpRapidyenc) :
    (∀ (R : WireReply) (onMeta strict : Bool) (t : Bytes),
      ∃ f, feed N.decodeIncremental accepting (fresh onMeta strict) [] (R.bytes ++ t) = some f ∧
        f.consumed = R.bytes.length ∧ f.done = true ∧ f.err = none ∧ f.rest = t) ∧
    ∀ (xs : List (WireReply × Bool × Bool)) (t : Bytes),
      feedReplies N.decodeIncremental (xs.map Prod.snd)
          ((xs.map fun x => x.1.bytes).flatten ++ t) =
        some (xs.map fun x => (x.1.bytes.length : ℤ), t) := by
  have hone : ∀ (R : WireReply) (onMeta strict : Bool) (t : Bytes),
      ∃ f, feed N.decodeIncremental accepting (fresh onMeta strict) [] (R.bytes ++ t) = some f ∧
        f.consumed = R.bytes.length ∧ f.done = true ∧ f.err = none ∧ f.rest = t := by
    intro R onMeta strict t
    obtain ⟨d, hd, herr, heof, hread, hrest⟩ := whole_wireReply N onMeta strict R t
    rw [feed_fresh N.toRapidyenc, hd]
    exact ⟨_, rfl, hread, by simp [herr, heof], herr, hrest⟩
  refine ⟨hone, fun xs => ?_⟩
  induction xs with
  | nil => intro t; rfl
  | cons x xs ih =>
    intro t
    obtain ⟨R, onMeta, strict⟩ := x
    obtain ⟨f, hf, hcons, hdone, -, hrest⟩ :=
      hone R onMeta strict ((xs.map fun x => x.1.bytes).flatten ++ t)
    rw [List.map_cons, List.map_cons, List.flatten_cons, List.append_assoc]
    simp only [feedReplies, hf, hdone, if_true, hrest, ih t, Option.map_some, hcons, List.map_cons]

/-- A frame without data, and a part number that cannot be read. -/
example : (feed NntpRapidyenc.scalar.decodeIncremental accepting (fresh false false) []
    (ascii "222 0 <a>\r\n=ybegin part=x size=1 name=n\r\n=ypart begin=1 end=1\r\n" ++
      ascii "=yend size=1\r\n.\r\n223 0 <b>\r\n")).map Fed.rest =
        some (ascii "223 0 <b>\r\n") := by
  decide

end Reader

end NntpPool
