import NntpPool.Reader.Integrity
import NntpPool.Reader.Stuffing
import NntpPool.Reader.Yenc
/-!
# Reader — yEnc text is read back

The yEnc format leaves much to the encoder: which bytes it escapes beyond
those it must, and where its lines end. A server stuffs dots on top of it,
and the network cuts the whole anywhere. `body_read_back` says that none
of it is seen: the bytes that come out are the bytes that went in, and
what the response holds is what its header lines and those bytes say.
-/

namespace NntpPool

namespace Reader

/-! ## The text -/

/-- **A byte as an encoder writes it**: shifted by 42, or behind an escape
by 64 more. What would then be a line end or an escape has to be escaped,
and what would be a line end or the `y` of a header must not be. -/
structure Symbol where
  byte : UInt8
  escaped : Bool
  plain : escaped = false → byte + 42 ∉ [13, 10, equals]
  special : escaped = true → byte + 106 ∉ [13, 10, letterY]

theorem Symbol.special_of_mem {b : UInt8} (h : decide (b + 42 ∈ [13, 10, equals]) = true) :
    b + 106 ∉ [13, 10, letterY] := by
  rw [show b + 106 = b + 42 + 64 by rw [UInt8.add_assoc]; rfl]
  simp only [decide_eq_true_eq, List.mem_cons, List.not_mem_nil, or_false] at h
  rcases h with h | h | h <;> rw [h] <;> decide

/-- An encoder that escapes only what it must. -/
def Symbol.ofByte (b : UInt8) : Symbol where
  byte := b
  escaped := decide (b + 42 ∈ [13, 10, equals])
  plain := of_decide_eq_false
  special := Symbol.special_of_mem

/-- What is written for it. -/
def Symbol.code (x : Symbol) : Bytes :=
  if x.escaped then [equals, x.byte + 106] else [x.byte + 42]

/-- A line of the text as it is sent. -/
def codeLine (xs : List Symbol) : Bytes := stuff (xs.flatMap Symbol.code)

theorem Symbol.cr_notMem_code (x : Symbol) : (13 : UInt8) ∉ x.code := by
  obtain ⟨b, escaped, hplain, hspecial⟩ := x
  intro hmem
  cases escaped with
  | false =>
    have hb : 13 = b + 42 := by simpa [Symbol.code] using hmem
    exact hplain rfl (by simp [← hb])
  | true =>
    have hb : 13 = b + 106 := by simpa [Symbol.code, equals] using hmem
    exact hspecial rfl (by simp [← hb])

theorem codeLine_cons (x : Symbol) (xs : List Symbol) :
    codeLine (x :: xs) = (if x.code.head? = some dot then [dot] else []) ++
      (x.code ++ xs.flatMap Symbol.code) := by
  have hhead : (x.code ++ xs.flatMap Symbol.code).head? = x.code.head? := by
    unfold Symbol.code
    split_ifs <;> rfl
  rw [codeLine, List.flatMap_cons, stuff, hhead]
  split_ifs <;> rfl

/-- **A line of the text is a data line.** -/
theorem isData_codeLine (xs : List Symbol) : IsData (codeLine xs) := by
  have hcr : (13 : UInt8) ∉ xs.flatMap Symbol.code := by
    simp only [List.mem_flatMap, not_exists, not_and]
    exact fun x _ => x.cr_notMem_code
  refine ⟨(isText_stuff hcr).1, fun hdot => ?_, ?_⟩
  · unfold codeLine stuff at hdot ⊢
    split_ifs at hdot ⊢ with h
    · simpa using h
    · exact absurd hdot h
  · intro hy
    cases xs with
    | nil => cases hy
    | cons x xs =>
      obtain ⟨b, escaped, hplain, hspecial⟩ := x
      rw [codeLine_cons] at hy
      cases escaped with
      | false =>
        have hb : equals = b + 42 := by
          split_ifs at hy
          · simp [ascii, dot] at hy
          · simp only [Symbol.code, ascii] at hy
            exact (List.cons_prefix_cons.mp (List.isPrefixOf_iff_prefix.mp hy)).1
        exact hplain rfl (by simp [← hb])
      | true =>
        have hb : letterY = b + 106 := by
          simpa [Symbol.code, ascii, equals, dot, letterY] using hy
        exact hspecial rfl (by simp [← hb])

/-! ## The native decoder -/

/-- **What is assumed of the native decoder beyond its states**: the
arithmetic of yEnc. -/
structure Decodes (N : Rapidyenc) : Prop where
  plain : ∀ s b, s = .none ∨ s = .crlf ∧ b ≠ dot ∨ s = .crlfdt → b ∉ [13, 10, equals] →
    N.next s b = .none ∧ N.emit s b = some (b - 42)
  escape : N.next .none equals = .eq ∧ N.emit .none equals = none
  escaped : ∀ s b, s = .eq ∨ s = .crlfeq → b ∉ [13, 10, letterY] →
    N.next s b = .none ∧ N.emit s b = some (b - 106)
  stuffed : N.next .crlf dot = .crlfdt
  lineEnd : N.emit .none 13 = none ∧ N.emit .crlf 13 = none ∧ N.emit .cr 10 = none

theorem Decodes.scalar : Decodes Rapidyenc.scalar where
  plain := by
    intro s b hs hb
    simp only [List.mem_cons, List.not_mem_nil, or_false, not_or] at hb
    rcases hs with rfl | ⟨rfl, hdot⟩ | rfl <;>
      simp_all [Rapidyenc.scalar, Rapidyenc.scalarNext, Rapidyenc.scalarEmit, Rapidyenc.scalarStop]
  escape := by decide
  escaped := by
    intro s b hs hb
    simp only [List.mem_cons, List.not_mem_nil, or_false, not_or] at hb
    rcases hs with rfl | rfl <;> rcases eq_or_ne b equals with rfl | heq <;>
      simp_all [Rapidyenc.scalar, Rapidyenc.scalarNext, Rapidyenc.scalarEmit, Rapidyenc.scalarStop]
  stuffed := by decide
  lineEnd := by decide

section Native

variable {N : Rapidyenc} {s : State}

/-- What a byte emits, and what the rest does. -/
theorem out_cons {b : UInt8} {t : Bytes} (h : ¬ (s = .crlfeq ∧ b = letterY))
    (h' : ¬ (s = .crlfdtcr ∧ b = 10)) :
    (N.run s (b :: t)).out = (N.emit s b).toList ++ (N.run (N.next s b) t).out := by
  rw [Transducer.run_cons_of_running (N.stop_eq_none h h')]

/-- The end of a line emits nothing. -/
theorem Decodes.out_crlf (hN : Decodes N) (hs : s = .none ∨ s = .crlf) :
    (N.run s crlf).out = [] := by
  have hemit : N.emit s 13 = none := by
    rcases hs with rfl | rfl
    · exact hN.lineEnd.1
    · exact hN.lineEnd.2.1
  rw [crlf, out_cons (by simp [letterY]) (by simp), hemit,
    N.next_cr s (by rcases hs with rfl | rfl <;> simp), out_cons (by simp) (by simp),
    hN.lineEnd.2.2]
  rfl

/-- **A symbol is read back**, within a line, at its start, and behind the
dot it was stuffed with. -/
theorem Decodes.out_code (hN : Decodes N) (x : Symbol) (t : Bytes)
    (hs : s = .none ∨ s = .crlf ∧ x.code.head? ≠ some dot ∨
      s = .crlfdt ∧ x.code.head? = some dot) :
    (N.run s (x.code ++ t)).out = x.byte :: (N.run .none t).out := by
  obtain ⟨b, escaped, hplain, hspecial⟩ := x
  cases escaped with
  | false =>
    have hstate : s = .none ∨ s = .crlf ∧ b + 42 ≠ dot ∨ s = .crlfdt := by
      simpa [Symbol.code] using hs.imp_right (Or.imp_right And.left)
    obtain ⟨hnext, hemit⟩ := hN.plain s (b + 42) hstate (hplain rfl)
    change (N.run s ((b + 42) :: t)).out = _
    rw [out_cons, hnext, hemit]
    · simp
    all_goals rcases hstate with rfl | ⟨rfl, -⟩ | rfl <;> simp
  | true =>
    -- the escape leads to a state of its own at the start of a line
    obtain ⟨s', hs', hout⟩ : ∃ s', (s' = .eq ∨ s' = .crlfeq) ∧
        (N.run s (equals :: (b + 106) :: t)).out = (N.run s' ((b + 106) :: t)).out := by
      rcases hs with rfl | ⟨rfl, -⟩ | ⟨-, hdot⟩
      · refine ⟨.eq, .inl rfl, ?_⟩
        rw [out_cons (by simp) (by simp), hN.escape.1, hN.escape.2]
        rfl
      · refine ⟨.crlfeq, .inr rfl, ?_⟩
        rw [out_cons (by simp) (by simp), N.next_equals, N.emit_marker _ _ (.inl N.next_equals)]
        rfl
      · simp [Symbol.code, equals, dot] at hdot
    obtain ⟨hnext, hemit⟩ := hN.escaped s' (b + 106) hs' (hspecial rfl)
    change (N.run s (equals :: (b + 106) :: t)).out = _
    rw [hout, out_cons, hnext, hemit]
    · simp
    · exact fun h => hspecial rfl (by simp [h.2])
    · rcases hs' with rfl | rfl <;> simp

theorem Decodes.out_symbols (hN : Decodes N) (xs : List Symbol) (t : Bytes) :
    (N.run .none (xs.flatMap Symbol.code ++ t)).out =
      xs.map Symbol.byte ++ (N.run .none t).out := by
  induction xs with
  | nil => rfl
  | cons x xs ih =>
    rw [List.flatMap_cons, List.append_assoc, hN.out_code x _ (.inl rfl), ih]
    rfl

/-- **A line is read back.** -/
theorem Decodes.out_codeLine (hN : Decodes N) (xs : List Symbol) :
    (N.run .crlf (codeLine xs ++ crlf)).out = xs.map Symbol.byte := by
  cases xs with
  | nil => exact hN.out_crlf (.inr rfl)
  | cons x xs =>
    have hrest : (N.run .none (xs.flatMap Symbol.code ++ crlf)).out = xs.map Symbol.byte := by
      rw [hN.out_symbols, hN.out_crlf (.inl rfl), List.append_nil]
    rw [codeLine_cons]
    split_ifs with hdot
    · -- the dot in front is taken off
      rw [List.append_assoc, List.singleton_append, out_cons (by simp) (by simp), hN.stuffed,
        N.emit_marker _ _ (.inr (.inl hN.stuffed)), List.append_assoc,
        hN.out_code x _ (.inr (.inr ⟨rfl, hdot⟩)), hrest]
      rfl
    · rw [List.nil_append, List.append_assoc, hN.out_code x _ (.inr (.inl ⟨rfl, hdot⟩)), hrest]
      rfl

/-- **The text is read back.** -/
theorem Decodes.out_text (hN : Decodes N) (text : List (List Symbol)) :
    (N.run .crlf (joinLines (text.map codeLine))).out = text.flatten.map Symbol.byte := by
  induction text with
  | nil => rfl
  | cons xs text ih =>
    obtain ⟨hrun, hstate⟩ := N.run_dataLine (isData_codeLine xs)
    rw [List.map_cons, joinLines_cons, Transducer.run_append_of_running _ hrun, hstate, ih,
      hN.out_codeLine, List.flatten_cons, List.map_append]

end Native

/-! ## What a frame leaves -/

section Frame

variable (N : Rapidyenc) {r start : Decoder} {quiet : List Bytes} {last : Bytes}

/-- **The decoder that enters the body** has noted the header lines. -/
theorem Enters.start_eq (h : Enters r quiet last start) (hdot : last ≠ ascii ".")
    (hstatus : r.statusCode ≠ 0) : start = (quiet ++ [last]).foldl noteLine r := by
  -- on an empty buffer the body is entered and nothing is read
  have hturn := h.turn Rapidyenc.scalar.decodeIncremental accepting [] []
  have hbody : bodyTurn Rapidyenc.scalar.decodeIncremental accepting start [] last [] =
      .ret ⟨start, [], last.length + 2 + 0, [], none⟩ := by
    simp [bodyTurn, decodeYenc, sliceFrom, h.inBody.1]
  have hsc : (quiet.foldl noteLine r).statusCode ≠ 0 := by
    rwa [foldl_noteLine_statusCode]
  rw [hbody] at hturn
  rw [List.foldl_append, List.foldl_cons, List.foldl_nil]
  generalize quiet.foldl noteLine r = q at hturn hsc
  have hformat (q : Decoder)
      (h : formatTurn Rapidyenc.scalar.decodeIncremental accepting q [] last [] =
        .ret ⟨start, [], last.length + 2 + 0, [], none⟩) : start = formatNote q last := by
    unfold formatTurn at h
    unfold formatNote
    cases hf : q.format with
    | unknown => simp [hf] at h
    | uu => simp [hf] at h
    | yenc =>
      cases hb : (processYencHeader q last).body with
      | false => simp [hf, hb] at h
      | true =>
        simp only [hf, hb, if_true, bodyTurn, decodeYenc, sliceFrom] at h
        simpa [hb] using h.symm
  have hst : ¬ (q.statusCode = 0 ∧ 3 ≤ last.length) := fun hc => hsc hc.1
  simp only [lineTurn, if_neg hdot, if_neg hst] at hturn
  rw [noteLine]
  split_ifs at hturn ⊢ with hu
  · exact hformat _ hturn
  · exact hformat _ hturn

/-- The decoder behind the data of a frame. -/
def behindData (start : Decoder) (s : State) (out : Bytes) : Decoder :=
  { start with
    state := s, body := false
    crc := crc32Update start.crc out
    bytesDecoded := start.bytesDecoded + out.length }

/-- **A reply whose body is entered**, read in one call. -/
theorem YencReply.whole_of_enters (onMeta strict : Bool) (R : YencReply)
    (hheaders : R.frame.headers = quiet ++ [last])
    (h : Enters (R.beforeFrame onMeta strict) quiet last start) :
    ∃ s read, whole N onMeta strict R.bytes =
      some ⟨{ R.tail.foldl noteLine (behindData start s
        (N.run .crlf (joinLines R.frame.data)).out) with eof := true },
        (N.run .crlf (joinLines R.frame.data)).out, read, [], none⟩ := by
  obtain ⟨hr, hb⟩ := ready_afterStatus onMeta strict R.status
  obtain ⟨hr', hb'⟩ := R.ready_beforeFrame onMeta strict
  obtain ⟨hstop, -, hout⟩ := N.run_frame R.frame.isData (R.tail_front terminator)
  obtain ⟨r', hgo, hready, hnb, hbody, hformat, hcode, -⟩ :=
    bodyGo_frame N h.ready h.inBody h.state R.frame.isData (R.tail_front terminator) []
  have hr'' : r' = behindData start
      (N.run .crlf (joinLines R.frame.data ++ (joinLines R.tail ++ terminator))).state
      (N.run .crlf (joinLines R.frame.data)).out := by
    unfold bodyGo at hgo
    rw [h.state] at hgo
    simp only [hstop, Option.isSome_some, if_true, Turn.goOn.injEq] at hgo
    rw [← hgo.1, settle, hstop, ← hout]
    rfl
  have htail := R.tail_quiet (hcode ▸ R.start_statusCode onMeta strict h) hformat hbody
  have hbytes : R.bytes = R.status.text ++ crlf ++ (joinLines (R.before ++ quiet) ++
      (last ++ crlf ++ (joinLines R.frame.data ++ (joinLines R.tail ++ (terminator ++ []))))) := by
    simp [R.bytes_eq hheaders]
  rw [hbytes, whole_status, if_pos R.multi,
    scan_joinLines N _ [] _ hr hb (R.quiet_of_enters onMeta strict h), List.foldl_append,
    show R.before.foldl noteLine _ = R.beforeFrame onMeta strict from rfl,
    scan_enters N hr' hb' h, List.append_nil, hgo, Turn.after, scan_shift,
    ← List.append_nil terminator, scan_block N hready hnb htail, hr'']
  exact ⟨_, _, rfl⟩

end Frame

/-- **What was encoded is read back.** A reply to BODY or ARTICLE whose
frame holds an encoding of some bytes comes to exactly these bytes,
whatever the encoder escaped, wherever its lines end and however the reply
is cut; and the response is left as its lines and the bytes say. -/
theorem body_read_back (N : Rapidyenc) (hN : Decodes N) (onMeta strict : Bool) (R : YencReply)
    (hcode : R.status.code = nntpBody ∨ R.status.code = nntpArtiicle)
    (hformat : (R.beforeFrame onMeta strict).format = .unknown) (text : List (List Symbol))
    (hdata : R.frame.data = text.map codeLine) (chunks : List Bytes)
    (hflat : chunks.flatten = R.bytes) (hne : ∀ c ∈ chunks, c ≠ []) :
    ∃ f s, feedChunks N.decodeIncremental onMeta strict chunks = some f ∧ f.done = true ∧
      f.out = text.flatten.map Symbol.byte ∧ f.r.bytesDecoded = f.out.length ∧
      f.r.crc = crc32Update 0 f.out ∧
      f.r.toDecoder = { R.tail.foldl noteLine (behindData
        (R.frame.headers.foldl noteLine (R.beforeFrame onMeta strict)) s f.out) with
        eof := true } := by
  have hstatus := R.beforeFrame_statusCode onMeta strict
  rcases R.idle_or_enters onMeta strict with (huu | ⟨-, hno⟩) | ⟨-, quiet, last, start, hheaders, h⟩
  · cases hformat.symm.trans huu
  · rw [hstatus] at hno
    exact absurd hcode (not_or.mpr hno)
  have hmem : last ∈ R.frame.lines := by simp [Frame.lines, hheaders]
  have hstart := h.start_eq (R.frame.isText last hmem).2
    (hstatus ▸ StatusLine.code_ne_zero R.multi)
  rw [← hheaders] at hstart
  obtain ⟨s, read, hwhole⟩ := R.whole_of_enters N onMeta strict hheaders h
  rw [hdata, hN.out_text, hstart] at hwhole
  have huu : uuBodyEnd (afterStatus onMeta strict R.status) R.before = none := by
    rw [uuBodyEnd_eq_none_iff rfl]
    exact fun hc => by cases hformat.symm.trans hc.2
  obtain ⟨f, g, hf, hg, hdone, -, hout, hr⟩ := (feedChunks_spec N onMeta strict none
    ⟨_, hwhole, rfl, rfl, rfl⟩
    (fun p c b d hp hc hd => (whole_yencReply_front N onMeta strict R hp
      (fun hpc => hc (by simpa [hpc] using hp : c = [] ∧ b = []).1) hd).1)
    (by
      rintro p d ⟨b, hp⟩ hpne hd
      rw [(whole_yencReply_front N onMeta strict R (c := b) (b := []) (by simpa using hp)
        hpne hd).2, huu]
      simp)
    hflat hne R.bytes_ne_nil).1 (by simp)
  -- one call on the whole reply
  have hone : g.out = text.flatten.map Symbol.byte := by
    rw [feedChunks, feedLoop, if_neg (by simp)] at hg
    obtain ⟨f₁, hf₁, hg⟩ := Option.bind_eq_some_iff.mp hg
    obtain ⟨d, hd, rfl⟩ := Option.map_eq_some_iff.mp hf₁
    rw [decode, if_neg (by simp [fresh]), List.nil_append, ← whole_eq_scan, hwhole] at hd
    cases hd
    cases hg
    rfl
  have hledger := Ledger.entered.feedLoop N.decodeIncremental accepting (Ledger.fresh onMeta strict)
    hf (feedLoop_done N.decodeIncremental accepting (fun _ => rfl) hf hdone)
  refine ⟨f, s, hf, hdone, hout.trans hone, hledger.bytesDecoded, hledger.crc, ?_⟩
  rw [hout, hone]
  exact hr _ hwhole

/-- Two lines: the first starts with a stuffed dot, the second with an
escape. -/
def dottedText : List (List Symbol) := [[4, 65], [19, 66]].map (List.map Symbol.ofByte)

theorem dottedText_isData : ∀ l ∈ dottedText.map codeLine, IsData l := by
  simp only [List.forall_mem_map]
  exact fun xs _ => isData_codeLine xs

def dottedReply : YencReply :=
  { textFramed with
    frame := { smallFrame with data := dottedText.map codeLine, isData := dottedText_isData } }

/-- It is read back, cut within the escape. -/
theorem body_read_back_dotted :
    ∃ f, feedChunks Rapidyenc.scalar.decodeIncremental true true (cutAt 55 dottedReply) = some f ∧
      f.done = true ∧ f.out = [4, 65, 19, 66] := by
  obtain ⟨f, s, hf, hdone, hout, -⟩ := body_read_back Rapidyenc.scalar Decodes.scalar true true
    dottedReply (.inl (by decide)) (by decide) dottedText rfl (cutAt 55 dottedReply)
    (by simp [cutAt]) (by decide)
  exact ⟨f, hf, hdone, hout⟩

end Reader

end NntpPool
