import NntpPool.Reader.Drive
/-!
# Reader — what a response shows as it grows

Of a response that is being read the caller can see a status, lines and
decoded bytes. A call only adds to them (`drive_grows`): the status is
set once, lines and bytes are put behind the others. A writer that
refuses a write ends the call at that point, with no more than a writer
that takes everything has seen (`decode_writes`).
-/

namespace NntpPool

namespace Reader

/-- The fields of a decoder that a caller sees while the response is
read. -/
def seen (r : Decoder) : ℤ × Bytes × List Bytes := (r.statusCode, r.message, r.lines)

/-- Without a status there is no message. -/
def Blank (r : Decoder) : Prop := r.statusCode = 0 → r.message = []

/-- **One state of a response, and a later one.** -/
structure Grows (r : Decoder) (out : Bytes) (r' : Decoder) (out' : Bytes) : Prop where
  status : r.statusCode = 0 ∨ r'.statusCode = r.statusCode ∧ r'.message = r.message
  lines : r.lines <+: r'.lines
  out : out <+: out'

section

variable {r r' r'' : Decoder} {out out' out'' : Bytes}

theorem Grows.of_seen (h : seen r' = seen r) (ho : out <+: out') : Grows r out r' out' := by
  simp only [seen, Prod.mk.injEq] at h
  exact ⟨Or.inr ⟨h.1, h.2.1⟩, h.2.2 ▸ List.prefix_refl _, ho⟩

theorem Grows.refl (r : Decoder) (out : Bytes) : Grows r out r out :=
  Grows.of_seen rfl (List.prefix_refl _)

theorem Grows.trans (h : Grows r out r' out') (h' : Grows r' out' r'' out'') :
    Grows r out r'' out'' := by
  refine ⟨?_, h.lines.trans h'.lines, h.out.trans h'.out⟩
  rcases h.status with hs | ⟨hs, hm⟩
  · exact Or.inl hs
  · rcases h'.status with hs' | ⟨hs', hm'⟩
    · exact Or.inl (hs ▸ hs')
    · exact Or.inr ⟨hs'.trans hs, hm'.trans hm⟩

theorem Blank.of_seen (h : seen r' = seen r) (hb : Blank r) : Blank r' := by
  simp only [seen, Prod.mk.injEq] at h
  unfold Blank
  rw [h.1, h.2.1]
  exact hb

/-- **What was seen of a response that comes to `r'` and `out'`**: nothing
of its status or all of it, and a front part of its lines and bytes. -/
structure PartOf (r : Decoder) (out : Bytes) (r' : Decoder) (out' : Bytes) : Prop where
  status : r.statusCode = 0 ∧ r.message = [] ∨
    r.statusCode = r'.statusCode ∧ r.message = r'.message
  lines : r.lines <+: r'.lines
  out : out <+: out'

theorem PartOf.refl (r : Decoder) (out : Bytes) : PartOf r out r out :=
  ⟨Or.inr ⟨rfl, rfl⟩, List.prefix_refl _, List.prefix_refl _⟩

theorem Grows.partOf (h : Grows r out r' out') (hb : Blank r) : PartOf r out r' out' := by
  refine ⟨?_, h.lines, h.out⟩
  rcases h.status with hs | ⟨hs, hm⟩
  · exact Or.inl ⟨hs, hb hs⟩
  · exact Or.inr ⟨hs.symm, hm.symm⟩

/-! ## One turn -/

@[simp] theorem seen_detectFormat (r : Decoder) (line : Bytes) :
    seen (detectFormat r line) = seen r := by
  unfold detectFormat
  split_ifs <;> try rfl
  split
  · split_ifs <;> rfl
  · rfl

@[simp] theorem seen_processYencHeader (r : Decoder) (line : Bytes) :
    seen (processYencHeader r line) = seen r :=
  congrArg (fun c : Core => (c.statusCode, c.message, c.lines)) (core_processYencHeader r line)

@[simp] theorem seen_leaveBody (r : Decoder) (stop : End) : seen (leaveBody r stop) = seen r := by
  unfold leaveBody
  split
  · split_ifs <;> rfl
  · rfl
  · rfl

/-- The native decoder only adds to the output. -/
theorem decodeYenc_grows (dec : DecodeFn) (w : Writer) (r : Decoder) (out buf : Bytes) :
    seen (decodeYenc dec w r out buf).r = seen r ∧ out <+: (decodeYenc dec w r out buf).out := by
  unfold decodeYenc
  dsimp only
  split_ifs
  · exact ⟨rfl, List.prefix_refl _⟩
  · exact ⟨rfl, List.prefix_refl _⟩
  · exact ⟨seen_leaveBody _ _, List.prefix_refl _⟩
  · split
    · exact ⟨rfl, List.prefix_append _ _⟩
    · exact ⟨seen_leaveBody _ _, List.prefix_append _ _⟩

/-- What a turn leaves grows from what it found, and is blank as long as
the response is not over. -/
def Turn.Grows (r : Decoder) (out : Bytes) : Turn → Prop
  | .ret d => Reader.Grows r out d.r d.out ∧
      (Blank r → d.err = none → d.r.eof = false → Blank d.r)
  | .panic => True
  | .goOn r' out' _ _ => Reader.Grows r out r' out' ∧ (Blank r → Blank r')

theorem Turn.Grows.of_seen {t : Turn} (hs : seen r' = seen r) (h : t.Grows r' out) :
    t.Grows r out := by
  have hg : Reader.Grows r out r' out := .of_seen hs (List.prefix_refl _)
  rcases t with d | _ | ⟨_, _, _, _⟩
  · exact ⟨hg.trans h.1, fun hb => h.2 (hb.of_seen hs)⟩
  · trivial
  · exact ⟨hg.trans h.1, fun hb => h.2 (hb.of_seen hs)⟩

variable (dec : DecodeFn) (w : Writer) (line buf : Bytes)

theorem bodyTurn_grows : (bodyTurn dec w r out line buf).Grows r out := by
  obtain ⟨hs, ho⟩ := decodeYenc_grows dec w r out buf
  unfold bodyTurn
  dsimp only
  split
  · trivial
  · split_ifs
    · exact ⟨.of_seen hs ho, fun hb _ _ => hb.of_seen hs⟩
    · exact ⟨.of_seen hs ho, fun hb => hb.of_seen hs⟩

theorem formatTurn_grows : (formatTurn dec w r out line buf).Grows r out := by
  unfold formatTurn
  dsimp only
  split
  · exact ⟨⟨Or.inr ⟨rfl, rfl⟩, List.prefix_append _ _, List.prefix_refl _⟩, fun hb => hb⟩
  · have hs := seen_processYencHeader r line
    split_ifs
    · exact (bodyTurn_grows dec w line buf).of_seen hs
    · exact ⟨.of_seen hs (List.prefix_refl _), fun hb => hb.of_seen hs⟩
  · exact ⟨.refl _ _, fun hb => hb⟩

theorem statusTurn_grows (h : r.statusCode = 0) : (statusTurn r out line buf).Grows r out := by
  have hg : ∀ r', r'.lines = r.lines → Reader.Grows r out r' out := fun r' hl =>
    ⟨Or.inl h, hl ▸ List.prefix_refl _, List.prefix_refl _⟩
  unfold statusTurn
  dsimp only
  split_ifs with herr hmulti
  · exact ⟨hg _ rfl, fun _ hn => by simp at hn⟩
  · refine ⟨hg _ rfl, fun _ hz => ?_⟩
    -- no code that announces lines is zero
    rw [show (atoi (line.take 3)).1 = 0 from hz] at hmulti
    exact absurd hmulti (by decide)
  · exact ⟨hg _ rfl, fun _ _ he => by simp at he⟩

/-- **A turn of the line loop only adds to what is seen.** -/
theorem lineTurn_grows : (lineTurn dec w r out line buf).Grows r out := by
  unfold lineTurn
  dsimp only
  split_ifs with hdot hu hs
  · exact ⟨.of_seen rfl (List.prefix_refl _), fun _ _ he => by simp at he⟩
  · exact statusTurn_grows line buf hs.1
  · exact (formatTurn_grows dec w line buf).of_seen (seen_detectFormat r line)
  · exact formatTurn_grows dec w line buf

end

/-! ## Whole calls -/

section Call

variable (dec : DecodeFn) (w : Writer)

theorem decodeLines_grows (fuel : ℕ) :
    ∀ {r : Decoder} {out : Bytes} {read : ℤ} {buf : Bytes} {d : Decoded},
      decodeLines dec w fuel r out read buf = some d →
      Grows r out d.r d.out ∧ (Blank r → d.err = none → d.r.eof = false → Blank d.r) := by
  induction fuel with
  | zero =>
    intro r out read buf d h
    obtain rfl := Option.some.inj h
    exact ⟨.refl _ _, fun hb _ _ => hb⟩
  | succ fuel ih =>
    intro r out read buf d h
    simp only [decodeLines] at h
    rcases hcut : cut crlf buf with _ | ⟨line, rest⟩
    · rw [hcut] at h
      obtain rfl := Option.some.inj h
      exact ⟨.refl _ _, fun hb _ _ => hb⟩
    · have hturn := @lineTurn_grows r out dec w line rest
      rw [hcut] at h
      dsimp only at h
      rcases hres : lineTurn dec w r out line rest with d' | _ | ⟨r', out', n, buf'⟩
      · rw [hres] at h hturn
        obtain rfl := Option.some.inj h
        exact hturn
      · rw [hres] at h
        cases h
      · rw [hres] at h hturn
        obtain ⟨hg, hb⟩ := ih h
        exact ⟨hturn.1.trans hg, fun hbl => hb (hturn.2 hbl)⟩

/-- What `decode` makes of the native decoder's answer inside a body. -/
def resumeBody (y : YencStep) : Option Decoded :=
  if y.err.isSome then some ⟨y.r, y.out, y.n, y.buf, y.err⟩
  else
    match sliceFrom y.buf y.n with
    | none => none
    | some buf =>
      if y.r.body then some ⟨y.r, y.out, y.n, buf, none⟩ else scan dec w y.r y.out y.n buf

theorem decode_eq_resumeBody {r : Decoder} (hb : r.body = true) (hy : r.format = .yenc)
    (out buf : Bytes) :
    decode dec w r out buf = resumeBody dec w (decodeYenc dec w r out buf) := by
  unfold decode
  rw [if_pos hb, if_pos hy]
  rfl

theorem resumeBody_grows {y : YencStep} {d : Decoded} (h : resumeBody dec w y = some d) :
    Grows y.r y.out d.r d.out ∧ (Blank y.r → d.err = none → d.r.eof = false → Blank d.r) := by
  unfold resumeBody at h
  by_cases he : y.err.isSome
  · rw [if_pos he] at h
    obtain rfl := Option.some.inj h
    exact ⟨.refl _ _, fun hb _ _ => hb⟩
  · rw [if_neg he] at h
    split at h
    · cases h
    · split_ifs at h
      · obtain rfl := Option.some.inj h
        exact ⟨.refl _ _, fun hb _ _ => hb⟩
      · exact decodeLines_grows dec w _ h

/-- **A call only adds to what is seen.** -/
theorem decode_grows {r : Decoder} {out buf : Bytes} {d : Decoded}
    (h : decode dec w r out buf = some d) :
    Grows r out d.r d.out ∧ (Blank r → d.err = none → d.r.eof = false → Blank d.r) := by
  by_cases hb : r.body = true
  · by_cases hy : r.format = .yenc
    · obtain ⟨hs, ho⟩ := decodeYenc_grows dec w r out buf
      rw [decode_eq_resumeBody dec w hb hy] at h
      obtain ⟨hg, hbl⟩ := resumeBody_grows dec w h
      exact ⟨(Grows.of_seen hs ho).trans hg, fun h' => hbl (h'.of_seen hs)⟩
    · rw [decode, if_pos hb, if_neg hy] at h
      obtain rfl := Option.some.inj h
      exact ⟨.refl _ _, fun hbl _ _ => hbl⟩
  · rw [decode, if_neg hb] at h
    exact decodeLines_grows dec w _ h

theorem drive_grows {r : Decoder} {out buf : Bytes} {d : Decoded}
    (h : drive dec w r out buf = some d) :
    Grows r out d.r d.out ∧ (Blank r → d.err = none → d.r.eof = false → Blank d.r) := by
  unfold drive at h
  split_ifs at h
  · exact decodeLines_grows dec w _ h
  · exact decode_grows dec w h

end Call

/-! ## A writer that refuses -/

section Writer

variable (N : Rapidyenc) (w : Writer) {r : Decoder}

/-- The native decoder with a writer: all is as with one that takes
everything, or the write is refused. -/
theorem decodeYenc_writes (hs : r.state ≠ .crlfeq) (out buf : Bytes) :
    decodeYenc N.decodeIncremental w r out buf =
        decodeYenc N.decodeIncremental accepting r out buf ∨
      ((decodeYenc N.decodeIncremental w r out buf).err ≠ none ∧
        (decodeYenc N.decodeIncremental w r out buf).n = 0 ∧
        seen (decodeYenc N.decodeIncremental w r out buf).r = seen r ∧
        Grows (decodeYenc N.decodeIncremental w r out buf).r
          (decodeYenc N.decodeIncremental w r out buf).out
          (decodeYenc N.decodeIncremental accepting r out buf).r
          (decodeYenc N.decodeIncremental accepting r out buf).out) := by
  have hacc : decodeYenc N.decodeIncremental accepting r out buf = _ :=
    decodeYenc_of_accepts N hs (Or.inr rfl)
  by_cases hout : (N.run r.state buf).out = []
  · exact Or.inl ((decodeYenc_of_accepts N hs (Or.inl hout)).trans hacc.symm)
  · rcases hw : w out (N.run r.state buf).out with _ | ⟨k, e⟩
    · exact Or.inl ((decodeYenc_of_accepts N hs (Or.inr hw)).trans hacc.symm)
    · have hseen := (decodeYenc_grows N.decodeIncremental accepting r out buf).1
      rw [hacc] at hseen
      rw [decodeYenc_of_refuses N hout hw, hacc]
      refine Or.inr ⟨by simp, rfl, rfl, .of_seen hseen ?_⟩
      exact (List.prefix_append_right_inj _).mpr (List.take_prefix _ _)

/-- **A turn with a writer, and with one that takes everything.** -/
inductive Turn.Writes (r : Decoder) : Turn → Turn → Prop
  | same (t : Turn) : Writes r t t
  | refused {d : Decoded} {t : Turn} (herr : d.err ≠ none) (hb : Blank r → Blank d.r)
    (h : t.Grows d.r d.out) : Writes r (.ret d) t

theorem bodyTurn_writes (hs : r.state ≠ .crlfeq) (out line buf : Bytes) :
    Turn.Writes r (bodyTurn N.decodeIncremental w r out line buf)
      (bodyTurn N.decodeIncremental accepting r out line buf) := by
  rcases decodeYenc_writes N w hs out buf with heq | ⟨herr, hn, hseen, hg⟩
  · have : bodyTurn N.decodeIncremental w r out line buf =
        bodyTurn N.decodeIncremental accepting r out line buf := by
      simp only [bodyTurn, heq]
    rw [this]
    exact .same _
  · have hslice : ∀ b : Bytes, sliceFrom b 0 = some b := fun b => by simp [sliceFrom]
    have hret : bodyTurn N.decodeIncremental w r out line buf =
        .ret ⟨(decodeYenc N.decodeIncremental w r out buf).r,
          (decodeYenc N.decodeIncremental w r out buf).out, line.length + 2 + 0,
          (decodeYenc N.decodeIncremental w r out buf).buf,
          (decodeYenc N.decodeIncremental w r out buf).err⟩ := by
      simp only [bodyTurn, hn, hslice, Option.isSome_iff_ne_none.mpr herr, true_or, if_true]
    have hseen' := (decodeYenc_grows N.decodeIncremental accepting r out buf).1
    rw [hret]
    refine .refused herr (fun hb => hb.of_seen hseen) ?_
    unfold bodyTurn
    dsimp only
    split
    · trivial
    · split_ifs
      · exact ⟨hg, fun hb _ _ => hb.of_seen (hseen'.trans hseen.symm)⟩
      · exact ⟨hg, fun hb => hb.of_seen (hseen'.trans hseen.symm)⟩

theorem Turn.Writes.of_seen {r' : Decoder} {t t' : Turn} (hs : seen r' = seen r)
    (h : Turn.Writes r' t t') : Turn.Writes r t t' := by
  cases h with
  | same t => exact .same t
  | refused herr hb h => exact .refused herr (fun hbl => hb (hbl.of_seen hs)) h

theorem formatTurn_writes (hs : r.state ≠ .crlfeq) (out line buf : Bytes) :
    Turn.Writes r (formatTurn N.decodeIncremental w r out line buf)
      (formatTurn N.decodeIncremental accepting r out line buf) := by
  unfold formatTurn
  dsimp only
  split
  · exact .same _
  · split_ifs
    · refine (bodyTurn_writes N w ?_ out line buf).of_seen (seen_processYencHeader r line)
      rwa [processYencHeader_state]
    · exact .same _
  · exact .same _

theorem lineTurn_writes (hs : r.state ≠ .crlfeq) (out line buf : Bytes) :
    Turn.Writes r (lineTurn N.decodeIncremental w r out line buf)
      (lineTurn N.decodeIncremental accepting r out line buf) := by
  unfold lineTurn
  dsimp only
  split_ifs
  · exact .same _
  · exact .same _
  · refine (formatTurn_writes N w ?_ out line buf).of_seen (seen_detectFormat r line)
    rwa [detectFormat_state]
  · exact formatTurn_writes N w hs out line buf

/-- **A call with a writer comes to the same as with one that takes
everything**, or ends at a write that was refused. -/
def Writes (r : Decoder) (d d' : Decoded) : Prop :=
  d = d' ∨ d.err ≠ none ∧ (Blank r → Blank d.r) ∧ Grows d.r d.out d'.r d'.out

theorem decodeLines_writes (fuel : ℕ) :
    ∀ {r : Decoder} {out : Bytes} {read : ℤ} {buf : Bytes} {d d' : Decoded}, Clear r →
      decodeLines N.decodeIncremental w fuel r out read buf = some d →
      decodeLines N.decodeIncremental accepting fuel r out read buf = some d' →
      Writes r d d' := by
  induction fuel with
  | zero =>
    intro r out read buf d d' _ h h'
    exact Or.inl (Option.some.inj (h.symm.trans h'))
  | succ fuel ih =>
    intro r out read buf d d' hc h h'
    simp only [decodeLines] at h h'
    rcases hcut : cut crlf buf with _ | ⟨line, rest⟩
    · rw [hcut] at h h'
      exact Or.inl (Option.some.inj (h.symm.trans h'))
    · have hturn := lineTurn_writes N w hc.1 out line rest
      have hkeep := lineTurn_keeps N accepting out line rest hc
      have hblank := @lineTurn_grows r out N.decodeIncremental accepting line rest
      rw [hcut] at h h'
      dsimp only at h h'
      generalize lineTurn N.decodeIncremental w r out line rest = t at h hturn
      generalize lineTurn N.decodeIncremental accepting r out line rest = t' at h' hturn hkeep hblank
      cases hturn with
      | same t =>
        rcases t with e | _ | ⟨r', out', n, buf'⟩
        · exact Or.inl (Option.some.inj (h.symm.trans h'))
        · cases h
        · rcases ih hkeep.1 h h' with heq | ⟨herr, hb, hg⟩
          · exact Or.inl heq
          · exact Or.inr ⟨herr, fun hbl => hb (hblank.2 hbl), hg⟩
      | @refused e t' herr hb hg =>
        obtain rfl := Option.some.inj h
        rcases t' with e' | _ | ⟨r', out', n, buf'⟩
        · obtain rfl := Option.some.inj h'
          exact Or.inr ⟨herr, hb, hg.1⟩
        · cases h'
        · exact Or.inr ⟨herr, hb, hg.1.trans (decodeLines_grows _ _ _ h').1⟩

theorem resumeBody_writes {y : YencStep} {d d' : Decoded} (hc : y.r.body = false → Clear y.r)
    (h : resumeBody N.decodeIncremental w y = some d)
    (h' : resumeBody N.decodeIncremental accepting y = some d') : Writes y.r d d' := by
  unfold resumeBody at h h'
  by_cases he : y.err.isSome
  · rw [if_pos he] at h h'
    exact Or.inl (Option.some.inj (h.symm.trans h'))
  · rw [if_neg he] at h h'
    rcases hb : sliceFrom y.buf y.n with _ | buf
    · rw [hb] at h
      cases h
    · rw [hb] at h h'
      by_cases hb : y.r.body
      · simp only [if_pos hb] at h h'
        exact Or.inl (Option.some.inj (h.symm.trans h'))
      · simp only [if_neg hb] at h h'
        exact decodeLines_writes N w _ (hc (by simpa using hb)) h h'

theorem decode_writes {out buf : Bytes} {d d' : Decoded} (hs : Settled r)
    (h : decode N.decodeIncremental w r out buf = some d)
    (h' : decode N.decodeIncremental accepting r out buf = some d') : Writes r d d' := by
  by_cases hb : r.body = true
  · by_cases hy : r.format = .yenc
    · rw [decode_eq_resumeBody _ _ hb hy] at h h'
      have hseen' := (decodeYenc_grows N.decodeIncremental accepting r out buf).1
      rcases decodeYenc_writes N w hs.state_ne out buf with heq | ⟨herr, -, hseen, hg⟩
      · have hy' : decodeYenc N.decodeIncremental accepting r out buf = _ :=
          decodeYenc_of_accepts N hs.state_ne (Or.inr rfl)
        have hset := settled_settle N hb buf
        rw [heq] at h
        have hw := resumeBody_writes N w (fun hf => by rw [hy'] at hf ⊢; exact hset.clear hf) h h'
        rcases hw with hw | ⟨he, hbl, hg⟩
        · exact Or.inl hw
        · exact Or.inr ⟨he, fun hr => hbl (hr.of_seen hseen'), hg⟩
      · -- the write was refused, and the call ends there
        rw [resumeBody, if_pos (Option.isSome_iff_ne_none.mpr herr)] at h
        obtain rfl := Option.some.inj h
        exact Or.inr ⟨herr, fun hbl => hbl.of_seen hseen, hg.trans (resumeBody_grows _ _ h').1⟩
    · rw [decode, if_pos hb, if_neg hy] at h h'
      exact Or.inl (Option.some.inj (h.symm.trans h'))
  · rw [decode, if_neg hb] at h h'
    exact decodeLines_writes N w _ (hs.clear (by simpa using hb)) h h'

end Writer

end Reader

end NntpPool
