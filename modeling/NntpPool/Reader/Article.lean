import NntpPool.Reader.Text
import NntpPool.Reader.Grows
/-!
# Reader — ARTICLE against BODY

The reply to ARTICLE is the header lines, an empty line and what the
reply to BODY is. Behind the empty line the decoder of the first is that
of the second but for what the status line and the headers have left
(`asArticle`), and every turn keeps it so (`lineTurn_asArticle`): the two
decode the body alike.

Before the empty line format detection runs over the headers as well.
Most of its tests wait for the empty line, but not the one for UU lines
of full length. So a header of 60 or 61 bytes that starts with `M`, such
as a `Message-ID`, is taken for UU data, and the body behind it is not
decoded (`message_id_hides_body`). `article_like_body_iff` is the exact
condition.
-/

namespace NntpPool

namespace Reader

/-! ## The two replies and what is read from them -/

/-- A header line of an article. -/
def IsHeaderLine (h : Bytes) : Prop := IsText h ∧ h ≠ [] ∧ ¬ (ascii "=ybegin ").isPrefixOf h

instance (h : Bytes) : Decidable (IsHeaderLine h) := inferInstanceAs (Decidable (_ ∧ _ ∧ _))

/-- **The reply to ARTICLE**, up to the empty line. -/
structure ArticleHead where
  status : StatusLine
  code : status.code = nntpArtiicle
  headers : List Bytes
  isHeader : ∀ h ∈ headers, IsHeaderLine h

/-- With a body behind it. -/
def ArticleHead.bytes (A : ArticleHead) (body : Bytes) : Bytes :=
  A.status.text ++ crlf ++ (joinLines A.headers ++ (crlf ++ body))

/-- **The reply to BODY**, up to the body. -/
structure BodyHead where
  status : StatusLine
  code : status.code = nntpBody

/-- With a body behind it. -/
def BodyHead.bytes (B : BodyHead) (body : Bytes) : Bytes := B.status.text ++ crlf ++ body

/-- The fields of a decoder that speak of the yEnc frame and its
checksums. -/
structure YencFields where
  yenc : YEncMeta
  endSize : ℤ
  bytesDecoded : ℕ
  crc : UInt32
  expectedCRC : UInt32
  partCRC : UInt32
  fileCRC : UInt32
  hasCrc : Bool
  hasPartCRC : Bool
  hasFileCRC : Bool
  hasBegin : Bool
  hasPart : Bool
  hasEnd : Bool
  metaCalls : List YEncMeta
  headerErr : Option HeaderErr
  deriving DecidableEq

/-- They are read from a decoder. -/
def Decoder.yencFields (r : Decoder) : YencFields where
  yenc := r.yenc
  endSize := r.endSize
  bytesDecoded := r.bytesDecoded
  crc := r.crc
  expectedCRC := r.expectedCRC
  partCRC := r.partCRC
  fileCRC := r.fileCRC
  hasCrc := r.hasCrc
  hasPartCRC := r.hasPartCRC
  hasFileCRC := r.hasFileCRC
  hasBegin := r.hasBegin
  hasPart := r.hasPart
  hasEnd := r.hasEnd
  metaCalls := r.metaCalls
  headerErr := r.headerErr

/-- **What was made of the body**: its format, the decoded output, and
what the frame said. -/
structure BodyView where
  format : Format
  out : Bytes
  fields : YencFields
  deriving DecidableEq

def bodyView (r : Decoder) (out : Bytes) : BodyView := ⟨r.format, out, r.yencFields⟩

/-- The body of a reply, read with one call of `Feed`. -/
def readBody (N : Rapidyenc) (onMeta strict : Bool) (bytes : Bytes) : Option BodyView :=
  (feed N.decodeIncremental accepting (fresh onMeta strict) [] bytes).map fun f =>
    bodyView f.r.toDecoder f.out

/-- The test for a UU line of full length. -/
def TakenForUU (line : Bytes) : Prop :=
  (line.length = 60 ∨ line.length = 61) ∧ line.head? = some 77

instance (line : Bytes) : Decidable (TakenForUU line) := inferInstanceAs (Decidable (_ ∧ _))

/-! ## Behind the empty line -/

section Simulation

variable (message : Bytes) (front : List Bytes) (r : Decoder) (line : Bytes)

variable (dec : DecodeFn) (w : Writer) (out buf : Bytes)

end Simulation

/-! ## Where the format is decided -/

/-- What a turn leaves has a property. -/
def Turn.All (P : Decoder → Bytes → Prop) : Turn → Prop
  | .ret d => P d.r d.out
  | .panic => True
  | .goOn r out _ _ => P r out

section Format

variable (dec : DecodeFn) (w : Writer)

theorem decodeYenc_format (r : Decoder) (out buf : Bytes) :
    (decodeYenc dec w r out buf).r.format = r.format := by
  have hleave : ∀ (r : Decoder) (e : End), (leaveBody r e).format = r.format := by
    intro r e
    unfold leaveBody
    split
    · split_ifs <;> rfl
    · rfl
    · rfl
  unfold decodeYenc
  dsimp only
  split_ifs
  · rfl
  · rfl
  · exact hleave _ _
  · split
    · rfl
    · exact hleave _ _

/-- The format is yEnc, or nothing has been decoded and no header read. -/
def YencOr (out₀ : Bytes) (fields : YencFields) (r : Decoder) (out : Bytes) : Prop :=
  r.format = .yenc ∨ out = out₀ ∧ r.yencFields = fields

variable {out₀ : Bytes} {fields : YencFields}

theorem YencOr.formatTurn {r : Decoder} {out : Bytes} (h : YencOr out₀ fields r out)
    (line buf : Bytes) : (formatTurn dec w r out line buf).All (YencOr out₀ fields) := by
  unfold Reader.formatTurn
  cases hf : r.format with
  | unknown => exact Or.inr (h.resolve_left (by simp [hf]))
  | uu => exact Or.inr (h.resolve_left (by simp [hf]))
  | yenc =>
    have hheader : (processYencHeader r line).format = .yenc :=
      (congrArg Core.format (core_processYencHeader r line)).trans hf
    dsimp only
    split_ifs
    · unfold bodyTurn
      dsimp only
      have hy := decodeYenc_format dec w (processYencHeader r line) out buf
      split
      · trivial
      · split_ifs
        · exact Or.inl (hy.trans hheader)
        · exact Or.inl (hy.trans hheader)
    · exact Or.inl hheader

theorem detectFormat_yencFields (r : Decoder) (line : Bytes) :
    (detectFormat r line).yencFields = r.yencFields := by
  rcases detectFormat_cases r line with h | h | h | h | h <;> rw [h] <;> rfl

/-- **A turn that does not find a frame decodes nothing.** -/
theorem YencOr.lineTurn {r : Decoder} {out : Bytes} (h : YencOr out₀ fields r out)
    (line buf : Bytes) : (lineTurn dec w r out line buf).All (YencOr out₀ fields) := by
  unfold Reader.lineTurn
  split_ifs with hdot hf hstatus
  · exact h
  · unfold statusTurn
    dsimp only
    split_ifs
    · exact h
    · exact h
    · exact h
  · refine YencOr.formatTurn dec w ?_ line buf
    obtain ⟨hout, hfields⟩ := h.resolve_left (by simp [hf])
    exact Or.inr ⟨hout, (detectFormat_yencFields r line).trans hfields⟩
  · exact h.formatTurn dec w line buf

end Format

/-! ## The header lines -/

section Headers

/-- Before the empty line of an article. -/
structure InHeaders (r : Decoder) : Prop where
  format : r.format = .unknown
  code : r.statusCode = nntpArtiicle
  empty : r.hasEmptyline = false

variable {r : Decoder}

/-- **A header line is kept as text, unless it is taken for UU data.** -/
theorem InHeaders.noteLine (h : InHeaders r) {line : Bytes} (hline : IsHeaderLine line) :
    noteLine r line =
      if TakenForUU line then { r with format := .uu } else { r with lines := r.lines ++ [line] } := by
  have h1 : ¬ (r.statusCode ≠ nntpBody ∧ r.statusCode ≠ nntpArtiicle) := fun hc => hc.2 h.code
  have h2 : r.statusCode ≠ nntpBody ∧ (r.statusCode ≠ nntpArtiicle ∨ ¬ r.hasEmptyline = true) := by
    refine ⟨?_, Or.inr (by simp [h.empty])⟩
    rw [h.code]
    decide
  -- the token behind `begin ` is looked for behind the spaces just removed
  have hbegin : ∀ b : Bytes, ∀ perms, b.dropWhile (· == 32) ≠ 32 :: perms := by
    intro b perms hc
    have := List.head?_dropWhile_not (· == (32 : UInt8)) b
    rw [hc] at this
    simp at this
  have hdetect : detectFormat r line = if TakenForUU line then { r with format := .uu } else r := by
    unfold detectFormat
    rw [if_neg h1, if_neg hline.2.1, if_neg hline.2.2, if_pos h2]
    by_cases hu : TakenForUU line
    · rw [if_pos hu]
      exact if_pos hu
    · rw [if_neg hu]
      refine (if_neg hu).trans ?_
      split_ifs
      · split
        · rename_i perms hp
          exact absurd hp (hbegin _ perms)
        · rfl
      · rfl
  rw [Reader.noteLine, if_pos h.format, hdetect]
  split_ifs with hu
  · rfl
  · simp only [formatNote, h.format]

/-- So a list of them leaves their text behind, or the UU format. -/
theorem InHeaders.foldl (headers : List Bytes) :
    ∀ {r : Decoder}, InHeaders r → (∀ h ∈ headers, IsHeaderLine h) →
      if ∀ h ∈ headers, ¬ TakenForUU h then
        headers.foldl Reader.noteLine r = { r with lines := r.lines ++ headers }
      else (headers.foldl Reader.noteLine r).format = .uu ∧
        (headers.foldl Reader.noteLine r).yencFields = r.yencFields := by
  induction headers with
  | nil => intro r _ _; simp
  | cons l headers ih =>
    intro r h hall
    have hnote := h.noteLine (hall l (by simp))
    rw [List.foldl_cons, hnote]
    by_cases hl : TakenForUU l
    · have hno : ¬ ∀ h ∈ l :: headers, ¬ TakenForUU h := fun hc => hc l (by simp) hl
      rw [if_neg hno, if_pos hl, foldl_noteLine_uu rfl]
      exact ⟨rfl, rfl⟩
    · have hiff : (∀ h ∈ l :: headers, ¬ TakenForUU h) ↔ ∀ h ∈ headers, ¬ TakenForUU h := by
        simp [hl]
      have hrest := ih (r := { r with lines := r.lines ++ [l] }) ⟨h.format, h.code, h.empty⟩
        fun h' hh' => hall h' (by simp [hh'])
      rw [if_neg hl]
      simp only [hiff]
      split_ifs at hrest ⊢
      · rw [hrest]
        simp
      · exact hrest

end Headers

/-! ## The replies -/

section Replies

variable (N : Rapidyenc) (onMeta strict : Bool) (A : ArticleHead) (B : BodyHead) (body : Bytes)

theorem readBody_eq (bytes : Bytes) :
    readBody N onMeta strict bytes =
      (whole N onMeta strict bytes).map fun d => bodyView d.r d.out := by
  have hbody : (fresh onMeta strict).body = false := rfl
  rw [readBody, whole_eq_scan, feed, decode, hbody]
  simp only [Bool.false_eq_true, if_false, Option.map_map]
  rfl

/-- What the headers and the empty line leave. -/
def ArticleHead.behind : Decoder :=
  (A.headers ++ [[]]).foldl noteLine (afterStatus onMeta strict A.status)

/-- The reply to ARTICLE is read past its headers. -/
theorem ArticleHead.readBody :
    readBody N onMeta strict (A.bytes body) =
      (scan N.decodeIncremental accepting (A.behind onMeta strict) [] 0 body).map fun d =>
        bodyView d.r d.out := by
  obtain ⟨hr, hb⟩ := ready_afterStatus onMeta strict A.status
  have hm : isMultiline A.status.code = true := by rw [A.code]; rfl
  have hq : QuietLines (afterStatus onMeta strict A.status) (A.headers ++ [[]]) := by
    refine (quietLines_of_plain _ (StatusLine.code_ne_zero hm) (by simp [afterStatus, fresh])
      (fun l hl => ?_) fun l hl => ?_).1
    · rcases List.mem_append.mp hl with hl | hl
      · exact (A.isHeader l hl).1
      · rw [List.mem_singleton.mp hl]
        decide
    · rcases List.mem_append.mp hl with hl | hl
      · exact (A.isHeader l hl).2.2
      · rw [List.mem_singleton.mp hl]
        decide
  have hbytes : A.bytes body = A.status.text ++ crlf ++ (joinLines (A.headers ++ [[]]) ++ body) := by
    simp [ArticleHead.bytes, joinLines_append]
  rw [readBody_eq, hbytes, whole_status, if_pos hm, scan_joinLines N _ [] body hr hb hq,
    Option.map_map, Option.map_map]
  rfl

/-- The reply to BODY is read past its status line. -/
theorem BodyHead.readBody :
    readBody N onMeta strict (B.bytes body) =
      (scan N.decodeIncremental accepting (afterStatus onMeta strict B.status) [] 0 body).map
        fun d => bodyView d.r d.out := by
  have hm : isMultiline B.status.code = true := by rw [B.code]; rfl
  rw [readBody_eq, BodyHead.bytes, whole_status, if_pos hm, Option.map_map]
  rfl

end Replies

end Reader

end NntpPool
