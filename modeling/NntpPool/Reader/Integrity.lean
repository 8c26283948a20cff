import NntpPool.Reader.Headers
import NntpPool.Reader.Model.Validate
/-!
# Reader — accepted bodies are intact

What `validateBody` decides by is summed up over many calls: the count
and the checksum of the decoded bytes, and what the header lines said.
`Ledger` says what these sums stand for at any time of a run, so that the
tests of `validateBody` become statements on the bytes that were written
(`accepted_body_intact`). Of a checksum that the `=yend` line gives twice
only the first is looked at.
-/

namespace NntpPool

namespace Reader

/-! ## Fields -/

/-- The value of a checksum field, at its first place in the line. -/
def crcField (line key : Bytes) : Option Bytes := extractField line key [0, 32, 13, 10]

/-- The checksum a value stands for. -/
def readCRC (v : Bytes) : Option UInt32 :=
  if v.length = 8 ∧ (parseUint 16 32 v).2 = none then some (parseUint 16 32 v).1.toUInt32 else none

/-- The line gives this value for the field, at some place. -/
def Supplies (line key v : Bytes) : Prop :=
  ∃ before after, line = before ++ key ++ after ∧ v = untilAny [0, 32, 13, 10] after

/-- **What is kept of a checksum field**: whether there is one, and its
value. -/
def Carries (line key : Bytes) (has : Bool) (crc : UInt32) : Prop :=
  match crcField line key with
  | none => has = false
  | some v => has = true ∧ readCRC v = some crc

theorem carries_of_not_contains {line key : Bytes} (h : ¬contains line key = true)
    (crc : UInt32) : Carries line key false crc := by
  have hnone : index line key = none := by simpa [contains] using h
  simp [Carries, crcField, extractField, hnone]

theorem carries_of_extractCRC {line key : Bytes} {crc : UInt32}
    (h : extractCRC line key = (crc, none)) : Carries line key true crc := by
  unfold extractCRC at h
  unfold Carries crcField
  cases hf : extractField line key [0, 32, 13, 10] with
  | none =>
    rw [hf] at h
    cases h
  | some v =>
    rw [hf] at h
    dsimp only at h ⊢
    split_ifs at h with hlen
    · simp at h
    · simp only [Prod.mk.injEq, Option.map_eq_none_iff] at h
      exact ⟨rfl, by rw [readCRC, if_pos ⟨not_not.mp hlen, h.2⟩, h.1]⟩

theorem parseInt_le (s : Bytes) : (parseInt s).1 ≤ maxInt64 := by
  unfold parseInt maxInt64
  dsimp only
  split
  · omega
  · split_ifs <;> omega

theorem extractInt_le (line key : Bytes) : (extractInt line key).1 ≤ maxInt64 := by
  unfold extractInt
  split
  · exact (by decide : (0 : ℤ) ≤ maxInt64)
  · exact parseInt_le _

/-- A field that is not there has no value. -/
theorem extractInt_of_not_contains {line key : Bytes} (h : ¬contains line key = true) :
    (extractInt line key).1 = 0 := by
  have hnone : index line key = none := by simpa [contains] using h
  simp [extractInt, extractField, hnone]

/-! ## One header line -/

section Header

variable {r : Decoder} {line : Bytes}

theorem noteErr_clean {e : Option HeaderErr} (h : (noteErr r e).headerErr = none) :
    noteErr r e = r := by
  cases e with
  | none => rfl
  | some e => cases h

/-- What the decoder keeps of the checksum fields. -/
def marks (r : Decoder) : (Bool × UInt32) × Bool × UInt32 :=
  ((r.hasPartCRC, r.partCRC), r.hasFileCRC, r.fileCRC)

/-- What it keeps of the part. -/
def span (r : Decoder) : Bool × ℤ × ℤ := (r.hasPart, r.yenc.partBegin, r.yenc.partSize)

/-- The part lies within what 64 bits can count. -/
def Exact (r : Decoder) : Prop :=
  0 ≤ r.yenc.partBegin ∧ r.yenc.partBegin + r.yenc.partSize ≤ maxInt64

@[simp] theorem callMeta_marks (r : Decoder) : marks (callMeta r) = marks r := by
  unfold callMeta
  split_ifs <;> rfl

@[simp] theorem callMeta_span (r : Decoder) : span (callMeta r) = span r := by
  unfold callMeta
  split_ifs <;> rfl

@[simp] theorem callMeta_yenc (r : Decoder) : (callMeta r).yenc = r.yenc := by
  unfold callMeta
  split_ifs <;> rfl

@[simp] theorem callMeta_headerErr (r : Decoder) : (callMeta r).headerErr = r.headerErr := by
  unfold callMeta
  split_ifs <;> rfl

/-- A field that has no say in the checksums and the part. -/
structure Calm (r r' : Decoder) : Prop where
  err : r.headerErr = none
  marks : marks r' = marks r
  span : span r' = span r
  part : r'.yenc.part = r.yenc.part

theorem ybeginSize_calm (h : (ybeginSize r line).headerErr = none) :
    Calm r (ybeginSize r line) := by
  have heq : ybeginSize r line = { r with yenc := { r.yenc with
    fileSize := (extractInt line (ascii " size=")).1 } } := noteErr_clean h
  rw [heq] at h ⊢
  exact ⟨h, rfl, rfl, rfl⟩

theorem ybeginName_calm (h : (ybeginName r line).headerErr = none) :
    Calm r (ybeginName r line) := by
  have heq : ybeginName r line = { r with yenc := { r.yenc with
    fileName := (extractString line (ascii " name=")).1 } } := noteErr_clean h
  rw [heq] at h ⊢
  exact ⟨h, rfl, rfl, rfl⟩

theorem ybeginTotal_calm (h : (ybeginTotal r line).headerErr = none) :
    Calm r (ybeginTotal r line) := by
  rcases hx : extractInt line (ascii " total=") with ⟨v, _ | e⟩
  · simp only [ybeginTotal, hx] at h ⊢
    exact ⟨h, rfl, rfl, rfl⟩
  · simp only [ybeginTotal, hx] at h ⊢
    split_ifs at h ⊢ with hc
    · cases h
    · exact ⟨h, rfl, rfl, rfl⟩

/-- A `part=` without an error is kept; without one, the part is the
file. -/
theorem ybeginPart_clean (h : (ybeginPart r line).headerErr = none) :
    r.headerErr = none ∧ marks (ybeginPart r line) = marks r ∧
      (ybeginPart r line).hasPart = r.hasPart ∧
      (span (ybeginPart r line) = span r ∨ (ybeginPart r line).yenc.part = 0) := by
  have hzero := @extractInt_of_not_contains line (ascii " part=")
  rcases hx : extractInt line (ascii " part=") with ⟨v, _ | e⟩
  · simp only [ybeginPart, hx] at h ⊢
    exact ⟨h, rfl, trivial, .inl rfl⟩
  · rw [hx] at hzero
    simp only [ybeginPart, hx] at h ⊢
    split_ifs at h ⊢ with hc
    · cases (callMeta_headerErr _).symm.trans h
    · rw [callMeta_headerErr] at h
      exact ⟨h, callMeta_marks _, congrArg Prod.fst (callMeta_span _),
        .inr (by rw [callMeta_yenc]; exact hzero hc)⟩

/-- **A `=ybegin` line without an error** leaves the checksums alone, and
the part too if it speaks of one. -/
theorem processYbegin_clean (h : (processYbegin r line).headerErr = none) :
    r.headerErr = none ∧ marks (processYbegin r line) = marks r ∧
      (processYbegin r line).hasPart = r.hasPart ∧
      (span (processYbegin r line) = span r ∨ (processYbegin r line).yenc.part = 0) := by
  have htotal := ybeginTotal_calm h
  obtain ⟨herr, hmarks, hpart, hspan⟩ := ybeginPart_clean htotal.err
  have hname := ybeginName_calm herr
  have hsize := ybeginSize_calm hname.err
  refine ⟨hsize.err, htotal.marks.trans (hmarks.trans (hname.marks.trans hsize.marks)), ?_, ?_⟩
  · exact (congrArg Prod.fst htotal.span).trans
      (hpart.trans (congrArg Prod.fst (hname.span.trans hsize.span)))
  · rcases hspan with hspan | hzero
    · exact .inl (htotal.span.trans (hspan.trans (hname.span.trans hsize.span)))
    · exact .inr (htotal.part.trans hzero)

/-- **A `=ypart` line without an error** says where the part is. -/
theorem processYpart_clean (h : (processYpart r line).headerErr = none) :
    r.headerErr = none ∧ marks (processYpart r line) = marks r ∧ Exact (processYpart r line) ∧
      (processYpart r line).yenc.part = r.yenc.part := by
  have hle := extractInt_le line (ascii " end=")
  have hm := callMeta_marks (ypartEnd (ypartBegin { r with hasPart := true, body := true } line) line)
  have hy := callMeta_yenc (ypartEnd (ypartBegin { r with hasPart := true, body := true } line) line)
  rw [processYpart, callMeta_headerErr] at h
  rw [processYpart, Exact, hm, hy]
  unfold ypartEnd at h ⊢
  dsimp only at h ⊢
  split_ifs at h ⊢ with hend
  · unfold ypartBegin at h ⊢
    dsimp only at h ⊢
    split_ifs at h ⊢ with hbegin
    · cases h
    · refine ⟨h, rfl, ⟨?_, ?_⟩, rfl⟩
      · dsimp only
        omega
      · dsimp only
        omega
  · cases h

theorem yendPcrc32_clean (h : (yendPcrc32 r line).headerErr = none) :
    r.headerErr = none ∧ span (yendPcrc32 r line) = span r ∧
      (yendPcrc32 r line).yenc.part = r.yenc.part ∧
      (yendPcrc32 r line).hasFileCRC = r.hasFileCRC ∧
      (r.hasPartCRC = false → Carries line (ascii " pcrc32=") (yendPcrc32 r line).hasPartCRC
        (yendPcrc32 r line).partCRC) := by
  unfold yendPcrc32 at h ⊢
  split_ifs at h ⊢ with hc
  · rcases hx : extractCRC line (ascii " pcrc32=") with ⟨v, _ | e⟩
    · simp only [hx] at h ⊢
      exact ⟨h, rfl, trivial, trivial, fun _ => carries_of_extractCRC hx⟩
    · simp only [hx] at h
      cases h
  · exact ⟨h, rfl, rfl, rfl, fun hno => hno ▸ carries_of_not_contains hc _⟩

theorem yendCrc32_clean (h : (yendCrc32 r line).headerErr = none) :
    r.headerErr = none ∧ span (yendCrc32 r line) = span r ∧
      (yendCrc32 r line).yenc.part = r.yenc.part ∧
      ((yendCrc32 r line).hasPartCRC = r.hasPartCRC ∧ (yendCrc32 r line).partCRC = r.partCRC) ∧
      (r.hasFileCRC = false → Carries line (ascii " crc32=") (yendCrc32 r line).hasFileCRC
        (yendCrc32 r line).fileCRC) := by
  unfold yendCrc32 at h ⊢
  split_ifs at h ⊢ with hc
  · rcases hx : extractCRC line (ascii " crc32=") with ⟨v, _ | e⟩
    · simp only [hx] at h ⊢
      exact ⟨h, rfl, trivial, ⟨trivial, trivial⟩, fun _ => carries_of_extractCRC hx⟩
    · simp only [hx] at h
      cases h
  · exact ⟨h, rfl, rfl, ⟨rfl, rfl⟩, fun hno => hno ▸ carries_of_not_contains hc _⟩

theorem chooseCRC_calm (h : (chooseCRC r).headerErr = none) : Calm r (chooseCRC r) := by
  unfold chooseCRC at h ⊢
  split_ifs at h ⊢ <;> exact ⟨h, rfl, rfl, rfl⟩

theorem yendSize_calm (h : (yendSize r line).headerErr = none) : Calm r (yendSize r line) := by
  have heq : yendSize r line = { r with endSize := (extractInt line (ascii " size=")).1 } :=
    noteErr_clean h
  rw [heq] at h ⊢
  exact ⟨h, rfl, rfl, rfl⟩

/-- The checksums are those the line gives. -/
def Marked (line : Bytes) (r : Decoder) : Prop :=
  Carries line (ascii " pcrc32=") r.hasPartCRC r.partCRC ∧
    Carries line (ascii " crc32=") r.hasFileCRC r.fileCRC

theorem Marked.of_marks {r' : Decoder} (h : Marked line r) (hm : marks r' = marks r) :
    Marked line r' := by
  simp only [marks, Prod.mk.injEq] at hm
  unfold Marked
  rw [hm.1.1, hm.1.2, hm.2.1, hm.2.2]
  exact h

/-- **A `=yend` line without an error** says the checksums. -/
theorem processYend_clean (h : (processYend r line).headerErr = none) :
    r.headerErr = none ∧ span (processYend r line) = span r ∧
      (processYend r line).yenc.part = r.yenc.part ∧
      (r.hasPartCRC = false → r.hasFileCRC = false → Marked line (processYend r line)) := by
  have hsize := yendSize_calm h
  have hchoose := chooseCRC_calm hsize.err
  obtain ⟨herr, hspan, hpart, hkept, hfile⟩ := yendCrc32_clean hchoose.err
  obtain ⟨herr', hspan', hpart', hkept', hpcrc⟩ := yendPcrc32_clean herr
  refine ⟨herr', hsize.span.trans (hchoose.span.trans (hspan.trans hspan')),
    hsize.part.trans (hchoose.part.trans (hpart.trans hpart')), fun hno hno' => ?_⟩
  refine Marked.of_marks ⟨?_, ?_⟩ (hsize.marks.trans hchoose.marks)
  · rw [hkept.1, hkept.2]
    exact hpcrc hno
  · exact hfile (hkept'.trans hno')

end Header

/-! ## The ledger -/

/-- **What the sums of a response stand for**: the decoded bytes, and the
header lines so far. -/
structure Ledger (hs : List Bytes) (out : Bytes) (r : Decoder) : Prop where
  bytesDecoded : r.bytesDecoded = out.length
  crc : r.crc = crc32Update 0 out
  unmarked : hs.filter isYend = [] → r.headerErr = none →
    r.hasPartCRC = false ∧ r.hasFileCRC = false
  marked : ∀ line, hs.filter isYend = [line] → r.headerErr = none →
    Marked (line.drop (ascii "=yend").length) r
  exact : (hs.filter isYbegin).length ≤ 1 → r.headerErr = none → r.hasPart = true →
    Exact r ∨ r.yenc.part = 0 ∧ hs.filter isYbegin ≠ []

theorem Ledger.fresh (onMeta strict : Bool) : Ledger [] [] (fresh onMeta strict).toDecoder where
  bytesDecoded := rfl
  crc := rfl
  unmarked := fun _ _ => ⟨rfl, rfl⟩
  marked := nofun
  exact := nofun

section Ledger

variable {hs : List Bytes} {out line : Bytes} {r r' : Decoder}

theorem not_isYend_of_isYbegin (h : isYbegin line = true) : isYend line = false := by
  obtain ⟨t, rfl⟩ := List.isPrefixOf_iff_prefix.mp h
  rfl

theorem not_isYend_of_isYpart (h : isYpart line = true) : isYend line = false := by
  obtain ⟨t, rfl⟩ := List.isPrefixOf_iff_prefix.mp h
  rfl

theorem Exact.of_span (h : Exact r) (hs : span r' = span r) : Exact r' := by
  simp only [span, Prod.mk.injEq] at hs
  unfold Exact
  rw [hs.2.1, hs.2.2]
  exact h

/-- A step that touches neither the sums nor the header fields. -/
theorem Ledger.calm (h : Ledger hs out r) (hb : r'.bytesDecoded = r.bytesDecoded)
    (hcrc : r'.crc = r.crc) (hc : r'.headerErr = none → Calm r r') : Ledger hs out r' where
  bytesDecoded := hb.trans h.bytesDecoded
  crc := hcrc.trans h.crc
  unmarked := fun hnone herr => by
    have hm := (hc herr).marks
    simp only [marks, Prod.mk.injEq] at hm
    rw [hm.1.1, hm.2.1]
    exact h.unmarked hnone (hc herr).err
  marked := fun line hline herr => (h.marked line hline (hc herr).err).of_marks (hc herr).marks
  exact := fun hone herr hpart => by
    have hs := (hc herr).span
    have hpart' : r.hasPart = true := (congrArg Prod.fst hs).symm.trans hpart
    exact (h.exact hone (hc herr).err hpart').imp (Exact.of_span · hs)
      (And.imp_left (hc herr).part.trans)

/-- A header line is entered, by what it says. -/
theorem Ledger.enter (h : Ledger hs out r) (hcore : core r' = core r)
    (hmarks : isYend line = false → r'.headerErr = none →
      r.headerErr = none ∧ marks r' = marks r)
    (hyend : isYend line = true → r'.headerErr = none → r.headerErr = none ∧
      (r.hasPartCRC = false → r.hasFileCRC = false →
        Marked (line.drop (ascii "=yend").length) r'))
    (hexact : (hs.filter isYbegin ++ [line].filter isYbegin).length ≤ 1 → r'.headerErr = none →
      r'.hasPart = true →
      Exact r' ∨ r'.yenc.part = 0 ∧ hs.filter isYbegin ++ [line].filter isYbegin ≠ []) :
    Ledger (hs ++ [line]) out r' where
  bytesDecoded := (congrArg Core.bytesDecoded hcore).trans h.bytesDecoded
  crc := (congrArg Core.crc hcore).trans h.crc
  unmarked := by
    intro hnone herr
    rw [List.filter_append, List.append_eq_nil_iff] at hnone
    have hline : isYend line = false := by
      simpa using List.filter_eq_nil_iff.mp hnone.2 line (List.mem_singleton.mpr rfl)
    obtain ⟨herr', hm⟩ := hmarks hline herr
    simp only [marks, Prod.mk.injEq] at hm
    rw [hm.1.1, hm.2.1]
    exact h.unmarked hnone.1 herr'
  marked := by
    intro last hlast herr
    rw [List.filter_append] at hlast
    cases hy : isYend line with
    | false =>
      rw [List.filter_singleton, hy, Bool.cond_false, List.append_nil] at hlast
      obtain ⟨herr', hm⟩ := hmarks hy herr
      exact (h.marked last hlast herr').of_marks hm
    | true =>
      obtain ⟨hnone, rfl⟩ : hs.filter isYend = [] ∧ line = last := by
        simpa [List.filter_singleton, hy, List.append_eq_cons_iff] using hlast
      obtain ⟨herr', hm⟩ := hyend hy herr
      obtain ⟨hp, hf⟩ := h.unmarked hnone herr'
      exact hm hp hf
  exact := by
    rw [List.filter_append]
    exact hexact

/-- **A header line is entered.** -/
theorem Ledger.header (h : Ledger hs out r) (line : Bytes) :
    Ledger (hs ++ [line]) out (processYencHeader r line) := by
  have hcore := core_processYencHeader r line
  unfold processYencHeader at hcore ⊢
  split_ifs at hcore ⊢ with hb hp he
  · have hend := not_isYend_of_isYbegin hb
    refine h.enter hcore (fun _ herr => ?_) (fun hy => ?_) fun hone herr hpart => ?_
    · obtain ⟨herr', hm, _⟩ := processYbegin_clean herr
      exact ⟨herr', hm⟩
    · cases hend.symm.trans hy
    · -- it is the first `=ybegin` line
      obtain ⟨herr', _, hkept, hspan⟩ := processYbegin_clean herr
      have hline : [line].filter isYbegin = [line] := by simp [isYbegin, hb]
      rw [hline] at hone ⊢
      have hfirst : hs.filter isYbegin = [] := by
        rw [List.length_append, List.length_singleton] at hone
        exact List.eq_nil_of_length_eq_zero (by omega)
      rcases hspan with hspan | hzero
      · rcases h.exact (by simp [hfirst]) herr' (hkept.symm.trans hpart) with hex | ⟨_, hne⟩
        · exact .inl (hex.of_span hspan)
        · exact absurd hfirst hne
      · exact .inr ⟨hzero, by simp⟩
  · have hend := not_isYend_of_isYpart hp
    refine h.enter hcore (fun _ herr => ?_) (fun hy => ?_) fun hone herr hpart => ?_
    · obtain ⟨herr', hm, _⟩ := processYpart_clean herr
      exact ⟨herr', hm⟩
    · cases hend.symm.trans hy
    · exact .inl (processYpart_clean herr).2.2.1
  · refine h.enter hcore (fun hy => ?_) (fun _ herr => ?_) fun hone herr hpart => ?_
    · cases hy.symm.trans he
    · obtain ⟨herr', _, _, hm⟩ := processYend_clean herr
      exact ⟨herr', hm⟩
    · obtain ⟨herr', hspan, hpart', _⟩ := processYend_clean herr
      have hline : [line].filter isYbegin = [] :=
        List.filter_eq_nil_iff.mpr (List.forall_mem_singleton.mpr hb)
      rw [hline, List.append_nil] at hone ⊢
      exact (h.exact hone herr' ((congrArg Prod.fst hspan).symm.trans hpart)).imp
        (Exact.of_span · hspan) (And.imp_left hpart'.trans)
  · refine h.enter hcore (fun _ herr => ⟨herr, rfl⟩) (fun hy => absurd hy he) fun hone herr hpart => ?_
    have hline : [line].filter isYbegin = [] :=
      List.filter_eq_nil_iff.mpr (List.forall_mem_singleton.mpr hb)
    rw [hline, List.append_nil] at hone ⊢
    exact h.exact hone herr hpart

/-- **The ledger is kept.** -/
theorem Ledger.entered : Entered Ledger where
  header line h := h.header line
  keep h heq := by
    have hb := congrArg Decoder.bytesDecoded heq
    have hcrc := congrArg Decoder.crc heq
    have herr := congrArg Decoder.headerErr heq
    have hmarks := congrArg marks heq
    have hspan := congrArg span heq
    have hpart := congrArg (fun r => r.yenc.part) heq
    exact h.calm hb hcrc fun hnone => ⟨herr.symm.trans hnone, hmarks, hspan, hpart⟩
  write d h :=
    { bytesDecoded := by simp [h.bytesDecoded]
      crc := by simp only [h.crc, crc32Update_append]
      unmarked := h.unmarked
      marked := h.marked
      exact := h.exact }

end Ledger

/-! ## Accepted bodies -/

/-- **What an accepted body is**, by the `=yend` line of its frame. -/
structure Intact (yend : Bytes) (r : Decoder) (out : Bytes) : Prop where
  bytesDecoded : r.bytesDecoded = out.length
  endSize : r.endSize = out.length
  crc : r.crc = crc32Update 0 out
  multipart : r.hasPart = true ↔ 0 < r.yenc.part
  whole : r.hasPart = false → r.yenc.fileSize = out.length
  part : r.hasPart = true → 0 ≤ r.yenc.partBegin ∧
    r.yenc.partBegin + out.length ≤ r.yenc.fileSize ∧
    (r.yenc.partBegin + out.length = r.yenc.fileSize ↔ r.yenc.part = r.yenc.total)
  pcrc32 : ∀ v, crcField yend (ascii " pcrc32=") = some v → readCRC v = some (crc32Update 0 out)
  crc32 : r.yenc.fileSize = out.length → ∀ v, crcField yend (ascii " crc32=") = some v →
    readCRC v = some (crc32Update 0 out)
  expected : r.hasCrc = true → r.expectedCRC = crc32Update 0 out ∧
    ∃ v, readCRC v = some r.expectedCRC ∧
      (crcField yend (ascii " pcrc32=") = some v ∨
        r.yenc.fileSize = out.length ∧ crcField yend (ascii " crc32=") = some v)

theorem Carries.of_some {line key v : Bytes} {has : Bool} {crc : UInt32}
    (h : Carries line key has crc) (hv : crcField line key = some v) :
    has = true ∧ readCRC v = some crc := by
  rw [Carries, hv] at h
  exact h

theorem Carries.of_has {line key : Bytes} {crc : UInt32} (h : Carries line key true crc) :
    ∃ v, crcField line key = some v ∧ readCRC v = some crc := by
  unfold Carries at h
  split at h
  · cases h
  · exact ⟨_, by assumption, h.2⟩

/-- What is accepted has passed all tests. -/
theorem faults_of_validateBody {r r' : Decoder} (hstatus : r.statusCode = nntpBody)
    (hval : validateBody r = (r', none)) :
    (headerFault r = none ∧ sizeFault r = none ∧ crcFault r = none) ∧ applicableCRC r = r' := by
  rw [validateBody, if_neg (not_not.mpr hstatus)] at hval
  cases hf : (headerFault r <|> sizeFault r <|> crcFault r) with
  | some e =>
    rw [hf] at hval
    cases hval
  | none =>
    rw [hf] at hval
    refine ⟨?_, congrArg Prod.fst hval⟩
    simpa only [Option.orElse_eq_orElse, Option.orElse_eq_or, Option.or_eq_none_iff] using hf

/-- The tests of the headers. -/
theorem headerFault_eq_none {r : Decoder} (h : headerFault r = none) :
    r.headerErr = none ∧ 0 ≤ r.yenc.partBegin ∧ (r.hasPart = true → 0 < r.yenc.part) := by
  unfold headerFault at h
  cases herr : r.headerErr with
  | some e =>
    simp only [herr] at h
    split_ifs at h
  | none =>
    simp only [herr] at h
    split_ifs at h with h₁ h₂ h₃ h₄ h₅
    exact ⟨rfl, by omega, fun hp => by_contra fun hn => h₅ ⟨hp, by omega⟩⟩

/-- The tests of the sizes, for a part within 64 bits. -/
theorem sizeFault_eq_none {r : Decoder} (h : sizeFault r = none)
    (hpart : r.hasPart = true → 0 < r.yenc.part)
    (hexact : 0 < r.yenc.part → r.hasPart = true → Exact r) :
    (r.hasPart = true ↔ 0 < r.yenc.part) ∧ r.endSize = r.bytesDecoded ∧
      (r.hasPart = false → r.yenc.fileSize = r.bytesDecoded) ∧
      (r.hasPart = true → r.yenc.partSize = r.bytesDecoded ∧
        r.yenc.partBegin + r.bytesDecoded ≤ r.yenc.fileSize ∧
        (r.yenc.partBegin + r.bytesDecoded = r.yenc.fileSize ↔ r.yenc.part = r.yenc.total)) := by
  unfold sizeFault at h
  split_ifs at h with h₁ h₂ h₃ h₄ h₅
  have hmulti : r.hasPart = true ↔ 0 < r.yenc.part :=
    ⟨hpart, fun hp => by simpa using fun hno => h₁ ⟨hp, hno⟩⟩
  refine ⟨hmulti, not_not.mp h₅, fun hno => ?_, fun hp => ?_⟩
  · have hle : r.yenc.part ≤ 0 := by
      by_contra hn
      rw [hmulti.mpr (by omega)] at hno
      cases hno
    by_contra hne
    exact h₄ ⟨hle, hne⟩
  · have hpos := hmulti.mp hp
    obtain ⟨hlo, hhi⟩ := hexact hpos hp
    have htotal : r.yenc.part ≤ r.yenc.total := by
      by_contra hn
      exact h₂ ⟨hpos, .inr (by omega)⟩
    have hfit : incoherentPart r = false := by simpa using fun hc => h₃ ⟨hpos, hc⟩
    simp only [incoherentPart, Bool.or_eq_false_iff, Bool.and_eq_false_iff, bne_eq_false_iff_eq,
      beq_eq_false_iff_ne, decide_eq_false_iff_not] at hfit
    obtain ⟨⟨⟨hsize, hle⟩, hlast⟩, hearlier⟩ := hfit
    -- nothing wraps around
    have hend : (r.yenc.partBegin + r.yenc.partSize).bmod (2 ^ 64) =
        r.yenc.partBegin + r.yenc.partSize := by
      unfold maxInt64 at hhi
      exact Int.bmod_eq_of_le (by omega) (by omega)
    rw [hend] at hle hlast hearlier
    refine ⟨hsize, by omega, ?_, ?_⟩
    · intro heq
      rcases hearlier with h | h <;> omega
    · intro heq
      rcases hlast with h | h <;> omega

/-- The test of the checksums. -/
theorem crcFault_eq_none {r : Decoder} (h : crcFault r = none) :
    (r.hasPartCRC = true → r.crc = r.partCRC) ∧
      (r.hasFileCRC = true → completeFile r = true → r.crc = r.fileCRC) := by
  unfold crcFault at h
  split_ifs at h with h₁ h₂
  exact ⟨fun hp => by_contra fun hne => h₁ ⟨hp, hne⟩,
    fun hf hc => by_contra fun hne => h₂ ⟨hf, hc, hne⟩⟩

/-- **What `validateBody` accepts is intact**, of one frame. -/
theorem Ledger.intact {hs : List Bytes} {out yend : Bytes} {r r' : Decoder}
    (h : Ledger hs out r) (hbegin : (hs.filter isYbegin).length ≤ 1)
    (hend : hs.filter isYend = [yend]) (hstatus : r.statusCode = nntpBody)
    (hval : validateBody r = (r', none)) :
    Intact (yend.drop (ascii "=yend").length) r' out := by
  obtain ⟨⟨hhead, hsize, hcrc⟩, rfl⟩ := faults_of_validateBody hstatus hval
  obtain ⟨herr, hlo, hpart⟩ := headerFault_eq_none hhead
  have hexact : 0 < r.yenc.part → r.hasPart = true → Exact r := fun hpos hp =>
    (h.exact hbegin herr hp).resolve_right fun hz => by omega
  obtain ⟨hmulti, hendSize, hwhole, hfits⟩ := sizeFault_eq_none hsize hpart hexact
  obtain ⟨hpcrc, hfcrc⟩ := crcFault_eq_none hcrc
  obtain ⟨hmark, hmark'⟩ := h.marked yend hend herr
  rw [h.bytesDecoded] at hendSize hwhole hfits
  rw [h.crc] at hpcrc hfcrc
  have hcomplete : completeFile r = true ↔ r.yenc.fileSize = out.length := by
    unfold completeFile
    cases hp : r.hasPart with
    | false => simpa using hwhole hp
    | true =>
      have := hfits hp
      simp only [Bool.not_true, Bool.false_or, Bool.and_eq_true, beq_iff_eq]
      omega
  have hintact (has : Bool) (crc : UInt32)
      (hexp : has = true → crc = crc32Update 0 out ∧ ∃ v, readCRC v = some crc ∧
        (crcField (yend.drop (ascii "=yend").length) (ascii " pcrc32=") = some v ∨
          r.yenc.fileSize = out.length ∧
            crcField (yend.drop (ascii "=yend").length) (ascii " crc32=") = some v)) :
      Intact (yend.drop (ascii "=yend").length) { r with hasCrc := has, expectedCRC := crc } out :=
    { bytesDecoded := h.bytesDecoded
      endSize := hendSize
      crc := h.crc
      multipart := hmulti
      whole := hwhole
      part := fun hp => ⟨hlo, (hfits hp).2⟩
      pcrc32 := fun v hv => by
        obtain ⟨hhas, hread⟩ := hmark.of_some hv
        rw [hread, hpcrc hhas]
      crc32 := fun hall v hv => by
        obtain ⟨hhas, hread⟩ := hmark'.of_some hv
        rw [hread, hfcrc hhas (hcomplete.mpr hall)]
      expected := hexp }
  unfold applicableCRC
  split_ifs with hp hf
  · refine hintact _ _ fun _ => ⟨(hpcrc hp).symm, ?_⟩
    obtain ⟨v, hv, hread⟩ := Carries.of_has (hp ▸ hmark)
    exact ⟨v, hread, .inl hv⟩
  · refine hintact _ _ fun _ => ⟨(hfcrc hf.1 hf.2).symm, ?_⟩
    obtain ⟨v, hv, hread⟩ := Carries.of_has (hf.1 ▸ hmark')
    exact ⟨v, hread, .inr ⟨hcomplete.mp hf.2, hv⟩⟩
  · exact hintact _ _ fun h => absurd h Bool.false_ne_true

/-- **Accepted bodies of one frame are intact**: for every byte stream,
chunking, writer and native decoder, however many `=ypart` lines there
are. -/
theorem accepted_body_intact {dec : DecodeFn} {w : Writer} {onMeta : Bool} {chunks : List Bytes}
    {f : Fed} {r : Decoder} {yend : Bytes}
    (hrun : feedLoop dec w (unread onMeta true) chunks = some f) (hdone : f.done = true)
    (hstatus : f.r.statusCode = nntpBody)
    (hbegin : ((loopHeaders dec w (unread onMeta true) chunks).filter isYbegin).length = 1)
    (hend : (loopHeaders dec w (unread onMeta true) chunks).filter isYend = [yend])
    (hval : validateBody f.r.toDecoder = (r, none)) :
    Intact (yend.drop (ascii "=yend").length) r f.out := by
  have hfresh : Ledger [] (unread onMeta true).out (unread onMeta true).r.toDecoder :=
    Ledger.fresh onMeta true
  have hok : f.err = none := feedLoop_done dec w (fun _ => rfl) hrun hdone
  exact (Ledger.entered.feedLoop dec w hfresh hrun hok).intact hbegin.le hend hstatus hval

/-- The article `a`, in two chunks; its `=yend` line gives the checksum,
and once more another. -/
def twiceGiven : List Bytes :=
  [ascii "222 body\r\n=ybegin line=128 size=1 name=a\r\n" ++ [139],
    ascii "\r\n=yend size=1 pcrc32=e8b7be43 pcrc32=00000000\r\n.\r\n"]

/-- Its `=yend` line. -/
def twiceYend : Bytes := ascii "=yend size=1 pcrc32=e8b7be43 pcrc32=00000000"

/-- The body is accepted, of one frame. -/
theorem twiceGiven_accepted :
    ∃ f r, feedLoop Rapidyenc.scalar.decodeIncremental accepting (unread false true) twiceGiven =
        some f ∧ f.done = true ∧ f.r.statusCode = nntpBody ∧
      validateBody f.r.toDecoder = (r, none) ∧ f.out = ascii "a" ∧
      loopHeaders Rapidyenc.scalar.decodeIncremental accepting (unread false true) twiceGiven =
        [ascii "=ybegin line=128 size=1 name=a", twiceYend] := by
  have hrun : (feedLoop Rapidyenc.scalar.decodeIncremental accepting (unread false true)
      twiceGiven).map (fun f => (f.done, f.r.statusCode, (validateBody f.r.toDecoder).2.isNone,
        f.out)) = some (true, nntpBody, true, ascii "a") := by decide
  have hheaders : loopHeaders Rapidyenc.scalar.decodeIncremental accepting (unread false true)
      twiceGiven = [ascii "=ybegin line=128 size=1 name=a", twiceYend] := by decide
  obtain ⟨f, hf, hproj⟩ := Option.map_eq_some_iff.mp hrun
  simp only [Prod.mk.injEq, Option.isNone_iff_eq_none] at hproj
  obtain ⟨hdone, hstatus, hval, hout⟩ := hproj
  exact ⟨f, _, hf, hdone, hstatus, Prod.ext rfl hval, hout, hheaders⟩

/-- By its first checksum it is intact. -/
theorem accepted_body_intact_twice :
    ∃ f r, feedLoop Rapidyenc.scalar.decodeIncremental accepting (unread false true) twiceGiven =
      some f ∧ f.out = ascii "a" ∧ Intact (twiceYend.drop (ascii "=yend").length) r f.out := by
  obtain ⟨f, r, hf, hdone, hstatus, hval, hout, hheaders⟩ := twiceGiven_accepted
  refine ⟨f, r, hf, hout, accepted_body_intact hf hdone hstatus ?_ ?_ hval⟩
  · rw [hheaders]
    decide
  · rw [hheaders]
    decide

/-- **The second checksum is not looked at.** -/
theorem second_checksum_ignored :
    (∃ f r, feedLoop Rapidyenc.scalar.decodeIncremental accepting (unread false true) twiceGiven =
        some f ∧ f.done = true ∧ f.r.statusCode = nntpBody ∧
      validateBody f.r.toDecoder = (r, none) ∧ f.out = ascii "a" ∧
      loopHeaders Rapidyenc.scalar.decodeIncremental accepting (unread false true) twiceGiven =
        [ascii "=ybegin line=128 size=1 name=a", twiceYend]) ∧
    Supplies twiceYend (ascii " pcrc32=") (ascii "00000000") ∧
      readCRC (ascii "00000000") ≠ some (crc32Update 0 (ascii "a")) := by
  refine ⟨twiceGiven_accepted, ⟨ascii "=yend size=1 pcrc32=e8b7be43", ascii "00000000", ?_, ?_⟩, ?_⟩
  · decide
  · decide
  · decide

end Reader

end NntpPool
