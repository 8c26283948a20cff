import NntpPool.Reader.Names
/-!
# Reader — where a part is

`=ypart` says where a part begins and ends, and the two numbers fit: its
end is a number of 64 bits. A `=ybegin` line without a part sets the size
of the part to that of the file, and leaves the beginning. If it comes
behind a `=ypart` line, the beginning and the size are those of different
lines, and their sum may not fit.
-/

namespace NntpPool

namespace Reader

variable {hs : List Bytes} {out line : Bytes} {r r' : Decoder}

/-! ## The lines that matter -/

/-- A `=ybegin` line without a part. -/
def isWholeYbegin (line : Bytes) : Bool :=
  isYbegin line && !contains (line.drop (ascii "=ybegin").length) (ascii " part=")

/-- **The size of the part is not that of the last `=ypart` line**: a
`=ybegin` line without a part is behind it. -/
def sizeReplaced (hs : List Bytes) : Bool :=
  hs.any isYpart && (hs.reverse.takeWhile fun line => !isYpart line).any isWholeYbegin

theorem sizeReplaced_other (h : isYpart line = false) :
    sizeReplaced (hs ++ [line]) =
      (hs.any isYpart && (isWholeYbegin line || sizeReplaced hs)) := by
  cases hany : hs.any isYpart <;> simp [sizeReplaced, h, hany]

/-! ## The numbers of a header line -/

theorem parseInt_ge (s : Bytes) : -(2 ^ 63) ≤ (parseInt s).1 := by
  unfold parseInt maxInt64
  dsimp only
  split
  · omega
  · split_ifs <;> omega

theorem extractInt_ge (line key : Bytes) : -(2 ^ 63) ≤ (extractInt line key).1 := by
  unfold extractInt
  split
  · simp
  · exact parseInt_ge _

@[simp] theorem noteErr_yenc (e : Option HeaderErr) : (noteErr r e).yenc = r.yenc := by
  cases e <;> rfl

theorem ybeginPart_yenc (r : Decoder) (line : Bytes) :
    (ybeginPart r line).yenc.fileSize = r.yenc.fileSize ∧
      (ybeginPart r line).yenc.partBegin = r.yenc.partBegin ∧
      ((ybeginPart r line).yenc.partSize = r.yenc.partSize ∨
        (ybeginPart r line).yenc.partSize = r.yenc.fileSize) := by
  unfold ybeginPart
  generalize extractInt line (ascii " part=") = part
  obtain ⟨v, _ | e⟩ := part
  · simp
  · cases contains line (ascii " part=") <;> simp

/-- **`=ybegin` sets the size of the file**, perhaps that of the part to
it, and never the beginning of the part. -/
theorem processYbegin_yenc (r : Decoder) (line : Bytes) :
    (processYbegin r line).yenc.fileSize = (extractInt line (ascii " size=")).1 ∧
      (processYbegin r line).yenc.partBegin = r.yenc.partBegin ∧
      ((processYbegin r line).yenc.partSize = r.yenc.partSize ∨
        (processYbegin r line).yenc.partSize = (extractInt line (ascii " size=")).1) := by
  obtain ⟨hfile, hbegin, hsize⟩ := ybeginPart_yenc
    (ybeginName (ybeginSize { r with hasBegin := true } line) line) line
  simp only [processYbegin, (ybeginTotal_spec line).2.1]
  simpa [ybeginName, ybeginSize] using And.intro hfile (And.intro hbegin hsize)

/-- With a part it leaves the part's size too. -/
theorem processYbegin_of_contains (h : contains line (ascii " part=") = true)
    (herr : (processYbegin r line).headerErr = none) : span (processYbegin r line) = span r := by
  have htotal := ybeginTotal_calm herr
  obtain ⟨hclean, -⟩ := ybeginPart_clean htotal.err
  have hname := ybeginName_calm hclean
  have hsize := ybeginSize_calm hname.err
  refine htotal.span.trans (Eq.trans ?_ (hname.span.trans hsize.span))
  have hnoted := htotal.err
  unfold ybeginPart at hnoted ⊢
  generalize extractInt line (ascii " part=") = part at hnoted ⊢
  obtain ⟨v, _ | e⟩ := part
  · rfl
  · simp [h, noteErr] at hnoted

/-- **`=ypart` sets the beginning of the part to a number of 63 bits**, and
its size to what is missing from it to the end. -/
theorem processYpart_yenc (r : Decoder) (line : Bytes) :
    (processYpart r line).yenc.fileSize = r.yenc.fileSize ∧
      ((processYpart r line).yenc.partBegin = r.yenc.partBegin ∨
        0 ≤ (processYpart r line).yenc.partBegin ∧
          (processYpart r line).yenc.partBegin ≤ maxInt64) ∧
      ((processYpart r line).yenc.partSize = r.yenc.partSize ∨
        0 ≤ (processYpart r line).yenc.partSize + (processYpart r line).yenc.partBegin) := by
  have hle := extractInt_le line (ascii " begin=")
  simp only [processYpart, callMeta_yenc, ypartEnd, ypartBegin]
  split_ifs <;> simp <;> omega

theorem processYend_yenc (r : Decoder) (line : Bytes) : (processYend r line).yenc = r.yenc := by
  have hpcrc (r : Decoder) : (yendPcrc32 r line).yenc = r.yenc := by
    unfold yendPcrc32
    dsimp only
    split_ifs
    · split <;> simp
    · rfl
  have hcrc (r : Decoder) : (yendCrc32 r line).yenc = r.yenc := by
    unfold yendCrc32
    dsimp only
    split_ifs
    · split <;> simp
    · rfl
  have hchoose (r : Decoder) : (chooseCRC r).yenc = r.yenc := by
    unfold chooseCRC
    split_ifs <;> rfl
  simp [processYend, yendSize, hchoose, hcrc, hpcrc]

/-! ## Runs -/

/-- **What is known of the numbers** behind the header lines `hs`. -/
structure Ranged (hs : List Bytes) (out : Bytes) (r : Decoder) : Prop where
  fileSize : r.yenc.fileSize ≤ maxInt64
  partBegin : 0 ≤ r.yenc.partBegin ∧ r.yenc.partBegin ≤ maxInt64
  partSize : -(2 ^ 63) ≤ r.yenc.partSize
  /-- Without a `=ypart` line the part begins with the file. -/
  apart : hs.any isYpart = false → r.yenc.partBegin = 0 ∧ r.yenc.partSize ≤ maxInt64
  exact : r.headerErr = none → sizeReplaced hs = false → hs.any isYpart = true → Exact r

theorem Ranged.ybegin (h : Ranged hs out r) (hline : isYbegin line = true) :
    Ranged (hs ++ [line]) out (processYbegin r (line.drop (ascii "=ybegin").length)) := by
  have hpart : isYpart line = false := by
    obtain ⟨t, rfl⟩ := List.isPrefixOf_iff_prefix.mp hline
    rfl
  obtain ⟨hfile, hbegin, hsize⟩ :=
    processYbegin_yenc r (line.drop (ascii "=ybegin").length)
  have hle := extractInt_le (line.drop (ascii "=ybegin").length) (ascii " size=")
  have hge := extractInt_ge (line.drop (ascii "=ybegin").length) (ascii " size=")
  have hlow := h.partSize
  refine ⟨hfile ▸ hle, hbegin ▸ h.partBegin, by omega, fun hnone => ?_, fun herr hkept hany => ?_⟩
  · obtain ⟨hzero, hmax⟩ := h.apart (by simpa [hpart] using hnone)
    exact ⟨hbegin.trans hzero, by omega⟩
  · have hany' : hs.any isYpart = true := by simpa [hpart] using hany
    rw [sizeReplaced_other hpart, hany', Bool.true_and, Bool.or_eq_false_iff] at hkept
    have hcontains : contains (line.drop (ascii "=ybegin").length) (ascii " part=") = true := by
      simpa [isWholeYbegin, hline] using hkept.1
    have hexact := h.exact (processYbegin_clean herr).1 hkept.2 hany'
    exact hexact.of_span (processYbegin_of_contains hcontains herr)

theorem Ranged.ypart (h : Ranged hs out r) (hline : isYpart line = true) :
    Ranged (hs ++ [line]) out (processYpart r (line.drop (ascii "=ypart").length)) := by
  obtain ⟨hfile, hbegin, hsize⟩ := processYpart_yenc r (line.drop (ascii "=ypart").length)
  have hkept := h.partBegin
  have hlow := h.partSize
  have hmax : maxInt64 = 2 ^ 63 - 1 := rfl
  refine ⟨hfile ▸ h.fileSize, by omega, by omega, fun hnone => ?_, fun herr _ _ => ?_⟩
  · simp [hline] at hnone
  · exact (processYpart_clean herr).2.2.1

/-- A line that sets none of the numbers. -/
theorem Ranged.other (h : Ranged hs out r) (hb : isYbegin line = false)
    (hp : isYpart line = false) (hyenc : r'.yenc = r.yenc)
    (herr : r'.headerErr = none → r.headerErr = none) : Ranged (hs ++ [line]) out r' := by
  have hwhole : isWholeYbegin line = false := by simp [isWholeYbegin, hb]
  refine ⟨hyenc ▸ h.fileSize, hyenc ▸ h.partBegin, hyenc ▸ h.partSize, fun hnone => ?_,
    fun hnone hkept hany => ?_⟩
  · rw [hyenc]
    exact h.apart (by simpa [hp] using hnone)
  · have hany' : hs.any isYpart = true := by simpa [hp] using hany
    rw [sizeReplaced_other hp, hany', hwhole, Bool.true_and, Bool.false_or] at hkept
    have hexact := h.exact (herr hnone) hkept hany'
    unfold Exact
    rw [hyenc]
    exact hexact

/-- **A header line.** -/
theorem Ranged.header (h : Ranged hs out r) (line : Bytes) :
    Ranged (hs ++ [line]) out (processYencHeader r line) := by
  unfold processYencHeader
  split_ifs with hb hp he
  · exact h.ybegin hb
  · exact h.ypart hp
  · exact h.other (Bool.eq_false_iff.mpr hb) (Bool.eq_false_iff.mpr hp) (processYend_yenc _ _)
      fun herr => (processYend_clean herr).1
  · exact h.other (Bool.eq_false_iff.mpr hb) (Bool.eq_false_iff.mpr hp) rfl id

theorem Ranged.entered : Entered Ranged where
  header line h := h.header line
  keep {hs out r r'} h heq := by
    have hyenc := congrArg Decoder.yenc heq
    have herr := congrArg Decoder.headerErr heq
    change r'.yenc = r.yenc at hyenc
    change r'.headerErr = r.headerErr at herr
    refine ⟨hyenc ▸ h.fileSize, hyenc ▸ h.partBegin, hyenc ▸ h.partSize, hyenc ▸ h.apart, ?_⟩
    rw [Exact, hyenc, herr]
    exact h.exact
  write d h := ⟨h.fileSize, h.partBegin, h.partSize, h.apart, h.exact⟩

theorem Ranged.fresh (onMeta strict : Bool) : Ranged [] [] (fresh onMeta strict).toDecoder where
  fileSize := (by decide : (0 : ℤ) ≤ maxInt64)
  partBegin := (by decide : (0 : ℤ) ≤ 0 ∧ (0 : ℤ) ≤ maxInt64)
  partSize := (by decide : -(2 ^ 63) ≤ (0 : ℤ))
  apart _ := (by decide : (0 : ℤ) = 0 ∧ (0 : ℤ) ≤ maxInt64)
  exact _ _ := by simp

end Reader

end NntpPool
