import NntpPool.Post.Block
/-!
# Post — reading the headers back

`parseHeaders` puts a folded field together again, with one space for each
fold, and takes the white space off at both ends of every line. So it finds
the words that were written, in the order they were written in.
-/

namespace NntpPool

namespace Post

variable {h : PostHeaders} {encode : Bytes → Bytes} {now : UTC} {name value l : Bytes}
  {st : Parsed} {ps qs : List Bytes}

theorem appendLast_concat (more v : Bytes) (vs : List Bytes) :
    appendLast more (vs ++ [v]) = vs ++ [v ++ more] := by
  induction vs with
  | nil => rfl
  | cons x vs ih =>
    have hne : vs ++ [v] ≠ [] := by simp
    obtain ⟨y, ys, hys⟩ := List.exists_cons_of_ne_nil hne
    rw [List.cons_append, hys, appendLast, ← hys, ih, List.cons_append]
    simp

/-! ## Lines -/

/-- The values of a key are set twice. -/
theorem Parsed.set_set (st : Parsed) (name : Bytes) (vs vs' : List Bytes) :
    (st.set name vs).set name vs' = st.set name vs' := by
  simp [Parsed.set]

/-- The line a field starts with. -/
theorem Parsed.line_first (hname : isValidHeaderName name = true) (text : Bytes) :
    st.line (name ++ 58 :: text) = st.set name (st.headers name ++ [trimSpace text]) := by
  obtain ⟨hne, hbytes⟩ := isValidHeaderName_iff.1 hname
  have hsolid : trimSpace name = name := by
    refine trimSpace_of_solid fun b hb => ?_
    exact ⟨(isNameByte_spec (hbytes b hb)).ascii, (isNameByte_spec (hbytes b hb)).space⟩
  have hcut := cut_colon (fun hin => (isNameByte_spec (hbytes 58 hin)).colon rfl) text
  obtain ⟨c, t, rfl⟩ := List.exists_cons_of_ne_nil hne
  have hc : isBlank c = false := (isNameByte_spec (hbytes c List.mem_cons_self)).blank
  rw [List.cons_append] at hcut ⊢
  simp only [Parsed.line, hc, Bool.false_eq_true, if_false, hcut, hsolid]

/-- A line behind a TAB goes to the last value. -/
theorem Parsed.line_tab (hname : name ≠ []) (vs : List Bytes) (v : Bytes) :
    (st.set name (vs ++ [v])).line (9 :: l) =
      st.set name (vs ++ [v ++ (ascii " " ++ trimSpace (9 :: l))]) := by
  have hblank : isBlank 9 = true := rfl
  have hkey : (st.set name (vs ++ [v])).currentKey = name := rfl
  have hvalues : (st.set name (vs ++ [v])).headers name = vs ++ [v] := Function.update_self ..
  simp only [Parsed.line, hblank, if_true, hkey, hname, if_false, hvalues, appendLast_concat,
    Parsed.set_set]

/-- **The lines behind the first** add their words to the value. -/
theorem Parsed.foldl_tabs (st : Parsed) (vs : List Bytes) (hname : name ≠ [])
    (hqs : ∀ q ∈ qs, ∀ b ∈ q, b ≤ 127) (v : Bytes) :
    ∃ v', (qs.map (9 :: ·)).foldl Parsed.line (st.set name (vs ++ [v])) =
        st.set name (vs ++ [v']) ∧
      words isSpace v' = words isSpace v ++ qs.flatMap (words isSpace) := by
  induction qs generalizing v with
  | nil => exact ⟨v, rfl, by simp⟩
  | cons q qs ih =>
    have hq : ∀ b ∈ 9 :: q, b ≤ 127 := by
      intro b hb
      rcases List.mem_cons.mp hb with rfl | hb
      · decide
      · exact hqs q List.mem_cons_self b hb
    obtain ⟨v', hfold, hwords⟩ := ih (fun x hx => hqs x (List.mem_cons_of_mem _ hx))
      (v ++ (ascii " " ++ trimSpace (9 :: q)))
    refine ⟨v', ?_, ?_⟩
    · rw [List.map_cons, List.foldl_cons, Parsed.line_tab hname, hfold]
    · -- the space that joins them, and the TAB, are between words
      have hblank : ascii " " ++ trimSpace (9 :: q) = 32 :: trimSpace (9 :: q) := rfl
      rw [hwords, hblank, words_append_cons (by decide), words_trimSpace hq,
        words_cons (by decide), List.flatMap_cons, List.append_assoc]

/-- **A field is put together again.** -/
theorem Parsed.foldl_field (st : Parsed) (hfolds : Folds (headerLine name value) ps)
    (hname : isValidHeaderName name = true) (hvalue : ∀ b ∈ value, b ≤ 127) :
    ∃ v, (foldedLines ps).foldl Parsed.line st = st.set name (st.headers name ++ [v]) ∧
      words isSpace v = words isSpace value := by
  obtain ⟨hne, hbytes⟩ := isValidHeaderName_iff.1 hname
  obtain ⟨u, qs, rfl, hwords⟩ := hfolds.header hname
  have hline (b : UInt8) (hb : b ∈ headerLine name value) : b ≤ 127 := by
    simp only [headerLine, List.mem_append] at hb
    rcases hb with (hb | hb) | hb
    · exact (isNameByte_spec (hbytes b hb)).ascii
    · exact (isPrintable_ne ((printable_iff.2 rfl : Printable (ascii ": ")) b hb)).1
    · exact hvalue b hb
  have hu (b : UInt8) (hb : b ∈ u) : b ≤ 127 :=
    hline b (hfolds.mem List.mem_cons_self (by simp [hb]))
  have hqs (q : Bytes) (hq : q ∈ qs) (b : UInt8) (hb : b ∈ q) : b ≤ 127 :=
    hline b (hfolds.mem (List.mem_cons_of_mem _ hq) hb)
  obtain ⟨v, hfold, hv⟩ := Parsed.foldl_tabs st (st.headers name) hne hqs (trimSpace u)
  refine ⟨v, ?_, ?_⟩
  · rw [foldedLines, List.foldl_cons, Parsed.line_first hname, hfold]
  · rw [hv, words_trimSpace hu, hwords]

/-! ## Fields -/

/-- **The values written under a name**, in order. -/
def valuesOf (name : Bytes) (fields : List (Bytes × Bytes)) : List Bytes :=
  (fields.filter fun f => f.1 = name).map Prod.snd

/-- **The fields are read in order.** -/
theorem Parsed.foldl_fields {pieces : Bytes × Bytes → List Bytes}
    (hfolds : ∀ f, Folds (headerLine f.1 f.2) (pieces f)) (fields : List (Bytes × Bytes))
    (hfields : ∀ f ∈ fields, isValidHeaderName f.1 = true ∧ ∀ b ∈ f.2, b ≤ 127) (st : Parsed)
    (name : Bytes) :
    (((fields.map fun f => foldedLines (pieces f)).flatten.foldl Parsed.line st).headers name).map
        (words isSpace) =
      (st.headers name).map (words isSpace) ++ (valuesOf name fields).map (words isSpace) := by
  induction fields generalizing st with
  | nil => simp [valuesOf]
  | cons f fields ih =>
    obtain ⟨hname, hvalue⟩ := hfields f List.mem_cons_self
    obtain ⟨v, hfold, hv⟩ := Parsed.foldl_field st (hfolds f) hname hvalue
    rw [List.map_cons, List.flatten_cons, List.foldl_append, hfold,
      ih fun x hx => hfields x (List.mem_cons_of_mem _ hx)]
    by_cases heq : f.1 = name
    · subst heq
      simp [Parsed.set, valuesOf, hv]
    · simp [Parsed.set, valuesOf, heq, Function.update_of_ne (Ne.symm heq)]

/-- **Headers of ASCII.** The names of the groups and of the headers are,
if they are let through. -/
structure PostHeaders.Ascii (h : PostHeaders) : Prop where
  fromAddr : isASCII h.fromAddr = true
  subject : isASCII h.subject = true
  messageID : isASCII h.messageID = true
  extra : ∀ e ∈ h.extra, ∀ v ∈ e.2, isASCII v = true

theorem fields_ascii (hv : h.Valid) (ha : h.Ascii) (encode : Bytes → Bytes) (now : UTC) :
    ∀ f ∈ h.fields encode now,
      isValidHeaderName f.1 = true ∧ Clean f.2 ∧ ∀ b ∈ f.2, b ≤ 127 := by
  have hsame (s : Bytes) (hs : isASCII s = true) : encodeHeaderValue encode s = s := if_pos hs
  refine fields_forall (P := fun s => Clean s ∧ ∀ b ∈ s, b ≤ 127) hv ?_ ?_ ?_ ?_ ?_ now
  · exact fun s hs => ⟨hs.clean, fun b hb => (isPrintable_ne (hs b hb)).1⟩
  · rw [hsame _ ha.fromAddr]
    exact ⟨hv.fromAddr, isASCII_iff.1 ha.fromAddr⟩
  · rw [hsame _ ha.subject]
    exact ⟨hv.subject, isASCII_iff.1 ha.subject⟩
  · exact ⟨hv.messageID, isASCII_iff.1 ha.messageID⟩
  · exact fun e he v hv' => ⟨(hv.extra e he).2 v hv', isASCII_iff.1 (ha.extra e he v hv')⟩

/-- **The headers are read back**: under every name the values that were
written, up to white space. Folding leaves the words of a line as they
are. -/
theorem headers_read_back (encode : Bytes → Bytes) (now : UTC) (hvalid : h.validate = none)
    (hascii : h.Ascii) :
    ∃ out, h.writeTo encode now = .ok out ∧
      (∀ name, (parseHeaders (splitCRLF out) name).map (collapse isSpace 32) =
        (valuesOf name (h.fields encode now)).map (collapse isSpace 32)) ∧
      ∀ line, words isSpace (foldHeaderLine line) = words isSpace line := by
  have hfields := fields_ascii (validate_valid hvalid) hascii encode now
  obtain ⟨pieces, hfolds, hwrite⟩ := writeTo_lines encode now hvalid
  refine ⟨_, hwrite, fun name => ?_, words_foldHeaderLine⟩
  have hlines (l : Bytes)
      (hl : l ∈ ((h.fields encode now).map fun f => foldedLines (pieces f)).flatten) : 13 ∉ l := by
    obtain ⟨ls, hls, hl⟩ := List.mem_flatten.mp hl
    obtain ⟨f, hf, rfl⟩ := List.mem_map.mp hls
    obtain ⟨hname, hclean, -⟩ := hfields f hf
    exact ((isField_folded (hfolds f) hname hclean).clean l hl).1
  -- the two empty lines at the end are passed over
  have hread : parseHeaders (splitCRLF (unlines
      ((h.fields encode now).map fun f => foldedLines (pieces f)).flatten ++ crlf)) =
      (((h.fields encode now).map fun f => foldedLines (pieces f)).flatten.foldl Parsed.line
        {}).headers := by
    rw [splitCRLF_unlines hlines, parseHeaders, List.foldl_append]
    rfl
  have hwords := Parsed.foldl_fields hfolds (h.fields encode now)
    (fun f hf => ⟨(hfields f hf).1, (hfields f hf).2.2⟩) {} name
  rw [List.map_nil, List.nil_append] at hwords
  rw [hread]
  have hcollapse := congrArg (List.map fun ws => [(32 : UInt8)].intercalate ws) hwords
  rw [List.map_map, List.map_map] at hcollapse
  exact hcollapse

theorem headers_read_back_sample :
    sampleHeaders.validate = none ∧
      ∃ out, sampleHeaders.writeTo (fun _ => []) sampleTime = .ok out ∧
        (∀ name, (parseHeaders (splitCRLF out) name).map (collapse isSpace 32) =
          (valuesOf name (sampleHeaders.fields (fun _ => []) sampleTime)).map
            (collapse isSpace 32)) ∧
        ∀ line, words isSpace (foldHeaderLine line) = words isSpace line := by
  have hvalid : sampleHeaders.validate = none := by decide
  exact ⟨hvalid, headers_read_back _ sampleTime hvalid
    ⟨by decide, by decide, by decide, by decide⟩⟩

end Post

end NntpPool
