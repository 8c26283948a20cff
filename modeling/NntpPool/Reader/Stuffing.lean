import NntpPool.Reader.Text
/-!
# Reader — dot-stuffed text

A server puts a dot in front of every line of a block that starts with
one. In a reply to HEAD or CAPABILITIES the lines are kept as they come:
the only place that takes a dot off is `detectFormat`, which looks at
articles and bodies alone, and keeps the result to itself. So a block
comes back as it was exactly if none of its lines starts with a dot.
-/

namespace NntpPool

namespace Reader

variable {r : Decoder} {l : Bytes} {ls : List Bytes}

/-! ## Stuffing -/

/-- A line as it is sent. -/
def stuff (l : Bytes) : Bytes := if l.head? = some dot then dot :: l else l

/-- **The dot-stuffed encoding** of a block, with the line that ends
it. -/
def encodeBlock (ls : List Bytes) : Bytes := joinLines (ls.map stuff) ++ terminator

theorem stuff_eq_self_iff : stuff l = l ↔ l.head? ≠ some dot := by
  unfold stuff
  split_ifs with h
  · simp [h]
  · simp [h]

theorem map_stuff_eq_self_iff : ls.map stuff = ls ↔ ∀ l ∈ ls, l.head? ≠ some dot := by
  induction ls with
  | nil => simp
  | cons l ls ih => simp [stuff_eq_self_iff, ih]

/-- A line without a line end has no terminator in it. -/
theorem cut_crlf_of_not_mem (h : (13 : UInt8) ∉ l) : cut crlf l = none := by
  have hskip : cut (13 :: [10]) (l ++ []) = _ := cut_skip h []
  simpa [crlf, cut] using hskip

/-- **A line that is sent does not end the block.** -/
theorem isText_stuff (hl : (13 : UInt8) ∉ l) : IsText (stuff l) := by
  unfold stuff
  split_ifs with h
  · refine ⟨cut_crlf_of_not_mem (by simpa [dot] using hl), fun hdot => ?_⟩
    have : l = [] := by simpa [ascii, dot] using hdot
    simp [this] at h
  · refine ⟨cut_crlf_of_not_mem hl, ?_⟩
    rintro rfl
    exact h rfl

/-! ## Lines that are kept as they come -/

/-- The reply is to HEAD or CAPABILITIES. -/
structure Plain (r : Decoder) : Prop where
  format : r.format = .unknown
  status : r.statusCode = nntpHead ∨ r.statusCode = nntpCapabilities

theorem Plain.noteLine (h : Plain r) (l : Bytes) :
    noteLine r l = { r with lines := r.lines ++ [l] } := by
  have hdetect : detectFormat r l = r := by
    unfold detectFormat
    rw [if_pos]
    rcases h.status with hs | hs <;> rw [hs] <;> decide
  rw [Reader.noteLine, if_pos h.format, hdetect, formatNote, h.format]

theorem Plain.foldl_noteLine (h : Plain r) (ls : List Bytes) :
    ls.foldl Reader.noteLine r = { r with lines := r.lines ++ ls } := by
  induction ls generalizing r with
  | nil => simp
  | cons l ls ih =>
    have hnext : Plain { r with lines := r.lines ++ [l] } := ⟨h.format, h.status⟩
    rw [List.foldl_cons, h.noteLine, ih hnext]
    simp

theorem Plain.quietLines (h : Plain r) (hls : ∀ l ∈ ls, IsText l) : QuietLines r ls := by
  induction ls generalizing r with
  | nil => trivial
  | cons l ls ih =>
    have hnext : Plain { r with lines := r.lines ++ [l] } := ⟨h.format, h.status⟩
    have htext := hls l List.mem_cons_self
    refine ⟨⟨htext.1, htext.2, ?_, ?_⟩, ?_⟩
    · rcases h.status with hs | hs <;> rw [hs] <;> decide
    · rw [h.noteLine, h.format]
      nofun
    · rw [h.noteLine]
      exact ih hnext fun x hx => hls x (List.mem_cons_of_mem _ hx)

/-! ## Blocks -/

section Block

variable (N : Rapidyenc) (onMeta strict : Bool) (s : StatusLine)

theorem plain_afterStatus (hcode : s.code = nntpHead ∨ s.code = nntpCapabilities) :
    Plain (afterStatus onMeta strict s) := ⟨rfl, hcode⟩

theorem isMultiline_of_plain (hcode : s.code = nntpHead ∨ s.code = nntpCapabilities) :
    isMultiline s.code = true := by
  rcases hcode with hs | hs <;> rw [hs] <;> decide

variable {s} (hcode : s.code = nntpHead ∨ s.code = nntpCapabilities)
include hcode

/-- The reply as a whole. -/
theorem whole_plain (hls : ∀ l ∈ ls, IsText l) :
    whole N onMeta strict (s.text ++ crlf ++ (joinLines ls ++ terminator)) =
      some ⟨{ afterStatus onMeta strict s with lines := ls, eof := true }, [],
        s.text.length + 2 + ((joinLines ls).length + 3), [], none⟩ := by
  have hplain := plain_afterStatus onMeta strict s hcode
  obtain ⟨hready, hbody⟩ := ready_afterStatus onMeta strict s
  have hblock := scan_block N hready hbody (hplain.quietLines hls) [] []
  rw [List.append_nil] at hblock
  rw [whole_status, if_pos (isMultiline_of_plain s hcode), hblock, hplain.foldl_noteLine]
  rfl

/-- In a front part of it no format is found. -/
theorem whole_plain_front (hls : ∀ l ∈ ls, IsText l) {p : Bytes} {d : Decoded}
    (hp : p <+: s.text ++ crlf ++ (joinLines ls ++ terminator))
    (hd : whole N onMeta strict p = some d) (heof : d.r.eof = false) : d.r.format = .unknown := by
  have hplain := plain_afterStatus onMeta strict s hcode
  obtain ⟨hready, hbody⟩ := ready_afterStatus onMeta strict s
  rcases prefix_line s.free hp with ⟨hcut, -⟩ | ⟨q, rfl, hq⟩
  · rw [whole_of_cut_none N onMeta strict hcut, Option.some.injEq] at hd
    exact hd ▸ rfl
  · by_cases hall : q = joinLines ls ++ terminator
    · rw [hall, whole_plain N onMeta strict hcode hls, Option.some.injEq] at hd
      simp [← hd] at heof
    · obtain ⟨j, rest, -, -, hscan⟩ :=
        scan_block_front N hready hbody (hplain.quietLines hls) [] hq hall
      rw [whole_status, if_pos (isMultiline_of_plain s hcode), hscan, Option.map_some,
        Option.some.injEq] at hd
      rw [← hd]
      simp only [Decoded.shift, hplain.foldl_noteLine]
      exact hplain.format

/-- **In any chunking the lines are kept as they come.** -/
theorem feedChunks_plain (hls : ∀ l ∈ ls, IsText l) {chunks : List Bytes}
    (hflat : chunks.flatten = s.text ++ crlf ++ (joinLines ls ++ terminator)) :
    ∃ f, feedChunks N.decodeIncremental onMeta strict chunks = some f ∧ f.done = true ∧
      f.err = none ∧ f.r.lines = ls := by
  have hwhole := whole_plain N onMeta strict hcode hls
  rw [← hflat] at hwhole
  obtain ⟨f, hf, hdone, herr, hr⟩ := feedChunks_over N onMeta strict (fun q d hq hd _ heof => by
    have hformat := whole_plain_front N onMeta strict hcode hls (hflat ▸ hq) hd heof
    simp [InBody, Stuck, hformat]) hwhole rfl rfl
  exact ⟨f, hf, hdone, herr, by rw [hr]⟩

end Block

/-- **Text comes back as it was sent**, in a reply to HEAD or CAPABILITIES
and in any chunking, exactly if no line of it starts with a dot: the dots
that were put in front are not taken off. -/
theorem text_round_trips_iff (N : Rapidyenc) (onMeta strict : Bool) (s : StatusLine)
    (hcode : s.code = nntpHead ∨ s.code = nntpCapabilities) (L : List Bytes)
    (hL : ∀ l ∈ L, (13 : UInt8) ∉ l ∧ (10 : UInt8) ∉ l) (chunks : List Bytes)
    (hflat : chunks.flatten = s.text ++ crlf ++ encodeBlock L) :
    (∃ f, feedChunks N.decodeIncremental onMeta strict chunks = some f ∧ f.done = true ∧
      f.err = none ∧ f.r.lines = L) ↔ ∀ l ∈ L, l.head? ≠ some dot := by
  have htext (l : Bytes) (hl : l ∈ L.map stuff) : IsText l := by
    obtain ⟨x, hx, rfl⟩ := List.mem_map.mp hl
    exact isText_stuff (hL x hx).1
  obtain ⟨f, hf, hdone, herr, hlines⟩ := feedChunks_plain N onMeta strict hcode htext hflat
  rw [← map_stuff_eq_self_iff, ← hlines]
  constructor
  · rintro ⟨g, hg, -, -, hsame⟩
    obtain rfl : f = g := Option.some.inj (hf.symm.trans hg)
    exact hsame
  · intro hsame
    exact ⟨f, hf, hdone, herr, hsame⟩

/-- The status line of a reply to HEAD. -/
def headStatus : StatusLine := ⟨ascii "221 0 <a>", by decide, by decide, by decide⟩

theorem text_round_trips_iff_head :
    ∃ f, feedChunks Rapidyenc.scalar.decodeIncremental false true
        [ascii "221 0 <a>\r\nFrom: a", ascii "\r", ascii "\n\r\n.\r\n"] = some f ∧
      f.done = true ∧ f.err = none ∧ f.r.lines = [ascii "From: a", []] :=
  (text_round_trips_iff Rapidyenc.scalar false true headStatus (.inl (by decide))
    [ascii "From: a", []] (by decide) _ (by decide)).mpr (by decide)

/-- **A line that starts with a dot comes back with two.** -/
theorem dot_comes_back_twice :
    ∃ f, feedChunks Rapidyenc.scalar.decodeIncremental false true
        [ascii "221 0 <a>\r\n" ++ encodeBlock [ascii ".a"]] = some f ∧
      f.done = true ∧ f.err = none ∧ f.r.lines = [ascii "..a"] := by
  have hrun : (feedChunks Rapidyenc.scalar.decodeIncremental false true
      [ascii "221 0 <a>\r\n" ++ encodeBlock [ascii ".a"]]).map (fun f =>
        (f.done, f.err, f.r.lines)) = some (true, none, [ascii "..a"]) := by decide
  obtain ⟨f, hf, hproj⟩ := Option.map_eq_some_iff.mp hrun
  simp only [Prod.mk.injEq] at hproj
  exact ⟨f, hf, hproj⟩

end Reader

end NntpPool
