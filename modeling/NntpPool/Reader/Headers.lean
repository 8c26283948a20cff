import NntpPool.Reader.Chunks
/-!
# Reader — the header lines of a run

Which lines of a response are handed to `processYencHeader`, over any
number of calls, and a rule for what they amount to: an invariant of the
header lines, the bytes written and the fields a header line sets holds
of a whole run, if a header line keeps it, the decoded bytes do, and no
other field has a say in it (`Entered.feedLoop`).
-/

namespace NntpPool

namespace Reader

/-! ## The header lines of a run -/

def isYbegin (line : Bytes) : Bool := (ascii "=ybegin ").isPrefixOf line
def isYpart (line : Bytes) : Bool := (ascii "=ypart ").isPrefixOf line
def isYend (line : Bytes) : Bool := (ascii "=yend ").isPrefixOf line

/-- The line, if a turn of the line loop hands it to
`processYencHeader`. -/
def headerOf (r : Decoder) (line : Bytes) : List Bytes :=
  if line = ascii "." then []
  else if r.format = .unknown then
    if r.statusCode = 0 ∧ 3 ≤ line.length then []
    else if (detectFormat r line).format = .yenc then [line] else []
  else if r.format = .yenc then [line] else []

/-- The header lines of the line loop. -/
def linesHeaders (dec : DecodeFn) (w : Writer) : ℕ → Decoder → Bytes → Bytes → List Bytes
  | 0, _, _, _ => []
  | fuel + 1, r, out, buf =>
    match cut crlf buf with
    | none => []
    | some (line, buf) =>
      headerOf r line ++
        match lineTurn dec w r out line buf with
        | .goOn r out _ buf => linesHeaders dec w fuel r out buf
        | _ => []

/-- The header lines of a call. -/
def decodeHeaders (dec : DecodeFn) (w : Writer) (r : Decoder) (out buf : Bytes) : List Bytes :=
  if r.body then
    if r.format = .yenc then
      let y := decodeYenc dec w r out buf
      if y.err.isSome then []
      else
        match sliceFrom y.buf y.n with
        | none => []
        | some buf =>
          if y.r.body then [] else linesHeaders dec w (buf.length + 1) y.r y.out buf
    else []
  else linesHeaders dec w (buf.length + 1) r out buf

/-- **The header lines that the calls of a run process.** -/
def loopHeaders (dec : DecodeFn) (w : Writer) : Fed → List Bytes → List Bytes
  | _, [] => []
  | f, chunk :: chunks =>
    if f.done ∨ f.err.isSome then []
    else
      decodeHeaders dec w f.r.toDecoder f.out (f.rest ++ chunk) ++
        match feed dec w f.r f.out (f.rest ++ chunk) with
        | none => []
        | some f => loopHeaders dec w f chunks

/-- A run before its first call. -/
def unread (onMeta strict : Bool) : Fed := ⟨fresh onMeta strict, [], 0, [], false, none⟩

/-! ## The rule -/

/-- The fields a header line or decoded bytes may set: the others are
blank. -/
def noted (r : Decoder) : Decoder :=
  { r with
    lines := [], format := .unknown, message := [], state := .crlf, statusCode := 0
    eof := false, body := false, hasEmptyline := false }

/-- **An invariant of header lines and decoded bytes**, with the lines
processed and the bytes written so far. -/
structure Entered (I : List Bytes → Bytes → Decoder → Prop) : Prop where
  header : ∀ {hs out r} (line : Bytes), I hs out r → I (hs ++ [line]) out (processYencHeader r line)
  keep : ∀ {hs out r r'}, I hs out r → noted r' = noted r → I hs out r'
  write : ∀ {hs out r} (d : Bytes), I hs out r → I hs (out ++ d)
    { r with crc := crc32Update r.crc d, bytesDecoded := r.bytesDecoded + d.length }

section Entered

variable {I : List Bytes → Bytes → Decoder → Prop} {hs : List Bytes} {out line : Bytes}
  {r r' : Decoder} (dec : DecodeFn) (w : Writer)

theorem noted_leaveBody (r : Decoder) (stop : End) : noted (leaveBody r stop) = noted r := by
  unfold leaveBody
  split
  · split_ifs <;> rfl
  · rfl
  · rfl

theorem noted_detectFormat (r : Decoder) (line : Bytes) :
    noted (detectFormat r line) = noted r := by
  unfold detectFormat
  split_ifs <;> try rfl
  split
  · split_ifs <;> rfl
  · rfl

/-- The native decoder adds what it writes. -/
theorem Entered.decodeYenc (hI : Entered I) (h : I hs out r) (buf : Bytes)
    (herr : (decodeYenc dec w r out buf).err = none) :
    I hs (decodeYenc dec w r out buf).out (decodeYenc dec w r out buf).r := by
  unfold Reader.decodeYenc at herr ⊢
  dsimp only at herr ⊢
  split_ifs at herr ⊢ with hbuf hdec hdst
  · exact h
  · obtain ⟨e, he⟩ := Option.isSome_iff_exists.mp hdec.1
    rw [he] at herr
    cases herr
  · exact hI.keep h (noted_leaveBody _ _)
  · split at herr
    · cases herr
    · exact hI.keep (hI.write _ h) (noted_leaveBody _ _)

/-- What a turn of the line loop leaves is entered. -/
def Turn.Enters (I : Bytes → Decoder → Prop) : Turn → Prop
  | .ret d => d.err = none → I d.out d.r
  | .panic => True
  | .goOn r out _ _ => I out r

theorem Entered.bodyTurn (hI : Entered I) (h : I hs out r) (line buf : Bytes) :
    (bodyTurn dec w r out line buf).Enters (I hs) := by
  have hy := hI.decodeYenc dec w h buf
  unfold Reader.bodyTurn
  dsimp only
  split
  · trivial
  · split_ifs with hret
    · exact hy
    · rw [not_or, Option.not_isSome_iff_eq_none] at hret
      exact hy hret.1

theorem Entered.formatTurn (hI : Entered I) (h : I hs out r) (line buf : Bytes) :
    (formatTurn dec w r out line buf).Enters
      (I (hs ++ if r.format = .yenc then [line] else [])) := by
  unfold Reader.formatTurn
  cases hf : r.format with
  | unknown =>
    rw [if_neg (by decide), List.append_nil]
    exact hI.keep h rfl
  | yenc =>
    rw [if_pos rfl]
    dsimp only
    split_ifs
    · exact hI.bodyTurn dec w (hI.header line h) line buf
    · exact hI.header line h
  | uu =>
    rw [if_neg (by decide), List.append_nil]
    exact h

/-- **One turn of the line loop.** -/
theorem Entered.lineTurn (hI : Entered I) (h : I hs out r) (line buf : Bytes) :
    (lineTurn dec w r out line buf).Enters (I (hs ++ headerOf r line)) := by
  unfold Reader.lineTurn headerOf
  by_cases hdot : line = ascii "."
  · rw [if_pos hdot, if_pos hdot, List.append_nil]
    exact fun _ => hI.keep h rfl
  rw [if_neg hdot, if_neg hdot]
  by_cases hu : r.format = .unknown
  · rw [if_pos hu, if_pos hu]
    by_cases hst : r.statusCode = 0 ∧ 3 ≤ line.length
    · rw [if_pos hst, if_pos hst, List.append_nil]
      unfold statusTurn
      dsimp only
      split_ifs
      · exact nofun
      · exact hI.keep h rfl
      · exact fun _ => hI.keep h rfl
    · rw [if_neg hst, if_neg hst]
      exact hI.formatTurn dec w (hI.keep h (noted_detectFormat r line)) line buf
  · rw [if_neg hu, if_neg hu]
    exact hI.formatTurn dec w h line buf

/-- The line loop. -/
theorem Entered.decodeLines (hI : Entered I) (fuel : ℕ) {hs : List Bytes} {out : Bytes}
    {r : Decoder} {read : ℤ} {buf : Bytes} {d : Decoded} (h : I hs out r)
    (hd : decodeLines dec w fuel r out read buf = some d) (herr : d.err = none) :
    I (hs ++ linesHeaders dec w fuel r out buf) d.out d.r := by
  induction fuel generalizing hs out r read buf d with
  | zero =>
    cases hd
    rw [linesHeaders, List.append_nil]
    exact h
  | succ fuel ih =>
    rw [Reader.decodeLines] at hd
    rw [linesHeaders]
    rcases hcut : cut crlf buf with _ | ⟨line, rest⟩
    · rw [hcut] at hd
      cases hd
      exact (List.append_nil hs).symm ▸ h
    · rw [hcut] at hd
      have hturn := hI.lineTurn dec w h line rest
      dsimp only at hd ⊢
      rw [← List.append_assoc]
      cases ht : Reader.lineTurn dec w r out line rest with
      | ret d' =>
        rw [ht] at hd hturn
        cases hd
        rw [List.append_nil]
        exact hturn herr
      | panic =>
        rw [ht] at hd
        cases hd
      | goOn r' out' n buf' =>
        rw [ht] at hd hturn
        exact ih hturn hd herr

/-- **One call.** -/
theorem Entered.decode (hI : Entered I) {d : Decoded} {buf : Bytes} (h : I hs out r)
    (hd : decode dec w r out buf = some d) (herr : d.err = none) :
    I (hs ++ decodeHeaders dec w r out buf) d.out d.r := by
  unfold Reader.decode at hd
  unfold decodeHeaders
  by_cases hbody : r.body = true
  · rw [if_pos hbody] at hd ⊢
    by_cases hf : r.format = .yenc
    · rw [if_pos hf] at hd ⊢
      have hy := hI.decodeYenc dec w h buf
      dsimp only at hd ⊢
      by_cases he : (Reader.decodeYenc dec w r out buf).err.isSome = true
      · rw [if_pos he] at hd
        cases hd
        exact absurd herr (Option.isSome_iff_ne_none.mp he)
      · rw [if_neg he] at hd ⊢
        replace hy := hy (Option.not_isSome_iff_eq_none.mp he)
        cases hslice : sliceFrom (Reader.decodeYenc dec w r out buf).buf
            (Reader.decodeYenc dec w r out buf).n with
        | none =>
          rw [hslice] at hd
          cases hd
        | some rest =>
          rw [hslice] at hd
          dsimp only at hd ⊢
          split_ifs at hd ⊢ with hb
          · cases hd
            rw [List.append_nil]
            exact hy
          · exact hI.decodeLines dec w _ hy hd herr
    · rw [if_neg hf] at hd ⊢
      cases hd
      rw [List.append_nil]
      exact h
  · rw [if_neg hbody] at hd ⊢
    exact hI.decodeLines dec w _ h hd herr

/-- A call that fails ends the run. -/
theorem feedLoop_of_err {f : Fed} (h : f.err ≠ none) (chunks : List Bytes) :
    feedLoop dec w f chunks = some f := by
  cases chunks with
  | nil => rfl
  | cons chunk chunks =>
    rw [Reader.feedLoop, if_pos (.inr (Option.isSome_iff_ne_none.mpr h))]

/-- A call that is done has not failed. -/
theorem feedLoop_done {f f' : Fed} {chunks : List Bytes} (h : f.done = true → f.err = none)
    (hrun : feedLoop dec w f chunks = some f') : f'.done = true → f'.err = none := by
  induction chunks generalizing f with
  | nil =>
    cases hrun
    exact h
  | cons chunk chunks ih =>
    rw [Reader.feedLoop] at hrun
    split_ifs at hrun with hstop
    · cases hrun
      exact h
    · obtain ⟨f₁, hf₁, hrest⟩ := Option.bind_eq_some_iff.mp hrun
      obtain ⟨d, hd, rfl⟩ := Option.map_eq_some_iff.mp hf₁
      refine ih (fun hdone => ?_) hrest
      simp only [Bool.and_eq_true, Option.isNone_iff_eq_none] at hdone
      exact hdone.1

/-- **Whole runs**, as long as no call fails. -/
theorem Entered.feedLoop (hI : Entered I) {f f' : Fed} {chunks : List Bytes}
    (h : I hs f.out f.r.toDecoder) (hrun : feedLoop dec w f chunks = some f')
    (herr : f'.err = none) :
    I (hs ++ loopHeaders dec w f chunks) f'.out f'.r.toDecoder := by
  induction chunks generalizing hs f with
  | nil =>
    cases hrun
    exact (List.append_nil hs).symm ▸ h
  | cons chunk chunks ih =>
    rw [Reader.feedLoop] at hrun
    rw [loopHeaders]
    split_ifs at hrun ⊢ with hstop
    · cases hrun
      exact (List.append_nil hs).symm ▸ h
    · obtain ⟨f₁, hf₁, hrest⟩ := Option.bind_eq_some_iff.mp hrun
      rw [hf₁, ← List.append_assoc]
      obtain ⟨d, hd, rfl⟩ := Option.map_eq_some_iff.mp hf₁
      have hcall : d.err = none := by
        by_contra hne
        rw [feedLoop_of_err dec w hne] at hrest
        cases hrest
        exact hne herr
      exact ih (hI.decode dec w h hd hcall) hrest

end Entered

end Reader

end NntpPool
