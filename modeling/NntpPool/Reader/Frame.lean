import NntpPool.Reader.Text
/-!
# Reader — the yEnc frame

The data lines of a frame are dot-stuffed and start with no `=y`, so the
native decoder reads through them from line start to line start and stops
at the `=yend` line (`run_frame`).
-/

namespace NntpPool

namespace Reader

namespace Rapidyenc

variable (N : Rapidyenc)

/-- The native decoder stands in the middle of a line. -/
def Mid (s : State) : Prop := s = .eq ∨ s = .cr ∨ s = .none

/-- From the middle of a line, or from behind `=` or a stuffed dot, a byte
that ends no terminator leads to the middle of the line. -/
theorem mid_next {s : State} {b : UInt8} (hs : s ≠ .crlf) (hlf : b = 10 → s ≠ .cr ∧ s ≠ .crlfdtcr)
    (hdt : s = .crlfdt → b ≠ 13 ∧ b ≠ equals) : Mid (N.next s b) := by
  cases hn : N.next s b with
  | crlf =>
    obtain ⟨hsc | hsc, hb⟩ := N.enter_crlf _ _ hn
    · exact absurd hsc (hlf hb).1
    · exact absurd hsc (hlf hb).2
  | crlfdt => exact absurd (N.enter_crlfdt _ _ hn).1 hs
  | crlfdtcr =>
    obtain ⟨hsd, hb⟩ := N.enter_crlfdtcr _ _ hn
    exact absurd hb (hdt hsd).1
  | crlfeq =>
    obtain ⟨hsc | hsd, hb⟩ := N.enter_crlfeq _ _ hn
    · exact absurd hsc hs
    · exact absurd hb (hdt hsd).2
  | eq => exact Or.inl rfl
  | cr => exact Or.inr (Or.inl rfl)
  | none => exact Or.inr (Or.inr rfl)

/-- A step that does not stop. -/
theorem run_cons_of_step {s : State} {b : UInt8} {t : Bytes} (h : N.stop s b = none)
    (ht : (N.run (N.next s b) t).stopped = none ∧ (N.run (N.next s b) t).state = .crlf) :
    (N.run s (b :: t)).stopped = none ∧ (N.run s (b :: t)).state = .crlf := by
  rw [Transducer.run_cons_of_running h]
  exact ht

/-- The line terminator, read from anywhere but behind a dot at the start
of the line. -/
theorem run_crlf {s : State} (hs : s ≠ .crlfdt) :
    (N.run s crlf).stopped = none ∧ (N.run s crlf).state = .crlf := by
  have hcr := N.next_cr s hs
  have hstop : N.stop s 13 = none := 
    N.stop_eq_none (fun h => by simp [letterY] at h) (fun h => by simp at h)
  refine N.run_cons_of_step hstop ?_
  rw [hcr]
  refine N.run_cons_of_step (N.stop_eq_none (by decide) (by decide)) ?_
  rw [N.next_lf]
  exact ⟨rfl, rfl⟩

/-- **The rest of a line** is read through to the start of the next. -/
theorem run_mid (t : Bytes) :
    ∀ {s : State}, Mid s → cut crlf t = none → (s = .cr → t.head? ≠ some 10) →
      (N.run s (t ++ crlf)).stopped = none ∧ (N.run s (t ++ crlf)).state = .crlf := by
  induction t with
  | nil =>
    intro s hs _ _
    refine N.run_crlf ?_
    rcases hs with rfl | rfl | rfl <;> simp
  | cons b t ih =>
    intro s hs hfree hcr
    obtain ⟨hfree', hnext⟩ := cut_cons_eq_none hfree
    have hstop : N.stop s b = none := by
      refine N.stop_eq_none (fun h => ?_) (fun h => ?_)
      · rcases hs with rfl | rfl | rfl <;> simp at h
      · rcases hs with rfl | rfl | rfl <;> simp at h
    have hmid : Mid (N.next s b) := by
      refine N.mid_next ?_ (fun hb => ⟨fun hsc => ?_, ?_⟩) (fun hd => ?_)
      · rcases hs with rfl | rfl | rfl <;> simp
      · exact hcr hsc (by simp [hb])
      · rcases hs with rfl | rfl | rfl <;> simp
      · rcases hs with rfl | rfl | rfl <;> simp at hd
    exact N.run_cons_of_step hstop (ih hmid hfree' fun hc => hnext (N.enter_cr _ _ hc))

/-- **A data line** is read from line start to line start. -/
theorem run_dataLine {l : Bytes} (h : IsData l) :
    (N.run .crlf (l ++ crlf)).stopped = none ∧ (N.run .crlf (l ++ crlf)).state = .crlf := by
  obtain ⟨hfree, hdot, hy⟩ := h
  cases l with
  | nil => exact N.run_crlf (by decide)
  | cons b t =>
    obtain ⟨hfree', hnext⟩ := cut_cons_eq_none hfree
    refine N.run_cons_of_step (N.stop_eq_none (by simp) (by simp)) ?_
    cases hn : N.next .crlf b with
    | crlf => exact absurd (N.enter_crlf _ _ hn).1 (by decide)
    | crlfdtcr => exact absurd (N.enter_crlfdtcr _ _ hn).1 (by decide)
    | eq => exact N.run_mid t (Or.inl rfl) hfree' nofun
    | none => exact N.run_mid t (Or.inr (Or.inr rfl)) hfree' nofun
    | cr => exact N.run_mid t (Or.inr (Or.inl rfl)) hfree' fun _ => hnext (N.enter_cr _ _ hn)
    | crlfdt =>
      -- a stuffed dot: the second one leads into the line
      obtain ⟨-, rfl⟩ := N.enter_crlfdt _ _ hn
      have hhead := hdot rfl
      cases t with
      | nil => cases hhead
      | cons c t =>
        simp only [List.drop_one, List.tail_cons, List.head?_cons, Option.some.injEq] at hhead
        subst hhead
        refine N.run_cons_of_step (N.stop_eq_none (by simp) (by simp)) ?_
        refine N.run_mid t (N.mid_next (by simp) (by simp) (by decide)) (cut_cons_eq_none hfree').1 ?_
        intro hc
        exact absurd (N.enter_cr _ _ hc) (by decide)
    | crlfeq =>
      -- an escape at the start of the line, of anything but `y`
      obtain ⟨-, rfl⟩ := N.enter_crlfeq _ _ hn
      cases t with
      | nil => exact N.run_crlf (by decide)
      | cons c t =>
        obtain ⟨hfree'', hnext'⟩ := cut_cons_eq_none hfree'
        have hc : c ≠ letterY := by
          rintro rfl
          exact hy (by simp [ascii, equals, letterY])
        refine N.run_cons_of_step (N.stop_eq_none (by simp [hc]) (by simp)) ?_
        exact N.run_mid t (N.mid_next (by simp) (by simp) (by simp)) hfree''
          fun hcr => hnext' (N.enter_cr _ _ hcr)

/-- The data of a frame, from line start to line start. -/
theorem run_data {data : List Bytes} (h : ∀ l ∈ data, IsData l) :
    (N.run .crlf (joinLines data)).stopped = none ∧
      (N.run .crlf (joinLines data)).state = .crlf := by
  induction data with
  | nil => exact ⟨rfl, rfl⟩
  | cons l data ih =>
    obtain ⟨hrun, hstate⟩ := N.run_dataLine (h l (by simp))
    rw [joinLines_cons, Transducer.run_append_of_running _ hrun, hstate]
    exact ih fun l' hl' => h l' (by simp [hl'])

/-- **At a header line the native decoder stops**, two bytes into it. -/
theorem run_header (u : Bytes) :
    N.run .crlf (ascii "=y" ++ u) = ⟨[], 2, N.next .crlfeq letterY, some .control⟩ := by
  have hstop : N.stop .crlfeq letterY = some .control := (N.stop_control _ _).mpr ⟨rfl, rfl⟩
  have hemit : N.emit .crlf equals = none := N.emit_marker _ _ (Or.inl N.next_equals)
  have hemit' : N.emit .crlfeq letterY = none := N.emit_stop _ _ (by rw [hstop]; simp)
  change N.run .crlf (equals :: letterY :: u) = _
  rw [Transducer.run_cons_of_running (N.stop_eq_none (by decide) (by decide)), N.next_equals,
    Transducer.run_cons_of_stop hstop, hemit, hemit']
  rfl

/-- **The frame is read to its `=yend`**, where the native decoder stops
two bytes into the line. -/
theorem run_frame {data : List Bytes} (h : ∀ l ∈ data, IsData l) {t : Bytes}
    (ht : ascii "=y" <+: t) :
    (N.run .crlf (joinLines data ++ t)).stopped = some .control ∧
      (N.run .crlf (joinLines data ++ t)).consumed = (joinLines data).length + 2 ∧
      (N.run .crlf (joinLines data ++ t)).out = (N.run .crlf (joinLines data)).out := by
  obtain ⟨hrun, hstate⟩ := N.run_data h
  obtain ⟨u, rfl⟩ := ht
  rw [Transducer.run_append_of_running _ hrun, hstate, N.run_header]
  exact ⟨rfl, rfl, List.append_nil _⟩

end Rapidyenc

/-- A terminator split between two calls is one the whole run stops at. -/
theorem stopped_of_splitTerminator (N : Rapidyenc) {r : Decoder} {a b : Bytes}
    (h : (N.run r.state a).stopped = none)
    (hs : SplitTerminator (settle r (N.run r.state a)).state
      (a.drop ((N.run r.state a).consumed - giveBack (N.run r.state a)) ++ b)) :
    (N.run r.state (a ++ b)).stopped = some .article := by
  rw [settle_of_running h, resumeState] at hs
  dsimp only at hs
  split_ifs at hs with heq
  · exact absurd hs (by rintro (⟨h, -⟩ | ⟨h, -⟩) <;> cases h)
  · have hgive : giveBack (N.run r.state a) = 0 := by simp [giveBack, givenBack, h, heq]
    rw [hgive, Transducer.run_consumed_of_running h, Nat.sub_zero, List.drop_length,
      List.nil_append] at hs
    rw [Transducer.run_append_of_running b h]
    exact (N.run_of_split hs).2.2

/-! ## The header lines -/

section Headers

variable {r : Decoder} {line : Bytes}

@[simp] theorem noteErr_body (e : Option HeaderErr) : (noteErr r e).body = r.body := by
  cases e <;> rfl

@[simp] theorem callMeta_body : (callMeta r).body = r.body := by
  unfold callMeta
  split_ifs <;> rfl

/-- The body starts behind `=ybegin` unless the line has a part number. -/
theorem processYbegin_body (r : Decoder) (line : Bytes) :
    (processYbegin r line).body =
      (r.body || (extractInt line (ascii " part=")).2.isSome) := by
  have htotal : ∀ r : Decoder, (ybeginTotal r line).body = r.body := by
    intro r
    rcases h : extractInt line (ascii " total=") with ⟨v, _ | e⟩
    · simp only [ybeginTotal, h]
    · simp only [ybeginTotal, h]
      split_ifs <;> rfl
  have hpart : ∀ r : Decoder, (ybeginPart r line).body =
      (r.body || (extractInt line (ascii " part=")).2.isSome) := by
    intro r
    rcases h : extractInt line (ascii " part=") with ⟨v, _ | e⟩
    · simp only [ybeginPart, h, Option.isSome_none, Bool.or_false]
    · simp only [ybeginPart, h, callMeta_body, Option.isSome_some, Bool.or_true]
  have hname : ∀ r : Decoder, (ybeginName r line).body = r.body := fun r => noteErr_body _
  have hsize : ∀ r : Decoder, (ybeginSize r line).body = r.body := fun r => noteErr_body _
  rw [processYbegin, htotal, hpart, hname, hsize]

/-- And behind `=ypart`. -/
theorem processYpart_body (r : Decoder) (line : Bytes) : (processYpart r line).body = true := by
  have hbegin : ∀ r : Decoder, (ypartBegin r line).body = r.body := by
    intro r
    unfold ypartBegin
    dsimp only
    split_ifs <;> rfl
  have hend : ∀ r : Decoder, (ypartEnd r line).body = r.body := by
    intro r
    unfold ypartEnd
    dsimp only
    split_ifs <;> rfl
  rw [processYpart, callMeta_body, hend, hbegin]

/-- But not behind `=yend`. -/
theorem processYend_body (r : Decoder) (line : Bytes) : (processYend r line).body = r.body := by
  have hpcrc : ∀ r : Decoder, (yendPcrc32 r line).body = r.body := by
    intro r
    rcases h : extractCRC line (ascii " pcrc32=") with ⟨v, _ | e⟩ <;>
    · simp only [yendPcrc32, h]
      split_ifs <;> rfl
  have hcrc : ∀ r : Decoder, (yendCrc32 r line).body = r.body := by
    intro r
    rcases h : extractCRC line (ascii " crc32=") with ⟨v, _ | e⟩ <;>
    · simp only [yendCrc32, h]
      split_ifs <;> rfl
  have hchoose : ∀ r : Decoder, (chooseCRC r).body = r.body := by
    intro r
    unfold chooseCRC
    split_ifs <;> rfl
  have hsize : ∀ r : Decoder, (yendSize r line).body = r.body := fun r => noteErr_body _
  rw [processYend, hsize, hchoose, hcrc, hpcrc]

/-- A line that is neither starts no body. -/
theorem processYencHeader_body (h : ¬ (ascii "=ybegin ").isPrefixOf line)
    (h' : ¬ (ascii "=ypart ").isPrefixOf line) :
    (processYencHeader r line).body = r.body := by
  unfold processYencHeader
  rw [if_neg h, if_neg h']
  split_ifs
  · exact processYend_body r _
  · rfl

end Headers

/-! ## The callback -/

/-- The callback was called at most once, and not while it is armed. -/
def MetaOnce (r : Decoder) : Prop :=
  r.metaCalls.length ≤ 1 ∧ (r.onMeta = true → r.metaCalls = [])

namespace MetaOnce

variable {r : Decoder} (h : MetaOnce r) (line : Bytes)

include h

theorem noteErr (e : Option HeaderErr) : MetaOnce (noteErr r e) := by
  cases e <;> exact h

theorem callMeta : MetaOnce (callMeta r) := by
  unfold Reader.callMeta
  split_ifs with ho
  · exact ⟨by simp [h.2 ho], nofun⟩
  · exact h

theorem ybegin : MetaOnce (processYbegin r line) := by
  have hsize : MetaOnce (ybeginSize { r with hasBegin := true } line) :=
    MetaOnce.noteErr (by exact h) _
  have hname : MetaOnce (ybeginName (ybeginSize { r with hasBegin := true } line) line) :=
    MetaOnce.noteErr (by exact hsize) _
  have hpart : ∀ {r : Decoder}, MetaOnce r → MetaOnce (ybeginPart r line) := by
    intro r h
    rcases he : extractInt line (ascii " part=") with ⟨v, _ | e⟩
    · simp only [ybeginPart, he]
      exact h
    · simp only [ybeginPart, he]
      refine MetaOnce.callMeta ?_
      split_ifs <;> exact h
  rcases he : extractInt line (ascii " total=") with ⟨v, _ | e⟩
  · simp only [processYbegin, ybeginTotal, he]
    exact hpart hname
  · simp only [processYbegin, ybeginTotal, he]
    split_ifs <;> exact hpart hname

theorem ypart : MetaOnce (processYpart r line) := by
  refine MetaOnce.callMeta ?_
  unfold ypartEnd ypartBegin
  dsimp only
  split_ifs <;> exact h

theorem yend : MetaOnce (processYend r line) := by
  have hpcrc : ∀ {r : Decoder}, MetaOnce r → MetaOnce (yendPcrc32 r line) := by
    intro r h
    rcases he : extractCRC line (ascii " pcrc32=") with ⟨v, _ | e⟩ <;>
    · simp only [yendPcrc32, he]
      split_ifs <;> exact h
  have hcrc : ∀ {r : Decoder}, MetaOnce r → MetaOnce (yendCrc32 r line) := by
    intro r h
    rcases he : extractCRC line (ascii " crc32=") with ⟨v, _ | e⟩ <;>
    · simp only [yendCrc32, he]
      split_ifs <;> exact h
  have hchoose : ∀ {r : Decoder}, MetaOnce r → MetaOnce (chooseCRC r) := by
    intro r h
    unfold chooseCRC
    split_ifs <;> exact h
  have hall : MetaOnce (chooseCRC (yendCrc32 (yendPcrc32 { r with hasEnd := true } line) line)) :=
    hchoose (hcrc (hpcrc (by exact h)))
  exact MetaOnce.noteErr (by exact hall) _

/-- A header line calls it at most once. -/
theorem processYencHeader : MetaOnce (processYencHeader r line) := by
  unfold Reader.processYencHeader
  split_ifs
  · exact h.ybegin _
  · exact h.ypart _
  · exact h.yend _
  · exact h

/-- So does any line. -/
theorem noteLine : MetaOnce (noteLine r line) := by
  have hnote : ∀ {r : Decoder}, MetaOnce r → MetaOnce (formatNote r line) := by
    intro r h
    unfold formatNote
    rcases r.format with _ | _ | _
    · exact h
    · exact h.processYencHeader line
    · exact h
  unfold Reader.noteLine
  split_ifs
  · refine hnote ?_
    rcases detectFormat_cases r line with hd | hd | hd | hd | hd <;> rw [hd] <;> exact h
  · exact hnote h

/-- And the native decoder not at all. -/
theorem settle (o : Outcome State UInt8 End) : MetaOnce (settle r o) := by
  unfold Reader.settle leaveBody absorb
  split <;> (try split_ifs) <;> exact h

omit h in
theorem foldl_noteLine (ls : List Bytes) :
    ∀ {r : Decoder}, MetaOnce r → MetaOnce (ls.foldl Reader.noteLine r) := by
  induction ls with
  | nil => intro r h; exact h
  | cons l ls ih => intro r h; exact ih (h.noteLine l)

end MetaOnce

end Reader

end NntpPool
