import NntpPool.Reader.Drive
/-!
# Reader — the place of the cut

`Turn.Extends` and `Decoded.Extends` compare what a buffer comes to with
what the same buffer comes to with more bytes behind it. When the
response ends within the buffer the further bytes are handed back; when
it does not, the longer buffer is the shorter one resumed. The turns of
the line loop extend (`lineTurn_extends`), hence the loop
(`scan_extends`), hence every call (`drive_extends`).
-/

namespace NntpPool

namespace Reader

/-- The native decoder is the loop that runs. -/
def InBody (r : Decoder) : Prop := r.body = true ∧ r.format = .yenc

instance (r : Decoder) : Decidable (InBody r) := inferInstanceAs (Decidable (_ ∧ _))

/-- **What holds of a decoder in the middle of a response.** -/
structure Ready (r : Decoder) : Prop where
  eof : r.eof = false
  state_ne : r.state ≠ .crlfeq
  clear : ¬ InBody r → Clear r
  known : r.body = true → r.format ≠ .unknown

/-- A cut splits a terminator between what was read and `buf`. -/
def Splits (r : Decoder) (buf : Bytes) : Prop := InBody r ∧ SplitTerminator r.state buf

/-- A terminator that is split stays split when more bytes are at hand. -/
theorem Splits.append {r : Decoder} {buf : Bytes} (h : Splits r buf) (b : Bytes) :
    Splits r (buf ++ b) := by
  obtain ⟨hb, ⟨hs, hp⟩ | ⟨hs, hp⟩⟩ := h
  · exact ⟨hb, Or.inl ⟨hs, hp.trans (List.prefix_append _ _)⟩⟩
  · exact ⟨hb, Or.inr ⟨hs, hp.trans (List.prefix_append _ _)⟩⟩

/-- Nothing of what was handed back can be read without more: no line is
complete, or it is the `=` a body may end with. -/
structure Waits (r : Decoder) (rest : Bytes) : Prop where
  line : ¬ InBody r → cut crlf rest = none
  body : InBody r → rest.length ≤ 1

section

variable {r : Decoder}

theorem Ready.of_state {r' : Decoder} (h : Ready r) (hb : ¬ InBody r) (heof : r'.eof = false)
    (hs : r'.state = r.state) (hk : r'.body = true → r'.format ≠ .unknown) : Ready r' := by
  have hc := h.clear hb
  exact ⟨heof, hs ▸ h.state_ne, fun _ => by unfold Clear; rwa [hs], hk⟩

/-- What format detection can do. -/
theorem detectFormat_cases (r : Decoder) (line : Bytes) :
    detectFormat r line = r ∨ detectFormat r line = { r with hasEmptyline := true } ∨
      detectFormat r line = { r with format := .yenc } ∨
      detectFormat r line = { r with format := .uu } ∨
      detectFormat r line = { r with format := .uu, body := true } := by
  unfold detectFormat
  split_ifs
  · exact Or.inl rfl
  · exact Or.inr (Or.inl rfl)
  · exact Or.inr (Or.inr (Or.inl rfl))
  · exact Or.inr (Or.inr (Or.inr (Or.inl rfl)))
  · split
    · split_ifs
      · exact Or.inr (Or.inr (Or.inr (Or.inl rfl)))
      · exact Or.inl rfl
    · exact Or.inl rfl
  · exact Or.inl rfl
  · exact Or.inr (Or.inr (Or.inr (Or.inr rfl)))
  · exact Or.inl rfl

/-- Format detection starts no yEnc body. -/
theorem Ready.detectFormat (h : Ready r) (hu : r.format = .unknown) (line : Bytes) :
    Ready (detectFormat r line) ∧ ¬ InBody (detectFormat r line) := by
  have hb : r.body ≠ true := fun hb => h.known hb hu
  have hnot : ¬ InBody r := fun hc => hb hc.1
  rcases detectFormat_cases r line with hd | hd | hd | hd | hd <;> rw [hd]
  · exact ⟨h, hnot⟩
  · exact ⟨h.of_state hnot h.eof rfl (fun hc => absurd hc hb), fun hc => hb hc.1⟩
  · exact ⟨h.of_state hnot h.eof rfl (fun hc => absurd hc hb), fun hc => hb hc.1⟩
  · exact ⟨h.of_state hnot h.eof rfl (fun hc => absurd hc hb), fun hc => hb hc.1⟩
  · exact ⟨h.of_state hnot h.eof rfl (fun _ => by simp), fun hc => by simp [InBody] at hc⟩

/-- A header line keeps the decoder ready. -/
theorem Ready.processYencHeader (h : Ready r) (hb : ¬ InBody r) (hy : r.format = .yenc)
    (line : Bytes) : Ready (processYencHeader r line) ∧ Clear (processYencHeader r line) := by
  have hcore := core_processYencHeader r line
  have hformat : (Reader.processYencHeader r line).format = r.format := congrArg Core.format hcore
  have hstate := processYencHeader_state r line
  refine ⟨h.of_state hb ((congrArg Core.eof hcore).trans h.eof) hstate (fun _ => ?_), ?_⟩
  · rw [hformat, hy]
    simp
  · unfold Clear
    rw [hstate]
    exact h.clear hb

end

section Extends

variable (N : Rapidyenc) {r : Decoder}

/-- **What a turn on a buffer says of the turn on a longer one**, with
`b` behind it. -/
inductive Turn.Extends (b : Bytes) : Turn → Turn → Prop
  | ended (d : Decoded) (h : d.err ≠ none ∨ d.r.eof = true) : Extends b (.ret d) (.ret (d.before b))
  | next {r : Decoder} {out : Bytes} {n : ℤ} {buf : Bytes} (h : Ready r) (hb : ¬ InBody r) :
    Extends b (.goOn r out n buf) (.goOn r out n (buf ++ b))
  | body {d : Decoded} {t : Turn} (herr : d.err = none) (h : Ready d.r) (hb : InBody d.r)
    (hw : d.rest.length ≤ 1)
    (ht : ¬ Splits d.r (d.rest ++ b) → t = (bodyGo N d.r d.out (d.rest ++ b)).shift d.read) :
    Extends b (.ret d) t

/-- The native run of a body, cut anywhere. -/
theorem bodyGo_extends (h : Ready r) (hb : InBody r) (out a b : Bytes) :
    (bodyGo N r out a).Extends N b (bodyGo N r out (a ++ b)) := by
  have hset := settled_settle N hb.1 a
  have hbody := settle_body N (r := r) r.state a
  have hfmt : (settle r (N.run r.state a)).format = .yenc := by
    rw [settle_format]
    exact hb.2
  have heof : (settle r (N.run r.state a)).eof = false := by
    rw [settle_eof]
    exact h.eof
  cases hstop : (N.run r.state a).stopped with
  | some e =>
    have hnb : (settle r (N.run r.state a)).body = false := by simp [hbody, hstop]
    have hnot : ¬ InBody (settle r (N.run r.state a)) := fun hc => by simp [InBody, hnb] at hc
    rw [bodyGo_append_of_stopped N b hstop]
    simp only [bodyGo, hstop, Option.isSome_some, if_true]
    refine Turn.Extends.next ⟨heof, hset.state_ne, fun _ => hset.clear hnb, ?_⟩ hnot
    rw [hfmt]
    simp
  | none =>
    have hyb : (settle r (N.run r.state a)).body = true := by simp [hbody, hstop, hb.1]
    have hlhs : bodyGo N r out a = .ret ⟨settle r (N.run r.state a), out ++ (N.run r.state a).out,
        ((N.run r.state a).consumed - giveBack (N.run r.state a) : ℕ),
        a.drop ((N.run r.state a).consumed - giveBack (N.run r.state a)), none⟩ := by
      simp only [bodyGo, hstop, Option.isSome_none, Bool.false_eq_true, if_false]
    rw [hlhs]
    refine Turn.Extends.body rfl ⟨heof, hset.state_ne, fun hc => absurd ⟨hyb, hfmt⟩ hc, ?_⟩
      ⟨hyb, hfmt⟩ ?_ fun hsp => ?_
    · rw [hfmt]
      simp
    · -- the whole buffer was read, and one byte at most is given back
      have hgive : giveBack (N.run r.state a) ≤ 1 := by
        simp only [giveBack, givenBack, hstop, Option.getD_none]
        split_ifs <;> omega
      simp only [List.length_drop, Transducer.run_consumed_of_running hstop]
      omega
    · exact bodyGo_append_of_running N b h.state_ne hstop fun hc => hsp ⟨⟨hyb, hfmt⟩, hc⟩

/-- A turn that goes on leaves the line loop in its place. -/
theorem Turn.Extends.ready {b out buf : Bytes} {n : ℤ} {t : Turn}
    (h : (Turn.goOn r out n buf).Extends N b t) : Ready r ∧ ¬ InBody r := by
  cases h with
  | next h hb => exact ⟨h, hb⟩

theorem Turn.Extends.shift {b : Bytes} {t t' : Turn} (n : ℤ) (h : t.Extends N b t') :
    (t.shift n).Extends N b (t'.shift n) := by
  cases h with
  | ended d h => exact .ended (d.shift n) h
  | next h hb => exact .next h hb
  | @body d _ herr h hb hw ht =>
    refine .body (d := d.shift n) herr h hb hw fun hsp => ?_
    rw [ht hsp]
    exact Turn.shift_shift n d.read _

/-- A line by its format, cut anywhere behind it. -/
theorem formatTurn_extends (h : Ready r) (hb : ¬ InBody r) (out line a b : Bytes) :
    (formatTurn N.decodeIncremental accepting r out line a).Extends N b
      (formatTurn N.decodeIncremental accepting r out line (a ++ b)) := by
  unfold formatTurn
  dsimp only
  cases hf : r.format with
  | unknown =>
    exact .next (h.of_state hb h.eof rfl fun hc => absurd hf (h.known hc)) fun hc => nomatch hc.2
  | uu => exact .next h hb
  | yenc =>
    obtain ⟨h', hc'⟩ := h.processYencHeader hb hf line
    have hf' : (processYencHeader r line).format = .yenc :=
      (congrArg Core.format (core_processYencHeader r line)).trans hf
    dsimp only
    split_ifs with hbody
    · rw [bodyTurn_eq N h'.state_ne (hc'.not_splitTerminator _) hbody,
        bodyTurn_eq N h'.state_ne (hc'.not_splitTerminator _) hbody]
      exact (bodyGo_extends N h' ⟨hbody, hf'⟩ out a b).shift N _
    · exact .next h' fun hc => hbody hc.1

/-- **A turn of the line loop, cut anywhere behind its line.** -/
theorem lineTurn_extends (h : Ready r) (hb : ¬ InBody r) (out line a b : Bytes) :
    (lineTurn N.decodeIncremental accepting r out line a).Extends N b
      (lineTurn N.decodeIncremental accepting r out line (a ++ b)) := by
  unfold lineTurn
  dsimp only
  split_ifs with hdot hunknown hstatus
  · exact .ended _ (Or.inr rfl)
  · unfold statusTurn
    dsimp only
    split_ifs
    · exact .ended _ (Or.inl (by simp))
    · exact .next (h.of_state hb h.eof rfl h.known) fun hc => hb hc
    · exact .ended _ (Or.inr rfl)
  · obtain ⟨h', hb'⟩ := h.detectFormat hunknown line
    exact formatTurn_extends N h' hb' out line a b
  · exact formatTurn_extends N h hb out line a b

/-! ## Whole calls -/

/-- **What the answer on a buffer says of the answer on a longer one.** -/
structure Decoded.Extends (b : Bytes) (d : Decoded) (res : Option Decoded) : Prop where
  ended : d.err ≠ none ∨ d.r.eof = true → res = some (d.before b)
  ready : d.err = none → d.r.eof = false → Ready d.r
  waits : d.err = none → d.r.eof = false → Waits d.r d.rest
  goesOn : d.err = none → d.r.eof = false → ¬ Splits d.r (d.rest ++ b) →
    res = (drive N.decodeIncremental accepting d.r d.out (d.rest ++ b)).map (Decoded.shift d.read)

variable {N}

theorem Decoded.Extends.shift {b : Bytes} {d : Decoded} {res : Option Decoded} (n : ℤ)
    (h : d.Extends N b res) : (d.shift n).Extends N b (res.map (Decoded.shift n)) := by
  refine ⟨fun hd => ?_, h.ready, h.waits, fun he hr hsp => ?_⟩
  · rw [h.ended hd]
    rfl
  · rw [h.goesOn he hr hsp, Option.map_map]
    congr 1
    funext d'
    exact Decoded.shift_shift n d.read d'

variable (N)

theorem drive_of_not_inBody (h : Ready r) (hb : ¬ InBody r) (out buf : Bytes) :
    drive N.decodeIncremental accepting r out buf =
      scan N.decodeIncremental accepting r out 0 buf := by
  unfold drive decode
  split_ifs with hu hbody hyenc
  · rfl
  · exact absurd ⟨hbody, hyenc⟩ hb
  · cases hf : r.format with
    | unknown => exact absurd hf (h.known hbody)
    | yenc => exact absurd hf hyenc
    | uu => exact absurd hf hu
  · rfl

theorem drive_of_inBody (h : Ready r) (hb : InBody r) {buf : Bytes} (hsp : ¬ Splits r buf)
    (out : Bytes) :
    drive N.decodeIncremental accepting r out buf =
      (bodyGo N r out buf).after N.decodeIncremental accepting := by
  have hu : r.format ≠ .uu := by
    rw [hb.2]
    simp
  rw [drive, if_neg hu, decode_of_body N h.state_ne (fun hc => hsp ⟨hb, hc⟩) hb.1 hb.2]

/-- Behind a turn that extends, so does the loop; the turns that go on
are left to the induction. -/
theorem Turn.Extends.after {b : Bytes} {t t' : Turn} {d : Decoded} (h : t.Extends N b t')
    (hd : t.after N.decodeIncremental accepting = some d)
    (hgo : ∀ r out n buf, t = .goOn r out n buf → Ready r → ¬ InBody r →
      d.Extends N b (scan N.decodeIncremental accepting r out n (buf ++ b))) :
    d.Extends N b (t'.after N.decodeIncremental accepting) := by
  cases h with
  | ended d' h =>
    obtain rfl : d' = d := by simpa [Turn.after] using hd
    have hnot : d'.err = none → d'.r.eof = false → False := by
      intro he hr
      rcases h with h | h
      · exact h he
      · simp [hr] at h
    exact ⟨fun _ => rfl, fun he hr => (hnot he hr).elim, fun he hr => (hnot he hr).elim,
      fun he hr => (hnot he hr).elim⟩
  | next h hb => exact hgo _ _ _ _ rfl h hb
  | @body d' _ herr h hb hw ht =>
    obtain rfl : d' = d := by simpa [Turn.after] using hd
    refine ⟨fun hc => ?_, fun _ _ => h, fun _ _ => ⟨fun hn => absurd hb hn, fun _ => hw⟩,
      fun _ _ hsp => ?_⟩
    · rcases hc with hc | hc
      · exact absurd herr hc
      · simp [h.eof] at hc
    · rw [ht hsp, Turn.after_shift, drive_of_inBody N h hb hsp]

/-- **The line loop, cut anywhere.** The induction is on the bytes that are
left, which every turn shortens by its line. -/
theorem scan_extends (b : Bytes) (n : ℕ) :
    ∀ {r : Decoder} (out a : Bytes) {d : Decoded}, a.length < n → Ready r → ¬ InBody r →
      scan N.decodeIncremental accepting r out 0 a = some d →
      d.Extends N b (scan N.decodeIncremental accepting r out 0 (a ++ b)) := by
  induction n with
  | zero => intro r out a d hlen; omega
  | succ n ih =>
    intro r out a d hlen h hb hd
    have hc := h.clear hb
    rcases hcut : cut crlf a with _ | ⟨line, rest⟩
    · rw [scan_of_cut_none N accepting out 0 hcut, Option.some.injEq] at hd
      subst hd
      refine ⟨fun hc => ?_, fun _ _ => h, fun _ _ => ⟨fun _ => hcut, fun hc => absurd hc hb⟩,
        fun _ _ _ => ?_⟩
      · simp [h.eof] at hc
      · dsimp only
        rw [drive_of_not_inBody N h hb]
        exact scan_shift _ _ r out 0 _
    · have hturn := lineTurn_extends N h hb out line rest b
      have hkeep := lineTurn_keeps N accepting out line rest hc
      rw [scan_of_cut N accepting hc out hcut] at hd
      rw [scan_of_cut N accepting hc out (cut_append b hcut)]
      refine hturn.after N hd fun r' out' k buf' ht h' hb' => ?_
      rw [ht] at hd hkeep
      obtain ⟨-, j, hj, -, rfl⟩ := hkeep
      have hlen' := cut_length hcut
      rw [crlf_length] at hlen'
      simp only [Turn.after] at hd
      rw [scan_shift] at hd ⊢
      obtain ⟨d', hd', rfl⟩ := Option.map_eq_some_iff.mp hd
      exact (ih out' _ (by simp; omega) h' hb' hd').shift k

/-- **A call, cut anywhere.** -/
theorem drive_extends (h : Ready r) (out a b : Bytes) {d : Decoded} (hsp : ¬ Splits r (a ++ b))
    (hd : drive N.decodeIncremental accepting r out a = some d) :
    d.Extends N b (drive N.decodeIncremental accepting r out (a ++ b)) := by
  by_cases hb : InBody r
  · rw [drive_of_inBody N h hb fun hc => hsp (hc.append b)] at hd
    rw [drive_of_inBody N h hb hsp]
    refine (bodyGo_extends N h hb out a b).after N hd fun r' out' k buf' ht h' hb' => ?_
    rw [ht] at hd
    simp only [Turn.after] at hd
    rw [scan_shift] at hd ⊢
    obtain ⟨d', hd', rfl⟩ := Option.map_eq_some_iff.mp hd
    exact (scan_extends N b (buf'.length + 1) out' _ (by omega) h' hb' hd').shift k
  · rw [drive_of_not_inBody N h hb] at hd ⊢
    exact scan_extends N b (a.length + 1) out a (by omega) h hb hd

end Extends

end Reader

end NntpPool
