import NntpPool.Reader.Grows
import NntpPool.Reader.Text
import NntpPool.Reader.Yenc
/-!
# Reader — one reply within a stream of replies

A connection carries one reply behind the other, and a window of it can
end within a reply or reach into the next. `Framed` is what the decoder
needs of a reply; `Midway` is the decoder somewhere within it. A window
that starts where the decoder stands takes it further within the same
reply, or to exactly its end (`Midway.feed`), whatever the window's
length, and whatever follows the reply.
-/

namespace NntpPool

namespace Reader

section

variable (N : Rapidyenc) (onMeta strict : Bool)

/-- **A reply as the decoder meets it**: read whole it comes to `D`, at
exactly its end, and no cut of it splits a terminator. -/
structure Framed (bytes : Bytes) (D : Decoded) : Prop where
  whole : whole N onMeta strict bytes = some D
  err : D.err = none
  eof : D.r.eof = true
  rest : D.rest = []
  uncut : ∀ p b d, p ++ b = bytes → b ≠ [] → Reader.whole N onMeta strict p = some d →
    ¬ Splits d.r (d.rest ++ b)

/-- Text replies are framed. -/
theorem framed_textReply (R : TextReply) : ∃ D, Framed N onMeta strict R.bytes D := by
  obtain ⟨D, hD, herr, heof, -, hrest⟩ := whole_textReply N onMeta strict R []
  rw [List.append_nil] at hD
  refine ⟨D, hD, herr, heof, hrest, fun p b d hp hb hd hsp => ?_⟩
  have hne : p ≠ R.bytes := fun hc => hb (by simpa [hc] using hp)
  exact (whole_textReply_front N onMeta strict R ⟨b, hp⟩ hne hd).1 hsp.1

/-- So are replies with a yEnc frame. -/
theorem framed_yencReply (R : YencReply) : ∃ D, Framed N onMeta strict R.bytes D := by
  obtain ⟨D, hD, herr, heof, -, hrest, -⟩ := whole_yencReply N onMeta strict R []
  rw [List.append_nil] at hD
  refine ⟨D, hD, herr, heof, hrest, fun p b d hp hb hd => ?_⟩
  have hne : p ≠ R.bytes := fun hc => hb (by simpa [hc] using hp)
  exact (whole_yencReply_front N onMeta strict R (c := b) (b := []) (by simpa using hp) hne hd).1

/-- **The decoder stands within the reply**, and `rest` of it is unread. -/
structure Midway (bytes : Bytes) (r : Decoder) (out rest : Bytes) : Prop where
  exists_front : ∃ p b d, p ++ b = bytes ∧ whole N onMeta strict p = some d ∧ d.err = none ∧
    d.r.eof = false ∧ d.r = r ∧ d.out = out ∧ d.rest ++ b = rest

/-- At first it does, with all of it unread. -/
theorem midway_fresh (bytes : Bytes) :
    Midway N onMeta strict bytes (fresh onMeta strict).toDecoder [] bytes := by
  have hnil : whole N onMeta strict [] =
      some ⟨(fresh onMeta strict).toDecoder, [], 0, [], none⟩ := by
    rw [whole_eq_scan, scan_of_cut_none N accepting [] 0 (by decide)]
  exact ⟨[], bytes, _, rfl, hnil, rfl, rfl, rfl, rfl, rfl⟩

end

section

variable (N : Rapidyenc) {r : Decoder}

/-- **No response ends within fewer than two bytes.** -/
theorem two_le_of_eof (h : Ready r) {out buf : Bytes} {d : Decoded} (hsp : ¬ Splits r buf)
    (hd : drive N.decodeIncremental accepting r out buf = some d) (heof : d.r.eof = true) :
    2 ≤ buf.length := by
  by_contra hlt
  have hcut : ∀ b : Bytes, b.length ≤ buf.length → cut crlf b = none := by
    intro b hb
    rcases hc : cut crlf b with _ | ⟨line, rest⟩
    · rfl
    · have hlen := cut_length hc
      rw [crlf_length] at hlen
      omega
  by_cases hb : InBody r
  · rw [drive_of_inBody N h hb hsp] at hd
    have hset := settle_eof (r := r) (N.run r.state buf)
    have hdeof : d.r.eof = r.eof := by
      unfold bodyGo at hd
      dsimp only at hd
      split_ifs at hd
      · rw [Turn.after, scan_of_cut_none N accepting _ _ (hcut _ (by simp))] at hd
        obtain rfl := Option.some.inj hd
        exact hset
      · obtain rfl := Option.some.inj hd
        exact hset
    rw [hdeof, h.eof] at heof
    cases heof
  · rw [drive_of_not_inBody N h hb, scan_of_cut_none N accepting out 0 (hcut buf le_rfl)] at hd
    obtain rfl := Option.some.inj hd
    rw [h.eof] at heof
    cases heof

/-- Two bytes decide whether a terminator is split. -/
theorem Splits.of_append {buf x : Bytes} (hlen : 2 ≤ buf.length) (h : Splits r (buf ++ x)) :
    Splits r buf := by
  obtain ⟨hb, ⟨hs, hp⟩ | ⟨hs, hp⟩⟩ := h
  · exact ⟨hb, Or.inl ⟨hs, List.prefix_of_prefix_length_le hp (List.prefix_append _ _) hlen⟩⟩
  · refine ⟨hb, Or.inr ⟨hs, List.prefix_of_prefix_length_le hp (List.prefix_append _ _) ?_⟩⟩
    simp only [List.length_singleton]
    omega

/-- Where the decoder waits, fewer bytes than it handed back change
nothing. -/
theorem Waits.decode {rest c : Bytes} (h : Ready r) (hw : Waits r rest) (hstuck : ¬ Stuck r)
    (hc : c <+: rest) (hlt : c.length < rest.length) (out : Bytes) :
    decode N.decodeIncremental accepting r out c = some ⟨r, out, 0, c, none⟩ := by
  by_cases hb : InBody r
  · have hnil : c = [] := by
      have := hw.body hb
      exact List.eq_nil_of_length_eq_zero (by omega)
    subst hnil
    simp [Reader.decode, hb.1, hb.2, decodeYenc, sliceFrom]
  · have hbody : ¬ r.body = true := by
      intro hbody
      rcases hf : r.format with _ | _ | _
      · exact h.known hbody hf
      · exact hb ⟨hbody, hf⟩
      · exact hstuck ⟨hbody, hf⟩
    have hcut : cut crlf c = none := by
      rcases hcc : cut crlf c with _ | ⟨line, t⟩
      · rfl
      · obtain ⟨u, rfl⟩ := hc
        have := hw.line hb
        rw [cut_append u hcc] at this
        cases this
    rw [Reader.decode, if_neg hbody, scan_of_cut_none N accepting out 0 hcut]

end

section

variable {N : Rapidyenc} {onMeta strict : Bool} {bytes out rest : Bytes} {r : Decoder} {D : Decoded}

theorem Midway.ready (h : Midway N onMeta strict bytes r out rest) : Ready r := by
  obtain ⟨p, b, d, -, hd, herr, heof, rfl, -, -⟩ := h.exists_front
  exact (whole_extends N onMeta strict p b hd).ready herr heof

theorem Midway.settled (h : Midway N onMeta strict bytes r out rest) : Settled r := by
  refine ⟨h.ready.state_ne, fun hb => h.ready.clear fun hc => ?_⟩
  rw [hc.1] at hb
  cases hb

/-- The reply comes later than what has been seen of it. -/
theorem Midway.grows (hF : Framed N onMeta strict bytes D)
    (h : Midway N onMeta strict bytes r out rest) : Blank r ∧ Grows r out D.r D.out := by
  obtain ⟨p, b, d, hp, hd, herr, heof, rfl, rfl, rfl⟩ := h.exists_front
  refine ⟨(drive_grows _ _ hd).2 (fun _ => rfl) herr heof, ?_⟩
  have hb : b ≠ [] := by
    rintro rfl
    rw [List.append_nil] at hp
    rw [hp, hF.whole] at hd
    rw [← Option.some.inj hd, hF.eof] at heof
    cases heof
  have hgo := (whole_extends N onMeta strict p b hd).goesOn herr heof (hF.uncut p b d hp hb hd)
  rw [hp, hF.whole] at hgo
  obtain ⟨e, he, rfl⟩ := Option.map_eq_some_iff.mp hgo.symm
  exact (drive_grows _ _ he).1

/-- Where the running loop is not a UU body, a call goes on with it. -/
theorem decode_eq_drive (hstuck : ¬ Stuck r) (out buf : Bytes) :
    decode N.decodeIncremental accepting r out buf =
      drive N.decodeIncremental accepting r out buf := by
  unfold drive
  split_ifs with huu
  · rw [decode, if_neg fun hb => hstuck ⟨hb, huu⟩]
  · rfl

/-- **A window takes the decoder further within its reply, or to exactly
its end.** The window `c` starts where the decoder stands; `u` is what
lies behind the window and `later` what follows the reply. -/
theorem Midway.feed (hF : Framed N onMeta strict bytes D)
    (h : Midway N onMeta strict bytes r out rest) {c u later : Bytes}
    (hc : c ++ u = rest ++ later) :
    ∃ d, decode N.decodeIncremental accepting r out c = some d ∧ d.err = none ∧
      ((d.r.eof = false ∧ ∃ rest', Midway N onMeta strict bytes d.r d.out rest' ∧
          d.rest ++ u = rest' ++ later) ∨
        d.r = D.r ∧ d.out = D.out ∧ d.r.eof = true ∧ d.rest ++ u = later) := by
  have hready := h.ready
  obtain ⟨p, b, d, hp, hd, herr, heof, rfl, rfl, rfl⟩ := h.exists_front
  have hstay : decode N.decodeIncremental accepting d.r d.out c = some ⟨d.r, d.out, 0, c, none⟩ →
      ∃ d', decode N.decodeIncremental accepting d.r d.out c = some d' ∧ d'.err = none ∧
        ((d'.r.eof = false ∧ ∃ rest', Midway N onMeta strict bytes d'.r d'.out rest' ∧
            d'.rest ++ u = rest' ++ later) ∨
          d'.r = D.r ∧ d'.out = D.out ∧ d'.r.eof = true ∧ d'.rest ++ u = later) :=
    fun hdec => ⟨_, hdec, rfl, Or.inl ⟨heof, _, h, hc⟩⟩
  by_cases hstuck : Stuck d.r
  · exact hstay (by simp [decode, hstuck.1, hstuck.2])
  have hext := fun x => whole_extends N onMeta strict p x hd
  rcases Nat.lt_or_ge c.length d.rest.length with hlt | hge
  · -- the window ends before what was handed back does
    have hpre : c <+: d.rest := by
      refine List.prefix_of_prefix_length_le ⟨u, hc⟩ ?_ hlt.le
      rw [List.append_assoc]
      exact List.prefix_append _ _
    exact hstay (((hext b).waits herr heof).decode N hready hstuck hpre hlt d.out)
  · obtain ⟨c, rfl⟩ : d.rest <+: c := by
      refine List.prefix_of_prefix_length_le ?_ ⟨u, hc⟩ hge
      rw [List.append_assoc]
      exact List.prefix_append _ _
    rw [List.append_assoc, List.append_assoc, List.append_cancel_left_eq] at hc
    have hb : b ≠ [] := by
      rintro rfl
      rw [List.append_nil] at hp
      rw [hp, hF.whole] at hd
      rw [← Option.some.inj hd, hF.eof] at heof
      cases heof
    have huncut := hF.uncut p b d hp hb hd
    rw [decode_eq_drive hstuck]
    rcases Nat.lt_or_ge c.length b.length with hlt | hge
    · -- it ends within the reply
      obtain ⟨b', rfl⟩ : c <+: b :=
        List.prefix_of_prefix_length_le ⟨u, hc⟩ (List.prefix_append _ _) hlt.le
      have hb' : b' ≠ [] := by
        rintro rfl
        simp at hlt
      rw [List.append_assoc, List.append_cancel_left_eq] at hc
      have hgo := (hext c).goesOn herr heof fun hs => huncut (by
        rw [← List.append_assoc]
        exact hs.append b')
      obtain ⟨d', hd'⟩ := exists_whole N onMeta strict (p ++ c)
      rw [hd'] at hgo
      obtain ⟨e, he, rfl⟩ := Option.map_eq_some_iff.mp hgo.symm
      obtain ⟨he', heof'⟩ := not_over_of_front N onMeta strict hd'
        (by rw [List.append_assoc, hp, hF.whole]) hF.rest hb'
      refine ⟨e, he, he', Or.inl ⟨heof', e.rest ++ b', ⟨p ++ c, b', _, ?_, hd', he', heof', rfl,
        rfl, rfl⟩, ?_⟩⟩
      · rw [List.append_assoc, hp]
      · rw [hc, List.append_assoc]
    · -- it reaches the end, and maybe further
      obtain ⟨x, rfl⟩ : b <+: c := List.prefix_of_prefix_length_le (List.prefix_append _ _) ⟨u, hc⟩ hge
      rw [List.append_assoc, List.append_cancel_left_eq] at hc
      have hwhole := (hext b).goesOn herr heof huncut
      rw [hp, hF.whole] at hwhole
      obtain ⟨e, he, rfl⟩ := Option.map_eq_some_iff.mp hwhole.symm
      have hlen := two_le_of_eof N hready huncut he hF.eof
      have hend := (drive_extends N hready d.out (d.rest ++ b) x
        (fun hs => huncut (hs.of_append hlen)) he).ended (Or.inr hF.eof)
      rw [← List.append_assoc, hend]
      refine ⟨_, rfl, hF.err, Or.inr ⟨rfl, rfl, hF.eof, ?_⟩⟩
      have hrest : e.rest = [] := hF.rest
      rw [Decoded.before, hrest, List.nil_append, hc]

end

end Reader

end NntpPool
