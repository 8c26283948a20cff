import NntpPool.Reader.Resume
/-!
# Reader — the accumulate-and-Feed loop

Bytes come in chunks; each is put behind what the last call handed back
and the whole is fed again, until the response is over. As long as no cut
splits a terminator the loop stands, after each chunk, where `drive`
stands on all the bytes so far (`feed_stands`) — except that a decoder
left in a UU body is `Stuck`: no later call reads anything.
-/

namespace NntpPool

namespace Reader

/-- The loop over the chunks, from where the last call left it. -/
def feedLoop (dec : DecodeFn) (w : Writer) : Fed → List Bytes → Option Fed
  | f, [] => some f
  | f, chunk :: chunks =>
    if f.done ∨ f.err.isSome then some f
    else (feed dec w f.r f.out (f.rest ++ chunk)).bind fun f => feedLoop dec w f chunks

/-- **The accumulate-and-Feed loop** on a fresh response, with a writer
that takes everything. -/
def feedChunks (dec : DecodeFn) (onMeta strict : Bool) (chunks : List Bytes) : Option Fed :=
  feedLoop dec accepting ⟨fresh onMeta strict, [], 0, [], false, none⟩ chunks

/-- The decoder was left in a UU body. -/
def Stuck (r : Decoder) : Prop := r.body = true ∧ r.format = .uu

instance (r : Decoder) : Decidable (Stuck r) := inferInstanceAs (Decidable (_ ∧ _))

/-- The call `f` left everything as `d` says. -/
structure Fed.Answers (f : Fed) (d : Decoded) : Prop where
  r : f.r = ⟨d.r, d.read⟩
  out : f.out = d.out
  rest : f.rest = d.rest
  err : f.err = d.err
  done : f.done = (d.err.isNone && d.r.eof)

theorem ready_fresh (onMeta strict : Bool) : Ready (fresh onMeta strict).toDecoder :=
  ⟨rfl, nofun, fun _ => ⟨nofun, nofun, nofun⟩, nofun⟩

theorem not_inBody_fresh (onMeta strict : Bool) : ¬ InBody (fresh onMeta strict).toDecoder :=
  fun h => nomatch h.1

section

variable (N : Rapidyenc) (onMeta strict : Bool)

/-- What `drive` makes of the bytes of a response. -/
def whole (p : Bytes) : Option Decoded :=
  drive N.decodeIncremental accepting (fresh onMeta strict).toDecoder [] p

theorem whole_eq_scan (p : Bytes) :
    whole N onMeta strict p =
      scan N.decodeIncremental accepting (fresh onMeta strict).toDecoder [] 0 p :=
  drive_of_not_inBody N (ready_fresh onMeta strict) (not_inBody_fresh onMeta strict) [] p

/-- It always comes to something. -/
theorem exists_whole (p : Bytes) : ∃ d, whole N onMeta strict p = some d := by
  obtain ⟨d, hd, -⟩ := scan_within N accepting
    ((ready_fresh onMeta strict).clear (not_inBody_fresh onMeta strict)) [] 0 p
  exact ⟨d, by rw [whole_eq_scan, hd]⟩

theorem whole_extends (a b : Bytes) {d : Decoded} (h : whole N onMeta strict a = some d) :
    d.Extends N b (whole N onMeta strict (a ++ b)) :=
  drive_extends N (ready_fresh onMeta strict) [] a b
    (fun hs => not_inBody_fresh onMeta strict hs.1) h

/-- **A response that is over exactly at its end is not over before.** -/
theorem not_over_of_front {a b : Bytes} {d e : Decoded} (hd : whole N onMeta strict a = some d)
    (he : whole N onMeta strict (a ++ b) = some e) (hrest : e.rest = []) (hb : b ≠ []) :
    d.err = none ∧ d.r.eof = false := by
  by_contra hcon
  have hover : d.err ≠ none ∨ d.r.eof = true := by
    by_contra hno
    rw [not_or, not_not, Bool.not_eq_true] at hno
    exact hcon hno
  have heq := (whole_extends N onMeta strict a b hd).ended hover
  rw [he, Option.some.injEq] at heq
  rw [heq] at hrest
  exact hb (List.append_eq_nil_iff.mp hrest).2

/-- **The step.** A call that is not stuck and splits no terminator stands
where `drive` stands on all the bytes so far. -/
theorem feed_stands {p c : Bytes} {f : Fed} {d : Decoded} (hf : f.Answers d)
    (hd : whole N onMeta strict p = some d) (herr : d.err = none) (heof : d.r.eof = false)
    (hstuck : ¬ Stuck d.r) (hsp : ¬ Splits d.r (d.rest ++ c)) :
    ∃ f' d', feed N.decodeIncremental accepting f.r f.out (f.rest ++ c) = some f' ∧
      whole N onMeta strict (p ++ c) = some d' ∧ f'.Answers d' := by
  have hext := whole_extends N onMeta strict p c hd
  have hgo := hext.goesOn herr heof hsp
  obtain ⟨d', hd'⟩ := exists_whole N onMeta strict (p ++ c)
  rw [hd'] at hgo
  obtain ⟨e, he, rfl⟩ := Option.map_eq_some_iff.mp hgo.symm
  have hdec : decode N.decodeIncremental accepting d.r d.out (d.rest ++ c) = some e := by
    unfold drive at he
    split_ifs at he with huu
    · -- not in a UU body, so the next call takes the line loop as well
      have hb : ¬ d.r.body = true := fun hb => hstuck ⟨hb, huu⟩
      rw [decode, if_neg hb]
      exact he
    · exact he
  refine ⟨⟨⟨e.r, f.r.bytesConsumed + e.read⟩, e.out, e.read, e.rest, e.err.isNone && e.r.eof,
    e.err⟩, _, ?_, hd', ?_⟩
  · rw [hf.r, hf.out, hf.rest]
    simp only [feed, hdec, Option.map_some]
  · exact ⟨by rw [hf.r]; rfl, rfl, rfl, rfl, rfl⟩

/-- **A stuck decoder reads nothing more**, and never reports the end. -/
theorem feedLoop_of_stuck (chunks : List Bytes) :
    ∀ {f : Fed}, Stuck f.r.toDecoder → f.r.eof = false → f.err = none → f.done = false →
      ∃ f', feedLoop N.decodeIncremental accepting f chunks = some f' ∧ f'.done = false := by
  induction chunks with
  | nil => intro f _ _ _ hd; exact ⟨f, rfl, hd⟩
  | cons c chunks ih =>
    intro f hs heof herr hd
    have hdec : decode N.decodeIncremental accepting f.r.toDecoder f.out (f.rest ++ c) =
        some ⟨f.r.toDecoder, f.out, 0, f.rest ++ c, none⟩ := by
      simp [decode, hs.1, hs.2]
    simp only [feedLoop, hd, herr, Option.isSome_none, Bool.false_eq_true, or_self, if_false, feed,
      hdec, Option.map_some, Option.bind_some]
    exact ih hs heof rfl (by simp [heof])

/-- `P` holds at every cut: of what the bytes before it come to, and the
chunk behind it. -/
def AtCuts (P : Decoded → Bytes → Prop) : Bytes → List Bytes → Prop
  | _, [] => True
  | p, c :: chunks => (∀ d, whole N onMeta strict p = some d → P d c) ∧ AtCuts P (p ++ c) chunks

/-- **The loop, chunk by chunk.** On a response that is over exactly at
its end, cut so that no terminator is split, the loop ends where one call
on the whole ends, unless it is stuck at a cut. -/
theorem feedLoop_stands (chunks : List Bytes) :
    ∀ {p : Bytes} {f : Fed} {d : Decoded}, f.Answers d → whole N onMeta strict p = some d →
      (∀ c ∈ chunks, c ≠ []) →
      (∃ e, whole N onMeta strict (p ++ chunks.flatten) = some e ∧ e.rest = []) →
      AtCuts N onMeta strict (fun d c => ¬ Splits d.r (d.rest ++ c)) p chunks →
      (AtCuts N onMeta strict (fun d _ => ¬ Stuck d.r) p chunks →
        ∃ f' d', feedLoop N.decodeIncremental accepting f chunks = some f' ∧
          whole N onMeta strict (p ++ chunks.flatten) = some d' ∧ f'.Answers d') ∧
      (¬ AtCuts N onMeta strict (fun d _ => ¬ Stuck d.r) p chunks →
        ∃ f', feedLoop N.decodeIncremental accepting f chunks = some f' ∧ f'.done = false) := by
  induction chunks with
  | nil =>
    intro p f d hf hd _ _ _
    exact ⟨fun _ => ⟨f, d, rfl, by simpa using hd, hf⟩, fun h => absurd trivial h⟩
  | cons c chunks ih =>
    intro p f d hf hd hne hend hsplit
    obtain ⟨e, he, hrest⟩ := hend
    obtain ⟨herr, heof⟩ : d.err = none ∧ d.r.eof = false := by
      refine not_over_of_front N onMeta strict hd he hrest ?_
      simp [hne c (by simp)]
    have hcut : (∀ d', whole N onMeta strict p = some d' → ¬ Stuck d'.r) ↔ ¬ Stuck d.r := by
      simp [hd]
    simp only [AtCuts, hcut]
    by_cases hstuck : Stuck d.r
    · have hsf : Stuck f.r.toDecoder := by rw [hf.r]; exact hstuck
      have hef : f.r.eof = false := by rw [hf.r]; exact heof
      refine ⟨fun hno => absurd hstuck hno.1, fun _ => ?_⟩
      exact feedLoop_of_stuck N (c :: chunks) hsf hef (by rw [hf.err, herr])
        (by rw [hf.done, heof, Bool.and_false])
    · obtain ⟨f₁, d₁, hf₁, hd₁, hans⟩ :=
        feed_stands N onMeta strict hf hd herr heof hstuck (hsplit.1 d hd)
      have hloop : feedLoop N.decodeIncremental accepting f (c :: chunks) =
          feedLoop N.decodeIncremental accepting f₁ chunks := by
        simp [feedLoop, hf.done, hf.err, herr, heof, hf₁]
      have hflat : p ++ (c :: chunks).flatten = p ++ c ++ chunks.flatten := by simp
      rw [hflat] at he ⊢
      rw [hloop]
      simp only [hstuck, not_false_eq_true, true_and]
      exact ih hans hd₁ (fun c' hc' => hne c' (by simp [hc'])) ⟨e, he, hrest⟩ hsplit.2

/-- **The loop over a response and what follows it.** Cut where the
decoder is in no body, the loop ends with what one call on all the bytes
reads, whichever chunk the end of the response is in. -/
theorem feedLoop_over (chunks : List Bytes) :
    ∀ {p : Bytes} {f : Fed} {d e : Decoded}, f.Answers d → whole N onMeta strict p = some d →
      (∀ q d', q <+: p ++ chunks.flatten → whole N onMeta strict q = some d' → d'.err = none →
        d'.r.eof = false → ¬ InBody d'.r ∧ ¬ Stuck d'.r) →
      whole N onMeta strict (p ++ chunks.flatten) = some e → e.err = none → e.r.eof = true →
      ∃ f', feedLoop N.decodeIncremental accepting f chunks = some f' ∧ f'.done = true ∧
        f'.err = none ∧ f'.r = ⟨e.r, e.read⟩ := by
  induction chunks with
  | nil =>
    intro p f d e hf hd _ he herr heof
    rw [List.flatten_nil, List.append_nil, hd, Option.some.injEq] at he
    subst he
    exact ⟨f, rfl, by rw [hf.done, herr, heof]; rfl, by rw [hf.err, herr], hf.r⟩
  | cons c chunks ih =>
    intro p f d e hf hd hcut he herr heof
    by_cases hover : d.err ≠ none ∨ d.r.eof = true
    · -- the end was in an earlier chunk: the bytes behind it are not looked at
      have hended := (whole_extends N onMeta strict p (c :: chunks).flatten hd).ended hover
      rw [he, Option.some.injEq] at hended
      have hde : e.r = d.r ∧ e.read = d.read ∧ e.err = d.err := by
        rw [hended]
        exact ⟨rfl, rfl, rfl⟩
      rw [hde.1] at heof ⊢
      rw [hde.2.2] at herr
      have hdone : f.done = true := by rw [hf.done, herr, heof]; rfl
      refine ⟨f, ?_, hdone, by rw [hf.err, herr], by rw [hf.r, hde.2.1]⟩
      rw [feedLoop, if_pos (Or.inl hdone)]
    · obtain ⟨herr', heof'⟩ : d.err = none ∧ d.r.eof = false := by simpa using hover
      obtain ⟨hnb, hns⟩ := hcut p d (List.prefix_append _ _) hd herr' heof'
      obtain ⟨f₁, d₁, hf₁, hd₁, hans⟩ :=
        feed_stands N onMeta strict hf hd herr' heof' hns (fun hs => hnb hs.1) (c := c)
      have hloop : feedLoop N.decodeIncremental accepting f (c :: chunks) =
          feedLoop N.decodeIncremental accepting f₁ chunks := by
        simp [feedLoop, hf.done, hf.err, herr', heof', hf₁]
      have hflat : p ++ (c :: chunks).flatten = p ++ c ++ chunks.flatten := by simp
      rw [hflat] at hcut he
      rw [hloop]
      exact ih hans hd₁ hcut he herr heof

/-- The same from the start. -/
theorem feedChunks_over {chunks : List Bytes} {e : Decoded}
    (hcut : ∀ q d, q <+: chunks.flatten → whole N onMeta strict q = some d → d.err = none →
      d.r.eof = false → ¬ InBody d.r ∧ ¬ Stuck d.r)
    (he : whole N onMeta strict chunks.flatten = some e) (herr : e.err = none)
    (heof : e.r.eof = true) :
    ∃ f, feedChunks N.decodeIncremental onMeta strict chunks = some f ∧ f.done = true ∧
      f.err = none ∧ f.r = ⟨e.r, e.read⟩ := by
  have hnil : whole N onMeta strict [] = some ⟨(fresh onMeta strict).toDecoder, [], 0, [], none⟩ := by
    rw [whole_eq_scan, scan_of_cut_none N accepting [] 0 (by decide)]
  exact feedLoop_over N onMeta strict chunks ⟨rfl, rfl, rfl, rfl, rfl⟩ hnil hcut he herr heof

/-- A property of every cut, from one of every proper front part. -/
theorem atCuts_of_front {P : Decoded → Bytes → Prop} {bytes : Bytes} (chunks : List Bytes) :
    ∀ {p : Bytes}, p ++ chunks.flatten = bytes → (∀ c ∈ chunks, c ≠ []) →
      (∀ p c b d, p ++ c ++ b = bytes → c ≠ [] → whole N onMeta strict p = some d → P d c) →
      AtCuts N onMeta strict P p chunks := by
  induction chunks with
  | nil => intro p _ _ _; trivial
  | cons c chunks ih =>
    intro p hp hne hP
    have hp' : p ++ c ++ chunks.flatten = bytes := by rw [← hp]; simp
    exact ⟨fun d hd => hP p c chunks.flatten d hp' (hne c (by simp)) hd,
      ih hp' (fun c' hc' => hne c' (by simp [hc'])) hP⟩

/-- No cut is stuck exactly when the place where the decoder gets stuck
lies behind the last of them. -/
theorem atCuts_stuck_iff {bytes : Bytes} {place : Option ℕ} (hstuck : ∀ p d, p <+: bytes →
      p ≠ bytes → whole N onMeta strict p = some d → (Stuck d.r ↔ ∃ e, place = some e ∧ e ≤ p.length))
    (chunks : List Bytes) :
    ∀ {p : Bytes}, p ++ chunks.flatten = bytes → (∀ c ∈ chunks, c ≠ []) → chunks ≠ [] →
      (AtCuts N onMeta strict (fun d _ => ¬ Stuck d.r) p chunks ↔
        ∀ e, place = some e → (p ++ chunks.dropLast.flatten).length < e) := by
  induction chunks with
  | nil => intro p _ _ h; exact absurd rfl h
  | cons c chunks ih =>
    intro p hp hne _
    have hcne := hne c (by simp)
    have hp' : p ++ c ++ chunks.flatten = bytes := by rw [← hp]; simp
    obtain ⟨d, hd⟩ := exists_whole N onMeta strict p
    have hpne : p ≠ bytes := by
      intro hc
      rw [hc, List.append_assoc, List.append_right_eq_self] at hp'
      exact hcne (List.append_eq_nil_iff.mp hp').1
    have hhere := hstuck p d ⟨_, hp⟩ hpne hd
    have hhead : (∀ d', whole N onMeta strict p = some d' → ¬ Stuck d'.r) ↔
        ∀ e, place = some e → p.length < e := by
      rw [hd]
      simp only [Option.some.injEq, forall_eq', hhere, not_exists, not_and, Nat.not_le]
    simp only [AtCuts, hhead]
    by_cases hlast : chunks = []
    · subst hlast
      simp [AtCuts]
    · rw [ih hp' (fun c' hc' => hne c' (by simp [hc'])) hlast, List.dropLast_cons_of_ne_nil hlast]
      simp only [List.flatten_cons, List.append_assoc, List.length_append]
      refine ⟨fun h => h.2, fun h => ⟨fun e he => ?_, h⟩⟩
      have := h e he
      omega

/-- **Chunk independence, up to a UU body.** A response that is over
exactly at its end, with no terminator a cut could split, comes to the
same in chunks as in one call when the place where the decoder gets stuck
lies in the last chunk; otherwise the end is never reported. -/
theorem feedChunks_spec {bytes : Bytes} (place : Option ℕ)
    (hend : ∃ d, whole N onMeta strict bytes = some d ∧ d.err = none ∧ d.r.eof = true ∧
      d.rest = [])
    (hsplit : ∀ p c b d, p ++ c ++ b = bytes → c ≠ [] → whole N onMeta strict p = some d →
      ¬ Splits d.r (d.rest ++ c))
    (hstuck : ∀ p d, p <+: bytes → p ≠ bytes → whole N onMeta strict p = some d →
      (Stuck d.r ↔ ∃ e, place = some e ∧ e ≤ p.length))
    {chunks : List Bytes} (hflat : chunks.flatten = bytes) (hne : ∀ c ∈ chunks, c ≠ [])
    (hbytes : bytes ≠ []) :
    ((∀ e, place = some e → chunks.dropLast.flatten.length < e) →
      ∃ f g, feedChunks N.decodeIncremental onMeta strict chunks = some f ∧
        feedChunks N.decodeIncremental onMeta strict [bytes] = some g ∧
        f.done = true ∧ f.r = g.r ∧ f.out = g.out ∧
        ∀ d, whole N onMeta strict bytes = some d → f.r.toDecoder = d.r) ∧
    (¬ (∀ e, place = some e → chunks.dropLast.flatten.length < e) →
      ∃ f, feedChunks N.decodeIncremental onMeta strict chunks = some f ∧ f.done = false) := by
  obtain ⟨d, hd, herr, heof, hrest⟩ := hend
  have hstart : Fed.Answers ⟨fresh onMeta strict, [], 0, [], false, none⟩
      ⟨(fresh onMeta strict).toDecoder, [], 0, [], none⟩ := ⟨rfl, rfl, rfl, rfl, rfl⟩
  have hnil : whole N onMeta strict [] = some ⟨(fresh onMeta strict).toDecoder, [], 0, [], none⟩ := by
    rw [whole_eq_scan, scan_of_cut_none N accepting [] 0 (by decide)]
  have hloop := fun (cs : List Bytes) (hf : cs.flatten = bytes) (hn : ∀ c ∈ cs, c ≠ []) =>
    feedLoop_stands N onMeta strict cs hstart hnil hn
      ⟨d, by rwa [List.nil_append, hf], hrest⟩ (atCuts_of_front N onMeta strict cs hf hn hsplit)
  have hcuts := fun (cs : List Bytes) (hf : cs.flatten = bytes) (hn : ∀ c ∈ cs, c ≠ [])
      (hc : cs ≠ []) => atCuts_stuck_iff N onMeta strict hstuck cs (p := []) hf hn hc
  have hcne : chunks ≠ [] := by
    rintro rfl
    exact hbytes hflat.symm
  constructor
  · intro hcond
    obtain ⟨f, d₁, hf, hd₁, hans⟩ :=
      (hloop chunks hflat hne).1 ((hcuts chunks hflat hne hcne).mpr hcond)
    have hone : ∀ c ∈ [bytes], c ≠ [] := by simpa using hbytes
    -- at the very start nothing has been read
    have hpos : ∀ e, place = some e → 0 < e := by
      intro e he
      by_contra hz
      exact Bool.false_ne_true ((hstuck [] _ (List.nil_prefix) hbytes.symm hnil).mpr
        ⟨e, he, by simpa using hz⟩).1
    obtain ⟨g, d₂, hg, hd₂, hans'⟩ := (hloop [bytes] (by simp) hone).1
      ((hcuts [bytes] (by simp) hone (by simp)).mpr (by simpa using hpos))
    rw [List.nil_append, hflat, hd, Option.some.injEq] at hd₁
    rw [List.nil_append, List.flatten_singleton, hd, Option.some.injEq] at hd₂
    subst hd₁ hd₂
    refine ⟨f, g, hf, hg, ?_, hans.r.trans hans'.r.symm, hans.out.trans hans'.out.symm, ?_⟩
    · rw [hans.done, herr, heof]
      rfl
    · intro d' hd'
      rw [hd, Option.some.injEq] at hd'
      rw [hans.r, hd']
  · intro hcond
    exact (hloop chunks hflat hne).2 fun h => hcond ((hcuts chunks hflat hne hcne).mp h)

end

end Reader

end NntpPool
