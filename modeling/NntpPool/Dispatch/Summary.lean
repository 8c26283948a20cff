import NntpPool.Dispatch.Evidence
/-!
# Dispatch — the summary of a call

What `newTransportError` makes of the evidence, said without its loop: the
kind is a question of which outcomes there are (`kind_congr`),
the other fields are those of one attempt or of none, and the error is
`ErrArticleNotFound` exactly if all that failed found the article absent.
-/

namespace NntpPool

namespace Dispatch

/-! ## Which outcomes there are -/

/-- All that failed failed in one way. -/
structure Uniform (os : List OutcomeKind) (k : OutcomeKind) : Prop where
  mem : k ∈ os
  failed : k ≠ .success
  only : ∀ o ∈ os, o = .success ∨ o = k

/-- There are failures of different kinds. -/
def Mixed (os : List OutcomeKind) : Prop :=
  ∃ a ∈ os, ∃ b ∈ os, a ≠ .success ∧ b ≠ .success ∧ a ≠ b

variable {os os' : List OutcomeKind} {k k' : OutcomeKind}

theorem Uniform.unique (h : Uniform os k) (h' : Uniform os k') : k = k' :=
  ((h'.only k h.mem).resolve_left h.failed)

theorem Uniform.not_mixed (h : Uniform os k) : ¬Mixed os := by
  rintro ⟨a, ha, b, hb, has, hbs, hab⟩
  exact hab (((h.only a ha).resolve_left has).trans ((h.only b hb).resolve_left hbs).symm)

theorem Uniform.congr (h : Uniform os k) (heq : ∀ o, o ∈ os ↔ o ∈ os') : Uniform os' k :=
  ⟨(heq k).mp h.mem, h.failed, fun o ho => h.only o ((heq o).mpr ho)⟩

theorem Mixed.congr (h : Mixed os) (heq : ∀ o, o ∈ os ↔ o ∈ os') : Mixed os' := by
  obtain ⟨a, ha, b, hb, hne⟩ := h
  exact ⟨a, (heq a).mp ha, b, (heq b).mp hb, hne⟩

/-- The loop says `mixed` only of failures of different kinds. -/
theorem mixed_of_tally (h : (os.foldl Tally.add {}).mixed = true) : Mixed os := by
  induction os using List.reverseRecOn with
  | nil => cases h
  | append_singleton os o ih =>
    have hof := foldl_tally_of os
    rw [List.foldl_append, List.foldl_cons, List.foldl_nil] at h
    generalize os.foldl Tally.add {} = t at h hof ih
    have hmono (hm : Mixed os) : Mixed (os ++ [o]) := by
      obtain ⟨a, ha, b, hb, hne⟩ := hm
      exact ⟨a, List.mem_append_left _ ha, b, List.mem_append_left _ hb, hne⟩
    cases hof with
    | mixed => exact hmono (ih rfl)
    | clean | cancelled =>
      -- a first failure, or a cancellation, mixes nothing
      simp only [Tally.add] at h
      split_ifs at h
    | pure k hk hs hc =>
      simp only [Tally.add] at h
      split_ifs at h with hos hoc hkc hko
      · exact ⟨k, List.mem_append_left _ hk, o, by simp, hs, hos, hko⟩

/-- **Where the loop stands, by the outcomes alone.** -/
theorem tally_cases (os : List OutcomeKind) :
    (.cancellation ∈ os ∧ os.foldl Tally.add {} = ⟨.cancellation, true, false⟩) ∨
      .cancellation ∉ os ∧ ((∃ k, Uniform os k ∧ os.foldl Tally.add {} = ⟨k, true, false⟩) ∨
        (Mixed os ∧ os.foldl Tally.add {} = ⟨.inconclusive, true, true⟩) ∨
        ((∀ o ∈ os, o = .success) ∧ os.foldl Tally.add {} = {})) := by
  have hof := foldl_tally_of os
  have hmixed := @mixed_of_tally os
  generalize os.foldl Tally.add {} = t at hof hmixed
  cases hof with
  | cancelled h => exact .inl ⟨h, rfl⟩
  | clean h =>
    refine .inr ⟨fun hc => ?_, .inr (.inr ⟨h, rfl⟩)⟩
    cases h _ hc
  | pure k hk hs hc h =>
    refine .inr ⟨fun hmem => ?_, .inl ⟨k, ⟨hk, hs, h⟩, rfl⟩⟩
    rcases h _ hmem with h | h
    · cases h
    · exact hc h.symm
  | mixed o ho hs ha hc => exact .inr ⟨hc, .inr (.inl ⟨hmixed rfl, rfl⟩)⟩

/-! ## The attempt the fields are taken from -/

/-- **Evidence as `buildAttemptEvidence` leaves it**: what failed has a
cause, which is `ErrArticleNotFound` only where the article is absent. -/
def Evidence.Founded (e : Evidence) : Prop :=
  e.outcome ≠ .success → ∃ c, e.cause = some c ∧
    (c.isCode 430 = true → e.outcome = .hardArticleAbsence)

theorem Evidence.Coherent.founded {e : Evidence} (h : e.Coherent) : e.Founded := by
  intro hs
  obtain ⟨c, hc⟩ := Option.isSome_iff_exists.mp (h.caused hs)
  exact ⟨c, hc, h.absence c hc⟩

/-- The outcomes of some attempts. -/
def outcomes (attempts : List Evidence) : List OutcomeKind := attempts.map (·.outcome)

variable {attempts attempts' : List Evidence} {cause : GoError}

theorem mem_outcomes {o : OutcomeKind} :
    o ∈ outcomes attempts ↔ ∃ e ∈ attempts, e.outcome = o := List.mem_map

/-- Of one kind, an attempt of that kind is taken. -/
theorem representative_of_mem (haveKind : Bool) (h : k ∈ outcomes attempts) :
    ∃ e ∈ attempts, representative ⟨k, haveKind, false⟩ attempts = some e ∧ e.outcome = k := by
  obtain ⟨a, ha, hak⟩ := mem_outcomes.1 h
  cases hr : representative ⟨k, haveKind, false⟩ attempts with
  | none => exact absurd (by simpa using hak) (List.find?_eq_none.mp hr a (List.mem_reverse.mpr ha))
  | some e =>
    exact ⟨e, List.mem_reverse.mp (List.mem_of_find?_eq_some hr), rfl,
      by simpa using List.find?_some hr⟩

/-- Of different kinds, one that did not find the article absent. -/
theorem representative_of_mixed (haveKind : Bool) (hc : ∀ e ∈ attempts, e.Founded)
    (h : Mixed (outcomes attempts)) :
    ∃ e ∈ attempts, representative ⟨k, haveKind, true⟩ attempts = some e ∧
      e.outcome ≠ .success ∧ e.outcome ≠ .hardArticleAbsence := by
  -- two kinds are not both absences
  have hex : ∃ a ∈ attempts, a.outcome ≠ .success ∧ a.outcome ≠ .hardArticleAbsence := by
    obtain ⟨o, ho, o', ho', hs, hs', hne⟩ := h
    obtain ⟨a, ha, rfl⟩ := mem_outcomes.1 ho
    obtain ⟨b, hb, rfl⟩ := mem_outcomes.1 ho'
    by_cases hab : a.outcome = .hardArticleAbsence
    · exact ⟨b, hb, hs', fun hb => hne (hab.trans hb.symm)⟩
    · exact ⟨a, ha, hs, hab⟩
  obtain ⟨a, ha, hs, hab⟩ := hex
  obtain ⟨c, hcause, -⟩ := hc a ha hs
  cases hr : representative ⟨k, haveKind, true⟩ attempts with
  | none =>
    exact absurd (by simp [hs, hab, hcause])
      (List.find?_eq_none.mp hr a (List.mem_reverse.mpr ha))
  | some e =>
    have hp : e.outcome ≠ .success ∧ e.outcome ≠ .hardArticleAbsence ∧ e.cause.isSome = true := by
      simpa using List.find?_some hr
    exact ⟨e, List.mem_reverse.mp (List.mem_of_find?_eq_some hr), rfl, hp.1, hp.2.1⟩

/-! ## The kind -/

theorem kind_of_cancellation (h : .cancellation ∈ outcomes attempts) :
    tally attempts = ⟨.cancellation, true, false⟩ := by
  rcases tally_cases (outcomes attempts) with ⟨-, ht⟩ | ⟨hc, -⟩
  · exact ht
  · exact absurd h hc

theorem tally_of_uniform (hc : .cancellation ∉ outcomes attempts)
    (h : Uniform (outcomes attempts) k) : tally attempts = ⟨k, true, false⟩ := by
  rcases tally_cases (outcomes attempts) with ⟨hc', -⟩ | ⟨-, ⟨k', hk', ht⟩ | ⟨hm, -⟩ | ⟨hs, -⟩⟩
  · exact absurd hc' hc
  · obtain rfl := h.unique hk'
    exact ht
  · exact absurd hm h.not_mixed
  · exact absurd (hs k h.mem) h.failed

theorem tally_of_mixed (hc : .cancellation ∉ outcomes attempts)
    (h : Mixed (outcomes attempts)) : tally attempts = ⟨.inconclusive, true, true⟩ := by
  rcases tally_cases (outcomes attempts) with ⟨hc', -⟩ | ⟨-, ⟨k', hk', -⟩ | ⟨-, ht⟩ | ⟨hs, -⟩⟩
  · exact absurd hc' hc
  · exact absurd h hk'.not_mixed
  · exact ht
  · obtain ⟨a, ha, -, -, has, -⟩ := h
    exact absurd (hs a ha) has

/-- **The kind is the same for the same outcomes**, in any order and
number. -/
theorem kind_congr (heq : ∀ o, o ∈ outcomes attempts ↔ o ∈ outcomes attempts') :
    (tally attempts).kind = (tally attempts').kind := by
  by_cases hc : .cancellation ∈ outcomes attempts
  · rw [kind_of_cancellation hc, kind_of_cancellation ((heq _).mp hc)]
  have hc' : .cancellation ∉ outcomes attempts' := fun h => hc ((heq _).mpr h)
  rcases tally_cases (outcomes attempts) with ⟨h, -⟩ | ⟨-, ⟨k, hk, -⟩ | ⟨hm, -⟩ | ⟨hs, ht⟩⟩
  · exact absurd h hc
  · rw [tally_of_uniform hc hk, tally_of_uniform hc' (hk.congr heq)]
  · rw [tally_of_mixed hc hm, tally_of_mixed hc' (hm.congr heq)]
  · rcases tally_cases (outcomes attempts') with ⟨h, -⟩ | ⟨-, ⟨k, hk, -⟩ | ⟨hm, -⟩ | ⟨-, ht'⟩⟩
    · exact absurd h hc'
    · exact absurd (hs k ((heq k).mpr hk.mem)) hk.failed
    · obtain ⟨a, ha, -, -, has, -⟩ := hm
      exact absurd (hs a ((heq a).mpr ha)) has
    · exact congrArg Tally.kind (ht.trans ht'.symm)

/-- Outcomes of neither sort are not of one kind. -/
theorem kind_of_not_uniform (hc : .cancellation ∉ outcomes attempts)
    (h : ¬∃ k, Uniform (outcomes attempts) k) : (tally attempts).kind = .inconclusive := by
  rcases tally_cases (outcomes attempts) with ⟨hc', -⟩ | ⟨-, ⟨k, hk, -⟩ | ⟨-, ht⟩ | ⟨-, ht⟩⟩
  · exact absurd hc' hc
  · exact absurd ⟨k, hk⟩ h
  · exact congrArg Tally.kind ht
  · exact congrArg Tally.kind ht

/-! ## The fields -/

/-- The fields of a summary are those of one attempt. -/
structure Represents (e : Evidence) (r : TransportError) : Prop where
  outcome : e.outcome = r.kind
  providerID : r.providerID = e.providerID
  responseCode : r.responseCode = e.responseCode
  cause : ∃ c, e.cause = some c ∧
    (r.cause = some c ∨ r.cause = some (withErrorClassification c errArticleNotFound))

/-- Without failures of different kinds there is an attempt that stands
for the call. -/
theorem exists_represents {haveKind : Bool} (hc : ∀ e ∈ attempts, e.Founded)
    (hk : k ∈ outcomes attempts) (hs : k ≠ .success)
    (ht : tally attempts = ⟨k, haveKind, false⟩) :
    ∃ e ∈ attempts, Represents e (newTransportError attempts cause) := by
  obtain ⟨e, he, hrep, ho⟩ := representative_of_mem haveKind hk
  obtain ⟨c, hcause, -⟩ := hc e he (ho.trans_ne hs)
  refine ⟨e, he, ?_, ?_, ?_, c, hcause, ?_⟩
  · simp [newTransportError, ht, ho]
  · simp [newTransportError, ht, hrep]
  · simp [newTransportError, ht, hrep]
  · simp only [newTransportError, ht, hrep, Option.bind_some, hcause, Option.getD_some]
    split_ifs
    · exact .inr rfl
    · exact .inl rfl

/-- **The error is `ErrArticleNotFound` exactly if all that failed found
the article absent.** -/
theorem isCode_summary (hc : ∀ e ∈ attempts, e.Founded)
    (hfailed : ∃ e ∈ attempts, e.outcome ≠ .success) :
    (FinalErr.transport (newTransportError attempts cause)).isCode 430 = true ↔
      ∀ e ∈ attempts, e.outcome ≠ .success → e.outcome = .hardArticleAbsence := by
  obtain ⟨a, ha, has⟩ := hfailed
  -- an attempt that did not find the article absent, whose cause is taken
  have hno {e : Evidence} {t : Tally} (he : e ∈ attempts) (hs : e.outcome ≠ .success)
      (hne : e.outcome ≠ .hardArticleAbsence) (ht : tally attempts = t)
      (hk : t.kind ≠ .hardArticleAbsence) (hrep : representative t attempts = some e) :
      (FinalErr.transport (newTransportError attempts cause)).isCode 430 = true ↔
        ∀ e ∈ attempts, e.outcome ≠ .success → e.outcome = .hardArticleAbsence := by
    obtain ⟨c, hcause, habs⟩ := hc e he hs
    refine iff_of_false (fun h => hne (habs ?_)) fun h => hne (h e he hs)
    simpa [FinalErr.isCode, newTransportError, ht, hrep, hk, hcause] using h
  rcases tally_cases (outcomes attempts) with ⟨hmem, ht⟩ | ⟨-, ⟨k, hk, ht⟩ | ⟨hm, ht⟩ | ⟨hs, -⟩⟩
  · obtain ⟨e, he, hrep, ho⟩ := representative_of_mem true hmem
    exact hno he (by simp [ho]) (by simp [ho]) ht (by simp) hrep
  · by_cases hka : k = .hardArticleAbsence
    · subst hka
      have ht' : tally attempts = ⟨.hardArticleAbsence, true, false⟩ := ht
      refine iff_of_true ?_ fun e he hes => (hk.only _ (List.mem_map_of_mem he)).resolve_left hes
      simp [FinalErr.isCode, newTransportError, ht', isCode_withErrorClassification]
    · obtain ⟨e, he, hrep, ho⟩ := representative_of_mem true hk.mem
      exact hno he (ho.trans_ne hk.failed) (ho.trans_ne hka) ht hka hrep
  · obtain ⟨e, he, hrep, hs, hne⟩ := representative_of_mixed (k := .inconclusive)
      true hc hm
    exact hno he hs hne ht (by simp) hrep
  · exact absurd (hs _ (List.mem_map_of_mem ha)) has

/-- **`newTransportError`, without its loop.** -/
theorem newTransportError_summary (attempts : List Evidence) (cause : GoError)
    (hc : ∀ e ∈ attempts, e.Founded) :
    (∀ attempts' cause', (∀ o, o ∈ outcomes attempts ↔ o ∈ outcomes attempts') →
        (newTransportError attempts' cause').kind = (newTransportError attempts cause).kind) ∧
      (.cancellation ∈ outcomes attempts →
        (newTransportError attempts cause).kind = .cancellation) ∧
      (∀ k, .cancellation ∉ outcomes attempts → Uniform (outcomes attempts) k →
        (newTransportError attempts cause).kind = k) ∧
      (.cancellation ∉ outcomes attempts → (¬∃ k, Uniform (outcomes attempts) k) →
        (newTransportError attempts cause).kind = .inconclusive) ∧
      (.cancellation ∈ outcomes attempts ∨ (∃ k, Uniform (outcomes attempts) k) →
        ∃ e ∈ attempts, Represents e (newTransportError attempts cause)) ∧
      (.cancellation ∉ outcomes attempts → Mixed (outcomes attempts) →
        (newTransportError attempts cause).providerID = "" ∧
          (newTransportError attempts cause).responseCode = 0) ∧
      ((∃ e ∈ attempts, e.outcome ≠ .success) →
        ((FinalErr.transport (newTransportError attempts cause)).isCode 430 = true ↔
          ∀ e ∈ attempts, e.outcome ≠ .success → e.outcome = .hardArticleAbsence)) := by
  refine ⟨fun attempts' cause' heq => (kind_congr heq).symm,
    fun h => congrArg Tally.kind (kind_of_cancellation h),
    fun k hno hk => congrArg Tally.kind (tally_of_uniform hno hk),
    kind_of_not_uniform, fun h => ?_, fun hno hm => ?_, isCode_summary hc⟩
  · by_cases hcancel : .cancellation ∈ outcomes attempts
    · exact exists_represents hc hcancel nofun (kind_of_cancellation hcancel)
    · obtain ⟨k, hk⟩ := h.resolve_left hcancel
      exact exists_represents hc hk.mem hk.failed (tally_of_uniform hcancel hk)
  · simp [newTransportError, tally_of_mixed hno hm]

/-- A STAT, by a policy for 451. -/
def statInfo (maps451 : Bool) : RequestInfo :=
  ⟨ascii "STAT <a@b>\r\n", false, maps451, true, false⟩

/-- Two providers without the article, one of which says 451. -/
def twoAbsences : List Evidence :=
  [buildAttemptEvidence (statInfo false) "a" 430 (ascii "430 no such article") none,
    buildAttemptEvidence (statInfo true) "b" 451 (ascii "451 not here") none]

theorem newTransportError_summary_absences :
    (newTransportError twoAbsences (.sentinel .connectionDied)).kind = .hardArticleAbsence ∧
      (FinalErr.transport (newTransportError twoAbsences (.sentinel .connectionDied))).isCode 430 =
        true ∧
      ∃ e ∈ twoAbsences,
        Represents e (newTransportError twoAbsences (.sentinel .connectionDied)) := by
  have hfounded : ∀ e ∈ twoAbsences, e.Founded := by
    simp only [twoAbsences, List.forall_mem_cons, List.not_mem_nil, false_implies, implies_true,
      and_true]
    exact ⟨(buildAttemptEvidence_coherent (by simp)).founded,
      (buildAttemptEvidence_coherent (by simp)).founded⟩
  have houtcomes : outcomes twoAbsences = [.hardArticleAbsence, .hardArticleAbsence] := by decide
  have huniform : Uniform (outcomes twoAbsences) .hardArticleAbsence :=
    houtcomes ▸ ⟨by decide, nofun, by decide⟩
  obtain ⟨-, -, hkind, -, hrep, -, hcode⟩ :=
    newTransportError_summary twoAbsences (.sentinel .connectionDied) hfounded
  refine ⟨hkind _ (houtcomes ▸ by decide) huniform, (hcode ?_).mpr ?_, hrep (.inr ⟨_, huniform⟩)⟩
  · exact ⟨_, List.mem_cons_self, by decide⟩
  · intro e he _
    have ho : e.outcome ∈ outcomes twoAbsences := List.mem_map_of_mem he
    simpa [houtcomes] using ho

end Dispatch

end NntpPool
