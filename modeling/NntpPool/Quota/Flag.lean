import NntpPool.Quota.Model.Quota
import NntpPool.Common.Shares
/-!
# Quota — the counter and its flag

The flag is set behind the `Add` that reaches the limit, and cleared
behind the `Store` that clears the counter. A reset between the two
accesses of another goroutine leaves them apart: a flag without the
bytes, or the bytes without the flag. Where no `Add` falls within a
clearing and no clearing behind such an `Add`, they agree whenever no
operation is under way.
-/

namespace NntpPool

namespace Quota

variable {cfg : Config} {s s' : State} {l : Label}

/-! ## Arithmetic -/

theorem int64_of_lt {x : ℤ} (hlo : -(2 ^ 63) ≤ x) (hhi : x < 2 ^ 63) : int64 x = x := by
  unfold int64
  exact Int.bmod_eq_of_le_mul_two (by omega) (by omega)

/-! ## Operations that run alone -/

/-- A goroutine that nobody disturbs, with the clock at each of its
accesses. -/
def Op.alone (cfg : Config) : Counters → Op → List ℤ → Counters × Op
  | c, op, [] => (c, op)
  | c, op, now :: rest =>
    match op.step cfg now c with
    | some (c, op) => op.alone cfg c rest
    | none => (c, op)

/-- **An operation that runs alone is the whole operation.** -/
theorem alone_account (cfg : Config) (c : Counters) (n : ℕ) (t t' : ℤ) :
    (Op.account n).alone cfg c [t, t'] = (account cfg c n, .returned none) := by
  simp only [Op.alone, Op.step, account]
  split_ifs <;> rfl

theorem alone_check (cfg : Config) (c : Counters) (t now u v now' : ℤ) :
    Op.check.alone cfg c [t, now, u, v, now'] =
      ((isQuotaExceeded cfg c now now').1,
        .returned (some (isQuotaExceeded cfg c now now').2)) := by
  by_cases hbytes : cfg.quotaBytes ≤ 0
  · simp [Op.alone, Op.step, isQuotaExceeded, hbytes]
  · by_cases hflag : c.quotaExceeded
    · by_cases hdue : 0 < cfg.quotaPeriod ∧ 0 < c.quotaResetAt ∧ c.quotaResetAt ≤ now
      · simp [Op.alone, Op.step, isQuotaExceeded, hbytes, hflag, hdue]
      · simp [Op.alone, Op.step, isQuotaExceeded, hbytes, hflag, hdue]
    · simp [Op.alone, Op.step, isQuotaExceeded, hbytes, hflag]

theorem alone_reset (cfg : Config) (c : Counters) (t u now : ℤ) :
    Op.reset.alone cfg c [t, u, now] = (resetProviderQuota cfg now, .returned none) := rfl

/-! ## Interleavings -/

/-- The goroutine is about to set the flag. -/
def Op.sets : Op → ℕ
  | .exceed => 1
  | _ => 0

/-- The goroutine has cleared the counter and not the flag. -/
def Op.clears : Op → ℕ
  | .clearExceeded _ => 1
  | _ => 0

/-- The operation is over. -/
def Op.isOver : Op → Bool
  | .returned _ => true
  | _ => false

/-- No operation is under way. -/
def State.atRest (s : State) : Prop := ∀ op ∈ s.ops, op.isOver = true

instance (s : State) : Decidable s.atRest :=
  inferInstanceAs (Decidable (∀ op ∈ s.ops, op.isOver = true))

/-- **No `Add` falls within a clearing, and no clearing behind an `Add`
that is about to set the flag**; and the counter does not overflow. -/
def Apart (s : State) : Label → Bool
  | .step i _ =>
    match s.ops[i]? with
    | some (.account n) =>
      s.ops.all (fun op => op.clears == 0) && decide (s.counters.quotaUsed + n < 2 ^ 63)
    | some (.clearUsed _) => s.ops.all fun op => op.sets == 0
    | _ => true
  | _ => true

/-- **The flag stands for the counter**, or is about to. -/
structure Agreed (cfg : Config) (s : State) : Prop where
  limit : 0 < cfg.quotaBytes
  nonneg : 0 ≤ s.counters.quotaUsed
  clearing : 0 < shares Op.clears s.ops → s.counters.quotaUsed = 0 ∧ shares Op.sets s.ops = 0
  flag : shares Op.clears s.ops = 0 →
    (s.counters.quotaExceeded = true ∨ 0 < shares Op.sets s.ops ↔
      cfg.quotaBytes ≤ s.counters.quotaUsed)

/-- An operation that begins has done nothing. -/
theorem Agreed.begins {op : Op} (h : Agreed cfg s) (hsets : op.sets = 0) (hclears : op.clears = 0) :
    Agreed cfg { s with ops := s.ops ++ [op] } := by
  obtain ⟨hlimit, hnonneg, hclearing, hflag⟩ := h
  refine ⟨hlimit, hnonneg, ?_, ?_⟩
  · simpa [hsets, hclears] using hclearing
  · simpa [hsets, hclears] using hflag

/-- An access that changes neither the counter nor the flag, nor how many
are about to change them. -/
theorem Agreed.same {i : ℕ} {op op' : Op} {c : Counters} (h : Agreed cfg s)
    (hop : s.ops[i]? = some op) (hused : c.quotaUsed = s.counters.quotaUsed)
    (hexceeded : c.quotaExceeded = s.counters.quotaExceeded) (hsets : op'.sets = op.sets)
    (hclears : op'.clears = op.clears) : Agreed cfg ⟨c, s.ops.set i op'⟩ := by
  have hs := shares_set (f := Op.sets) hop op'
  have hc := shares_set (f := Op.clears) hop op'
  have hs' : shares Op.sets (s.ops.set i op') = shares Op.sets s.ops := by omega
  have hc' : shares Op.clears (s.ops.set i op') = shares Op.clears s.ops := by omega
  refine ⟨h.limit, ?_, ?_, ?_⟩
  · rw [hused]
    exact h.nonneg
  · rw [hs', hc', hused]
    exact h.clearing
  · rw [hs', hc', hused, hexceeded]
    exact h.flag

/-- **The `Add`**, where no clearing is under way. -/
theorem Agreed.account {i n : ℕ} (h : Agreed cfg s) (hop : s.ops[i]? = some (.account n))
    (hclears : shares Op.clears s.ops = 0) (hfits : s.counters.quotaUsed + n < 2 ^ 63) :
    Agreed cfg ⟨{ s.counters with quotaUsed := s.counters.quotaUsed + n },
      s.ops.set i (if cfg.quotaBytes ≤ s.counters.quotaUsed + n then .exceed
        else .returned none)⟩ := by
  have hnonneg := h.nonneg
  have hflag := h.flag hclears
  by_cases hreached : cfg.quotaBytes ≤ s.counters.quotaUsed + n
  · have hs := shares_set (f := Op.sets) hop .exceed
    have hc := shares_set (f := Op.clears) hop .exceed
    simp only [Op.sets, Op.clears] at hs hc
    rw [if_pos hreached]
    refine ⟨h.limit, ?_, fun hpos => ?_, fun _ => ?_⟩
    · simp only
      omega
    · simp only at hpos
      omega
    · refine ⟨fun _ => hreached, fun _ => .inr ?_⟩
      simp only
      omega
  · have hs := shares_set (f := Op.sets) hop (.returned none)
    have hc := shares_set (f := Op.clears) hop (.returned none)
    simp only [Op.sets, Op.clears] at hs hc
    rw [if_neg hreached]
    have hbelow : ¬(s.counters.quotaExceeded = true ∨ 0 < shares Op.sets s.ops) := by
      rw [hflag]
      omega
    refine ⟨h.limit, ?_, fun hpos => ?_, fun _ => ?_⟩
    · simp only
      omega
    · simp only at hpos
      omega
    · have hsets : shares Op.sets (s.ops.set i (.returned none)) = shares Op.sets s.ops := by omega
      simp only [hsets]
      exact ⟨fun hor => absurd hor hbelow, fun hle => absurd hle hreached⟩

/-- The flag is set: the counter has reached the limit, and nobody has
cleared it since. -/
theorem Agreed.exceed {i : ℕ} (h : Agreed cfg s) (hop : s.ops[i]? = some .exceed) :
    Agreed cfg ⟨{ s.counters with quotaExceeded := true }, s.ops.set i (.returned none)⟩ := by
  have hs := shares_set (f := Op.sets) hop (.returned none)
  have hc := shares_set (f := Op.clears) hop (.returned none)
  simp only [Op.sets, Op.clears] at hs hc
  have hclears : shares Op.clears s.ops = 0 := by
    by_contra hne
    have := (h.clearing (by omega)).2
    omega
  have hreached := (h.flag hclears).mp (.inr (by omega))
  refine ⟨h.limit, h.nonneg, fun hpos => ?_, fun _ => ?_⟩
  · simp only at hpos
    omega
  · exact ⟨fun _ => hreached, fun _ => .inl rfl⟩

/-- The counter is cleared, where nobody is about to set the flag. -/
theorem Agreed.clearUsed {i : ℕ} {result : Option Bool} (h : Agreed cfg s)
    (hop : s.ops[i]? = some (.clearUsed result)) (hsets : shares Op.sets s.ops = 0) :
    Agreed cfg ⟨{ s.counters with quotaUsed := 0 }, s.ops.set i (.clearExceeded result)⟩ := by
  have hs := shares_set (f := Op.sets) hop (.clearExceeded result)
  have hc := shares_set (f := Op.clears) hop (.clearExceeded result)
  simp only [Op.sets, Op.clears] at hs hc
  refine ⟨h.limit, Int.le_refl _, fun _ => ⟨rfl, ?_⟩, fun hzero => ?_⟩
  · simp only
    omega
  · simp only at hzero
    omega

/-- And the flag. -/
theorem Agreed.clearExceeded {i : ℕ} {result : Option Bool} (h : Agreed cfg s)
    (hop : s.ops[i]? = some (.clearExceeded result)) :
    Agreed cfg ⟨{ s.counters with quotaExceeded := false }, s.ops.set i (.schedule result)⟩ := by
  have hs := shares_set (f := Op.sets) hop (.schedule result)
  have hc := shares_set (f := Op.clears) hop (.schedule result)
  simp only [Op.sets, Op.clears] at hs hc
  obtain ⟨hused, hsets⟩ := h.clearing (by omega)
  have hlimit := h.limit
  have hsets' : shares Op.sets (s.ops.set i (.schedule result)) = 0 := by omega
  refine ⟨hlimit, h.nonneg, fun _ => ⟨hused, hsets'⟩, fun _ => ?_⟩
  simp only [hsets', hused, Bool.false_eq_true, Nat.lt_irrefl, or_false, false_iff]
  omega

/-- Nobody is in a place. -/
theorem shares_eq_zero_of_all {f : Op → ℕ} {ops : List Op}
    (h : ops.all (fun op => f op == 0) = true) : shares f ops = 0 :=
  shares_eq_zero.2 fun op hop => by simpa using List.all_eq_true.mp h op hop

/-- **Every step that meets the condition keeps the flag with the
counter.** -/
theorem Agreed.step (h : Agreed cfg s) (hapart : Apart s l = true)
    (hs : step cfg s l = some s') : Agreed cfg s' := by
  have hlimit := h.limit
  cases l with
  | account n => exact Option.some.inj hs ▸ h.begins rfl rfl
  | check => exact Option.some.inj hs ▸ h.begins rfl rfl
  | reset => exact Option.some.inj hs ▸ h.begins rfl rfl
  | step i now =>
    obtain ⟨op, hop, hs⟩ := Option.bind_eq_some_iff.mp hs
    obtain ⟨r, hr, rfl⟩ := Option.map_eq_some_iff.mp hs
    cases op with
    | account n =>
      simp only [Apart, hop, Bool.and_eq_true, decide_eq_true_eq] at hapart
      have hnonneg := h.nonneg
      have hadd : int64 (s.counters.quotaUsed + n) = s.counters.quotaUsed + n :=
        int64_of_lt (by omega) hapart.2
      simp only [Op.step, if_pos hlimit, hadd, Option.some.injEq] at hr
      subst hr
      exact h.account hop (shares_eq_zero_of_all hapart.1) hapart.2
    | exceed =>
      obtain rfl := Option.some.inj hr
      exact h.exceed hop
    | check =>
      have hpos : ¬cfg.quotaBytes ≤ 0 := by omega
      simp only [Op.step, if_neg hpos, Option.some.injEq] at hr
      subst hr
      refine h.same hop rfl rfl ?_ ?_
      · split <;> rfl
      · split <;> rfl
    | elapsed =>
      obtain rfl := Option.some.inj hr
      refine h.same hop rfl rfl ?_ ?_
      · dsimp only
        split <;> rfl
      · dsimp only
        split <;> rfl
    | clearUsed result =>
      obtain rfl := Option.some.inj hr
      simp only [Apart, hop] at hapart
      exact h.clearUsed hop (shares_eq_zero_of_all hapart)
    | clearExceeded result =>
      obtain rfl := Option.some.inj hr
      exact h.clearExceeded hop
    | schedule result =>
      obtain rfl := Option.some.inj hr
      exact h.same hop rfl rfl rfl rfl
    | returned result => cases hr

theorem Agreed.start (hlimit : 0 < cfg.quotaBytes) (quotaUsed : ℤ) (quotaResetAt : Option ℤ)
    (now now' : ℤ) :
    Agreed cfg { counters := startProviderGroup cfg quotaUsed quotaResetAt now now' } := by
  have hstart : startProviderGroup cfg quotaUsed quotaResetAt now now' = _ := if_pos hlimit
  rw [hstart]
  refine ⟨hlimit, ?_, ?_, fun _ => ?_⟩
  · dsimp only
    split_ifs <;> omega
  · simp
  · simp only [decide_eq_true_eq, shares_nil, Nat.lt_irrefl, or_false]
    split_ifs <;> omega

/-- At rest the flag is the counter's. -/
theorem Agreed.atRest (h : Agreed cfg s) (hrest : s.atRest) :
    s.counters.quotaExceeded = cfg.statsExceeded s.counters := by
  have hover (f : Op → ℕ) (hf : ∀ result, f (.returned result) = 0) : shares f s.ops = 0 := by
    refine shares_eq_zero.2 fun op hop => ?_
    have := hrest op hop
    cases op with
    | returned result => exact hf result
    | _ => cases this
  have hflag := h.flag (hover Op.clears fun _ => rfl)
  rw [hover Op.sets fun _ => rfl] at hflag
  simp only [Nat.lt_irrefl, or_false] at hflag
  rw [Bool.eq_iff_iff, hflag]
  simp [Config.statsExceeded, h.limit]

/-- **The flag and the counter agree at rest**, where clearings and
accountings keep apart. -/
theorem flag_agrees_of_apart (cfg : Config) (hlimit : 0 < cfg.quotaBytes) (quotaUsed : ℤ)
    (quotaResetAt : Option ℤ) (now now' : ℤ) (ls : List Label) (s : State)
    (hapart : Along (step cfg) (fun s l => Apart s l = true)
      { counters := startProviderGroup cfg quotaUsed quotaResetAt now now' } ls)
    (h : exec (step cfg) { counters := startProviderGroup cfg quotaUsed quotaResetAt now now' } ls =
      some s) (hrest : s.atRest) :
    (s.counters.quotaExceeded = true ↔ cfg.quotaBytes ≤ s.counters.quotaUsed) ∧
      s.counters.quotaExceeded = cfg.statsExceeded s.counters := by
  have hagreed : Agreed cfg s :=
    exec_invariant (fun _ _ _ hs hl hstep => hs.step hl hstep) ls
      (Agreed.start hlimit quotaUsed quotaResetAt now now') hapart h
  have heq := hagreed.atRest hrest
  refine ⟨?_, heq⟩
  rw [heq]
  simp [Config.statsExceeded, hlimit]

/-- A quota of a hundred bytes, without a period. -/
def hundred : Config := { quotaBytes := 100, quotaPeriod_lt := zero_lt_int64 }

theorem flag_agrees_of_apart_reached :
    ∃ s, exec (step hundred) { counters := startProviderGroup hundred 60 none 0 0 }
        [.account 40, .step 0 1, .step 0 2] = some s ∧
      s.counters.quotaUsed = 100 ∧ (s.counters.quotaExceeded = true ↔ 100 ≤ s.counters.quotaUsed) :=
  ⟨_, rfl, by decide, (flag_agrees_of_apart hundred (by decide) 60 none 0 0
    [.account 40, .step 0 1, .step 0 2] _ (by decide) rfl (by decide)).1⟩

/-- **A reset between an `Add` and its flag blocks the provider with
nothing used; an `Add` within a reset leaves it open with all used.** In
both runs every operation is over. -/
theorem reset_tears_flag_and_counter :
    (∃ s, exec (step hundred) { counters := startProviderGroup hundred 0 none 0 0 }
        [.account 100, .step 0 1, .reset, .step 1 2, .step 1 2, .step 1 2, .step 0 3] = some s ∧
      s.atRest ∧ s.counters.quotaUsed = 0 ∧ s.counters.quotaExceeded = true ∧
      ∀ t t', isQuotaExceeded hundred s.counters t t' = (s.counters, true)) ∧
    ∃ s, exec (step hundred) { counters := startProviderGroup hundred 0 none 0 0 }
        [.reset, .step 0 1, .account 100, .step 1 2, .step 1 2, .step 0 3, .step 0 3] = some s ∧
      s.atRest ∧ s.counters.quotaUsed = 100 ∧ s.counters.quotaExceeded = false :=
  ⟨⟨_, rfl, by decide, by decide, by decide, fun _ _ => rfl⟩, _, rfl, by decide, by decide,
    by decide⟩

end Quota

end NntpPool
