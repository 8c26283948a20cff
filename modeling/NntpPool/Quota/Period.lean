import NntpPool.Quota.Flag
/-!
# Quota — periods

A period ends when a check finds the flag set and the deadline passed. A
check that finds the flag clear looks at no clock, so the bytes of a
period that was not used up are carried over, and the deadline stays in
the past. A check that starts a period clears also what was consumed
since the deadline. Both are as they should be only where the flag is set
and the check comes before the first response of the new period.
-/

namespace NntpPool

namespace Quota

variable {cfg : Config} {s s' : Course}

/-- A sum above `int64` comes out negative. -/
theorem int64_neg {x : ℤ} (hlo : 2 ^ 63 ≤ x) (hhi : x < 2 ^ 64) : int64 x < 0 := by
  unfold int64
  rw [Int.bmod_def]
  split_ifs <;> omega

/-- **A check behind the deadline** starts the next period from what was
consumed in it exactly if the flag is set, nothing was consumed in it
yet, and the clock can tell its deadline. -/
theorem check_restarts_iff (hbytes : 0 < cfg.quotaBytes) (hperiod : 0 < cfg.quotaPeriod)
    {c : Counters} {now now' : ℤ} {since : ℕ} (hzero : 0 ≤ now) (hnow : now ≤ now')
    (hlt : now' < 2 ^ 63) (hdue : c.quotaResetAt ≤ now) :
    ((isQuotaExceeded cfg c now now').1.quotaUsed = since ∧
        now < (isQuotaExceeded cfg c now now').1.quotaResetAt) ↔
      c.quotaExceeded = true ∧ 0 < c.quotaResetAt ∧ since = 0 ∧
        now' + cfg.quotaPeriod < 2 ^ 63 := by
  have hpos : ¬cfg.quotaBytes ≤ 0 := by omega
  have hperiod_lt := cfg.quotaPeriod_lt
  by_cases hflag : c.quotaExceeded = true
  · by_cases hset : 0 < c.quotaResetAt
    · have hcheck : isQuotaExceeded cfg c now now' =
          ({ quotaUsed := 0, quotaExceeded := false, quotaResetAt := cfg.deadline now' }, false) := by
        unfold isQuotaExceeded
        rw [if_neg hpos, if_neg (by simp [hflag]), if_pos ⟨hperiod, hset, hdue⟩]
      rw [hcheck]
      constructor
      · rintro ⟨hused, hfuture⟩
        simp only at hused hfuture
        refine ⟨hflag, hset, by omega, ?_⟩
        -- a deadline that overflows is in the past
        by_contra hover
        have hneg := int64_neg (x := now' + cfg.quotaPeriod) (by omega) (by omega)
        exact absurd (Int.lt_trans hfuture hneg) (Int.not_lt.mpr hzero)
      · rintro ⟨-, -, hsince, hfits⟩
        have hdeadline : cfg.deadline now' = now' + cfg.quotaPeriod :=
          int64_of_lt (by omega) hfits
        refine ⟨by simp [hsince], ?_⟩
        simp only [hdeadline]
        omega
    · have hcheck : isQuotaExceeded cfg c now now' = (c, true) := by
        unfold isQuotaExceeded
        rw [if_neg hpos, if_neg (by simp [hflag]), if_neg fun h => hset h.2.1]
      rw [hcheck]
      dsimp only
      exact ⟨fun h => by omega, fun h => absurd h.2.1 hset⟩
  · have hcheck : isQuotaExceeded cfg c now now' = (c, false) := by
      unfold isQuotaExceeded
      rw [if_neg hpos, if_pos (by simpa using hflag)]
    rw [hcheck]
    dsimp only
    exact ⟨fun h => by omega, fun h => absurd h.1 hflag⟩

/-! ## Courses -/

/-- **Every period begins with a check that finds the last one used up.**
No response is consumed behind the deadline, and a check that comes then
finds the flag set; and no number overflows. -/
def Prompt (cfg : Config) (s : Course) : Event → Bool
  | .consume now n =>
    decide (now < s.counters.quotaResetAt) && decide (s.counters.quotaUsed + n < 2 ^ 63)
  | .check now now' =>
    decide (now < s.counters.quotaResetAt) ||
      s.counters.quotaExceeded && decide (0 < s.counters.quotaResetAt) &&
        decide (now' + cfg.quotaPeriod < 2 ^ 63)

/-- The bytes consumed in the period of a deadline. -/
def Course.consumed (s : Course) (deadline : ℤ) : ℕ :=
  ((s.log.filter fun e => e.deadline == deadline).map Consumed.bytes).sum

theorem Course.sum_spent_le (s : Course) (deadline : ℤ) :
    (s.spent deadline).sum ≤ s.consumed deadline := by
  unfold Course.spent Course.consumed
  induction s.log with
  | nil => simp
  | cons e es ih =>
    by_cases hd : e.deadline = deadline
    · by_cases hfree : e.free = true
      · simp only [List.filter_cons, hd, hfree, BEq.rfl, Bool.and_self, if_true, List.map_cons,
          List.sum_cons]
        omega
      · simp only [List.filter_cons, hd, hfree, BEq.rfl, Bool.and_false, if_true,
          Bool.false_eq_true, if_false, List.map_cons, List.sum_cons]
        omega
    · have hbeq : (e.deadline == deadline) = false := by simpa using hd
      simpa only [List.filter_cons, hbeq, Bool.false_and, Bool.false_eq_true, if_false] using ih

/-- **What is consumed in a period is within the limit**, but for the
response that reaches it. -/
def Within (cfg : Config) (spent : List ℕ) : Prop :=
  (spent.sum : ℤ) ≤ cfg.quotaBytes + (spent.head?.getD 0 : ℕ)

/-- **The invariant of the periods.** -/
structure Periodic (cfg : Config) (s : Course) : Prop where
  limit : 0 < cfg.quotaBytes
  period : 0 < cfg.quotaPeriod
  nonneg : 0 ≤ s.counters.quotaUsed
  flag : s.counters.quotaExceeded = true ↔ cfg.quotaBytes ≤ s.counters.quotaUsed
  log : ∀ e ∈ s.log, e.time < e.deadline ∧ e.deadline ≤ s.counters.quotaResetAt
  used : (s.consumed s.counters.quotaResetAt : ℤ) ≤ s.counters.quotaUsed
  within : ∀ d, Within cfg (s.spent d)

/-- Nothing was consumed since the deadline. -/
theorem Periodic.since_eq_zero (h : Periodic cfg s) : s.since s.counters.quotaResetAt = 0 := by
  have hnil : (s.log.filter fun e => decide (s.counters.quotaResetAt ≤ e.time)) = [] := by
    refine List.filter_eq_nil_iff.mpr fun e he => ?_
    have := h.log e he
    simp only [decide_eq_true_eq]
    omega
  simp [Course.since, hnil]

/-- Before the deadline the check returns the flag. -/
theorem isQuotaExceeded_of_lt (hbytes : 0 < cfg.quotaBytes) {c : Counters} {now now' : ℤ}
    (hnow : now < c.quotaResetAt) : isQuotaExceeded cfg c now now' = (c, c.quotaExceeded) := by
  have hpos : ¬cfg.quotaBytes ≤ 0 := by omega
  unfold isQuotaExceeded
  rw [if_neg hpos]
  split_ifs with hflag hdue
  · rw [hflag]
  · omega
  · simpa using hflag

/-- A response is consumed before the deadline. -/
theorem Periodic.consume {now : ℤ} {n : ℕ} (h : Periodic cfg s)
    (hnow : now < s.counters.quotaResetAt) (hfits : s.counters.quotaUsed + n < 2 ^ 63) :
    Periodic cfg ⟨account cfg s.counters n, now,
      ⟨now, n, s.counters.quotaResetAt, !s.counters.quotaExceeded⟩ :: s.log⟩ := by
  have hnonneg := h.nonneg
  have hadd : int64 (s.counters.quotaUsed + n) = s.counters.quotaUsed + n :=
    int64_of_lt (by omega) hfits
  have haccount : account cfg s.counters n = { s.counters with
      quotaUsed := s.counters.quotaUsed + n
      quotaExceeded := if cfg.quotaBytes ≤ s.counters.quotaUsed + n then true
        else s.counters.quotaExceeded } := by
    unfold account
    rw [if_pos h.limit, hadd]
  rw [haccount]
  refine ⟨h.limit, h.period, ?_, ?_, ?_, ?_, fun d => ?_⟩
  · simp only
    omega
  · simp only
    split_ifs with hreached
    · exact ⟨fun _ => hreached, fun _ => rfl⟩
    · refine ⟨fun hflag => ?_, fun hle => absurd hle hreached⟩
      have := h.flag.mp hflag
      omega
  · intro e he
    rcases List.mem_cons.mp he with rfl | he
    · exact ⟨hnow, Int.le_refl _⟩
    · exact h.log e he
  · have hused := h.used
    simp only [Course.consumed, List.filter_cons, BEq.rfl, if_true, List.map_cons,
      List.sum_cons] at hused ⊢
    omega
  · cases hflag : s.counters.quotaExceeded with
    | true => simpa [Course.spent] using h.within d
    | false =>
      by_cases hd : s.counters.quotaResetAt = d
      · -- before it the limit was not reached
        have hspent := s.sum_spent_le d
        have hused := h.used
        have hbelow : ¬cfg.quotaBytes ≤ s.counters.quotaUsed := by
          rw [← h.flag, hflag]
          decide
        rw [hd] at hused
        simp only [Within, Course.spent, List.filter_cons, hd, BEq.rfl, Bool.not_false,
          Bool.and_self, if_true, List.map_cons, List.sum_cons, List.head?_cons,
          Option.getD_some]
        unfold Course.spent at hspent
        omega
      · have hbeq : (s.counters.quotaResetAt == d) = false := by simpa using hd
        have hwithin := h.within d
        simpa only [Course.spent, List.filter_cons, hbeq, Bool.false_and, Bool.false_eq_true,
          if_false] using hwithin

/-- A period begins. -/
theorem Periodic.restart {now' : ℤ} (h : Periodic cfg s) (hset : 0 < s.counters.quotaResetAt)
    (hnow : s.counters.quotaResetAt ≤ now') (hfits : now' + cfg.quotaPeriod < 2 ^ 63) :
    Periodic cfg ⟨{ quotaUsed := 0, quotaExceeded := false, quotaResetAt := cfg.deadline now' },
      now', s.log⟩ := by
  have hperiod := h.period
  have hlimit := h.limit
  have hdeadline : cfg.deadline now' = now' + cfg.quotaPeriod := int64_of_lt (by omega) hfits
  refine ⟨h.limit, h.period, Int.le_refl _, ?_, fun e he => ?_, ?_, h.within⟩
  · simp only [Bool.false_eq_true, false_iff]
    omega
  · obtain ⟨htime, hle⟩ := h.log e he
    refine ⟨htime, ?_⟩
    simp only [hdeadline]
    omega
  · -- the new deadline is nobody's yet
    have hnil : (s.log.filter fun e => e.deadline == cfg.deadline now') = [] := by
      refine List.filter_eq_nil_iff.mpr fun e he => ?_
      have := (h.log e he).2
      rw [hdeadline]
      simp only [beq_iff_eq]
      omega
    simp [Course.consumed, hnil]

/-- **Every operation that meets the condition keeps the periods.** -/
theorem Periodic.step {e : Event} (h : Periodic cfg s) (hprompt : Prompt cfg s e = true)
    (hs : s.step cfg e = some s') : Periodic cfg s' := by
  cases e with
  | consume now n =>
    simp only [Prompt, Bool.and_eq_true, decide_eq_true_eq] at hprompt
    simp only [Course.step, isQuotaExceeded_of_lt h.limit hprompt.1] at hs
    split_ifs at hs
    exact Option.some.inj hs ▸ h.consume hprompt.1 hprompt.2
  | check now now' =>
    simp only [Course.step] at hs
    split_ifs at hs with hclock
    obtain rfl := Option.some.inj hs
    by_cases hnow : now < s.counters.quotaResetAt
    · rw [isQuotaExceeded_of_lt h.limit hnow]
      exact ⟨h.limit, h.period, h.nonneg, h.flag, h.log, h.used, h.within⟩
    · simp only [Prompt, hnow, decide_false, Bool.false_or, Bool.and_eq_true,
        decide_eq_true_eq] at hprompt
      obtain ⟨⟨hflag, hset⟩, hfits⟩ := hprompt
      have hpos : ¬cfg.quotaBytes ≤ 0 := by
        have := h.limit
        omega
      have hcheck : isQuotaExceeded cfg s.counters now now' =
          ({ quotaUsed := 0, quotaExceeded := false, quotaResetAt := cfg.deadline now' },
            false) := by
        unfold isQuotaExceeded
        rw [if_neg hpos, if_neg (by simp [hflag]), if_pos ⟨h.period, hset, by omega⟩]
      rw [hcheck]
      exact h.restart hset (by omega) hfits

theorem Periodic.start (hlimit : 0 < cfg.quotaBytes) (hperiod : 0 < cfg.quotaPeriod)
    (quotaUsed : ℤ) (quotaResetAt : Option ℤ) (t t' : ℤ) :
    Periodic cfg ⟨startProviderGroup cfg quotaUsed quotaResetAt t t', t', []⟩ := by
  have hstart : startProviderGroup cfg quotaUsed quotaResetAt t t' = _ := if_pos hlimit
  rw [hstart]
  refine ⟨hlimit, hperiod, ?_, ?_, nofun, ?_, fun d => ?_⟩
  · dsimp only
    split_ifs <;> omega
  · simp only [decide_eq_true_eq]
    split_ifs <;> omega
  · simp only [Course.consumed, List.filter_nil, List.map_nil, List.sum_nil]
    split_ifs <;> omega
  · simp only [Within, Course.spent, List.filter_nil, List.map_nil, List.sum_nil, List.head?_nil,
      Option.getD_none]
    omega

/-- The clock of a course does not run backwards. -/
theorem clock_nonneg {t' : ℤ} {c : Counters} (ht : 0 ≤ t') {es : List Event}
    (h : exec (Course.step cfg) ⟨c, t', []⟩ es = some s) : 0 ≤ s.clock := by
  refine exec_invariant (I := fun s : Course => 0 ≤ s.clock) (P := fun _ _ => True) ?_ es ht
    (along_true _ _) h
  intro m e m' hm _ hs
  cases e with
  | consume now n =>
    simp only [Course.step] at hs
    split_ifs at hs with hclock
    obtain rfl := Option.some.inj hs
    simp only
    omega
  | check now now' =>
    simp only [Course.step] at hs
    split_ifs at hs with hclock
    obtain rfl := Option.some.inj hs
    simp only
    omega

/-- **The accounting of periods.** Behind any course, a check at or behind
the deadline leaves in `quotaUsed` what was consumed since that deadline,
and the next deadline in the future, exactly if the flag is set, nothing
was consumed since, and no deadline overflows. Behind a course that meets
the condition, any further check that meets it does so, and what was
consumed in a period while the check returned `false` is within the
limit, but for the response that reaches it. -/
theorem quota_period_iff (cfg : Config) (hbytes : 0 < cfg.quotaBytes)
    (hperiod : 0 < cfg.quotaPeriod) (quotaUsed : ℤ) (quotaResetAt : Option ℤ) (t t' : ℤ)
    (ht : 0 ≤ t) (htt : t ≤ t') (es : List Event) (s : Course)
    (h : exec (Course.step cfg) ⟨startProviderGroup cfg quotaUsed quotaResetAt t t', t', []⟩ es =
      some s) :
    (∀ now now' s', s.step cfg (.check now now') = some s' → s.counters.quotaResetAt ≤ now →
      ((s'.counters.quotaUsed = s.since s.counters.quotaResetAt ∧
          now < s'.counters.quotaResetAt) ↔
        s.counters.quotaExceeded = true ∧ 0 < s.counters.quotaResetAt ∧
          s.since s.counters.quotaResetAt = 0 ∧ now' + cfg.quotaPeriod < 2 ^ 63)) ∧
    (Along (Course.step cfg) (fun s e => Prompt cfg s e = true)
        ⟨startProviderGroup cfg quotaUsed quotaResetAt t t', t', []⟩ es →
      (∀ now now' s', Prompt cfg s (.check now now') = true →
        s.step cfg (.check now now') = some s' → s.counters.quotaResetAt ≤ now →
        s'.counters.quotaUsed = s.since s.counters.quotaResetAt ∧
          now < s'.counters.quotaResetAt) ∧
      ∀ d, Within cfg (s.spent d)) := by
  have hclock := clock_nonneg (by omega) h
  have hiff (now now' : ℤ) (s' : Course) (hs : s.step cfg (.check now now') = some s')
      (hdue : s.counters.quotaResetAt ≤ now) :
      (s'.counters.quotaUsed = s.since s.counters.quotaResetAt ∧
          now < s'.counters.quotaResetAt) ↔
        s.counters.quotaExceeded = true ∧ 0 < s.counters.quotaResetAt ∧
          s.since s.counters.quotaResetAt = 0 ∧ now' + cfg.quotaPeriod < 2 ^ 63 := by
    simp only [Course.step] at hs
    split_ifs at hs with hguard
    obtain rfl := Option.some.inj hs
    exact check_restarts_iff hbytes hperiod (by omega) (by omega) (by omega) hdue
  refine ⟨hiff, fun hprompt => ?_⟩
  have hperiodic : Periodic cfg s :=
    exec_invariant (fun _ _ _ hm he hstep => hm.step he hstep) es
      (Periodic.start hbytes hperiod quotaUsed quotaResetAt t t') hprompt h
  refine ⟨fun now now' s' hcheck hs hdue => ?_, hperiodic.within⟩
  have hnot : ¬now < s.counters.quotaResetAt := by omega
  simp only [Prompt, hnot, decide_false, Bool.false_or, Bool.and_eq_true,
    decide_eq_true_eq] at hcheck
  exact (hiff now now' s' hs hdue).mpr
    ⟨hcheck.1.1, hcheck.1.2, hperiodic.since_eq_zero, hcheck.2⟩

/-- A quota of a hundred bytes in a thousand nanoseconds. -/
def hundredAPeriod : Config := { quotaBytes := 100, quotaPeriod := 1000 }

/-- The quota is used up, and checked behind the deadline. -/
theorem quota_period_iff_used_up :
    ∃ s, exec (Course.step hundredAPeriod)
        ⟨startProviderGroup hundredAPeriod 0 none 0 0, 0, []⟩ [.consume 500 100] = some s ∧
      s.counters.quotaResetAt = 1000 ∧
      ∃ s', s.step hundredAPeriod (.check 1500 1500) = some s' ∧
        s'.counters.quotaUsed = s.since 1000 ∧ 1500 < s'.counters.quotaResetAt := by
  refine ⟨_, rfl, by decide, _, rfl, ?_⟩
  exact ((quota_period_iff hundredAPeriod (by decide) (by decide) 0 none 0 0 (by decide)
    (by decide) [.consume 500 100] _ rfl).1 1500 1500 _ rfl (by decide)).mpr (by decide)

/-- **A period that was not used up does not end**: the check behind its
deadline leaves its bytes in the counter and the deadline in the past.
**A check that comes late forgets** what was consumed since the
deadline. -/
theorem period_carried_over :
    (∃ s s', exec (Course.step hundredAPeriod)
        ⟨startProviderGroup hundredAPeriod 0 none 0 0, 0, []⟩ [.consume 500 90] = some s ∧
      s.step hundredAPeriod (.check 1500 1500) = some s' ∧ s.counters.quotaResetAt = 1000 ∧
      s.since 1000 = 0 ∧ s'.counters.quotaUsed = 90 ∧ s'.counters.quotaResetAt = 1000) ∧
    ∃ s s', exec (Course.step hundredAPeriod)
        ⟨startProviderGroup hundredAPeriod 0 none 0 0, 0, []⟩
        [.consume 500 90, .consume 1600 20] = some s ∧
      s.step hundredAPeriod (.check 1700 1700) = some s' ∧ s.counters.quotaResetAt = 1000 ∧
      s.since 1000 = 20 ∧ s'.counters.quotaUsed = 0 :=
  ⟨⟨_, _, rfl, rfl, by decide, by decide, by decide, by decide⟩, _, _, rfl, rfl, by decide,
    by decide, by decide⟩

end Quota

end NntpPool
