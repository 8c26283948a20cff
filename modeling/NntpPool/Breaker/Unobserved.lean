import NntpPool.Breaker.Model.Breaker
import Mathlib.Tactic.SplitIfs
/-!
# Breaker — reading the statistics

`snapshot` prunes the failures of a closed breaker, and so changes it. But
every operation that counts failures prunes them first, at a later time.
Two breakers that differ only in failures which any such pruning drops are
`Alike`; a snapshot leads from a breaker to one alike, and whatever is
done to two that are alike has the same result.
-/

namespace NntpPool

namespace Breaker

/-! ## Runs with snapshots in between -/

/-- **An operation, or a snapshot in between**, at the time given. -/
def watched : Clocked → Op ⊕ ℤ → Option Clocked :=
  amid Clocked.step fun t now => t.step (.snapshot now)

/-- The answers of the operations. -/
def watchedAnswers : Clocked → List (Op ⊕ ℤ) → List Answer :=
  logged watched (amidLog fun t op => [t.answer op])

/-- The run without the snapshots in between. -/
def unwatched (xs : List (Op ⊕ ℤ)) : List Op := xs.filterMap Sum.getLeft?

/-! ## Failures -/

/-- The failures that are still in the window. -/
def recent (now : ℤ) (failures : List ℤ) : List ℤ :=
  failures.dropWhile fun x => x < now - failureWindow

/-- Pruning again, later. -/
theorem recent_recent {now later : ℤ} (h : now ≤ later) (failures : List ℤ) :
    recent later (recent now failures) = recent later failures := by
  induction failures with
  | nil => rfl
  | cons x xs ih =>
    unfold recent at ih ⊢
    by_cases hx : x < now - failureWindow
    · have hlater : x < later - failureWindow := by omega
      rw [List.dropWhile_cons_of_pos (by simpa using hx), ih,
        List.dropWhile_cons_of_pos (by simpa using hlater)]
    · rw [List.dropWhile_cons_of_neg (by simpa using hx)]

/-- The breaker with other failures. -/
def ProviderCircuitBreaker.withFailures (b : ProviderCircuitBreaker) (failures : List ℤ) :
    ProviderCircuitBreaker :=
  { b with failures := failures }

/-- **The breakers differ in failures alone**, and only while they are
closed, by some that are out of the window from that time on. -/
structure Alike (clock : ℤ) (b c : ProviderCircuitBreaker) : Prop where
  rest : b = c.withFailures b.failures
  failures : ∀ now, clock ≤ now → recent now b.failures = recent now c.failures
  unclosed : c.state ≠ .closed → b.failures = c.failures

variable {clock now : ℤ} {b c : ProviderCircuitBreaker}

theorem Alike.refl (clock : ℤ) (b : ProviderCircuitBreaker) : Alike clock b b :=
  ⟨rfl, fun _ _ => rfl, fun _ => rfl⟩

theorem Alike.mono (h : Alike clock b c) (hle : clock ≤ now) : Alike now b c :=
  ⟨h.rest, fun later hl => h.failures later (by omega), h.unclosed⟩

theorem Alike.state_eq (h : Alike clock b c) : b.state = c.state := by
  rw [h.rest]
  rfl

theorem Alike.enabled_eq (h : Alike clock b c) : b.enabled = c.enabled := by
  rw [h.rest]
  rfl

/-- An open breaker and one alike are the same. -/
theorem Alike.eq_of_unclosed (h : Alike clock b c) (hs : c.state ≠ .closed) : b = c := by
  rw [h.rest, h.unclosed hs]
  rfl

/-! ## Operations -/

/-- `acquire` does not look at the failures. -/
theorem acquire_withFailures (c : ProviderCircuitBreaker) (failures : List ℤ)
    (providerID : String) (now : ℤ) :
    (c.withFailures failures).acquire providerID now =
      ((c.acquire providerID now).1.withFailures failures, (c.acquire providerID now).2) := by
  unfold ProviderCircuitBreaker.acquire
  dsimp +instances only [ProviderCircuitBreaker.withFailures, ProviderCircuitBreaker.cooling]
  split_ifs <;> rfl

theorem acquire_keeps (c : ProviderCircuitBreaker) (providerID : String) (now : ℤ) :
    (c.acquire providerID now).1.failures = c.failures ∧
      (c.acquire providerID now).1.state = c.state := by
  unfold ProviderCircuitBreaker.acquire
  dsimp only
  split_ifs <;> exact ⟨rfl, rfl⟩

theorem Alike.acquire (h : Alike clock b c) (providerID : String) (now : ℤ) :
    Alike clock (b.acquire providerID now).1 (c.acquire providerID now).1 ∧
      (b.acquire providerID now).2 = (c.acquire providerID now).2 := by
  have hacquire := acquire_withFailures c b.failures providerID now
  rw [← h.rest] at hacquire
  obtain ⟨hkeep, hstate⟩ := acquire_keeps c providerID now
  rw [hacquire]
  refine ⟨⟨rfl, fun later hl => ?_, fun hne => ?_⟩, rfl⟩
  · rw [hkeep]
    exact h.failures later hl
  · rw [hkeep]
    exact h.unclosed (hstate ▸ hne)

/-- What an operation makes of the breaker with other failures, and of the
breaker: the same, or the same but for failures it does not look at. -/
def Follows (c : ProviderCircuitBreaker) (failures : List ℤ) (x y : ProviderCircuitBreaker) :
    Prop :=
  x = y ∨ x = y.withFailures failures ∧ y.failures = c.failures ∧ y.state = c.state

/-- Both take the same branch. -/
theorem Follows.ite {failures : List ℤ} {p : Prop} [Decidable p]
    {x y x' y' : ProviderCircuitBreaker} (hthen : p → Follows c failures x x')
    (helse : ¬p → Follows c failures y y') :
    Follows c failures (if p then x else y) (if p then x' else y') := by
  split_ifs with hp
  · exact hthen hp
  · exact helse hp

/-- **`complete` prunes the failures, or drops them, or does not look at
them.** -/
theorem complete_withFailures {failures : List ℤ} (h : recent now failures = recent now c.failures)
    (lease : Lease) (completion : Completion) (later : ℤ) :
    Follows c failures ((c.withFailures failures).complete lease completion now later)
      (c.complete lease completion now later) := by
  have hkept : Follows c failures (c.withFailures failures) c := .inr ⟨rfl, rfl, rfl⟩
  have hprune : (c.withFailures failures).pruneFailuresLocked now = c.pruneFailuresLocked now :=
    congrArg c.withFailures h
  unfold ProviderCircuitBreaker.complete
  refine .ite (fun _ => hkept) fun _ => ?_
  refine .ite (fun _ => .inl rfl) fun _ => ?_
  refine .ite (fun _ => hkept) fun _ => ?_
  refine .ite (fun _ => ?_) fun _ => ?_
  · -- a probe is over, and a breaker that opens again drops its failures
    refine .ite (fun _ => hkept) fun _ => ?_
    refine .ite (fun _ => .inl ?_) fun _ => .inr ⟨rfl, rfl, rfl⟩
    dsimp +instances only [ProviderCircuitBreaker.withFailures]
    split_ifs <;> rfl
  · refine .ite (fun _ => hkept) fun _ => ?_
    rw [hprune]
    exact .inl rfl

theorem Alike.complete (h : Alike clock b c) (hle : clock ≤ now) (lease : Lease)
    (completion : Completion) (later : ℤ) :
    Alike clock (b.complete lease completion now later)
      (c.complete lease completion now later) := by
  have hcomplete := complete_withFailures (h.failures now hle) lease completion later
  rw [← h.rest] at hcomplete
  rcases hcomplete with heq | ⟨heq, hkeep, hstate⟩
  · rw [heq]
    exact .refl _ _
  · rw [heq]
    refine ⟨rfl, fun point hl => ?_, fun hne => ?_⟩
    · rw [hkeep]
      exact h.failures point hl
    · rw [hkeep]
      exact h.unclosed (hstate ▸ hne)

/-- **A snapshot in between.** -/
theorem Alike.snapshot_left (h : Alike clock b c) (hle : clock ≤ now) :
    Alike now (b.snapshot now) c := by
  unfold ProviderCircuitBreaker.snapshot
  split_ifs with hp
  · refine ⟨?_, fun later hl => ?_, fun hne => absurd (h.state_eq ▸ hp.2) hne⟩
    · rw [ProviderCircuitBreaker.pruneFailuresLocked, h.rest]
      rfl
    · exact (recent_recent hl _).trans (h.failures later (by omega))
  · exact h.mono hle

/-- A snapshot of both. -/
theorem Alike.snapshot (h : Alike clock b c) (hle : clock ≤ now) :
    Alike now (b.snapshot now) (c.snapshot now) := by
  by_cases hp : c.enabled ∧ c.state = .closed
  · have hb : b.snapshot now = b.pruneFailuresLocked now :=
      if_pos (by rwa [h.enabled_eq, h.state_eq])
    have hc : c.snapshot now = c.pruneFailuresLocked now := if_pos hp
    have heq : b.pruneFailuresLocked now = c.pruneFailuresLocked now := by
      rw [h.rest]
      exact congrArg c.withFailures (h.failures now hle)
    rw [hb, hc, heq]
    exact .refl _ _
  · have hc : c.snapshot now = c := if_neg hp
    rw [hc]
    exact h.snapshot_left hle

/-- Two that are alike have the same statistics. -/
theorem Alike.stats_eq (h : Alike clock b c) (hle : clock ≤ now) : b.stats now = c.stats now := by
  have hlength : c.enabled = true →
      (b.snapshot now).failures.length = (c.snapshot now).failures.length := by
    intro he
    by_cases hs : c.state = .closed
    · have hb : b.snapshot now = b.pruneFailuresLocked now :=
        if_pos ⟨h.enabled_eq.trans he, h.state_eq.trans hs⟩
      have hc : c.snapshot now = c.pruneFailuresLocked now := if_pos ⟨he, hs⟩
      rw [hb, hc]
      exact congrArg List.length (h.failures now hle)
    · rw [h.eq_of_unclosed hs]
  unfold ProviderCircuitBreaker.stats
  by_cases he : c.enabled = false
  · rw [if_pos he, if_pos (h.enabled_eq.trans he)]
  · rw [if_neg he, if_neg (by rwa [h.enabled_eq]), hlength (by simpa using he), h.rest]
    rfl

/-! ## Runs -/

variable {t u t' : Clocked}

/-- The first breaker may have been used later. -/
def Clocked.Alike (t u : Clocked) : Prop :=
  u.clock ≤ t.clock ∧ Breaker.Alike t.clock t.breaker u.breaker

/-- **An operation on two that are alike** shows the same, and leaves them
alike. -/
theorem Clocked.Alike.step (h : Clocked.Alike t u) {op : Op} (hs : t.step op = some t') :
    ∃ u', u.step op = some u' ∧ Clocked.Alike t' u' ∧ [t.answer op] = [u.answer op] := by
  obtain ⟨hclock, halike⟩ := h
  cases op with
  | acquire providerID now =>
    rw [Clocked.step] at hs
    split_ifs at hs with hlt
    obtain rfl := Option.some.inj hs
    obtain ⟨hafter, hresult⟩ := halike.acquire providerID now
    refine ⟨_, if_neg (by omega), ⟨Int.le_refl _, hafter.mono (Int.not_lt.mp hlt)⟩, ?_⟩
    rw [Clocked.answer, hresult, Clocked.answer]
  | complete lease completion now later =>
    rw [Clocked.step] at hs
    split_ifs at hs with hlt
    obtain rfl := Option.some.inj hs
    have hafter := halike.complete (by omega : t.clock ≤ now) lease completion later
    refine ⟨_, if_neg (by omega), ⟨Int.le_refl _, hafter.mono (by dsimp only; omega)⟩, ?_⟩
    rw [Clocked.answer, hafter.rest]
    rfl
  | snapshot now =>
    rw [Clocked.step] at hs
    split_ifs at hs with hlt
    obtain rfl := Option.some.inj hs
    have hle : t.clock ≤ now := Int.not_lt.mp hlt
    refine ⟨_, if_neg (by omega), ⟨Int.le_refl _, halike.snapshot hle⟩, ?_⟩
    rw [Clocked.answer, halike.stats_eq hle, Clocked.answer]

theorem Clocked.Alike.snapshot (h : Clocked.Alike t u)
    (hs : t.step (.snapshot now) = some t') : Clocked.Alike t' u := by
  rw [Clocked.step] at hs
  split_ifs at hs with hlt
  obtain rfl := Option.some.inj hs
  have hle : t.clock ≤ now := Int.not_lt.mp hlt
  exact ⟨Int.le_trans h.1 hle, h.2.snapshot_left hle⟩

/-- **Reading the statistics has no effect**: a run with snapshots in
between shows what the run without them shows. -/
theorem snapshots_unobserved {enabled : Bool} {xs : List (Op ⊕ ℤ)}
    (h : exec watched (Clocked.start enabled clock) xs = some t) :
    ∃ u, exec Clocked.step (Clocked.start enabled clock) (unwatched xs) = some u ∧
      watchedAnswers (Clocked.start enabled clock) xs =
        answers (Clocked.start enabled clock) (unwatched xs) := by
  have hstart : Clocked.Alike (Clocked.start enabled clock) (Clocked.start enabled clock) :=
    ⟨Int.le_refl _, .refl _ _⟩
  obtain ⟨u, hrun, -, hanswers⟩ :=
    exec_amid (f := fun t op => [t.answer op]) (fun _ _ _ _ hR hs => hR.step hs)
      (fun _ _ _ _ hR hs => hR.snapshot hs) xs hstart h
  exact ⟨u, hrun, hanswers⟩

/-- Three failures, the first of them out of the window before the others,
with a snapshot behind each, and a snapshot at the end. -/
def watchedRun : List (Op ⊕ ℤ) :=
  let lease : Lease := ⟨some 0, 0, true, false⟩
  [.inl (.acquire "p" 0), .inl (.complete lease .failure 0 0), .inr (31 * second),
    .inl (.complete lease .failure (32 * second) (32 * second)), .inr (33 * second),
    .inl (.complete lease .failure (34 * second) (34 * second)), .inr (35 * second),
    .inl (.acquire "p" (36 * second)), .inl (.snapshot (37 * second))]

theorem snapshots_unobserved_pruned :
    (exec watched (Clocked.start true 0) watchedRun).isSome = true ∧
      ∃ u, exec Clocked.step (Clocked.start true 0) (unwatched watchedRun) = some u ∧
        watchedAnswers (Clocked.start true 0) watchedRun =
          answers (Clocked.start true 0) (unwatched watchedRun) := by
  have hrun : (exec watched (Clocked.start true 0) watchedRun).isSome = true := by decide
  obtain ⟨t, ht⟩ := Option.isSome_iff_exists.mp hrun
  exact ⟨hrun, snapshots_unobserved ht⟩

end Breaker

end NntpPool
