import NntpPool.Quota.Flag
/-!
# Quota — reconnection

A provider that answers 502 is removed, and a new group is started for it
later from the same `Provider`, whose `QuotaUsed` is what had been
consumed at startup. What the removed group has consumed is not in it.
So the count survives a reconnection only if it had not grown beyond its
first value (`reconnection_kept_iff`).
-/

namespace NntpPool

namespace Quota

variable {p : Provider} {g : Group} {s s' : Life} {l : Occurrence}

/-- A deadline of the removed group's period passes before the new group
is added. -/
def Reconnection.Passed (p : Provider) (r : Reconnection) : Prop :=
  0 < p.config.quotaPeriod ∧ r.removedAt < r.removed.counters.quotaResetAt ∧
    r.removed.counters.quotaResetAt ≤ r.addedAt

/-- **The reconnection keeps what was consumed**, unless such a deadline
passes. -/
def Reconnection.Kept (p : Provider) (r : Reconnection) : Prop :=
  r.removed.counters.quotaUsed ≤ r.added.quotaUsed ∨ r.Passed p

/-- What a group counts from. -/
def Group.base (p : Provider) (g : Group) : ℤ := if g.cleared then 0 else max p.quotaUsed 0

/-- What was accounted to the removed group does not take its count above
`QuotaUsed`: nothing was, or its counter was cleared before. -/
def Reconnection.Unspent (p : Provider) (r : Reconnection) : Prop :=
  int64 (r.removed.base p + r.removed.since) ≤ max p.quotaUsed 0

theorem int64_int64_add (x y : ℤ) : int64 (int64 x + y) = int64 (x + y) := by
  unfold int64
  exact Int.bmod_add_bmod ..

/-- The counter of a new group. -/
theorem start_quotaUsed (hbytes : 0 < p.config.quotaBytes) (now now' : ℤ) :
    (p.start now now').quotaUsed = max p.quotaUsed 0 := by
  simp only [Provider.start, startProviderGroup, if_pos hbytes]
  split_ifs <;> omega

/-- **The counter of a group counts what was accounted to it.** -/
def Group.Counts (p : Provider) (g : Group) : Prop :=
  g.counters.quotaUsed = int64 (g.base p + g.since)

theorem Group.counts_start (hbytes : 0 < p.config.quotaBytes) (now now' : ℤ) :
    Group.Counts p { counters := p.start now now' } := by
  have hlt := p.quotaUsed_lt
  have hfits : int64 (max p.quotaUsed 0) = max p.quotaUsed 0 := int64_of_lt (by omega) (by omega)
  simp [Group.Counts, Group.base, start_quotaUsed hbytes, hfits]

/-- A counter that was cleared. -/
theorem Group.counts_cleared {c : Counters} (h : c.quotaUsed = 0) :
    Group.Counts p ⟨c, true, 0⟩ := by
  simp [Group.Counts, Group.base, h, int64]

theorem Group.Counts.consume (hbytes : 0 < p.config.quotaBytes) (h : g.Counts p) (n : ℕ) :
    (g.consume p n).Counts p := by
  have hused : (g.consume p n).counters.quotaUsed = int64 (g.counters.quotaUsed + n) := by
    simp only [Group.consume, account, if_pos hbytes]
  have hsum : (g.consume p n).base p + ((g.consume p n).since : ℤ) = g.base p + g.since + n := by
    change g.base p + ((g.since + n : ℕ) : ℤ) = _
    omega
  rw [Group.Counts, hused, h, int64_int64_add, hsum]

theorem Group.Counts.check (h : g.Counts p) (now now' : ℤ) : (g.check p now now').Counts p := by
  unfold Group.check
  extract_lets c
  split_ifs with hsame
  · exact h
  · -- only the start of a period changes the counters
    refine Group.counts_cleared ?_
    simp only [c, isQuotaExceeded] at hsame ⊢
    split_ifs at hsame ⊢ <;> first | rfl | exact absurd rfl hsame

/-- **Every group of a provider counts what was accounted to it**, and
every reconnection starts from `QuotaUsed`. -/
structure Life.Sound (p : Provider) (s : Life) : Prop where
  group : ∀ g, s.group = some g → g.Counts p
  removed : ∀ r, s.removed = some r → r.1.Counts p
  log : ∀ r ∈ s.log, r.removed.Counts p ∧ r.added.quotaUsed = max p.quotaUsed 0

theorem Life.sound_begin (hbytes : 0 < p.config.quotaBytes) (now now' : ℤ) :
    Life.Sound p (.begin p now now') where
  group := by
    rintro g ⟨⟩
    exact Group.counts_start hbytes now now'
  removed := nofun
  log := nofun

/-- The group changes, and nothing else but the clock. -/
theorem Life.Sound.regroup (h : Life.Sound p s) (hg : g.Counts p) (now : ℤ) :
    Life.Sound p { s with clock := now, group := some g } where
  group := by
    rintro g' ⟨⟩
    exact hg
  removed := h.removed
  log := h.log

/-- **One occurrence.** -/
theorem Life.Sound.step (hbytes : 0 < p.config.quotaBytes) (h : Life.Sound p s)
    (hs : s.step p l = some s') : Life.Sound p s' := by
  cases l with
  | consume now n =>
    simp only [Life.step, Option.ite_none_right_eq_some, Option.map_eq_some_iff] at hs
    obtain ⟨-, g, hg, rfl⟩ := hs
    exact h.regroup ((h.group g hg).consume hbytes n) now
  | check now now' =>
    simp only [Life.step, Option.ite_none_right_eq_some, Option.map_eq_some_iff] at hs
    obtain ⟨-, g, hg, rfl⟩ := hs
    exact h.regroup ((h.group g hg).check now now') now'
  | reset now =>
    simp only [Life.step, Option.ite_none_right_eq_some, Option.map_eq_some_iff] at hs
    obtain ⟨-, g, hg, rfl⟩ := hs
    exact h.regroup (Group.counts_cleared rfl) now
  | unavailable now =>
    simp only [Life.step, Option.ite_none_right_eq_some, Option.map_eq_some_iff] at hs
    obtain ⟨-, g, hg, rfl⟩ := hs
    refine ⟨nofun, fun r hr => ?_, h.log⟩
    simp only [Option.ite_none_right_eq_some, Option.some.injEq] at hr
    obtain ⟨-, rfl⟩ := hr
    exact h.group g hg
  | reconnect now now' =>
    simp only [Life.step, Option.bind_eq_some_iff, Option.ite_none_right_eq_some,
      Option.some.injEq] at hs
    obtain ⟨r, hr, -, rfl⟩ := hs
    refine ⟨?_, nofun, List.forall_mem_cons.mpr ⟨⟨?_, start_quotaUsed hbytes _ _⟩, h.log⟩⟩
    case refine_2 => exact h.removed r hr
    rintro g ⟨⟩
    exact Group.counts_start hbytes now now'

/-- **When a reconnection keeps the count.** In every run of a provider
with a quota, every reconnection keeps what was consumed exactly if it
had not grown beyond `QuotaUsed`, or a deadline passes. -/
theorem reconnection_kept_iff (hbytes : 0 < p.config.quotaBytes) {now now' : ℤ}
    {ls : List Occurrence} (hrun : exec (Life.step p) (.begin p now now') ls = some s)
    {r : Reconnection} (hr : r ∈ s.log) : r.Kept p ↔ r.Unspent p ∨ r.Passed p := by
  have hsound : Life.Sound p s :=
    exec_invariant (fun _ _ _ h _ hs => Life.Sound.step hbytes h hs) ls
      (Life.sound_begin hbytes now now') (along_true _ ls) hrun
  obtain ⟨hcounts, hadded⟩ := hsound.log r hr
  rw [Reconnection.Kept, Reconnection.Unspent, hadded, hcounts]

/-- What that takes, for a count that fits an `int64`: a counter that was
not cleared has to stand still. -/
theorem Reconnection.unspent_iff {r : Reconnection}
    (hfits : max p.quotaUsed 0 + r.removed.since < 2 ^ 63) :
    r.Unspent p ↔ r.removed.since = 0 ∨
      (r.removed.cleared = true ∧ r.removed.since ≤ max p.quotaUsed 0) := by
  unfold Reconnection.Unspent Group.base
  cases r.removed.cleared with
  | false =>
    rw [if_neg Bool.false_ne_true, int64_of_lt (by omega) hfits]
    constructor
    · intro h
      exact .inl (by omega)
    · rintro (h | h)
      · omega
      · exact absurd h.1 Bool.false_ne_true
  | true =>
    rw [if_pos rfl, int64_of_lt (by omega) (by omega)]
    constructor
    · intro h
      exact .inr ⟨rfl, by omega⟩
    · rintro (h | h) <;> omega

/-- A provider with a quota of a hundred bytes, to be added again. -/
def cappedProvider : Provider where
  config := { quotaBytes := 100, quotaPeriod_lt := zero_lt_int64 }
  reconnectDelay := 5
  quotaUsed_lt := zero_lt_int64

/-- The reconnection of such a provider that has consumed nothing. -/
def idleReconnection : Reconnection := ⟨{ counters := {} }, 2, {}, 7⟩

/-- It keeps the count. -/
theorem reconnection_kept_iff_idle :
    let s : Life := ⟨7, some { counters := {} }, none, [idleReconnection]⟩
    0 < cappedProvider.config.quotaBytes ∧
      exec (Life.step cappedProvider) (.begin cappedProvider 0 0)
        [.unavailable 2, .reconnect 7 7] = some s ∧
      idleReconnection.Kept cappedProvider := by
  intro s
  have hbytes : 0 < cappedProvider.config.quotaBytes := by decide
  have hrun : exec (Life.step cappedProvider) (.begin cappedProvider 0 0)
      [.unavailable 2, .reconnect 7 7] = some s := by decide
  have hunspent : idleReconnection.Unspent cappedProvider :=
    (Reconnection.unspent_iff (by decide)).mpr (.inl rfl)
  exact ⟨hbytes, hrun, (reconnection_kept_iff hbytes hrun (List.mem_singleton_self _)).mpr
    (.inl hunspent)⟩

/-- **A fresh allowance**: ninety of a hundred bytes are consumed, and
after a 502 the provider starts from zero. -/
theorem reconnection_forgets :
    ∃ s r, exec (Life.step cappedProvider) (.begin cappedProvider 0 0)
        [.consume 1 90, .unavailable 2, .reconnect 7 7] = some s ∧ r ∈ s.log ∧
      r.removed.counters.quotaUsed = 90 ∧ r.added.quotaUsed = 0 ∧ ¬r.Kept cappedProvider := by
  refine ⟨_, _, rfl, List.mem_singleton_self _, rfl, rfl, ?_⟩
  rintro (h | h)
  · exact absurd h (by decide)
  · exact absurd h.1 (by decide)

end Quota

end NntpPool
