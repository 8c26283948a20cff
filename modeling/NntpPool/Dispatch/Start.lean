import NntpPool.Common.Weights
import NntpPool.Dispatch.Model.Send
/-!
# Dispatch — the weighted round-robin

The start of a call under `DispatchRoundRobin`, as `dispatchWeights`
builds its table and `sort.SearchInts` looks it up. `startIndex` looks
from the left instead, and comes to the same (`startIndex_roundRobin`).

A provider over its quota has no weight and is never picked while another
is within its own; and while the weights stay as they are, the counter
picks every provider exactly as often as its weight says
(`roundRobin_exact`).
-/

namespace NntpPool

namespace Dispatch

variable {loads : List Load} {l : Load} {k : ℕ}

/-- **`dispatchWeights`**: the table, and the sum of the weights. -/
def dispatchWeights (loads : List Load) : List ℕ × ℕ :=
  loads.foldl (fun r l => (r.1 ++ [r.2 + l.weight], r.2 + l.weight)) ([], 0)

/-- **The start under `DispatchRoundRobin`**, from what `nextIdx.Add(1)`
returns. -/
def roundRobin (loads : List Load) (nextIdx : ℕ) : ℕ :=
  let (cumWeights, totalW) := dispatchWeights loads
  if totalW = 0 then 0 else Weights.searchInts cumWeights (nextIdx % totalW + 1)

/-! ## The table -/

/-- The weights of the providers. -/
def weights (loads : List Load) : List ℕ := loads.map Load.weight

theorem cumWeights_eq_sums (t : ℕ) (loads : List Load) :
    cumWeights t loads = Weights.sums t (weights loads) := by
  induction loads generalizing t with
  | nil => rfl
  | cons l ls ih => simp [cumWeights, weights, Weights.sums, ih]

theorem dispatchWeights_eq (loads : List Load) :
    dispatchWeights loads = (Weights.sums 0 (weights loads), (weights loads).sum) := by
  -- the loop has a part of the table and the sum of it
  have hloop (loads : List Load) (cum : List ℕ) (t : ℕ) :
      loads.foldl (fun r l => (r.1 ++ [r.2 + l.weight], r.2 + l.weight)) (cum, t) =
        (cum ++ Weights.sums t (weights loads), t + (weights loads).sum) := by
    induction loads generalizing cum t with
    | nil => simp [weights, Weights.sums]
    | cons l ls ih =>
      rw [List.foldl_cons, ih]
      simp [weights, Weights.sums, Nat.add_assoc]
  simpa [dispatchWeights] using hloop loads [] 0

theorem roundRobin_eq_pick (h : 0 < (weights loads).sum) (k : ℕ) :
    roundRobin loads k = Weights.pick (weights loads) (k % (weights loads).sum) := by
  simp only [roundRobin, dispatchWeights_eq, Weights.pick]
  rw [if_neg (by omega)]

theorem roundRobin_zero (h : (weights loads).sum = 0) (k : ℕ) : roundRobin loads k = 0 := by
  simp only [roundRobin, dispatchWeights_eq]
  rw [if_pos h]

/-- **The start of a call is found by binary search.** -/
theorem startIndex_roundRobin (loads : List Load) (k : ℕ) :
    startIndex .roundRobin loads k = roundRobin loads k := by
  have hsum : (loads.map Load.weight).sum = (weights loads).sum := rfl
  simp only [startIndex, hsum, cumWeights_eq_sums]
  split_ifs with h
  · exact (roundRobin_zero h k).symm
  · have hpos : 0 < (weights loads).sum := Nat.pos_of_ne_zero h
    rw [roundRobin_eq_pick hpos, Weights.findIdx_sums (Nat.mod_lt k hpos)]

/-! ## Weights -/

/-- A provider within its quota has weight. -/
theorem Load.weight_pos (hquota : l.quotaExceeded = false) (hscore : 1 ≤ l.speedScore) :
    0 < l.weight := by
  have : 0 < (max 1 l.available).toNat := by omega
  simpa [Load.weight, hquota] using Nat.mul_pos this hscore

theorem weight_le_total (h : l ∈ loads) : l.weight ≤ (weights loads).sum :=
  List.le_sum_of_mem (List.mem_map_of_mem h)

/-- `available` is an `int32`, so fewer than `2 ^ 30` providers have
weights whose sum is an `int`. -/
theorem total_lt (hlen : loads.length < 2 ^ 30)
    (h : ∀ l ∈ loads, l.available < 2 ^ 31 ∧ l.speedScore ≤ 4) :
    (dispatchWeights loads).2 < 2 ^ 63 := by
  have hle : (weights loads).sum ≤ (weights loads).length • 2 ^ 33 := by
    refine List.sum_le_card_nsmul _ _ fun w hw => ?_
    obtain ⟨l, hl, rfl⟩ := List.mem_map.mp hw
    obtain ⟨hav, hscore⟩ := h l hl
    unfold Load.weight
    split_ifs
    · exact Nat.zero_le _
    · calc (max 1 l.available).toNat * l.speedScore ≤ 2 ^ 31 * 4 :=
            Nat.mul_le_mul (by omega) hscore
        _ = 2 ^ 33 := rfl
  rw [dispatchWeights_eq]
  simp only [weights, List.length_map, smul_eq_mul] at hle ⊢
  omega

/-- **Weighted round-robin is exact.** The start is one of the providers,
and one that has weight if any is within its quota; over as many
consecutive values of the counter as the weights come to, every provider
is picked as often as its weight says. -/
theorem roundRobin_exact (loads : List Load) (hne : loads ≠ [])
    (hscore : ∀ l ∈ loads, 1 ≤ l.speedScore ∧ l.speedScore ≤ 4) :
    (∀ k, roundRobin loads k < loads.length) ∧
      ((∃ l ∈ loads, l.quotaExceeded = false) →
        ∀ k, ∃ l, loads[roundRobin loads k]? = some l ∧ 0 < l.weight) ∧
      ∀ c i l, loads[i]? = some l →
        ((Finset.Ico c (c + (dispatchWeights loads).2)).filter
          fun k => roundRobin loads k = i).card = l.weight := by
  refine ⟨fun k => ?_, ?_, fun c i l hl => ?_⟩
  · rcases Nat.eq_zero_or_pos (weights loads).sum with hzero | hpos
    · rw [roundRobin_zero hzero]
      exact List.length_pos_of_ne_nil hne
    · rw [roundRobin_eq_pick hpos]
      simpa [weights] using Weights.pick_lt (Nat.mod_lt k hpos)
  · rintro ⟨l, hl, hquota⟩ k
    have hpos : 0 < (weights loads).sum :=
      (Load.weight_pos hquota (hscore l hl).1).trans_le (weight_le_total hl)
    obtain ⟨w, hw, hwpos⟩ := Weights.pick_pos (Nat.mod_lt k hpos)
    rw [weights, List.getElem?_map, Option.map_eq_some_iff] at hw
    obtain ⟨m, hm, rfl⟩ := hw
    rw [roundRobin_eq_pick hpos]
    exact ⟨m, hm, hwpos⟩
  · have hw : (weights loads)[i]? = some l.weight := by
      rw [weights, List.getElem?_map, hl, Option.map_some]
    rw [dispatchWeights_eq]
    rcases Nat.eq_zero_or_pos (weights loads).sum with hzero | hpos
    · -- no weight at all, and no value of the counter
      have hle := weight_le_total (List.mem_of_getElem? hl)
      simp only [hzero, Nat.add_zero, Finset.Ico_self, Finset.filter_empty, Finset.card_empty]
      omega
    · simp only [roundRobin_eq_pick hpos]
      exact Weights.card_pick_mod hw c

/-- Two free connections, a provider over its quota, and one that is
saturated but three times as fast. -/
def threeLoads : List Load := [⟨2, false, 1⟩, ⟨7, true, 4⟩, ⟨-1, false, 3⟩]

theorem roundRobin_exact_three :
    (∀ k, roundRobin threeLoads k < 3) ∧
      (∀ k, ∃ l, threeLoads[roundRobin threeLoads k]? = some l ∧ 0 < l.weight) ∧
      ((Finset.Ico 10 (10 + (dispatchWeights threeLoads).2)).filter
        fun k => roundRobin threeLoads k = 2).card = 3 := by
  obtain ⟨hlt, hpos, hcard⟩ := roundRobin_exact threeLoads (by decide)
    (by simp [threeLoads])
  exact ⟨hlt, hpos ⟨⟨2, false, 1⟩, by simp [threeLoads], rfl⟩, hcard 10 2 ⟨-1, false, 3⟩ rfl⟩

end Dispatch

end NntpPool
