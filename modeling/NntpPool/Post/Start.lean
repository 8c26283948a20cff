import NntpPool.Dispatch.Start
import NntpPool.Post.Model.Post
/-!
# Post — the provider to start with

`doSendPost` has a weighted round-robin of its own. It sums the weights
up as `dispatchWeights` does, but into an array with room for eight, and
an index behind its end is a panic. Up to eight main providers it starts
where an ordinary request would (`postIndex_eq_iff`).
-/

namespace NntpPool

namespace Post

open Dispatch (Load roundRobin weights)

variable {available : List ℤ} {k : ℕ}

/-! ## The array -/

/-- **The loop over the main providers**, at the one with index `i`. It
has no next state where it writes behind the array. -/
def fillWeights : ℕ → ℕ → Vector ℕ 8 → List ℤ → Option (Vector ℕ 8 × ℕ)
  | _, totalW, cumWeights, [] => some (cumWeights, totalW)
  | i, totalW, cumWeights, a :: as =>
    let avail := (max 1 a).toNat
    let totalW := totalW + avail
    if h : i < 8 then fillWeights (i + 1) totalW (cumWeights.set i totalW) as else none

/-- **The start under `DispatchRoundRobin`**; a slice that ends behind the
array is a panic, too. -/
def postIndex (available : List ℤ) (nextIdx : ℕ) : Option ℕ :=
  (fillWeights 0 0 (Vector.replicate 8 0) available).bind fun (cumWeights, totalW) =>
    if available.length ≤ 8 then
      some (Weights.searchInts (cumWeights.toList.take available.length) (nextIdx % totalW + 1))
    else none

/-- What an ordinary request would make of the same free connections: all
providers are within their quota, and none is faster. -/
def capacity (available : List ℤ) : List Load := available.map fun a => ⟨a, false, 1⟩

theorem weights_capacity (available : List ℤ) :
    weights (capacity available) = available.map fun a => (max 1 a).toNat := by
  simp [weights, capacity, Load.weight]

theorem postWeights_eq_sums (t : ℕ) (available : List ℤ) :
    postWeights t available = Weights.sums t (weights (capacity available)) := by
  rw [weights_capacity]
  induction available generalizing t with
  | nil => rfl
  | cons a as ih => simp [postWeights, Weights.sums, ih]

/-- The loop leaves what it does not come to. -/
theorem fillWeights_eq (available : List ℤ) : ∀ (i totalW : ℕ) (arr : Vector ℕ 8),
    i + available.length ≤ 8 → ∃ arr',
      fillWeights i totalW arr available =
        some (arr', totalW + (weights (capacity available)).sum) ∧
      arr'.toList.take (i + available.length) =
        arr.toList.take i ++ postWeights totalW available := by
  induction available with
  | nil =>
    intro i totalW arr _
    exact ⟨arr, by simp [fillWeights, capacity, weights], by simp [postWeights]⟩
  | cons a as ih =>
    intro i totalW arr hlen
    simp only [List.length_cons] at hlen
    have hi : i < 8 := by omega
    obtain ⟨arr', hfill, htake⟩ :=
      ih (i + 1) (totalW + (max 1 a).toNat) (arr.set i (totalW + (max 1 a).toNat)) (by omega)
    refine ⟨arr', ?_, ?_⟩
    · simp only [fillWeights, hi, dite_true, hfill, weights_capacity, List.map_cons, List.sum_cons,
        Nat.add_assoc]
    · have hset : (arr.set i (totalW + (max 1 a).toNat)).toList.take (i + 1) =
          arr.toList.take i ++ [totalW + (max 1 a).toNat] := by
        rw [Vector.toList_set, List.take_add_one, List.take_set_of_le (le_refl i)]
        simp [hi]
      rw [List.length_cons, ← Nat.add_assoc, Nat.add_right_comm, htake, hset]
      simp [postWeights]

/-- A ninth provider is too many. -/
theorem fillWeights_eq_none (available : List ℤ) : ∀ (i totalW : ℕ) (arr : Vector ℕ 8),
    i ≤ 8 → 8 < i + available.length → fillWeights i totalW arr available = none := by
  induction available with
  | nil =>
    intro i totalW arr hi hlen
    simp only [List.length_nil] at hlen
    omega
  | cons a as ih =>
    intro i totalW arr hi hlen
    simp only [List.length_cons] at hlen
    simp only [fillWeights]
    split_ifs with hlt
    · exact ih _ _ _ (by omega) (by omega)
    · rfl

theorem postIndex_eq_none (h : 8 < available.length) : postIndex available k = none := by
  rw [postIndex, fillWeights_eq_none available 0 0 _ (by omega) (by omega)]
  rfl

/-- A provider always has weight here. -/
theorem total_capacity_pos (hne : available ≠ []) : 0 < (weights (capacity available)).sum := by
  obtain ⟨a, as, rfl⟩ := List.exists_cons_of_ne_nil hne
  rw [weights_capacity, List.map_cons, List.sum_cons]
  omega

theorem postIndex_eq_some (hne : available ≠ []) (h : available.length ≤ 8) :
    postIndex available k = some (roundRobin (capacity available) k) := by
  obtain ⟨arr, hfill, htake⟩ :=
    fillWeights_eq available 0 0 (Vector.replicate 8 0) (by omega)
  simp only [Nat.zero_add, List.take_zero, List.nil_append] at hfill htake
  simp only [postIndex, hfill, Option.bind_some, if_pos h, htake, postWeights_eq_sums]
  rw [Dispatch.roundRobin_eq_pick (total_capacity_pos hne), Weights.pick]

/-- **The start of a POST is that of an ordinary request** with the same
free connections, and one of the providers, as long as the array has room
for them. -/
theorem postIndex_eq_iff (available : List ℤ) (hne : available ≠ []) (k : ℕ) :
    (∃ i, postIndex available k = some i ∧ i < available.length ∧
        i = roundRobin (capacity available) k) ↔ available.length ≤ 8 := by
  constructor
  · rintro ⟨i, hi, -⟩
    by_contra hlen
    rw [postIndex_eq_none (Nat.lt_of_not_le hlen)] at hi
    cases hi
  · intro hlen
    refine ⟨_, postIndex_eq_some hne hlen, ?_, rfl⟩
    have hpos := total_capacity_pos hne
    rw [Dispatch.roundRobin_eq_pick hpos]
    simpa [weights, capacity] using Weights.pick_lt (Nat.mod_lt k hpos)

theorem postIndex_eq_iff_four :
    (∃ i, postIndex [2, -1, 0, 5] 11 = some i ∧ i < 4 ∧
      i = roundRobin (capacity [2, -1, 0, 5]) 11) ↔ 4 ≤ 8 :=
  postIndex_eq_iff [2, -1, 0, 5] (by decide) 11

/-- **Nine main providers**: the first POST panics, where an ordinary
request starts with the second. -/
theorem ninth_provider_panics :
    postIndex (List.replicate 9 1) 1 = none ∧
      roundRobin (capacity (List.replicate 9 1)) 1 = 1 := by
  decide

/-- **The model of a call starts there.** -/
theorem postStart_roundRobin (S : Setup) (hne : S.available ≠ [])
    (hS : S.strategy = .roundRobin) : postStart S = postIndex S.available S.nextIdx := by
  simp only [postStart, hS]
  by_cases hlen : 8 < S.n
  · rw [if_pos hlen, postIndex_eq_none hlen]
  · have hpos := total_capacity_pos hne
    have hws : weights (capacity S.available) ≠ [] := by
      simpa [weights, capacity] using hne
    rw [if_neg hlen, postIndex_eq_some hne (Nat.le_of_not_lt hlen), postWeights_eq_sums,
      Weights.getLast?_sums hws, Option.getD_some, Weights.findIdx_sums (Nat.mod_lt _ hpos),
      Dispatch.roundRobin_eq_pick hpos]

end Post

end NntpPool
