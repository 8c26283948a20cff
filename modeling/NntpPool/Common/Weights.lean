import Mathlib.Data.Nat.Periodic
/-!
# Weights

A choice among places by their weights: the weights are summed up from
the left, and a number below the sum of all picks the first place whose
sum is above it. The place is found by binary search (`search`), so a
table with repeated entries, where weights are zero, must be searched for
the first (`pick_eq_iff`). A counter that is reduced by the sum of the
weights picks every place as often as its weight says
(`card_pick_mod`).
-/

namespace NntpPool

namespace Weights

/-! ## Binary search -/

section Search

variable (p : ℕ → Bool)

/-- Binary search between `lo` and `hi`, for as many turns as given. -/
def bisect : ℕ → ℕ → ℕ → ℕ
  | 0, lo, _ => lo
  | turns + 1, lo, hi =>
    if lo < hi then
      let mid := (lo + hi) / 2
      if p mid then bisect turns lo mid else bisect turns (mid + 1) hi
    else lo

/-- **The first of `n` places with a property**, or `n`. -/
def search (n : ℕ) : ℕ := bisect p n 0 n

variable {p} {n m : ℕ}

theorem bisect_eq (hbelow : ∀ a < m, p a = false) (habove : ∀ a, m ≤ a → a < n → p a = true)
    (turns : ℕ) : ∀ lo hi, lo ≤ m → m ≤ hi → hi ≤ n → hi - lo ≤ turns →
      bisect p turns lo hi = m := by
  induction turns with
  | zero =>
    intro lo hi hlo hhi _ hturns
    simp only [bisect]
    omega
  | succ turns ih =>
    intro lo hi hlo hhi hn hturns
    simp only [bisect]
    split_ifs with hlt hp
    · -- a place with the property is not before the first
      have hmid : m ≤ (lo + hi) / 2 := by
        by_contra hgt
        simp [hbelow _ (Nat.lt_of_not_le hgt)] at hp
      exact ih _ _ hlo hmid (by omega) (by omega)
    · have hmid : (lo + hi) / 2 < m := by
        by_contra hge
        exact hp (habove _ (Nat.le_of_not_lt hge) (by omega))
      exact ih _ _ hmid hhi hn (by omega)
    · omega

/-- **Where all places from `m` on have the property and none before has
it, the search finds `m`.** -/
theorem search_eq (hm : m ≤ n) (hbelow : ∀ a < m, p a = false)
    (habove : ∀ a, m ≤ a → a < n → p a = true) : search p n = m :=
  bisect_eq hbelow habove n 0 n (Nat.zero_le m) hm le_rfl (Nat.sub_le n 0)

end Search

/-- The first place of a sorted list with at least `x`. -/
def searchInts (xs : List ℕ) (x : ℕ) : ℕ :=
  search (fun i => xs[i]?.any fun t => decide (x ≤ t)) xs.length

/-! ## Sums -/

/-- The sums from the left, on top of `t`. -/
def sums : ℕ → List ℕ → List ℕ
  | _, [] => []
  | t, w :: ws => (t + w) :: sums (t + w) ws

/-- The weight before a place. -/
def before (ws : List ℕ) (i : ℕ) : ℕ := (ws.take i).sum

variable {ws : List ℕ} {i j k w : ℕ}

@[simp] theorem length_sums (t : ℕ) (ws : List ℕ) : (sums t ws).length = ws.length := by
  induction ws generalizing t with
  | nil => rfl
  | cons w ws ih => simp [sums, ih]

theorem getElem?_sums (t : ℕ) (h : i < ws.length) :
    (sums t ws)[i]? = some (t + before ws (i + 1)) := by
  induction ws generalizing t i with
  | nil => simp at h
  | cons w ws ih =>
    cases i with
    | zero => simp [sums, before]
    | succ i =>
      have hi : i < ws.length := by simpa using h
      simp only [sums, List.getElem?_cons_succ, ih (t + w) hi, before, List.take_succ_cons,
        List.sum_cons, Nat.add_assoc]

theorem getLast?_sums (h : ws ≠ []) : (sums 0 ws).getLast? = some ws.sum := by
  have hpos : 0 < ws.length := List.length_pos_of_ne_nil h
  rw [List.getLast?_eq_getElem?, length_sums, getElem?_sums 0 (by omega), Nat.zero_add,
    Nat.sub_add_cancel hpos, before, List.take_length]

theorem before_succ (h : ws[i]? = some w) : before ws (i + 1) = before ws i + w := by
  simp [before, List.take_add_one, h]

theorem before_mono (h : i ≤ j) : before ws i ≤ before ws j :=
  (List.take_sublist_take_left h).sum_le_sum fun _ _ => Nat.zero_le _

theorem before_le_sum (i : ℕ) : before ws i ≤ ws.sum :=
  (List.take_sublist i ws).sum_le_sum fun _ _ => Nat.zero_le _

/-! ## Picking -/

/-- **The place a number picks.** -/
def pick (ws : List ℕ) (k : ℕ) : ℕ := searchInts (sums 0 ws) (k + 1)

/-- A number below the sum is within the weight of one place. -/
theorem exists_slot (h : k < ws.sum) :
    ∃ i, i < ws.length ∧ before ws i ≤ k ∧ k < before ws (i + 1) := by
  -- behind the place is the first sum above the number
  have hex : ∃ i, k < before ws i := ⟨ws.length, by simpa [before] using h⟩
  have hlt := Nat.find_spec hex
  have hpos : 0 < Nat.find hex := by
    refine Nat.pos_of_ne_zero fun hzero => ?_
    rw [hzero] at hlt
    exact Nat.not_lt_zero k hlt
  have hmin := Nat.find_min hex (Nat.sub_lt hpos Nat.one_pos)
  have hle : Nat.find hex ≤ ws.length := Nat.find_min' hex (by simpa [before] using h)
  refine ⟨Nat.find hex - 1, by omega, Nat.le_of_not_lt hmin, ?_⟩
  rwa [Nat.sub_add_cancel hpos]

theorem pick_of_slot (hi : i < ws.length) (hle : before ws i ≤ k) (hlt : k < before ws (i + 1)) :
    pick ws k = i := by
  refine search_eq (by simpa using hi.le) (fun a ha => ?_) fun a ha hn => ?_
  · have : before ws (a + 1) ≤ before ws i := before_mono ha
    rw [getElem?_sums 0 (by omega)]
    simp only [Option.any_some, decide_eq_false_iff_not]
    omega
  · have : before ws (i + 1) ≤ before ws (a + 1) := before_mono (by omega)
    rw [getElem?_sums 0 (by simpa using hn)]
    simp only [Option.any_some, decide_eq_true_eq]
    omega

/-- **A number picks the place within whose weight it is.** -/
theorem pick_eq_iff (hk : k < ws.sum) :
    pick ws k = i ↔ i < ws.length ∧ before ws i ≤ k ∧ k < before ws (i + 1) := by
  refine ⟨?_, fun h => pick_of_slot h.1 h.2.1 h.2.2⟩
  rintro rfl
  obtain ⟨j, hj, hle, hlt⟩ := exists_slot hk
  rw [pick_of_slot hj hle hlt]
  exact ⟨hj, hle, hlt⟩

/-- The binary search finds what a look from the left would. -/
theorem findIdx_sums (hk : k < ws.sum) :
    (sums 0 ws).findIdx (fun t => decide (k + 1 ≤ t)) = pick ws k := by
  obtain ⟨hlt, hle, hgt⟩ := (pick_eq_iff hk).mp rfl
  have hget {a : ℕ} (ha : a < ws.length) (h : a < (sums 0 ws).length) :
      (sums 0 ws)[a] = before ws (a + 1) := by
    have := getElem?_sums 0 ha
    rw [List.getElem?_eq_getElem h, Nat.zero_add] at this
    exact Option.some.inj this
  rw [List.findIdx_eq (by simpa using hlt), hget hlt]
  refine ⟨by simpa using hgt, fun a ha => ?_⟩
  have : before ws (a + 1) ≤ before ws (pick ws k) := before_mono ha
  rw [hget (by omega)]
  simp only [decide_eq_false_iff_not]
  omega

theorem pick_lt (hk : k < ws.sum) : pick ws k < ws.length := ((pick_eq_iff hk).mp rfl).1

/-- A place that is picked has weight. -/
theorem pick_pos (hk : k < ws.sum) : ∃ w, ws[pick ws k]? = some w ∧ 0 < w := by
  obtain ⟨hlt, hle, hgt⟩ := (pick_eq_iff hk).mp rfl
  have hw := List.getElem?_eq_getElem hlt
  refine ⟨_, hw, ?_⟩
  rw [before_succ hw] at hgt
  omega

/-- Of the numbers below the sum, as many pick a place as its weight
says. -/
theorem count_pick (h : ws[i]? = some w) : ws.sum.count (fun k => pick ws k = i) = w := by
  have hi : i < ws.length := (List.getElem?_eq_some_iff.mp h).1
  have hfilter : (Finset.range ws.sum).filter (fun k => pick ws k = i) =
      Finset.Ico (before ws i) (before ws (i + 1)) := by
    ext k
    simp only [Finset.mem_filter, Finset.mem_range, Finset.mem_Ico]
    constructor
    · rintro ⟨hk, hpick⟩
      exact ((pick_eq_iff hk).mp hpick).2
    · rintro ⟨hle, hlt⟩
      exact ⟨hlt.trans_le (before_le_sum (i + 1)), pick_of_slot hi hle hlt⟩
  rw [Nat.count_eq_card_filter_range, hfilter, Nat.card_Ico, before_succ h]
  omega

/-- **Of as many consecutive numbers as the sum of the weights, as many
pick a place as its weight says.** -/
theorem card_pick_mod (h : ws[i]? = some w) (c : ℕ) :
    ((Finset.Ico c (c + ws.sum)).filter fun k => pick ws (k % ws.sum) = i).card = w := by
  have hperiodic : Function.Periodic (fun k => pick ws (k % ws.sum) = i) ws.sum := by
    intro k
    simp
  rw [Nat.filter_Ico_card_eq_of_periodic c ws.sum _ hperiodic, ← count_pick h,
    Nat.count_eq_card_filter_range, Nat.count_eq_card_filter_range]
  refine congrArg Finset.card (Finset.filter_congr fun k hk => ?_)
  rw [Nat.mod_eq_of_lt (Finset.mem_range.mp hk)]

end Weights

end NntpPool
