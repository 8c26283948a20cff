import Mathlib.Algebra.BigOperators.Group.List.Basic
import Mathlib.Algebra.Order.Ring.Int
/-!
# Shares

A number that is spread over the components of a system: every component
holds a share, and `shares` is what they hold together. One component's
step changes the whole by what it changes of its own share
(`shares_set`).
-/

namespace NntpPool

section Shares

variable {α : Type} (f : α → ℕ)

/-- What the components hold together. -/
def shares (xs : List α) : ℕ := (xs.map f).sum

variable {f} {xs : List α} {i j : ℕ} {x y : α}

@[simp] theorem shares_nil : shares f [] = 0 := rfl

@[simp] theorem shares_cons (x : α) (xs : List α) : shares f (x :: xs) = f x + shares f xs := by
  simp [shares]

@[simp] theorem shares_append (xs ys : List α) :
    shares f (xs ++ ys) = shares f xs + shares f ys := by
  simp [shares]

/-- **One component changes.** -/
theorem shares_set (h : xs[i]? = some x) (y : α) :
    shares f (xs.set i y) + f x = shares f xs + f y := by
  induction xs generalizing i with
  | nil => simp at h
  | cons z zs ih =>
    cases i with
    | zero =>
      obtain rfl : z = x := by simpa using h
      simp
      omega
    | succ i =>
      have := ih (by simpa using h)
      simp only [List.set_cons_succ, shares_cons]
      omega

/-- A component holds no more than all do. -/
theorem le_shares (h : xs[i]? = some x) : f x ≤ shares f xs := by
  induction xs generalizing i with
  | nil => simp at h
  | cons z zs ih =>
    cases i with
    | zero =>
      obtain rfl : z = x := by simpa using h
      simp
    | succ i =>
      have := ih (by simpa using h)
      simp only [shares_cons]
      omega

/-- Nor do two. -/
theorem add_le_shares (hne : i ≠ j) (hi : xs[i]? = some x) (hj : xs[j]? = some y) :
    f x + f y ≤ shares f xs := by
  induction xs generalizing i j with
  | nil => simp at hi
  | cons z zs ih =>
    cases i with
    | zero =>
      obtain rfl : z = x := by simpa using hi
      obtain ⟨j, rfl⟩ := Nat.exists_eq_succ_of_ne_zero (Ne.symm hne)
      have := le_shares (f := f) (show zs[j]? = some y by simpa using hj)
      simp only [shares_cons]
      omega
    | succ i =>
      cases j with
      | zero =>
        obtain rfl : z = y := by simpa using hj
        have := le_shares (f := f) (show zs[i]? = some x by simpa using hi)
        simp only [shares_cons]
        omega
      | succ j =>
        have := ih (by simpa using hne) (by simpa using hi) (by simpa using hj)
        simp only [shares_cons]
        omega

/-- Everybody holds less. -/
theorem shares_mono {g : α → ℕ} (h : ∀ x ∈ xs, f x ≤ g x) : shares f xs ≤ shares g xs := by
  induction xs with
  | nil => simp
  | cons z zs ih =>
    have hz := h z List.mem_cons_self
    have hzs := ih fun x hx => h x (List.mem_cons_of_mem _ hx)
    simp only [shares_cons]
    omega

/-- Nobody holds anything. -/
theorem shares_eq_zero : shares f xs = 0 ↔ ∀ x ∈ xs, f x = 0 := by
  induction xs with
  | nil => simp
  | cons z zs ih => simp [ih]

/-- Somebody holds something. -/
theorem exists_of_shares (h : 0 < shares f xs) : ∃ (i : ℕ) (x : α), xs[i]? = some x ∧ 0 < f x := by
  by_contra hnone
  have hzero : shares f xs = 0 := by
    refine shares_eq_zero.2 fun x hx => ?_
    obtain ⟨i, hi⟩ := List.mem_iff_getElem?.mp hx
    exact Nat.eq_zero_of_not_pos fun hpos => hnone ⟨i, x, hi, hpos⟩
  omega

end Shares

end NntpPool
