import NntpPool.Common.Bytes
import Mathlib.Tactic.SplitIfs
import Mathlib.Order.Basic
/-!
# Decimal numbers

A number as it is printed, and that it is read back by `parseInt` as far
as 64 bits go: beyond them the bound is answered, with an error.
-/

namespace NntpPool

/-- A number in base ten. -/
def decimal (n : ℕ) : Bytes := (Nat.toDigits 10 n).map fun c => c.toNat.toUInt8

/-- The digit of a number below ten. -/
def digit (d : ℕ) : UInt8 := (Nat.digitChar d).toNat.toUInt8

theorem digitVal_digit {d : ℕ} (h : d < 10) : digitVal (digit d) = some d := by
  have hall : ∀ d < 10, digitVal (digit d) = some d := by decide
  exact hall d h

theorem digit_range {d : ℕ} (h : d < 10) : 48 ≤ digit d ∧ digit d ≤ 57 := by
  have hall : ∀ d < 10, 48 ≤ digit d ∧ digit d ≤ 57 := by decide
  exact hall d h

theorem decimal_of_lt {n : ℕ} (h : n < 10) : decimal n = [digit n] := by
  simp [decimal, Nat.toDigits_of_lt_base h, digit]

theorem decimal_of_le {n : ℕ} (h : 10 ≤ n) : decimal n = decimal (n / 10) ++ [digit (n % 10)] := by
  simp [decimal, Nat.toDigits_of_base_le (by decide : 1 < 10) h, digit]

theorem decimal_ne_nil (n : ℕ) : decimal n ≠ [] := by
  simp [decimal, Nat.toDigits_ne_nil]

/-- **There are only digits in a number.** -/
theorem mem_decimal {n : ℕ} {b : UInt8} (h : b ∈ decimal n) : 48 ≤ b ∧ b ≤ 57 := by
  induction n using Nat.strong_induction_on with
  | _ n ih =>
    rcases Nat.lt_or_ge n 10 with hlt | hge
    · rw [decimal_of_lt hlt, List.mem_singleton] at h
      exact h ▸ digit_range hlt
    · rw [decimal_of_le hge, List.mem_append, List.mem_singleton] at h
      rcases h with h | h
      · exact ih (n / 10) (by omega) h
      · exact h ▸ digit_range (Nat.mod_lt n (by decide))

/-! ## Reading a number back -/

/-- The digits that were read do not matter for what follows, but for
their value, and behind an error nothing is read. -/
theorem parseUintLoop_append (base maxVal n : ℕ) (xs ys : Bytes) :
    parseUintLoop base maxVal n (xs ++ ys) =
      if (parseUintLoop base maxVal n xs).2 = none then
        parseUintLoop base maxVal (parseUintLoop base maxVal n xs).1 ys
      else parseUintLoop base maxVal n xs := by
  induction xs generalizing n with
  | nil => rfl
  | cons b bs ih =>
    rw [List.cons_append, parseUintLoop, parseUintLoop]
    split
    · rfl
    · rename_i d _
      by_cases hbase : base ≤ d
      · simp only [if_pos hbase, reduceCtorEq, if_false]
      · by_cases hmax : maxVal < n * base + d
        · simp only [if_neg hbase, if_pos hmax, reduceCtorEq, if_false]
        · simp only [if_neg hbase, if_neg hmax]
          exact ih _

/-- One digit more. -/
theorem parseUintLoop_digit {maxVal n d : ℕ} (h : d < 10) :
    parseUintLoop 10 maxVal n [digit d] =
      if maxVal < n * 10 + d then (maxVal, some .rangeErr) else (n * 10 + d, none) := by
  simp [parseUintLoop, digitVal_digit h, Nat.not_le.mpr h]

/-- **A number is read back**, up to the largest one. -/
theorem parseUintLoop_decimal (maxVal n : ℕ) :
    parseUintLoop 10 maxVal 0 (decimal n) =
      if maxVal < n then (maxVal, some .rangeErr) else (n, none) := by
  induction n using Nat.strong_induction_on with
  | _ n ih =>
    rcases Nat.lt_or_ge n 10 with hlt | hge
    · rw [decimal_of_lt hlt, parseUintLoop_digit hlt]
      simp
    · have hdigit : n % 10 < 10 := Nat.mod_lt n (by decide)
      have hn : n / 10 * 10 + n % 10 = n := Nat.div_add_mod' n 10
      rw [decimal_of_le hge, parseUintLoop_append, ih (n / 10) (by omega)]
      by_cases hmax : maxVal < n / 10
      · rw [if_pos hmax, if_neg (by simp), if_pos (by omega)]
      · rw [if_neg hmax, if_pos rfl, parseUintLoop_digit hdigit, hn]

theorem parseUint_decimal (bits n : ℕ) :
    parseUint 10 bits (decimal n) =
      if 2 ^ bits - 1 < n then (2 ^ bits - 1, some .rangeErr) else (n, none) := by
  rw [parseUint, if_neg (decimal_ne_nil n), parseUintLoop_decimal]

/-- **`parseInt` reads a number of 63 bits back**, and answers the largest
for one beyond. -/
theorem parseInt_decimal (n : ℕ) :
    parseInt (decimal n) = if n < 2 ^ 63 then ((n : ℤ), none) else (maxInt64, some .rangeErr) := by
  have hsign (ds : Bytes) (h : ds = decimal n) : ds.head? ≠ some 43 ∧ ds.head? ≠ some 45 := by
    subst h
    constructor <;>
    · intro hhead
      have hmem := mem_decimal (List.mem_of_mem_head? hhead)
      revert hmem
      decide
  have hparse := parseUint_decimal 64 n
  generalize hds : decimal n = ds at hparse
  obtain ⟨hplus, hminus⟩ := hsign ds hds.symm
  unfold parseInt
  split
  rename_i neg digits hcases
  split at hcases
  · simp at hplus
  · simp at hminus
  · simp only [Prod.mk.injEq] at hcases
    obtain ⟨rfl, rfl⟩ := hcases
    rw [hparse]
    rcases Nat.lt_or_ge n (2 ^ 63) with hlt | hge
    · rw [if_neg (by omega), if_pos hlt]
      exact if_neg (Nat.not_le.mpr hlt)
    · rw [if_neg (Nat.not_lt.mpr hge)]
      by_cases hbits : 2 ^ 64 - 1 < n
      · rw [if_pos hbits]
        rfl
      · rw [if_neg hbits]
        exact if_pos hge

end NntpPool
