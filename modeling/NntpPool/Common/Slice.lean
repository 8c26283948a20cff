import Mathlib.Algebra.Order.Group.Int
import Mathlib.Data.List.Basic
/-!
# Slices of an array

An array of which the part between two indices is in use, in the terms of
a language whose indices are signed and whose slices panic. A slice is
known by what stands before and behind it (`slice_eq_some`), from which
follows how the part in use changes when it is dropped from, written
over, continued, or moved to the front.
-/

namespace NntpPool

variable {α : Type*} {xs q mem p : List α} {i j c : ℤ} {n : ℕ}

/-- `xs[i:j]`, or `none` where it panics. -/
def slice (xs : List α) (i j : ℤ) : Option (List α) :=
  if 0 ≤ i ∧ i ≤ j ∧ j ≤ xs.length then some ((xs.take j.toNat).drop i.toNat) else none

/-- `copy(xs[i:], ys)`, where `ys` fits. -/
def overwrite (xs : List α) (i : ℤ) (ys : List α) : List α :=
  xs.take i.toNat ++ ys ++ xs.drop (i.toNat + ys.length)

/-- **A slice is what stands between its indices.** -/
theorem slice_eq_some : slice xs i j = some q ↔
    ∃ front back, xs = front ++ q ++ back ∧ i = front.length ∧ j = front.length + q.length := by
  constructor
  · intro h
    unfold slice at h
    split_ifs at h with hb
    obtain ⟨hi, hij, hj⟩ := hb
    obtain rfl := Option.some.inj h
    refine ⟨xs.take i.toNat, xs.drop j.toNat, ?_, ?_, ?_⟩
    · have hfront : (xs.take j.toNat).take i.toNat = xs.take i.toNat := by
        rw [List.take_take, Nat.min_eq_left (by omega)]
      rw [← hfront, List.take_append_drop, List.take_append_drop]
    · rw [List.length_take]
      omega
    · rw [List.length_drop, List.length_take, List.length_take]
      omega
  · rintro ⟨front, back, rfl, rfl, rfl⟩
    have hj : ((front.length : ℤ) + q.length).toNat = (front ++ q).length := by
      rw [List.length_append]
      omega
    rw [slice, if_pos (by simp), hj, List.take_left, Int.toNat_natCast, List.drop_left]

/-- Its indices are in order, and it is as long as they are apart. -/
theorem slice_bounds (h : slice xs i j = some q) :
    0 ≤ i ∧ i ≤ j ∧ j ≤ xs.length ∧ (q.length : ℤ) = j - i := by
  obtain ⟨front, back, rfl, rfl, rfl⟩ := slice_eq_some.1 h
  simp only [List.length_append]
  omega

theorem slice_drop (h : slice xs i j = some q) (h0 : 0 ≤ c) (hc : c ≤ q.length) :
    slice xs (i + c) j = some (q.drop c.toNat) := by
  obtain ⟨front, back, rfl, rfl, rfl⟩ := slice_eq_some.1 h
  refine slice_eq_some.2 ⟨front ++ q.take c.toNat, back, ?_, ?_, ?_⟩
  · rw [List.append_assoc front (q.take _), List.take_append_drop]
  · rw [List.length_append, List.length_take]
    omega
  · rw [List.length_append, List.length_take, List.length_drop]
    omega

/-- A slice whose front is written over. -/
theorem slice_overwrite (h : slice xs i j = some q) (hm : mem.length ≤ q.length) :
    slice (overwrite xs i mem) i j = some (mem ++ q.drop mem.length) := by
  obtain ⟨front, back, rfl, rfl, rfl⟩ := slice_eq_some.1 h
  refine slice_eq_some.2 ⟨front, back, ?_, rfl, ?_⟩
  · have hback : ((front ++ q) ++ back).drop (front.length + mem.length) =
        q.drop mem.length ++ back := by
      rw [List.append_assoc, List.drop_append, List.drop_of_length_le (by omega),
        List.nil_append, Nat.add_sub_cancel_left, List.drop_append_of_le_length hm]
    have hfront : ((front ++ q) ++ back).take front.length = front := by
      rw [List.append_assoc, List.take_left]
    rw [overwrite, Int.toNat_natCast, hback, hfront]
    simp only [List.append_assoc]
  · rw [List.length_append, List.length_drop]
    omega

/-- A slice that is continued into what stands behind it. -/
theorem slice_continue (h : slice xs i j = some q) (hn : n ≤ p.length) :
    slice (xs.take j.toNat ++ p) i (j + n) = some (q ++ p.take n) := by
  obtain ⟨front, back, rfl, rfl, rfl⟩ := slice_eq_some.1 h
  refine slice_eq_some.2 ⟨front, p.drop n, ?_, rfl, ?_⟩
  · have hj : ((front.length : ℤ) + q.length).toNat = (front ++ q).length := by
      rw [List.length_append]
      omega
    rw [hj, List.take_left]
    simp only [List.append_assoc, List.take_append_drop]
  · rw [List.length_append, List.length_take]
    omega

/-- An array that starts with `q`. -/
theorem slice_front (q back : List α) : slice (q ++ back) 0 q.length = some q :=
  slice_eq_some.2 ⟨[], back, rfl, rfl, by simp⟩

@[simp] theorem overwrite_zero (xs ys : List α) :
    overwrite xs 0 ys = ys ++ xs.drop ys.length := by
  simp [overwrite]

theorem length_overwrite (h : slice xs i j = some q) (hm : mem.length ≤ q.length) :
    (overwrite xs i mem).length = xs.length := by
  obtain ⟨h0, hij, hj, hlen⟩ := slice_bounds h
  simp only [overwrite, List.length_append, List.length_take, List.length_drop]
  omega

end NntpPool
