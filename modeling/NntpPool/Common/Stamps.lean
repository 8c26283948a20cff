import Mathlib.Order.Lattice
import Mathlib.Data.Set.Insert
/-!
# Stamps

Readings of a clock that does not go back, each with the number of the
step that made it. A program sees the time of a stamp and compares it
with that of others; which of two was made first only the numbers tell.
`Readings.step_lt` is how the one follows from the other: a later time is
that of a later step, and times that are equal say nothing.
-/

namespace NntpPool

/-- **A reading of the clock**, with the step it was made in. -/
structure Stamp (τ : Type) where
  time : τ
  step : ℕ
  deriving DecidableEq, Repr

variable {τ : Type} [LinearOrder τ] {X Y : Set (Stamp τ)} {x y last : Stamp τ} {t : τ}

/-- **The stamps are of one clock**, which has come to `last`. -/
structure Readings (X : Set (Stamp τ)) (last : Stamp τ) : Prop where
  time_le : ∀ x ∈ X, x.time ≤ last.time
  step_le : ∀ x ∈ X, x.step ≤ last.step
  mono : ∀ x ∈ X, ∀ y ∈ X, x.step ≤ y.step → x.time ≤ y.time

/-- Nothing was read but the stamp itself. -/
theorem Readings.single (h : ∀ x ∈ X, x = last) : Readings X last where
  time_le x hx := by rw [h x hx]
  step_le x hx := by rw [h x hx]
  mono x hx y hy _ := by rw [h x hx, h y hy]

/-- **The clock is read again**, in the next step. -/
theorem Readings.next (h : Readings X last) (ht : last.time ≤ t)
    (hY : ∀ y ∈ Y, y ∈ X ∨ y = ⟨t, last.step + 1⟩) : Readings Y ⟨t, last.step + 1⟩ where
  time_le y hy := by
    rcases hY y hy with hy | rfl
    · exact (h.time_le y hy).trans ht
    · exact le_refl _
  step_le y hy := by
    rcases hY y hy with hy | rfl
    · exact (h.step_le y hy).trans (Nat.le_succ _)
    · exact le_refl _
  mono x hx y hy hle := by
    rcases hY x hx with hx | rfl
    · rcases hY y hy with hy | rfl
      · exact h.mono x hx y hy hle
      · exact (h.time_le x hx).trans ht
    · rcases hY y hy with hy | rfl
      · exact absurd (hle.trans (h.step_le y hy)) (Nat.not_succ_le_self _)
      · exact le_refl _

/-- **A later time is that of a later step.** -/
theorem Readings.step_lt (h : Readings X last) (hx : x ∈ X) (hy : y ∈ X)
    (hlt : x.time < y.time) : x.step < y.step := by
  by_contra hle
  exact absurd (h.mono y hy x hx (Nat.le_of_not_lt hle)) (not_le_of_gt hlt)

end NntpPool
