import Mathlib.Data.List.Perm.Basic
/-!
# Serial orders

Operations that are run one after the other, and what it takes to find
such an order for operations that were not. An operation without effect
may be placed, in hindsight, at any state the order has visited
(`exists_placed`); all others are placed last.
-/

namespace NntpPool

namespace Serial

variable {ι σ : Type} (apply : ι → σ → σ) (r₀ : σ)

/-- The state behind some operations. -/
def result (order : List ι) : σ := order.foldl (fun r i => apply i r) r₀

/-- The order has visited a state with a property. -/
def Visited (order : List ι) (P : σ → Prop) : Prop :=
  ∃ xs ys, order = xs ++ ys ∧ P (result apply r₀ xs)

variable {apply r₀} {order order' xs ys : List ι} {i : ι} {P : σ → Prop}

theorem result_append (xs ys : List ι) :
    result apply r₀ (xs ++ ys) = result apply (result apply r₀ xs) ys := List.foldl_append

theorem result_concat (order : List ι) (i : ι) :
    result apply r₀ (order ++ [i]) = apply i (result apply r₀ order) := by
  rw [result_append]
  rfl

/-- The state the order ends in is visited. -/
theorem Visited.now (h : P (result apply r₀ order)) : Visited apply r₀ order P :=
  ⟨order, [], (List.append_nil _).symm, h⟩

theorem Visited.concat (h : Visited apply r₀ order P) : Visited apply r₀ (order ++ [i]) P := by
  obtain ⟨xs, ys, rfl, hp⟩ := h
  exact ⟨xs, ys ++ [i], List.append_assoc .., hp⟩

/-- An order with one more operation, which changes nothing. -/
structure Placed (apply : ι → σ → σ) (r₀ : σ) (order : List ι) (i : ι) (order' : List ι) :
    Prop where
  perm : order'.Perm (i :: order)
  result_eq : result apply r₀ order' = result apply r₀ order
  visited : ∀ P, Visited apply r₀ order P → Visited apply r₀ order' P

/-- **An operation without effect can be placed where it has none.** -/
theorem exists_placed (h : Visited apply r₀ order fun r => apply i r = r) :
    ∃ order', Placed apply r₀ order i order' := by
  obtain ⟨xs, ys, rfl, hi⟩ := h
  have hres (zs : List ι) :
      result apply r₀ (xs ++ i :: zs) = result apply r₀ (xs ++ zs) := by
    rw [result_append, result_append]
    show result apply (apply i (result apply r₀ xs)) zs = _
    rw [hi]
  refine ⟨xs ++ i :: ys, List.perm_middle, hres ys, ?_⟩
  rintro P ⟨us, vs, heq, hp⟩
  -- the visited state is before the place, or behind it
  rcases List.append_eq_append_iff.mp heq with ⟨zs, rfl, rfl⟩ | ⟨zs, rfl, rfl⟩
  · exact ⟨xs ++ i :: zs, vs, by simp, by rwa [hres]⟩
  · exact ⟨us, zs ++ i :: ys, by simp, hp⟩

end Serial

end NntpPool
