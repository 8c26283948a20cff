import NntpPool.Post.Fold
/-!
# Post — how long a folded line is

`foldHeaderLine` cuts a line that is too long at the last blank within
the limit. If the line has no long words there is such a blank, and every
piece it cuts off fits behind a TAB. What remains at last need not: it is
held against the limit without the TAB that stands before it. And it may
be nothing at all, if the line ends with blanks (`lines_within_iff`).
-/

namespace NntpPool

namespace Post

variable {s line : Bytes}

/-- No word is longer than 800 octets. -/
def Narrow (line : Bytes) : Prop := ∀ w ∈ words isBlank line, w.length ≤ 800

instance : Decidable (Narrow s) :=
  inferInstanceAs (Decidable (∀ w ∈ words isBlank s, w.length ≤ 800))

theorem Narrow.of_append_cons {a c : Bytes} {b : UInt8} (h : Narrow (a ++ b :: c))
    (hb : isBlank b = true) : Narrow (c.dropWhile isBlank) := by
  intro w hw
  rw [words_dropWhile fun _ => id] at hw
  refine h w ?_
  rw [words_append_cons hb]
  exact List.mem_append_right _ hw

/-- A text that starts with so many octets without a blank is not narrow. -/
theorem Narrow.length_le {u t : Bytes} (h : Narrow (u ++ t)) (hu : ∀ x ∈ u, isBlank x = false) :
    u.length ≤ 800 := by
  by_cases hne : u = []
  · simp [hne]
  · obtain ⟨w, hw, hlen⟩ := exists_word_of_solid hu hne t
    exact hlen.trans (h w hw)

/-- **A narrow line can be cut**, behind its first octet. -/
theorem Narrow.lastBlank (h : Narrow s) (hlong : ¬ s.length ≤ maxHeaderLineLen) :
    ∃ k, lastBlank (s.take maxHeaderLineLen) = some (k + 1) := by
  have hlen : (s.take maxHeaderLineLen).length = 900 := by
    rw [List.length_take]
    simp only [maxHeaderLineLen] at *
    omega
  rw [← List.take_append_drop maxHeaderLineLen s] at h
  rcases hcut : Post.lastBlank (s.take maxHeaderLineLen) with _ | _ | k
  · have := h.length_le (lastBlank_eq_none hcut)
    omega
  · -- there is one at the front only
    obtain ⟨a, b, c, htake, ha, hb, hc⟩ := lastBlank_eq_some hcut
    obtain rfl := List.length_eq_zero_iff.mp ha
    rw [htake] at h hlen
    have hrest : Narrow (c ++ s.drop maxHeaderLineLen) := by
      intro w hw
      refine h w ?_
      rwa [List.nil_append, List.cons_append, words_cons hb]
    have := hrest.length_le hc
    simp at hlen
    omega
  · exact ⟨k, rfl⟩

/-- **One turn**: a narrow line is not folded, or a piece is cut off. -/
theorem Narrow.cases (h : Narrow s) :
    (s.length ≤ maxHeaderLineLen ∧ foldPieces s = [s]) ∨
      ∃ a b c, s = a ++ b :: c ∧ isBlank b = true ∧ a ≠ [] ∧ a.length < maxHeaderLineLen ∧
        foldPieces s = a :: foldPieces (c.dropWhile isBlank) := by
  by_cases hlen : s.length ≤ maxHeaderLineLen
  · exact .inl ⟨hlen, foldPieces_of_le hlen⟩
  · obtain ⟨k, hcut⟩ := h.lastBlank hlen
    obtain ⟨a, b, c, hs, ha, hb, hlt, htake, hrest⟩ := lastBlank_take hcut
    refine .inr ⟨a, b, c, hs, hb, ?_, by omega, ?_⟩
    · exact List.ne_nil_of_length_eq_add_one ha
    · rw [foldPieces_of_cut hlen hcut, htake, hrest]

/-! ## The pieces -/

/-- **The lengths**: what is cut off leaves room for a TAB, what remains at
last need not. -/
theorem Narrow.pieces (h : Narrow s) :
    ∃ qs r, foldPieces s = qs ++ [r] ∧ (∀ q ∈ qs, q ≠ [] ∧ q.length < maxHeaderLineLen) ∧
      r.length ≤ maxHeaderLineLen := by
  induction hn : s.length using Nat.strong_induction_on generalizing s with
  | _ n ih =>
    subst hn
    rcases h.cases with ⟨hlen, hps⟩ | ⟨a, b, c, rfl, hb, hne, hlen, hps⟩
    · exact ⟨[], s, hps, by simp, hlen⟩
    · have hle := (List.dropWhile_sublist (l := c) isBlank).length_le
      obtain ⟨qs, r, hrest, hqs, hr⟩ := ih _ (by simp; omega) (h.of_append_cons hb) rfl
      refine ⟨a :: qs, r, by rw [hps, hrest, List.cons_append], fun q hq => ?_, hr⟩
      rcases List.mem_cons.mp hq with rfl | hq
      · exact ⟨hne, hlen⟩
      · exact hqs q hq

end Post

end NntpPool
