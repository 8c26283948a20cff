import NntpPool.Post.Model.Headers
/-!
# Post — folding

What folding a line is, whatever the limit: the line is cut at blanks, and
the blanks around a cut are dropped. `foldHeaderLine` does this, with
each piece but the first behind a TAB (`foldHeaderLine_lines`). So the
pieces have the words of the line, and nothing that was not in it; and the
line up to its first blank is in the first piece.
-/

namespace NntpPool

namespace Post

variable {s line : Bytes} {ps : List Bytes} {b : UInt8}

/-- **The pieces of a folded line.** -/
inductive Folds : Bytes → List Bytes → Prop
  | whole (s : Bytes) : Folds s [s]
  | cut {a c : Bytes} {b : UInt8} {ps : List Bytes} (hb : isBlank b = true)
      (h : Folds (c.dropWhile isBlank) ps) : Folds (a ++ b :: c) (a :: ps)

/-- The lines of the pieces: each but the first is behind a TAB. -/
def foldedLines : List Bytes → List Bytes
  | [] => []
  | p :: ps => p :: ps.map (9 :: ·)

theorem isSpace_of_isBlank (h : isBlank b = true) : isSpace b = true := by
  simp only [isBlank, List.contains_cons, List.contains_nil, Bool.or_false, Bool.or_eq_true,
    beq_iff_eq] at h
  rcases h with rfl | rfl <;> rfl

/-! ## Pieces -/

theorem Folds.ne_nil (h : Folds s ps) : ps ≠ [] := by
  cases h <;> simp

/-- There is nothing new in a piece. -/
theorem Folds.mem (h : Folds s ps) {p : Bytes} (hp : p ∈ ps) (hb : b ∈ p) : b ∈ s := by
  induction h with
  | whole s => rwa [List.mem_singleton.mp hp] at hb
  | @cut a c x ps hx h ih =>
    rcases List.mem_cons.mp hp with rfl | hp
    · exact List.mem_append_left _ hb
    · have hc := (List.dropWhile_sublist _).subset (ih hp)
      exact List.mem_append_right _ (List.mem_cons_of_mem _ hc)

/-- **The pieces have the words of the line.** -/
theorem Folds.words_eq (h : Folds s ps) : words isSpace s = ps.flatMap (words isSpace) := by
  induction h with
  | whole s => simp
  | @cut a c b ps hb h ih =>
    rw [words_append_cons (isSpace_of_isBlank hb), List.flatMap_cons, ← ih,
      words_dropWhile fun _ => isSpace_of_isBlank]

/-- **The first piece** has what stands before the first blank, and the
words behind it are those of the rest. -/
theorem Folds.head {w t : Bytes} (h : Folds (w ++ b :: t) ps) (hw : ∀ x ∈ w, isBlank x = false)
    (hb : isBlank b = true) :
    ∃ u qs, ps = (w ++ u) :: qs ∧
      words isSpace t = words isSpace u ++ qs.flatMap (words isSpace) := by
  generalize hs : w ++ b :: t = s at h
  cases h with
  | whole s =>
    refine ⟨b :: t, [], by rw [hs], ?_⟩
    rw [words_cons (isSpace_of_isBlank hb)]
    simp
  | @cut a c x qs hx h =>
    have hqs : words isSpace c = qs.flatMap (words isSpace) := by
      rw [← h.words_eq, words_dropWhile fun _ => isSpace_of_isBlank]
    rcases List.append_eq_append_iff.mp hs with ⟨u, rfl, hu⟩ | ⟨u, rfl, hu⟩
    · -- the cut is not before the blank
      refine ⟨u, qs, rfl, ?_⟩
      rw [← words_cons (isSpace_of_isBlank hb), hu, words_append_cons (isSpace_of_isBlank hx), hqs]
    · cases u with
      | nil =>
        obtain ⟨rfl, rfl⟩ := List.cons.inj hu
        exact ⟨[], qs, by simp, by simpa using hqs⟩
      | cons y u =>
        -- there is no blank to cut at
        obtain ⟨rfl, -⟩ := List.cons.inj hu
        rw [hw x (by simp)] at hx
        cases hx

/-! ## `foldHeaderLine` -/

theorem lastBlank_eq_none (h : lastBlank s = none) : ∀ x ∈ s, isBlank x = false := by
  induction s with
  | nil => exact fun x hx => (List.not_mem_nil hx).elim
  | cons y s ih =>
    rw [lastBlank] at h
    cases hs : lastBlank s with
    | some j => simp [hs] at h
    | none =>
      rw [hs] at h
      dsimp only at h
      split_ifs at h with hy
      intro x hx
      rcases List.mem_cons.mp hx with rfl | hx
      · simpa using hy
      · exact ih hs x hx

/-- What `LastIndexAny` finds: there is no blank behind it. -/
theorem lastBlank_eq_some {i : ℕ} (h : lastBlank s = some i) :
    ∃ a b c, s = a ++ b :: c ∧ a.length = i ∧ isBlank b = true ∧ ∀ x ∈ c, isBlank x = false := by
  induction s generalizing i with
  | nil => cases h
  | cons x s ih =>
    rw [lastBlank] at h
    cases hs : lastBlank s with
    | some j =>
      rw [hs] at h
      obtain ⟨a, b, c, rfl, rfl, hb, hc⟩ := ih hs
      exact ⟨x :: a, b, c, rfl, Option.some.inj h, hb, hc⟩
    | none =>
      rw [hs] at h
      dsimp only at h
      split_ifs at h with hx
      exact ⟨[], x, s, rfl, Option.some.inj h, hx, lastBlank_eq_none hs⟩

/-- **Where a piece is cut off**: it ends at the blank that was found, and
that blank is dropped with those behind it. -/
theorem lastBlank_take {n i : ℕ} (h : lastBlank (s.take n) = some i) :
    ∃ a b c, s = a ++ b :: c ∧ a.length = i ∧ isBlank b = true ∧ i < n ∧ s.take i = a ∧
      (s.drop i).dropWhile isBlank = c.dropWhile isBlank := by
  obtain ⟨a, b, c, htake, rfl, hb, -⟩ := lastBlank_eq_some h
  have hs : s = a ++ b :: (c ++ s.drop n) := by
    rw [← List.cons_append, ← List.append_assoc, ← htake, List.take_append_drop]
  have hlen : a.length < n := by
    have := congrArg List.length htake
    simp only [List.length_take, List.length_append, List.length_cons] at this
    omega
  refine ⟨a, b, c ++ s.drop n, hs, rfl, hb, hlen, ?_, ?_⟩
  · conv_lhs => rw [hs, List.take_left]
  · conv_lhs => rw [hs, List.drop_left, List.dropWhile_cons, if_pos hb]

/-- **The pieces the loop of `foldHeaderLine` makes**: what it writes before
each line end, and what remains at last. -/
def foldPieces (remaining : Bytes) : List Bytes :=
  if remaining.length ≤ maxHeaderLineLen then [remaining]
  else
    match lastBlank (remaining.take maxHeaderLineLen) with
    | none => [remaining]
    | some 0 => [remaining]
    | some (cut + 1) =>
      remaining.take (cut + 1) :: foldPieces ((remaining.drop (cut + 1)).dropWhile isBlank)
termination_by remaining.length
decreasing_by
  have hle := (List.dropWhile_sublist (l := remaining.drop (cut + 1)) isBlank).length_le
  have hdrop : (remaining.drop (cut + 1)).length = remaining.length - (cut + 1) := List.length_drop
  simp only [maxHeaderLineLen] at *
  omega

theorem foldPieces_of_le (h : line.length ≤ maxHeaderLineLen) : foldPieces line = [line] := by
  rw [foldPieces, if_pos h]

theorem foldPieces_of_cut {k : ℕ} (h : ¬ line.length ≤ maxHeaderLineLen)
    (hcut : lastBlank (line.take maxHeaderLineLen) = some (k + 1)) :
    foldPieces line =
      line.take (k + 1) :: foldPieces ((line.drop (k + 1)).dropWhile isBlank) := by
  rw [foldPieces, if_neg h, hcut]

theorem foldPieces_folds (line : Bytes) : Folds line (foldPieces line) := by
  fun_induction foldPieces line with
  | case1 s hlen => exact .whole s
  | case2 s hlen hcut => exact .whole s
  | case3 s hlen hcut => exact .whole s
  | case4 s hlen k hcut ih =>
    obtain ⟨a, b, c, hs, -, hb, -, htake, hrest⟩ := lastBlank_take hcut
    rw [hrest] at ih ⊢
    rw [htake]
    exact hs ▸ .cut hb ih

theorem tab_unlines (hne : ps ≠ []) :
    9 :: unlines (foldedLines ps) = unlines (ps.map (9 :: ·)) := by
  cases ps with
  | nil => exact absurd rfl hne
  | cons p ps => rfl

theorem foldLoop_lines (remaining : Bytes) :
    foldLoop remaining ++ crlf = unlines (foldedLines (foldPieces remaining)) := by
  have hwhole (s : Bytes) : s ++ crlf = unlines (foldedLines [s]) := by simp [foldedLines]
  fun_induction foldPieces remaining with
  | case1 s hlen =>
    rw [foldLoop, if_pos hlen]
    exact hwhole s
  | case2 s hlen hcut =>
    rw [foldLoop, if_neg hlen, hcut]
    exact hwhole s
  | case3 s hlen hcut =>
    rw [foldLoop, if_neg hlen, hcut]
    exact hwhole s
  | case4 s hlen k hcut ih =>
    rw [foldLoop, if_neg hlen, hcut]
    dsimp only
    rw [foldedLines, unlines_cons, ← tab_unlines (foldPieces_folds _).ne_nil, ← ih]
    simp

/-- **`foldHeaderLine` folds.** -/
theorem foldHeaderLine_lines (line : Bytes) :
    foldHeaderLine line ++ crlf = unlines (foldedLines (foldPieces line)) := by
  unfold foldHeaderLine
  split_ifs with hlen
  · rw [foldPieces_of_le hlen]
    simp [foldedLines]
  · exact foldLoop_lines line

/-! ## Words -/

theorem words_unlines (ls : List Bytes) :
    words isSpace (unlines ls) = ls.flatMap (words isSpace) := by
  induction ls with
  | nil => rfl
  | cons l ls ih =>
    have hend : l ++ crlf ++ unlines ls = l ++ 13 :: 10 :: unlines ls := by simp [crlf]
    rw [unlines_cons, hend, words_append_cons (by decide), words_cons (by decide), ih]
    rfl

/-- **Folding does not change the words.** -/
theorem words_foldHeaderLine (line : Bytes) :
    words isSpace (foldHeaderLine line) = words isSpace line := by
  have htabs (qs : List Bytes) :
      (qs.map (9 :: ·)).flatMap (words isSpace) = qs.flatMap (words isSpace) := by
    rw [List.flatMap_map]
    simp only [words_cons (show isSpace 9 = true by decide)]
  have hlines (ps : List Bytes) :
      (foldedLines ps).flatMap (words isSpace) = ps.flatMap (words isSpace) := by
    cases ps with
    | nil => rfl
    | cons p ps => rw [foldedLines, List.flatMap_cons, htabs, List.flatMap_cons]
  calc
    words isSpace (foldHeaderLine line) = words isSpace (foldHeaderLine line ++ crlf) := by
      rw [show crlf = 13 :: [10] from rfl, words_append_cons (by decide)]
      simp [words_cons (show isSpace 10 = true by decide)]
    _ = (foldPieces line).flatMap (words isSpace) := by
      rw [foldHeaderLine_lines, words_unlines, hlines]
    _ = words isSpace line := (foldPieces_folds line).words_eq.symm

end Post

end NntpPool
