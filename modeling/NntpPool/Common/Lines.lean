import NntpPool.Common.Bytes
/-!
# Lines

A text of lines that end with CRLF, and what a reader finds in it: the
lines, where it splits the text at CRLF, and the first empty line, where
it looks for CRLF CRLF.
-/

namespace NntpPool

/-- `strings.Split` at CRLF. -/
def splitCRLF : Bytes → List Bytes
  | [] => [[]]
  | 13 :: 10 :: s => [] :: splitCRLF s
  | b :: s => (splitCRLF s).modifyHead (b :: ·)

/-- The lines, each with its end. -/
def unlines (ls : List Bytes) : Bytes := ls.flatMap (· ++ crlf)

/-- No line end, or half of one. -/
def Clean (s : Bytes) : Prop := 13 ∉ s ∧ 10 ∉ s

variable {l : Bytes} {ls : List Bytes}

theorem Clean.append {s t : Bytes} (hs : Clean s) (ht : Clean t) : Clean (s ++ t) := by
  simp only [Clean, List.mem_append, not_or] at *
  exact ⟨⟨hs.1, ht.1⟩, hs.2, ht.2⟩

@[simp] theorem unlines_nil : unlines [] = [] := rfl

@[simp] theorem unlines_cons (l : Bytes) (ls : List Bytes) :
    unlines (l :: ls) = l ++ crlf ++ unlines ls := rfl

theorem unlines_append (ls ls' : List Bytes) : unlines (ls ++ ls') = unlines ls ++ unlines ls' :=
  List.flatMap_append

theorem splitCRLF_line (hl : 13 ∉ l) (s : Bytes) :
    splitCRLF (l ++ crlf ++ s) = l :: splitCRLF s := by
  induction l with
  | nil => rfl
  | cons b l ih =>
    obtain ⟨hb, hl⟩ : 13 ≠ b ∧ 13 ∉ l := by simpa using hl
    rw [List.cons_append, List.cons_append, splitCRLF, ih hl]
    · rfl
    · rintro s' rfl
      exact absurd rfl hb

/-- **The lines are found again.** -/
theorem splitCRLF_unlines (hls : ∀ l ∈ ls, 13 ∉ l) (s : Bytes) :
    splitCRLF (unlines ls ++ s) = ls ++ splitCRLF s := by
  induction ls with
  | nil => rfl
  | cons l ls ih =>
    rw [unlines_cons, List.append_assoc, splitCRLF_line (hls l List.mem_cons_self),
      ih fun x hx => hls x (List.mem_cons_of_mem _ hx)]
    rfl

/-- A line end that another line is behind. -/
theorem cut_blank_skip {c : UInt8} (hl : 13 ∉ l) (hc : c ≠ 13) (s : Bytes) :
    cut (crlf ++ crlf) (l ++ crlf ++ c :: s) =
      (cut (crlf ++ crlf) (c :: s)).map fun p => (l ++ crlf ++ p.1, p.2) := by
  have hhead : ¬(crlf ++ crlf).isPrefixOf (13 :: 10 :: c :: s) = true := by
    simp [crlf, Ne.symm hc]
  have hnext : ¬(crlf ++ crlf).isPrefixOf (10 :: c :: s) = true := by
    simp [crlf]
  -- the empty line can start neither at the CR nor at the LF
  have hend : cut (crlf ++ crlf) (crlf ++ c :: s) =
      (cut (crlf ++ crlf) (c :: s)).map fun p => (crlf ++ p.1, p.2) := by
    rw [show crlf ++ c :: s = 13 :: 10 :: c :: s from rfl, cut_cons, if_neg hhead, cut_cons,
      if_neg hnext, Option.map_map]
    rfl
  rw [List.append_assoc, show crlf ++ crlf = 13 :: [10, 13, 10] from rfl, cut_skip hl,
    show 13 :: [10, 13, 10] = crlf ++ crlf from rfl, hend, Option.map_map]
  simp [Function.comp_def]

/-- **The first empty line** is the one behind the lines. -/
theorem cut_blank_line (hne : ls ≠ []) (hls : ∀ l ∈ ls, l ≠ [] ∧ 13 ∉ l) (s : Bytes) :
    ∃ head, cut (crlf ++ crlf) (unlines ls ++ crlf ++ s) = some (head, s) := by
  induction ls with
  | nil => exact absurd rfl hne
  | cons l ls ih =>
    have hl := (hls l List.mem_cons_self).2
    cases ls with
    | nil =>
      have hself := cut_self (show crlf ++ crlf ≠ [] by decide) s
      refine ⟨l, ?_⟩
      rw [unlines_cons, unlines_nil, List.append_nil, List.append_assoc, List.append_assoc,
        ← List.append_assoc crlf]
      rw [show crlf ++ crlf = 13 :: [10, 13, 10] from rfl] at hself ⊢
      rw [cut_skip hl, hself]
      simp
    | cons l' ls =>
      -- the next line is not empty, and does not start with a line end
      obtain ⟨hne', hl'⟩ := hls l' (by simp)
      obtain ⟨c, t, rfl⟩ := List.exists_cons_of_ne_nil hne'
      obtain ⟨head, hhead⟩ := ih (by simp) fun x hx => hls x (List.mem_cons_of_mem _ hx)
      have hc : c ≠ 13 := by
        rintro rfl
        exact hl' List.mem_cons_self
      refine ⟨l ++ crlf ++ head, ?_⟩
      have hskip := cut_blank_skip hl hc (t ++ crlf ++ unlines ls ++ crlf ++ s)
      simp only [unlines_cons, List.cons_append, List.append_assoc] at hskip hhead ⊢
      rw [hskip, hhead]
      rfl

end NntpPool
