import Mathlib.Data.List.DropRight
/-!
# Words

A text is cut into words at the elements that `p` tells to be separators.
How many of them stand between two words, or around all of them, does not
matter: two texts that differ in that alone have the same words.
-/

namespace NntpPool

section Words

variable {α : Type} {p : α → Bool} {x : α}

/-- **The words of a text.** -/
def words (p : α → Bool) (s : List α) : List (List α) := (s.splitOnP p).filter fun w => !w.isEmpty

/-- The text with every run of separators made one, and none at the
ends. -/
def collapse (p : α → Bool) (sep : α) (s : List α) : List α := [sep].intercalate (words p s)

@[simp] theorem words_nil : words p [] = [] := rfl

/-- **A separator keeps the words apart.** -/
theorem words_append_cons (hx : p x = true) (s t : List α) :
    words p (s ++ x :: t) = words p s ++ words p t := by
  rw [words, List.splitOnP_append_cons _ _ hx, List.filter_append]
  rfl

theorem words_cons (hx : p x = true) (s : List α) : words p (x :: s) = words p s := by
  simpa using words_append_cons hx [] s

theorem words_concat (hx : p x = true) (s : List α) : words p (s ++ [x]) = words p s := by
  simpa using words_append_cons hx s []

/-- Separators at the front, or some of them, may be dropped. -/
theorem words_dropWhile {q : α → Bool} (h : ∀ x, q x = true → p x = true) (s : List α) :
    words p (s.dropWhile q) = words p s := by
  induction s with
  | nil => rfl
  | cons x s ih =>
    rw [List.dropWhile_cons]
    split_ifs with hx
    · rw [ih, words_cons (h x hx)]
    · rfl

theorem words_rdropWhile (s : List α) : words p (s.rdropWhile p) = words p s := by
  induction s using List.reverseRecOn with
  | nil => rfl
  | append_singleton s x ih =>
    rw [List.rdropWhile_concat]
    split_ifs with hx
    · rw [ih, words_concat hx]
    · rfl

/-- A text without separators is one word. -/
theorem words_solid {s : List α} (hs : ∀ x ∈ s, p x = false) (hne : s ≠ []) : words p s = [s] := by
  rw [words, List.splitOnP_eq_singleton hs]
  simp [hne]

/-- What has no separator in it is part of one word. -/
theorem exists_word_of_solid {s : List α} (hs : ∀ x ∈ s, p x = false) (hne : s ≠ [])
    (t : List α) : ∃ w ∈ words p (s ++ t), s.length ≤ w.length := by
  induction t generalizing s with
  | nil => exact ⟨s, by simp [words_solid hs hne], le_rfl⟩
  | cons x t ih =>
    by_cases hx : p x = true
    · refine ⟨s, ?_, le_rfl⟩
      rw [words_append_cons hx, words_solid hs hne]
      simp
    · have hsx : ∀ y ∈ s ++ [x], p y = false := by
        intro y hy
        rcases List.mem_append.mp hy with hy | hy
        · exact hs y hy
        · rw [List.mem_singleton.mp hy]
          simpa using hx
      obtain ⟨w, hw, hlen⟩ := ih hsx (by simp)
      rw [List.append_assoc, List.singleton_append] at hw
      exact ⟨w, hw, by simp at hlen; omega⟩

end Words

end NntpPool
