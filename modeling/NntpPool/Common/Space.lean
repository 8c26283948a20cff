import NntpPool.Common.Bytes
import NntpPool.Common.Words
/-!
# White space

`strings.TrimSpace` on byte strings. White space is what Unicode says it
is, so at either end there may be characters of one, two or three bytes
to be taken off. In a text of ASCII alone it is the six blanks of one byte
(`trimSpace_of_ascii`), and the words are not touched
(`words_trimSpace`).
-/

namespace NntpPool

variable {s : Bytes}

/-- White space of one byte. -/
def isSpace (b : UInt8) : Bool := [9, 10, 11, 12, 13, 32].contains b

/-- White space of two bytes: U+0085 and U+00A0. -/
def isSpace₂ (a b : UInt8) : Bool := a == 0xC2 && (b == 0x85 || b == 0xA0)

/-- White space of three bytes: U+1680, U+2000 to U+200A, U+2028, U+2029,
U+202F, U+205F and U+3000. -/
def isSpace₃ (a b c : UInt8) : Bool :=
  (a == 0xE1 && b == 0x9A && c == 0x80) ||
    (a == 0xE2 && b == 0x80 &&
      ((0x80 ≤ c && c ≤ 0x8A) || c == 0xA8 || c == 0xA9 || c == 0xAF)) ||
    (a == 0xE2 && b == 0x81 && c == 0x9F) || (a == 0xE3 && b == 0x80 && c == 0x80)

/-- The text without the white space it starts with, where `two` and
`three` tell the characters of more than one byte. -/
def peel (two : UInt8 → UInt8 → Bool) (three : UInt8 → UInt8 → UInt8 → Bool) : Bytes → Bytes
  | [] => []
  | [a] => if isSpace a then [] else [a]
  | [a, b] =>
    if isSpace a then peel two three [b] else if two a b then [] else [a, b]
  | a :: b :: c :: s =>
    if isSpace a then peel two three (b :: c :: s)
    else if two a b then peel two three (c :: s)
    else if three a b c then peel two three s
    else a :: b :: c :: s

/-- **`strings.TrimSpace`.** At the end the characters are met with their
last byte first. -/
def trimSpace (s : Bytes) : Bytes :=
  (peel (fun b a => isSpace₂ a b) (fun c b a => isSpace₃ a b c)
    (peel isSpace₂ isSpace₃ s).reverse).reverse

/-- A text of ASCII. -/
def isASCII (s : Bytes) : Bool := s.all fun b => b ≤ 127

theorem isASCII_iff : isASCII s = true ↔ ∀ b ∈ s, b ≤ 127 := by
  simp [isASCII]

/-! ## Texts of ASCII -/

section Ascii

variable {two : UInt8 → UInt8 → Bool} {three : UInt8 → UInt8 → UInt8 → Bool}
  (htwo : ∀ a b, a ≤ 127 → two a b = false) (hthree : ∀ a b c, a ≤ 127 → three a b c = false)

include htwo hthree

/-- A byte of ASCII is a character. -/
theorem peel_cons {a : UInt8} (ha : a ≤ 127) (s : Bytes) :
    peel two three (a :: s) = if isSpace a then peel two three s else a :: s := by
  match s with
  | [] => simp [peel]
  | [b] => simp [peel, htwo a b ha]
  | b :: c :: s => simp [peel, htwo a b ha, hthree a b c ha]

theorem peel_of_ascii (hs : ∀ b ∈ s, b ≤ 127) : peel two three s = s.dropWhile isSpace := by
  induction s with
  | nil => rfl
  | cons a s ih =>
    rw [peel_cons htwo hthree (hs a List.mem_cons_self), List.dropWhile_cons,
      ih fun b hb => hs b (List.mem_cons_of_mem _ hb)]

end Ascii

theorem isSpace₂_bounds {a b : UInt8} (h : isSpace₂ a b = true) : 127 < a ∧ 127 < b := by
  simp only [isSpace₂, Bool.and_eq_true, Bool.or_eq_true, beq_iff_eq] at h
  obtain ⟨rfl, rfl | rfl⟩ := h <;> decide

theorem isSpace₃_bounds {a b c : UInt8} (h : isSpace₃ a b c = true) : 127 < a ∧ 127 < c := by
  simp only [isSpace₃, Bool.and_eq_true, Bool.or_eq_true, beq_iff_eq, decide_eq_true_eq] at h
  rcases h with ((⟨⟨rfl, -⟩, rfl⟩ | ⟨⟨rfl, -⟩, hc⟩) | ⟨⟨rfl, -⟩, rfl⟩) | ⟨⟨rfl, -⟩, rfl⟩
  · decide
  · refine ⟨by decide, ?_⟩
    rcases hc with ((⟨hle, -⟩ | rfl) | rfl) | rfl
    · exact UInt8.lt_of_lt_of_le (by decide) hle
    all_goals decide
  · decide
  · decide

/-- **In a text of ASCII** the blanks are taken off. -/
theorem trimSpace_of_ascii (hs : ∀ b ∈ s, b ≤ 127) :
    trimSpace s = (s.dropWhile isSpace).rdropWhile isSpace := by
  have hfront : peel isSpace₂ isSpace₃ s = s.dropWhile isSpace := by
    refine peel_of_ascii (fun a b ha => ?_) (fun a b c ha => ?_) hs
    · exact Bool.eq_false_iff.mpr fun h => UInt8.not_le.mpr (isSpace₂_bounds h).1 ha
    · exact Bool.eq_false_iff.mpr fun h => UInt8.not_le.mpr (isSpace₃_bounds h).1 ha
  -- a character of more bytes ends with one that is not ASCII, too
  have hback (t : Bytes) (ht : ∀ b ∈ t, b ≤ 127) :
      peel (fun b a => isSpace₂ a b) (fun c b a => isSpace₃ a b c) t = t.dropWhile isSpace := by
    refine peel_of_ascii (fun b a hb => ?_) (fun c b a hc => ?_) ht
    · exact Bool.eq_false_iff.mpr fun h => UInt8.not_le.mpr (isSpace₂_bounds h).2 hb
    · exact Bool.eq_false_iff.mpr fun h => UInt8.not_le.mpr (isSpace₃_bounds h).2 hc
  rw [trimSpace, hfront, hback _ fun b hb => hs b ?_, List.rdropWhile]
  exact (List.dropWhile_sublist _).subset (List.mem_reverse.mp hb)

/-- **The words are not touched.** -/
theorem words_trimSpace (hs : ∀ b ∈ s, b ≤ 127) :
    words isSpace (trimSpace s) = words isSpace s := by
  rw [trimSpace_of_ascii hs, words_rdropWhile, words_dropWhile fun _ => id]

/-- What has no blank in it is left as it is. -/
theorem trimSpace_of_solid (hs : ∀ b ∈ s, b ≤ 127 ∧ isSpace b = false) : trimSpace s = s := by
  have hfront : s.dropWhile isSpace = s := by
    cases s with
    | nil => rfl
    | cons a s => rw [List.dropWhile_cons, (hs a List.mem_cons_self).2, if_neg Bool.false_ne_true]
  rw [trimSpace_of_ascii fun b hb => (hs b hb).1, hfront, List.rdropWhile_eq_self_iff]
  intro hne
  simp [(hs _ (List.getLast_mem hne)).2]

end NntpPool
