import Mathlib.Algebra.Order.Ring.Int
import Mathlib.Data.List.Infix
/-!
# Byte strings

Go's byte slices and strings as lists of bytes, with the few functions of
the `bytes` and `strconv` packages a line protocol reads its input with.
`cut` is the one the proofs lean on: it splits at the first separator,
so what it finds in a prefix of the input it finds in the whole
(`cut_append`), and a piece free of the separator is what it returns
(`cut_of_free`).
-/

namespace NntpPool

/-- A byte string. -/
abbrev Bytes := List UInt8

/-- The bytes of an ASCII literal. -/
def ascii (s : String) : Bytes := s.toList.map fun c => c.toNat.toUInt8

/-- The line terminator. -/
def crlf : Bytes := [13, 10]

@[simp] theorem crlf_length : crlf.length = 2 := rfl

/-- What holds number by number holds of every byte. -/
theorem forall_byte {P : UInt8 → Prop} (h : ∀ n < 256, P (UInt8.ofNat n)) (b : UInt8) : P b := by
  have hb := h b.toNat (UInt8.toNat_lt b)
  rwa [UInt8.ofNat_toNat] at hb

/-! ## Cutting at a separator -/

/-- `bytes.Cut`: the text before and after the first `sep`, if there is
one. -/
def cut (sep : Bytes) : Bytes → Option (Bytes × Bytes)
  | [] => if sep = [] then some ([], []) else none
  | b :: bs =>
    if sep.isPrefixOf (b :: bs) then some ([], (b :: bs).drop sep.length)
    else (cut sep bs).map fun p => (b :: p.1, p.2)

theorem cut_nil (sep : Bytes) : cut sep [] = if sep = [] then some ([], []) else none := rfl

theorem cut_cons (sep : Bytes) (b : UInt8) (bs : Bytes) :
    cut sep (b :: bs) = if sep.isPrefixOf (b :: bs) then some ([], (b :: bs).drop sep.length)
      else (cut sep bs).map fun p => (b :: p.1, p.2) := rfl

/-- A cut splits the text around the separator. -/
theorem cut_eq {sep s line rest : Bytes} (h : cut sep s = some (line, rest)) :
    s = line ++ sep ++ rest := by
  induction s generalizing line with
  | nil =>
    simp only [cut_nil] at h
    split at h
    · simp only [Option.some.injEq, Prod.mk.injEq] at h
      obtain ⟨rfl, rfl⟩ := h
      simp_all
    · cases h
  | cons b bs ih =>
    simp only [cut_cons] at h
    split at h
    · rename_i hp
      simp only [Option.some.injEq, Prod.mk.injEq] at h
      obtain ⟨rfl, rfl⟩ := h
      obtain ⟨t, ht⟩ := List.isPrefixOf_iff_prefix.mp hp
      rw [← ht]
      simp
    · obtain ⟨⟨l, r⟩, hc, hp⟩ := Option.map_eq_some_iff.mp h
      simp only [Prod.mk.injEq] at hp
      obtain ⟨rfl, rfl⟩ := hp
      rw [ih hc]
      simp

/-- The lengths of the pieces. -/
theorem cut_length {sep s line rest : Bytes} (h : cut sep s = some (line, rest)) :
    s.length = line.length + sep.length + rest.length := by
  rw [cut_eq h]
  simp only [List.length_append]

/-- What is behind the separator. -/
theorem drop_of_cut {sep s line rest : Bytes} (h : cut sep s = some (line, rest)) :
    s.drop (line.length + sep.length) = rest := by
  rw [cut_eq h, ← List.length_append, List.drop_left]

/-- **What a cut finds in a prefix it finds in the whole.** -/
theorem cut_append {sep s line rest : Bytes} (t : Bytes) (h : cut sep s = some (line, rest)) :
    cut sep (s ++ t) = some (line, rest ++ t) := by
  induction s generalizing line with
  | nil =>
    simp only [cut_nil] at h
    split at h
    · rename_i hs
      simp only [Option.some.injEq, Prod.mk.injEq] at h
      obtain ⟨rfl, rfl⟩ := h
      subst hs
      cases t <;> simp [cut_nil, cut_cons]
    · cases h
  | cons b bs ih =>
    simp only [List.cons_append, cut_cons] at h ⊢
    split at h
    · rename_i hp
      simp only [Option.some.injEq, Prod.mk.injEq] at h
      obtain ⟨rfl, rfl⟩ := h
      obtain ⟨u, hu⟩ := List.isPrefixOf_iff_prefix.mp hp
      have hpt : sep.isPrefixOf (b :: (bs ++ t)) = true := by
        rw [List.isPrefixOf_iff_prefix]
        exact ⟨u ++ t, by rw [← List.append_assoc, hu]; rfl⟩
      rw [if_pos hpt]
      have hlen : sep.length ≤ (b :: bs).length := (List.isPrefixOf_iff_prefix.mp hp).length_le
      have hdrop : (b :: bs ++ t).drop sep.length = (b :: bs).drop sep.length ++ t :=
        List.drop_append_of_le_length hlen
      rw [← hdrop, List.cons_append]
    · rename_i hp
      obtain ⟨⟨l, r⟩, hc, hq⟩ := Option.map_eq_some_iff.mp h
      simp only [Prod.mk.injEq] at hq
      obtain ⟨rfl, rfl⟩ := hq
      -- an occurrence at the head of the whole would already lie within `b :: bs`
      have hnp : ¬ sep.isPrefixOf (b :: (bs ++ t)) = true := by
        intro hcon
        refine hp (List.isPrefixOf_iff_prefix.mpr ?_)
        have hlen := cut_length hc
        exact List.prefix_of_prefix_length_le (List.isPrefixOf_iff_prefix.mp hcon)
          (by rw [← List.cons_append]; exact List.prefix_append _ _) (by simp; omega)
      rw [if_neg hnp, ih hc]
      rfl

/-- **A piece without the separator is what the cut returns.** -/
theorem cut_of_free {line : Bytes} (rest : Bytes) (h : cut crlf line = none) :
    cut crlf (line ++ crlf ++ rest) = some (line, rest) := by
  induction line with
  | nil => simp [cut_cons, crlf]
  | cons b bs ih =>
    simp only [cut_cons] at h
    split at h
    · cases h
    · rename_i hp
      rw [Option.map_eq_none_iff] at h
      have hnp : ¬ crlf.isPrefixOf (b :: (bs ++ crlf ++ rest)) = true := by
        cases bs with
        | nil => simp [crlf]
        | cons c cs => simpa [crlf] using hp
      simp only [List.cons_append, cut_cons]
      rw [if_neg hnp, ih h]
      rfl

/-- Behind a byte of a line, a line; and behind a carriage return no line
feed. -/
theorem cut_cons_eq_none {b : UInt8} {t : Bytes} (h : cut crlf (b :: t) = none) :
    cut crlf t = none ∧ (b = 13 → t.head? ≠ some 10) := by
  simp only [cut_cons] at h
  split at h
  · cases h
  · rename_i hp
    refine ⟨Option.map_eq_none_iff.mp h, ?_⟩
    rintro rfl hhead
    cases t with
    | nil => cases hhead
    | cons c t =>
      simp only [List.head?_cons, Option.some.injEq] at hhead
      subst hhead
      exact hp (by simp [crlf])

/-- The cut right behind the separator. -/
theorem cut_self {sep : Bytes} (h : sep ≠ []) (s : Bytes) : cut sep (sep ++ s) = some ([], s) := by
  cases sep with
  | nil => exact absurd rfl h
  | cons x sep => simp [cut_cons]

/-- Where the separator cannot start, nothing is cut. -/
theorem cut_skip {x : UInt8} {sep pre : Bytes} (h : x ∉ pre) (s : Bytes) :
    cut (x :: sep) (pre ++ s) = (cut (x :: sep) s).map fun p => (pre ++ p.1, p.2) := by
  induction pre with
  | nil => simp
  | cons b pre ih =>
    obtain ⟨hne, hpre⟩ : x ≠ b ∧ x ∉ pre := by simpa using h
    have hhead : ¬(x :: sep).isPrefixOf (b :: (pre ++ s)) = true := by
      simp [hne]
    rw [List.cons_append, cut_cons, if_neg hhead, ih hpre, Option.map_map]
    rfl

/-- A field that starts like the separator and goes on otherwise is
skipped. -/
theorem cut_skip_field {x c c' : UInt8} {sep v : Bytes} (hne : c ≠ c') (h : x ∉ c' :: v)
    (s : Bytes) :
    cut (x :: c :: sep) (x :: c' :: v ++ s) =
      (cut (x :: c :: sep) s).map fun p => (x :: c' :: v ++ p.1, p.2) := by
  have hhead : ¬(x :: c :: sep).isPrefixOf (x :: (c' :: v ++ s)) = true := by
    simp [hne]
  rw [List.cons_append, cut_cons, if_neg hhead, cut_skip h, Option.map_map]
  rfl

/-! ## Searching -/

/-- `bytes.Index`: where `sep` first occurs. -/
def index (s sep : Bytes) : Option ℕ := (cut sep s).map fun p => p.1.length

/-- `bytes.Contains`. -/
def contains (s sep : Bytes) : Bool := (index s sep).isSome

/-- The text up to the first byte of `set`, which is what a slice at
`bytes.IndexAny` keeps. -/
def untilAny (set s : Bytes) : Bytes := s.takeWhile fun b => !set.contains b

/-! ## Numbers -/

/-- The errors of `strconv`. -/
inductive NumErr
  | syntaxErr
  | rangeErr
  deriving DecidableEq, Repr

/-- The largest signed 64-bit value. -/
def maxInt64 : ℤ := 2 ^ 63 - 1

/-- The value of a digit, in any base up to 36. -/
def digitVal (b : UInt8) : Option ℕ :=
  if 48 ≤ b ∧ b ≤ 57 then some (b.toNat - 48)
  else if 97 ≤ b ∧ b ≤ 122 then some (b.toNat - 97 + 10)
  else if 65 ≤ b ∧ b ≤ 90 then some (b.toNat - 65 + 10)
  else none

/-- The loop of `strconv.ParseUint`: the first digit that does not belong
to the base is a syntax error, the first overflow a range error, and the
bytes after either are not looked at. -/
def parseUintLoop (base maxVal : ℕ) : ℕ → Bytes → ℕ × Option NumErr
  | n, [] => (n, none)
  | n, b :: bs =>
    match digitVal b with
    | none => (0, some .syntaxErr)
    | some d =>
      if base ≤ d then (0, some .syntaxErr)
      else if maxVal < n * base + d then (maxVal, some .rangeErr)
      else parseUintLoop base maxVal (n * base + d) bs

/-- `strconv.ParseUint` at a given base and bit size. -/
def parseUint (base bits : ℕ) (s : Bytes) : ℕ × Option NumErr :=
  if s = [] then (0, some .syntaxErr) else parseUintLoop base (2 ^ bits - 1) 0 s

/-- `strconv.ParseInt` in base ten at 64 bits: an optional sign, then the
digits; out of range it answers the nearest bound with the error. -/
def parseInt (s : Bytes) : ℤ × Option NumErr :=
  let (neg, digits) : Bool × Bytes := match s with
    | 43 :: ds => (false, ds)
    | 45 :: ds => (true, ds)
    | ds => (false, ds)
  match parseUint 10 64 digits with
  | (_, some .syntaxErr) => (0, some .syntaxErr)
  | (un, e) =>
    if neg then
      if 2 ^ 63 < un then (-2 ^ 63, some .rangeErr) else (-un, e)
    else
      if 2 ^ 63 ≤ un then (maxInt64, some .rangeErr) else (un, e)

/-- `strconv.Atoi`, which on text as short as a status code is `parseInt`. -/
def atoi (s : Bytes) : ℤ × Option NumErr := parseInt s

end NntpPool
