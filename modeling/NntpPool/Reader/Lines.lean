import NntpPool.Reader.Resume
import NntpPool.Reader.Model.Grammar
/-!
# Reader — text lines

Most turns of the line loop only take note of their line: `noteLine` is
what such a turn leaves. A text of lines that are `Quiet` is read line by
line (`scan_joinLines`), and of a front part of it the loop reads the
lines that are complete (`scan_front`).
-/

namespace NntpPool

namespace Reader

@[simp] theorem joinLines_nil : joinLines [] = [] := rfl

@[simp] theorem joinLines_cons (l : Bytes) (ls : List Bytes) :
    joinLines (l :: ls) = l ++ crlf ++ joinLines ls := by
  simp [joinLines]

theorem joinLines_append (ls ls' : List Bytes) :
    joinLines (ls ++ ls') = joinLines ls ++ joinLines ls' := by
  simp [joinLines]

/-- A front part of a line and what follows it either ends before the
line does or holds all of it. -/
theorem prefix_line {l p t : Bytes} (hl : cut crlf l = none) (h : p <+: l ++ crlf ++ t) :
    (cut crlf p = none ∧ p.length < l.length + 2) ∨ ∃ q, p = l ++ crlf ++ q ∧ q <+: t := by
  rcases Nat.lt_or_ge p.length (l.length + 2) with hlt | hge
  · refine Or.inl ⟨?_, hlt⟩
    cases hp : cut crlf p with
    | none => rfl
    | some s =>
      -- a terminator within `p` would be the line's own, which `p` does not reach
      obtain ⟨u, hu⟩ := h
      have hcut := cut_append u hp
      rw [hu, cut_of_free t hl, Option.some.injEq] at hcut
      have hlen := cut_length hp
      rw [crlf_length] at hlen
      have hl' : l = s.1 := congrArg Prod.fst hcut
      rw [← hl'] at hlen
      omega
  · refine Or.inr ?_
    have hpre : l ++ crlf <+: p :=
      List.prefix_of_prefix_length_le (List.prefix_append _ _) h (by simp; omega)
    obtain ⟨q, rfl⟩ := hpre
    exact ⟨q, rfl, (List.prefix_append_right_inj _).mp h⟩

/-! ## Lines that only leave a note -/

/-- What a line leaves by the format it is in. -/
def formatNote (r : Decoder) (line : Bytes) : Decoder :=
  match r.format with
  | .unknown => { r with lines := r.lines ++ [line] }
  | .yenc => processYencHeader r line
  | .uu => r

/-- What a line that is no status line, no terminator and no start of a
body leaves. -/
def noteLine (r : Decoder) (line : Bytes) : Decoder :=
  if r.format = .unknown then formatNote (detectFormat r line) line else formatNote r line

/-- The line is such a line. -/
structure Quiet (r : Decoder) (line : Bytes) : Prop where
  free : cut crlf line = none
  ne_dot : line ≠ ascii "."
  status : r.statusCode ≠ 0
  noBody : (noteLine r line).format = .yenc → (noteLine r line).body = false

/-- Each of the lines is, in turn. -/
def QuietLines (r : Decoder) : List Bytes → Prop
  | [] => True
  | l :: ls => Quiet r l ∧ QuietLines (noteLine r l) ls

theorem quietLines_append (a b : List Bytes) :
    ∀ {r : Decoder}, QuietLines r (a ++ b) ↔ QuietLines r a ∧ QuietLines (a.foldl noteLine r) b := by
  induction a with
  | nil => intro r; simp [QuietLines]
  | cons l a ih => intro r; simp [QuietLines, ih, and_assoc]

theorem quietLines_take {r : Decoder} {ls : List Bytes} (h : QuietLines r ls) (j : ℕ) :
    QuietLines r (ls.take j) := by
  rw [← List.take_append_drop j ls] at h
  exact ((quietLines_append _ _).mp h).1

section

variable {r : Decoder}

theorem formatNote_format (r : Decoder) (line : Bytes) :
    (formatNote r line).format = r.format := by
  unfold formatNote
  rcases hf : r.format with _ | _ | _
  · rfl
  · exact (congrArg Core.format (core_processYencHeader r line)).trans hf
  · exact hf

theorem formatTurn_of_noBody (dec : DecodeFn) (w : Writer) (out line buf : Bytes)
    (h : (formatNote r line).format = .yenc → (formatNote r line).body = false) :
    formatTurn dec w r out line buf = .goOn (formatNote r line) out (line.length + 2) buf := by
  rw [formatNote_format] at h
  unfold formatTurn formatNote at *
  rcases hf : r.format with _ | _ | _
  · rfl
  · simp only [hf, forall_const] at h
    simp [h]
  · rfl

/-- **The turn of a quiet line.** -/
theorem lineTurn_of_quiet {line : Bytes} (h : Quiet r line) (dec : DecodeFn) (w : Writer)
    (out buf : Bytes) :
    lineTurn dec w r out line buf = .goOn (noteLine r line) out (line.length + 2) buf := by
  have hb := h.noBody
  unfold lineTurn
  rw [if_neg h.ne_dot]
  unfold noteLine at hb ⊢
  split_ifs at hb ⊢ with hu hs
  · exact absurd hs.1 h.status
  · exact formatTurn_of_noBody dec w out line buf hb
  · exact formatTurn_of_noBody dec w out line buf hb

theorem Ready.formatNote {line : Bytes} (h : Ready r) (hb : ¬ InBody r)
    (hn : (formatNote r line).format = .yenc → (formatNote r line).body = false) :
    Ready (formatNote r line) ∧ ¬ InBody (formatNote r line) := by
  have hnot : ¬ InBody (Reader.formatNote r line) := fun hc =>
    Bool.false_ne_true ((hn hc.2).symm.trans hc.1)
  refine ⟨?_, hnot⟩
  unfold Reader.formatNote
  rcases hf : r.format with _ | _ | _
  · exact h.of_state hb h.eof rfl fun hc => absurd hf (h.known hc)
  · exact (h.processYencHeader hb hf line).1
  · exact h

/-- A quiet line keeps the line loop in its place. -/
theorem Ready.noteLine {line : Bytes} (h : Ready r) (hb : ¬ InBody r) (hq : Quiet r line) :
    Ready (noteLine r line) ∧ ¬ InBody (noteLine r line) := by
  have hn := hq.noBody
  unfold Reader.noteLine at hn ⊢
  split_ifs at hn ⊢ with hu
  · obtain ⟨h', hb'⟩ := h.detectFormat hu line
    exact h'.formatNote hb' hn
  · exact h.formatNote hb hn

theorem foldl_noteLine_ready (ls : List Bytes) :
    ∀ {r : Decoder}, Ready r → ¬ InBody r → QuietLines r ls →
      Ready (ls.foldl Reader.noteLine r) ∧ ¬ InBody (ls.foldl Reader.noteLine r) := by
  induction ls with
  | nil => intro r h hb _; exact ⟨h, hb⟩
  | cons l ls ih =>
    intro r h hb hq
    obtain ⟨h', hb'⟩ := h.noteLine hb hq.1
    exact ih h' hb' hq.2

variable (N : Rapidyenc)

/-- **A quiet line is read, and the loop goes on.** -/
theorem scan_line {line : Bytes} (h : Ready r) (hb : ¬ InBody r) (hq : Quiet r line)
    (out t : Bytes) :
    scan N.decodeIncremental accepting r out 0 (line ++ crlf ++ t) =
      (scan N.decodeIncremental accepting (Reader.noteLine r line) out 0 t).map
        (Decoded.shift (line.length + 2)) := by
  rw [scan_of_cut N accepting (h.clear hb) out (cut_of_free t hq.free), lineTurn_of_quiet hq]
  exact scan_shift _ _ _ _ _ _

/-- **Quiet lines are read one by one.** -/
theorem scan_joinLines (ls : List Bytes) :
    ∀ {r : Decoder} (out t : Bytes), Ready r → ¬ InBody r → QuietLines r ls →
      scan N.decodeIncremental accepting r out 0 (joinLines ls ++ t) =
        (scan N.decodeIncremental accepting (ls.foldl Reader.noteLine r) out 0 t).map
          (Decoded.shift (joinLines ls).length) := by
  induction ls with
  | nil =>
    intro r out t h hb _
    exact scan_shift _ _ _ _ _ _
  | cons l ls ih =>
    intro r out t h hb hq
    obtain ⟨h', hb'⟩ := h.noteLine hb hq.1
    rw [joinLines_cons, List.append_assoc, scan_line N h hb hq.1, ih out t h' hb' hq.2,
      Option.map_map]
    congr 1
    funext d
    simp only [Function.comp_apply, Decoded.shift_shift, List.length_append, crlf_length]
    push_cast
    rfl

/-- **Of a front part of quiet lines those that are complete are read.** -/
theorem scan_front (ls : List Bytes) :
    ∀ {r : Decoder} (out t : Bytes) {p : Bytes}, Ready r → ¬ InBody r → QuietLines r ls →
      p <+: joinLines ls ++ t →
      (∃ j q, j < ls.length ∧ p = joinLines (ls.take j) ++ q ∧
        p.length < (joinLines (ls.take (j + 1))).length ∧
        scan N.decodeIncremental accepting r out 0 p =
          some ⟨(ls.take j).foldl Reader.noteLine r, out, (joinLines (ls.take j)).length, q, none⟩) ∨
      ∃ q, p = joinLines ls ++ q ∧ q <+: t := by
  induction ls with
  | nil =>
    intro r out t p _ _ _ hp
    exact Or.inr ⟨p, rfl, hp⟩
  | cons l ls ih =>
    intro r out t p h hb hq hp
    rw [joinLines_cons, List.append_assoc] at hp
    rcases prefix_line hq.1.free hp with ⟨hcut, hlt⟩ | ⟨q, rfl, hq'⟩
    · refine Or.inl ⟨0, p, by simp, by simp, ?_, ?_⟩
      · simpa using hlt
      · rw [scan_of_cut_none N accepting out 0 hcut]
        simp
    · obtain ⟨h', hb'⟩ := h.noteLine hb hq.1
      rcases ih out t h' hb' hq.2 hq' with ⟨j, q', hj, rfl, hlt, hscan⟩ | ⟨q', rfl, hq''⟩
      · refine Or.inl ⟨j + 1, q', by simpa using hj, by simp, ?_, ?_⟩
        · simp only [List.take_succ_cons, joinLines_cons, List.length_append] at hlt ⊢
          omega
        · rw [scan_line N h hb hq.1, hscan]
          simp [Decoded.shift, Int.add_assoc]
      · exact Or.inr ⟨q', by simp, hq''⟩

/-! ## Begin lines -/

/-- Octal digits. -/
def isOctal (s : Bytes) : Bool := s.all fun c => 48 ≤ c && c ≤ 55

/-- The line before UU data: the permissions, behind more spaces than the
one there must be, and a file name. -/
def beginLine (spaces : ℕ) (perms name : Bytes) : Bytes :=
  ascii "begin " ++ (List.replicate spaces 32 ++ perms ++ 32 :: name)

/-- **A line that starts with `begin ` tells nothing**: all spaces are
trimmed off, and then one is looked for. -/
theorem detectFormat_begin (r : Decoder) (s : Bytes) :
    detectFormat r (ascii "begin " ++ s) = r := by
  have hbegin : ascii "begin " = [98, 101, 103, 105, 110, 32] := by decide
  have hrest : ∀ perms, (s.dropWhile (· == 32)) ≠ 32 :: perms := by
    intro perms heq
    have hnot := List.head?_dropWhile_not (· == (32 : UInt8)) s
    simp [heq] at hnot
  have hyenc : (ascii "=ybegin ").isPrefixOf (ascii "begin " ++ s) = false := by
    rw [hbegin]
    rfl
  have hpre : (ascii "begin ").isPrefixOf (ascii "begin " ++ s) = true := by simp
  have hdrop : (ascii "begin " ++ s).drop 6 = s := by
    rw [hbegin]
    rfl
  unfold detectFormat
  split_ifs with hstatus hnil h₃ h₄
  · rfl
  · simp [hbegin] at hnil
  · simp [hyenc] at h₃
  · simp [hbegin] at h₄
  · rw [hdrop]
    split
    · rename_i perms heq
      exact absurd heq (hrest perms)
    · rfl

/-- **A begin line is read as text**, like any other. -/
theorem scan_begin (h : Ready r) (hb : ¬ InBody r) (hstatus : r.statusCode ≠ 0)
    (hformat : r.format = .unknown) {line : Bytes} (hline : ascii "begin " <+: line)
    (hfree : cut crlf line = none) (out t : Bytes) :
    scan N.decodeIncremental accepting r out 0 (line ++ crlf ++ t) =
      (scan N.decodeIncremental accepting { r with lines := r.lines ++ [line] } out 0 t).map
        (Decoded.shift (line.length + 2)) := by
  obtain ⟨s, rfl⟩ := hline
  have hnote : noteLine r (ascii "begin " ++ s) =
      { r with lines := r.lines ++ [ascii "begin " ++ s] } := by
    rw [noteLine, if_pos hformat, detectFormat_begin, formatNote, hformat]
  have hquiet : Quiet r (ascii "begin " ++ s) := by
    refine ⟨hfree, ?_, hstatus, ?_⟩
    · intro heq
      have hlen := congrArg List.length heq
      rw [List.length_append, show (ascii "begin ").length = 6 by decide] at hlen
      simp [ascii] at hlen
      omega
    · rw [hnote]
      intro hy
      rw [hformat] at hy
      cases hy
  rw [scan_line N h hb hquiet, hnote]

/-- **A begin line is told from others** only where it is none: the format
is as it should be exactly if the permissions are not octal. -/
theorem begin_line_recognised_iff (hformat : r.format = .unknown) (spaces : ℕ)
    (perms name : Bytes) :
    ((isOctal perms = true → (detectFormat r (beginLine spaces perms name)).format = .uu) ∧
      (isOctal perms = false →
        (detectFormat r (beginLine spaces perms name)).format = .unknown)) ↔
      isOctal perms = false := by
  rw [beginLine, detectFormat_begin, hformat]
  cases isOctal perms <;> simp

theorem begin_line_recognised_text :
    ({ statusCode := nntpBody } : Decoder).format = .unknown ∧
      isOctal (ascii "no") = false ∧
      (detectFormat { statusCode := nntpBody } (beginLine 1 (ascii "no") (ascii "more"))).format =
        .unknown := by
  have hoctal : isOctal (ascii "no") = false := by decide
  have hiff := begin_line_recognised_iff (r := { statusCode := nntpBody }) rfl 1 (ascii "no")
    (ascii "more")
  exact ⟨rfl, hoctal, (hiff.mpr hoctal).2 hoctal⟩

/-- **No begin line is recognised**: the one of a common UU file. -/
theorem begin_line_missed :
    isOctal (ascii "644") = true ∧
      beginLine 0 (ascii "644") (ascii "file.bin") = ascii "begin 644 file.bin" ∧
      (detectFormat { statusCode := nntpBody } (ascii "begin 644 file.bin")).format =
        .unknown := by
  decide

end

end Reader

end NntpPool
