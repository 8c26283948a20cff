import NntpPool.Post.Fold
import NntpPool.Post.Model.Post
import Mathlib.Data.List.Forall2
/-!
# Post — the header block

What a header block is: fields, each with its name in the first line and
a TAB before every other one, no half of a line end in any line, and an
empty line behind them. A reader finds the fields in such a block, and its
end (`IsBlock.namesIn`, `IsBlock.ends`). `WriteTo` writes one, for all
headers that `validate` lets through.
-/

namespace NntpPool

namespace Post

variable {h : PostHeaders} {encode : Bytes → Bytes} {now : UTC} {ns : List Bytes}
  {name out s : Bytes} {b : UInt8}

/-! ## Blocks -/

/-- **The lines of a field.** -/
structure IsField (name : Bytes) (ls : List Bytes) : Prop where
  shape : ∃ (text : Bytes) (rest : List Bytes), ls = (name ++ 58 :: text) :: rest.map (9 :: ·)
  clean : ∀ l ∈ ls, Clean l

/-- **A header block** with fields of the given names: line ends are at the
end of a field, before a TAB within one, or that of the empty line. -/
def IsBlock (names : List Bytes) (out : Bytes) : Prop :=
  ∃ fields, List.Forall₂ IsField names fields ∧ out = unlines fields.flatten ++ crlf

/-- A line that starts a field. -/
def startsField (l : Bytes) : Bool := l.head?.any fun b => !isBlank b

/-- The names that lines show: a field starts with a line that does not
start with a blank, and its name ends at the colon. -/
def namesOf (ls : List Bytes) : List (Option Bytes) :=
  (ls.filter startsField).map fun l => (cut (ascii ":") l).map Prod.fst

/-- **The names a reader finds.** -/
def namesIn (out : Bytes) : List (Option Bytes) := namesOf (splitCRLF out)

/-- A byte of a header name. -/
def isNameByte (b : UInt8) : Bool := !(b < 33 || 126 < b || b == 58)

theorem isValidHeaderName_iff :
    isValidHeaderName name = true ↔ name ≠ [] ∧ ∀ b ∈ name, isNameByte b = true := by
  simp [isValidHeaderName, isNameByte]

/-- What a byte of a header name is not. -/
structure NameByte (b : UInt8) : Prop where
  ascii : b ≤ 127
  space : isSpace b = false
  blank : isBlank b = false
  colon : b ≠ 58
  cr : b ≠ 13
  lf : b ≠ 10

theorem isNameByte_spec (hb : isNameByte b = true) : NameByte b := by
  have hall : ∀ b, isNameByte b = true →
      b ≤ 127 ∧ isSpace b = false ∧ isBlank b = false ∧ b ≠ 58 ∧ b ≠ 13 ∧ b ≠ 10 :=
    forall_byte (by decide +kernel)
  obtain ⟨hascii, hspace, hblank, hcolon, hcr, hlf⟩ := hall b hb
  exact ⟨hascii, hspace, hblank, hcolon, hcr, hlf⟩

theorem cut_colon (hname : 58 ∉ name) (text : Bytes) :
    cut (ascii ":") (name ++ 58 :: text) = some (name, text) := by
  have hself : cut [58] (58 :: text) = some ([], text) := cut_self (by decide) text
  rw [show ascii ":" = [58] from by decide, cut_skip hname, hself]
  simp

theorem namesOf_append (ls ls' : List Bytes) : namesOf (ls ++ ls') = namesOf ls ++ namesOf ls' := by
  rw [namesOf, List.filter_append, List.map_append]
  rfl

/-- A field, to a reader. -/
theorem IsField.namesOf {ls : List Bytes} (hf : IsField name ls)
    (hname : isValidHeaderName name = true) : namesOf ls = [some name] := by
  obtain ⟨hne, hbytes⟩ := isValidHeaderName_iff.1 hname
  obtain ⟨⟨text, rest, rfl⟩, -⟩ := hf
  have hfirst : startsField (name ++ 58 :: text) = true := by
    obtain ⟨c, t, rfl⟩ := List.exists_cons_of_ne_nil hne
    simp [startsField, (isNameByte_spec (hbytes c List.mem_cons_self)).blank]
  have hrest : (rest.map (9 :: ·)).filter startsField = [] := by
    simp [List.filter_eq_nil_iff, startsField, isBlank]
  have hcolon : 58 ∉ name := fun hin => (isNameByte_spec (hbytes 58 hin)).colon rfl
  rw [Post.namesOf, List.filter_cons, if_pos hfirst, hrest, List.map_singleton, cut_colon hcolon]
  rfl

/-- The lines of all fields. -/
theorem IsBlock.lines (hb : IsBlock ns out)
    (hnames : ∀ n ∈ ns, isValidHeaderName n = true) :
    ∃ ls, out = unlines ls ++ crlf ∧ (∀ l ∈ ls, l ≠ [] ∧ Clean l) ∧ namesOf ls = ns.map some := by
  obtain ⟨fields, hfields, rfl⟩ := hb
  refine ⟨fields.flatten, rfl, ?_⟩
  induction hfields with
  | nil => exact ⟨by simp, rfl⟩
  | @cons name ls ns fields hf _ ih =>
    obtain ⟨hclean, hof⟩ := ih fun n hn => hnames n (List.mem_cons_of_mem _ hn)
    rw [List.flatten_cons, namesOf_append, hf.namesOf (hnames name List.mem_cons_self), hof]
    refine ⟨fun l hl => ?_, rfl⟩
    rcases List.mem_append.mp hl with hl | hl
    · refine ⟨?_, hf.clean l hl⟩
      -- there is a colon or a TAB in every line
      rintro rfl
      obtain ⟨text, rest, rfl⟩ := hf.shape
      simp at hl
    · exact hclean l hl

/-- **A reader finds the fields**, and no others. -/
theorem IsBlock.namesIn (hb : IsBlock ns out)
    (hnames : ∀ n ∈ ns, isValidHeaderName n = true) : namesIn out = ns.map some := by
  obtain ⟨ls, rfl, hls, hof⟩ := hb.lines hnames
  have hend : splitCRLF crlf = [[], []] := rfl
  rw [Post.namesIn, splitCRLF_unlines fun l hl => (hls l hl).2.1, namesOf_append, hof, hend]
  simp [namesOf, startsField]

/-- **The first empty line ends the block.** -/
theorem IsBlock.ends (hb : IsBlock ns out) (hne : ns ≠ [])
    (hnames : ∀ n ∈ ns, isValidHeaderName n = true) (s : Bytes) :
    ∃ head, cut (crlf ++ crlf) (out ++ s) = some (head, s) := by
  obtain ⟨ls, rfl, hls, hof⟩ := hb.lines hnames
  have hlsne : ls ≠ [] := by
    rintro rfl
    exact hne (List.map_eq_nil_iff.mp hof.symm)
  exact cut_blank_line hlsne (fun l hl => ⟨(hls l hl).1, (hls l hl).2.1⟩) s

/-! ## What `validate` lets through -/

theorem containsCRLF_eq_false : containsCRLF s = false ↔ Clean s := by
  simp only [containsCRLF, containsAny, crlf, List.any_eq_false, List.contains_cons,
    List.contains_nil, Bool.or_false, Bool.or_eq_true, beq_iff_eq, not_or]
  constructor
  · intro hs
    exact ⟨fun hin => (hs 13 hin).1 rfl, fun hin => (hs 10 hin).2 rfl⟩
  · intro hs b hb
    exact ⟨fun heq => hs.1 (heq ▸ hb), fun heq => hs.2 (heq ▸ hb)⟩

/-- **Headers that were let through.** -/
structure PostHeaders.Valid (h : PostHeaders) : Prop where
  fromAddr : Clean h.fromAddr
  subject : Clean h.subject
  newsgroups : ∀ g ∈ h.newsgroups, isValidNewsgroupName (trimSpace g) = true
  messageID : Clean h.messageID
  extra : ∀ e ∈ h.extra, isValidHeaderName e.1 = true ∧ ∀ v ∈ e.2, Clean v

theorem validateMessageID_clean {id : Bytes} (hid : validateMessageID id = none) : Clean id := by
  unfold validateMessageID at hid
  split_ifs at hid with hnil hcrlf
  · rw [hnil]
    exact ⟨List.not_mem_nil, List.not_mem_nil⟩
  · exact containsCRLF_eq_false.1 (by simpa using hcrlf)

theorem validateExtra_valid {extra : List (Bytes × List Bytes)}
    (hextra : validateExtra extra = none) :
    ∀ e ∈ extra, isValidHeaderName e.1 = true ∧ ∀ v ∈ e.2, Clean v := by
  intro e he
  have hnone := List.findSome?_eq_none_iff.mp hextra e he
  dsimp only at hnone
  split_ifs at hnone with hname hvalues
  refine ⟨by simpa using hname, fun v hv => containsCRLF_eq_false.1 ?_⟩
  by_contra hcrlf
  exact hvalues (List.any_eq_true.mpr ⟨v, hv, by simpa using hcrlf⟩)

theorem validate_valid (hvalid : h.validate = none) : h.Valid := by
  unfold PostHeaders.validate at hvalid
  split_ifs at hvalid with h₁ hfrom h₃ hsubject h₅
  split at hvalid
  · cases hvalid
  · rename_i hgroups
    obtain ⟨hid, hextra⟩ := Option.or_eq_none_iff.mp hvalid
    exact {
      fromAddr := containsCRLF_eq_false.1 (by simpa using hfrom)
      subject := containsCRLF_eq_false.1 (by simpa using hsubject)
      newsgroups := fun g hg => by simpa using List.find?_eq_none.mp hgroups g hg
      messageID := validateMessageID_clean hid
      extra := validateExtra_valid hextra }

/-! ## What is written -/

/-- Printable ASCII, or a space. -/
def isPrintable (b : UInt8) : Bool := 32 ≤ b && b ≤ 126

def Printable (s : Bytes) : Prop := ∀ b ∈ s, isPrintable b = true

instance : Decidable (Printable s) := inferInstanceAs (Decidable (∀ b ∈ s, isPrintable b = true))

theorem printable_iff : Printable s ↔ s.all isPrintable = true := List.all_eq_true.symm

theorem isPrintable_ne (hb : isPrintable b = true) : b ≤ 127 ∧ b ≠ 13 ∧ b ≠ 10 := by
  simp only [isPrintable, Bool.and_eq_true, decide_eq_true_eq] at hb
  refine ⟨UInt8.le_trans hb.2 (by decide), ?_, ?_⟩
  · rintro rfl
    exact absurd hb.1 (by decide)
  · rintro rfl
    exact absurd hb.1 (by decide)

theorem Printable.clean (hs : Printable s) : Clean s :=
  ⟨fun hin => (isPrintable_ne (hs 13 hin)).2.1 rfl, fun hin => (isPrintable_ne (hs 10 hin)).2.2 rfl⟩

theorem Printable.append {t : Bytes} (hs : Printable s) (ht : Printable t) : Printable (s ++ t) := by
  intro b hb
  rcases List.mem_append.mp hb with hb | hb
  · exact hs b hb
  · exact ht b hb

theorem Printable.intercalate {sep : Bytes} {ls : List Bytes} (hsep : Printable sep)
    (hls : ∀ l ∈ ls, Printable l) : Printable (sep.intercalate ls) := by
  induction ls with
  | nil => simp [Printable, List.intercalate]
  | cons l ls ih =>
    have hl := hls l List.mem_cons_self
    cases ls with
    | nil => simpa [List.intercalate] using hl
    | cons l' ls =>
      have hrest := ih fun x hx => hls x (List.mem_cons_of_mem _ hx)
      rw [List.intercalate_cons_cons]
      exact (hl.append hsep).append hrest

theorem printable_newsgroup (hs : isValidNewsgroupName s = true) : Printable s := by
  have hbyte : ∀ b, (isAlphanumeric b || (ascii ".+_-").contains b) = true →
      isPrintable b = true := forall_byte (by decide +kernel)
  cases s with
  | nil => cases hs
  | cons c s =>
    simp only [isValidNewsgroupName, Bool.and_eq_true, List.all_eq_true] at hs
    intro b hb
    rcases List.mem_cons.mp hb with rfl | hb
    · exact hbyte b (by simp [hs.1])
    · exact hbyte b (hs.2 b hb)

theorem printable_appendInt (x : ℤ) (width : ℕ) : Printable (appendInt x width) := by
  refine Printable.append (Printable.append ?_ ?_) ?_
  · split_ifs
    · exact printable_iff.2 rfl
    · exact fun b hb => (List.not_mem_nil hb).elim
  · intro b hb
    rw [(List.mem_replicate.mp hb).2]
    rfl
  · intro b hb
    obtain ⟨hlow, hhigh⟩ := mem_decimal hb
    simp only [isPrintable, Bool.and_eq_true, decide_eq_true_eq]
    exact ⟨UInt8.le_trans (by decide) hlow, UInt8.le_trans hhigh (by decide)⟩

theorem printable_rfc1123 (t : UTC) : Printable t.rfc1123 := by
  have hweekdays : ∀ l ∈ weekdays, Printable l := by
    simp only [printable_iff]
    decide
  have hmonths : ∀ l ∈ months, Printable l := by
    simp only [printable_iff]
    decide
  have hcomma : Printable (ascii ", ") := printable_iff.2 rfl
  have hblank : Printable (ascii " ") := printable_iff.2 rfl
  have hcolon : Printable (ascii ":") := printable_iff.2 rfl
  have hutc : Printable (ascii " UTC") := printable_iff.2 rfl
  have hday := ((hweekdays _ (List.get_mem weekdays t.weekday)).append hcomma).append
    (printable_appendInt (t.day + 1 : ℕ) 2)
  have hmonth := (hday.append hblank).append (hmonths _ (List.get_mem months t.month))
  have hyear := (hmonth.append hblank).append (printable_appendInt t.year 4)
  have hhour := (hyear.append hblank).append (printable_appendInt (t.hour : ℕ) 2)
  have hminute := (hhour.append hcolon).append (printable_appendInt (t.minute : ℕ) 2)
  have hsecond := (hminute.append hcolon).append (printable_appendInt (t.second : ℕ) 2)
  exact hsecond.append hutc

theorem clean_encodeHeaderValue (hencode : ∀ s, Clean (encode s)) (hs : Clean s) :
    Clean (encodeHeaderValue encode s) := by
  unfold encodeHeaderValue
  split_ifs
  · exact hs
  · exact hencode s

/-- The values of a key. -/
theorem mem_extraValues {k v : Bytes} (hv : v ∈ h.extraValues k) :
    ∃ vs, (k, vs) ∈ h.extra ∧ v ∈ vs := by
  unfold PostHeaders.extraValues at hv
  cases hlookup : h.extra.lookup k with
  | none => simp [hlookup] at hv
  | some vs =>
    rw [hlookup] at hv
    obtain ⟨xs, ys, heq, -⟩ := List.lookup_eq_some_iff.mp hlookup
    exact ⟨vs, by simp [heq], hv⟩

/-- **What holds of all values** holds of the fields: what is not a value
of the caller is printable. -/
theorem fields_forall {P : Bytes → Prop} (hv : h.Valid) (hprint : ∀ s, Printable s → P s)
    (hfrom : P (encodeHeaderValue encode h.fromAddr))
    (hsubject : P (encodeHeaderValue encode h.subject)) (hid : P h.messageID)
    (hextra : ∀ e ∈ h.extra, ∀ v ∈ e.2, P v) (now : UTC) :
    ∀ f ∈ h.fields encode now, isValidHeaderName f.1 = true ∧ P f.2 := by
  have hgroups : Printable ((ascii ", ").intercalate (h.newsgroups.map trimSpace)) := by
    refine Printable.intercalate (printable_iff.2 rfl) fun l hl => ?_
    obtain ⟨g, hg, rfl⟩ := List.mem_map.mp hl
    exact printable_newsgroup (hv.newsgroups g hg)
  intro f hf
  simp only [PostHeaders.fields, List.mem_append, List.mem_cons, List.not_mem_nil, or_false] at hf
  rcases hf with (((rfl | rfl | rfl) | hf) | hf) | hf
  · exact ⟨(by decide : isValidHeaderName (ascii "From") = true), hfrom⟩
  · exact ⟨(by decide : isValidHeaderName (ascii "Newsgroups") = true), hprint _ hgroups⟩
  · exact ⟨(by decide : isValidHeaderName (ascii "Subject") = true), hsubject⟩
  · split_ifs at hf
    · rw [List.mem_singleton.mp hf]
      exact ⟨(by decide : isValidHeaderName (ascii "Message-ID") = true), hid⟩
    · cases hf
  · split_ifs at hf
    · rw [List.mem_singleton.mp hf]
      exact ⟨(by decide : isValidHeaderName (ascii "Date") = true), hprint _ (printable_rfc1123 _)⟩
    · cases hf
  · obtain ⟨k, -, hf⟩ := List.mem_flatMap.mp hf
    obtain ⟨v, hv', rfl⟩ := List.mem_map.mp hf
    obtain ⟨vs, he, hin⟩ := mem_extraValues hv'
    exact ⟨(hv.extra _ he).1, hextra _ he v hin⟩

/-- **No field has a line end of its own.** -/
theorem fields_clean (hv : h.Valid) (hencode : ∀ s, Clean (encode s)) (now : UTC) :
    ∀ f ∈ h.fields encode now, isValidHeaderName f.1 = true ∧ Clean f.2 :=
  fields_forall hv (fun _ => Printable.clean) (clean_encodeHeaderValue hencode hv.fromAddr)
    (clean_encodeHeaderValue hencode hv.subject) hv.messageID (fun e he => (hv.extra e he).2) now

/-- **The fields `WriteTo` writes**, by their names. -/
def PostHeaders.fieldNames (h : PostHeaders) : List Bytes :=
  [ascii "From", ascii "Newsgroups", ascii "Subject"] ++
  (if h.messageID ≠ [] then [ascii "Message-ID"] else []) ++
  (if (h.extra.lookup (ascii "Date")).isNone then [ascii "Date"] else []) ++
  h.sortedKeys.flatMap fun k => List.replicate (h.extraValues k).length k

theorem PostHeaders.map_fields (h : PostHeaders) (encode : Bytes → Bytes) (now : UTC) :
    (h.fields encode now).map Prod.fst = h.fieldNames := by
  have hextra (k : Bytes) (vs : List Bytes) :
      (vs.map fun v => (k, v)).map Prod.fst = List.replicate vs.length k := by
    simp [Function.comp_def]
  simp only [PostHeaders.fields, PostHeaders.fieldNames, List.map_append, List.map_flatMap, hextra]
  split_ifs <;> rfl

/-- **The lines that are written** are those of the folded fields. -/
theorem writeTo_lines (encode : Bytes → Bytes) (now : UTC) (hvalid : h.validate = none) :
    ∃ pieces : Bytes × Bytes → List Bytes, (∀ f, Folds (headerLine f.1 f.2) (pieces f)) ∧
      h.writeTo encode now =
        .ok (unlines ((h.fields encode now).map fun f => foldedLines (pieces f)).flatten ++ crlf) := by
  refine ⟨fun f => foldPieces (headerLine f.1 f.2), fun f => foldPieces_folds _, ?_⟩
  have hfields (fs : List (Bytes × Bytes)) : fs.flatMap (fun f => writeField f.1 f.2) =
      unlines (fs.map fun f => foldedLines (foldPieces (headerLine f.1 f.2))).flatten := by
    induction fs with
    | nil => rfl
    | cons f fs ih =>
      rw [List.flatMap_cons, ih, writeField, foldHeaderLine_lines, List.map_cons,
        List.flatten_cons, unlines_append]
  rw [PostHeaders.writeTo, hvalid, hfields]

/-- The first piece of a field has its name. -/
theorem Folds.header {value : Bytes} {ps : List Bytes} (hfolds : Folds (headerLine name value) ps)
    (hname : isValidHeaderName name = true) :
    ∃ u qs, ps = (name ++ 58 :: u) :: qs ∧
      words isSpace value = words isSpace u ++ qs.flatMap (words isSpace) := by
  obtain ⟨-, hbytes⟩ := isValidHeaderName_iff.1 hname
  have hline : headerLine name value = (name ++ [58]) ++ 32 :: value := by
    simp [headerLine, show ascii ": " = [58, 32] by decide]
  have hsolid (x : UInt8) (hx : x ∈ name ++ [58]) : isBlank x = false := by
    rcases List.mem_append.mp hx with hx | hx
    · exact (isNameByte_spec (hbytes x hx)).blank
    · rw [List.mem_singleton.mp hx]
      rfl
  rw [hline] at hfolds
  obtain ⟨u, qs, rfl, hwords⟩ := hfolds.head hsolid (by decide)
  exact ⟨u, qs, by simp, hwords⟩

/-- A folded field. -/
theorem isField_folded {value : Bytes} {ps : List Bytes} (hfolds : Folds (headerLine name value) ps)
    (hname : isValidHeaderName name = true) (hvalue : Clean value) :
    IsField name (foldedLines ps) := by
  obtain ⟨-, hbytes⟩ := isValidHeaderName_iff.1 hname
  obtain ⟨u, qs, rfl, -⟩ := hfolds.header hname
  have hname : Clean name :=
    ⟨fun hin => (isNameByte_spec (hbytes 13 hin)).cr rfl,
      fun hin => (isNameByte_spec (hbytes 10 hin)).lf rfl⟩
  have hline : Clean (headerLine name value) :=
    (hname.append (printable_iff.2 rfl : Printable (ascii ": ")).clean).append hvalue
  have hpiece (p : Bytes) (hp : p ∈ (name ++ 58 :: u) :: qs) : Clean p :=
    ⟨fun hin => hline.1 (hfolds.mem hp hin), fun hin => hline.2 (hfolds.mem hp hin)⟩
  refine ⟨⟨u, qs, rfl⟩, fun l hl => ?_⟩
  rcases List.mem_cons.mp hl with rfl | hl
  · exact hpiece _ List.mem_cons_self
  · obtain ⟨q, hq, rfl⟩ := List.mem_map.mp hl
    obtain ⟨hcr, hlf⟩ := hpiece q (List.mem_cons_of_mem _ hq)
    exact ⟨by simpa using hcr, by simpa using hlf⟩

/-- **What `WriteTo` writes is a header block.** -/
theorem writeTo_block (hencode : ∀ s, Clean (encode s)) (now : UTC) (hvalid : h.validate = none) :
    (∀ n ∈ h.fieldNames, isValidHeaderName n = true) ∧
      ∃ out, h.writeTo encode now = .ok out ∧ IsBlock h.fieldNames out := by
  obtain ⟨pieces, hfolds, hwrite⟩ := writeTo_lines encode now hvalid
  have hclean := fields_clean (validate_valid hvalid) hencode now
  refine ⟨fun n hn => ?_, _, hwrite, _, ?_, rfl⟩
  · rw [← h.map_fields encode now] at hn
    obtain ⟨f, hf, rfl⟩ := List.mem_map.mp hn
    exact (hclean f hf).1
  · rw [← h.map_fields encode now, List.forall₂_map_left_iff, List.forall₂_map_right_iff,
      List.forall₂_same]
    exact fun f hf => isField_folded (hfolds f) (hclean f hf).1 (hclean f hf).2

theorem fieldNames_ne_nil : h.fieldNames ≠ [] := by
  simp [PostHeaders.fieldNames]

/-- **The header block is intact.** What `WriteTo` writes is a block with
just its own fields, the entries of `Extra` by their sorted keys; a reader
finds these, and the first empty line is the end. -/
theorem header_block_intact (hencode : ∀ s, Clean (encode s)) (now : UTC)
    (hvalid : h.validate = none) :
    ∃ out, h.writeTo encode now = .ok out ∧ IsBlock h.fieldNames out ∧
      h.sortedKeys.Perm (h.extra.map Prod.fst) ∧ namesIn out = h.fieldNames.map some ∧
      ∃ head, cut (crlf ++ crlf) out = some (head, []) := by
  obtain ⟨hnames, out, hwrite, hblock⟩ := writeTo_block hencode now hvalid
  have hend := hblock.ends fieldNames_ne_nil hnames []
  rw [List.append_nil] at hend
  exact ⟨out, hwrite, hblock, List.perm_insertionSort _ _, hblock.namesIn hnames, hend⟩

/-- Headers for two groups, with one header besides. -/
def sampleHeaders : PostHeaders where
  fromAddr := ascii "user@example.com"
  subject := ascii "a  test"
  newsgroups := [ascii " alt.test", ascii "misc.test "]
  messageID := ascii "<1@example.com>"
  extra := [(ascii "X-No-Archive", [ascii "yes"])]

def sampleTime : UTC := ⟨2024, 1, 28, 4, 12, 0, 0⟩

theorem header_block_intact_sample :
    sampleHeaders.validate = none ∧
      ∃ out, sampleHeaders.writeTo (fun _ => []) sampleTime = .ok out ∧
        IsBlock sampleHeaders.fieldNames out ∧
        sampleHeaders.sortedKeys.Perm (sampleHeaders.extra.map Prod.fst) ∧
        namesIn out = sampleHeaders.fieldNames.map some ∧
        ∃ head, cut (crlf ++ crlf) out = some (head, []) := by
  have hvalid : sampleHeaders.validate = none := by decide
  exact ⟨hvalid, header_block_intact (fun _ => ⟨List.not_mem_nil, List.not_mem_nil⟩) sampleTime hvalid⟩

/-- **The article that is posted** has its body behind the first empty
line. -/
theorem article_body {S : Setup} (hencode : ∀ s, Clean (encode s)) (hvalid : h.validate = none)
    (hheaders : h.writeTo encode now = .ok S.headers) :
    ∃ head, cut (crlf ++ crlf) S.article = some (head, S.encoded ++ dotLine) := by
  obtain ⟨hnames, out, hwrite, hblock⟩ := writeTo_block hencode now hvalid
  obtain rfl := Except.ok.inj (hheaders.symm.trans hwrite)
  rw [Setup.article, List.append_assoc]
  exact hblock.ends fieldNames_ne_nil hnames _

end Post

end NntpPool
