import NntpPool.Reader.Frame
import NntpPool.Reader.Integrity
import NntpPool.Common.Decimal
import Mathlib.Data.List.TakeWhile
/-!
# Reader — the attributes of `=ybegin`

Every attribute is looked for in the whole line, and the file name, which
comes last, may hold anything but a line end or a NUL. What stands before
the name is found where it is. What does not stand there may be found in
the name: the `part=` or `total=` of a single-part article.
-/

namespace NntpPool

namespace Reader

variable {r : Decoder} {key pre s : Bytes} {c d : UInt8}

/-! ## Looking for an attribute -/

theorem extractField_eq (data substr stops : Bytes) :
    extractField data substr stops = (cut substr data).map fun p => untilAny stops p.2 := by
  unfold extractField index
  cases hcut : cut substr data with
  | none => rfl
  | some p => simp [drop_of_cut hcut]

/-- **The search for `key` passes over `pre`**, whatever is behind it. -/
def Skips (key pre : Bytes) : Prop :=
  ∀ s, cut key (pre ++ s) = (cut key s).map fun p => (pre ++ p.1, p.2)

theorem Skips.append {post : Bytes} (h : Skips key pre) (h' : Skips key post) :
    Skips key (pre ++ post) := by
  intro s
  rw [List.append_assoc, h, h', Option.map_map]
  simp [Function.comp_def]

theorem Skips.extractField (h : Skips key pre) (s stops : Bytes) :
    extractField (pre ++ s) key stops = extractField s key stops := by
  rw [extractField_eq, extractField_eq, h, Option.map_map]
  rfl

theorem Skips.contains (h : Skips key pre) (s : Bytes) :
    contains (pre ++ s) key = contains s key := by
  simp only [NntpPool.contains, index, h s, Option.map_map, Option.isSome_map]

theorem Skips.extractInt (h : Skips key pre) (s : Bytes) :
    extractInt (pre ++ s) key = extractInt s key := by
  rw [Reader.extractInt, Reader.extractInt, h.extractField]

theorem Skips.extractString (h : Skips key pre) (s : Bytes) :
    extractString (pre ++ s) key = extractString s key := by
  rw [Reader.extractString, Reader.extractString, h.extractField]

/-- An attribute with another name and no blank in it. -/
theorem skips_attribute {v : Bytes} (hne : c ≠ d) (hv : (32 : UInt8) ∉ d :: v) :
    Skips (32 :: c :: key) (32 :: d :: v) :=
  cut_skip_field hne hv

/-- A number has no blank in it. -/
theorem skips_number {k : Bytes} (hne : c ≠ d) (hkey : (32 : UInt8) ∉ d :: k) (n : ℕ) :
    Skips (32 :: c :: key) (32 :: d :: k ++ decimal n) := by
  refine skips_attribute (v := k ++ decimal n) hne fun h => ?_
  rw [← List.cons_append, List.mem_append] at h
  rcases h with h | h
  · exact hkey h
  · exact absurd (mem_decimal h).1 (by decide)

/-- A number ends at the blank behind it. -/
theorem untilAny_decimal (n : ℕ) (s : Bytes) :
    untilAny [0, 32, 13, 10] (decimal n ++ 32 :: s) = decimal n := by
  have hdigits (b : UInt8) (hb : b ∈ decimal n) : (!List.contains [0, 32, 13, 10] b) = true := by
    have hle := (mem_decimal hb).1
    simp
    refine ⟨?_, ?_, ?_, ?_⟩ <;> (rintro rfl; exact absurd hle (by decide))
  unfold untilAny
  rw [List.takeWhile_append_of_pos hdigits]
  simp

/-- **A number is read where it stands.** -/
theorem extractInt_hit (hkey : key ≠ []) (n : ℕ) (s : Bytes) :
    extractInt (key ++ (decimal n ++ 32 :: s)) key =
      if n < 2 ^ 63 then ((n : ℤ), none) else (maxInt64, some (.num .rangeErr)) := by
  simp only [extractInt, extractField_eq, cut_self hkey, Option.map_some, untilAny_decimal,
    parseInt_decimal]
  split_ifs <;> rfl

/-- A name without line ends and NUL is read to the end of the line. -/
theorem extractString_hit (hkey : key ≠ []) (h : ∀ b ∈ s, b ∉ [0, 13, 10]) :
    extractString (key ++ s) key = (s, none) := by
  have huntil : untilAny [0, 13, 10] s = s := by
    refine List.takeWhile_eq_self_iff.mpr fun b hb => ?_
    simpa using h b hb
  simp only [extractString, extractField_eq, cut_self hkey, Option.map_some, huntil]

/-! ## The lines -/

/-- What `=ybegin` says of a file: its line length, its size and its
name. -/
def attributes (L S : ℕ) (N : Bytes) : Bytes :=
  ascii " line=" ++ decimal L ++ (ascii " size=" ++ decimal S ++ (ascii " name=" ++ N))

/-- **`=ybegin line=L size=S name=N`.** -/
def ybeginLine (L S : ℕ) (N : Bytes) : Bytes := ascii "=ybegin" ++ attributes L S N

/-- **`=ybegin part=P total=T line=L size=S name=N`.** -/
def ybeginPartLine (P T L S : ℕ) (N : Bytes) : Bytes :=
  ascii "=ybegin" ++ (ascii " part=" ++ decimal P ++ (ascii " total=" ++ decimal T ++
    attributes L S N))

theorem skips_line (hne : c ≠ 108) (L : ℕ) : Skips (32 :: c :: key) (ascii " line=" ++ decimal L) :=
  skips_number (d := 108) (k := ascii "ine=") hne (by decide) L

theorem skips_size (hne : c ≠ 115) (S : ℕ) : Skips (32 :: c :: key) (ascii " size=" ++ decimal S) :=
  skips_number (d := 115) (k := ascii "ize=") hne (by decide) S

theorem skips_part (hne : c ≠ 112) (P : ℕ) : Skips (32 :: c :: key) (ascii " part=" ++ decimal P) :=
  skips_number (d := 112) (k := ascii "art=") hne (by decide) P

theorem skips_total (hne : c ≠ 116) (T : ℕ) :
    Skips (32 :: c :: key) (ascii " total=" ++ decimal T) :=
  skips_number (d := 116) (k := ascii "otal=") hne (by decide) T

theorem skips_name (hne : c ≠ 110) : Skips (32 :: c :: key) (ascii " name=") :=
  skips_attribute (d := 110) (v := ascii "ame=") hne (by decide)

variable (L S P T : ℕ) (N : Bytes)

theorem attributes_size (hS : S < 2 ^ 63) :
    extractInt (attributes L S N) (ascii " size=") = ((S : ℤ), none) := by
  have hhit : extractInt (ascii " size=" ++ (decimal S ++ 32 :: (ascii "name=" ++ N))) _ = _ :=
    extractInt_hit (by decide) S (ascii "name=" ++ N)
  rw [if_pos hS] at hhit
  have hline : Skips (ascii " size=") (ascii " line=" ++ decimal L) := skips_line (by decide) L
  rw [attributes, hline.extractInt, List.append_assoc]
  exact hhit

theorem attributes_name (hN : ∀ b ∈ N, b ∉ [0, 13, 10]) :
    extractString (attributes L S N) (ascii " name=") = (N, none) := by
  have hline : Skips (ascii " name=") (ascii " line=" ++ decimal L) := skips_line (by decide) L
  have hsize : Skips (ascii " name=") (ascii " size=" ++ decimal S) := skips_size (by decide) S
  rw [attributes, hline.extractString, hsize.extractString]
  exact extractString_hit (by decide) hN

/-- **What is not there is looked for in the name.** -/
theorem skips_attributes {k : Bytes} (h : c ∉ [108, 115, 110]) :
    extractInt (attributes L S N) (32 :: c :: k) = extractInt N (32 :: c :: k) ∧
      contains (attributes L S N) (32 :: c :: k) = contains N (32 :: c :: k) := by
  simp only [List.mem_cons, List.not_mem_nil, or_false, not_or] at h
  obtain ⟨hline, hsize, hname⟩ := h
  constructor
  · rw [attributes, (skips_line hline L).extractInt, (skips_size hsize S).extractInt,
      (skips_name hname).extractInt]
  · rw [attributes, (skips_line hline L).contains, (skips_size hsize S).contains,
      (skips_name hname).contains]

/-! ## `=ybegin` -/

/-- What is read of a single-part `=ybegin` that is understood. -/
structure ReadsSingle (S : ℕ) (N : Bytes) (r : Decoder) : Prop where
  fileSize : r.yenc.fileSize = S
  fileName : r.yenc.fileName = N
  part : r.yenc.part = 0
  total : r.yenc.total = 0
  partSize : r.yenc.partSize = S
  body : r.body = true
  headerErr : r.headerErr = none

/-- What is read of one part's. -/
structure ReadsPart (P T S : ℕ) (N : Bytes) (r : Decoder) : Prop where
  part : r.yenc.part = P
  total : r.yenc.total = T
  fileSize : r.yenc.fileSize = S
  fileName : r.yenc.fileName = N
  body : r.body = false

/-- The decoder behind the size and the name. -/
def begun (r : Decoder) (S : ℕ) (N : Bytes) : Decoder :=
  { r with hasBegin := true, yenc := { r.yenc with fileSize := S, fileName := N } }

@[simp] theorem begun_yenc :
    (begun r S N).yenc = { r.yenc with fileSize := S, fileName := N } := rfl

theorem processYbegin_eq {line : Bytes} (hsize : extractInt line (ascii " size=") = ((S : ℤ), none))
    (hname : extractString line (ascii " name=") = (N, none)) :
    processYbegin r line = ybeginTotal (ybeginPart (begun r S N) line) line := by
  simp [processYbegin, ybeginSize, ybeginName, hsize, hname, noteErr, begun]

theorem processYencHeader_ybegin {line : Bytes} (h : line.head? = some 32) :
    processYencHeader r (ascii "=ybegin" ++ line) = processYbegin r line := by
  obtain ⟨tail, rfl⟩ := List.head?_eq_some_iff.mp h
  have hprefix : (ascii "=ybegin ").isPrefixOf (ascii "=ybegin" ++ 32 :: tail) = true := by
    rw [List.isPrefixOf_iff_prefix]
    exact ⟨tail, rfl⟩
  rw [processYencHeader, if_pos hprefix]
  rfl

theorem extractInt_absent {line : Bytes} (h : contains line key = false) :
    extractInt line key = (0, some (.notFound key)) := by
  have hnone : index line key = none := by simpa [contains] using h
  simp [extractInt, extractField, hnone]

/-- A part that is found leaves the body to `=ypart`, or is an error. -/
theorem ybeginPart_of_contains (hbody : r.body = false) {line : Bytes}
    (h : contains line (ascii " part=") = true) :
    (ybeginPart r line).body = false ∨ (ybeginPart r line).headerErr ≠ none := by
  unfold ybeginPart
  generalize extractInt line (ascii " part=") = part
  obtain ⟨v, _ | e⟩ := part
  · exact .inl hbody
  · exact .inr (by simp [h, noteErr])

/-- Without a part the body starts. -/
theorem ybeginPart_absent {line : Bytes} (h : contains line (ascii " part=") = false) :
    (ybeginPart r line).body = true ∧ (ybeginPart r line).headerErr = r.headerErr ∧
      (ybeginPart r line).yenc = { r.yenc with part := 0, partSize := r.yenc.fileSize } := by
  simp [ybeginPart, extractInt_absent h, h]

/-- A part that is a number is only noted. -/
theorem ybeginPart_number {line : Bytes} {n : ℤ}
    (h : extractInt line (ascii " part=") = (n, none)) :
    (ybeginPart r line).body = r.body ∧ (ybeginPart r line).yenc = { r.yenc with part := n } := by
  simp [ybeginPart, h]

/-- The total is what is found, and an error in it is noted. -/
theorem ybeginTotal_spec (line : Bytes) :
    (ybeginTotal r line).body = r.body ∧
      (ybeginTotal r line).yenc = { r.yenc with total := (extractInt line (ascii " total=")).1 } ∧
      ((ybeginTotal r line).headerErr = none ↔ r.headerErr = none ∧
        (contains line (ascii " total=") = true → (extractInt line (ascii " total=")).2 = none)) := by
  unfold ybeginTotal
  generalize extractInt line (ascii " total=") = total
  obtain ⟨v, _ | e⟩ := total
  · simp
  · cases contains line (ascii " total=") <;> simp [noteErr]

/-- **A line without parts** is understood exactly if none are found in
it. -/
theorem processYbegin_single_iff (hbody : r.body = false) (herr : r.headerErr = none)
    {line : Bytes} (hsize : extractInt line (ascii " size=") = ((S : ℤ), none))
    (hname : extractString line (ascii " name=") = (N, none)) :
    ReadsSingle S N (processYbegin r line) ↔
      contains line (ascii " part=") = false ∧
        (contains line (ascii " total=") = true → extractInt line (ascii " total=") = (0, none)) := by
  obtain ⟨hb, hyenc, hnone⟩ := ybeginTotal_spec (r := ybeginPart (begun r S N) line) line
  rw [processYbegin_eq S N hsize hname]
  cases hin : contains line (ascii " part=") with
  | true =>
    refine ⟨fun h => ?_, by simp⟩
    rcases ybeginPart_of_contains (r := begun r S N) hbody hin with hleft | hnoted
    · have hbody' := h.body
      simp [hb, hleft] at hbody'
    · exact absurd (hnone.mp h.headerErr).1 hnoted
  | false =>
    obtain ⟨hpb, hperr, hpyenc⟩ := ybeginPart_absent (r := begun r S N) hin
    have hclean : (begun r S N).headerErr = none := herr
    rw [hpb] at hb
    rw [hpyenc] at hyenc
    rw [hperr, hclean, eq_self, true_and] at hnone
    constructor
    · intro h
      have htotal := h.total
      rw [hyenc] at htotal
      exact ⟨rfl, fun hcontains => Prod.ext htotal (hnone.mp h.headerErr hcontains)⟩
    · rintro ⟨-, htotal⟩
      have hvalue : (extractInt line (ascii " total=")).1 = 0 := by
        cases hcontains : contains line (ascii " total=") with
        | true => rw [htotal hcontains]
        | false => rw [extractInt_absent hcontains]
      refine ⟨?_, ?_, ?_, ?_, ?_, hb, hnone.mpr fun hcontains => by rw [htotal hcontains]⟩
      all_goals simp [hyenc, hvalue]

/-- **A line with a part and a total** is understood exactly if they are
numbers of 64 bits. -/
theorem processYbegin_part_iff (hbody : r.body = false) {line : Bytes}
    (hsize : extractInt line (ascii " size=") = ((S : ℤ), none))
    (hname : extractString line (ascii " name=") = (N, none)) (hle : P ≤ T)
    (hpart : extractInt line (ascii " part=") =
      if P < 2 ^ 63 then ((P : ℤ), none) else (maxInt64, some (.num .rangeErr)))
    (htotal : extractInt line (ascii " total=") =
      if T < 2 ^ 63 then ((T : ℤ), none) else (maxInt64, some (.num .rangeErr))) :
    ReadsPart P T S N (processYbegin r line) ↔ T < 2 ^ 63 := by
  obtain ⟨hb, hyenc, -⟩ := ybeginTotal_spec (r := ybeginPart (begun r S N) line) line
  rw [processYbegin_eq S N hsize hname]
  constructor
  · intro h
    have ht := h.total
    by_contra hlarge
    rw [hyenc, htotal, if_neg hlarge] at ht
    have hmax : maxInt64 = (T : ℤ) := ht
    rw [maxInt64] at hmax
    omega
  · intro hlt
    rw [if_pos (by omega)] at hpart
    rw [if_pos hlt] at htotal
    obtain ⟨hpb, hpyenc⟩ := ybeginPart_number (r := begun r S N) hpart
    rw [hpyenc] at hyenc
    refine ⟨?_, ?_, ?_, ?_, hb.trans (hpb.trans hbody)⟩
    all_goals simp [hyenc, htotal]

/-! ## The lines of an article -/

/-- **The attributes of `=ybegin`.** The size and the name are read from
the right place, whatever the name. A single-part line is understood
exactly if no `part=` is found in the name, and no `total=` but a zero;
the line of a part exactly if its total is a number of 64 bits. -/
theorem ybegin_read_iff (r : Decoder) (hbody : r.body = false) (herr : r.headerErr = none)
    (N : Bytes) (hN : ∀ b ∈ N, b ≠ 0 ∧ b ≠ 13 ∧ b ≠ 10) (L S : ℕ) (hS : S < 2 ^ 63) :
    (ReadsSingle S N (processYencHeader r (ybeginLine L S N)) ↔
      contains N (ascii " part=") = false ∧
        (contains N (ascii " total=") = true → extractInt N (ascii " total=") = (0, none))) ∧
    ∀ P T, 1 ≤ P → P ≤ T →
      (ReadsPart P T S N (processYencHeader r (ybeginPartLine P T L S N)) ↔ T < 2 ^ 63) := by
  have hfree (b : UInt8) (hb : b ∈ N) : b ∉ [0, 13, 10] := by simpa using hN b hb
  constructor
  · have hpart : contains (attributes L S N) (ascii " part=") = contains N (ascii " part=") :=
      (skips_attributes (c := 112) (k := ascii "art=") L S N (by decide)).2
    obtain ⟨htotal, htotalIn⟩ : extractInt (attributes L S N) (ascii " total=") = _ ∧
        contains (attributes L S N) (ascii " total=") = contains N (ascii " total=") :=
      skips_attributes (c := 116) (k := ascii "otal=") L S N (by decide)
    have hiff := processYbegin_single_iff S N hbody herr (attributes_size L S N hS)
      (attributes_name L S N hfree)
    rw [hpart, htotal, htotalIn] at hiff
    rw [ybeginLine, processYencHeader_ybegin rfl]
    exact hiff
  · intro P T _ hle
    have hsizeP : Skips (ascii " size=") (ascii " part=" ++ decimal P) := skips_part (by decide) P
    have hsizeT : Skips (ascii " size=") (ascii " total=" ++ decimal T) := skips_total (by decide) T
    have hnameP : Skips (ascii " name=") (ascii " part=" ++ decimal P) := skips_part (by decide) P
    have hnameT : Skips (ascii " name=") (ascii " total=" ++ decimal T) := skips_total (by decide) T
    have htotalP : Skips (ascii " total=") (ascii " part=" ++ decimal P) := skips_part (by decide) P
    rw [ybeginPartLine, processYencHeader_ybegin rfl]
    refine processYbegin_part_iff S P T N hbody ?_ ?_ hle ?_ ?_
    · rw [hsizeP.extractInt, hsizeT.extractInt]
      exact attributes_size L S N hS
    · rw [hnameP.extractString, hnameT.extractString]
      exact attributes_name L S N hfree
    · rw [List.append_assoc]
      exact extractInt_hit (by decide) P _
    · rw [htotalP.extractInt, List.append_assoc]
      exact extractInt_hit (by decide) T _

/-- A plain name, in a single-part article and in the second of three
parts. -/
theorem ybegin_read_iff_plain :
    ReadsSingle 5000 (ascii "a b=c.bin")
        (processYencHeader {} (ybeginLine 128 5000 (ascii "a b=c.bin"))) ∧
      ReadsPart 2 3 5000 (ascii "a b=c.bin")
        (processYencHeader {} (ybeginPartLine 2 3 128 5000 (ascii "a b=c.bin"))) := by
  obtain ⟨hsingle, hpart⟩ := ybegin_read_iff {} rfl rfl (ascii "a b=c.bin")
    (by decide +kernel) 128 5000 (by decide)
  exact ⟨hsingle.mpr ⟨by decide, by decide⟩, (hpart 2 3 (by decide) (by decide)).mpr (by decide)⟩

/-- **A name with `part=` in it** keeps a single-part article from its
body. -/
theorem name_read_as_part :
    (processYencHeader {} (ybeginLine 128 5000 (ascii "a part=1 of 2.bin"))).body = false ∧
      (processYencHeader {} (ybeginLine 128 5000 (ascii "a part=1 of 2.bin"))).yenc.part = 1 := by
  decide

end Reader

end NntpPool
