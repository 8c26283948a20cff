import NntpPool.Post.Block
import NntpPool.Model.Errors
/-!
# Post — the Date field

`WriteTo` writes a `Date` of its own unless `Extra` has the key `Date`,
in just this spelling; and it writes what `Extra` has, one field for each
value. So a date that `Extra` spells otherwise is written besides the
other one, and one without a value is written by neither.
-/

namespace NntpPool

namespace Post

variable {h : PostHeaders} {encode : Bytes → Bytes} {now : UTC}

/-- The name is `Date`, ignoring case. -/
def isDate (name : Bytes) : Bool := foldCase name == ascii "date"

/-- **The `Date` fields a reader finds** in a header block. -/
def dateFields (out : Bytes) : ℕ := (namesIn out).countP fun name => name.any isDate

/-- The keys of `Extra` that are `Date`, ignoring case. -/
def PostHeaders.dateKeys (h : PostHeaders) : List (Bytes × List Bytes) :=
  h.extra.filter fun e => isDate e.1

/-! ## Counting -/

theorem extraValues_of_mem {e : Bytes × List Bytes} (he : e ∈ h.extra) :
    h.extraValues e.1 = e.2 := by
  obtain ⟨xs, ys, heq⟩ := List.append_of_mem he
  have hnodup := h.extra_nodup
  rw [heq, List.map_append, List.map_cons, List.nodup_append] at hnodup
  have hlookup : h.extra.lookup e.1 = some e.2 := by
    refine List.lookup_eq_some_iff.mpr ⟨xs, ys, heq, fun p hp => ?_⟩
    have := hnodup.2.2 p.1 (List.mem_map_of_mem hp) e.1 List.mem_cons_self
    simpa using this.symm
  rw [PostHeaders.extraValues, hlookup, Option.getD_some]

theorem lookup_isNone_iff {k : Bytes} :
    (h.extra.lookup k).isNone = true ↔ ∀ e ∈ h.extra, e.1 ≠ k := by
  rw [Option.isNone_iff_eq_none, List.lookup_eq_none_iff]
  constructor
  · intro hall e he heq
    have := hall e he
    simp [heq] at this
  · intro hall e he
    simpa using (hall e he).symm

theorem countP_replicates (entries : List (Bytes × List Bytes)) :
    (entries.flatMap fun e => List.replicate e.2.length e.1).countP isDate =
      ((entries.filter fun e => isDate e.1).map fun e => e.2.length).sum := by
  induction entries with
  | nil => rfl
  | cons e entries ih =>
    rw [List.flatMap_cons, List.countP_append, ih, List.countP_replicate, List.filter_cons]
    split_ifs <;> simp

/-- The fields of `Extra`: the order of the keys does not matter. -/
theorem countP_extra :
    (h.sortedKeys.flatMap fun k => List.replicate (h.extraValues k).length k).countP isDate =
      (h.dateKeys.map fun e => e.2.length).sum := by
  have hperm : h.sortedKeys.Perm (h.extra.map Prod.fst) := List.perm_insertionSort _ _
  have hvalues : (h.extra.flatMap fun e => List.replicate (h.extraValues e.1).length e.1) =
      h.extra.flatMap fun e => List.replicate e.2.length e.1 :=
    List.flatMap_congr fun e he => by rw [extraValues_of_mem he]
  rw [(hperm.flatMap_right _).countP_eq, List.flatMap_map, hvalues, countP_replicates]
  rfl

/-- **The `Date` fields that are written**: that of `WriteTo`, and one for
each value of a key. -/
theorem countP_fieldNames :
    h.fieldNames.countP isDate =
      (if ∀ e ∈ h.extra, e.1 ≠ ascii "Date" then 1 else 0) +
        (h.dateKeys.map fun e => e.2.length).sum := by
  have hfixed : [ascii "From", ascii "Newsgroups", ascii "Subject"].countP isDate = 0 := by
    decide
  have hid : (if h.messageID ≠ [] then [ascii "Message-ID"] else []).countP isDate = 0 := by
    split_ifs
    · decide
    · rfl
  have hdate :
      (if (h.extra.lookup (ascii "Date")).isNone then [ascii "Date"] else []).countP isDate =
        if ∀ e ∈ h.extra, e.1 ≠ ascii "Date" then 1 else 0 := by
    simp only [lookup_isNone_iff]
    split_ifs
    · decide
    · rfl
  rw [PostHeaders.fieldNames, List.countP_append, List.countP_append, List.countP_append, hfixed,
    hid, hdate, countP_extra]
  omega

/-- **What a reader finds** is what was written. -/
theorem dateFields_writeTo (hencode : ∀ s, Clean (encode s)) (now : UTC)
    (hvalid : h.validate = none) :
    ∃ out, h.writeTo encode now = .ok out ∧ dateFields out = h.fieldNames.countP isDate := by
  obtain ⟨hnames, out, hwrite, hblock⟩ := writeTo_block hencode now hvalid
  refine ⟨out, hwrite, ?_⟩
  rw [dateFields, hblock.namesIn hnames, List.countP_map]
  rfl

/-- **There is exactly one `Date` field** if a date in `Extra` is spelled
`Date` exactly where it has a value. -/
theorem date_once_iff (hencode : ∀ s, Clean (encode s)) (now : UTC) (hvalid : h.validate = none)
    (hkeys : h.dateKeys.length ≤ 1) (hvalues : ∀ e ∈ h.dateKeys, e.2.length ≤ 1) :
    ∃ out, h.writeTo encode now = .ok out ∧
      (dateFields out = 1 ↔ ∀ e ∈ h.dateKeys, (e.1 = ascii "Date" ↔ e.2.length = 1)) := by
  obtain ⟨out, hwrite, hcount⟩ := dateFields_writeTo hencode now hvalid
  refine ⟨out, hwrite, ?_⟩
  rw [hcount, countP_fieldNames]
  -- a key that is spelled so is a date
  have hown : (∀ e ∈ h.extra, e.1 ≠ ascii "Date") ↔ ∀ e ∈ h.dateKeys, e.1 ≠ ascii "Date" := by
    refine ⟨fun hall e he => hall e (List.mem_of_mem_filter he), fun hall e he heq => ?_⟩
    refine hall e (List.mem_filter.mpr ⟨he, ?_⟩) heq
    rw [heq]
    decide
  rw [if_congr hown rfl rfl]
  match hdates : h.dateKeys, hkeys with
  | [], _ => simp
  | [e], _ =>
    have hle : e.2.length ≤ 1 := hvalues e (by simp [hdates])
    by_cases hspelled : e.1 = ascii "Date"
    · simp [hspelled]
    · have hother : ∀ x ∈ [e], x.1 ≠ ascii "Date" := by simpa using hspelled
      rw [if_pos hother]
      simp only [List.map_cons, List.map_nil, List.sum_cons, List.sum_nil, List.mem_singleton,
        forall_eq, hspelled, false_iff]
      omega

/-- The sample headers, with a date in `Extra`. -/
def datedHeaders (key : Bytes) (values : List Bytes) : PostHeaders :=
  { sampleHeaders with
    extra := [(key, values)]
    extra_nodup := by simp }

theorem date_once_spelled :
    (datedHeaders (ascii "Date") [ascii "today"]).validate = none ∧
      ∃ out, (datedHeaders (ascii "Date") [ascii "today"]).writeTo (fun _ => []) sampleTime =
          .ok out ∧
        dateFields out = 1 := by
  have hvalid : (datedHeaders (ascii "Date") [ascii "today"]).validate = none := by decide
  obtain ⟨out, hwrite, hiff⟩ := date_once_iff (fun _ => ⟨List.not_mem_nil, List.not_mem_nil⟩)
    sampleTime hvalid (by decide) (by decide)
  exact ⟨hvalid, out, hwrite, hiff.mpr (by decide)⟩

/-- **Two dates, and none**: the key `date` is written besides the other
field, and for the key `Date` without a value nothing is written. -/
theorem date_twice_or_never :
    ((datedHeaders (ascii "date") [ascii "today"]).validate = none ∧
      ∃ out, (datedHeaders (ascii "date") [ascii "today"]).writeTo (fun _ => []) sampleTime =
          .ok out ∧
        dateFields out = 2) ∧
    (datedHeaders (ascii "Date") []).validate = none ∧
      ∃ out, (datedHeaders (ascii "Date") []).writeTo (fun _ => []) sampleTime = .ok out ∧
        dateFields out = 0 := by
  have hencode (s : Bytes) : Clean ((fun _ => []) s) := ⟨List.not_mem_nil, List.not_mem_nil⟩
  have htwo : (datedHeaders (ascii "date") [ascii "today"]).validate = none := by decide
  have hnone : (datedHeaders (ascii "Date") []).validate = none := by decide
  refine ⟨⟨htwo, ?_⟩, hnone, ?_⟩
  · obtain ⟨out, hwrite, hcount⟩ := dateFields_writeTo hencode sampleTime htwo
    exact ⟨out, hwrite, hcount.trans (by decide)⟩
  · obtain ⟨out, hwrite, hcount⟩ := dateFields_writeTo hencode sampleTime hnone
    exact ⟨out, hwrite, hcount.trans (by decide)⟩

end Post

end NntpPool
