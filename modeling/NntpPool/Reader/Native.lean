import NntpPool.Reader.Model.Feed
/-!
# Reader — what `decodeYenc` gives back

`decodeYenc` gives back one, two or three bytes after the native decoder
has stopped, so that the line loop sees the marker it stopped at.
`out_add_giveBack_le` says that those bytes were read in this call and
produced nothing, so the count stays within the buffer and behind it the
buffer is untouched — unless the call began inside a terminator, which is
`SplitTerminator`.
-/

namespace NntpPool

namespace Reader

/-- **The call begins inside a terminator**: an earlier call read the dot,
or the dot and the carriage return, and this one starts with the rest. -/
def SplitTerminator (s : State) (buf : Bytes) : Prop :=
  (s = .crlfdt ∧ crlf <+: buf) ∨ (s = .crlfdtcr ∧ [10] <+: buf)

instance (s : State) (buf : Bytes) : Decidable (SplitTerminator s buf) :=
  inferInstanceAs (Decidable (_ ∨ _))

/-- How many bytes `decodeYenc` gives back after a native run. -/
def giveBack (o : Outcome State UInt8 End) : ℕ := givenBack o.state (o.stopped.getD .none)

namespace Rapidyenc

variable (N : Rapidyenc) {s : State} {b : UInt8} {buf : Bytes}

/-- Where a run of two symbols or more ends, its last step. -/
theorem exists_last_step {pre : Bytes} (hne : pre ≠ []) (h : (N.run s pre).stopped = none) :
    ∃ init c, pre = init ++ [c] ∧ (N.run s init).stopped = none ∧
      (N.run s pre).state = N.next (N.run s init).state c ∧
      (N.run s pre).out = (N.run s init).out ++ (N.emit (N.run s init).state c).toList := by
  obtain ⟨init, c, rfl⟩ := List.eq_nil_or_concat pre |>.resolve_left hne
  rw [List.concat_eq_append] at h ⊢
  obtain ⟨hrun, -, hstate, hout⟩ := Transducer.run_concat_of_running h
  exact ⟨init, c, rfl, hrun, hstate, hout⟩

/-- A byte that ends in the middle of a marker adds nothing to the output. -/
theorem out_of_marker {pre : Bytes} (hne : pre ≠ []) (h : (N.run s pre).stopped = none)
    (hm : (N.run s pre).state = .crlfeq ∨ (N.run s pre).state = .crlfdt ∨
      (N.run s pre).state = .crlfdtcr) :
    (N.run s pre).out.length + 1 ≤ pre.length := by
  obtain ⟨init, c, rfl, hrun, hstate, hout⟩ := N.exists_last_step hne h
  rw [hstate] at hm
  rw [hout, N.emit_marker _ _ hm]
  have := Transducer.run_out_le_consumed (T := N.toTransducer) s init
  rw [Transducer.run_consumed_of_running hrun] at this
  simp only [Option.toList_none, List.append_nil, List.length_append, List.length_singleton]
  omega

/-- **A control line was read from its `=` on in this call**, and both of
its bytes produced nothing. -/
theorem out_add_two_le (hs : s ≠ .crlfeq) (h : (N.run s buf).stopped = some .control) :
    (N.run s buf).out.length + 2 ≤ (N.run s buf).consumed := by
  obtain ⟨pre, b, post, rfl, hrun, hstop, hcons, hout, -⟩ := Transducer.exists_of_stopped h
  have hstate := ((N.stop_control _ _).mp hstop).1
  have hne : pre ≠ [] := by
    rintro rfl
    exact hs hstate
  have := N.out_of_marker hne hrun (Or.inl hstate)
  rw [hcons, hout, N.emit_stop _ _ (by rw [hstop]; simp)]
  simp only [Option.toList_none, List.append_nil]
  omega

/-- **A terminator was read from its dot on in this call**, unless the
call began inside it. -/
theorem out_add_three_le (hs : ¬ SplitTerminator s buf)
    (h : (N.run s buf).stopped = some .article) :
    (N.run s buf).out.length + 3 ≤ (N.run s buf).consumed := by
  obtain ⟨pre, b, post, rfl, hrun, hstop, hcons, hout, -⟩ := Transducer.exists_of_stopped h
  obtain ⟨hstate, rfl⟩ := (N.stop_article _ _).mp hstop
  -- the carriage return belongs to this call, or the call began behind it
  have hne : pre ≠ [] := by
    rintro rfl
    exact hs (Or.inr ⟨hstate, post, rfl⟩)
  obtain ⟨init, c, rfl, hrun', hlast, hout'⟩ := N.exists_last_step hne hrun
  obtain ⟨hdot, rfl⟩ := N.enter_crlfdtcr _ _ (by rw [← hlast, hstate])
  -- and so does the dot
  have hne' : init ≠ [] := by
    rintro rfl
    exact hs (Or.inl ⟨hdot, post, rfl⟩)
  have := N.out_of_marker hne' hrun' (Or.inr (Or.inl hdot))
  have hlf : N.emit (N.run s (init ++ [13])).state 10 = none :=
    N.emit_stop _ _ (by rw [hstop]; simp)
  have hcr : N.emit (N.run s init).state 13 = none :=
    N.emit_marker _ _ (Or.inr (Or.inr (by rw [← hlast, hstate])))
  rw [hcons, hout, hlf, hout', hcr]
  simp only [Option.toList_none, List.append_nil, List.length_append, List.length_singleton]
  omega

/-- **What is given back was read in this call and produced nothing.** -/
theorem out_add_giveBack_le (hbuf : buf ≠ []) (hs : s ≠ .crlfeq)
    (hsplit : ¬ SplitTerminator s buf) :
    (N.run s buf).out.length + giveBack (N.run s buf) ≤ (N.run s buf).consumed := by
  unfold giveBack
  cases hstop : (N.run s buf).stopped with
  | none =>
    simp only [Option.getD_none, givenBack]
    split
    · rename_i hstate
      rw [Transducer.run_consumed_of_running hstop]
      exact N.out_of_marker hbuf hstop (Or.inl hstate)
    · exact Transducer.run_out_le_consumed s buf
  | some e =>
    obtain ⟨pre, b, post, -, -, hst, -⟩ := Transducer.exists_of_stopped hstop
    cases e with
    | none => exact absurd hst (N.stop_none _ _)
    | control => exact N.out_add_two_le hs hstop
    | article => exact N.out_add_three_le hsplit hstop

/-- So the count does not fall below zero. -/
theorem giveBack_le (hs : s ≠ .crlfeq) (hsplit : ¬ SplitTerminator s buf) :
    giveBack (N.run s buf) ≤ (N.run s buf).consumed := by
  by_cases hbuf : buf = []
  · subst hbuf
    simp [giveBack, givenBack, hs]
  · have := N.out_add_giveBack_le hbuf hs hsplit
    omega

/-- Away from the two markers nothing stops the decoder. -/
theorem stop_eq_none (h : ¬ (s = .crlfeq ∧ b = letterY)) (h' : ¬ (s = .crlfdtcr ∧ b = 10)) :
    N.stop s b = none := by
  cases hstop : N.stop s b with
  | none => rfl
  | some e =>
    cases e with
    | none => exact absurd hstop (N.stop_none _ _)
    | control => exact absurd ((N.stop_control _ _).mp hstop) h
    | article => exact absurd ((N.stop_article _ _).mp hstop) h'

/-- A call that begins inside a terminator stops at its end. -/
theorem run_of_split (hsplit : SplitTerminator s buf) :
    (N.run s buf).out = [] ∧ (N.run s buf).consumed ≤ 2 ∧
      (N.run s buf).stopped = some .article := by
  have hcr : N.stop .crlfdt 13 = none := N.stop_eq_none (by decide) (by decide)
  have hlf : N.stop .crlfdtcr 10 = some .article := (N.stop_article _ _).mpr ⟨rfl, rfl⟩
  have hemit : N.emit .crlfdtcr 10 = none := N.emit_stop _ _ (by rw [hlf]; simp)
  rcases hsplit with ⟨rfl, t, rfl⟩ | ⟨rfl, t, rfl⟩
  · have hdt : N.emit .crlfdt 13 = none := N.emit_marker _ _ (Or.inr (Or.inr N.next_dot_cr))
    have hrun : N.run .crlfdt (crlf ++ t) = N.run .crlfdt (13 :: 10 :: t) := rfl
    rw [hrun, Transducer.run_cons_of_running hcr, N.next_dot_cr, Transducer.run_cons_of_stop hlf,
      hemit, hdt]
    exact ⟨rfl, Nat.le_refl 2, rfl⟩
  · rw [List.singleton_append, Transducer.run_cons_of_stop hlf, hemit]
    exact ⟨rfl, Nat.le_succ 1, rfl⟩

/-- So it gives back more than it read. -/
theorem consumed_lt_giveBack (hsplit : SplitTerminator s buf) :
    (N.run s buf).out = [] ∧ (N.run s buf).consumed < giveBack (N.run s buf) := by
  obtain ⟨hout, hcons, hstop⟩ := N.run_of_split hsplit
  refine ⟨hout, ?_⟩
  have hgive : giveBack (N.run s buf) = 3 := by simp [giveBack, givenBack, hstop]
  omega

/-- Behind a stop the decoder stands outside every marker. -/
theorem state_of_stopped {e : End} (h : (N.run s buf).stopped = some e) :
    (N.run s buf).state ≠ .crlfeq ∧ (N.run s buf).state ≠ .crlfdt ∧
      (N.run s buf).state ≠ .crlfdtcr := by
  obtain ⟨pre, b, post, -, -, hstop, -, -, hstate⟩ := Transducer.exists_of_stopped h
  have hb : b = letterY ∨ b = 10 := by
    cases e with
    | none => exact absurd hstop (N.stop_none _ _)
    | control => exact Or.inl ((N.stop_control _ _).mp hstop).2
    | article => exact Or.inr ((N.stop_article _ _).mp hstop).2
  rw [hstate]
  refine ⟨fun hc => ?_, fun hc => ?_, fun hc => ?_⟩
  · have := (N.enter_crlfeq _ _ hc).2
    rcases hb with rfl | rfl <;> exact absurd this (by decide)
  · have := (N.enter_crlfdt _ _ hc).2
    rcases hb with rfl | rfl <;> exact absurd this (by decide)
  · have := (N.enter_crlfdtcr _ _ hc).2
    rcases hb with rfl | rfl <;> exact absurd this (by decide)

end Rapidyenc

end Reader

end NntpPool
