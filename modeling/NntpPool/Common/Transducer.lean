import Mathlib.Data.List.Basic
/-!
# Byte-at-a-time transducers

A transducer reads its input one symbol at a time, emits at most one
symbol for each, and may stop just after one. A decoder that carries its
state from call to call is such a machine run over the concatenation of
what it is given: `run_append_of_running` and `run_append_of_stopped` say
that cutting the input is invisible.
-/

namespace NntpPool

variable {σ α β ε : Type*}

/-- **A transducer** over states `σ`, reading `α`, emitting `β`, stopping
for a reason of type `ε`. -/
structure Transducer (σ α β ε : Type*) where
  /-- The state after a symbol. -/
  next : σ → α → σ
  /-- What a symbol emits. -/
  emit : σ → α → Option β
  /-- Whether the machine stops just after a symbol. -/
  stop : σ → α → Option ε

/-- What a run over some input comes to. -/
structure Outcome (σ β ε : Type*) where
  out : List β
  consumed : ℕ
  state : σ
  stopped : Option ε

namespace Transducer

variable (T : Transducer σ α β ε)

/-- The run over an input, up to the first stop. -/
def run (s : σ) : List α → Outcome σ β ε
  | [] => ⟨[], 0, s, none⟩
  | a :: as =>
    match T.stop s a with
    | some e => ⟨(T.emit s a).toList, 1, T.next s a, some e⟩
    | none =>
      let o := run (T.next s a) as
      ⟨(T.emit s a).toList ++ o.out, o.consumed + 1, o.state, o.stopped⟩

variable {T}

@[simp] theorem run_nil (s : σ) : T.run s [] = ⟨[], 0, s, none⟩ := rfl

theorem run_cons_of_stop {s : σ} {a : α} {as : List α} {e : ε} (h : T.stop s a = some e) :
    T.run s (a :: as) = ⟨(T.emit s a).toList, 1, T.next s a, some e⟩ := by
  simp only [run, h]

theorem run_cons_of_running {s : σ} {a : α} {w : List α} (h : T.stop s a = none) :
    T.run s (a :: w) =
      ⟨(T.emit s a).toList ++ (T.run (T.next s a) w).out,
        (T.run (T.next s a) w).consumed + 1, (T.run (T.next s a) w).state,
        (T.run (T.next s a) w).stopped⟩ := by
  simp only [run, h]

/-- A run consumes no more than it is given. -/
theorem run_consumed_le (s : σ) (as : List α) : (T.run s as).consumed ≤ as.length := by
  induction as generalizing s with
  | nil => simp
  | cons a as ih =>
    cases h : T.stop s a with
    | some e => rw [run_cons_of_stop h]; simp
    | none =>
      have := ih (T.next s a)
      rw [run_cons_of_running h, List.length_cons]
      exact Nat.succ_le_succ this

/-- A run that does not stop consumes everything. -/
theorem run_consumed_of_running {s : σ} {as : List α} (h : (T.run s as).stopped = none) :
    (T.run s as).consumed = as.length := by
  induction as generalizing s with
  | nil => simp
  | cons a as ih =>
    cases hs : T.stop s a with
    | some e => rw [run_cons_of_stop hs] at h; cases h
    | none =>
      rw [run_cons_of_running hs] at h ⊢
      simp only [List.length_cons, ih h]

/-- **Past a stop nothing is read.** -/
theorem run_append_of_stopped {s : σ} {as : List α} {e : ε} (bs : List α)
    (h : (T.run s as).stopped = some e) : T.run s (as ++ bs) = T.run s as := by
  induction as generalizing s with
  | nil => simp at h
  | cons a as ih =>
    rw [List.cons_append]
    cases hs : T.stop s a with
    | some e' => rw [run_cons_of_stop hs, run_cons_of_stop hs]
    | none =>
      rw [run_cons_of_running hs] at h ⊢
      rw [run_cons_of_running hs, ih h]

/-- **A run resumes where it was cut.** -/
theorem run_append_of_running {s : σ} {as : List α} (bs : List α)
    (h : (T.run s as).stopped = none) :
    T.run s (as ++ bs) =
      ⟨(T.run s as).out ++ (T.run (T.run s as).state bs).out,
        as.length + (T.run (T.run s as).state bs).consumed,
        (T.run (T.run s as).state bs).state, (T.run (T.run s as).state bs).stopped⟩ := by
  induction as generalizing s with
  | nil => simp
  | cons a as ih =>
    rw [List.cons_append]
    cases hs : T.stop s a with
    | some e => rw [run_cons_of_stop hs] at h; cases h
    | none =>
      rw [run_cons_of_running hs] at h
      rw [run_cons_of_running hs, run_cons_of_running hs, ih h]
      simp only [List.append_assoc, List.length_cons]
      rw [Nat.add_right_comm]

/-- Emission never outruns consumption. -/
theorem run_out_le_consumed (s : σ) (as : List α) :
    (T.run s as).out.length ≤ (T.run s as).consumed := by
  induction as generalizing s with
  | nil => simp
  | cons a as ih =>
    have hemit : (T.emit s a).toList.length ≤ 1 := by cases T.emit s a <;> simp
    cases hs : T.stop s a with
    | some e => rw [run_cons_of_stop hs]; exact hemit
    | none =>
      have := ih (T.next s a)
      rw [run_cons_of_running hs]
      simp only [List.length_append]
      omega

/-- **A stop has a place**: the run over the symbols before it goes on,
and the symbol there stops the machine. -/
theorem exists_of_stopped {s : σ} {as : List α} {e : ε} (h : (T.run s as).stopped = some e) :
    ∃ pre a post, as = pre ++ a :: post ∧ (T.run s pre).stopped = none ∧
      T.stop (T.run s pre).state a = some e ∧ (T.run s as).consumed = pre.length + 1 ∧
      (T.run s as).out = (T.run s pre).out ++ (T.emit (T.run s pre).state a).toList ∧
      (T.run s as).state = T.next (T.run s pre).state a := by
  induction as generalizing s with
  | nil => simp at h
  | cons a as ih =>
    cases hs : T.stop s a with
    | some e' =>
      rw [run_cons_of_stop hs] at h ⊢
      simp only [Option.some.injEq] at h
      subst h
      exact ⟨[], a, as, rfl, rfl, hs, rfl, rfl, rfl⟩
    | none =>
      rw [run_cons_of_running hs] at h
      obtain ⟨pre, b, post, has, hrun, hstop, hcons, hout, hstate⟩ := ih h
      refine ⟨a :: pre, b, post, by rw [has]; rfl, ?_⟩
      rw [run_cons_of_running (w := as) hs, run_cons_of_running (w := pre) hs]
      exact ⟨hrun, hstop, by simp only [hcons, List.length_cons], by simp only [hout,
        List.append_assoc], hstate⟩

/-- The last step of a run that goes on. -/
theorem run_concat_of_running {s : σ} {as : List α} {a : α}
    (h : (T.run s (as ++ [a])).stopped = none) :
    (T.run s as).stopped = none ∧ T.stop (T.run s as).state a = none ∧
      (T.run s (as ++ [a])).state = T.next (T.run s as).state a ∧
      (T.run s (as ++ [a])).out = (T.run s as).out ++ (T.emit (T.run s as).state a).toList := by
  have hrun : (T.run s as).stopped = none := by
    cases hr : (T.run s as).stopped with
    | none => rfl
    | some e => rw [run_append_of_stopped [a] hr, hr] at h; cases h
  have happ := run_append_of_running (T := T) [a] hrun
  cases hs : T.stop (T.run s as).state a with
  | some e => rw [happ, run_cons_of_stop hs] at h; cases h
  | none =>
    rw [happ, run_cons_of_running hs]
    exact ⟨hrun, rfl, rfl, by simp⟩

end Transducer

end NntpPool
