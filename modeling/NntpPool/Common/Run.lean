import Mathlib.Data.Nat.Notation
/-!
# Runs

A system is a function from a state and a label to the next state, where
there is one. A run is a list of labels; `exec` is the state it leads to,
and `Along` says that every one of its steps meets a condition.
`exec_invariant` is the rule for safety: what one step keeps, a run keeps.
`exec_reaches` is the rule for the end of a run: where there is a step
that costs something as long as the end is not reached, a run comes to it.
If every step costs something, none is longer than it costs
(`exec_length_le`).
Where steps leave entries in a log, `exec_logged` is the same rule for
what holds between the state and the log. `exec_amid` is the rule for two
runs, one with steps in between that the other does not have.
-/

namespace NntpPool

section Run

variable {σ ℓ : Type} (step : σ → ℓ → Option σ)

/-- The state a run leads to, if every step of it can be taken. -/
def exec : σ → List ℓ → Option σ
  | s, [] => some s
  | s, l :: ls => (step s l).bind fun s' => exec s' ls

/-- Every step of the run meets `P`, in the state it is taken in. -/
def Along (P : σ → ℓ → Prop) : σ → List ℓ → Prop
  | _, [] => True
  | s, l :: ls => P s l ∧ ∀ s', step s l = some s' → Along P s' ls

variable {step}

/-- A run can be followed to see whether it meets a condition. -/
instance decidableAlong {P : σ → ℓ → Prop} [∀ s l, Decidable (P s l)] :
    (s : σ) → (ls : List ℓ) → Decidable (Along step P s ls)
  | _, [] => .isTrue trivial
  | s, l :: ls =>
    match h : step s l with
    | none => decidable_of_iff (P s l) ⟨fun hp => ⟨hp, fun _ hs => by simp [h] at hs⟩, And.left⟩
    | some s' =>
      have := decidableAlong (P := P) s' ls
      decidable_of_iff (P s l ∧ Along step P s' ls)
        ⟨fun hp => ⟨hp.1, fun _ hs => Option.some.inj (h.symm.trans hs) ▸ hp.2⟩,
          fun hp => ⟨hp.1, hp.2 s' h⟩⟩

theorem exec_cons {s s' : σ} {l : ℓ} {ls : List ℓ} :
    exec step s (l :: ls) = some s' ↔ ∃ m, step s l = some m ∧ exec step m ls = some s' :=
  Option.bind_eq_some_iff

/-- One run behind another. -/
theorem exec_append {s s' m : σ} {ls ks : List ℓ} (h : exec step s ls = some m)
    (hk : exec step m ks = some s') : exec step s (ls ++ ks) = some s' := by
  induction ls generalizing s with
  | nil =>
    cases h
    exact hk
  | cons l ls ih =>
    obtain ⟨t, ht, h⟩ := exec_cons.1 h
    exact exec_cons.2 ⟨t, ht, ih h⟩

theorem exec_concat {s s' m : σ} {l : ℓ} {ls : List ℓ} (h : exec step s ls = some m)
    (hl : step m l = some s') : exec step s (ls ++ [l]) = some s' :=
  exec_append h (exec_cons.2 ⟨s', hl, rfl⟩)

/-- A condition that always holds. -/
theorem along_true (s : σ) (ls : List ℓ) : Along step (fun _ _ => True) s ls := by
  induction ls generalizing s with
  | nil => trivial
  | cons l ls ih => exact ⟨trivial, fun s' _ => ih s'⟩

/-- A condition on the labels alone, besides. -/
theorem Along.and {P : σ → ℓ → Prop} {Q : ℓ → Prop} {s : σ} {ls : List ℓ}
    (h : Along step P s ls) (hQ : ∀ l ∈ ls, Q l) : Along step (fun s l => P s l ∧ Q l) s ls := by
  induction ls generalizing s with
  | nil => trivial
  | cons l ls ih =>
    exact ⟨⟨h.1, hQ l List.mem_cons_self⟩,
      fun s' hs => ih (h.2 s' hs) fun x hx => hQ x (List.mem_cons_of_mem _ hx)⟩

/-- **What every step keeps, a run keeps.** -/
theorem exec_invariant {P : σ → ℓ → Prop} {I : σ → Prop}
    (hstep : ∀ s l s', I s → P s l → step s l = some s' → I s') (ls : List ℓ) :
    ∀ {s s' : σ}, I s → Along step P s ls → exec step s ls = some s' → I s' := by
  induction ls with
  | nil =>
    intro s s' hs _ h
    cases h
    exact hs
  | cons l ls ih =>
    intro s s' hs hall h
    obtain ⟨m, hm, hrun⟩ := exec_cons.1 h
    exact ih (hstep s l m hs hall.1 hm) (hall.2 m hm) hrun

/-- **What the invariant brings with it** holds of every step. -/
theorem Along.of_invariant {P Q : σ → ℓ → Prop} {I : σ → Prop} {s : σ} {ls : List ℓ}
    (hstep : ∀ s l s', I s → P s l → step s l = some s' → I s')
    (hQ : ∀ s l, I s → P s l → Q s l) (hs : I s) (h : Along step P s ls) : Along step Q s ls := by
  induction ls generalizing s with
  | nil => trivial
  | cons l ls ih =>
    exact ⟨hQ s l hs h.1, fun s' hl => ih (hstep s l s' hs h.1 hl) (h.2 s' hl)⟩

/-- **A property of all states on the way** is a condition on the steps,
where a step meets the condition exactly if it keeps the property. -/
theorem along_iff_reached {P : σ → ℓ → Prop} {I : σ → Prop}
    (hstep : ∀ s l s', I s → step s l = some s' → (P s l ↔ I s'))
    (hstuck : ∀ s l, step s l = none → P s l) (ls : List ℓ) : ∀ {s : σ}, I s →
      (Along step P s ls ↔ ∀ ks s', ks <+: ls → exec step s ks = some s' → I s') := by
  induction ls with
  | nil =>
    intro s hs
    refine ⟨fun _ ks s' hks h => ?_, fun _ => trivial⟩
    obtain rfl := List.prefix_nil.mp hks
    cases h
    exact hs
  | cons l ls ih =>
    intro s hs
    constructor
    · intro h ks s' hks hrun
      rcases List.prefix_cons_iff.mp hks with rfl | ⟨t, rfl, ht⟩
      · cases hrun
        exact hs
      · obtain ⟨m, hm, hrun⟩ := exec_cons.1 hrun
        exact (ih ((hstep s l m hs hm).mp h.1)).mp (h.2 m hm) t s' ht hrun
    · intro h
      have hnext (m : σ) (hm : step s l = some m) : I m :=
        h [l] m (by simp) (exec_cons.2 ⟨m, hm, rfl⟩)
      refine ⟨?_, fun m hm => (ih (hnext m hm)).mpr fun ks s' hks hrun => ?_⟩
      · cases hm : step s l with
        | none => exact hstuck s l hm
        | some m => exact (hstep s l m hs hm).mpr (hnext m hm)
      · exact h (l :: ks) s' (List.cons_prefix_cons.mpr ⟨rfl, hks⟩) (exec_cons.2 ⟨m, hm, hrun⟩)

/-! ## The end of a run -/

/-- **A run can come to its end**, where there always is a step that costs
something. -/
theorem exec_reaches {P : ℓ → Prop} {I ended : σ → Prop} {cost : σ → ℕ}
    (hgo : ∀ s, I s → ¬ended s → ∃ l s', P l ∧ step s l = some s' ∧ I s' ∧ cost s' < cost s)
    {s : σ} (hs : I s) :
    ∃ ls s', exec step s ls = some s' ∧ (∀ l ∈ ls, P l) ∧ I s' ∧ ended s' := by
  -- the cost of what is left goes down
  induction hn : cost s using Nat.strongRecOn generalizing s with
  | ind n ih =>
    subst hn
    by_cases hend : ended s
    · exact ⟨[], s, rfl, fun _ hl => absurd hl List.not_mem_nil, hs, hend⟩
    · obtain ⟨l, m, hl, hm, hI, hlt⟩ := hgo s hs hend
      obtain ⟨ls, s', hrun, hls, hend'⟩ := ih (cost m) hlt hI rfl
      exact ⟨l :: ls, s', exec_cons.2 ⟨m, hm, hrun⟩, List.forall_mem_cons.mpr ⟨hl, hls⟩, hend'⟩

section Cost

variable {I : σ → Prop} {cost : σ → ℕ}
  (hstep : ∀ s l s', I s → step s l = some s' → I s' ∧ cost s' < cost s)
include hstep

/-- **A run is no longer than it costs.** -/
theorem exec_length_le (ls : List ℓ) :
    ∀ {s s' : σ}, I s → exec step s ls = some s' → ls.length + cost s' ≤ cost s := by
  induction ls with
  | nil =>
    intro s s' _ h
    cases h
    simp
  | cons l ls ih =>
    intro s s' hs h
    obtain ⟨m, hm, hrun⟩ := exec_cons.1 h
    obtain ⟨hI, hlt⟩ := hstep s l m hs hm
    have hle := ih hI hrun
    rw [List.length_cons]
    omega

/-- **A run comes to its end**, by steps that there are. -/
theorem exec_ends {P : ℓ → Prop} {ended : σ → Prop}
    (hgo : ∀ s, I s → ¬ended s → ∃ l s', P l ∧ step s l = some s') {s : σ} (hs : I s) :
    ∃ ls s', exec step s ls = some s' ∧ (∀ l ∈ ls, P l) ∧ ended s' := by
  have hcosts : ∀ s, I s → ¬ended s →
      ∃ l s', P l ∧ step s l = some s' ∧ I s' ∧ cost s' < cost s := by
    intro s hI hne
    obtain ⟨l, m, hl, hm⟩ := hgo s hI hne
    exact ⟨l, m, hl, hm, hstep s l m hI hm⟩
  obtain ⟨ls, s', hrun, hls, -, hend⟩ := exec_reaches hcosts hs
  exact ⟨ls, s', hrun, hls, hend⟩

end Cost

variable {α : Type} (step)

/-- The log of a run to which every step adds the entries `f` tells. -/
def logged (f : σ → ℓ → List α) : σ → List ℓ → List α
  | _, [] => []
  | s, l :: ls => f s l ++ (step s l).elim [] fun s' => logged f s' ls

variable {step}

theorem logged_nil (f : σ → ℓ → List α) (s : σ) : logged step f s [] = [] := rfl

theorem logged_cons (f : σ → ℓ → List α) (s : σ) (l : ℓ) (ls : List ℓ) :
    logged step f s (l :: ls) = f s l ++ (step s l).elim [] fun s' => logged step f s' ls := rfl

/-- **What every step keeps between state and log, a run keeps.** -/
theorem exec_logged {f : σ → ℓ → List α} {P : σ → ℓ → Prop} {I : σ → List α → Prop}
    (hstep : ∀ s log l s', I s log → P s l → step s l = some s' → I s' (log ++ f s l))
    (ls : List ℓ) : ∀ {s s' : σ} {log : List α}, I s log → Along step P s ls →
      exec step s ls = some s' → I s' (log ++ logged step f s ls) := by
  induction ls with
  | nil =>
    intro s s' log hs _ h
    cases h
    simpa [logged_nil] using hs
  | cons l ls ih =>
    intro s s' log hs hall h
    obtain ⟨m, hm, hrun⟩ := exec_cons.1 h
    have := ih (hstep s log l m hs hall.1 hm) (hall.2 m hm) hrun
    simpa [logged_cons, hm] using this

/-! ## Steps in between -/

variable {κ : Type}

/-- Steps of the system, and others in between. -/
def amid (step : σ → ℓ → Option σ) (other : σ → κ → Option σ) (s : σ) : ℓ ⊕ κ → Option σ :=
  Sum.elim (step s) (other s)

/-- The entries of the steps of the system alone. -/
def amidLog (f : σ → ℓ → List α) (s : σ) : ℓ ⊕ κ → List α := Sum.elim (f s) fun _ => []

/-- **What the steps in between keep alike**, the run without them is alike
to, and its log is the same. -/
theorem exec_amid {f : σ → ℓ → List α} {other : σ → κ → Option σ} {R : σ → σ → Prop}
    (hstep : ∀ s t l s', R s t → step s l = some s' →
      ∃ t', step t l = some t' ∧ R s' t' ∧ f s l = f t l)
    (hother : ∀ s t k s', R s t → other s k = some s' → R s' t) (xs : List (ℓ ⊕ κ)) :
    ∀ {s t s' : σ}, R s t → exec (amid step other) s xs = some s' →
      ∃ t', exec step t (xs.filterMap Sum.getLeft?) = some t' ∧ R s' t' ∧
        logged (amid step other) (amidLog f) s xs =
          logged step f t (xs.filterMap Sum.getLeft?) := by
  induction xs with
  | nil =>
    intro s t s' hR h
    cases h
    exact ⟨t, rfl, hR, rfl⟩
  | cons x xs ih =>
    intro s t s' hR h
    obtain ⟨m, hm, hrun⟩ := exec_cons.1 h
    cases x with
    | inl l =>
      obtain ⟨u, hu, hRu, hlog⟩ := hstep s t l m hR hm
      obtain ⟨t', ht', hR', hlogs⟩ := ih hRu hrun
      refine ⟨t', exec_cons.2 ⟨u, hu, ht'⟩, hR', ?_⟩
      simp only [logged_cons, hm, hlogs, List.filterMap_cons, Sum.getLeft?_inl, hu,
        Option.elim_some]
      rw [← hlog]
      rfl
    | inr k =>
      obtain ⟨t', ht', hR', hlogs⟩ := ih (hother s t k m hR hm) hrun
      refine ⟨t', ht', hR', ?_⟩
      simp only [logged_cons, hm, hlogs, Option.elim_some]
      rfl

end Run

end NntpPool
