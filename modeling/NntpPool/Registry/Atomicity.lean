import NntpPool.Registry.Order
/-!
# Registry — atomicity

The calls on the registry behave as if they ran one after the other, as
long as every Store is fresh (`registry_atomic`). Nothing in the code
makes a Store fresh: it is a plain Store behind a Load, so two calls
that overlap lose an update (`concurrent_adds_lose_one`).
-/

namespace NntpPool

namespace Registry

variable {calls : List Call} {r₀ : Lists} {s s' : State} {i j : ℕ}

/-! ## Groups and their calls -/

/-- The group exists: it was there at the start, or its call has
registered it. -/
def Known (s : State) : Key → Prop
  | .initial _ => True
  | .made j => ∃ p, s.pc j = .returned (.add p) none

/-- The groups a call holds that it has read. -/
def Pc.seen : Pc → List Group
  | .checkBackup _ _ mains => mains
  | .store _ _ old => old
  | .cancel _ _ g old => g :: old
  | .unlink _ _ g old => g :: old
  | _ => []

/-- **Where the groups are**: all that are registered or have been read
exist, a group is registered once, a cancelled group is registered only
while its removal is under way, and what was added is there or
cancelled. -/
structure Accounted (s : State) : Prop where
  known : ∀ g ∈ s.main ++ s.backup, Known s g.key
  seen : ∀ i, ∀ g ∈ (s.pc i).seen, Known s g.key
  dead : ∀ k ∈ s.cancelled, Known s k
  keys : ((s.main ++ s.backup).map Group.key).Nodup
  doomed : ∀ g ∈ s.main ++ s.backup, g.key ∈ s.cancelled →
    ∃ i name lane g' old, s.pc i = .unlink name lane g' old ∧ g'.key = g.key
  unlinking : ∀ i name lane g old, s.pc i = .unlink name lane g old → g.key ∈ s.cancelled
  kept : ∀ i p, s.pc i = .returned (.add p) none →
    (∃ g ∈ s.main ++ s.backup, g.key = .made i) ∨ .made i ∈ s.cancelled

/-- A call that is under way has not returned. -/
theorem Known.of_update {k : Key} {pc : Pc} (h : Known s k) (hold : ¬(s.pc i).isReturned)
    (hpc : s'.pc = Function.update s.pc i pc) : Known s' k := by
  cases k with
  | initial n => trivial
  | made j =>
    obtain ⟨p, hj⟩ := h
    refine ⟨p, ?_⟩
    have hne : j ≠ i := by
      rintro rfl
      exact hold ⟨_, _, hj⟩
    rw [hpc, Function.update_of_ne hne, hj]

/-- **A step that changes neither the lists nor the cancelled groups**,
and does not register anything. -/
theorem Accounted.quiet {pc : Pc} (h : Accounted s) (hlists : s'.toLists = s.toLists)
    (hdead : s'.cancelled = s.cancelled) (hpc : s'.pc = Function.update s.pc i pc)
    (hold : ¬(s.pc i).isReturned) (hunlink : ∀ name lane g old, s.pc i ≠ .unlink name lane g old)
    (hnew : ∀ p, pc ≠ .returned (.add p) none)
    (hlink : ∀ name lane g old, pc ≠ .unlink name lane g old) (hseen : ∀ g ∈ pc.seen, Known s g.key) :
    Accounted s' where
  known := by
    rw [hlists]
    exact fun g hg => (h.known g hg).of_update hold hpc
  seen := by
    intro j g hg
    by_cases hj : j = i
    · subst hj
      rw [hpc, Function.update_self] at hg
      exact (hseen g hg).of_update hold hpc
    · rw [hpc, Function.update_of_ne hj] at hg
      exact (h.seen j g hg).of_update hold hpc
  dead := by
    rw [hdead]
    exact fun k hk => (h.dead k hk).of_update hold hpc
  keys := by rw [hlists]; exact h.keys
  doomed := by
    rw [hlists, hdead]
    intro g hg hk
    obtain ⟨j, name, lane, g', old, hj, hkey⟩ := h.doomed g hg hk
    refine ⟨j, name, lane, g', old, ?_, hkey⟩
    have hne : j ≠ i := by
      rintro rfl
      exact hunlink _ _ _ _ hj
    rw [hpc, Function.update_of_ne hne, hj]
  unlinking := by
    rw [hdead]
    intro j name lane g old hj
    by_cases hji : j = i
    · subst hji
      rw [hpc, Function.update_self] at hj
      exact absurd hj (hlink name lane g old)
    · rw [hpc, Function.update_of_ne hji] at hj
      exact h.unlinking j name lane g old hj
  kept := by
    rw [hlists, hdead]
    intro j p hj
    by_cases hji : j = i
    · subst hji
      rw [hpc, Function.update_self] at hj
      exact absurd hj (hnew p)
    · rw [hpc, Function.update_of_ne hji] at hj
      exact h.kept j p hj

/-- What a call does to its own entry. -/
theorem pc_of_ne {pc : Pc} (hpc : s'.pc = Function.update s.pc i pc) (h : j ≠ i) :
    s'.pc j = s.pc j := by rw [hpc, Function.update_of_ne h]

/-- **A group is registered.** -/
theorem Accounted.store {p : Provider} {g : Group} (h : Accounted s) (hkey : g.key = .made i)
    (hold : ¬(s.pc i).isReturned) (hunlink : ∀ name lane g old, s.pc i ≠ .unlink name lane g old) :
    Accounted { s.move i (.returned (.add p) none) with
      toLists := s.toLists.store (s.load p.lane ++ [g]) p.lane } := by
  have hperm := s.toLists.store_append_perm g p.lane
  have hnew : ¬Known s (.made i) := fun ⟨p', hi⟩ => hold ⟨_, _, hi⟩
  have hkn {k : Key} (hk : Known s k) : Known { s.move i (.returned (.add p) none) with
      toLists := s.toLists.store (s.load p.lane ++ [g]) p.lane } k := hk.of_update hold rfl
  refine ⟨?_, ?_, fun k hk => hkn (h.dead k hk), ?_, ?_, ?_, ?_⟩
  · intro g' hg'
    rcases List.mem_cons.mp (hperm.mem_iff.mp hg') with rfl | hg'
    · rw [hkey]
      exact ⟨p, move_pc_self _⟩
    · exact hkn (h.known g' hg')
  · intro j g' hg'
    by_cases hj : j = i
    · subst hj
      rw [show State.pc _ j = _ from move_pc_self _] at hg'
      cases hg'
    · rw [pc_of_ne rfl hj] at hg'
      exact hkn (h.seen j g' hg')
  · refine (hperm.map Group.key).nodup_iff.mpr (List.nodup_cons.mpr ⟨fun hmem => ?_, h.keys⟩)
    obtain ⟨g', hg', hk⟩ := List.mem_map.mp hmem
    exact hnew (hkey ▸ hk ▸ h.known g' hg')
  · intro g' hg' hdead
    rcases List.mem_cons.mp (hperm.mem_iff.mp hg') with rfl | hg'
    · exact absurd (hkey ▸ h.dead _ hdead) hnew
    · obtain ⟨j, name, lane, g'', old, hj, hk⟩ := h.doomed g' hg' hdead
      refine ⟨j, name, lane, g'', old, ?_, hk⟩
      rw [pc_of_ne rfl (by rintro rfl; exact hunlink _ _ _ _ hj), hj]
  · intro j name lane g' old hj
    by_cases hji : j = i
    · subst hji
      cases (move_pc_self (s := s) (i := j) _).symm.trans hj
    · rw [pc_of_ne rfl hji] at hj
      exact h.unlinking j name lane g' old hj
  · intro j p' hj
    by_cases hji : j = i
    · subst hji
      exact .inl ⟨g, hperm.mem_iff.mpr List.mem_cons_self, hkey⟩
    · rw [pc_of_ne rfl hji] at hj
      refine (h.kept j p' hj).imp_left fun ⟨g', hg', hk⟩ => ⟨g', ?_, hk⟩
      exact hperm.mem_iff.mpr (List.mem_cons_of_mem _ hg')

/-- **A group is cancelled.** -/
theorem Accounted.cancel {name : String} {lane : Lane} {g : Group} {old : List Group}
    (h : Accounted s) (hpc : s.pc i = .cancel name lane g old) :
    Accounted { s.move i (.unlink name lane g old) with cancelled := g.key :: s.cancelled } := by
  have hold : ¬(s.pc i).isReturned := by simp [hpc, Pc.isReturned]
  have hseen := h.seen i
  rw [hpc] at hseen
  have hkn {k : Key} (hk : Known s k) : Known { s.move i (.unlink name lane g old) with
      cancelled := g.key :: s.cancelled } k := hk.of_update hold rfl
  refine ⟨fun g' hg' => hkn (h.known g' hg'), ?_, ?_, h.keys, ?_, ?_, ?_⟩
  · intro j g' hg'
    by_cases hj : j = i
    · subst hj
      rw [show State.pc _ j = _ from move_pc_self _] at hg'
      exact hkn (hseen g' hg')
    · rw [pc_of_ne rfl hj] at hg'
      exact hkn (h.seen j g' hg')
  · exact List.forall_mem_cons.mpr ⟨hkn (hseen g List.mem_cons_self), fun k hk => hkn (h.dead k hk)⟩
  · intro g' hg' hdead
    rcases List.mem_cons.mp hdead with hk | hdead
    · exact ⟨i, name, lane, g, old, move_pc_self _, hk.symm⟩
    · obtain ⟨j, name', lane', g'', old', hj, hk⟩ := h.doomed g' hg' hdead
      refine ⟨j, name', lane', g'', old', ?_, hk⟩
      rw [pc_of_ne rfl (by rintro rfl; cases hpc.symm.trans hj), hj]
  · intro j name' lane' g' old' hj
    by_cases hji : j = i
    · subst hji
      cases (move_pc_self (s := s) (i := j) _).symm.trans hj
      exact List.mem_cons_self
    · rw [pc_of_ne rfl hji] at hj
      exact List.mem_cons_of_mem _ (h.unlinking j name' lane' g' old' hj)
  · intro j p hj
    by_cases hji : j = i
    · subst hji
      cases (move_pc_self (s := s) (i := j) _).symm.trans hj
    · rw [pc_of_ne rfl hji] at hj
      exact (h.kept j p hj).imp_right (List.mem_cons_of_mem _)

/-- The lists, with the first group of a name taken out. -/
theorem Lists.perm_without {r : Lists} {lane : Lane} {name : String} {g : Group}
    (h : findNamed (r.load lane) name = some g) :
    (r.main ++ r.backup).Perm (g :: ((r.store (without (r.load lane) name) lane).main ++
      (r.store (without (r.load lane) name) lane).backup)) := by
  obtain ⟨_, xs, ys, heq, hw⟩ := findNamed_eq_some h
  rw [hw]
  cases lane with
  | main =>
    rw [show r.main = xs ++ g :: ys from heq]
    exact List.perm_middle.append_right _
  | backup =>
    rw [show r.backup = xs ++ g :: ys from heq]
    exact (List.perm_middle.append_left _).trans List.perm_middle

/-- **A group is unlinked.** -/
theorem Accounted.unlink {name : String} {lane : Lane} {g : Group} (h : Accounted s)
    (hpc : s.pc i = .unlink name lane g (s.load lane))
    (hf : findNamed (s.load lane) name = some g) :
    Accounted { s.move i (.returned (.remove name) none) with
      toLists := s.toLists.store (without (s.load lane) name) lane } := by
  have hold : ¬(s.pc i).isReturned := by simp [hpc, Pc.isReturned]
  have hperm := Lists.perm_without hf
  have hkeys := (hperm.map Group.key).nodup_iff.mp h.keys
  have hkn {k : Key} (hk : Known s k) : Known { s.move i (.returned (.remove name) none) with
      toLists := s.toLists.store (without (s.load lane) name) lane } k := hk.of_update hold rfl
  have hmem {g' : Group} (hg' : g' ∈ (s.toLists.store (without (s.load lane) name) lane).main ++
      (s.toLists.store (without (s.load lane) name) lane).backup) : g' ∈ s.main ++ s.backup :=
    hperm.mem_iff.mpr (List.mem_cons_of_mem _ hg')
  refine ⟨fun g' hg' => hkn (h.known g' (hmem hg')), ?_, fun k hk => hkn (h.dead k hk),
    (List.nodup_cons.mp hkeys).2, ?_, ?_, ?_⟩
  · intro j g' hg'
    by_cases hj : j = i
    · subst hj
      rw [show State.pc _ j = _ from move_pc_self _] at hg'
      cases hg'
    · rw [pc_of_ne rfl hj] at hg'
      exact hkn (h.seen j g' hg')
  · intro g' hg' hdead
    obtain ⟨j, name', lane', g'', old', hj, hk⟩ := h.doomed g' (hmem hg') hdead
    by_cases hji : j = i
    · -- the group is registered once, and was just taken out
      subst hji
      cases hpc.symm.trans hj
      exact absurd (hk ▸ List.mem_map_of_mem hg') (List.nodup_cons.mp hkeys).1
    · exact ⟨j, name', lane', g'', old', by rw [pc_of_ne rfl hji, hj], hk⟩
  · intro j name' lane' g' old' hj
    by_cases hji : j = i
    · subst hji
      cases (move_pc_self (s := s) (i := j) _).symm.trans hj
    · rw [pc_of_ne rfl hji] at hj
      exact h.unlinking j name' lane' g' old' hj
  · intro j p hj
    by_cases hji : j = i
    · subst hji
      cases (move_pc_self (s := s) (i := j) _).symm.trans hj
    · rw [pc_of_ne rfl hji] at hj
      rcases h.kept j p hj with ⟨g', hg', hk⟩ | hdead
      · rcases List.mem_cons.mp (hperm.mem_iff.mp hg') with rfl | hg'
        · exact .inr (hk ▸ h.unlinking i _ _ _ _ hpc)
        · exact .inl ⟨g', hg', hk⟩
      · exact .inr hdead

/-- **Every fresh step keeps the account.** -/
theorem Accounted.step {order : List ℕ} (h : Accounted s) (ho : Ordered calls r₀ s order)
    (hfresh : Fresh s i) (hm : Moves s i s') : Accounted s' := by
  have hheld := ho.held i
  have hload (lane : Lane) : ∀ g ∈ s.load lane, Known s g.key := by
    intro g hg
    refine h.known g (List.mem_append.mpr ?_)
    cases lane with
    | main => exact .inl hg
    | backup => exact .inr hg
  cases hm with
  | reject hpc | draw hpc | duplicate hpc | begin hpc | missMain hpc | missBackup hpc =>
    exact h.quiet rfl rfl rfl (by simp [hpc, Pc.isReturned]) (by simp [hpc]) (by simp) (by simp)
      (by simp [Pc.seen])
  | seeMain hpc =>
    exact h.quiet rfl rfl rfl (by simp [hpc, Pc.isReturned]) (by simp [hpc]) (by simp) (by simp)
      (hload .main)
  | load hpc =>
    exact h.quiet rfl rfl rfl (by simp [hpc, Pc.isReturned]) (by simp [hpc]) (by simp) (by simp)
      (hload _)
  | store hpc =>
    rw [hpc] at hheld
    rw [Fresh, hpc] at hfresh
    obtain ⟨-, -, rfl⟩ := hheld
    obtain ⟨rfl, -⟩ := hfresh
    exact h.store rfl (by simp [hpc, Pc.isReturned]) (by simp [hpc])
  | found lane hpc hf =>
    refine h.quiet rfl rfl rfl ?_ ?_ (by simp) (by simp)
      (List.forall_mem_cons.mpr ⟨?_, hload lane⟩)
    · rcases hpc with hpc | hpc <;> simp [hpc, Pc.isReturned]
    · rcases hpc with hpc | hpc <;> simp [hpc]
    · exact hload lane _ (List.mem_of_find?_eq_some hf)
  | cancel hpc => exact h.cancel hpc
  | unlink hpc =>
    rw [hpc] at hheld
    rw [Fresh, hpc] at hfresh
    obtain ⟨rfl, -⟩ := hfresh
    exact h.unlink hpc hheld.2

/-! ## One call after the other -/

/-- **A call run alone** does what `Call.apply` says, and nothing to the
other calls. -/
theorem alone_ready {c : Call} (hpc : s.pc i = .ready c) (hnamed : ∀ p, c = .add p → p.Named) :
    (alone i s).toLists = c.apply i s.toLists ∧ ∀ j, j ≠ i → (alone i s).pc j = s.pc j := by
  cases c with
  | add p =>
    have hn := hnamed p rfl
    cases he : invalid p with
    | some e => simp +contextual [alone, alone.go, Registry.step, State.move, hpc, he, Call.apply]
    | none =>
      by_cases ht : taken (s.main ++ s.backup) (resolveProviderName p 0) (resolveProviderID p 0)
      · simp +contextual [alone, alone.go, Registry.step, State.move, hpc, he, Call.apply, ht,
          resolveProviderName_named hn (s.providerIdx + 1),
          resolveProviderID_named hn (s.providerIdx + 1)]
      · simp +contextual [alone, alone.go, Registry.step, State.move, hpc, he, Call.apply, ht,
          newGroup_named hn i (s.providerIdx + 1), resolveProviderName_named hn (s.providerIdx + 1),
          resolveProviderID_named hn (s.providerIdx + 1)]
  | remove name =>
    cases hm : findNamed s.main name with
    | some g =>
      simp +contextual [alone, alone.go, Registry.step, State.move, hpc, hm, Call.apply]
    | none =>
      cases hb : findNamed s.backup name with
      | some g =>
        simp +contextual [alone, alone.go, Registry.step, State.move, hpc, hm, hb, Call.apply]
      | none =>
        have hsame := s.toLists.store_load .backup
        rw [Lists.load] at hsame
        simp +contextual [alone, alone.go, Registry.step, State.move, hpc, hm, hb, Call.apply,
          without_of_none hb, hsame]

/-- **The calls run one after the other.** -/
theorem sequentially_toLists (hnamed : ∀ p, Call.add p ∈ calls → p.Named) {order : List ℕ}
    (hnd : order.Nodup) (hready : ∀ i ∈ order, ∃ c, calls[i]? = some c ∧ s.pc i = .ready c) :
    (sequentially s order).toLists = Serial.result (applyAt calls) s.toLists order := by
  induction order generalizing s with
  | nil => rfl
  | cons i order ih =>
    obtain ⟨hi, hnd⟩ := List.nodup_cons.mp hnd
    obtain ⟨c, hc, hpc⟩ := hready i List.mem_cons_self
    obtain ⟨hlists, hothers⟩ := alone_ready hpc fun p hp =>
      hnamed p (hp ▸ List.mem_of_getElem? hc)
    have happ : (alone i s).toLists = applyAt calls i s.toLists := by rw [applyAt, hc, hlists]
    show (sequentially (alone i s) order).toLists =
      Serial.result (applyAt calls) (applyAt calls i s.toLists) order
    rw [← happ]
    refine ih hnd fun j hj => ?_
    obtain ⟨c', hc', hpc'⟩ := hready j (List.mem_cons_of_mem _ hj)
    exact ⟨c', hc', by rw [hothers j (by rintro rfl; exact hi hj), hpc']⟩

/-! ## Runs -/

/-- **A registry to start from**: the groups are those the client was
made with, each registered once, with its own name and id. -/
structure Distinct (r : Lists) : Prop where
  initial : ∀ g ∈ r.main ++ r.backup, ∃ n, g.key = .initial n
  keys : ((r.main ++ r.backup).map Group.key).Nodup
  names : ((r.main ++ r.backup).map Group.name).Nodup
  ids : ((r.main ++ r.backup).map Group.id).Nodup

/-- A call that has not begun. -/
theorem start_pc (r : Lists) (calls : List Call) (i : ℕ) :
    (start r calls).pc i = match calls[i]? with
      | some c => .ready c
      | none => .idle := rfl

theorem Ordered.start (h : Distinct r₀) : Ordered calls r₀ (start r₀ calls) [] where
  nodup := .nil
  mem := by
    intro i
    rw [start_pc]
    split <;> simp
  result := rfl
  held := by
    intro i
    rw [start_pc]
    split <;> assumption
  names := h.names
  ids := h.ids

theorem Accounted.start (h : Distinct r₀) : Accounted (start r₀ calls) where
  known := by
    intro g hg
    obtain ⟨n, hn⟩ := h.initial g hg
    rw [hn]
    trivial
  seen := by
    intro i g hg
    rw [start_pc] at hg
    split at hg <;> cases hg
  dead := nofun
  keys := h.keys
  doomed := nofun
  unlinking := by
    intro i name lane g old hi
    rw [start_pc] at hi
    split at hi <;> cases hi
  kept := by
    intro i p hi
    rw [start_pc] at hi
    split at hi <;> cases hi

/-- **A fresh run** has an order and keeps the account. -/
theorem fresh_run {sched : List ℕ} (hr : Distinct r₀)
    (hnamed : ∀ p, Call.add p ∈ calls → p.Named)
    (hfresh : Along Registry.step Fresh (Registry.start r₀ calls) sched)
    (hrun : exec Registry.step (Registry.start r₀ calls) sched = some s) :
    (∃ order, Ordered calls r₀ s order) ∧ Accounted s := by
  refine exec_invariant (P := Fresh) (I := fun s => (∃ order, Ordered calls r₀ s order) ∧
    Accounted s) ?_ sched ⟨⟨[], .start hr⟩, .start hr⟩ hfresh hrun
  rintro s i s' ⟨⟨order, ho⟩, ha⟩ hf hstep
  have hm := step_moves hstep
  exact ⟨ho.step hnamed hf hm, ha.step ho hf hm⟩

/-- **The registry behaves atomically**: it is that of the calls run one
after the other in some order, what was added is there unless it was
removed, what was removed is not there, and no name and no id is there
twice. -/
structure Atomic (r₀ : Lists) (calls : List Call) (s : State) : Prop where
  serial : ∃ order : List ℕ, order.Perm (List.range calls.length) ∧
    s.toLists = (sequentially (start r₀ calls) order).toLists
  kept : ∀ i p, s.pc i = .returned (.add p) none →
    (∃ g ∈ s.main ++ s.backup, g.key = .made i) ∨ .made i ∈ s.cancelled
  gone : ∀ g ∈ s.main ++ s.backup, g.key ∉ s.cancelled
  names : ((s.main ++ s.backup).map Group.name).Nodup
  ids : ((s.main ++ s.backup).map Group.id).Nodup

/-- There are no calls behind the last one. -/
theorem Ordered.over {order : List ℕ} (h : Ordered calls r₀ s order)
    (hover : ∀ i < calls.length, (s.pc i).over = true) (i : ℕ) : (s.pc i).over = true := by
  by_cases hlt : i < calls.length
  · exact hover i hlt
  · have hnone : calls[i]? = none := List.getElem?_eq_none_iff.mpr (not_lt.mp hlt)
    have hheld := h.held i
    cases hpc : s.pc i with
    | idle => rfl
    | returned c e => rfl
    | _ => simp [hpc, Held, hnone] at hheld

/-- Once all calls have returned, the order is one of all calls. -/
theorem Ordered.perm_range {order : List ℕ} (h : Ordered calls r₀ s order)
    (hover : ∀ i, (s.pc i).over = true) : order.Perm (List.range calls.length) := by
  refine (List.perm_ext_iff_of_nodup h.nodup List.nodup_range).mpr fun i => ?_
  have hheld := h.held i
  rw [h.mem, List.mem_range]
  cases hpc : s.pc i with
  | idle =>
    rw [hpc] at hheld
    exact iff_of_false nofun (not_lt.mpr (List.getElem?_eq_none_iff.mp hheld))
  | returned c e =>
    rw [hpc] at hheld
    exact iff_of_true ⟨c, e, rfl⟩ (List.getElem?_eq_some_iff.mp hheld).1
  | _ => exact absurd (hover i) (by rw [hpc]; nofun)

/-- **The registry behaves atomically as long as every Store is fresh**,
and the providers that are added have a host. -/
theorem registry_atomic {sched : List ℕ} (hr : Distinct r₀)
    (hnamed : ∀ p, Call.add p ∈ calls → p.Named)
    (hfresh : Along Registry.step Fresh (Registry.start r₀ calls) sched)
    (hrun : exec Registry.step (Registry.start r₀ calls) sched = some s)
    (hover : ∀ i < calls.length, (s.pc i).over = true) : Atomic r₀ calls s := by
  obtain ⟨⟨order, ho⟩, ha⟩ := fresh_run hr hnamed hfresh hrun
  have hover := ho.over hover
  have hperm := ho.perm_range hover
  refine ⟨⟨order, hperm, ?_⟩, ha.kept, fun g hg hdead => ?_, ho.names, ho.ids⟩
  · rw [ho.result, sequentially_toLists hnamed ho.nodup fun i hi => ?_]
    · rfl
    · have hlt := List.mem_range.mp (hperm.mem_iff.mp hi)
      refine ⟨calls[i], List.getElem?_eq_getElem hlt, ?_⟩
      rw [start_pc, List.getElem?_eq_getElem hlt]
  · -- a removal that is still under way would not have returned
    obtain ⟨i, name, lane, g', old, hi, -⟩ := ha.doomed g hg hdead
    exact absurd (hover i) (by rw [hi]; nofun)

/-- Two providers are added and one of them is removed, in turns. -/
theorem registry_atomic_in_turns :
    ∃ s, exec Registry.step
        (Registry.start {} [.add { host := "a" }, .add { host := "b" }, .remove "a"])
        [0, 1, 0, 1, 0, 1, 0, 0, 1, 1, 2, 2, 2] = some s ∧
      Atomic {} [.add { host := "a" }, .add { host := "b" }, .remove "a"] s := by
  have hrun : (exec Registry.step
      (Registry.start {} [.add { host := "a" }, .add { host := "b" }, .remove "a"])
      [0, 1, 0, 1, 0, 1, 0, 0, 1, 1, 2, 2, 2]).map
        (fun s => [0, 1, 2].map fun i => (s.pc i).over) = some [true, true, true] := by
    decide
  obtain ⟨s, hs, hp⟩ := Option.map_eq_some_iff.mp hrun
  obtain ⟨h0, h1, h2⟩ : (s.pc 0).over ∧ (s.pc 1).over ∧ (s.pc 2).over := by simpa using hp
  refine ⟨s, hs, registry_atomic ⟨nofun, .nil, .nil, .nil⟩ (by simp [Provider.Named])
    (by decide) hs fun i hi => ?_⟩
  match i, hi with
  | 0, _ => exact h0
  | 1, _ => exact h1
  | 2, _ => exact h2

/-- **An added provider is lost**: two calls load the list before either
stores it, and the one that stores last stores a list without the other's
group. No order of the two calls has that result. -/
theorem concurrent_adds_lose_one :
    ∃ s, exec Registry.step (Registry.start {} [.add { host := "a" }, .add { host := "b" }])
        [0, 0, 0, 0, 1, 1, 1, 1, 0, 1] = some s ∧
      (∀ i < 2, (s.pc i).over = true) ∧
      s.pc 0 = .returned (.add { host := "a" }) none ∧ s.main.map Group.name = ["b"] ∧
      ¬Atomic {} [.add { host := "a" }, .add { host := "b" }] s := by
  have hrun : (exec Registry.step (Registry.start {} [.add { host := "a" }, .add { host := "b" }])
      [0, 0, 0, 0, 1, 1, 1, 1, 0, 1]).map (fun s => (s.pc 0, s.pc 1, s.toLists, s.cancelled)) =
      some (.returned (.add { host := "a" }) none, .returned (.add { host := "b" }) none,
        { main := [⟨.made 1, "b", "b"⟩] }, []) := by
    decide
  obtain ⟨s, hs, hp⟩ := Option.map_eq_some_iff.mp hrun
  obtain ⟨h0, h1, hlists, hdead⟩ : s.pc 0 = _ ∧ s.pc 1 = _ ∧ s.toLists = _ ∧ s.cancelled = _ := by
    simpa using hp
  refine ⟨s, hs, ?_, h0, by rw [hlists]; rfl, fun hat => ?_⟩
  · intro i hi
    match i, hi with
    | 0, _ => rw [h0]; rfl
    | 1, _ => rw [h1]; rfl
  · rcases hat.kept 0 _ h0 with ⟨g, hg, hk⟩ | hk
    · rw [hlists] at hg
      simp at hg
      simp [hg] at hk
    · simp [hdead] at hk

end Registry

end NntpPool
