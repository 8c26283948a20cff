import NntpPool.Common.Serial
import NntpPool.Registry.Model.Registry
import Mathlib.Data.List.Nodup
/-!
# Registry — a serial order of the calls

As long as every Store finds the registry as its call has seen it
(`Fresh`), the lists are at every moment those of some serial order of
the calls that have returned (`Ordered`). A call that stores is placed
last, when it stores. A call that fails is placed in hindsight, at a
state in which it had to fail: a duplicate is there when its list is
loaded, and a name that neither list held when it was loaded was in
neither at some moment between the two Loads.
-/

namespace NntpPool

namespace Registry

/-! ## The lists -/

/-- What a call does to the lists when it runs alone, for a provider
whose name does not depend on its index. -/
def Call.apply (i : ℕ) : Call → Lists → Lists
  | .add p, r =>
    if (invalid p).isSome ∨
        taken (r.main ++ r.backup) (resolveProviderName p 0) (resolveProviderID p 0) then r
    else r.store (r.load p.lane ++ [newGroup i p 0]) p.lane
  | .remove name, r =>
    if (findNamed r.main name).isSome then r.store (without r.main name) .main
    else r.store (without r.backup name) .backup

/-- The same, by the number of the call. -/
def applyAt (calls : List Call) (i : ℕ) (r : Lists) : Lists :=
  match calls[i]? with
  | some c => c.apply i r
  | none => r

/-- The provider has a host, so that its name and its id do not depend on
the index it draws. -/
def Provider.Named (p : Provider) : Prop := p.host ≠ ""

theorem resolveProviderName_named {p : Provider} (h : p.Named) (index : ℕ) :
    resolveProviderName p index = resolveProviderName p 0 := by
  have h : p.host ≠ "" := h
  rw [resolveProviderName, resolveProviderName, if_pos h, if_pos h]

theorem resolveProviderID_named {p : Provider} (h : p.Named) (index : ℕ) :
    resolveProviderID p index = resolveProviderID p 0 := by
  rw [resolveProviderID, resolveProviderID, resolveProviderName_named h]

theorem newGroup_named {p : Provider} (h : p.Named) (i index : ℕ) :
    newGroup i p index = newGroup i p 0 := by
  rw [newGroup, newGroup, resolveProviderName_named h, resolveProviderID_named h]

theorem taken_append (gs gs' : List Group) (name id : String) :
    taken (gs ++ gs') name id = (taken gs name id || taken gs' name id) := List.any_append

/-- The first group of a name, and the list without it. -/
theorem findNamed_eq_some {gs : List Group} {name : String} {g : Group}
    (h : findNamed gs name = some g) :
    g.name = name ∧ ∃ xs ys, gs = xs ++ g :: ys ∧ without gs name = xs ++ ys := by
  obtain ⟨hp, xs, ys, rfl, hxs⟩ := List.find?_eq_some_iff_append.mp h
  refine ⟨by simpa using hp, xs, ys, rfl, ?_⟩
  rw [without, List.eraseP_append_right _ (fun b hb => by simpa using hxs b hb)]
  simp [hp]

theorem findNamed_eq_none {gs : List Group} {name : String} :
    findNamed gs name = none ↔ ∀ g ∈ gs, g.name ≠ name := by
  simp [findNamed]

theorem without_of_none {gs : List Group} {name : String} (h : findNamed gs name = none) :
    without gs name = gs :=
  List.eraseP_of_forall_not fun g hg => by simpa using findNamed_eq_none.1 h g hg

theorem findNamed_append_ne_none {gs gs' : List Group} {name : String}
    (h : findNamed gs name ≠ none) : findNamed (gs ++ gs') name ≠ none := by
  intro hn
  rw [findNamed_eq_none] at hn
  exact h (findNamed_eq_none.2 fun g hg => hn g (List.mem_append_left _ hg))

/-- Another name is not touched. -/
theorem findNamed_without_ne_none {gs : List Group} {name name' : String} (hne : name' ≠ name)
    (h : findNamed gs name' ≠ none) : findNamed (without gs name) name' ≠ none := by
  intro hn
  refine h (findNamed_eq_none.2 fun g hg hname => ?_)
  refine findNamed_eq_none.1 hn g ?_ hname
  refine (List.mem_eraseP_of_neg ?_).mpr hg
  simpa [hname] using hne

/-- The name is gone, as it was there once. -/
theorem findNamed_without_self {gs : List Group} {name : String}
    (hnd : (gs.map Group.name).Nodup) : findNamed (without gs name) name = none := by
  cases h : findNamed gs name with
  | none => rw [without_of_none h, h]
  | some g =>
    obtain ⟨hname, xs, ys, rfl, hw⟩ := findNamed_eq_some h
    rw [hw, findNamed_eq_none]
    rw [List.map_append, List.map_cons, List.nodup_middle, List.nodup_cons, ← List.map_append] at hnd
    intro g' hg' hname'
    exact hnd.1 (hname ▸ hname' ▸ List.mem_map_of_mem hg')

theorem without_sublist (gs : List Group) (name : String) : (without gs name).Sublist gs :=
  List.eraseP_sublist

theorem taken_eq_false {gs : List Group} {name id : String} :
    taken gs name id = false ↔ ∀ g ∈ gs, g.name ≠ name ∧ g.id ≠ id := by
  simp [taken]

/-- A group stored behind its list. -/
theorem Lists.store_append_perm (r : Lists) (g : Group) (lane : Lane) :
    ((r.store (r.load lane ++ [g]) lane).main ++ (r.store (r.load lane ++ [g]) lane).backup).Perm
      (g :: (r.main ++ r.backup)) := by
  cases lane with
  | main => simp [Lists.store, Lists.load]
  | backup =>
    simp only [Lists.store, Lists.load, ← List.append_assoc]
    exact List.perm_append_singleton g _

/-- A list stored with less in it. -/
theorem Lists.store_sublist {r : Lists} {gs : List Group} {lane : Lane}
    (h : gs.Sublist (r.load lane)) :
    ((r.store gs lane).main ++ (r.store gs lane).backup).Sublist (r.main ++ r.backup) := by
  cases lane with
  | main => exact h.append_right _
  | backup => exact h.append_left _

theorem Lists.store_load (r : Lists) (lane : Lane) : r.store (r.load lane) lane = r := by
  cases lane <;> rfl

/-- A provider that is already there is not added. -/
theorem apply_add_taken {i : ℕ} {p : Provider} {r : Lists}
    (h : taken (r.main ++ r.backup) (resolveProviderName p 0) (resolveProviderID p 0) = true) :
    (Call.add p).apply i r = r := if_pos (.inr h)

theorem apply_add_invalid {i : ℕ} {p : Provider} {r : Lists} (h : (invalid p).isSome = true) :
    (Call.add p).apply i r = r := if_pos (.inl h)

/-- A provider that is not there is not removed. -/
theorem apply_remove_none {i : ℕ} {name : String} {r : Lists}
    (hm : findNamed r.main name = none) (hb : findNamed r.backup name = none) :
    (Call.remove name).apply i r = r := by
  rw [Call.apply, hm, without_of_none hb]
  exact r.store_load .backup

/-! ## Fresh stores -/

/-- **The Store of a call finds the registry as the call has seen it**:
the list has not changed since it was loaded to be copied, and the name
and the id are still free, or the name is still not in the main list. -/
def Fresh (s : State) (i : ℕ) : Prop :=
  match s.pc i with
  | .store p g old => old = s.load p.lane ∧ taken (s.main ++ s.backup) g.name g.id = false
  | .unlink name lane _ old => old = s.load lane ∧ (lane = .backup → findNamed s.main name = none)
  | _ => True

instance (s : State) (i : ℕ) : Decidable (Fresh s i) := by
  unfold Fresh
  split <;> infer_instance

variable {calls : List Call} {r₀ : Lists} {s s' : State} {order order' : List ℕ} {i j : ℕ} {pc : Pc}

/-- What a call that is under way holds, and what of it the order has
visited. -/
def Held (calls : List Call) (r₀ : Lists) (backup : List Group) (order : List ℕ) (i : ℕ) :
    Pc → Prop
  | .idle => calls[i]? = none
  | .ready c => calls[i]? = some c
  | .checkMain p _ => calls[i]? = some (.add p) ∧ invalid p = none
  | .checkBackup p _ mains => calls[i]? = some (.add p) ∧ invalid p = none ∧
      (taken mains (resolveProviderName p 0) (resolveProviderID p 0) = true →
        Serial.Visited (applyAt calls) r₀ order fun r => applyAt calls i r = r)
  | .load p g => calls[i]? = some (.add p) ∧ invalid p = none ∧ g = newGroup i p 0
  | .store p g _ => calls[i]? = some (.add p) ∧ invalid p = none ∧ g = newGroup i p 0
  | .findBackup name => calls[i]? = some (.remove name) ∧
      (Serial.Visited (applyAt calls) r₀ order (fun r => applyAt calls i r = r) ∨
        findNamed backup name ≠ none)
  | .cancel name _ g old => calls[i]? = some (.remove name) ∧ findNamed old name = some g
  | .unlink name _ g old => calls[i]? = some (.remove name) ∧ findNamed old name = some g
  | .returned c _ => calls[i]? = some c

/-- **The calls that have returned, in an order that explains the
lists.** -/
structure Ordered (calls : List Call) (r₀ : Lists) (s : State) (order : List ℕ) : Prop where
  nodup : order.Nodup
  mem : ∀ i, i ∈ order ↔ ∃ c e, s.pc i = .returned c e
  result : s.toLists = Serial.result (applyAt calls) r₀ order
  held : ∀ i, Held calls r₀ s.backup order i (s.pc i)
  names : ((s.main ++ s.backup).map Group.name).Nodup
  ids : ((s.main ++ s.backup).map Group.id).Nodup

@[simp] theorem move_pc_self (pc : Pc) : (s.move i pc).pc i = pc := Function.update_self ..

@[simp] theorem move_pc_ne (h : j ≠ i) (pc : Pc) : (s.move i pc).pc j = s.pc j :=
  Function.update_of_ne h ..

/-- What a call holds is not disturbed by others, as long as a name that
leaves the backups has been seen to be gone. -/
theorem Held.mono {backup backup' : List Group} (h : Held calls r₀ backup order i pc)
    (hv : ∀ P, Serial.Visited (applyAt calls) r₀ order P →
      Serial.Visited (applyAt calls) r₀ order' P)
    (hb : ∀ name, calls[i]? = some (.remove name) → findNamed backup name ≠ none →
      findNamed backup' name ≠ none ∨
        Serial.Visited (applyAt calls) r₀ order' fun r => applyAt calls i r = r) :
    Held calls r₀ backup' order' i pc := by
  cases pc with
  | checkBackup p index mains => exact ⟨h.1, h.2.1, fun ht => hv _ (h.2.2 ht)⟩
  | findBackup name =>
    refine ⟨h.1, h.2.elim (fun hvis => .inl (hv _ hvis)) fun hne => ?_⟩
    exact (hb name h.1 hne).symm
  | _ => exact h

/-! ## The steps -/

/-- **What a step can do.** -/
inductive Moves (s : State) (i : ℕ) : State → Prop
  | reject {p : Provider} {e : GoError} (hpc : s.pc i = .ready (.add p))
      (he : invalid p = some e) : Moves s i (s.move i (.returned (.add p) (some e)))
  | draw {p : Provider} (hpc : s.pc i = .ready (.add p)) (he : invalid p = none) :
      Moves s i { s.move i (.checkMain p (s.providerIdx + 1)) with
        providerIdx := s.providerIdx + 1 }
  | seeMain {p : Provider} {index : ℕ} (hpc : s.pc i = .checkMain p index) :
      Moves s i (s.move i (.checkBackup p index s.main))
  | duplicate {p : Provider} {index : ℕ} {mains : List Group}
      (hpc : s.pc i = .checkBackup p index mains)
      (ht : taken (mains ++ s.backup) (resolveProviderName p index) (resolveProviderID p index) =
        true) :
      Moves s i (s.move i (.returned (.add p) (some (errExists (resolveProviderName p index)))))
  | begin {p : Provider} {index : ℕ} {mains : List Group}
      (hpc : s.pc i = .checkBackup p index mains) :
      Moves s i (s.move i (.load p (newGroup i p index)))
  | load {p : Provider} {g : Group} (hpc : s.pc i = .load p g) :
      Moves s i (s.move i (.store p g (s.load p.lane)))
  | store {p : Provider} {g : Group} {old : List Group} (hpc : s.pc i = .store p g old) :
      Moves s i { s.move i (.returned (.add p) none) with
        toLists := s.toLists.store (old ++ [g]) p.lane }
  | found (lane : Lane) {name : String} {g : Group}
      (hpc : s.pc i = .ready (.remove name) ∨ s.pc i = .findBackup name)
      (hf : findNamed (s.load lane) name = some g) :
      Moves s i (s.move i (.cancel name lane g (s.load lane)))
  | missMain {name : String} (hpc : s.pc i = .ready (.remove name))
      (hf : findNamed s.main name = none) : Moves s i (s.move i (.findBackup name))
  | missBackup {name : String} (hpc : s.pc i = .findBackup name)
      (hf : findNamed s.backup name = none) :
      Moves s i (s.move i (.returned (.remove name) (some (errNotFound name))))
  | cancel {name : String} {lane : Lane} {g : Group} {old : List Group}
      (hpc : s.pc i = .cancel name lane g old) :
      Moves s i { s.move i (.unlink name lane g old) with cancelled := g.key :: s.cancelled }
  | unlink {name : String} {lane : Lane} {g : Group} {old : List Group}
      (hpc : s.pc i = .unlink name lane g old) :
      Moves s i { s.move i (.returned (.remove name) none) with
        toLists := s.toLists.store (without old name) lane }

theorem step_moves (h : step s i = some s') : Moves s i s' := by
  unfold step at h
  split at h
  · cases h
  · split at h
    · cases h
      exact .reject ‹_› ‹_›
    · cases h
      exact .draw ‹_› ‹_›
  · cases h
    exact .seeMain ‹_›
  · dsimp only at h
    split_ifs at h with ht
    · cases h
      exact .duplicate ‹_› ht
    · cases h
      exact .begin ‹_›
  · cases h
    exact .load ‹_›
  · cases h
    exact .store ‹_›
  · split at h
    · cases h
      exact .found .main (.inl ‹_›) ‹_›
    · cases h
      exact .missMain ‹_› ‹_›
  · split at h
    · cases h
      exact .found .backup (.inr ‹_›) ‹_›
    · cases h
      exact .missBackup ‹_› ‹_›
  · cases h
    exact .cancel ‹_›
  · cases h
    exact .unlink ‹_›
  · cases h

/-- A call that has returned. -/
def Pc.isReturned (pc : Pc) : Prop := ∃ c e, pc = .returned c e

/-- **A step that stores nothing and does not return.** -/
theorem Ordered.quiet (h : Ordered calls r₀ s order) (hlists : s'.toLists = s.toLists)
    (hpc : s'.pc = Function.update s.pc i pc) (hold : ¬(s.pc i).isReturned) (hnew : ¬pc.isReturned)
    (hheld : Held calls r₀ s.backup order i pc) : Ordered calls r₀ s' order where
  nodup := h.nodup
  mem := by
    intro j
    rw [h.mem, hpc]
    by_cases hj : j = i
    · subst hj
      rw [Function.update_self]
      exact iff_of_false hold hnew
    · rw [Function.update_of_ne hj]
  result := hlists.trans h.result
  held := by
    intro j
    rw [hpc, hlists]
    by_cases hj : j = i
    · subst hj
      rwa [Function.update_self]
    · rw [Function.update_of_ne hj]
      exact h.held j
  names := by rw [hlists]; exact h.names
  ids := by rw [hlists]; exact h.ids

/-- **A call that returns with some order behind it.** -/
theorem Ordered.returns {c : Call} {e : Option GoError} (h : Ordered calls r₀ s order)
    (hpc : s'.pc = Function.update s.pc i (.returned c e)) (hold : ¬(s.pc i).isReturned)
    (hcall : calls[i]? = some c) (hperm : order'.Perm (i :: order))
    (hresult : s'.toLists = Serial.result (applyAt calls) r₀ order')
    (hheld : ∀ j, Held calls r₀ s'.backup order' j (s.pc j))
    (hnames : ((s'.main ++ s'.backup).map Group.name).Nodup)
    (hids : ((s'.main ++ s'.backup).map Group.id).Nodup) : Ordered calls r₀ s' order' where
  nodup := hperm.nodup_iff.mpr (List.nodup_cons.mpr ⟨fun hi => hold ((h.mem i).mp hi), h.nodup⟩)
  mem := by
    intro j
    rw [hperm.mem_iff, List.mem_cons, hpc]
    by_cases hj : j = i
    · subst hj
      rw [Function.update_self]
      exact iff_of_true (.inl rfl) ⟨c, e, rfl⟩
    · rw [Function.update_of_ne hj, h.mem]
      exact or_iff_right hj
  result := hresult
  held := by
    intro j
    rw [hpc]
    by_cases hj : j = i
    · subst hj
      rwa [Function.update_self]
    · rw [Function.update_of_ne hj]
      exact hheld j
  names := hnames
  ids := hids

/-- **A call that fails** is placed where it had to. -/
theorem Ordered.fails {c : Call} {e : Option GoError} (h : Ordered calls r₀ s order)
    (hlists : s'.toLists = s.toLists) (hpc : s'.pc = Function.update s.pc i (.returned c e))
    (hold : ¬(s.pc i).isReturned) (hcall : calls[i]? = some c)
    (hv : Serial.Visited (applyAt calls) r₀ order fun r => applyAt calls i r = r) :
    ∃ order', Ordered calls r₀ s' order' := by
  obtain ⟨order', hp⟩ := Serial.exists_placed hv
  refine ⟨order', h.returns hpc hold hcall hp.perm ?_ (fun j => ?_) ?_ ?_⟩
  · rw [hlists, hp.result_eq, h.result]
  · rw [hlists]
    exact (h.held j).mono hp.visited fun _ _ hne => .inl hne
  · rw [hlists]
    exact h.names
  · rw [hlists]
    exact h.ids

/-- **A call that stores** is placed last. -/
theorem Ordered.stores {c : Call} {e : Option GoError} (h : Ordered calls r₀ s order)
    (hlists : s'.toLists = applyAt calls i s.toLists)
    (hpc : s'.pc = Function.update s.pc i (.returned c e)) (hold : ¬(s.pc i).isReturned)
    (hcall : calls[i]? = some c)
    (hb : ∀ j name, calls[j]? = some (.remove name) → findNamed s.backup name ≠ none →
      findNamed s'.backup name ≠ none ∨ applyAt calls j s'.toLists = s'.toLists)
    (hnames : ((s'.main ++ s'.backup).map Group.name).Nodup)
    (hids : ((s'.main ++ s'.backup).map Group.id).Nodup) :
    Ordered calls r₀ s' (order ++ [i]) := by
  have hresult : s'.toLists = Serial.result (applyAt calls) r₀ (order ++ [i]) := by
    rw [hlists, Serial.result_concat, h.result]
  refine h.returns hpc hold hcall (List.perm_append_singleton i order) hresult (fun j => ?_)
    hnames hids
  refine (h.held j).mono (fun P hv => hv.concat) fun name hcall hne => ?_
  refine (hb j name hcall hne).imp_right fun heq => .now ?_
  rwa [hresult] at heq

/-- The Store of `AddProvider`, for a group that is still not there. -/
theorem Ordered.adds {p : Provider} {old : List Group} (h : Ordered calls r₀ s order)
    (hpc : s.pc i = .store p (newGroup i p 0) old) (hcall : calls[i]? = some (.add p))
    (hval : invalid p = none)
    (hfree : taken (s.main ++ s.backup) (newGroup i p 0).name (newGroup i p 0).id = false) :
    Ordered calls r₀
      { s.move i (.returned (.add p) none) with
        toLists := s.toLists.store (s.load p.lane ++ [newGroup i p 0]) p.lane } (order ++ [i]) := by
  have hne := taken_eq_false.1 hfree
  have hperm := s.toLists.store_append_perm (newGroup i p 0) p.lane
  refine h.stores ?_ rfl (by simp [hpc, Pc.isReturned]) hcall ?_ ?_ ?_
  · rw [applyAt, hcall]
    show _ = (Call.add p).apply i s.toLists
    rw [Call.apply, if_neg]
    rintro (hinv | ht)
    · simp [hval] at hinv
    · exact Bool.false_ne_true (hfree.symm.trans ht)
  · intro j name _ hb
    refine .inl ?_
    cases hl : p.lane with
    | main => simpa [Lists.store, hl] using hb
    | backup => simpa [Lists.store, Lists.load, hl] using findNamed_append_ne_none hb
  · refine (hperm.map Group.name).nodup_iff.mpr (List.nodup_cons.mpr ⟨?_, h.names⟩)
    intro hmem
    obtain ⟨g, hg, hgn⟩ := List.mem_map.mp hmem
    exact (hne g hg).1 hgn
  · refine (hperm.map Group.id).nodup_iff.mpr (List.nodup_cons.mpr ⟨?_, h.ids⟩)
    intro hmem
    obtain ⟨g, hg, hgi⟩ := List.mem_map.mp hmem
    exact (hne g hg).2 hgi

/-- The Store of `RemoveProvider`, from the list it has found the name
in. -/
theorem Ordered.removes {name : String} {lane : Lane} {g : Group} {old : List Group}
    (h : Ordered calls r₀ s order) (hpc : s.pc i = .unlink name lane g old)
    (hcall : calls[i]? = some (.remove name)) (hf : findNamed (s.load lane) name = some g)
    (hmain : lane = .backup → findNamed s.main name = none) :
    Ordered calls r₀
      { s.move i (.returned (.remove name) none) with
        toLists := s.toLists.store (without (s.load lane) name) lane } (order ++ [i]) := by
  have hsub := s.toLists.store_sublist (without_sublist (s.load lane) name)
  refine h.stores ?_ rfl (by simp [hpc, Pc.isReturned]) hcall ?_
    (h.names.sublist (hsub.map _)) (h.ids.sublist (hsub.map _))
  · rw [applyAt, hcall]
    show _ = (Call.remove name).apply i s.toLists
    rw [Call.apply]
    cases lane with
    | main => rw [if_pos (by rw [show findNamed s.main name = some g from hf]; rfl)]; rfl
    | backup => rw [if_neg (by rw [hmain rfl]; nofun)]; rfl
  · intro j name' hcall' hne
    cases lane with
    | main => exact .inl hne
    | backup =>
      by_cases heq : name' = name
      · -- the name is now in neither list
        subst heq
        refine .inr ?_
        rw [applyAt, hcall']
        refine apply_remove_none (hmain rfl) (findNamed_without_self ?_)
        exact h.names.sublist ((List.sublist_append_right s.main s.backup).map _)
      · exact .inl (findNamed_without_ne_none heq hne)

/-- **Every fresh step keeps an order.** -/
theorem Ordered.step (hnamed : ∀ p, Call.add p ∈ calls → p.Named) (h : Ordered calls r₀ s order)
    (hfresh : Fresh s i) (hm : Moves s i s') : ∃ order', Ordered calls r₀ s' order' := by
  have hheld := h.held i
  have hat {c : Call} (hcall : calls[i]? = some c) (r : Lists) :
      applyAt calls i r = c.apply i r := by rw [applyAt, hcall]
  have hname {p : Provider} (hcall : calls[i]? = some (.add p)) : p.Named :=
    hnamed p (List.mem_of_getElem? hcall)
  cases hm with
  | reject hpc he =>
    rw [hpc] at hheld
    refine h.fails rfl rfl (by simp [hpc, Pc.isReturned]) hheld (.now ?_)
    rw [hat hheld]
    exact apply_add_invalid (by simp [he])
  | draw hpc he =>
    rw [hpc] at hheld
    exact ⟨order, h.quiet rfl rfl (by simp [hpc, Pc.isReturned]) (by simp [Pc.isReturned])
      ⟨hheld, he⟩⟩
  | @seeMain p index hpc =>
    rw [hpc] at hheld
    refine ⟨order, h.quiet rfl rfl (by simp [hpc, Pc.isReturned]) (by simp [Pc.isReturned])
      ⟨hheld.1, hheld.2, fun ht => .now ?_⟩⟩
    rw [hat hheld.1, ← h.result]
    exact apply_add_taken (by rw [taken_append, ht, Bool.true_or])
  | @duplicate p index mains hpc ht =>
    rw [hpc] at hheld
    have hn := hname hheld.1
    rw [resolveProviderName_named hn, resolveProviderID_named hn, taken_append, Bool.or_eq_true]
      at ht
    refine h.fails rfl rfl (by simp [hpc, Pc.isReturned]) hheld.1 (ht.elim hheld.2.2 fun ht => ?_)
    refine .now ?_
    rw [hat hheld.1, ← h.result]
    exact apply_add_taken (by rw [taken_append, ht, Bool.or_true])
  | begin hpc =>
    rw [hpc] at hheld
    exact ⟨order, h.quiet rfl rfl (by simp [hpc, Pc.isReturned]) (by simp [Pc.isReturned])
      ⟨hheld.1, hheld.2.1, newGroup_named (hname hheld.1) _ _⟩⟩
  | load hpc =>
    rw [hpc] at hheld
    exact ⟨order, h.quiet rfl rfl (by simp [hpc, Pc.isReturned]) (by simp [Pc.isReturned]) hheld⟩
  | store hpc =>
    rw [hpc] at hheld
    rw [Fresh, hpc] at hfresh
    obtain ⟨hcall, hval, rfl⟩ := hheld
    obtain ⟨rfl, hfree⟩ := hfresh
    exact ⟨_, h.adds hpc hcall hval hfree⟩
  | @found lane name g hpc hf =>
    have hcall : calls[i]? = some (.remove name) := by
      rcases hpc with hpc | hpc
      · rw [hpc] at hheld
        exact hheld
      · rw [hpc] at hheld
        exact hheld.1
    refine ⟨order, h.quiet rfl rfl ?_ (by simp [Pc.isReturned]) ⟨hcall, hf⟩⟩
    rcases hpc with hpc | hpc <;> simp [hpc, Pc.isReturned]
  | @missMain name hpc hf =>
    rw [hpc] at hheld
    refine ⟨order, h.quiet rfl rfl (by simp [hpc, Pc.isReturned]) (by simp [Pc.isReturned])
      ⟨hheld, ?_⟩⟩
    by_cases hb : findNamed s.backup name = none
    · refine .inl (.now ?_)
      rw [hat hheld, ← h.result]
      exact apply_remove_none hf hb
    · exact .inr hb
  | missBackup hpc hf =>
    rw [hpc] at hheld
    exact h.fails rfl rfl (by simp [hpc, Pc.isReturned]) hheld.1
      (hheld.2.resolve_right fun hne => hne hf)
  | cancel hpc =>
    rw [hpc] at hheld
    exact ⟨order, h.quiet rfl rfl (by simp [hpc, Pc.isReturned]) (by simp [Pc.isReturned]) hheld⟩
  | unlink hpc =>
    rw [hpc] at hheld
    rw [Fresh, hpc] at hfresh
    obtain ⟨rfl, hmain⟩ := hfresh
    exact ⟨_, h.removes hpc hheld.1 hheld.2 hmain⟩

end Registry

end NntpPool
