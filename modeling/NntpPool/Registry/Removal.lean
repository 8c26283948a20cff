import NntpPool.Registry.Model.Removal
import NntpPool.Registry.Derived
/-!
# Registry — what a 502 removes

The removal goes by the name, so it takes the group that sent the 502 only
as long as that one is registered; and a reconnect is scheduled whether
the removal found a group or not. Where the calls do not overlap and every
502 is handled while its group is registered, a 502 removes its own group
and nothing else, and no group has two reconnects pending.
-/

namespace NntpPool

namespace Registry

variable {r : Lists} {g x : Group} {i j : ℕ}

/-! ## A call that is not disturbed -/

section Call

variable {s s' : State}

/-- **What a call holds fits the lists.** -/
def Fits (r : Lists) (i : ℕ) : Pc → Prop
  | .checkBackup _ _ mains => mains = r.main
  | .load _ g => g.key = .made i ∧ taken r.groups g.name g.id = false
  | .store p g old =>
    old = r.load p.lane ∧ g.key = .made i ∧ taken r.groups g.name g.id = false
  | .findBackup name => findNamed r.main name = none
  | .cancel name lane g old => old = r.load lane ∧ findNamed old name = some g
  | .unlink name lane g old => old = r.load lane ∧ findNamed old name = some g
  | _ => True

theorem fits_of_over {pc : Pc} (h : pc.over = true) : Fits r i pc := by
  cases pc with
  | idle => trivial
  | returned c e => trivial
  | _ => cases h

/-- **What a step does to the lists.** -/
inductive Change (s : State) (i : ℕ) (s' : State) : Prop
  | keep (hlists : s'.toLists = s.toLists)
  | add (g : Group) (hkey : g.key = .made i) (hfree : taken s.groups g.name g.id = false)
      (hperm : s'.groups.Perm (g :: s.groups)) (hret : (s'.pc i).isReturned)
  | remove (g : Group) (hperm : s.groups.Perm (g :: s'.groups))

/-- The duplicate check has found nothing. -/
theorem not_taken_of_load {p q : Provider} {index : ℕ} {mains : List Group}
    (hpc : s.pc i = .checkBackup p index mains) (h : step s i = some s')
    (hload : s'.pc i = .load q g) :
    taken (mains ++ s.backup) (resolveProviderName p index) (resolveProviderID p index) = false := by
  simp only [step, hpc] at h
  split_ifs at h with ht
  · obtain rfl := Option.some.inj h
    simp at hload
  · simpa using ht

theorem Fits.step (hfits : Fits s.toLists i (s.pc i)) (h : step s i = some s') :
    Fits s'.toLists i (s'.pc i) ∧ Change s i s' := by
  cases step_moves h with
  | reject hpc he => exact ⟨by simp [Fits], .keep rfl⟩
  | draw hpc he => exact ⟨by simp [Fits], .keep rfl⟩
  | seeMain hpc => exact ⟨by simp [Fits], .keep rfl⟩
  | duplicate hpc ht => exact ⟨by simp [Fits], .keep rfl⟩
  | begin hpc =>
    have hfree := not_taken_of_load hpc h (move_pc_self _)
    rw [hpc] at hfits
    obtain rfl := hfits
    refine ⟨?_, .keep rfl⟩
    rw [move_pc_self]
    exact ⟨rfl, hfree⟩
  | load hpc =>
    rw [hpc] at hfits
    refine ⟨?_, .keep rfl⟩
    rw [move_pc_self]
    exact ⟨rfl, hfits⟩
  | store hpc =>
    rw [hpc] at hfits
    obtain ⟨rfl, hkey, hfree⟩ := hfits
    refine ⟨by simp [Fits], .add _ hkey hfree (Lists.store_append_perm _ _ _) ?_⟩
    exact ⟨_, _, move_pc_self _⟩
  | found lane hpc hf =>
    refine ⟨?_, .keep rfl⟩
    rw [move_pc_self]
    exact ⟨rfl, hf⟩
  | missMain hpc hf =>
    refine ⟨?_, .keep rfl⟩
    rw [move_pc_self]
    exact hf
  | missBackup hpc hf => exact ⟨by simp [Fits], .keep rfl⟩
  | cancel hpc =>
    rw [hpc] at hfits
    refine ⟨?_, .keep rfl⟩
    change Fits s.toLists i ((s.move i _).pc i)
    rw [move_pc_self]
    exact hfits
  | unlink hpc =>
    rw [hpc] at hfits
    obtain ⟨rfl, hf⟩ := hfits
    exact ⟨by simp [Fits], .remove _ (Lists.perm_without hf)⟩

theorem Change.unique (h : Change s i s') (hs : s.toLists.Unique) : s'.toLists.Unique := by
  cases h with
  | keep hlists => exact hlists ▸ hs
  | add g hkey hfree hperm hret => exact hs.cons hperm hfree
  | remove g hperm =>
    constructor
    · exact ((hperm.map Group.name).nodup_iff.mp hs.names).of_cons
    · exact ((hperm.map Group.id).nodup_iff.mp hs.ids).of_cons

/-- A group that is not there comes only if the call made it. -/
theorem Change.not_mem (h : Change s i s') (hg : g ∉ s.groups) (hkey : g.key ≠ .made i) :
    g ∉ s'.groups := by
  intro hin
  cases h with
  | keep hlists => exact hg (by rwa [Lists.groups, hlists] at hin)
  | add x hx hfree hperm hret =>
    rcases List.mem_cons.mp (hperm.mem_iff.mp hin) with rfl | hin
    · exact hkey hx
    · exact hg hin
  | remove x hperm => exact hg (hperm.mem_iff.mpr (List.mem_cons_of_mem _ hin))

theorem step_pc_ne (h : step s i = some s') (hne : j ≠ i) : s'.pc j = s.pc j := by
  cases step_moves h <;> exact move_pc_ne hne _

theorem step_not_over (h : step s i = some s') : (s.pc i).over = false := by
  cases hpc : s.pc i with
  | idle => simp [step, hpc] at h
  | returned c e => simp [step, hpc] at h
  | _ => rfl

/-- **How far the removal of a group has come.** -/
def Removing (r : Lists) (g : Group) : Pc → Prop
  | .ready c => c = .remove g.name ∧ g ∈ r.groups
  | .findBackup name => name = g.name ∧ g ∈ r.groups
  | .cancel _ _ x _ => x = g
  | .unlink _ _ x _ => x = g
  | .returned _ _ => g ∉ r.groups
  | _ => False

/-- **A removal that is over** has removed the group, and stays over as
long as the group does not come back. -/
theorem removing_iff_of_over {pc : Pc} (hover : pc.over = true) :
    Removing r g pc ↔ pc ≠ .idle ∧ g ∉ r.groups := by
  cases pc with
  | idle => simp [Removing]
  | returned c e => simp [Removing]
  | _ => cases hover

/-- The group of a name is the one that is to be removed. -/
theorem eq_of_findNamed {lane : Lane} (hr : r.Unique) (hg : g ∈ r.groups)
    (hf : findNamed (r.load lane) g.name = some x) : x = g := by
  refine hr.eq_of_name ?_ hg (findNamed_eq_some hf).1
  have hmem := List.mem_of_find?_eq_some hf
  cases lane with
  | main => exact List.mem_append_left _ hmem
  | backup => exact List.mem_append_right _ hmem

/-- **A step of the removal** of a group touches nothing else. -/
theorem Removing.step (hr : s.toLists.Unique) (hfits : Fits s.toLists i (s.pc i))
    (hrem : Removing s.toLists g (s.pc i)) (h : step s i = some s') :
    Removing s'.toLists g (s'.pc i) ∧ (∀ x ∈ s.groups, x ∉ s'.groups → x = g) ∧
      (s'.cancelled = s.cancelled ∨ s'.cancelled = g.key :: s.cancelled) := by
  cases step_moves h with
  | reject hpc he =>
    rw [hpc] at hrem
    cases hrem.1
  | draw hpc he =>
    rw [hpc] at hrem
    cases hrem.1
  | seeMain hpc | duplicate hpc ht | begin hpc | load hpc | store hpc =>
    rw [hpc] at hrem
    exact hrem.elim
  | @found lane name x hpc hf =>
    obtain ⟨rfl, hg⟩ : name = g.name ∧ g ∈ s.groups := by
      rcases hpc with hpc | hpc
      · rw [hpc] at hrem
        exact ⟨Call.remove.inj hrem.1, hrem.2⟩
      · rw [hpc] at hrem
        exact hrem
    refine ⟨?_, fun x hx hnot => absurd hx hnot, .inl rfl⟩
    rw [move_pc_self]
    exact eq_of_findNamed hr hg hf
  | missMain hpc hf =>
    rw [hpc] at hrem
    refine ⟨?_, fun x hx hnot => absurd hx hnot, .inl rfl⟩
    rw [move_pc_self]
    exact ⟨Call.remove.inj hrem.1, hrem.2⟩
  | missBackup hpc hf =>
    -- it would be in one of the lists
    rw [hpc] at hrem hfits
    obtain ⟨rfl, hg⟩ := hrem
    rcases List.mem_append.mp hg with hin | hin
    · exact absurd rfl (findNamed_eq_none.1 hfits g hin)
    · exact absurd rfl (findNamed_eq_none.1 hf g hin)
  | cancel hpc =>
    rw [hpc] at hrem
    obtain rfl := hrem
    refine ⟨?_, fun x hx hnot => absurd hx hnot, .inr rfl⟩
    change Removing s.toLists _ ((s.move i _).pc i)
    rw [move_pc_self]
    rfl
  | unlink hpc =>
    rw [hpc] at hrem hfits
    obtain rfl := hrem
    obtain ⟨rfl, hf⟩ := hfits
    have hperm := Lists.perm_without hf
    refine ⟨?_, fun x hx hnot => ?_, .inl rfl⟩
    · change Removing _ _ ((s.move i _).pc i)
      rw [move_pc_self]
      exact (List.nodup_cons.mp (hperm.nodup_iff.mp hr.names.of_map)).1
    · exact (List.mem_cons.mp (hperm.mem_iff.mp hx)).resolve_right hnot

end Call

namespace Removal

variable {s s' : State}

/-! ## Orderly runs -/

/-- No call is under way. -/
def State.Quiet (s : State) : Prop := ∀ i < s.calls, (s.pc i).over = true

instance : Decidable s.Quiet := inferInstanceAs (Decidable (∀ i < s.calls, (s.pc i).over = true))

/-- The group that has the request is registered. -/
def State.Registered (s : State) : Request → Prop
  | .asked g => g ∈ s.groups
  | _ => True

instance : (q : Request) → Decidable (s.Registered q)
  | .asked g => inferInstanceAs (Decidable (g ∈ s.groups))
  | .idle | .removing _ _ => .isTrue trivial

/-- **Calls are made one at a time, and a 502 is handled while its group
is registered.** -/
def Orderly (s : State) : Event → Prop
  | .add _ => s.Quiet
  | .remove _ => s.Quiet
  | .fire _ => s.Quiet
  | .unavailable h => s.Quiet ∧ s.Registered (s.request h)
  | _ => True

instance decidableOrderly (s : State) : (e : Event) → Decidable (Orderly s e)
  | .add _ | .remove _ | .fire _ => inferInstanceAs (Decidable s.Quiet)
  | .unavailable h => inferInstanceAs (Decidable (s.Quiet ∧ s.Registered (s.request h)))
  | .call _ | .ask _ _ | .answer _ | .handled _ | .drop _ => .isTrue trivial

/-- **A removal behind a 502** takes nothing from the lists, and cancels
nothing, but the group that sent it. -/
def RemovesOwn (s : State) : Event → Prop
  | .call i => ∀ h g s', s.request h = .removing g i → step s (.call i) = some s' →
      (∀ x ∈ s.groups, x ∉ s'.groups → x = g) ∧
        ∀ k ∈ s'.cancelled, k ∉ s.cancelled → k = g.key
  | _ => True

/-- The group is not one that a call is about to register. -/
def Settled (s : State) (g : Group) : Prop := ∀ i, g.key = .made i → (s.pc i).isReturned

/-- **The invariant** of orderly runs. -/
structure Inv (s : State) : Prop where
  unmade : ∀ i, s.calls ≤ i → s.pc i = .idle
  single : ∀ i j, (s.pc i).over = false → (s.pc j).over = false → i = j
  fits : ∀ i, Fits s.toLists i (s.pc i)
  unique : s.toLists.Unique
  listed : ∀ g ∈ s.groups, Settled s g
  /-- The group of a 502 is on its way out, and its reconnect is yet to
  come. -/
  removing : ∀ h g i, s.request h = .removing g i →
    Settled s g ∧ g ∉ s.pending ∧ Removing s.toLists g (s.pc i)
  apart : ∀ h h' g i i', s.request h = .removing g i → s.request h' = .removing g i' → h = h'
  pending : s.pending.Nodup
  /-- What is to be reconnected is not registered. -/
  absent : ∀ g ∈ s.pending, Settled s g ∧ g ∉ s.groups

theorem Inv.start {ps : List Config} {c : Client}
    (hnew : newClient (ps.map Config.toProvider) = .ok c) : Inv (start ps c) where
  unmade _ _ := rfl
  single _ _ hi := by cases hi
  fits _ := trivial
  unique := newClient_unique hnew
  listed g hg := by
    intro i hkey
    have hg : g ∈ c.groups := hg
    rw [(newClient_eq_ok hnew).2.1.mem_iff, mem_initialGroups] at hg
    obtain ⟨k, p, -, rfl⟩ := hg
    cases hkey
  removing _ _ _ hreq := by cases hreq
  apart _ _ _ _ _ hreq := by cases hreq
  pending := List.nodup_nil
  absent _ hg := by cases hg

/-! ## Calls and requests -/

theorem Inv.idle (hI : Inv s) : s.pc s.calls = .idle := hI.unmade _ le_rfl

theorem Inv.over (hI : Inv s) (hq : s.Quiet) (i : ℕ) : (s.pc i).over = true := by
  rcases Nat.lt_or_ge i s.calls with hlt | hge
  · exact hq i hlt
  · rw [hI.unmade i hge]
    rfl

/-- The providers of the groups do not matter. -/
theorem Inv.config (hI : Inv s) (f : Key → Config) : Inv { s with config := f } :=
  ⟨hI.unmade, hI.single, hI.fits, hI.unique, hI.listed, hI.removing, hI.apart, hI.pending, hI.absent⟩

/-- Reconnects may be taken away. -/
theorem Inv.sublist (hI : Inv s) {gs : List Group} (h : gs.Sublist s.pending) :
    Inv { s with pending := gs } where
  unmade := hI.unmade
  single := hI.single
  fits := hI.fits
  unique := hI.unique
  listed := hI.listed
  removing h' g i hreq := by
    obtain ⟨hset, hnot, hrem⟩ := hI.removing h' g i hreq
    exact ⟨hset, fun hin => hnot (h.subset hin), hrem⟩
  apart := hI.apart
  pending := hI.pending.sublist h
  absent g hg := hI.absent g (h.subset hg)

/-- What has returned is not made again. -/
theorem Settled.begin (hI : Inv s) (hg : Settled s g) (c : Call) : Settled (s.begin c) g := by
  intro i hkey
  have hne : i ≠ s.calls := by
    rintro rfl
    obtain ⟨_, _, hret⟩ := hg _ hkey
    rw [hI.idle] at hret
    cases hret
  rw [State.begin, move_pc_ne hne]
  exact hg i hkey

/-- **A call is made.** -/
theorem Inv.begin (hI : Inv s) (hq : s.Quiet) (c : Call) : Inv (s.begin c) := by
  have hpc (i : ℕ) (hne : i ≠ s.calls) : (s.begin c).pc i = s.pc i := move_pc_ne hne _
  have hactive (i : ℕ) (hi : ((s.begin c).pc i).over = false) : i = s.calls := by
    by_contra hne
    rw [hpc i hne, hI.over hq] at hi
    cases hi
  constructor
  case unmade =>
    intro i hi
    have hle : s.calls + 1 ≤ i := hi
    rw [hpc i (by omega)]
    exact hI.unmade i (by omega)
  case single =>
    intro i j hi hj
    rw [hactive i hi, hactive j hj]
  case fits =>
    intro i
    by_cases hi : i = s.calls
    · rw [hi, State.begin, move_pc_self]
      trivial
    · rw [hpc i hi]
      exact hI.fits i
  case unique => exact hI.unique
  case listed => exact fun g hg => (hI.listed g hg).begin hI c
  case removing =>
    intro h g i hreq
    obtain ⟨hset, hnot, hrem⟩ := hI.removing h g i hreq
    -- the removal is another call, and goes on as before
    have hne : i ≠ s.calls := by
      rintro rfl
      rw [hI.idle] at hrem
      exact hrem
    rw [hpc i hne]
    exact ⟨hset.begin hI c, hnot, hrem⟩
  case apart => exact hI.apart
  case pending => exact hI.pending
  case absent => exact fun g hg => ⟨(hI.absent g hg).1.begin hI c, (hI.absent g hg).2⟩

@[simp] theorem request_self (h : ℕ) (q : Request) : (s.moveRequest h q).request h = q :=
  Function.update_self ..

theorem request_ne {h h' : ℕ} (hne : h' ≠ h) (q : Request) :
    (s.moveRequest h q).request h' = s.request h' :=
  Function.update_of_ne hne ..

/-- **A request moves on**, to a removal only if it is the first for its
group. -/
theorem Inv.moveRequest (hI : Inv s) (h : ℕ) (q : Request)
    (hq : ∀ g i, q = .removing g i → Settled s g ∧ g ∉ s.pending ∧ Removing s.toLists g (s.pc i) ∧
      ∀ h' i', s.request h' ≠ .removing g i') : Inv (s.moveRequest h q) where
  unmade := hI.unmade
  single := hI.single
  fits := hI.fits
  unique := hI.unique
  listed := hI.listed
  removing h' g i hreq := by
    by_cases heq : h' = h
    · rw [heq, request_self] at hreq
      obtain ⟨hset, hnot, hrem, -⟩ := hq g i hreq
      exact ⟨hset, hnot, hrem⟩
    · rw [request_ne heq] at hreq
      exact hI.removing h' g i hreq
  apart h₁ h₂ g i₁ i₂ hreq₁ hreq₂ := by
    simp only [State.moveRequest, Function.update_apply] at hreq₁ hreq₂
    split_ifs at hreq₁ hreq₂ with heq₁ heq₂ heq₂
    · rw [heq₁, heq₂]
    · exact absurd hreq₂ ((hq g i₁ hreq₁).2.2.2 h₂ i₂)
    · exact absurd hreq₁ ((hq g i₂ hreq₂).2.2.2 h₁ i₁)
    · exact hI.apart h₁ h₂ g i₁ i₂ hreq₁ hreq₂
  pending := hI.pending
  absent := hI.absent

theorem schedule_moveRequest (s : State) (g : Group) (h : ℕ) (q : Request) :
    (s.schedule g).moveRequest h q = (s.moveRequest h q).schedule g := by
  unfold State.schedule
  split_ifs <;> first | rfl | contradiction

/-- **A reconnect is scheduled**, for a group that is gone. -/
theorem Inv.schedule (hI : Inv s) (hset : Settled s g) (hgone : g ∉ s.groups)
    (hnot : g ∉ s.pending) (hreq : ∀ h i, s.request h ≠ .removing g i) : Inv (s.schedule g) := by
  unfold State.schedule
  split_ifs
  · constructor
    case unmade => exact hI.unmade
    case single => exact hI.single
    case fits => exact hI.fits
    case unique => exact hI.unique
    case listed => exact hI.listed
    case removing =>
      intro h x i hx
      obtain ⟨hsetx, hnotx, hrem⟩ := hI.removing h x i hx
      refine ⟨hsetx, fun hin => ?_, hrem⟩
      rcases List.mem_append.mp hin with hin | hin
      · exact hnotx hin
      · obtain rfl := List.mem_singleton.mp hin
        exact hreq h i hx
    case apart => exact hI.apart
    case pending => exact List.nodup_append.mpr ⟨hI.pending, List.nodup_singleton g, by
        intro a ha b hb heq
        exact hnot (List.mem_singleton.mp hb ▸ heq ▸ ha)⟩
    case absent =>
      intro x hx
      rcases List.mem_append.mp hx with hx | hx
      · exact hI.absent x hx
      · obtain rfl := List.mem_singleton.mp hx
        exact ⟨hset, hgone⟩
  · exact hI

theorem Settled.key_ne (hg : Settled s g) (hi : (s.pc i).over = false) : g.key ≠ .made i := by
  intro hkey
  obtain ⟨_, _, hret⟩ := hg i hkey
  rw [hret] at hi
  cases hi

theorem Settled.call {r' : Registry.State} (hg : Settled s g)
    (h : Registry.step s.toState i = some r') : Settled { s with toState := r' } g := by
  intro j hkey
  have hne : j ≠ i := by
    rintro rfl
    exact hg.key_ne (step_not_over h) hkey
  change (r'.pc j).isReturned
  rw [step_pc_ne h hne]
  exact hg j hkey

/-- **A call takes a step.** -/
theorem Inv.call {r' : Registry.State} (hI : Inv s) (h : Registry.step s.toState i = some r') :
    Inv { s with toState := r' } := by
  have hactive := step_not_over h
  -- all other calls are over, so nothing they hold gets old
  have hover (j : ℕ) (hne : j ≠ i) : (s.pc j).over = true := by
    by_contra hj
    exact hne (hI.single j i (by simpa using hj) hactive)
  obtain ⟨hfits, hchange⟩ := (hI.fits i).step h
  constructor
  case unmade =>
    intro j hj
    have hidle := hI.unmade j hj
    have hne : j ≠ i := by
      rintro rfl
      rw [hidle] at hactive
      cases hactive
    exact (step_pc_ne h hne).trans hidle
  case single =>
    have honly (j : ℕ) (hj : (r'.pc j).over = false) : j = i := by
      by_contra hne
      rw [step_pc_ne h hne, hover j hne] at hj
      cases hj
    intro j k hj hk
    rw [honly j hj, honly k hk]
  case fits =>
    intro j
    by_cases hj : j = i
    · exact hj ▸ hfits
    · refine fits_of_over ?_
      change (r'.pc j).over = true
      rw [step_pc_ne h hj]
      exact hover j hj
  case unique => exact hchange.unique hI.unique
  case listed =>
    intro g hg
    by_cases hold : g ∈ s.groups
    · exact (hI.listed g hold).call h
    · -- it is the group of the call, which has returned
      cases hchange with
      | keep hlists => exact absurd (by rwa [Lists.groups, hlists] at hg) hold
      | add x hkey hfree hperm hret =>
        rcases List.mem_cons.mp (hperm.mem_iff.mp hg) with rfl | hin
        · intro j hj
          obtain rfl := Key.made.inj (hkey.symm.trans hj)
          exact hret
        · exact absurd hin hold
      | remove x hperm =>
        exact absurd (hperm.mem_iff.mpr (List.mem_cons_of_mem _ hg)) hold
  case removing =>
    intro q g k hreq
    obtain ⟨hset, hnot, hrem⟩ := hI.removing q g k hreq
    refine ⟨hset.call h, hnot, ?_⟩
    by_cases hk : k = i
    · rw [hk] at hrem ⊢
      exact (hrem.step hI.unique (hI.fits i) h).1
    · change Removing r'.toLists g (r'.pc k)
      rw [step_pc_ne h hk]
      rw [removing_iff_of_over (hover k hk)] at hrem ⊢
      exact ⟨hrem.1, hchange.not_mem hrem.2 (hset.key_ne hactive)⟩
  case apart => exact hI.apart
  case pending => exact hI.pending
  case absent =>
    intro g hg
    obtain ⟨hset, hgone⟩ := hI.absent g hg
    exact ⟨hset.call h, hchange.not_mem hgone (hset.key_ne hactive)⟩

/-! ## Runs -/

/-- **One step.** -/
theorem Inv.step {e : Event} (hI : Inv s) (he : Orderly s e) (h : step s e = some s') : Inv s' := by
  cases e with
  | add p =>
    obtain rfl := Option.some.inj h
    exact (hI.begin he _).config _
  | remove name =>
    obtain rfl := Option.some.inj h
    exact hI.begin he _
  | call i =>
    obtain ⟨r', hr, rfl⟩ := Option.map_eq_some_iff.mp h
    exact hI.call hr
  | ask q g =>
    simp only [Removal.step] at h
    split_ifs at h
    obtain rfl := Option.some.inj h
    exact hI.moveRequest q _ (by simp)
  | answer q =>
    simp only [Removal.step] at h
    split at h
    · obtain rfl := Option.some.inj h
      exact hI.moveRequest q _ (by simp)
    · cases h
  | unavailable q =>
    simp only [Removal.step] at h
    split at h
    · rename_i g hreq
      obtain rfl := Option.some.inj h
      obtain ⟨hquiet, hreg⟩ := he
      rw [hreq] at hreg
      refine (hI.begin hquiet _).moveRequest q _ fun x i hx => ?_
      obtain ⟨rfl, rfl⟩ := Request.removing.inj hx
      refine ⟨(hI.listed g hreg).begin hI _, fun hin => (hI.absent g hin).2 hreg, ?_, ?_⟩
      · rw [State.begin, move_pc_self]
        exact ⟨rfl, hreg⟩
      · -- an earlier removal of the group would have come to its end
        intro q' i' hreq'
        obtain ⟨-, -, hrem⟩ := hI.removing q' g i' hreq'
        exact ((removing_iff_of_over (hI.over hquiet i')).mp hrem).2 hreg
    · cases h
  | handled q =>
    simp only [Removal.step] at h
    split at h
    · rename_i g i hreq
      split at h
      · rename_i c err hpc
        obtain rfl := Option.some.inj h
        obtain ⟨hset, hnot, hrem⟩ := hI.removing q g i hreq
        rw [hpc] at hrem
        rw [schedule_moveRequest]
        refine (hI.moveRequest q .idle (by simp)).schedule hset hrem hnot fun q' i' hreq' => ?_
        by_cases heq : q' = q
        · rw [heq, request_self] at hreq'
          cases hreq'
        · rw [request_ne heq] at hreq'
          exact heq (hI.apart q' q g i' i hreq' hreq)
      · cases h
    · cases h
  | fire n =>
    simp only [Removal.step] at h
    split at h
    · obtain rfl := Option.some.inj h
      exact ((hI.begin he _).config _).sublist (List.eraseIdx_sublist ..)
    · cases h
  | drop n =>
    simp only [Removal.step] at h
    split_ifs at h
    obtain rfl := Option.some.inj h
    exact hI.sublist (List.eraseIdx_sublist ..)

/-- A removal behind a 502, in an orderly run. -/
theorem Inv.removesOwn (hI : Inv s) (e : Event) : RemovesOwn s e := by
  cases e with
  | call i =>
    intro q g s' hreq h
    obtain ⟨r', hr, rfl⟩ := Option.map_eq_some_iff.mp h
    obtain ⟨-, -, hrem⟩ := hI.removing q g i hreq
    obtain ⟨-, hlost, hcancelled⟩ := hrem.step hI.unique (hI.fits i) hr
    refine ⟨hlost, fun k hk hnot => ?_⟩
    have hk : k ∈ r'.cancelled := hk
    rcases hcancelled with heq | heq
    · exact absurd (heq ▸ hk) hnot
    · exact (List.mem_cons.mp (heq ▸ hk)).resolve_right hnot
  | _ => trivial

/-- **A 502 removes its own group**, and no group has two reconnects
pending, if calls are made one at a time and every 502 is handled while
its group is registered. -/
theorem unavailable_removes_own {ps : List Config} {c : Client}
    (hnew : newClient (ps.map Config.toProvider) = .ok c) (events : List Event)
    (horderly : Along step Orderly (start ps c) events) :
    Along step RemovesOwn (start ps c) events ∧
      ∀ s, exec step (start ps c) events = some s → ∀ g, s.pending.count g ≤ 1 := by
  constructor
  · exact horderly.of_invariant (fun s e s' => Inv.step) (fun s e hI _ => hI.removesOwn e)
      (Inv.start hnew)
  · intro s hrun
    have hI := exec_invariant (fun s e s' hI he => hI.step he) events (Inv.start hnew) horderly hrun
    exact List.nodup_iff_count_le_one.mp hI.pending

/-- A host that is reconnected after a while, its group, and the one
after that. -/
def configX : Config := { host := "x", reconnectDelay := 1 }

def groupX : Group := ⟨.initial 0, "x", "x"⟩

def againX : Group := ⟨.made 1, "x", "x"⟩

/-- A 502, its handling, and the reconnect. -/
def reconnected : List Event :=
  [.unavailable 0, .call 0, .call 0, .call 0, .handled 0, .fire 0, .call 1, .call 1, .call 1, .call 1,
    .call 1]

/-- Both groups answer with a 502, one after the other. -/
def inTurns : List Event :=
  .ask 0 groupX :: reconnected ++
    [.ask 1 againX, .unavailable 1, .call 2, .call 2, .call 2, .handled 1]

theorem unavailable_removes_own_twice :
    ∃ c, newClient [configX.toProvider] = .ok c ∧
      Along step RemovesOwn (start [configX] c) inTurns ∧
      ∃ s, exec step (start [configX] c) inTurns = some s ∧
        (s.groups = [] ∧ s.pending = [againX]) ∧ ∀ g, s.pending.count g ≤ 1 := by
  have hnew : newClient ([configX].map Config.toProvider) = .ok ⟨⟨[groupX], []⟩, 0⟩ := by
    decide
  have hown := unavailable_removes_own hnew inTurns (by decide)
  have hrun : (exec step (start [configX] ⟨⟨[groupX], []⟩, 0⟩) inTurns).map
      (fun s => (s.groups, s.pending)) = some ([], [againX]) := by decide
  obtain ⟨s, hs, hend⟩ := Option.map_eq_some_iff.mp hrun
  exact ⟨_, hnew, hown.1, s, hs, Prod.mk.inj hend, hown.2 s hs⟩

/-- Two requests are answered with a 502; the second is handled after the
reconnect. -/
def late : List Event :=
  .ask 0 groupX :: .ask 1 groupX :: reconnected ++ [.unavailable 1, .call 2, .call 2]

/-- The second is handled before it. -/
def early : List Event :=
  [.ask 0 groupX, .ask 1 groupX, .unavailable 0, .call 0, .call 0, .call 0, .handled 0,
    .unavailable 1, .call 1, .call 1, .handled 1]

/-- **Two requests are answered with a 502** by one group. If the second
is handled after the reconnect, it removes the group that came in its
place; if it is handled before, there are two reconnects. -/
theorem unavailable_removes_another :
    ∃ c, newClient [configX.toProvider] = .ok c ∧
      (∃ s s', exec step (start [configX] c) late = some s ∧ step s (.call 2) = some s' ∧
        s.request 1 = .removing groupX 2 ∧ againX ∈ s.groups ∧ againX ∉ s'.groups ∧
          againX ≠ groupX) ∧
      ∃ s, exec step (start [configX] c) early = some s ∧ s.pending.count groupX = 2 := by
  refine ⟨⟨⟨[groupX], []⟩, 0⟩, by decide, ?_, ?_⟩
  · have hrun : ((exec step (start [configX] ⟨⟨[groupX], []⟩, 0⟩) late).bind fun s =>
        (step s (.call 2)).map fun s' => (s.request 1, s.groups, s'.groups)) =
        some (.removing groupX 2, [againX], []) := by decide
    obtain ⟨s, hs, hstep⟩ := Option.bind_eq_some_iff.mp hrun
    obtain ⟨s', hs', hend⟩ := Option.map_eq_some_iff.mp hstep
    simp only [Prod.mk.injEq] at hend
    obtain ⟨hreq, hbefore, hafter⟩ := hend
    refine ⟨s, s', hs, hs', hreq, ?_, ?_, by decide⟩
    · rw [hbefore]
      exact List.mem_cons_self
    · rw [hafter]
      exact List.not_mem_nil
  · have hrun : (exec step (start [configX] ⟨⟨[groupX], []⟩, 0⟩) early).map
        (fun s => s.pending.count groupX) = some 2 := by decide
    exact Option.map_eq_some_iff.mp hrun

end Removal

end Registry

end NntpPool
