import NntpPool.Registry.Model.Client
import NntpPool.Registry.Atomicity
/-!
# Registry — looking a group up

Names are kept apart from names, and ids from ids, but both are looked up
in one go. So a lookup is unambiguous exactly if no group has the name of
another for its id. A removal goes by names alone, and takes the right
one.
-/

namespace NntpPool

namespace Registry

variable {r : Lists} {c : Client} {i : ℕ} {g h : Group} {p : Provider} {ps : List Provider}
  {name : String}

/-! ## Calls that run alone -/

/-- The registry as a client. -/
def State.client (s : State) : Client := ⟨s.toLists, s.providerIdx⟩

@[simp] theorem move_toLists (s : State) (i : ℕ) (pc : Pc) : (s.move i pc).toLists = s.toLists :=
  rfl

@[simp] theorem move_providerIdx (s : State) (i : ℕ) (pc : Pc) :
    (s.move i pc).providerIdx = s.providerIdx := rfl

/-- **A call that runs alone** comes to what the client's call does. -/
theorem alone_eq {s : State} {call : Call} (hready : s.pc i = .ready call) :
    (alone i s).client = (s.client.call i call).1 ∧
      (alone i s).pc i = .returned call (s.client.call i call).2 := by
  cases call with
  | add p =>
    cases hinv : invalid p with
    | some e =>
      simp [alone, alone.go, step, hready, hinv, State.client, Client.call, Client.addProvider]
    | none =>
      cases htaken : taken (s.main ++ s.backup) (resolveProviderName p (s.providerIdx + 1))
          (resolveProviderID p (s.providerIdx + 1)) <;>
        simp [alone, alone.go, step, hready, hinv, State.client, Client.call, Client.addProvider,
          Lists.groups, htaken]
  | remove name =>
    cases hmain : findNamed s.main name with
    | some g =>
      simp [alone, alone.go, step, hready, hmain, State.client, Client.call, Client.removeProvider]
    | none =>
      cases hbackup : findNamed s.backup name <;>
        simp [alone, alone.go, step, hready, hmain, hbackup, State.client, Client.call,
          Client.removeProvider]

/-! ## Names and ids -/

/-- **No two groups have the same name, or the same id.** -/
structure Lists.Unique (r : Lists) : Prop where
  names : (r.groups.map Group.name).Nodup
  ids : (r.groups.map Group.id).Nodup

theorem Lists.Unique.eq_of_name (hr : r.Unique) (hg : g ∈ r.groups) (hh : h ∈ r.groups)
    (heq : g.name = h.name) : g = h :=
  List.inj_on_of_nodup_map hr.names hg hh heq

theorem Lists.Unique.eq_of_id (hr : r.Unique) (hg : g ∈ r.groups) (hh : h ∈ r.groups)
    (heq : g.id = h.id) : g = h :=
  List.inj_on_of_nodup_map hr.ids hg hh heq

theorem Lists.Unique.sublist {r' : Lists} (hr : r.Unique) (h : r'.groups.Sublist r.groups) :
    r'.Unique :=
  ⟨hr.names.sublist (h.map _), hr.ids.sublist (h.map _)⟩

/-- A group whose name and id are free may be added. -/
theorem Lists.Unique.cons {r' : Lists} (hr : r.Unique) (hperm : r'.groups.Perm (g :: r.groups))
    (hfree : taken r.groups g.name g.id = false) : r'.Unique := by
  have hne := taken_eq_false.1 hfree
  constructor
  · refine (hperm.map Group.name).nodup_iff.mpr (List.nodup_cons.mpr ⟨fun hmem => ?_, hr.names⟩)
    obtain ⟨x, hx, heq⟩ := List.mem_map.mp hmem
    exact (hne x hx).1 heq
  · refine (hperm.map Group.id).nodup_iff.mpr (List.nodup_cons.mpr ⟨fun hmem => ?_, hr.ids⟩)
    obtain ⟨x, hx, heq⟩ := List.mem_map.mp hmem
    exact (hne x hx).2 heq

/-! ## `NewClient` -/

/-- All groups of the providers, in their order. -/
def initialGroups (i : ℕ) : List Provider → List Group
  | [] => []
  | p :: ps => initialGroup p i :: initialGroups (i + 1) ps

theorem startGroups_perm (i : ℕ) (ps : List Provider) :
    (startGroups .main i ps ++ startGroups .backup i ps).Perm (initialGroups i ps) := by
  induction ps generalizing i with
  | nil => exact .refl _
  | cons p ps ih =>
    cases hlane : p.lane with
    | main => simpa [startGroups, hlane, initialGroups] using ih (i + 1)
    | backup =>
      -- it comes behind all main groups
      simp only [startGroups, hlane, reduceCtorEq, if_false, if_true, initialGroups]
      exact List.perm_middle.trans ((ih (i + 1)).cons _)

/-- What passes the validation has names and ids of its own, and none of
those seen. -/
theorem validateProviders_spec {seen seenIDs : List String} (ps : List Provider)
    (h : validateProviders i seen seenIDs ps = none) :
    ((initialGroups i ps).map Group.name).Nodup ∧ ((initialGroups i ps).map Group.id).Nodup ∧
      ∀ g ∈ initialGroups i ps, g.name ∉ seen ∧ g.id ∉ seenIDs := by
  induction ps generalizing i seen seenIDs with
  | nil => simp [initialGroups]
  | cons p ps ih =>
    simp only [validateProviders] at h
    split at h
    · simp at h
    · split_ifs at h with hname hid
      -- what follows is checked against this provider as well
      obtain ⟨hnames, hids, hfresh⟩ := ih h
      simp only [List.contains_iff_mem] at hname hid
      refine ⟨?_, ?_, ?_⟩
      · refine List.nodup_cons.mpr ⟨fun hmem => ?_, hnames⟩
        obtain ⟨g, hg, heq⟩ := List.mem_map.mp hmem
        exact (hfresh g hg).1 (heq ▸ List.mem_cons_self)
      · refine List.nodup_cons.mpr ⟨fun hmem => ?_, hids⟩
        obtain ⟨g, hg, heq⟩ := List.mem_map.mp hmem
        exact (hfresh g hg).2 (heq ▸ List.mem_cons_self)
      · intro g hg
        rcases List.mem_cons.mp hg with rfl | hg
        · exact ⟨hname, hid⟩
        · exact ⟨fun hin => (hfresh g hg).1 (List.mem_cons_of_mem _ hin),
            fun hin => (hfresh g hg).2 (List.mem_cons_of_mem _ hin)⟩

/-- What `NewClient` makes. -/
theorem newClient_eq_ok (h : newClient ps = .ok c) :
    validateProviders 0 [] [] ps = none ∧ c.groups.Perm (initialGroups 0 ps) ∧
      c.providerIdx = 0 := by
  unfold newClient at h
  split_ifs at h
  split at h
  · cases h
  · rename_i hval
    obtain rfl := Except.ok.inj h
    exact ⟨hval, startGroups_perm 0 ps, rfl⟩

theorem newClient_unique (h : newClient ps = .ok c) : c.Unique := by
  obtain ⟨hval, hperm, -⟩ := newClient_eq_ok h
  obtain ⟨hnames, hids, -⟩ := validateProviders_spec ps hval
  exact ⟨(hperm.map _).nodup_iff.mpr hnames, (hperm.map _).nodup_iff.mpr hids⟩

/-! ## Histories -/

/-- **What `AddProvider` can come to.** -/
inductive Adds (c : Client) (i : ℕ) (p : Provider) : Client × Option GoError → Prop
  | invalid {e : GoError} (hinv : invalid p = some e) : Adds c i p (c, some e)
  | taken (hvalid : Registry.invalid p = none)
      (htaken : taken c.groups (newGroup i p (c.providerIdx + 1)).name
        (newGroup i p (c.providerIdx + 1)).id = true) :
      Adds c i p ({ c with providerIdx := c.providerIdx + 1 },
        some (errExists (newGroup i p (c.providerIdx + 1)).name))
  | added {c' : Client} (hvalid : Registry.invalid p = none)
      (hfree : Registry.taken c.groups (newGroup i p (c.providerIdx + 1)).name
        (newGroup i p (c.providerIdx + 1)).id = false)
      (hidx : c'.providerIdx = c.providerIdx + 1)
      (hperm : c'.groups.Perm (newGroup i p (c.providerIdx + 1) :: c.groups)) :
      Adds c i p (c', none)

theorem addProvider_adds (c : Client) (i : ℕ) (p : Provider) : Adds c i p (c.addProvider i p) := by
  unfold Client.addProvider
  split
  · exact .invalid ‹_›
  · dsimp only
    split_ifs with htaken
    · exact .taken ‹_› htaken
    · exact .added ‹_› (by simpa [newGroup] using htaken) rfl (c.store_append_perm _ _)

/-- What `RemoveProvider` leaves. -/
theorem removeProvider_spec (c : Client) (name : String) :
    (c.removeProvider name).1.providerIdx = c.providerIdx ∧
      (c.removeProvider name).1.groups.Sublist c.groups := by
  unfold Client.removeProvider
  split_ifs
  · exact ⟨rfl, Lists.store_sublist (without_sublist (c.load .main) name)⟩
  · exact ⟨rfl, Lists.store_sublist (without_sublist (c.load .backup) name)⟩
  · exact ⟨rfl, .refl _⟩

theorem addProvider_unique (hc : c.Unique) : (c.addProvider i p).1.Unique := by
  generalize hadd : c.addProvider i p = out
  cases hadd ▸ addProvider_adds c i p with
  | invalid hinv => exact hc
  | taken hvalid htaken => exact hc
  | added hvalid hfree hidx hperm => exact hc.cons hperm hfree

theorem removeProvider_unique (hc : c.Unique) : (c.removeProvider name).1.Unique :=
  hc.sublist (removeProvider_spec c name).2

theorem history_unique (hc : c.Unique) (calls : List Call) : (c.history i calls).Unique := by
  induction calls generalizing c i with
  | nil => exact hc
  | cons call calls ih =>
    refine ih ?_
    cases call with
    | add p => exact addProvider_unique hc
    | remove name => exact removeProvider_unique hc

/-! ## Lookups -/

theorem Lists.findGroup_mem (hg : r.findGroup name = some g) :
    g ∈ r.groups ∧ (g.name = name ∨ g.id = name) := by
  refine ⟨List.mem_of_find?_eq_some hg, ?_⟩
  simpa using List.find?_some hg

/-- The lookup takes the one group with the name or the id. -/
theorem Lists.findGroup_eq_some (hg : g ∈ r.groups) (hname : g.name = name ∨ g.id = name)
    (honly : ∀ h ∈ r.groups, h.name = name ∨ h.id = name → h = g) :
    r.findGroup name = some g := by
  cases hfind : r.findGroup name with
  | none =>
    have hnone := List.find?_eq_none.mp hfind g hg
    simp at hnone
    tauto
  | some h =>
    obtain ⟨hh, hsame⟩ := Lists.findGroup_mem hfind
    rw [honly h hh hsame]

/-- **Every group is found by its name and by its id** exactly if no id is
the name of another group. -/
theorem Lists.Unique.findGroup_iff (hr : r.Unique) :
    (∀ g ∈ r.groups, r.findGroup g.name = some g ∧ r.findGroup g.id = some g) ↔
      ∀ g ∈ r.groups, ∀ h ∈ r.groups, g ≠ h → g.id ≠ h.name := by
  constructor
  · intro hfound g hg h hh hne heq
    have hid := (hfound g hg).2
    rw [heq, (hfound h hh).1] at hid
    exact hne (Option.some.inj hid).symm
  · intro hapart g hg
    -- whoever answers to the name or the id is the group itself
    refine ⟨Lists.findGroup_eq_some hg (.inl rfl) fun h hh hsame => ?_,
      Lists.findGroup_eq_some hg (.inr rfl) fun h hh hsame => ?_⟩
    · rcases hsame with hname | hid
      · exact hr.eq_of_name hh hg hname
      · by_contra hne
        exact hapart h hh g hg hne hid
    · rcases hsame with hname | hid
      · by_contra hne
        exact hapart g hg h hh (Ne.symm hne) hname.symm
      · exact hr.eq_of_id hh hg hid

/-- **`RemoveProvider` with the name of `g` removes `g`**, and nothing
else. -/
def Removes (c : Client) (g : Group) : Prop :=
  (c.removeProvider g.name).2 = none ∧
    ∀ h, h ∈ (c.removeProvider g.name).1.groups ↔ h ∈ c.groups ∧ h ≠ g

/-- A removal takes out the first group of the name. -/
theorem removeProvider_perm (hg : g ∈ c.groups) (hname : g.name = name) :
    (c.removeProvider name).2 = none ∧
      ∃ h, h.name = name ∧ c.groups.Perm (h :: (c.removeProvider name).1.groups) := by
  unfold Client.removeProvider
  cases hmain : findNamed c.main name with
  | some h =>
    exact ⟨rfl, h, (findNamed_eq_some hmain).1, @Lists.perm_without c.toLists .main _ _ hmain⟩
  | none =>
    cases hbackup : findNamed c.backup name with
    | some h =>
      exact ⟨rfl, h, (findNamed_eq_some hbackup).1, @Lists.perm_without c.toLists .backup _ _ hbackup⟩
    | none =>
      exfalso
      rcases List.mem_append.mp hg with hin | hin
      · exact findNamed_eq_none.1 hmain g hin hname
      · exact findNamed_eq_none.1 hbackup g hin hname

theorem Lists.Unique.removes (hc : c.Unique) (hg : g ∈ c.groups) : Removes c g := by
  obtain ⟨hnil, h, hname, hperm⟩ := removeProvider_perm hg rfl
  -- the first of the name is the only one
  obtain rfl := hc.eq_of_name (hperm.mem_iff.mpr List.mem_cons_self) hg hname
  have hnd := hperm.nodup_iff.mp hc.names.of_map
  refine ⟨hnil, fun x => ?_⟩
  rw [hperm.mem_iff, List.mem_cons]
  constructor
  · intro hx
    exact ⟨.inr hx, fun heq => (List.nodup_cons.mp hnd).1 (heq ▸ hx)⟩
  · rintro ⟨hx | hx, hne⟩
    · exact absurd hx hne
    · exact hx

/-- **A lookup is unambiguous** exactly if no group has the name of
another for its id; a removal is always. -/
theorem lookup_unambiguous_iff {providers : List Provider} {c₀ : Client}
    (hnew : newClient providers = .ok c₀) (calls : List Call) :
    (∀ g ∈ (c₀.history 0 calls).groups,
        (c₀.history 0 calls).findGroup g.name = some g ∧
          (c₀.history 0 calls).findGroup g.id = some g ∧ Removes (c₀.history 0 calls) g) ↔
      ∀ g ∈ (c₀.history 0 calls).groups, ∀ h ∈ (c₀.history 0 calls).groups,
        g ≠ h → g.id ≠ h.name := by
  have hunique := history_unique (i := 0) (newClient_unique hnew) calls
  rw [← hunique.findGroup_iff]
  constructor
  · intro h g hg
    exact ⟨(h g hg).1, (h g hg).2.1⟩
  · intro h g hg
    exact ⟨(h g hg).1, (h g hg).2, hunique.removes hg⟩

/-- Two hosts, one of them with an id. -/
def providerX : Provider := { id := "a", host := "x" }

def providerY : Provider := { id := "b", host := "y" }

/-- The id is the other's host. -/
def providerZ : Provider := { id := "x", host := "z" }

/-- One host, with another added and a third added and removed: every
lookup is right. -/
theorem lookup_unambiguous_added :
    ∃ c₀, newClient [providerX] = .ok c₀ ∧
      (c₀.history 0 [.add providerY, .add providerZ, .remove "z"]).groups.length = 2 ∧
      ∀ g ∈ (c₀.history 0 [.add providerY, .add providerZ, .remove "z"]).groups,
        (c₀.history 0 [.add providerY, .add providerZ, .remove "z"]).findGroup g.name = some g ∧
          (c₀.history 0 [.add providerY, .add providerZ, .remove "z"]).findGroup g.id = some g ∧
          Removes (c₀.history 0 [.add providerY, .add providerZ, .remove "z"]) g := by
  have hnew : newClient [providerX] = .ok ⟨⟨[⟨.initial 0, "a", "x"⟩], []⟩, 0⟩ := by decide
  exact ⟨_, hnew, by decide, (lookup_unambiguous_iff hnew _).mpr (by decide)⟩

/-- **An id that is another's name**: both are registered, and the lookup
of the id gives the other. -/
theorem lookup_takes_another :
    ∃ c₀, newClient [providerX, providerZ] = .ok c₀ ∧
      ∃ g ∈ (c₀.history 0 []).groups, ∃ h ∈ (c₀.history 0 []).groups,
        g ≠ h ∧ (c₀.history 0 []).findGroup g.id = some h := by
  refine ⟨⟨⟨[⟨.initial 0, "a", "x"⟩, ⟨.initial 1, "x", "z"⟩], []⟩, 0⟩, by decide, ?_⟩
  exact ⟨⟨.initial 1, "x", "z"⟩, by decide, ⟨.initial 0, "a", "x"⟩, by decide, by decide, by decide⟩

end Registry

end NntpPool
