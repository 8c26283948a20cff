import NntpPool.Registry.Lookup
import Mathlib.Data.Nat.Digits.Defs
/-!
# Registry — derived names

A provider without a host is named after a number: its place in the list
for `NewClient`, the index that is drawn for `AddProvider`. The indices
are drawn from one on, whatever was in the list. So a derived name is
fresh exactly if the provider that stood at the drawn place had a host,
or is gone.
-/

namespace NntpPool

namespace Registry

variable {c : Client} {i k : ℕ} {g : Group} {p q : Provider} {ps : List Provider} {s : String}

/-! ## Numbered names -/

/-- `fmt.Sprintf("provider-%d", k)`. -/
def numbered (k : ℕ) : String := "provider-" ++ toString k

theorem toList_toString (k : ℕ) : (toString k).toList = Nat.toDigits 10 k := by
  rw [Nat.toString_eq_repr, Nat.toList_repr]

@[simp] theorem numbered_inj {k k' : ℕ} : numbered k = numbered k' ↔ k = k' := by
  constructor
  · intro h
    have htext : toString k = toString k' := (String.append_right_inj _).mp h
    have hdigits : Nat.toDigits 10 k = Nat.toDigits 10 k' := by
      rw [← toList_toString, ← toList_toString, htext]
    calc
      k = Nat.ofDigitChars 10 (Nat.toDigits 10 k) 0 := Nat.ofDigitChars_ten_toDigits.symm
      _ = Nat.ofDigitChars 10 (Nat.toDigits 10 k') 0 := by rw [hdigits]
      _ = k' := Nat.ofDigitChars_ten_toDigits
  · rintro rfl
    rfl

/-- There is no plus sign in a numbered name. -/
theorem plus_not_mem_numbered (k : ℕ) : '+' ∉ (numbered k).toList := by
  rw [numbered, String.toList_append, toList_toString, List.mem_append, not_or]
  refine ⟨by decide, fun h => ?_⟩
  have hdigit : Char.isDigit '+' = true := Nat.isDigit_of_mem_toDigits (by decide) (by decide) h
  exact absurd hdigit (by decide)

theorem ne_numbered (h : s.toList.head? ≠ some 'p') (k : ℕ) : s ≠ numbered k := by
  rintro rfl
  refine h ?_
  rw [numbered, String.toList_append]
  rfl

/-- **Neither the host nor the id is numbered.** -/
def Provider.Plain (p : Provider) : Prop := ∀ k, p.host ≠ numbered k ∧ p.id ≠ numbered k

/-- **A name is numbered only by derivation.** -/
theorem resolveProviderName_eq_numbered (hp : p.Plain) :
    resolveProviderName p i = numbered k ↔ p.host = "" ∧ i = k := by
  unfold resolveProviderName
  split_ifs with hhost huser
  · simp only [hhost, false_and, iff_false]
    intro heq
    refine plus_not_mem_numbered k ?_
    simp [← heq]
  · simpa [hhost] using (hp k).1
  · simp only [not_not] at hhost
    simp only [hhost, true_and]
    exact numbered_inj

theorem resolveProviderID_eq_numbered (hp : p.Plain) (h : resolveProviderID p i = numbered k) :
    p.host = "" ∧ i = k := by
  unfold resolveProviderID at h
  split_ifs at h
  · exact absurd h (hp k).2
  · exact (resolveProviderName_eq_numbered hp).mp h

/-! ## Where the groups come from -/

/-- **The group was in the list of providers, or an index was drawn for
it.** -/
inductive Origin (ps : List Provider) (drawn : ℕ) : Group → Prop
  | initial {i : ℕ} {p : Provider} (hp : ps[i]? = some p) : Origin ps drawn (initialGroup p i)
  | added {i k : ℕ} {p : Provider} (hp : p.Plain) (hk : k ≤ drawn) :
    Origin ps drawn (newGroup i p k)

theorem Origin.mono {drawn drawn' : ℕ} (h : Origin ps drawn g) (hle : drawn ≤ drawn') :
    Origin ps drawn' g := by
  cases h with
  | initial hp => exact .initial hp
  | added hp hk => exact .added hp (hk.trans hle)

theorem mem_initialGroups (i : ℕ) (ps : List Provider) :
    g ∈ initialGroups i ps ↔ ∃ k p, ps[k]? = some p ∧ g = initialGroup p (i + k) := by
  induction ps generalizing i with
  | nil => simp [initialGroups]
  | cons p ps ih =>
    rw [initialGroups, List.mem_cons, ih]
    constructor
    · rintro (rfl | ⟨k, q, hq, rfl⟩)
      · exact ⟨0, p, rfl, rfl⟩
      · exact ⟨k + 1, q, hq, by rw [Nat.add_right_comm, Nat.add_assoc]⟩
    · rintro ⟨k, q, hq, rfl⟩
      cases k with
      | zero =>
        obtain rfl := Option.some.inj hq
        exact .inl rfl
      | succ k => exact .inr ⟨k, q, hq, by rw [Nat.add_right_comm, Nat.add_assoc]⟩

/-- All groups of a client have an origin. -/
def Client.Founded (ps : List Provider) (c : Client) : Prop :=
  ∀ g ∈ c.groups, Origin ps c.providerIdx g

theorem newClient_founded (h : newClient ps = .ok c) : c.Founded ps := by
  intro g hg
  rw [(newClient_eq_ok h).2.1.mem_iff, mem_initialGroups] at hg
  obtain ⟨k, p, hp, rfl⟩ := hg
  exact .initial (by simpa using hp)

/-- What an addition draws, and what it registers. -/
theorem addProvider_spec (c : Client) (i : ℕ) (p : Provider) :
    c.providerIdx ≤ (c.addProvider i p).1.providerIdx ∧
      ∀ g, g ∈ (c.addProvider i p).1.groups →
        g ∈ c.groups ∨ g = newGroup i p (c.addProvider i p).1.providerIdx := by
  generalize hadd : c.addProvider i p = out
  cases hadd ▸ addProvider_adds c i p with
  | invalid hinv => exact ⟨le_rfl, fun g => .inl⟩
  | taken hvalid htaken => exact ⟨Nat.le_succ _, fun g => .inl⟩
  | added hvalid hfree hidx hperm =>
    refine ⟨hidx ▸ Nat.le_succ _, fun g hg => ?_⟩
    rw [hidx]
    exact (List.mem_cons.mp (hperm.mem_iff.mp hg)).symm

theorem history_founded (hc : c.Founded ps) (calls : List Call)
    (hcalls : ∀ q, Call.add q ∈ calls → q.Plain) : (c.history i calls).Founded ps := by
  induction calls generalizing c i with
  | nil => exact hc
  | cons call calls ih =>
    refine ih ?_ fun q hq => hcalls q (List.mem_cons_of_mem _ hq)
    cases call with
    | add p =>
      obtain ⟨hle, hmem⟩ := addProvider_spec c i p
      intro g hg
      rcases hmem g hg with hold | rfl
      · exact (hc g hold).mono hle
      · exact .added (hcalls p List.mem_cons_self) le_rfl
    | remove name =>
      obtain ⟨hidx, hsub⟩ := removeProvider_spec c name
      intro g hg
      exact hidx.symm ▸ hc g (hsub.subset hg)

/-! ## Fresh names -/

/-- What is drawn collides only with a provider that stood at its place
in the list. -/
theorem Client.Founded.collision (hc : c.Founded ps) (hps : ∀ q ∈ ps, q.Plain)
    (hg : g ∈ c.groups)
    (hnum : g.name = numbered (c.providerIdx + 1) ∨ g.id = numbered (c.providerIdx + 1)) :
    ∃ q, ps[c.providerIdx + 1]? = some q ∧ q.host = "" ∧
      g = initialGroup q (c.providerIdx + 1) := by
  cases hc g hg with
  | @initial i p hp =>
    have hplain := hps p (List.mem_of_getElem? hp)
    obtain ⟨hhost, rfl⟩ : p.host = "" ∧ i = c.providerIdx + 1 := by
      rcases hnum with hname | hid
      · exact (resolveProviderName_eq_numbered hplain).mp hname
      · exact resolveProviderID_eq_numbered hplain hid
    exact ⟨p, hp, hhost, rfl⟩
  | @added i k p hplain hk =>
    -- the number was drawn before
    exfalso
    obtain ⟨-, rfl⟩ : p.host = "" ∧ k = c.providerIdx + 1 := by
      rcases hnum with hname | hid
      · exact (resolveProviderName_eq_numbered hplain).mp hname
      · exact resolveProviderID_eq_numbered hplain hid
    exact absurd hk (Nat.not_succ_le_self _)

/-- The answer to an addition of a provider with neither host nor id. -/
theorem addProvider_unnamed (hvalid : invalid p = none) (hhost : p.host = "") (hid : p.id = "") :
    (c.addProvider i p).2 = none ↔
      ∀ g ∈ c.groups, g.name ≠ numbered (c.providerIdx + 1) ∧
        g.id ≠ numbered (c.providerIdx + 1) := by
  have hname : resolveProviderName p (c.providerIdx + 1) = numbered (c.providerIdx + 1) := by
    simp [resolveProviderName, hhost, numbered]
  have hident : resolveProviderID p (c.providerIdx + 1) = numbered (c.providerIdx + 1) := by
    simp [resolveProviderID, hid, hname]
  rw [← taken_eq_false]
  simp only [Client.addProvider, hvalid, hname, hident, Lists.groups]
  split_ifs with htaken
  · simp [htaken]
  · simp [Bool.eq_false_of_not_eq_true htaken]

/-- A provider with neither host nor id is added, unless a provider
without a host stood at the place whose number is drawn, and still
does. -/
theorem Client.Founded.fresh_iff (hc : c.Founded ps) (hps : ∀ q ∈ ps, q.Plain)
    (hvalid : invalid p = none) (hhost : p.host = "") (hid : p.id = "") :
    (c.addProvider i p).2 = none ↔
      ∀ q, ps[c.providerIdx + 1]? = some q → q.host = "" →
        initialGroup q (c.providerIdx + 1) ∉ c.groups := by
  rw [addProvider_unnamed hvalid hhost hid]
  constructor
  · intro hfresh q hq hqhost hmem
    refine (hfresh _ hmem).1 ?_
    exact (resolveProviderName_eq_numbered (hps q (List.mem_of_getElem? hq))).mpr ⟨hqhost, rfl⟩
  · intro hgone g hg
    rw [← not_or]
    intro hnum
    obtain ⟨q, hq, hqhost, rfl⟩ := hc.collision hps hg hnum
    exact hgone q hq hqhost hg

/-- **A derived name is fresh** exactly if the provider that stood at its
place in the list of `NewClient` had a host, or is not registered any
more. -/
theorem derived_name_fresh_iff {c₀ : Client} (hnew : newClient ps = .ok c₀)
    (hps : ∀ q ∈ ps, q.Plain) (calls : List Call) (hcalls : ∀ q, Call.add q ∈ calls → q.Plain)
    (p : Provider) (hvalid : invalid p = none) (hhost : p.host = "") (hid : p.id = "") :
    ((c₀.history 0 calls).addProvider calls.length p).2 = none ↔
      ∀ q, ps[(c₀.history 0 calls).providerIdx + 1]? = some q → q.host = "" →
        initialGroup q ((c₀.history 0 calls).providerIdx + 1) ∉ (c₀.history 0 calls).groups :=
  (history_founded (newClient_founded hnew) calls hcalls).fresh_iff hps hvalid hhost hid

/-- A provider without host and id. -/
def factoryOnly : Provider := { hasFactory := true }

theorem factoryOnly_plain : factoryOnly.Plain :=
  fun k => ⟨ne_numbered (by decide) k, ne_numbered (by decide) k⟩

theorem providerX_plain : providerX.Plain :=
  fun k => ⟨ne_numbered (by decide) k, ne_numbered (by decide) k⟩

/-- The provider of the list is removed before its number is drawn. -/
theorem derived_name_fresh_after_removal :
    ∃ c₀, newClient [providerX, factoryOnly] = .ok c₀ ∧
      ((c₀.history 0 [.remove "provider-1"]).addProvider 1 factoryOnly).2 = none := by
  have hnew : newClient [providerX, factoryOnly] =
      .ok ⟨⟨[⟨.initial 0, "a", "x"⟩, ⟨.initial 1, "provider-1", "provider-1"⟩], []⟩, 0⟩ := by decide
  refine ⟨_, hnew, (derived_name_fresh_iff hnew ?_ [.remove "provider-1"] (by simp) factoryOnly
    (by decide) rfl rfl).mpr ?_⟩
  · simp [factoryOnly_plain, providerX_plain]
  · rintro q hq -
    obtain rfl := Option.some.inj hq
    decide

/-- **The number is that of a provider of the list.** -/
theorem derived_name_taken :
    ∃ c₀, newClient [providerX, factoryOnly] = .ok c₀ ∧ invalid factoryOnly = none ∧
      (∀ q ∈ [providerX, factoryOnly], q.Plain) ∧
      ((c₀.history 0 []).addProvider 0 factoryOnly).2 = some (errExists "provider-1") := by
  have hnew : newClient [providerX, factoryOnly] =
      .ok ⟨⟨[⟨.initial 0, "a", "x"⟩, ⟨.initial 1, "provider-1", "provider-1"⟩], []⟩, 0⟩ := by decide
  refine ⟨_, hnew, by decide, ?_, rfl⟩
  simp [factoryOnly_plain, providerX_plain]

/-! ## Over all histories -/

theorem addProvider_valid (hvalid : invalid p = none) :
    (c.addProvider i p).1.providerIdx = c.providerIdx + 1 ∧
      ∀ g ∈ c.groups, g ∈ (c.addProvider i p).1.groups := by
  generalize hadd : c.addProvider i p = out
  cases hadd ▸ addProvider_adds c i p with
  | invalid hinv =>
    rw [hvalid] at hinv
    cases hinv
  | taken _ htaken => exact ⟨rfl, fun g hg => hg⟩
  | added _ hfree hidx hperm =>
    exact ⟨hidx, fun g hg => hperm.mem_iff.mpr (List.mem_cons_of_mem _ hg)⟩

/-- Additions draw one number each, and remove nothing. -/
theorem history_adds (hvalid : invalid p = none) (n : ℕ) :
    (c.history i (List.replicate n (.add p))).providerIdx = c.providerIdx + n ∧
      ∀ g ∈ c.groups, g ∈ (c.history i (List.replicate n (.add p))).groups := by
  induction n generalizing c i with
  | zero => exact ⟨rfl, fun g => id⟩
  | succ n ih =>
    obtain ⟨hidx, hkept⟩ := addProvider_valid (c := c) (i := i) hvalid
    obtain ⟨hidx', hkept'⟩ := ih (c := (c.addProvider i p).1) (i := i + 1)
    refine ⟨?_, fun g hg => hkept' g (hkept g hg)⟩
    rw [hidx] at hidx'
    exact hidx'.trans (by omega)

/-- **All derived names are fresh** exactly if every provider of the list
but the first has a host. -/
theorem derived_names_fresh_iff {c₀ : Client} (hnew : newClient ps = .ok c₀)
    (hps : ∀ q ∈ ps, q.Plain) :
    (∀ calls, (∀ q, Call.add q ∈ calls → q.Plain) → ∀ p, invalid p = none → p.host = "" →
        p.id = "" → ((c₀.history 0 calls).addProvider calls.length p).2 = none) ↔
      ∀ k q, ps[k + 1]? = some q → q.host ≠ "" := by
  constructor
  · intro hfresh k q hq hhost
    -- after so many additions the number of the provider is drawn
    have hplain (p : Provider) (hp : Call.add p ∈ List.replicate k (Call.add factoryOnly)) :
        p.Plain := by
      obtain ⟨-, heq⟩ := List.mem_replicate.mp hp
      cases heq
      exact factoryOnly_plain
    have hvalid : invalid factoryOnly = none := by decide
    obtain ⟨hidx, hkept⟩ := history_adds (c := c₀) (i := 0) hvalid k
    obtain ⟨-, hperm, hzero⟩ := newClient_eq_ok hnew
    have hadd := hfresh _ hplain factoryOnly hvalid rfl rfl
    rw [(history_founded (newClient_founded hnew) _ hplain).fresh_iff hps hvalid rfl rfl, hidx,
      hzero, Nat.zero_add] at hadd
    refine hadd q hq hhost (hkept _ (hperm.mem_iff.mpr ?_))
    exact (mem_initialGroups 0 ps).mpr ⟨k + 1, q, hq, by rw [Nat.zero_add]⟩
  · intro hhosts calls hcalls p hvalid hhost hid
    rw [(history_founded (newClient_founded hnew) calls hcalls).fresh_iff hps hvalid hhost hid]
    intro q hq hqhost
    exact absurd hqhost (hhosts _ q hq)

end Registry

end NntpPool
