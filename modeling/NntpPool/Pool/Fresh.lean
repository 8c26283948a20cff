import NntpPool.Pool.Model.Clock
import NntpPool.Pool.Owned
import NntpPool.Dispatch.Retries
/-!
# Pool — fresh transports

A request comes to the write call of a connection on many ways: as its
bootstrap request, from one of the channels, handed over directly, put
off and taken up again, or carried over from a slot that could not
connect. On each `Run` compares `createdAt` with `submittedAt` once, and
from then on the request is among those the connection has `vetted`:
until it lets go of it, or has answered it. Nothing else is written or
answered (`Timed.Sound.vetted`).

What is compared are readings of a clock. That the connection was made
behind the request follows only if the two differ: a connection made just
before, within one reading, serves the request as well.
-/

namespace NntpPool

namespace Pool

variable {S : Setup} {env : Env} {T T' : Timed} {e : Tick} {c c' : Conn} {effs : List Effect}
variable {now : Stamp ℕ} {l : Label} {i k r : ℕ}

/-! ## Steps and their times -/

/-- **What a step at a time is.** -/
theorem tick_eq_some : tick S T e = some T' ↔
    (T.last.time ≤ e.time ∧ T.admits S e.label = true) ∧
      ∃ s, step S T.pool e.label = some s ∧
        T' = { T.note S ⟨e.time, T.last.step + 1⟩ e.label with
          pool := s, last := ⟨e.time, T.last.step + 1⟩ } := by
  unfold tick
  split_ifs with h
  · simp only [Option.map_eq_some_iff, h, and_self, true_and]
    exact ⟨fun ⟨s, hs, heq⟩ => ⟨s, hs, heq.symm⟩, fun ⟨s, hs, heq⟩ => ⟨s, hs, heq.symm⟩⟩
  · simp [h]

/-- **Runs in time are runs.** -/
theorem exec_pool {es : List Tick} (h : exec (tick S) T es = some T') :
    exec (step S) T.pool (es.map Tick.label) = some T'.pool := by
  induction es generalizing T with
  | nil =>
    cases h
    rfl
  | cons e es ih =>
    obtain ⟨T₁, hstep, hrun⟩ := exec_cons.1 h
    obtain ⟨-, s, hs, rfl⟩ := tick_eq_some.1 hstep
    exact exec_cons.2 ⟨s, hs, ih hrun⟩

/-- **What a step can note.** -/
inductive Notes (T : Timed) (now : Stamp ℕ) : Label → Timed → Prop
  | nothing (l : Label) : Notes T now l T
  /-- An attempt is made. -/
  | submitted (r : ℕ) :
      Notes T now (.start r) { T with submittedAt := Function.update T.submittedAt r now }
  /-- A slot has dialed. -/
  | greeted (i : ℕ) :
      Notes T now (.slot i .go) { T with greetedAt := Function.update T.greetedAt i now }
  /-- A connection is made, and has the time of its slot. -/
  | created (i : ℕ) :
      Notes T now (.slot i .go)
        { T with createdAt := Function.update T.createdAt T.pool.conns.length (T.greetedAt i) }

theorem Timed.note_notes (S : Setup) (T : Timed) (now : Stamp ℕ) (l : Label) :
    Notes T now l (T.note S now l) := by
  unfold Timed.note
  split
  case h_1 r =>
    split_ifs
    · exact .nothing _
    · exact .submitted r
  case h_2 i =>
    split
    case h_1 => exact .greeted i
    case h_2 => exact .created i
    case h_3 => exact .nothing _
  case h_3 => exact .nothing _

/-- `submittedAt` is noted when the attempt is made. -/
theorem Notes.submittedAt (h : Notes T now l T') (r : ℕ) :
    T'.submittedAt r = T.submittedAt r ∨ l = .start r ∧ T'.submittedAt r = now := by
  cases h with
  | submitted n =>
    by_cases hn : r = n
    · subst hn
      exact .inr ⟨rfl, Function.update_self ..⟩
    · exact .inl (Function.update_of_ne hn ..)
  | _ => exact .inl rfl

/-- `createdAt` is that of the connection that is made. -/
theorem Notes.createdAt (h : Notes T now l T') (k : ℕ) :
    T'.createdAt k = T.createdAt k ∨
      k = T.pool.conns.length ∧ ∃ i, T'.createdAt k = T.greetedAt i := by
  cases h with
  | created i =>
    by_cases hk : k = T.pool.conns.length
    · subst hk
      exact .inr ⟨rfl, i, Function.update_self ..⟩
    · exact .inl (Function.update_of_ne hk ..)
  | _ => exact .inl rfl

/-- It is read when the slot has dialed. -/
theorem Notes.greetedAt (h : Notes T now l T') (i : ℕ) :
    T'.greetedAt i = T.greetedAt i ∨ T'.greetedAt i = now := by
  cases h with
  | greeted j =>
    by_cases hi : i = j
    · subst hi
      exact .inr (Function.update_self ..)
    · exact .inl (Function.update_of_ne hi ..)
  | _ => exact .inl rfl

/-- All times that were noted. -/
def Timed.stamps (T : Timed) : Set (Stamp ℕ) :=
  Set.range T.submittedAt ∪ Set.range T.createdAt ∪ Set.range T.greetedAt

theorem Timed.submittedAt_mem (T : Timed) (r : ℕ) : T.submittedAt r ∈ T.stamps :=
  .inl (.inl ⟨r, rfl⟩)

theorem Timed.createdAt_mem (T : Timed) (k : ℕ) : T.createdAt k ∈ T.stamps :=
  .inl (.inr ⟨k, rfl⟩)

theorem Timed.greetedAt_mem (T : Timed) (i : ℕ) : T.greetedAt i ∈ T.stamps := .inr ⟨i, rfl⟩

theorem Notes.stamps {x : Stamp ℕ} (h : Notes T now l T') (hx : x ∈ T'.stamps) :
    x ∈ T.stamps ∨ x = now := by
  rcases hx with (⟨r, rfl⟩ | ⟨k, rfl⟩) | ⟨i, rfl⟩
  · rcases h.submittedAt r with heq | ⟨-, heq⟩
    · exact .inl (heq ▸ T.submittedAt_mem r)
    · exact .inr heq
  · rcases h.createdAt k with heq | ⟨-, i, heq⟩
    · exact .inl (heq ▸ T.createdAt_mem k)
    · exact .inl (heq ▸ T.greetedAt_mem i)
  · rcases h.greetedAt i with heq | heq
    · exact .inl (heq ▸ T.greetedAt_mem i)
    · exact .inr heq

/-! ## What a connection has vetted -/

/-- The request `Run` works on and has checked; a keepalive needs no
check. -/
def Writer.vetted (unsent : Option ℕ) : Writer → List ℕ
  | .firstSlot | .body _ | .background _ _ => unsent.toList
  | .write _ _ | .flushPost _ _ | .enqueue _ _ => unsent.toList
  | .keepalive r => [r]
  | _ => []

/-- **The requests a connection has vetted** and not let go of. -/
def Conn.vetted (c : Conn) : List ℕ := c.writer.vetted c.unsent ++ c.kept

theorem newConn_vetted (i first : ℕ) (second : Option ℕ) :
    (newConn i first second).vetted = [] := rfl

theorem Conn.mem_held_of_vetted (h : r ∈ c.vetted) : r ∈ c.held := by
  rcases List.mem_append.mp h with h | h
  · have : r ∈ c.writer.held c.unsent := by
      cases hw : c.writer <;> simp_all [Writer.vetted, Writer.held, Writer.works]
    simp [Conn.held, this]
  · rcases List.mem_append.mp h with h | h
    · simp only [Conn.held, List.mem_append, h, or_true, true_or]
    · simp only [Conn.held, List.mem_append, h, or_true]

/-- `failOutstanding` only takes from the queue. -/
theorem Fails.pending {f : Failing} {f' : Option Failing} (h : Fails S c f c' f' effs)
    (hr : r ∈ c'.pending.map Entry.req) : r ∈ c.pending.map Entry.req := by
  cases h
  case pop e rest hp =>
    rw [hp]
    exact List.mem_cons_of_mem e.req hr
  case release e => simpa [Conn.freeBackground_eq] using hr
  all_goals exact hr

/-- What it holds it had, or was on the queue. -/
theorem Fails.held {f f₁ : Failing} (h : Fails S c f c' (some f₁) effs) (hr : r ∈ f₁.held) :
    r ∈ f.held ∨ r ∈ c.pending.map Entry.req := by
  cases h
  case pop e rest hp =>
    rw [hp]
    exact .inr (List.mem_cons.mpr (.inl (by simpa [Failing.held] using hr)))
  case release e => exact .inl hr
  all_goals simp [Failing.held] at hr

/-- `Run` works on no request that it has checked behind the step. -/
theorem Conn.mem_vetted_of_nil (hr : r ∈ c'.vetted) (hw : c'.writer.vetted c'.unsent = [])
    (hp : c'.pending = c.pending) (hreader : c'.reader = c.reader) : r ∈ c.vetted := by
  rw [Conn.vetted, hw, List.nil_append, Conn.kept, hp, hreader] at hr
  exact List.mem_append_right _ hr

/-- **`Run` vets a request by its check**, or makes it. -/
theorem Writes.vetted {a : WriterAct} (h : Writes S env c a c' effs) (hr : r ∈ c'.vetted) :
    r ∈ c.vetted ∨ (a = .go ∧ (c.writer = .first ∨ c.writer = .got) ∧ c.unsent = some r) ∨
      (S.info r).keepalive = true := by
  cases h
  case abort f f' d hw hf | closing f f' d hw hf =>
    obtain ⟨-, -, hreader, -, -⟩ := hf.frame
    have hp := hf.pending (r := r)
    left
    cases f' <;> simp_all [Conn.vetted, Conn.kept, Writer.vetted, Writer.after] <;> tauto
  -- the request is checked, or made, and goes on to the queue
  case firstGo | gotGo | waitKeepalive | enqueuePost | enqueueGo | keepaliveGo =>
    simp_all [Conn.vetted, Conn.kept, Writer.vetted]
    grind
  case firstSlotGo | bodyCheap | bodyGo | backgroundNot | backgroundGo | writePost | writeGo |
      flushPostGo =>
    simp_all [Conn.vetted, Conn.kept, Writer.vetted]
  case backgroundFullFirst | backgroundFull =>
    exact .inl (Conn.mem_vetted_of_nil hr rfl (Conn.freeBody_pending _ _)
      (Conn.freeBody_reader _ _))
  case writeErr =>
    exact .inl (Conn.mem_vetted_of_nil hr rfl (Conn.freeBackground_pending _ _)
      (Conn.freeBackground_reader _ _))
  case drainGo hw _ => exact .inl (Conn.mem_vetted_of_nil hr (by rw [hw]; rfl) rfl rfl)
  case' takeGo b _ _ => cases b
  case' postReady b _ _ => cases b
  case' keepaliveAnswer hto => rcases hto with rfl | rfl
  all_goals exact .inl (Conn.mem_vetted_of_nil hr rfl rfl rfl)

/-- `readerLoop` takes up what is on the queue. -/
theorem Reads.kept {a : ReaderAct} (h : Reads S env c a c' effs) (hr : r ∈ c'.kept) :
    r ∈ c.kept := by
  cases h
  case retire f f' d hreader hf =>
    simp only [Conn.kept, List.mem_append, hreader, Reader.held_retire] at hr ⊢
    rcases hr with hr | hr
    · exact .inl (hf.pending hr)
    · cases f' with
      | none => simp [Reader.after, Reader.held] at hr
      | some f₁ => exact (hf.held hr).symm
  case decide hto =>
    rcases hto with rfl | rfl <;> simp_all [Conn.kept, Reader.held, Failing.held]
  all_goals
    simp_all [Conn.kept, Reader.held, Failing.held, Conn.freeInflight, Conn.freeBody_eq,
      Conn.freeBackground_eq]
  case waitGo => exact hr.symm

theorem Reads.vetted {a : ReaderAct} (h : Reads S env c a c' effs) (hr : r ∈ c'.vetted) :
    r ∈ c.vetted := by
  obtain ⟨-, hw, hu, -⟩ := h.frame
  simp only [Conn.vetted, List.mem_append, hw, hu] at hr ⊢
  exact hr.imp_right h.kept

/-- **A connection vets a request by its check**, or makes it. -/
theorem Conn.step_vetted {a : ConnAct} (h : c.step S env a = some (c', effs))
    (hr : r ∈ c'.vetted) :
    r ∈ c.vetted ∨
      (a = .writer .go ∧ (c.writer = .first ∨ c.writer = .got) ∧ c.unsent = some r) ∨
      (S.info r).keepalive = true := by
  cases a with
  | writer a =>
    rcases (writerStep_writes h).vetted hr with hr | ⟨rfl, hcheck⟩ | hk
    · exact .inl hr
    · exact .inr (.inl ⟨rfl, hcheck⟩)
    · exact .inr (.inr hk)
  | reader a => exact .inl ((readerStep_reads h).vetted hr)

/-! ## Slots -/

/-- A slot waits for a greeting behind its dial. -/
theorem Acts.greets {s s' : State} (h : Acts S s l s' effs) {f : ℕ} {q : Option ℕ}
    (hi : s'.slots[i]? = some (.greet f q)) :
    s.slots[i]? = some (.greet f q) ∨ l = .slot i .go ∧ s.slots[i]? = some (.dial f q) := by
  cases h with
  | @slot j a p p' made effs hp hs =>
    rw [foldl_apply_slots] at hi
    by_cases hij : j = i
    · subst hij
      simp only [List.getElem?_set_self (List.getElem?_eq_some_iff.mp hp).1] at hi
      cases hs
      case dialGo =>
        cases hi
        exact .inr ⟨rfl, hp⟩
      case pickedDone s _ _ => cases s <;> cases hi
      case gateRefuse s _ => cases s <;> cases hi
      case backoffGo s => cases s <;> cases hi
      all_goals cases hi
    · rw [List.getElem?_set_ne hij] at hi
      exact .inl hi
  | sendHot => exact .inl (by simpa [State.accepted] using hi)
  | conn => exact .inl (by simpa using hi)
  | _ => exact .inl hi

/-- What a slot holds is not to be made any more. -/
theorem Owned.attempt_ne_of_slot {s : State} {p : Slot} (h : Owned S s)
    (hp : s.slots[i]? = some p) (hr : r ∈ p.held) : s.attempt r ≠ .unmade := by
  intro ha
  have hnone := (h.early r (by rw [ha]; rfl)).2
  have hle := le_shares (f := fun p : Slot => p.held.count r) hp
  have hpos : 0 < p.held.count r := List.count_pos_iff.mpr hr
  unfold State.held at hnone
  omega

/-- Nor is what a connection holds. -/
theorem Owned.attempt_ne_of_conn {s : State} (h : Owned S s) (hc : c ∈ s.conns)
    (hr : r ∈ c.held) : s.attempt r ≠ .unmade := by
  intro ha
  have hnone := (h.early r (by rw [ha]; rfl)).2
  have hle := le_held_of_mem (r := r) hc
  have hpos : 0 < c.held.count r := List.count_pos_iff.mpr hr
  omega

/-! ## The invariant -/

/-- **What holds of the times that were noted.** -/
structure Timed.Sound (S : Setup) (T : Timed) : Prop where
  owned : Owned S T.pool
  readings : Readings T.stamps T.last
  keepalive : ∀ r, (S.info r).keepalive = true → (T.submittedAt r).time = 0
  /-- A connection is not older than a request it has vetted. -/
  vetted : ∀ k c, T.pool.conns[k]? = some c → ∀ r ∈ c.vetted,
    (S.info r).freshTransport = true → (T.submittedAt r).time ≤ (T.createdAt k).time
  /-- It is not older than those it is made for. -/
  greeted : ∀ i f q, T.pool.slots[i]? = some (.greet f q) → ∀ r ∈ f :: q.toList,
    (T.submittedAt r).time ≤ (T.greetedAt i).time
  first : ∀ k c, T.pool.conns[k]? = some c → c.writer = .first → ∀ r, c.unsent = some r →
    (T.submittedAt r).time ≤ (T.createdAt k).time

theorem Timed.Sound.start (S : Setup) : (Timed.start S).Sound S where
  owned := Owned.start S
  readings := Readings.single (by
    rintro x ((⟨r, rfl⟩ | ⟨k, rfl⟩) | ⟨i, rfl⟩) <;> rfl)
  keepalive _ _ := rfl
  vetted _ _ h := by simp [Timed.start, Pool.start] at h
  greeted i f q h := by
    simp [Timed.start, Pool.start, List.getElem?_replicate] at h
  first _ _ h := by simp [Timed.start, Pool.start] at h

/-- The check of `Run` is made. -/
theorem Timed.le_of_admits (h : T.admits S (.conn k (.writer .go)) = true)
    (hc : T.pool.conns[k]? = some c) (hw : c.writer = .first ∨ c.writer = .got)
    (hu : c.unsent = some r) (hf : (S.info r).freshTransport = true) :
    (T.submittedAt r).time ≤ (T.createdAt k).time := by
  have hcheck : T.checks S k r c.writer .go = true := by simpa [Timed.admits, hc, hu] using h
  have hnot : T.tooOld S k r = false := by
    rcases hw with hw | hw <;> simpa [hw, Timed.checks] using hcheck
  simpa [Timed.tooOld, hf] using hnot

/-- What was noted of a request stays. -/
theorem Timed.note_submittedAt_of_ne {s : State} (hact : Acts S T.pool l s effs)
    (h : T.pool.attempt r ≠ .unmade) : (T.note S now l).submittedAt r = T.submittedAt r := by
  rcases (T.note_notes S now l).submittedAt r with heq | ⟨rfl, -⟩
  · exact heq
  · cases hact with
    | start ha => exact absurd ha h

/-- What was noted of a connection stays. -/
theorem Timed.note_createdAt_of_some (hc : T.pool.conns[k]? = some c) :
    (T.note S now l).createdAt k = T.createdAt k := by
  rcases (T.note_notes S now l).createdAt k with heq | ⟨rfl, -⟩
  · exact heq
  · simp at hc

/-- A connection that is new is made by a slot that was greeted. -/
theorem Acts.news {s s' : State} (h : Acts S s l s' effs)
    (hc : s'.conns[s.conns.length]? = some c') :
    ∃ i f q, l = .slot i .go ∧ s.slots[i]? = some (.greet f q) ∧ c' = newConn i f q := by
  cases h with
  | slot hp hs =>
    rw [foldl_apply_conns] at hc
    cases hs
    case greetGo f q => exact ⟨_, f, q, rfl, hp, by simpa using hc.symm⟩
    all_goals simp at hc
  | sendHot | conn => simp at hc
  | _ => simp [State.accepted, State.leave] at hc

section Step

variable {s : State}

theorem Timed.Sound.keepalive_note (h : T.Sound S) (hact : Acts S T.pool l s effs)
    (hk : (S.info r).keepalive = true) : ((T.note S now l).submittedAt r).time = 0 := by
  rcases (T.note_notes S now l).submittedAt r with heq | ⟨rfl, -⟩
  · rw [heq]
    exact h.keepalive r hk
  · cases hact with
    | start ha hk' => simp [hk] at hk'

/-- What is older than a vetted request stays so. -/
theorem Timed.Sound.le_note (h : T.Sound S) (hact : Acts S T.pool l s effs)
    (hc : T.pool.conns[k]? = some c) (hr : r ∈ c.held)
    (hle : (T.submittedAt r).time ≤ (T.createdAt k).time) :
    ((T.note S now l).submittedAt r).time ≤ ((T.note S now l).createdAt k).time := by
  have hmade := h.owned.attempt_ne_of_conn (List.mem_of_getElem? hc) hr
  rwa [note_submittedAt_of_ne hact hmade, note_createdAt_of_some hc]

/-- **A request is vetted by the check alone.** -/
theorem Timed.Sound.vetted_note (h : T.Sound S) (hact : Acts S T.pool l s effs)
    (hadmits : T.admits S l = true) (hc : s.conns[k]? = some c') (hr : r ∈ c'.vetted)
    (hf : (S.info r).freshTransport = true) :
    ((T.note S now l).submittedAt r).time ≤ ((T.note S now l).createdAt k).time := by
  cases hact.origin hc with
  | old hold => exact h.le_note hact hold (Conn.mem_held_of_vetted hr) (h.vetted k c' hold r hr hf)
  | stepped hold hl hprio hhot hs =>
    rcases Conn.step_vetted hs hr with hr | ⟨rfl, hw, hu⟩ | hk
    · exact h.le_note hact hold (Conn.mem_held_of_vetted hr) (h.vetted k _ hold r hr hf)
    · rcases hl with ⟨rfl, -⟩ | ⟨n, -, hhand | hhand⟩
      · exact le_of_admits hadmits hold hw hu hf
      · cases hhand
      · cases hhand
    · rw [h.keepalive_note hact hk]
      exact Nat.zero_le _
  | new heq => simp [heq, newConn_vetted] at hr

/-- **A slot dials behind the requests it dials for.** -/
theorem Timed.Sound.greeted_note (h : T.Sound S) (hact : Acts S T.pool l s effs)
    (ht : T.last.time ≤ now.time) {f : ℕ} {q : Option ℕ}
    (hi : s.slots[i]? = some (.greet f q)) (hr : r ∈ f :: q.toList) :
    ((T.note S now l).submittedAt r).time ≤ ((T.note S now l).greetedAt i).time := by
  have hpast : (T.submittedAt r).time ≤ now.time :=
    (h.readings.time_le _ (T.submittedAt_mem r)).trans ht
  rcases hact.greets hi with hold | ⟨rfl, hold⟩
  · rw [note_submittedAt_of_ne hact (h.owned.attempt_ne_of_slot hold hr)]
    rcases (T.note_notes S now l).greetedAt i with heq | heq
    · rw [heq]
      exact h.greeted i f q hold r hr
    · rwa [heq]
  · simpa [Timed.note, hold] using hpast

/-- **A connection is made behind its bootstrap request.** -/
theorem Timed.Sound.first_note (h : T.Sound S) (hact : Acts S T.pool l s effs)
    (hc : s.conns[k]? = some c') (hw : c'.writer = .first) (hu : c'.unsent = some r) :
    ((T.note S now l).submittedAt r).time ≤ ((T.note S now l).createdAt k).time := by
  have hheld {b : Conn} (hw : b.writer = .first) (hu : b.unsent = some r) : r ∈ b.held := by
    simp [Conn.held, hw, hu, Writer.held, Writer.works]
  cases hact.origin hc with
  | old hold => exact h.le_note hact hold (hheld hw hu) (h.first k c' hold hw r hu)
  | @stepped env a b hold hl hprio hhot hs =>
    cases a with
    | writer a =>
      cases writerStep_writes hs
      case abort f f' d hf hwriter => cases f' <;> cases hw
      case closing f f' d hf hwriter => cases f' <;> cases hw
      case takeGo t _ _ => cases t <;> cases hw
      case postReady t _ _ => cases t <;> cases hw
      case keepaliveAnswer hto => rcases hto with rfl | rfl <;> cases hw
      case drainGo hdrain hlt => cases hdrain.symm.trans hw
      all_goals cases hw
    | reader a =>
      obtain ⟨-, hwriter, hunsent, -⟩ := (readerStep_reads hs).frame
      rw [hwriter] at hw
      rw [hunsent] at hu
      exact h.le_note hact hold (hheld hw hu) (h.first k b hold hw r hu)
  | new heq hk =>
    subst hk
    obtain ⟨i, f, q, rfl, hi, rfl⟩ := hact.news hc
    cases hu
    have hle := h.greeted i r q hi r List.mem_cons_self
    simpa [Timed.note, hi] using hle

/-- **Every step keeps it.** -/
theorem Timed.Sound.tick (h : T.Sound S) (hstep : tick S T e = some T') : T'.Sound S := by
  obtain ⟨⟨ht, hadmits⟩, s, hs, rfl⟩ := tick_eq_some.1 hstep
  obtain ⟨effs, hact⟩ := step_eq_some.1 hs
  have hact := act_acts hact
  exact {
    owned := h.owned.step hact
    readings := h.readings.next ht fun _ hx => (T.note_notes S _ _).stamps hx
    keepalive := fun _ hk => h.keepalive_note hact hk
    vetted := fun _ _ hc _ hr hf => h.vetted_note hact hadmits hc hr hf
    greeted := fun _ _ _ hi _ hr => h.greeted_note hact ht hi hr
    first := fun _ _ hc hw _ hu => h.first_note hact hc hw hu }

end Step

/-- **Every reachable state has it.** -/
theorem Timed.Sound.run {es : List Tick} (h : exec (Pool.tick S) (Timed.start S) es = some T) :
    T.Sound S :=
  exec_invariant (I := Timed.Sound S) (P := fun _ _ => True) (fun _ _ _ hs _ hstep => hs.tick hstep)
    es (Timed.Sound.start S) (along_true _ _) h

/-! ## Results -/

/-- **A connection is never too old for its bootstrap request**, so a
request that was refused comes through once a slot dials for it. -/
theorem not_tooOld_first (S : Setup) (es : List Tick) (T : Timed)
    (h : exec (tick S) (Timed.start S) es = some T) (hc : T.pool.conns[k]? = some c)
    (hw : c.writer = .first) (hu : c.unsent = some r) :
    T.admits S (.conn k (.writer .tooOld)) = false := by
  have hle := (Timed.Sound.run h).first k c hc hw r hu
  have hnot : T.tooOld S k r = false := by simp [Timed.tooOld, Nat.not_lt.mpr hle]
  simp [Timed.admits, Timed.checks, hc, hw, hu, hnot]

/-- What is written was vetted. -/
theorem State.vetted_of_writes {s : State} {a : ConnAct} (h : r ∈ s.writes (.conn k a)) :
    ∃ c, s.conns[k]? = some c ∧ r ∈ c.vetted := by
  cases a with
  | writer a =>
    unfold State.writes at h
    cases hc : s.conns[k]? with
    | none => simp [hc] at h
    | some c =>
      refine ⟨c, rfl, List.mem_append_left _ ?_⟩
      cases hw : c.writer <;> simp_all [Writer.vetted]
  | reader a => simp [State.writes] at h

/-- What is answered was vetted. -/
theorem State.vetted_of_answers {s : State} {a : ConnAct} {code : ℤ}
    (h : (r, code) ∈ s.answers (.conn k a)) : ∃ c, s.conns[k]? = some c ∧ r ∈ c.vetted := by
  cases a with
  | writer a => simp [State.answers] at h
  | reader a =>
    unfold State.answers at h
    cases hc : s.conns[k]? with
    | none => simp [hc] at h
    | some c =>
      refine ⟨c, rfl, List.mem_append_right _ (List.mem_append_right _ ?_)⟩
      simp only [hc, Option.map_some] at h
      split at h
      all_goals simp_all [Reader.held]

/-- The requests of a probe, and those behind a 451, want a fresh
transport. -/
theorem Requests.freshTransport_of_renews (q : Requests S) {n : ℕ} (hr : q.reqs[n]? = some r)
    (h : q.Renews n) : (S.info r).freshTransport = true := by
  have hflag : (q.made.map Dispatch.Tried.freshTransport)[n]? =
      some (S.info r).freshTransport := by
    rw [← q.flags, List.getElem?_map, hr]
    rfl
  rw [List.getElem?_map] at hflag
  obtain ⟨t, ht, heq⟩ := Option.map_eq_some_iff.mp hflag
  rw [← heq]
  refine Dispatch.retries_renewed (Dispatch.Renewed.start _) q.delayCancelled q.tries ht ?_
  exact h.imp_left fun hprobe => by simp [hprobe]

/-- **The connection was made behind the request**, as far as the readings
tell: not before it, and in a later step unless they are the same. -/
def Timed.Behind (T : Timed) (r k : ℕ) : Prop :=
  ¬(T.createdAt k).time < (T.submittedAt r).time ∧
    ((T.createdAt k).time ≠ (T.submittedAt r).time →
      (T.submittedAt r).step < (T.createdAt k).step)

theorem Timed.Sound.behind (h : T.Sound S) (hc : T.pool.conns[k]? = some c) (hr : r ∈ c.vetted)
    (hf : (S.info r).freshTransport = true) : T.Behind r k := by
  have hle := h.vetted k c hc r hr hf
  refine ⟨Nat.not_lt.mpr hle, fun hne => ?_⟩
  exact h.readings.step_lt (T.submittedAt_mem r) (T.createdAt_mem k) (by omega)

/-- **Fresh transports.** However slots, connections and callers are
interleaved, a request with `FreshTransport` is not written on a
connection whose `createdAt` is before its `submittedAt`. So what answers
the retry behind a 451, or a half-open probe, is a connection made behind
it, but for one of the same reading of the clock. -/
theorem freshTransport_kept (S : Setup) (es : List Tick) (T : Timed)
    (h : exec (tick S) (Timed.start S) es = some T) :
    (∀ k a r, r ∈ T.pool.writes (.conn k a) → (S.info r).freshTransport = true →
      ¬(T.createdAt k).time < (T.submittedAt r).time) ∧
    ∀ (q : Requests S) (n r : ℕ), q.reqs[n]? = some r → q.Renews n →
      ∀ k a code, (r, code) ∈ T.pool.answers (.conn k a) → T.Behind r k := by
  have hsound := Timed.Sound.run h
  constructor
  · intro k a r hr hf
    obtain ⟨c, hc, hvetted⟩ := State.vetted_of_writes hr
    exact (hsound.behind hc hvetted hf).1
  · intro q n r hn hrenews k a code hr
    obtain ⟨c, hc, hvetted⟩ := State.vetted_of_answers hr
    exact hsound.behind hc hvetted (q.freshTransport_of_renews hn hrenews)

/-! ## One reading of the clock -/

/-- Two connections; request 1 is the retry of request 0, and 2 is
another call's. -/
def retryPool : Setup where
  connections := 2
  limits := Provider.limits { connections := 2, statInflight := 2 }
  providerName := "p"
  keepaliveCode := 111
  info r := { payload := ascii "STAT <a@b>\r\n", freshTransport := r == 1, call := r / 2,
              keepalive_writer := Request.any_writer }

/-- The call of the first two, whose first try is answered with 451. -/
def retriedOnce : Requests retryPool where
  g := Dispatch.mappingProvider
  cmd := Dispatch.statOnce
  lease := {}
  tries := [.answer 451, .answer 223]
  reqs := [0, 1]
  flags := by decide +kernel

/-- The answer the reader of a connection has read. -/
def replied (k : ℕ) (code : ℤ) : Label := .conn k (.reader (.finish false ⟨code, [], none⟩))

/-- The request is handed in, and the slot dials for it. -/
def dialing (i r : ℕ) : List Label :=
  [.start r, .send r, .slot i .req, .slot i .go, .slot i .go, .slot i .go]

/-- The server greets, the bootstrap request is written, and the reader
comes to its answer. -/
def booting (i k : ℕ) : List Label :=
  [.slot i .go, .slot i .go] ++ List.replicate 6 (.conn k (.writer .go)) ++
    List.replicate 4 (.conn k (.reader .go))

/-- The answer is 451, and the attempt returns with it. -/
def temporary : List Label :=
  [replied 0 451, .conn 0 (.reader .go), .conn 0 (.reader .go), .receive 0]

/-- All of them happen at one time. -/
def ticks (t : ℕ) (ls : List Label) : List Tick := ls.map (Tick.mk t)

/-- The retry gets a connection of its own. -/
def renewed : List Tick :=
  ticks 0 (dialing 0 0 ++ booting 0 0 ++ temporary) ++ ticks 5 (dialing 1 1) ++
    ticks 6 (booting 1 1)

theorem freshTransport_kept_renewed :
    ∃ T, exec (tick retryPool) (Timed.start retryPool) renewed = some T ∧
      retriedOnce.Renews 1 ∧ (1, 223) ∈ T.pool.answers (replied 1 223) ∧
      (T.createdAt 0).time < (T.submittedAt 1).time ∧ T.Behind 1 1 := by
  have hrun : (exec (tick retryPool) (Timed.start retryPool) renewed).map
      (fun T => (T.pool.answers (replied 1 223), (T.createdAt 0).time, (T.submittedAt 1).time)) =
        some ([(1, 223)], 0, 5) := by decide
  obtain ⟨T, hT, hp⟩ := Option.map_eq_some_iff.mp hrun
  simp only [Prod.mk.injEq] at hp
  obtain ⟨hans, hcreated, hsubmitted⟩ := hp
  have hrenews : retriedOnce.Renews 1 := .inr ⟨_, List.mem_cons_self, rfl⟩
  have hmem : (1, 223) ∈ T.pool.answers (replied 1 223) := by simp [hans]
  refine ⟨T, hT, hrenews, hmem, by omega, ?_⟩
  exact (freshTransport_kept retryPool renewed T hT).2 retriedOnce 1 1 rfl hrenews 1 _ 223 hmem

/-- A connection is made for another call, and within the same reading of
the clock the retry is submitted and handed to it. -/
def sameReading : List Tick :=
  ticks 0 (dialing 0 0 ++ booting 0 0 ++ temporary) ++
    ticks 5 (dialing 1 2 ++ booting 1 1 ++ List.replicate 5 (.conn 1 (.writer .go)) ++
      [.start 1, .sendHot 1 1] ++ List.replicate 6 (.conn 1 (.writer .go)) ++
      [replied 1 223] ++ List.replicate 10 (.conn 1 (.reader .go)))

/-- **A connection made before the retry answers it**, where the clock has
not moved in between. -/
theorem older_connection_answers :
    ∃ T, exec (tick retryPool) (Timed.start retryPool) sameReading = some T ∧
      retriedOnce.reqs[1]? = some 1 ∧ retriedOnce.Renews 1 ∧
      (1, 223) ∈ T.pool.answers (replied 1 223) ∧
      (tick retryPool T ⟨5, replied 1 223⟩).isSome ∧
      (T.createdAt 1).step < (T.submittedAt 1).step := by
  have hrun : (exec (tick retryPool) (Timed.start retryPool) sameReading).map
      (fun T => (T.pool.answers (replied 1 223), (tick retryPool T ⟨5, replied 1 223⟩).isSome,
        decide ((T.createdAt 1).step < (T.submittedAt 1).step))) =
        some ([(1, 223)], true, true) := by decide
  obtain ⟨T, hT, hp⟩ := Option.map_eq_some_iff.mp hrun
  simp only [Prod.mk.injEq] at hp
  obtain ⟨hans, hsome, hlt⟩ := hp
  refine ⟨T, hT, rfl, .inr ⟨_, List.mem_cons_self, rfl⟩, by simp [hans], hsome, ?_⟩
  exact of_decide_eq_true hlt

end Pool

end NntpPool
