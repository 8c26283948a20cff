import NntpPool.Pool.Occupancy
import NntpPool.Pool.Model.Tokens
/-!
# Pool — a deferred STAT is woken

`Run` looks at `backgroundStatSem` without a lock and then waits for a
token. A slot that is given back in between leaves its token, or will:
nobody but `Run` takes tokens, and it takes them only where it waits. A
token that is left over makes `Run` try again, and a slot is taken only
if there is one.
-/

namespace NntpPool

namespace Pool

namespace Tokens

variable {S : Setup} {env : Env} {c c' : Conn} {effs : List Effect} {s s' : State} {l : Label}

/-! ## Steps that give a slot back -/

@[simp] theorem releases_nil : releases [] = false := rfl

@[simp] theorem releases_cons (x : Effect) (xs : List Effect) :
    releases (x :: xs) = (.backgroundStatInUse (-1) == x || releases xs) := rfl

@[simp] theorem releases_append (xs ys : List Effect) :
    releases (xs ++ ys) = (releases xs || releases ys) := by
  simp [releases]

@[simp] theorem releases_backgroundFreed (held : Bool) : releases (backgroundFreed held) = held := by
  cases held <;> rfl

@[simp] theorem releases_pendingFreed (e : Entry) :
    releases (pendingFreed e) = e.heldBackgroundStat := by
  rcases e with ⟨r, hb, _ | _, _ | _⟩ <;> rfl

@[simp] theorem releases_exitFails (r : Option ℕ) : releases (exitFails r) = false := by
  cases r <;> rfl

@[simp] theorem releases_wroteTo (r : ℕ) (deliver wrote : Bool) :
    releases (wroteTo S r deliver wrote) = false := by
  unfold wroteTo
  split <;> rfl

/-- **A slot is given back with a token**, and none without. -/
structure Frees (effs : List Effect) (c c' : Conn) : Prop where
  posts : releases effs = true → c'.backgroundStatFreed = true
  keeps : releases effs = false →
    c'.backgroundStatSem = c.backgroundStatSem ∧ c'.backgroundStatFreed = c.backgroundStatFreed

theorem Frees.fails {f : Failing} {f' : Option Failing} (h : Fails S c f c' f' effs) :
    Frees effs c c' := by
  cases h with
  | release e => constructor <;> simp +contextual [Conn.freeBackground_eq]
  | _ => constructor <;> simp [Conn.freeInflight]

theorem Frees.reads {a : ReaderAct} (h : Reads S env c a c' effs) : Frees effs c c' := by
  cases h with
  | retire hr hf => exact ⟨(Frees.fails hf).posts, (Frees.fails hf).keeps⟩
  | freePending hr => constructor <;> simp +contextual [Conn.freeBackground_eq]
  | _ => constructor <;> simp [Conn.freeInflight, Conn.freeBody_eq]

theorem posts_of_writes {a : WriterAct} (h : Writes S env c a c' effs)
    (hfreed : releases effs = true) : c'.backgroundStatFreed = true := by
  cases h with
  | abort hw hf => exact (Frees.fails hf).posts hfreed
  | closing hw hf => exact (Frees.fails hf).posts hfreed
  | writeErr e hw hu => simp_all [Conn.freeBackground_eq]
  | _ => simp at hfreed

theorem post_withhold (hposts : releases effs = true → c'.backgroundStatFreed = true)
    (hfreed : releases effs = true) : post (withhold c (c', effs)) = c' := by
  simp [post, withhold, hfreed, ← hposts hfreed]

theorem withhold_of_not (hfreed : releases effs = false) : withhold c (c', effs) = c' := by
  simp [withhold, hfreed]

/-- **A step of the connection** is a step here, with its token posted at
once. -/
theorem exec_of_step {a : ConnAct} (h : c.step S env a = some (c', effs)) :
    ∃ ls, exec (step S) { conn := c } (.act env a :: ls) = some { conn := c' } := by
  cases a with
  | writer a =>
    have hact : step S { conn := c } (.act env (.writer a)) =
        some { conn := withhold c (c', effs), writerOwes := releases effs } := by
      simp only [Conn.step] at h
      simp [step, h]
    have hposts := posts_of_writes (writerStep_writes h)
    cases hfreed : releases effs with
    | true =>
      refine ⟨[.postWriter], exec_cons.2 ⟨_, hact, ?_⟩⟩
      simp [exec, step, hfreed, post_withhold hposts hfreed]
    | false =>
      refine ⟨[], exec_cons.2 ⟨_, hact, ?_⟩⟩
      simp [exec, hfreed, withhold_of_not hfreed]
  | reader a =>
    have hact : step S { conn := c } (.act env (.reader a)) =
        some { conn := withhold c (c', effs), readerOwes := releases effs } := by
      simp only [Conn.step] at h
      simp [step, h]
    have hposts := (Frees.reads (readerStep_reads h)).posts
    cases hfreed : releases effs with
    | true =>
      refine ⟨[.postReader], exec_cons.2 ⟨_, hact, ?_⟩⟩
      simp [exec, step, hfreed, post_withhold hposts hfreed]
    | false =>
      refine ⟨[], exec_cons.2 ⟨_, hact, ?_⟩⟩
      simp [exec, hfreed, withhold_of_not hfreed]

/-! ## Who holds a slot -/

/-- Only an ordinary STAT holds a background slot. -/
def Honest (S : Setup) (c : Conn) : Prop :=
  ∀ e ∈ c.slips, e.heldBackgroundStat = true → S.isBackground e.req = true

theorem honest_of_slips (h : Honest S c)
    (hslips : ∀ e ∈ c'.slips, e.heldBackgroundStat = true →
      (∃ e₀ ∈ c.slips, e₀.heldBackgroundStat = true ∧ e₀.req = e.req) ∨
        S.isBackground e.req = true) : Honest S c' := by
  intro e he hheld
  rcases hslips e he hheld with ⟨e₀, he₀, hheld₀, heq⟩ | hback
  · exact heq ▸ h e₀ he₀ hheld₀
  · exact hback

/-- `failOutstanding` holds what was on the queue. -/
theorem fails_slips {f : Failing} {f' : Option Failing} (h : Fails S c f c' f' effs) :
    ∀ e ∈ c'.pending ++ f'.elim [] Failing.slips, e.heldBackgroundStat = true →
      e ∈ c.pending ++ f.slips := by
  cases h with
  | pop hp => simp +contextual [Failing.slips, hp, or_comm]
  | release e => simp +contextual [Failing.slips, Conn.freeBackground_eq, Entry.fade, or_imp]
  | fail e => simp +contextual [Failing.slips]
  | free => simp +contextual [Failing.slips, Conn.freeInflight]
  | _ => simp +contextual [Failing.slips]

/-- `Run` holds no slot of its own behind the step. -/
theorem honest_of_nil (h : Honest S c) (hw : c'.writer.slips c'.unsent = [])
    (hp : c'.pending = c.pending) (hr : c'.reader = c.reader) : Honest S c' := by
  intro e he
  rw [Conn.slips, hw, List.nil_append, hp, hr] at he
  exact h e (by rw [Conn.slips, List.append_assoc]; exact List.mem_append_right _ he)

theorem writes_honest {a : WriterAct} (h : Writes S env c a c' effs) (hs : Honest S c) :
    Honest S c' := by
  cases h
  case abort f f' d hw hf | closing f f' d hw hf =>
    have hslips := fails_slips hf
    have hreader := hf.frame.2.2.1
    refine honest_of_slips hs fun e he hheld => .inl ⟨e, ?_, hheld, rfl⟩
    cases f' <;> simp_all [Conn.slips, Writer.after, Writer.slips] <;> grind
  -- the request gets its flags, and keeps them until it is on the queue
  case bodyCheap | bodyGo | backgroundNot | backgroundGo | writePost | writeGo | flushPostGo |
      enqueuePost | enqueueGo | keepaliveGo =>
    refine honest_of_slips hs ?_
    simp_all [Conn.slips, Writer.slips]
    grind
  case backgroundFullFirst | backgroundFull =>
    exact honest_of_nil hs rfl (Conn.freeBody_pending _ _) (Conn.freeBody_reader _ _)
  case writeErr =>
    exact honest_of_nil hs rfl (Conn.freeBackground_pending _ _) (Conn.freeBackground_reader _ _)
  case drainGo hw _ => exact honest_of_nil hs (by rw [hw]; rfl) rfl rfl
  case' takeGo b _ _ => cases b
  case' postReady b _ _ => cases b
  case' keepaliveAnswer hto => rcases hto with rfl | rfl
  all_goals exact honest_of_nil hs rfl rfl rfl

/-- `readerLoop` holds what it held. -/
theorem honest_of_reader (h : Honest S c) (hw : c'.writer.slips c'.unsent = c.writer.slips c.unsent)
    (hp : c'.pending = c.pending) (hr : ∀ e ∈ c'.reader.slips, e ∈ c.reader.slips) :
    Honest S c' := by
  intro e he
  rw [Conn.slips, hw, hp] at he
  refine h e ?_
  rcases List.mem_append.mp he with he | he
  · exact List.mem_append_left _ he
  · exact List.mem_append_right _ (hr e he)

theorem reads_honest {a : ReaderAct} (h : Reads S env c a c' effs) (hs : Honest S c) :
    Honest S c' := by
  cases h
  case retire f f' d hr hf =>
    have hslips := fails_slips hf
    obtain ⟨-, hw, -, hu, -⟩ := hf.frame
    refine honest_of_slips hs fun e he hheld => .inl ⟨e, ?_, hheld, rfl⟩
    cases f' <;> simp_all [Conn.slips, Reader.after, Reader.slips] <;> grind
  case waitGo hr hp =>
    refine honest_of_slips hs fun e he hheld => .inl ⟨e, ?_, hheld, rfl⟩
    simp_all [Conn.slips, Reader.slips]
    grind
  -- its slots of the gauges are given back
  case freePending hr =>
    refine honest_of_slips hs ?_
    simp_all [Conn.slips, Reader.slips, Entry.fade, Conn.freeBackground_eq]
    grind
  case freeBody hr =>
    exact honest_of_reader hs (by simp [Conn.freeBody_eq]) (by simp [Conn.freeBody_eq])
      (List.forall_mem_nil _)
  case' decide hto => rcases hto with rfl | rfl
  case topConn | topGo | waitConn | decide.inl | decide.inr | returned =>
    exact honest_of_reader hs rfl rfl (List.forall_mem_nil _)
  all_goals
    refine honest_of_reader hs rfl rfl ?_
    rw [‹c.reader = _›]
    exact fun _ he => he

/-! ## The wait -/

/-- `Run` has seen the window full and is on its way into the wait, or
waits. -/
def Waits (w : Writer) : Prop := w = .take true ∨ w = .blocked

/-- **`Run` comes to the wait with the window full**, and nothing it does
on the way touches the slots or the token. -/
theorem writes_waits {a : WriterAct} (h : Writes S env c a c' effs) (hwaits : Waits c'.writer) :
    releases effs = false ∧ (c'.backgroundStatSem = S.limits.background ∨
      Waits c.writer ∧ c'.backgroundStatSem = c.backgroundStatSem ∧
        c'.backgroundStatFreed = c.backgroundStatFreed) := by
  cases h
  case look hw =>
    refine ⟨rfl, .inl ?_⟩
    have hblocked : c.blockedDeferredStat S = true := by simpa [Waits] using hwaits
    cases hd : c.deferredNormal with
    | none => simp [Conn.blockedDeferredStat, hd] at hblocked
    | some r =>
      simp [Conn.blockedDeferredStat, hd] at hblocked
      exact hblocked.2
  case takeGo b hw hp =>
    cases b with
    | true => exact ⟨rfl, .inr ⟨.inl hw, rfl, rfl⟩⟩
    | false => simp [Waits] at hwaits
  case abort f f' d hw hf | closing f f' d hw hf =>
    cases f' <;> simp [Waits, Writer.after] at hwaits
  case postReady b hw hp => cases b <;> simp [Waits] at hwaits
  case keepaliveAnswer hto => rcases hto with rfl | rfl <;> simp [Waits] at hwaits
  case drainGo hw hlt => simp [Waits, hw] at hwaits
  all_goals simp [Waits] at hwaits

/-- The bounds do not depend on the token. -/
theorem bounded_token (h : c.Bounded S) (token : Bool) :
    { c with backgroundStatFreed := token }.Bounded S :=
  ⟨h.tokens, h.inflight, h.bodies, h.body, h.backgrounds, h.background,
    ⟨h.flagged.keepalive, h.flagged.body, h.flagged.background, h.flagged.post⟩,
    ⟨h.sound.whole, h.sound.faded⟩⟩

theorem withhold_eq (c : Conn) (r : Conn × List Effect) :
    ∃ token, withhold c r = { r.1 with backgroundStatFreed := token } := by
  unfold withhold
  split
  · exact ⟨_, rfl⟩
  · exact ⟨_, rfl⟩

/-- **The invariant**: while `Run` waits with the window not full, there is
a token, or the reader owes one. -/
structure Kept (S : Setup) (s : State) : Prop where
  bounded : s.conn.Bounded S
  honest : Honest S s.conn
  woken : Waits s.conn.writer → s.conn.backgroundStatSem = S.limits.background ∨
    s.conn.backgroundStatFreed = true ∨ s.readerOwes = true

/-- A step of either goroutine keeps the bounds. -/
theorem withhold_bounded {a : ConnAct} (h : c.step S env a = some (c', effs)) (hc : c.Bounded S) :
    (withhold c (c', effs)).Bounded S := by
  obtain ⟨token, htoken⟩ := withhold_eq c (c', effs)
  rw [htoken]
  exact bounded_token (Conn.step_bounded h hc) token

theorem withhold_honest (h : Honest S c') : Honest S (withhold c (c', effs)) := by
  obtain ⟨token, htoken⟩ := withhold_eq c (c', effs)
  rw [htoken]
  exact h

theorem Kept.writer {a : WriterAct} (hs : Kept S s)
    (h : s.conn.writerStep S env a = some (c', effs)) :
    Kept S { s with conn := withhold s.conn (c', effs), writerOwes := releases effs } := by
  have hw := writerStep_writes h
  refine ⟨withhold_bounded (a := .writer a) h hs.bounded,
    withhold_honest (writes_honest hw hs.honest), fun hwaits => ?_⟩
  obtain ⟨token, htoken⟩ := withhold_eq s.conn (c', effs)
  have hwaits' : Waits c'.writer := by simpa [htoken] using hwaits
  obtain ⟨hfreed, hfull | ⟨hwaits₀, hsem, htoken₀⟩⟩ := writes_waits hw hwaits'
  · exact .inl (by simpa [withhold_of_not hfreed] using hfull)
  · have := hs.woken hwaits₀
    simpa [withhold_of_not hfreed, hsem, htoken₀] using this

theorem Kept.reader {a : ReaderAct} (hs : Kept S s)
    (h : s.conn.readerStep S env a = some (c', effs)) (howes : s.readerOwes = false) :
    Kept S { s with conn := withhold s.conn (c', effs), readerOwes := releases effs } := by
  have hr := readerStep_reads h
  refine ⟨withhold_bounded (a := .reader a) h hs.bounded,
    withhold_honest (reads_honest hr hs.honest), fun hwaits => ?_⟩
  cases hfreed : releases effs with
  | true => exact .inr (.inr rfl)
  | false =>
    -- nothing has changed for the one who waits
    obtain ⟨hsem, htoken⟩ := (Frees.reads hr).keeps hfreed
    obtain ⟨-, hwriter, -⟩ := hr.frame
    rw [withhold_of_not hfreed] at hwaits ⊢
    have := hs.woken (hwriter ▸ hwaits)
    simpa [hsem, htoken, howes] using this

theorem Kept.step (hs : Kept S s) (h : step S s l = some s') : Kept S s' := by
  cases l with
  | act env a =>
    cases a with
    | writer a =>
      simp only [Tokens.step] at h
      split_ifs at h
      obtain ⟨⟨c', effs⟩, hstep, rfl⟩ := Option.map_eq_some_iff.mp h
      exact hs.writer hstep
    | reader a =>
      simp only [Tokens.step] at h
      split_ifs at h with howes
      obtain ⟨⟨c', effs⟩, hstep, rfl⟩ := Option.map_eq_some_iff.mp h
      exact hs.reader hstep (by simpa using howes)
  | postWriter =>
    simp only [Tokens.step] at h
    split_ifs at h
    obtain rfl := Option.some.inj h
    exact ⟨bounded_token hs.bounded true, hs.honest, fun _ => .inr (.inl rfl)⟩
  | postReader =>
    simp only [Tokens.step] at h
    split_ifs at h
    obtain rfl := Option.some.inj h
    exact ⟨bounded_token hs.bounded true, hs.honest, fun _ => .inr (.inl rfl)⟩

theorem kept_run {i first : ℕ} {second : Option ℕ} {ls : List Label}
    (h : exec (step S) (start i first second) ls = some s) : Kept S s := by
  have hstart : Kept S (start i first second) :=
    ⟨newConn_bounded i first second, nofun, by simp [Waits, start, newConn]⟩
  exact exec_invariant (P := fun _ _ => True) (fun _ _ _ hs _ hstep => hs.step hstep) ls hstart
    (along_true _ _) h

/-- A slot that is taken is held by somebody. -/
theorem exists_holder (h : c.Bounded S) (hpos : 0 < c.backgroundStatSem) :
    ∃ e ∈ c.slips, e.heldBackgroundStat = true := by
  by_contra hnone
  have hzero : c.backgrounds = 0 := shares_eq_zero.2 fun e he => by
    have : e.heldBackgroundStat ≠ true := fun hheld => hnone ⟨e, he, hheld⟩
    simp [this]
  have hback := h.backgrounds
  omega

/-- **A deferred STAT is always woken.** Whatever the two goroutines of a
connection do and see: where `Run` waits behind a STAT that is blocked and
there is no token, the window is full, and some STAT without priority on
the queue or with the reader has yet to give its slot back; or the reader
has given one back and is about to post the token. No more slots are held
than the window has, whatever tokens are left over, and what is written
and neither answered nor failed holds one, but for a STAT that
`failOutstanding` is about to fail. -/
theorem deferredStat_woken (p : Provider) (S : Setup) (hlimits : S.limits = p.limits)
    (i first : ℕ) (second : Option ℕ) (ls : List Label) (s : State)
    (h : exec (step S) (start i first second) ls = some s) :
    (s.conn.writer = .blocked → s.conn.backgroundStatFreed = false →
      (s.conn.backgroundStatSem = S.limits.background ∧
        ∃ e ∈ s.conn.pending ++ s.conn.reader.slips,
          e.heldBackgroundStat = true ∧ S.isBackground e.req = true) ∨
      s.readerOwes = true) ∧
    s.conn.backgroundStatSem ≤ S.limits.background ∧
    s.conn.backgrounds = s.conn.backgroundStatSem ∧
    s.conn.outstanding.countP S.backgroundStat ≤ S.limits.background + s.conn.fading S := by
  have hkept := kept_run h
  refine ⟨fun hblocked hfreed => ?_, hkept.bounded.background, hkept.bounded.backgrounds, ?_⟩
  · rcases hkept.woken (.inr hblocked) with hfull | htoken | howes
    · have hwindow := p.one_le_backgroundLimit
      have hpos : 0 < s.conn.backgroundStatSem := by
        rw [hfull, hlimits]
        simp only [Provider.limits]
        omega
      obtain ⟨e, he, hheld⟩ := exists_holder hkept.bounded hpos
      refine .inl ⟨hfull, e, ?_, hheld, hkept.honest e he hheld⟩
      simpa [Conn.slips, hblocked, Writer.slips] using he
    · simp [hfreed] at htoken
    · exact .inr howes
  · have hcount := hkept.bounded.countP_backgroundStat_le
    have hlimit := hkept.bounded.background
    omega

/-- Nothing is done, and a STAT waits. -/
def calm : Env where
  done _ := none
  slotDone := none
  prioCh := []
  reqCh := [1]
  reply _ := none

/-- The second STAT waits for the slot of the first, which the reader has
just given back. -/
def between : List Label :=
  List.replicate 19 (.act calm (.writer .go)) ++
    [.act calm (.reader .go), .act calm (.reader .go), .act calm (.reader .go),
      .act calm (.reader .go), .act calm (.reader (.finish false { statusCode := 223 })),
      .act calm (.reader .go), .act calm (.reader .go), .act calm (.reader .go),
      .act calm (.reader .go)]

theorem deferredStat_woken_between :
    ∃ s, exec (step statPool) (start 0 0 none) between = some s ∧ s.conn.writer = .blocked ∧
      s.conn.backgroundStatFreed = false ∧ s.conn.backgroundStatSem = 0 ∧ s.readerOwes = true := by
  have hrun : (exec (step statPool) (start 0 0 none) between).map
      (fun s => (s.conn.writer, s.conn.backgroundStatFreed, s.conn.backgroundStatSem)) =
        some (.blocked, false, 0) := by
    decide
  obtain ⟨s, hs, heq⟩ := Option.map_eq_some_iff.mp hrun
  simp only [Prod.mk.injEq] at heq
  obtain ⟨hblocked, hfreed, hsem⟩ := heq
  have hwoken := deferredStat_woken statProvider statPool rfl 0 0 none between s hs
  refine ⟨s, hs, hblocked, hfreed, hsem, (hwoken.1 hblocked hfreed).resolve_left fun hfull => ?_⟩
  have hlimit : statPool.limits.background = 1 := by decide
  omega

end Tokens

end Pool

end NntpPool
