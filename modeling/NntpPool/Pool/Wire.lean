import NntpPool.Pool.Progress
import NntpPool.Pool.Model.Wire
/-!
# Pool — what goes over the wire

The reader takes the next request off `pending` and reads the next response
for it, so `Run` has to put requests there in the order their commands go
out, and has to have them out before it waits. Commands go through a
buffer, an article goes behind its command only, and a write may fail
anywhere. `Faithful` says what the socket has taken, what is in the buffer
and what is left of an article, together, are the commands in their order,
and where they stand on the queue.

The deadline of the socket goes through a cache, and the buffer is flushed
when `Run` is about to wait, not when it writes. `Timely` says that it is
still the deadline of the bytes that go. A keepalive has none of its own
and does not clear the last one: it is written under the deadline of a
caller who may be long gone.

`exec_connStep_iff` is the link to `Conn`: there are no more and no fewer
runs of the two goroutines here than there. `idle_disconnect_clean` is
about how such a run ends.
-/

namespace NntpPool

namespace Pool

section Queue

variable {S : Setup} {env : Env} {c c' : Conn} {effs : List Effect}

/-! ## The queue -/

/-- The reader takes from the front of the queue. -/
theorem Reads.pending_suffix {a : ReaderAct} (h : Reads S env c a c' effs) :
    c'.pending <:+ c.pending := by
  cases h
  case retire hr hf =>
    have := hf.pending_suffix
    exact this
  case waitGo hr hp => simp [hp]
  all_goals simp [Conn.freeInflight, Conn.freeBody_eq, Conn.freeBackground_eq]

/-- The request `Run` puts on the queue. -/
def Conn.enqueues (c : Conn) : WriterAct → List ℕ
  | .go =>
    match c.writer with
    | .enqueue _ _ => c.unsent.toList
    | .keepalive r => [r]
    | _ => []
  | _ => []

/-- `Run` puts requests at its end. -/
theorem Writes.pending_suffix {a : WriterAct} (h : Writes S env c a c' effs) :
    c'.pending.map Entry.req <:+ c.pending.map Entry.req ++ c.enqueues a := by
  cases h
  case abort hw hf | closing hw hf =>
    simpa [Conn.enqueues, hw] using hf.pending_suffix.map Entry.req
  all_goals
    have hw := ‹c.writer = _›
    simp_all [Conn.enqueues, Conn.freeInflight, Conn.freeBody_eq, Conn.freeBackground_eq]

end Queue

/-- `Run` waits for somebody else: for a slot, a request, an answer. -/
def Writer.waits : Writer → Bool
  | .firstSlot | .blocked | .wait | .body _ | .postWait | .keepaliveWait _ | .drain => true
  | _ => false

/-- `Run` is on its way out. -/
def Writer.isLeaving : Writer → Bool
  | .abort _ | .exitUnsent | .exitDeferred | .exitCancel | .closing _ | .dead => true
  | _ => false

namespace Wire

variable {S : Setup} {T : Texts} {env : Env} {c' : Conn} {effs : List Effect} {w w' : State}
variable {l : Label}

/-! ## What was written -/

/-- What the socket has taken. -/
def State.bytes (w : State) : Bytes := w.sent.flatMap Sent.bytes

/-- The text of a list of turns. -/
def script (S : Setup) (T : Texts) (turns : List Turn) : Bytes := turns.flatMap (Turn.text S T)

theorem script_append (S : Setup) (T : Texts) (ts us : List Turn) :
    script S T (ts ++ us) = script S T ts ++ script S T us := List.flatMap_append

theorem script_singleton (t : Turn) : script S T [t] = t.text S T := by simp [script]

/-- The command that is written and not on the queue. -/
def State.unqueued (w : State) : List ℕ :=
  match w.conn.writer with
  | .write _ _ => if w.said then w.conn.unsent.toList else []
  | .flushPost _ _ => w.conn.unsent.toList
  | .enqueue _ _ => w.conn.unsent.toList
  | .keepalive r => if w.said then [r] else []
  | _ => []

/-- Nothing of what `Run` has written is left in the buffer. -/
def State.clean (w : State) : Bool :=
  match w.conn.writer with
  | .top | .flushPost _ _ | .enqueue _ _ | .postCopy => false
  | .write _ _ | .keepalive _ => !w.said
  | x => !x.isLeaving

/-- `Run` is where it writes a command. -/
def State.saying (w : State) : Bool :=
  match w.conn.writer with
  | .write _ _ | .keepalive _ => true
  | _ => false

/-- `Run` has written the command of `unsent`. -/
def State.holds (w : State) : Bool :=
  match w.conn.writer with
  | .write _ _ => w.said
  | .flushPost _ _ | .enqueue _ _ => true
  | _ => false

section Emit

variable (w) (n : ℕ)

@[simp] theorem emit_conn : (w.emit n).conn = w.conn := rfl

@[simp] theorem emit_said : (w.emit n).said = w.said := rfl

@[simp] theorem emit_rest : (w.emit n).rest = w.rest := rfl

@[simp] theorem emit_turns : (w.emit n).turns = w.turns := rfl

@[simp] theorem emit_queued : (w.emit n).queued = w.queued := rfl

@[simp] theorem emit_buffered : (w.emit n).buffered = w.buffered.drop n := rfl

@[simp] theorem emit_bytes : (w.emit n).bytes = w.bytes ++ w.buffered.take n := by
  simp [State.emit, State.bytes]

@[simp] theorem flush_conn : w.flush.conn = w.conn := by
  unfold State.flush
  split <;> rfl

@[simp] theorem flush_said : w.flush.said = w.said := by
  unfold State.flush
  split <;> rfl

@[simp] theorem flush_rest : w.flush.rest = w.rest := by
  unfold State.flush
  split <;> rfl

@[simp] theorem flush_turns : w.flush.turns = w.turns := by
  unfold State.flush
  split <;> rfl

@[simp] theorem flush_queued : w.flush.queued = w.queued := by
  unfold State.flush
  split <;> rfl

@[simp] theorem flush_buffered : w.flush.buffered = [] := by
  unfold State.flush
  split <;> simp_all

@[simp] theorem flush_bytes : w.flush.bytes = w.bytes ++ w.buffered := by
  unfold State.flush
  split <;> simp_all

end Emit

/-! ## Steps -/

/-- **What one step can do.** -/
inductive Moves (S : Setup) (T : Texts) (w : State) : State → Prop
  | reader {env : Env} {a : ReaderAct} {c' : Conn} {effs : List Effect}
      (h : Reads S env w.conn a c' effs) : Moves S T w { w with conn := c' }
  | writer {env : Env} {a : WriterAct} {c' : Conn} {effs : List Effect}
      (h : Writes S env w.conn a c' effs) (hready : w.ready a = true) :
      Moves S T w { w.speak T a with conn := c' }
  | write {hb hg : Bool} {r : ℕ} (hsaid : w.said = false) (hw : w.conn.writer = .write hb hg)
      (hu : w.conn.unsent = some r) : Moves S T w ((w.setDeadline T r).say S r false)
  | probe {r : ℕ} (hsaid : w.said = false) (hw : w.conn.writer = .keepalive r) :
      Moves S T w (w.say S r true)
  | copy (n : ℕ) (hw : w.conn.writer = .postCopy) :
      Moves S T w { w with buffered := w.buffered ++ w.rest.take n, rest := w.rest.drop n }
  | flush : Moves S T w w.flush
  | emit {n : ℕ} (hpos : 0 < n) (hle : n ≤ w.buffered.length) : Moves S T w (w.emit n)

theorem step_moves (h : step S T w l = some w') : Moves S T w w' := by
  cases l with
  | act env a =>
    cases a with
    | reader a =>
      obtain ⟨⟨c', effs⟩, hs, rfl⟩ := Option.map_eq_some_iff.mp h
      exact .reader (readerStep_reads hs)
    | writer a =>
      simp only [step] at h
      split_ifs at h with hready
      obtain ⟨⟨c', effs⟩, hs, rfl⟩ := Option.map_eq_some_iff.mp h
      exact .writer (writerStep_writes hs) hready
  | write =>
    simp only [step] at h
    split_ifs at h with hsaid
    split at h <;> cases h
    · exact .write (by simpa using hsaid) (by assumption) (by assumption)
    · exact .probe (by simpa using hsaid) (by assumption)
  | copy n =>
    simp only [step] at h
    split_ifs at h with hw
    cases h
    exact .copy n hw
  | flush =>
    simp only [step] at h
    split_ifs at h
    cases h
    exact .flush
  | emit n =>
    simp only [step] at h
    split_ifs at h with hn
    cases h
    exact .emit hn.2.1 hn.2.2

/-! ## Order -/

/-- **What `Run` writes is what it says it writes.** -/
structure Faithful (S : Setup) (T : Texts) (w : State) : Prop where
  text : w.bytes ++ w.buffered ++ w.rest = script S T w.turns
  /-- Only the last turn may not be out. -/
  front : script S T w.turns.dropLast <+: w.bytes
  clean : w.clean = true → w.buffered = []
  rest : w.conn.writer.isLeaving = false → w.conn.writer ≠ .postCopy → w.rest = []
  said : w.conn.writer.isLeaving = false → w.said = true → w.saying = true
  order : ∃ lost, w.turns.map Turn.req = w.queued ++ lost ∧ lost.length ≤ 1 ∧
    (w.conn.writer.isLeaving = false → lost = w.unqueued)
  queue : w.conn.pending.map Entry.req <:+ w.queued
  last : w.holds = true → ∃ ts r, w.turns = ts ++ [⟨r, false, false⟩] ∧ w.conn.unsent = some r
  posted : w.conn.writer = .postWait →
    ∃ ts r, w.turns = ts ++ [⟨r, false, false⟩] ∧ (S.info r).postMode = true
  post : ∀ hb hg r, w.conn.writer = .enqueue hb hg → w.conn.unsent = some r →
    (S.info r).postMode = true → w.buffered = []
  articles : ∀ t ∈ w.turns, t.article = true → (S.info t.req).postMode = true

theorem follow_eq {ts : List Turn} {t : Turn} (h : w.turns = ts ++ [t]) :
    w.follow T =
      { w with turns := ts ++ [{ t with article := true }], rest := T.article t.req } := by
  simp [State.follow, h]

@[simp] theorem follow_said (w : State) (T : Texts) : (w.follow T).said = w.said := by
  unfold State.follow
  split <;> rfl

@[simp] theorem follow_queued (w : State) (T : Texts) : (w.follow T).queued = w.queued := by
  unfold State.follow
  split <;> rfl

theorem follow_reqs (w : State) (T : Texts) :
    (w.follow T).turns.map Turn.req = w.turns.map Turn.req := by
  rcases w.turns.eq_nil_or_concat with hnil | ⟨ts, t, hts⟩
  · simp [State.follow, hnil]
  · rw [List.concat_eq_append] at hts
    simp [follow_eq hts, hts]

/-- A step of the connection writes nothing new but the article. -/
theorem speak_eq (w : State) (T : Texts) (a : WriterAct) :
    (w.speak T a).bytes ++ (w.speak T a).buffered = w.bytes ++ w.buffered ∧
      w.bytes <+: (w.speak T a).bytes ∧
      ((w.speak T a).turns = w.turns ∧ (w.speak T a).rest = w.rest ∨
        w.conn.writer = .postWait ∧ w.speak T a = w.follow T) := by
  unfold State.speak
  split
  case h_1 | h_3 => simp
  case h_5 hw =>
    split
    · refine ⟨?_, ?_, .inr ⟨hw, rfl⟩⟩
      · unfold State.follow
        split <;> rfl
      · unfold State.follow
        split <;> exact List.prefix_refl _
    · exact ⟨rfl, List.prefix_refl _, .inl ⟨rfl, rfl⟩⟩
  case h_6 =>
    have hbytes := flush_bytes w
    simp only [State.bytes] at hbytes
    simp [State.bytes, hbytes]
  all_goals exact ⟨rfl, List.prefix_refl _, .inl ⟨rfl, rfl⟩⟩

theorem speak_reqs (w : State) (T : Texts) (a : WriterAct) :
    (w.speak T a).turns.map Turn.req = w.turns.map Turn.req := by
  obtain ⟨-, -, ⟨hturns, -⟩ | ⟨-, hfollow⟩⟩ := speak_eq w T a
  · rw [hturns]
  · rw [hfollow, follow_reqs]

theorem speak_queued (w : State) (T : Texts) (a : WriterAct) :
    (w.speak T a).queued = w.queued ++ w.conn.enqueues a := by
  cases a with
  | go =>
    cases hw : w.conn.writer with
    | postWait =>
      simp only [State.speak, hw, Conn.enqueues, List.append_nil]
      split
      · exact follow_queued w T
      · rfl
    | _ => simp [State.speak, Conn.enqueues, hw]
  | _ => simp [State.speak, Conn.enqueues]

theorem Faithful.speak_text (h : Faithful S T w) (a : WriterAct) :
    (w.speak T a).bytes ++ (w.speak T a).buffered ++ (w.speak T a).rest =
      script S T (w.speak T a).turns ∧
    script S T (w.speak T a).turns.dropLast <+: (w.speak T a).bytes := by
  obtain ⟨hbytes, hprefix, ⟨hturns, hrest⟩ | ⟨hw, hfollow⟩⟩ := speak_eq w T a
  · rw [hbytes, hturns, hrest]
    exact ⟨h.text, h.front.trans hprefix⟩
  · -- the article follows its command, which is out
    obtain ⟨ts, r, hturns, -⟩ := h.posted hw
    have hrest := h.rest (by rw [hw]; rfl) (by simp [hw])
    have htext := h.text
    have hfront := h.front
    rw [hturns, hrest, List.append_nil, script_append, script_singleton] at htext
    rw [hturns, List.dropLast_concat] at hfront
    rw [hbytes, hfollow, follow_eq hturns, List.dropLast_concat]
    refine ⟨?_, hfront⟩
    rw [htext, script_append, script_singleton]
    simp [Turn.text]

variable {a : WriterAct}

/-- **Where `Run` waits, its buffer is empty.** -/
theorem Faithful.speak_clean (h : Faithful S T w) (hw : Writes S env w.conn a c' effs)
    (hready : w.ready a = true)
    (hclean : ({ w.speak T a with conn := c' } : State).clean = true) :
    (w.speak T a).buffered = [] := by
  have hold := h.clean
  cases hw
  case abort f f' d hw hf | closing f f' d hw hf => cases f' <;> cases hclean
  case enqueuePost r hb hg hw hu hlt hp =>
    have := h.post hb hg r hw hu hp
    simpa [State.speak, hw]
  case' takeGo b _ _ | postReady b _ _ => cases b
  case' keepaliveAnswer hto => rcases hto with rfl | rfl
  all_goals
    have hw := ‹w.conn.writer = _›
    first
      | cases hclean; done
      | simp_all [State.clean, State.speak, State.ready, Writer.isLeaving]

theorem Faithful.speak_stay (h : Faithful S T w) (hw : Writes S env w.conn a c' effs)
    (hready : w.ready a = true) (hstay : c'.writer.isLeaving = false) :
    (c'.writer ≠ .postCopy → (w.speak T a).rest = []) ∧
      ((w.speak T a).said = true → ({ w.speak T a with conn := c' } : State).saying = true) := by
  have hrest := h.rest
  have hsaid := h.said
  cases hw
  case abort f f' d hw hf | closing f f' d hw hf => cases f' <;> cases hstay
  case' takeGo b _ _ | postReady b _ _ => cases b
  case' keepaliveAnswer hto => rcases hto with rfl | rfl
  all_goals
    have hw := ‹w.conn.writer = _›
    first
      | cases hstay; done
      | simp_all [State.saying, State.speak, State.ready, Writer.isLeaving]

theorem Faithful.speak_order (h : Faithful S T w) (hw : Writes S env w.conn a c' effs)
    (hready : w.ready a = true) :
    ∃ lost, (w.speak T a).turns.map Turn.req = (w.speak T a).queued ++ lost ∧ lost.length ≤ 1 ∧
      (c'.writer.isLeaving = false →
        lost = ({ w.speak T a with conn := c' } : State).unqueued) := by
  obtain ⟨lost, hturns, hlen, hlost⟩ := h.order
  rw [speak_reqs, speak_queued, hturns]
  -- what is put on the queue is the command that was not on it
  cases hw
  case abort f f' d hw hf | closing f f' d hw hf =>
    exact ⟨lost, by simp [Conn.enqueues, hw], hlen, fun hstay => by cases f' <;> cases hstay⟩
  case' takeGo b _ _ | postReady b _ _ => cases b
  case' keepaliveAnswer hto => rcases hto with rfl | rfl
  case enqueuePost r hb hg hw hu hlt hp | enqueueGo r hb hg hw hu hlt hp =>
    have hr := hlost (by rw [hw]; rfl)
    exact ⟨[], by simp [hr, State.unqueued, Conn.enqueues, hw], by simp, fun _ => rfl⟩
  case keepaliveGo r hw hlt =>
    have hr := hlost (by rw [hw]; rfl)
    have hsaid : w.said = true := by simpa [State.ready, hw] using hready
    exact ⟨[], by simp [hr, State.unqueued, Conn.enqueues, hw, hsaid], by simp, fun _ => rfl⟩
  all_goals
    have hw := ‹w.conn.writer = _›
    refine ⟨lost, by simp [Conn.enqueues, hw], hlen, fun hstay => ?_⟩
    first
      | cases hstay; done
      | have hr := hlost (by rw [hw]; rfl)
        have hsaid := h.said (by rw [hw]; rfl)
        simp_all [State.unqueued, State.speak, State.ready, State.saying]

theorem Faithful.speak_last (h : Faithful S T w) (hw : Writes S env w.conn a c' effs)
    (hready : w.ready a = true) (hholds : ({ w.speak T a with conn := c' } : State).holds = true) :
    ∃ ts r, (w.speak T a).turns = ts ++ [⟨r, false, false⟩] ∧ c'.unsent = some r := by
  have hold := h.last
  cases hw
  case abort f f' d hw hf | closing f f' d hw hf => cases f' <;> cases hholds
  case' takeGo b _ _ | postReady b _ _ => cases b
  case' keepaliveAnswer hto => rcases hto with rfl | rfl
  all_goals
    have hw := ‹w.conn.writer = _›
    first
      | cases hholds; done
      | have hsaid := h.said (by rw [hw]; rfl)
        simp_all [State.holds, State.speak, State.ready, State.saying]

theorem Faithful.speak_posted (h : Faithful S T w) (hw : Writes S env w.conn a c' effs)
    (hpost : c'.writer = .postWait) :
    ∃ ts r, (w.speak T a).turns = ts ++ [⟨r, false, false⟩] ∧ (S.info r).postMode = true := by
  obtain ⟨rfl, hb, hg, r, hw, hu, hp, -⟩ := hw.post hpost
  obtain ⟨ts, r', hturns, hr⟩ := h.last (by simp [State.holds, hw])
  obtain rfl : r = r' := by simpa [hu] using hr
  exact ⟨ts, r, by simpa [State.speak, hw] using hturns, hp⟩

theorem Faithful.speak_post (hw : Writes S env w.conn a c' effs) {hb hg : Bool} {r : ℕ}
    (hqueue : c'.writer = .enqueue hb hg) (hu : c'.unsent = some r)
    (hp : (S.info r).postMode = true) : (w.speak T a).buffered = [] := by
  cases hw
  case abort f f' d hw hf | closing f f' d hw hf => cases f' <;> cases hqueue
  case flushPostGo hw _ => simp [State.speak, hw]
  case writeGo hw hu' hp' => simp_all
  case takeGo b _ _ | postReady b _ _ => cases b <;> cases hqueue
  case keepaliveAnswer hto => rcases hto with rfl | rfl <;> cases hqueue
  case drainGo hw _ => cases hw.symm.trans hqueue
  all_goals cases hqueue

theorem Faithful.speak_articles (h : Faithful S T w) (a : WriterAct) :
    ∀ t ∈ (w.speak T a).turns, t.article = true → (S.info t.req).postMode = true := by
  obtain ⟨-, -, ⟨hturns, -⟩ | ⟨hw, hfollow⟩⟩ := speak_eq w T a
  · rw [hturns]
    exact h.articles
  · obtain ⟨ts, r, hturns, hp⟩ := h.posted hw
    have harticles := h.articles
    rw [hturns] at harticles
    rw [hfollow, follow_eq hturns]
    intro t ht ha
    rcases List.mem_append.mp ht with ht | ht
    · exact harticles t (List.mem_append_left _ ht) ha
    · obtain rfl := List.mem_singleton.mp ht
      exact hp

/-- **A step of `Run` within the connection keeps it.** -/
theorem Faithful.writer (h : Faithful S T w) (hw : Writes S env w.conn a c' effs)
    (hready : w.ready a = true) : Faithful S T { w.speak T a with conn := c' } where
  text := (h.speak_text a).1
  front := (h.speak_text a).2
  clean := h.speak_clean hw hready
  rest hstay := (h.speak_stay hw hready hstay).1
  said hstay := (h.speak_stay hw hready hstay).2
  order := h.speak_order hw hready
  queue := by
    have hq : (w.speak T a).queued = w.queued ++ w.conn.enqueues a := speak_queued w T a
    simp only [hq]
    exact hw.pending_suffix.trans ((List.suffix_append_self_iff).mpr h.queue)
  last := h.speak_last hw hready
  posted := h.speak_posted hw
  post _ _ _ := Faithful.speak_post hw
  articles := h.speak_articles a

theorem Faithful.reader {a : ReaderAct} (h : Faithful S T w) (hr : Reads S env w.conn a c' effs) :
    Faithful S T { w with conn := c' } := by
  obtain ⟨-, hw, hu, -⟩ := hr.frame
  refine ⟨h.text, h.front, fun hc => h.clean ?_, ?_, ?_, ?_, ?_, ?_, ?_, ?_, h.articles⟩
  · simpa [State.clean, hw] using hc
  · simpa [hw] using h.rest
  · simpa [hw, State.saying] using h.said
  · simpa [hw, hu, State.unqueued] using h.order
  · exact (hr.pending_suffix.map Entry.req).trans h.queue
  · simpa [State.holds, hw, hu] using h.last
  · simpa [hw] using h.posted
  · simpa [hw, hu] using h.post

theorem Faithful.emit (h : Faithful S T w) (n : ℕ) : Faithful S T (w.emit n) :=
  { h with
    text := by simpa using h.text
    front := h.front.trans (by simp)
    clean := fun hc => by simp [h.clean hc]
    post := fun hb hg r hw hu hp => by simp [h.post hb hg r hw hu hp] }

theorem Faithful.flush (h : Faithful S T w) : Faithful S T w.flush := by
  unfold State.flush
  split
  · exact h
  · exact h.emit _

theorem Faithful.setDeadline (h : Faithful S T w) (r : ℕ) : Faithful S T (w.setDeadline T r) := by
  unfold State.setDeadline State.setWriteDeadline
  split
  · exact h
  · exact { h with }

theorem Faithful.copy (h : Faithful S T w) (hw : w.conn.writer = .postCopy) (n : ℕ) :
    Faithful S T { w with buffered := w.buffered ++ w.rest.take n, rest := w.rest.drop n } :=
  { h with
    text := by simpa [State.bytes] using h.text
    clean := fun hc => by simp [State.clean, hw] at hc
    rest := fun _ hne => absurd hw hne
    post := fun hb hg r hq => by simp [hw] at hq }

/-- The next command is written when everything before it is out. -/
theorem Faithful.say (h : Faithful S T w) {r : ℕ} {probe : Bool} (hsaid : w.said = false)
    (hw : (∃ hb hg, w.conn.writer = .write hb hg) ∧ w.conn.unsent = some r ∧ probe = false ∨
      w.conn.writer = .keepalive r) : Faithful S T (w.say S r probe) := by
  have hfacts : w.saying = true ∧ w.clean = true ∧ w.conn.writer.isLeaving = false ∧
      w.conn.writer ≠ .postCopy ∧ w.unqueued = [] ∧ w.conn.writer ≠ .postWait ∧
      (∀ hb hg, w.conn.writer ≠ .enqueue hb hg) ∧ (w.say S r probe).clean = false ∧
      (w.say S r probe).unqueued = [r] := by
    rcases hw with ⟨⟨hb, hg, hw⟩, hu, -⟩ | hw <;>
      simp [State.saying, State.clean, State.unqueued, State.say, Writer.isLeaving, *]
  obtain ⟨hsaying, hclean, hstay, hcopy, hnil, hwait, hqueue, hdirty, hone⟩ := hfacts
  have hbuf := h.clean hclean
  have hrest := h.rest hstay hcopy
  have htext := h.text
  rw [hbuf, hrest, List.append_nil, List.append_nil] at htext
  refine ⟨?_, ?_, fun hc => by simp [hdirty] at hc, h.rest, fun _ _ => hsaying, ?_, h.queue,
    fun hholds => ?_, fun hp => absurd hp hwait, fun hb hg _ hq => absurd hq (hqueue hb hg), ?_⟩
  · change w.bytes ++ (w.buffered ++ (S.info r).payload) ++ w.rest = _
    simp [State.say, script_append, script_singleton, hbuf, hrest, htext, Turn.text]
  · change script S T (w.turns ++ [Turn.mk r probe false]).dropLast <+: w.bytes
    rw [List.dropLast_concat, htext]
  · obtain ⟨lost, hturns, -, hlost⟩ := h.order
    exact ⟨[r], by simp [State.say, hturns, hlost hstay, hnil], Nat.le_refl _, fun _ => hone.symm⟩
  · rcases hw with ⟨⟨hb, hg, hw⟩, hu, rfl⟩ | hw
    · exact ⟨w.turns, r, rfl, hu⟩
    · simp [State.say, State.holds, hw] at hholds
  · intro t ht ha
    rcases List.mem_append.mp ht with ht | ht
    · exact h.articles t ht ha
    · obtain rfl := List.mem_singleton.mp ht
      cases ha

theorem setDeadline_eq (w : State) (T : Texts) (r : ℕ) :
    (w.setDeadline T r).conn = w.conn ∧ (w.setDeadline T r).said = w.said ∧
      (w.setDeadline T r).sent = w.sent ∧ (w.setDeadline T r).turns = w.turns := by
  unfold State.setDeadline State.setWriteDeadline
  split <;> exact ⟨rfl, rfl, rfl, rfl⟩

theorem Faithful.step (h : Faithful S T w) (hs : Moves S T w w') : Faithful S T w' := by
  cases hs with
  | reader hr => exact h.reader hr
  | writer hw hready => exact h.writer hw hready
  | @write hb hg r hsaid hw hu =>
    obtain ⟨hconn, hsaid', -⟩ := setDeadline_eq w T r
    refine (h.setDeadline r).say (hsaid'.trans hsaid) (.inl ⟨⟨hb, hg, ?_⟩, ?_, rfl⟩)
    · rw [hconn, hw]
    · rw [hconn, hu]
  | probe hsaid hw => exact h.say hsaid (.inr hw)
  | copy n hw => exact h.copy hw n
  | flush => exact h.flush
  | emit => exact h.emit _

theorem Faithful.start (S : Setup) (T : Texts) (i first : ℕ) (second : Option ℕ) :
    Faithful S T (Wire.start i first second) where
  text := rfl
  front := List.nil_prefix
  clean _ := rfl
  rest _ _ := rfl
  said _ h := by cases h
  order := ⟨[], rfl, Nat.zero_le _, fun _ => rfl⟩
  queue := List.suffix_refl _
  last h := by cases h
  posted h := by cases h
  post _ _ _ h := by cases h
  articles t ht := by cases ht

theorem Faithful.run {i first : ℕ} {second : Option ℕ} {ls : List Label}
    (h : exec (Wire.step S T) (Wire.start i first second) ls = some w) : Faithful S T w :=
  exec_invariant (P := fun _ _ => True) (fun _ _ _ hw _ hs => hw.step (step_moves hs)) ls
    (Faithful.start S T i first second) (along_true _ _) h

/-- **Commands go out in the order of the queue.** Whatever the goroutines
of a connection do, what the socket has taken is the beginning of the
commands in the order they were written, where an article follows its own
command and only that of a POST. The requests that were put on the queue
are the same in the same order, but for the last one that may be on its
way or has failed, and what is still on the queue are the last of them.
Where `Run` waits for somebody else, everything it has written is out, and
on the queue. -/
theorem commands_in_order (S : Setup) (T : Texts) (i first : ℕ) (second : Option ℕ)
    (ls : List Label) (w : State) (h : exec (step S T) (start i first second) ls = some w) :
    w.bytes <+: script S T w.turns ∧
    (∀ t ∈ w.turns, t.article = true → (S.info t.req).postMode = true) ∧
    w.queued <+: w.turns.map Turn.req ∧ w.turns.length ≤ w.queued.length + 1 ∧
    w.conn.pending.map Entry.req <:+ w.queued ∧
    (w.conn.writer.waits = true →
      w.bytes = script S T w.turns ∧ w.queued = w.turns.map Turn.req) := by
  have hf := Faithful.run h
  obtain ⟨lost, hturns, hlen, hlost⟩ := hf.order
  have hlength : w.turns.length = w.queued.length + lost.length := by
    simpa using congrArg List.length hturns
  refine ⟨?_, hf.articles, hturns ▸ List.prefix_append _ _, by omega, hf.queue, fun hwaits => ?_⟩
  · rw [← hf.text, List.append_assoc]
    exact List.prefix_append _ _
  · have hclean : w.clean = true ∧ w.conn.writer.isLeaving = false ∧
        w.conn.writer ≠ .postCopy ∧ w.unqueued = [] := by
      revert hwaits
      cases hw : w.conn.writer <;> simp [Writer.waits, State.clean, State.unqueued,
        Writer.isLeaving, hw]
    obtain ⟨hclean, hstay, hcopy, hnil⟩ := hclean
    have htext := hf.text
    rw [hf.clean hclean, hf.rest hstay hcopy, List.append_nil, List.append_nil] at htext
    refine ⟨htext, ?_⟩
    rw [hturns, hlost hstay, hnil, List.append_nil]

/-- A keepalive has no writer. -/
theorem probe_writer {keepalive : Bool} : keepalive = true → false = false :=
  fun _ => rfl

/-- A provider whose second request is a keepalive. -/
def probePool : Setup where
  connections := 1
  limits := Provider.limits { connections := 1, statInflight := 2 }
  providerName := "p"
  keepaliveCode := 111
  info r :=
    if r = 1 then
      { payload := ascii "DATE" ++ crlf, keepalive := true, post_payload := Request.any_writer
        keepalive_writer := probe_writer }
    else
      { payload := ascii "STAT <c@d>" ++ crlf, post_payload := Request.any_writer
        keepalive_writer := Request.any_writer }

/-- Only the first request has a deadline. -/
def probeTexts : Texts where
  deadline r := if r = 0 then some 5 else none
  article _ := []

/-- Nothing is done, and no request waits. -/
def quiet : Env where
  done _ := none
  slotDone := none
  prioCh := []
  reqCh := []
  reply _ := none

/-- The first request is written, and some time behind it a keepalive. -/
def probed : List Label :=
  List.replicate 4 (.act quiet (.writer .go)) ++ [.write, .emit 3] ++
    List.replicate 2 (.act quiet (.writer .go)) ++ [.flush] ++
    List.replicate 5 (.act quiet (.writer .go)) ++
    [.act quiet (.writer (.keepalive 1)), .write, .act quiet (.writer .go)]

theorem commands_in_order_probed :
    ∃ w, exec (step probePool probeTexts) (start 0 0 none) probed = some w ∧
      w.conn.writer = .keepaliveWait 1 ∧ w.conn.pending.map Entry.req = [0, 1] ∧
      w.bytes = script probePool probeTexts w.turns ∧ w.queued = w.turns.map Turn.req := by
  have hrun : (exec (step probePool probeTexts) (start 0 0 none) probed).map
      (fun w => (w.conn.writer, w.conn.pending.map Entry.req)) =
        some (.keepaliveWait 1, [0, 1]) := by
    decide
  obtain ⟨w, hw, hp⟩ := Option.map_eq_some_iff.mp hrun
  obtain ⟨hwriter, hpending⟩ := Prod.mk.inj hp
  have hord := commands_in_order probePool probeTexts 0 0 none probed w hw
  obtain ⟨hbytes, hqueued⟩ := hord.2.2.2.2.2 (by rw [hwriter]; rfl)
  exact ⟨w, hw, hwriter, hpending, hbytes, hqueued⟩

/-! ## Deadlines -/

/-- The deadline of the last request in a list of turns; a keepalive does
not set one. -/
def inForce (T : Texts) (turns : List Turn) : Option ℤ :=
  ((turns.filter fun t => !t.probe).getLast?).bind fun t => T.deadline t.req

theorem inForce_request (ts : List Turn) (r : ℕ) (article : Bool) :
    inForce T (ts ++ [⟨r, false, article⟩]) = T.deadline r := by
  simp [inForce]

theorem inForce_probe (ts : List Turn) (r : ℕ) (article : Bool) :
    inForce T (ts ++ [⟨r, true, article⟩]) = inForce T ts := by
  simp [inForce]

/-- **What went to the socket is part of one turn**, behind what went
before, and went under the deadline that the turns up to it leave. -/
def Within (S : Setup) (T : Texts) (turns : List Turn) (before : List Sent) (x : Sent) : Prop :=
  ∃ (ts : List Turn) (t : Turn) (us : List Turn) (u v : Bytes), turns = ts ++ t :: us ∧
    t.text S T = u ++ x.bytes ++ v ∧ before.flatMap Sent.bytes = script S T ts ++ u ∧
    x.turn = ts.length + 1 ∧ x.deadline = inForce T (ts ++ [t])

structure Timely (S : Setup) (T : Texts) (w : State) : Prop where
  cache : w.writeDLSet = true →
    w.socketDL = if w.lastWriteHasDL then some w.lastWriteDL else none
  unset : w.writeDLSet = false → w.socketDL = none
  current : w.socketDL = inForce T w.turns
  sent : ∀ pre x post, w.sent = pre ++ x :: post → Within S T w.turns pre x

/-- **The cache does not hide a change**: the deadline is set behind it. -/
theorem Timely.setDeadline (h : Timely S T w) (r : ℕ) :
    (w.setDeadline T r).socketDL = T.deadline r ∧
      ((w.setDeadline T r).writeDLSet = true ∧ (w.setDeadline T r).socketDL =
        if (w.setDeadline T r).lastWriteHasDL then some (w.setDeadline T r).lastWriteDL
        else none) := by
  unfold State.setDeadline State.setWriteDeadline
  split
  · next hsame =>
    simp only [Bool.and_eq_true, beq_iff_eq, Bool.or_eq_true, Bool.not_eq_true'] at hsame
    obtain ⟨⟨hset, hhas⟩, hdl⟩ := hsame
    have hcache := h.cache hset
    refine ⟨?_, hset, hcache⟩
    rw [hcache, hhas]
    cases hr : T.deadline r with
    | none => simp
    | some t =>
      have : t = w.lastWriteDL := by simpa [hr] using hdl
      simp [this]
  · cases hr : T.deadline r <;> simp

theorem Within.append {turns : List Turn} {pre : List Sent} {x : Sent}
    (h : Within S T turns pre x) (t : Turn) : Within S T (turns ++ [t]) pre x := by
  obtain ⟨ts, t', us, u, v, rfl, htext, hpre, hturn, hdl⟩ := h
  exact ⟨ts, t', us ++ [t], u, v, by simp, htext, hpre, hturn, hdl⟩

/-- The article makes the last turn longer. -/
theorem Within.follow {ts : List Turn} {r : ℕ} {pre : List Sent} {x : Sent}
    (h : Within S T (ts ++ [⟨r, false, false⟩]) pre x) :
    Within S T (ts ++ [⟨r, false, true⟩]) pre x := by
  obtain ⟨ts', t, us, u, v, heq, htext, hpre, hturn, hdl⟩ := h
  rcases us.eq_nil_or_concat with rfl | ⟨us, t', rfl⟩
  · obtain ⟨rfl, ht⟩ := List.append_inj' heq rfl
    obtain rfl := List.singleton_inj.mp ht
    refine ⟨ts, _, [], u, v ++ T.article r, rfl, ?_, hpre, hturn, ?_⟩
    · have hpayload : (S.info r).payload = u ++ x.bytes ++ v := by simpa [Turn.text] using htext
      simp [Turn.text, hpayload]
    · rw [hdl, inForce_request, inForce_request]
  · rw [List.concat_eq_append, ← List.cons_append, ← List.append_assoc] at heq
    obtain ⟨rfl, -⟩ := List.append_inj' heq rfl
    exact ⟨ts', t, us ++ [⟨r, false, true⟩], u, v, by simp, htext, hpre, hturn, hdl⟩

/-- What goes to the socket is of the last turn. -/
theorem Timely.emit (h : Timely S T w) (hf : Faithful S T w) {n : ℕ} (hpos : 0 < n)
    (hle : n ≤ w.buffered.length) : Timely S T (w.emit n) := by
  refine ⟨h.cache, h.unset, h.current, fun pre x post hsplit => ?_⟩
  change w.sent ++ [_] = _ at hsplit
  rcases post.eq_nil_or_concat with rfl | ⟨post, y, rfl⟩
  · obtain ⟨rfl, hx⟩ := List.append_inj' hsplit rfl
    obtain rfl := List.singleton_inj.mp hx
    have htext := hf.text
    rcases w.turns.eq_nil_or_concat with hnil | ⟨ts, t, hts⟩
    · -- there is nothing to send before the first turn
      simp only [hnil, script, List.flatMap_nil, List.append_eq_nil_iff] at htext
      simp [htext.1.2] at hle
      omega
    · rw [List.concat_eq_append] at hts
      obtain ⟨u, hu⟩ := hf.front
      rw [hts, List.dropLast_concat] at hu
      rw [hts, script_append, script_singleton, ← hu, List.append_assoc, List.append_assoc,
        List.append_cancel_left_eq] at htext
      refine ⟨ts, t, [], u, w.buffered.drop n ++ w.rest, hts, ?_, hu.symm, by simp [hts], ?_⟩
      · rw [← htext, List.append_assoc, ← List.append_assoc (List.take n w.buffered),
          List.take_append_drop]
      · rw [← hts]
        exact h.current
  · rw [List.concat_eq_append, ← List.cons_append, ← List.append_assoc] at hsplit
    obtain ⟨hsent, -⟩ := List.append_inj' hsplit rfl
    exact h.sent pre x post hsent

theorem Timely.flush (h : Timely S T w) (hf : Faithful S T w) : Timely S T w.flush := by
  unfold State.flush
  split
  · exact h
  · next hne => exact h.emit hf (List.length_pos_of_ne_nil hne) (Nat.le_refl _)

theorem Timely.follow (h : Timely S T w) (hf : Faithful S T w) (hw : w.conn.writer = .postWait) :
    Timely S T (w.follow T) := by
  obtain ⟨ts, r, hturns, -⟩ := hf.posted hw
  rw [follow_eq hturns]
  refine ⟨h.cache, h.unset, ?_, fun pre x post hsplit => ?_⟩
  · rw [inForce_request, h.current, hturns, inForce_request]
  · exact (hturns ▸ h.sent pre x post hsplit).follow

theorem Timely.speak (h : Timely S T w) (hf : Faithful S T w) (a : WriterAct) :
    Timely S T (w.speak T a) := by
  unfold State.speak
  split
  case h_1 | h_3 => exact h.flush hf
  case h_5 hw =>
    split
    · exact h.follow hf hw
    · exact h
  case h_6 => exact { h.flush hf with }
  all_goals exact { h with }

theorem Timely.write (h : Timely S T w) (r : ℕ) :
    Timely S T ((w.setDeadline T r).say S r false) := by
  obtain ⟨hsocket, hset, hcache⟩ := h.setDeadline r
  obtain ⟨-, -, hsent, hturns⟩ := setDeadline_eq w T r
  refine ⟨fun _ => hcache, fun hunset => ?_, ?_, fun pre x post hsplit => ?_⟩
  · change (w.setDeadline T r).writeDLSet = false at hunset
    simp [hset] at hunset
  · change (w.setDeadline T r).socketDL = inForce T ((w.setDeadline T r).turns ++ [_])
    rw [hsocket, inForce_request]
  · change Within S T ((w.setDeadline T r).turns ++ [_]) pre x
    rw [hturns]
    exact (h.sent pre x post (hsent ▸ hsplit)).append _

theorem Timely.step (h : Timely S T w) (hf : Faithful S T w) (hs : Moves S T w w') :
    Timely S T w' := by
  cases hs with
  | reader hr => exact { h with }
  | @writer _ a _ _ hw hready => exact { h.speak hf a with }
  | @write _ _ r => exact h.write r
  | probe =>
    refine ⟨h.cache, h.unset, ?_, fun pre x post hsplit => (h.sent pre x post hsplit).append _⟩
    exact h.current.trans (inForce_probe _ _ _).symm
  | copy => exact { h with }
  | flush => exact h.flush hf
  | emit hpos hle => exact h.emit hf hpos hle

/-- **Every byte goes out under the deadline of its own request**, for all
that the deadline is set through a cache and the bytes go through a
buffer; but a keepalive goes under the deadline of the request before it.
What the socket takes at once is part of the text of one turn, and the
deadline in force is that of the last request up to this turn. -/
theorem write_deadlines (S : Setup) (T : Texts) (i first : ℕ) (second : Option ℕ)
    (ls : List Label) (w : State) (h : exec (step S T) (start i first second) ls = some w)
    (pre post : List Sent) (x : Sent) (hx : w.sent = pre ++ x :: post) :
    ∃ (ts : List Turn) (t : Turn) (us : List Turn) (u v : Bytes), w.turns = ts ++ t :: us ∧
      t.text S T = u ++ x.bytes ++ v ∧ pre.flatMap Sent.bytes = script S T ts ++ u ∧
      (t.probe = false → x.deadline = T.deadline t.req) ∧
      (t.probe = true → x.deadline = inForce T ts) := by
  have hrun : Faithful S T w ∧ Timely S T w := by
    refine exec_invariant (I := fun w => Faithful S T w ∧ Timely S T w) (P := fun _ _ => True)
      (fun w l w' hw _ hs => ?_) ls ⟨Faithful.start S T i first second, ?_⟩ (along_true _ _) h
    · exact ⟨hw.1.step (step_moves hs), hw.2.step hw.1 (step_moves hs)⟩
    · refine ⟨fun hset => (by cases hset), fun _ => rfl, rfl, fun pre x post hsplit => ?_⟩
      simp [start] at hsplit
  obtain ⟨ts, ⟨r, probe, article⟩, us, u, v, hturns, htext, hpre, -, hdl⟩ :=
    hrun.2.sent pre x post hx
  refine ⟨ts, _, us, u, v, hturns, htext, hpre, fun hp => ?_, fun hp => ?_⟩
  · obtain rfl : probe = false := hp
    rw [hdl, inForce_request]
  · obtain rfl : probe = true := hp
    rw [hdl, inForce_probe]

/-- A keepalive has the deadline of the request before it, which may have
passed. -/
theorem write_deadlines_probed :
    ∃ w, exec (step probePool probeTexts) (start 0 0 none) probed = some w ∧
      w.sent.map Sent.deadline = [some 5, some 5, some 5] ∧ w.turns.map Turn.req = [0, 1] ∧
      ∃ ts t us, w.turns = ts ++ t :: us ∧ (t.probe = true → some 5 = inForce probeTexts ts) := by
  have hrun : (exec (step probePool probeTexts) (start 0 0 none) probed).map
      (fun w => (w.sent.map Sent.deadline, w.turns.map Turn.req)) =
        some ([some 5, some 5, some 5], [0, 1]) := by
    decide
  obtain ⟨w, hw, hp⟩ := Option.map_eq_some_iff.mp hrun
  obtain ⟨hsent, hturns⟩ := Prod.mk.inj hp
  obtain ⟨x, y, z, hxyz⟩ : ∃ x y z, w.sent = [x, y, z] := List.length_eq_three.mp (by
    simpa using congrArg List.length hsent)
  have hz : z.deadline = some 5 := by simp_all
  obtain ⟨ts, t, us, u, v, heq, -, -, -, hprobe⟩ :=
    write_deadlines probePool probeTexts 0 0 none probed w hw [x, y] [] z hxyz
  exact ⟨w, hw, hsent, hturns, ts, t, us, heq, fun ht => hz ▸ hprobe ht⟩

/-! ## The connection behind it -/

/-- A run of the goroutines of a connection. -/
def connStep (S : Setup) (c : Conn) (x : Env × ConnAct) : Option Conn :=
  (c.step S x.1 x.2).map Prod.fst

/-- Every step leaves the connection, or is one of it. -/
theorem connStep_of_step (h : step S T w l = some w') :
    w'.conn = w.conn ∨ ∃ x, connStep S w.conn x = some w'.conn := by
  cases l with
  | act env a =>
    right
    refine ⟨(env, a), ?_⟩
    cases a with
    | reader a =>
      obtain ⟨⟨c', effs⟩, hs, rfl⟩ := Option.map_eq_some_iff.mp h
      simp [connStep, Conn.step, hs]
    | writer a =>
      simp only [step] at h
      split_ifs at h
      obtain ⟨⟨c', effs⟩, hs, rfl⟩ := Option.map_eq_some_iff.mp h
      simp [connStep, Conn.step, hs]
  | write =>
    simp only [step] at h
    split_ifs at h
    split at h <;> cases h
    · exact .inl (setDeadline_eq w T _).1
    · exact .inl rfl
  | copy n | flush | emit n =>
    simp only [step] at h
    split_ifs at h
    cases h
    simp

/-- `Run` can write what it has to before it goes on. -/
theorem exists_ready {a : WriterAct} (hs : (w.conn.writerStep S env a).isSome = true) :
    ∃ ks v, exec (step S T) w ks = some v ∧ v.conn = w.conn ∧ v.ready a = true := by
  have hone (l : Label) (v : State) (hl : step S T w l = some v) (hconn : v.conn = w.conn)
      (hready : v.ready a = true) :
      ∃ ks v, exec (step S T) w ks = some v ∧ v.conn = w.conn ∧ v.ready a = true :=
    ⟨[l], v, exec_cons.2 ⟨v, hl, rfl⟩, hconn, hready⟩
  cases hw : w.conn.writer with
  | top =>
    refine hone .flush w.flush (by simp [step, hw]) (flush_conn w) ?_
    cases a <;> simp [State.ready, hw]
  | postCopy =>
    refine hone (.copy w.rest.length)
      { w with
        buffered := w.buffered ++ w.rest.take w.rest.length
        rest := w.rest.drop w.rest.length }
      (by simp [step, hw]) rfl ?_
    cases a <;> simp [State.ready, hw]
  | write hb hg =>
    cases hsaid : w.said with
    | true => exact ⟨[], w, rfl, rfl, by simp [State.ready, hw, hsaid]⟩
    | false =>
      cases hu : w.conn.unsent with
      | none => simp [Conn.writerStep, hw, hu] at hs
      | some r =>
        refine hone .write ((w.setDeadline T r).say S r false) (by simp [step, hsaid, hw, hu])
          (setDeadline_eq w T r).1 ?_
        simp [State.ready, State.say, (setDeadline_eq w T r).1, hw]
  | keepalive r =>
    cases hsaid : w.said with
    | true => exact ⟨[], w, rfl, rfl, by simp [State.ready, hw, hsaid]⟩
    | false =>
      refine hone .write (w.say S r true) (by simp [step, hsaid, hw]) rfl ?_
      simp [State.ready, State.say, hw]
  | _ => exact ⟨[], w, rfl, rfl, by simp [State.ready, hw]⟩

/-- **Every run of the connection is one here**, and every run here is one
of the connection. -/
theorem exec_connStep_iff {c : Conn} : (∃ xs, exec (connStep S) w.conn xs = some c) ↔
    ∃ ls w', exec (step S T) w ls = some w' ∧ w'.conn = c := by
  constructor
  · rintro ⟨xs, hxs⟩
    induction xs generalizing w with
    | nil => exact ⟨[], w, rfl, Option.some.inj hxs⟩
    | cons x xs ih =>
      obtain ⟨c', hc', hxs⟩ := exec_cons.1 hxs
      obtain ⟨⟨d, effs⟩, hs, rfl⟩ := Option.map_eq_some_iff.mp hc'
      obtain ⟨env, a⟩ := x
      have hstep : ∃ ks w', exec (step S T) w ks = some w' ∧ w'.conn = d := by
        cases a with
        | reader a =>
          refine ⟨[.act env (.reader a)], { w with conn := d }, ?_, rfl⟩
          exact exec_cons.2 ⟨_, by simpa [step, Conn.step] using ⟨effs, hs⟩, rfl⟩
        | writer a =>
          have hsome : (w.conn.writerStep S env a).isSome = true :=
            Option.isSome_of_eq_some hs
          obtain ⟨ks, v, hks, hconn, hready⟩ := exists_ready (T := T) hsome
          refine ⟨ks ++ [Label.act env (.writer a)], { v.speak T a with conn := d },
            exec_concat hks ?_, rfl⟩
          simpa [step, hready, hconn] using ⟨effs, hs⟩
      obtain ⟨ks, v, hks, rfl⟩ := hstep
      obtain ⟨ls, w', hls, hc⟩ := ih hxs
      exact ⟨ks ++ ls, w', exec_append hks hls, hc⟩
  · rintro ⟨ls, w', hls, rfl⟩
    induction ls generalizing w with
    | nil =>
      cases hls
      exact ⟨[], rfl⟩
    | cons l ls ih =>
      obtain ⟨v, hv, hls⟩ := exec_cons.1 hls
      obtain ⟨xs, hxs⟩ := ih hls
      rcases connStep_of_step hv with heq | ⟨x, hx⟩
      · exact ⟨xs, heq ▸ hxs⟩
      · exact ⟨x :: xs, exec_cons.2 ⟨_, hx, hxs⟩⟩

/-! ## Idle connections -/

section Idle

variable {c : Conn} {x : Env × ConnAct}

theorem connStep_bounded (h : connStep S c x = some c') (hc : c.Bounded S) : c'.Bounded S := by
  obtain ⟨⟨d, effs⟩, hs, rfl⟩ := Option.map_eq_some_iff.mp h
  exact Conn.step_bounded hs hc

/-- `waitForInflightDrain` takes a slot. -/
def takes (x : Env × ConnAct) : Bool := x.2 = .writer .go

theorem drain_step (h : connStep S c x = some c') (hc : c.tokens ≤ c.inflightSem)
    (hw : c.writer = .drain) (hx : x.2 ≠ .writer .idle) :
    c'.writer = .drain ∧
      c'.tokens + c.inflightSem + (takes x).toNat = c.tokens + c'.inflightSem := by
  obtain ⟨⟨d, effs⟩, hs, rfl⟩ := Option.map_eq_some_iff.mp h
  obtain ⟨env, a | a⟩ := x
  · cases writerStep_writes hs <;> simp_all [takes, Conn.tokens]
    omega
  · have hreads := readerStep_reads hs
    exact ⟨hreads.frame.2.1.trans hw, hreads.inflight hc⟩

/-- What it takes comes on top of what requests hold. -/
theorem drain_run {xs : List (Env × ConnAct)} (h : exec (connStep S) c xs = some c')
    (hc : c.Bounded S) (hw : c.writer = .drain) (hstay : ∀ x ∈ xs, x.2 ≠ .writer .idle) :
    c'.Bounded S ∧ c'.tokens + c.inflightSem + xs.countP takes = c.tokens + c'.inflightSem := by
  induction xs generalizing c with
  | nil =>
    cases h
    exact ⟨hc, rfl⟩
  | cons x xs ih =>
    obtain ⟨hx, hstay⟩ := List.forall_mem_cons.mp hstay
    obtain ⟨c₁, hs, h⟩ := exec_cons.1 h
    obtain ⟨hw₁, hstep⟩ := drain_step hs hc.tokens hw hx
    obtain ⟨hc', hrun⟩ := ih h (connStep_bounded hs hc) hw₁ hstay
    refine ⟨hc', ?_⟩
    cases ht : takes x <;> simp [ht] at hstep ⊢ <;> omega

/-- **Idle disconnects lose no request.** Whatever is in flight when a
connection starts to drain, once `Run` has taken all slots there is nothing
left to answer. -/
theorem idle_disconnect_clean (S : Setup) (i first : ℕ) (second : Option ℕ)
    (xs ys : List (Env × ConnAct)) (c c' : Conn)
    (h : exec (connStep S) (newConn i first second) xs = some c) (hw : c.writer = .drain)
    (h' : exec (connStep S) c ys = some c') (hstay : ∀ y ∈ ys, y.2 ≠ .writer .idle)
    (hall : ys.countP takes = S.limits.inflight) : c'.pending = [] ∧ c'.reader.held = [] := by
  have hc := exec_invariant (P := fun _ _ => True) (fun _ _ _ hc _ hs => connStep_bounded hs hc)
    xs (newConn_bounded i first second) (along_true _ _) h
  obtain ⟨hc', hrun⟩ := drain_run h' hc hw hstay
  have hzero : c'.tokens = 0 := by
    have := hc.tokens
    have := hc'.inflight
    omega
  simp only [Conn.tokens, Nat.add_eq_zero_iff, List.length_eq_zero_iff] at hzero
  refine ⟨hzero.1.2, ?_⟩
  cases hr : c'.reader with
  | retire f => cases f <;> simp_all [Reader.token, Reader.held, Failing.held, Failing.token]
  | _ => simp_all [Reader.token, Reader.held]

end Idle

/-- A connection is idle while a request is in flight. -/
def idled : List (Env × ConnAct) :=
  List.replicate 11 (quiet, .writer .go) ++ [(quiet, .writer .idle)]

/-- `Run` takes a slot, and the other one behind the answer. -/
def drained : List (Env × ConnAct) :=
  (quiet, .writer .go) :: List.replicate 4 (quiet, .reader .go) ++
    (quiet, .reader (.finish false {})) :: List.replicate 3 (quiet, .reader .go) ++
    [(quiet, .writer .go)]

theorem idle_disconnect_clean_drained :
    ∃ c c', exec (connStep probePool) (newConn 0 0 none) idled = some c ∧ c.pending ≠ [] ∧
      exec (connStep probePool) c drained = some c' ∧ c'.pending = [] ∧ c'.reader.held = [] := by
  have hrun : ((exec (connStep probePool) (newConn 0 0 none) idled).map fun c =>
      (c.writer, c.pending.length, (exec (connStep probePool) c drained).isSome)) =
        some (.drain, 1, true) := by
    decide
  obtain ⟨c, hc, hp⟩ := Option.map_eq_some_iff.mp hrun
  obtain ⟨hw, hlen, hsome⟩ : c.writer = .drain ∧ c.pending.length = 1 ∧ _ := by simpa using hp
  obtain ⟨c', hc'⟩ := Option.isSome_iff_exists.mp hsome
  exact ⟨c, c', hc, List.ne_nil_of_length_eq_add_one hlen, hc', idle_disconnect_clean probePool 0 0
    none idled drained c c' hc hw hc' (by decide) (by decide)⟩

end Wire

end Pool

end NntpPool
