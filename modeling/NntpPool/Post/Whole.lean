import NntpPool.Post.Model.Post
import NntpPool.Pool.Replies
/-!
# Post — delivered whole or not at all

Every attempt of a call is given the same pipe. Once the POST of one is
written, its `Run` takes bytes out of it, for the server or to discard
them, and a provider that is tried next gets what is left. If a further
provider is tried only behind attempts that failed before their POST was
written, there is only ever one attempt that has touched the pipe, and
what it has sent and what is left make up the article.
-/

namespace NntpPool

namespace Post

variable {S : Setup} {s s' : State} {l : Label} {a a' : Attempt} {act : Act}
variable {broken : Bool} {left left' : Bytes}

/-! ## Steps of an attempt -/

/-- **The steps of an attempt.** -/
inductive Moves (broken : Bool) (left : Bytes) (a : Attempt) : Act → Attempt → Bytes → Prop
  | fail (e : GoError) (hp : a.phase = .queued) :
      Moves broken left a (.fail e) { a with phase := .failed, ch := Pool.failRequest a.ch e } left
  | write (hp : a.phase = .queued) : Moves broken left a .write { a with phase := .waiting } left
  | outstanding (e : GoError) (hp : a.phase.written = true) (hl : a.listen = .first) :
      Moves broken left a (.outstanding e)
        { a with listen := .done, ch := Pool.failRequest a.ch e } left
  | first (reply : Pool.Reply) (deliver : Bool) (hp : a.phase.written = true)
      (hl : a.listen = .first) :
      Moves broken left a (.first reply deliver) (a.heard reply deliver) left
  | second {firstErr : Option GoError} (reply : Pool.Reply) (deliver : Bool)
      (hl : a.listen = .second firstErr) :
      Moves broken left a (.second reply deliver)
        { a with
          listen := .done
          ch := a.ch.answer deliver { reply with err := reply.err <|> firstErr } } left
  | ready {ok : Bool} (hp : a.phase = .waiting) (hr : a.ready = some ok) :
      Moves broken left a .ready { a with phase := if ok then .copying else .draining } left
  | connDone (hp : a.phase = .waiting) :
      Moves broken left a .connDone { a with phase := .draining } left
  | copy {n : ℕ} (hp : a.phase = .copying) :
      Moves broken left a (.copy n) { a with sent := a.sent ++ left.take n } (left.drop n)
  | copyErr {n m : ℕ} (hp : a.phase = .copying) :
      Moves broken left a (.copyErr n m)
        { a with phase := .finished, sent := a.sent ++ left.take m } (left.drop n)
  | copyEnd (hp : a.phase = .copying) (hleft : left = []) :
      Moves broken left a .copyEnd { a with phase := if broken then .finished else .sent } left
  | drain {n : ℕ} (hp : a.phase = .draining) : Moves broken left a (.drain n) a (left.drop n)
  | drainEnd (hp : a.phase = .draining) (hleft : left = []) :
      Moves broken left a .drainEnd { a with phase := .finished } left

/-- **An attempt takes no other step.** -/
theorem Attempt.step_moves (h : a.step broken left act = some (a', left')) :
    Moves broken left a act a' left' := by
  cases act with
  | fail e =>
    simp only [Attempt.step] at h
    split_ifs at h with hp
    cases h
    exact .fail e hp
  | write =>
    simp only [Attempt.step] at h
    split_ifs at h with hp
    cases h
    exact .write hp
  | outstanding e =>
    simp only [Attempt.step] at h
    split_ifs at h with hg
    cases h
    exact .outstanding e hg.1 hg.2
  | first reply deliver =>
    simp only [Attempt.step] at h
    split_ifs at h with hg
    cases h
    exact .first reply deliver hg.1 hg.2
  | second reply deliver =>
    simp only [Attempt.step] at h
    split at h
    · cases h
      exact .second reply deliver (by assumption)
    · cases h
  | ready =>
    simp only [Attempt.step] at h
    split_ifs at h with hp
    obtain ⟨ok, hr, h⟩ := Option.map_eq_some_iff.mp h
    cases h
    exact .ready hp hr
  | connDone =>
    simp only [Attempt.step] at h
    split_ifs at h with hp
    cases h
    exact .connDone hp
  | copy n =>
    simp only [Attempt.step] at h
    split_ifs at h with hg
    cases h
    exact .copy hg.1
  | copyErr n m =>
    simp only [Attempt.step] at h
    split_ifs at h with hg
    cases h
    exact .copyErr hg.1
  | copyEnd =>
    by_cases hg : a.phase = .copying ∧ left = []
    · rw [Attempt.step, if_pos hg] at h
      cases h
      exact .copyEnd hg.1 hg.2
    · rw [Attempt.step, if_neg hg] at h
      cases h
  | drain n =>
    simp only [Attempt.step] at h
    split_ifs at h with hg
    cases h
    exact .drain hg.1
  | drainEnd =>
    simp only [Attempt.step] at h
    split_ifs at h with hg
    cases h
    exact .drainEnd hg.1 hg.2

@[simp] theorem Attempt.heard_phase (a : Attempt) (reply : Pool.Reply) (deliver : Bool) :
    (a.heard reply deliver).phase = a.phase := by
  unfold Attempt.heard
  split_ifs <;> rfl

@[simp] theorem Attempt.heard_sent (a : Attempt) (reply : Pool.Reply) (deliver : Bool) :
    (a.heard reply deliver).sent = a.sent := by
  unfold Attempt.heard
  split_ifs <;> rfl

/-- Nothing is heard of a POST that is not written. -/
def Attempt.Silent (a : Attempt) : Prop := a.phase.written = false → a.listen = .first

theorem Moves.silent (h : Moves broken left a act a' left') (ha : a.Silent) : a'.Silent := by
  unfold Attempt.Silent at *
  cases h with
  | fail | write => simp_all [Phase.written]
  | outstanding e hp hl => simp [hp]
  | first reply deliver hp hl => simp [hp]
  | second reply deliver hl => simp_all
  | @ready ok => cases ok <;> simp [Phase.written]
  | copyEnd => cases broken <;> simp [Phase.written]
  | copy hp => simp [hp, Phase.written]
  | drain => exact ha
  | _ => simp [Phase.written]

/-- A failed attempt takes no step. -/
theorem Moves.phase_ne_failed (h : Moves broken left a act a' left') (ha : a.Silent) :
    a.phase ≠ .failed := by
  intro hf
  have hl := ha (by rw [hf]; rfl)
  cases h <;> simp_all [Phase.written]

/-- An attempt fails before it has touched the pipe. -/
theorem Moves.of_failed (h : Moves broken left a act a' left') (hf : a'.phase = .failed)
    (hne : a.phase ≠ .failed) : a.phase = .queued ∧ left' = left := by
  cases h with
  | fail e hp => exact ⟨hp, rfl⟩
  | @ready ok => cases ok <;> simp at hf
  | copyEnd => cases broken <;> simp at hf
  | _ => simp_all

/-- An article that was sent stays so. -/
theorem Moves.sent (h : Moves broken left a act a' left') (hs : a.phase = .sent) :
    a'.phase = .sent := by
  cases h <;> simp_all

/-! ## What an attempt has sent -/

/-- **What an attempt has sent**, against what is in the pipe. -/
def Attempt.Fits (S : Setup) (left : Bytes) (a : Attempt) : Prop :=
  match a.phase with
  | .queued => a.sent = [] ∧ left = S.stream
  | .failed => a.sent = []
  | .waiting => a.sent = [] ∧ left = S.stream
  | .copying => a.sent ++ left = S.stream
  | .draining => a.sent = []
  | .sent => a.sent = S.article
  | .finished => a.sent <+: S.stream

theorem Moves.fits (h : Moves S.broken.isSome left a act a' left') (ha : a.Fits S left) :
    a'.Fits S left' := by
  unfold Attempt.Fits at *
  cases h with
  | fail e hp | write hp | connDone hp =>
    simp only [hp] at ha
    first | exact ha | exact ha.1
  | outstanding | second => exact ha
  | first => simpa using ha
  | @ready ok hp hr =>
    simp only [hp] at ha
    cases ok
    · exact ha.1
    · simp [ha]
  | copy hp =>
    simp only [hp] at ha ⊢
    simpa using ha
  | @copyErr n m hp =>
    simp only [hp] at ha
    refine ⟨left.drop m, ?_⟩
    simpa using ha
  | copyEnd hp hleft =>
    simp only [hp, hleft, List.append_nil] at ha
    cases hb : S.broken with
    | none => simpa [Setup.stream, hb] using ha
    | some k => simp [ha]
  | drain hp => simpa [hp] using ha
  | drainEnd hp hleft =>
    simp only [hp] at ha
    simp [ha]

/-- What fits is the beginning of the article. -/
theorem Attempt.Fits.prefix_article (h : a.Fits S left) : a.sent <+: S.article := by
  have hstream : S.stream <+: S.article := by
    unfold Setup.stream
    split
    · exact List.prefix_refl _
    · exact List.take_prefix _ _
  unfold Attempt.Fits at h
  cases hp : a.phase <;> simp only [hp] at h
  case queued | waiting => simp [h.1]
  case failed | draining => simp [h]
  case copying => exact (List.prefix_append _ _).trans (h ▸ hstream)
  case sent => simp [h]
  case finished => exact h.trans hstream

/-! ## Servers that mean what they say -/

/-- **A server reports success** only of an article that has ended: not to
the first line of a POST, and behind a 340 only once it has the line that
ends an article. -/
def honest (s : State) : Label → Bool
  | .run _ (.first reply _) => reply.statusCode == 340 || (finishPost reply).isSome
  | .run j (.second reply _) =>
    (finishPost reply).isSome ||
      s.attempts[j]?.any fun a => a.phase == .sent && dotLine.isSuffixOf a.sent
  | _ => true

/-- A success in the channel is of an article that was sent. -/
def Attempt.Accepted (a : Attempt) : Prop :=
  ∀ reply, a.ch.buf = some reply → finishPost reply = none → a.phase = .sent

theorem Moves.accepted {j : ℕ} (h : Moves broken left a act a' left')
    (hj : s.attempts[j]? = some a) (hhonest : honest s (.run j act) = true) (ha : a.Accepted) :
    a'.Accepted := by
  intro reply hbuf hr
  have hold (hb : a.ch.buf = some reply) : a'.phase = .sent := h.sent (ha reply hb hr)
  cases h with
  | fail e | outstanding e =>
    rcases Pool.failRequest_buf hbuf with hb | rfl
    · exact hold hb
    · cases hr
  | first answer deliver =>
    unfold Attempt.heard at hbuf
    split_ifs at hbuf with hcode
    · exact hold hbuf
    · rcases Pool.RespCh.answer_buf hbuf with hb | rfl
      · exact hold hb
      · simp [honest, hcode, hr] at hhonest
  | @second firstErr answer deliver hl =>
    rcases Pool.RespCh.answer_buf hbuf with hb | rfl
    · exact hold hb
    · -- the server has said so, and it is honest
      have hnone : finishPost answer = none := by
        cases herr : answer.err with
        | none => cases firstErr <;> simp_all [finishPost]
        | some e => simp [finishPost, herr] at hr
      simp only [honest, hnone, hj, Option.any_some, Option.isSome_none, Bool.false_or,
        Bool.and_eq_true, beq_iff_eq] at hhonest
      exact hhonest.1
  | _ => exact hold hbuf

/-! ## Runs -/

/-- **A further provider is tried** only behind attempts that failed
before their POST was written. -/
def lone (s : State) : Label → Bool
  | .offer => s.attempts.all fun a => a.phase == .failed
  | _ => true

/-- **One attempt at most has touched the article.** -/
structure Whole (S : Setup) (s : State) : Prop where
  fits : ∀ a ∈ s.attempts, a.Fits S s.left
  silent : ∀ a ∈ s.attempts, a.Silent
  accepted : ∀ a ∈ s.attempts, a.Accepted
  last : ∀ j a, s.attempts[j]? = some a → a.phase ≠ .failed → j + 1 = s.attempts.length
  fresh : (∀ a ∈ s.attempts, a.phase = .failed) → s.left = S.stream
  result : s.Succeeds → ∃ j a, s.winner = some j ∧ s.attempts[j]? = some a ∧ a.phase = .sent

theorem Whole.start (h : Post.start S = some s) : Whole S s := by
  have hs : s.attempts = [] ∧ s.left = S.stream ∧ ¬s.Succeeds := by
    unfold Post.start at h
    split_ifs at h
    · cases h
      exact ⟨rfl, rfl, fun ⟨resp, hr, hn⟩ => by cases hr; cases hn⟩
    · obtain ⟨n, -, rfl⟩ := Option.map_eq_some_iff.mp h
      exact ⟨rfl, rfl, fun ⟨resp, hr, _⟩ => by cases hr⟩
  obtain ⟨hattempts, hleft, hno⟩ := hs
  constructor
  case fresh => exact fun _ => hleft
  case result => exact fun hs => absurd hs hno
  all_goals simp [hattempts]

/-- A new provider gets the article as it is. -/
theorem Whole.offer (h : Whole S s) (hfailed : ∀ a ∈ s.attempts, a.phase = .failed)
    {provider tried : ℕ} (hnone : s.result = none) :
    Whole S { s with
      tried := tried, attempts := s.attempts ++ [{ provider := provider }], waits := true } where
  fits := List.forall_mem_append.mpr ⟨h.fits, by simpa [Attempt.Fits] using h.fresh hfailed⟩
  silent := List.forall_mem_append.mpr ⟨h.silent, by simp [Attempt.Silent]⟩
  accepted := List.forall_mem_append.mpr ⟨h.accepted, by simp [Attempt.Accepted]⟩
  last j a hj hp := by
    rw [List.getElem?_append] at hj
    split_ifs at hj with hlt
    · exact absurd (hfailed a (List.mem_of_getElem? hj)) hp
    · have hlen := (List.getElem?_eq_some_iff.mp hj).1
      simp only [List.length_append, List.length_singleton] at hlen ⊢
      omega
  fresh hall := by cases hall _ (List.mem_append_right _ List.mem_cons_self)
  result := by
    rintro ⟨resp, hr, -⟩
    simp [hnone] at hr

/-- What `doSendPost` does otherwise leaves the attempts alone. -/
theorem Whole.of_attempts (h : Whole S s) (hattempts : s'.attempts = s.attempts)
    (hleft : s'.left = s.left)
    (hresult : s'.Succeeds → ∃ j a, s'.winner = some j ∧ s.attempts[j]? = some a ∧
      a.phase = .sent) : Whole S s' where
  fits := by rw [hattempts, hleft]; exact h.fits
  silent := by rw [hattempts]; exact h.silent
  accepted := by rw [hattempts]; exact h.accepted
  last := by rw [hattempts]; exact h.last
  fresh := by rw [hattempts, hleft]; exact h.fresh
  result := by rw [hattempts]; exact hresult

/-- The attempts behind a step of one of them: it, and others that have
failed. -/
theorem Whole.getElem?_set (h : Whole S s) {i j : ℕ} {b : Attempt} (hj : s.attempts[j]? = some a)
    (hp : a.phase ≠ .failed) (hb : (s.attempts.set j a')[i]? = some b) :
    i = j ∧ b = a' ∨ s.attempts[i]? = some b ∧ b.phase = .failed := by
  by_cases hij : j = i
  · subst hij
    rw [List.getElem?_set_self (List.getElem?_eq_some_iff.mp hj).1] at hb
    exact .inl ⟨rfl, (Option.some.inj hb).symm⟩
  · rw [List.getElem?_set_ne hij] at hb
    refine .inr ⟨hb, by_contra fun hne => hij ?_⟩
    have := h.last i b hb hne
    have := h.last j a hj hp
    omega

/-- An attempt takes a step. -/
theorem Whole.run {j : ℕ} (h : Whole S s) (hj : s.attempts[j]? = some a)
    (hm : Moves S.broken.isSome s.left a act a' left')
    (hhonest : honest s (.run j act) = true) :
    Whole S { s with attempts := s.attempts.set j a', left := left' } := by
  have hmem := List.mem_of_getElem? hj
  have hne := hm.phase_ne_failed (h.silent a hmem)
  have hold {b : Attempt} (hb : b ∈ s.attempts.set j a') :
      b = a' ∨ b ∈ s.attempts ∧ b.phase = .failed := by
    obtain ⟨i, hi⟩ := List.mem_iff_getElem?.mp hb
    exact (h.getElem?_set hj hne hi).imp And.right fun hb => ⟨List.mem_of_getElem? hb.1, hb.2⟩
  have hself : (s.attempts.set j a')[j]? = some a' :=
    List.getElem?_set_self (List.getElem?_eq_some_iff.mp hj).1
  constructor
  case fits =>
    intro b hb
    rcases hold hb with rfl | ⟨hb, hp⟩
    · exact hm.fits (h.fits a hmem)
    · have := h.fits b hb
      simpa only [Attempt.Fits, hp] using this
  case silent =>
    intro b hb
    rcases hold hb with rfl | ⟨hb, -⟩
    · exact hm.silent (h.silent a hmem)
    · exact h.silent b hb
  case accepted =>
    intro b hb
    rcases hold hb with rfl | ⟨hb, -⟩
    · exact hm.accepted hj hhonest (h.accepted a hmem)
    · exact h.accepted b hb
  case last =>
    intro i b hi hp
    rcases h.getElem?_set hj hne hi with ⟨rfl, -⟩ | ⟨-, hf⟩
    · simpa using h.last i a hj hne
    · exact absurd hf hp
  case fresh =>
    -- it has failed now, so the pipe is as it was
    intro hall
    obtain ⟨hq, rfl⟩ := hm.of_failed (hall a' (List.mem_of_getElem? hself)) hne
    have := h.fits a hmem
    simp only [Attempt.Fits, hq] at this
    exact this.2
  case result =>
    intro hs
    obtain ⟨k, b, hw, hk, hp⟩ := h.result hs
    by_cases hkj : j = k
    · subst hkj
      obtain rfl := Option.some.inj (hj.symm.trans hk)
      exact ⟨j, a', hw, hself, hm.sent hp⟩
    · exact ⟨k, b, hw, by rw [List.getElem?_set_ne hkj, hk], hp⟩

/-- `doSendPost` has the response of its last attempt. -/
theorem Whole.received (h : Whole S s) {reply : Pool.Reply} (ha : s.attempts.getLast? = some a)
    (hbuf : a.ch.buf = some reply) : Whole S (s.received (s.attempts.length - 1) reply) := by
  unfold State.received
  cases herr : reply.err with
  | some e => exact h.of_attempts rfl rfl h.result
  | none =>
    refine h.of_attempts rfl rfl ?_
    rintro ⟨resp, hr, hn⟩
    obtain rfl := Option.some.inj hr
    rw [List.getLast?_eq_getElem?] at ha
    exact ⟨_, a, rfl, ha, h.accepted a (List.mem_of_getElem? ha) reply hbuf hn⟩

/-- One step. -/
theorem Whole.step (h : Whole S s) (hhonest : honest s l = true) (hlone : lone s l = true)
    (hs : step S s l = some s') : Whole S s' := by
  cases l with
  | offer =>
    simp only [Post.step] at hs
    split_ifs at hs with ho
    cases hs
    exact h.offer (by simpa [lone] using hlone) (by simp_all [State.offers])
  | skip =>
    simp only [Post.step] at hs
    split_ifs at hs
    cases hs
    exact h.of_attempts rfl rfl h.result
  | giveUp e =>
    simp only [Post.step] at hs
    split_ifs at hs
    cases hs
    exact h.of_attempts rfl rfl fun ⟨resp, hr, hn⟩ => by cases hr; cases hn
  | receive =>
    simp only [Post.step] at hs
    split_ifs at hs
    obtain ⟨a, ha, hs⟩ := Option.bind_eq_some_iff.mp hs
    cases hbuf : a.ch.buf with
    | some reply =>
      simp only [hbuf, Option.some.injEq] at hs
      exact hs ▸ h.received ha hbuf
    | none =>
      simp only [hbuf] at hs
      split_ifs at hs
      cases hs
      exact h.of_attempts rfl rfl h.result
  | exhausted =>
    simp only [Post.step] at hs
    split_ifs at hs
    cases hs
    exact h.of_attempts rfl rfl fun ⟨resp, hr, hn⟩ => by cases hr; cases hn
  | run j act =>
    obtain ⟨a, hj, hs⟩ := Option.bind_eq_some_iff.mp hs
    obtain ⟨⟨a', left'⟩, hm, rfl⟩ := Option.map_eq_some_iff.mp hs
    exact h.run hj (Attempt.step_moves hm) hhonest

/-- **An article is delivered whole or not at all.** Whatever the
providers do, if a further one is tried only behind attempts that failed
before their POST was written, what a provider was sent is the beginning
of the article, and a provider whose success is reported was sent all of
it. -/
theorem post_whole {s₀ : State} {ls : List Label} (hstart : start S = some s₀)
    (hrun : exec (step S) s₀ ls = some s)
    (hall : Along (step S) (fun s l => honest s l = true ∧ lone s l = true) s₀ ls) :
    (∀ a ∈ s.attempts, a.sent <+: S.article) ∧
      (s.Succeeds → ∃ j a, s.winner = some j ∧ s.attempts[j]? = some a ∧ a.sent = S.article) := by
  have h := exec_invariant (I := Whole S) (fun s l s' h hP hs => h.step hP.1 hP.2 hs) ls
    (.start hstart) hall hrun
  refine ⟨fun a ha => (h.fits a ha).prefix_article, fun hs => ?_⟩
  obtain ⟨j, a, hw, hj, hp⟩ := h.result hs
  have hfits := h.fits a (List.mem_of_getElem? hj)
  simp only [Attempt.Fits, hp] at hfits
  exact ⟨j, a, hw, hj, hfits⟩

/-- Two providers, and an article of two bytes and its last line. -/
def twoProviders : Setup where
  strategy := .fifo
  available := [1, 1]
  headers := ascii "h"
  encoded := ascii "e"

/-- Attempt `j` has its POST accepted, and copies `n` bytes. -/
def copying (j n : ℕ) : List Label :=
  [.offer, .run j .write, .run j (.first ⟨340, [], none⟩ true), .run j .ready, .run j (.copy n)]

/-- What it has copied is all there is, and the server takes it. -/
def taking (j : ℕ) : List Label :=
  [.run j .copyEnd, .run j (.second ⟨240, [], none⟩ true), .receive]

/-- The first provider cannot be reached, the second takes the article. -/
def dialFailure : List Label :=
  [.offer, .run 0 (.fail (.sentinel .netClosed)), .receive] ++ copying 1 5 ++ taking 1

/-- The connection to the first provider dies when one byte has been
copied, the second takes what is left. -/
def deathInBody : List Label :=
  copying 0 1 ++ [.run 0 (.copyErr 0 0), .run 0 (.second ⟨0, [], some (.sentinel .eof)⟩ true),
    .receive] ++ copying 1 4 ++ taking 1

/-- What is to be seen of a call. -/
def State.view (s : State) : Option Pool.Reply × Option ℕ × List Bytes :=
  (s.result, s.winner, s.attempts.map Attempt.sent)

/-- Behind a failed dial the article is posted whole. -/
theorem post_whole_dialFailure : ∃ s₀ s, start twoProviders = some s₀ ∧
    exec (step twoProviders) s₀ dialFailure = some s ∧ s.Succeeds ∧
    (∀ a ∈ s.attempts, a.sent <+: twoProviders.article) ∧
    ∃ j a, s.winner = some j ∧ s.attempts[j]? = some a ∧ a.sent = twoProviders.article := by
  have hrun : (exec (step twoProviders) { left := twoProviders.stream } dialFailure).map
      State.view = some (some ⟨240, [], none⟩, some 1, [[], twoProviders.article]) := by
    decide
  obtain ⟨s, hs, hview⟩ := Option.map_eq_some_iff.mp hrun
  have hsucceeds : s.Succeeds := ⟨_, (Prod.mk.inj hview).1, rfl⟩
  obtain ⟨hbegins, hwhole⟩ := post_whole (S := twoProviders) rfl hs (by decide)
  exact ⟨_, s, rfl, hs, hsucceeds, hbegins, hwhole hsucceeds⟩

/-- **A suffix is posted as the article**, with servers that are honest. -/
theorem suffix_posted : ∃ s₀ s a, start twoProviders = some s₀ ∧
    exec (step twoProviders) s₀ deathInBody = some s ∧
    Along (step twoProviders) (fun s l => honest s l = true) s₀ deathInBody ∧
    s.Succeeds ∧ s.winner = some 1 ∧ s.attempts[1]? = some a ∧
    ¬a.sent <+: twoProviders.article ∧ a.sent <:+ twoProviders.article ∧
    a.sent ≠ twoProviders.article := by
  have hrun : (exec (step twoProviders) { left := twoProviders.stream } deathInBody).map
      State.view = some (some ⟨240, [], none⟩, some 1, [ascii "h", ascii "e.\r\n"]) := by
    decide
  obtain ⟨s, hs, hview⟩ := Option.map_eq_some_iff.mp hrun
  obtain ⟨hresult, hwinner, hsent⟩ := by simpa only [State.view, Prod.mk.injEq] using hview
  have ha : (s.attempts.map Attempt.sent)[1]? = some (ascii "e.\r\n") := by rw [hsent]; rfl
  rw [List.getElem?_map] at ha
  obtain ⟨a, ha, hbytes⟩ := Option.map_eq_some_iff.mp ha
  refine ⟨_, s, a, rfl, hs, by decide, ⟨_, hresult, rfl⟩, hwinner, ha, ?_⟩
  rw [hbytes]
  decide

end Post

end NntpPool
