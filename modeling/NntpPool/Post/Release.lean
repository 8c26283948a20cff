import NntpPool.Post.Whole
/-!
# Post — what becomes of the article's pipe

The goroutine that writes an article is blocked until it has been read.
Only `Run` reads it, behind a POST it has written: `doSendPost` neither
reads nor closes the pipe on its way out. So what is left in it when
`PostYenc` returns is what no connection has taken (`released_iff`), and if
none is about to take more, it stays there.
-/

namespace NntpPool

namespace Post

variable {S : Setup} {s s' s₀ : State} {l : Label} {ls : List Label} {a a' : Attempt} {act : Act}
variable {broken : Bool} {left left' : Bytes}

/-- The bytes a step takes out of the pipe. -/
def Label.taken : Label → ℕ
  | .run _ (.copy n) => n
  | .run _ (.copyErr n _) => n
  | .run _ (.drain n) => n
  | _ => 0

/-- The bytes a run takes out of it. -/
def taken (ls : List Label) : ℕ := (ls.map Label.taken).sum

/-- `PostYenc` returns. -/
def State.Returned (s : State) : Prop := s.result.isSome = true

/-- `Run` has the pipe, or may come to it. -/
def Phase.holds : Phase → Bool
  | .queued => true
  | .waiting => true
  | .copying => true
  | .draining => true
  | _ => false

/-- Nobody reads the pipe any more. -/
def State.Abandoned (s : State) : Prop := ∀ a ∈ s.attempts, a.phase.holds = false

/-! ## Steps -/

/-- A POST stays written, and the pipe is touched behind one only. -/
theorem Moves.written (h : Moves broken left a act a' left') (ha : a'.phase.written = false) :
    a.phase.written = false ∧ left' = left := by
  cases h with
  | fail e hp => exact ⟨by rw [hp]; rfl, rfl⟩
  | outstanding e hp | first reply deliver hp => simp_all
  | second => exact ⟨ha, rfl⟩
  | @ready ok => cases ok <;> cases ha
  | copyEnd => cases broken <;> cases ha
  | copy hp | drain hp =>
    rw [show a.phase.written = true by rw [hp]; rfl] at ha
    cases ha
  | _ => cases ha

/-- **The steps of a call**, as far as the pipe is concerned: an attempt
takes one, or the attempts are as before, but for a new one. -/
theorem step_cases (hs : step S s l = some s') :
    (∃ j act a a', l = .run j act ∧ s.attempts[j]? = some a ∧
      Moves S.broken.isSome s.left a act a' s'.left ∧ s'.attempts = s.attempts.set j a' ∧
      s'.result = s.result) ∨
    (l.taken = 0 ∧ s'.left = s.left ∧ (s'.attempts = s.attempts ∧ (s.Returned → s'.Returned) ∨
      ¬ s.Returned ∧ ∃ provider, s'.attempts = s.attempts ++ [{ provider := provider }])) := by
  cases l with
  | run j act =>
    obtain ⟨a, hj, hs⟩ := Option.bind_eq_some_iff.mp hs
    obtain ⟨⟨a', left'⟩, hm, rfl⟩ := Option.map_eq_some_iff.mp hs
    exact .inl ⟨j, act, a, a', rfl, hj, Attempt.step_moves hm, rfl, rfl⟩
  | offer =>
    simp only [Post.step] at hs
    split_ifs at hs with ho
    cases hs
    refine .inr ⟨rfl, rfl, .inr ⟨?_, _, rfl⟩⟩
    intro hr
    simp_all [State.offers, State.Returned]
  | skip =>
    simp only [Post.step] at hs
    split_ifs at hs
    cases hs
    exact .inr ⟨rfl, rfl, .inl ⟨rfl, id⟩⟩
  | giveUp e =>
    simp only [Post.step] at hs
    split_ifs at hs
    cases hs
    exact .inr ⟨rfl, rfl, .inl ⟨rfl, fun _ => rfl⟩⟩
  | receive =>
    simp only [Post.step] at hs
    split_ifs at hs
    obtain ⟨a, -, hs⟩ := Option.bind_eq_some_iff.mp hs
    cases hbuf : a.ch.buf with
    | some reply =>
      simp only [hbuf, Option.some.injEq] at hs
      subst hs
      unfold State.received
      cases reply.err with
      | some e => exact .inr ⟨rfl, rfl, .inl ⟨rfl, id⟩⟩
      | none => exact .inr ⟨rfl, rfl, .inl ⟨rfl, fun _ => rfl⟩⟩
    | none =>
      simp only [hbuf] at hs
      split_ifs at hs
      cases hs
      exact .inr ⟨rfl, rfl, .inl ⟨rfl, id⟩⟩
  | exhausted =>
    simp only [Post.step] at hs
    split_ifs at hs
    cases hs
    exact .inr ⟨rfl, rfl, .inl ⟨rfl, fun _ => rfl⟩⟩

/-! ## Runs -/

/-- While no POST is written, all of it is left. -/
def Untouched (S : Setup) (s : State) : Prop :=
  (∀ a ∈ s.attempts, a.phase.written = false) → s.left = S.stream

theorem Untouched.step (h : Untouched S s) (hs : step S s l = some s') : Untouched S s' := by
  intro hall
  rcases step_cases hs with ⟨j, act, a, a', -, hj, hmoves, hset, -⟩ | ⟨-, hleft, hattempts⟩
  · rw [hset] at hall
    have hlt := (List.getElem?_eq_some_iff.mp hj).1
    obtain ⟨ha, hleft⟩ := hmoves.written (hall a' (List.mem_set hlt a'))
    rw [hleft]
    refine h fun b hb => ?_
    obtain ⟨i, hi⟩ := List.mem_iff_getElem?.mp hb
    by_cases hij : j = i
    · subst hij
      rwa [← Option.some.inj (hj.symm.trans hi)]
    · exact hall b (List.mem_of_getElem? (by rw [List.getElem?_set_ne hij, hi]))
  · rw [hleft]
    refine h fun b hb => hall b ?_
    rcases hattempts with ⟨heq, -⟩ | ⟨-, provider, heq⟩
    · rwa [heq]
    · rw [heq]
      exact List.mem_append_left _ hb

/-- Calls that return with the article in the pipe: the context is done,
the provider is gone, the POST is not written, or its connection dies. -/
def leaving : List (List Label) :=
  [[.giveUp .canceled], [.skip, .exhausted],
    [.offer, .run 0 (.fail (.sentinel .netClosed)), .receive, .exhausted],
    copying 0 1 ++ [.run 0 (.copyErr 0 0), .run 0 (.second ⟨0, [], some (.sentinel .eof)⟩ true),
      .receive, .exhausted]]

/-- What is to be seen of a call that leaves its article behind. -/
def State.leaves (s : State) : Bool :=
  s.result.isSome && !s.left.isEmpty && s.attempts.all fun a => !a.phase.holds

end Post

end NntpPool
