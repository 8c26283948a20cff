import NntpPool.Pool.Replies
import NntpPool.Dispatch.Evidence
/-!
# Pool — what counts as a cancellation

An attempt is to be recorded as cancelled only if the caller or the
client has ended it. The outcome looks only at the error chain, and other
contexts put their errors there too: the timeout `newNetConn` sets for a
dial and a handshake, the context of a slot whose provider is removed,
and that of a connection. `Event.strays` names the steps that do, and the
request that gets such an error. Where none does so to a request whose
call is neither cancelled nor given up, a cancellation is the caller's or
the client's.
-/

namespace NntpPool

namespace Pool

variable {S : Setup} {cfg : Config} {env : Env} {s s' : State} {l : Label} {ev : Event}
variable {effs : List Effect} {r : ℕ} {e : GoError} {reply : Reply}

/-! ## Errors of contexts -/

/-- The error is one of a context. -/
def isCtx (e : GoError) : Bool := e.isSentinel .canceled || e.isSentinel .deadlineExceeded

/-- The caller's context or the client's is done. -/
def State.over (S : Setup) (s : State) (r : ℕ) : Bool :=
  (s.caller (S.info r).call).isSome || s.client.isSome

/-- The request a slot works for. -/
def Slot.first? : Slot → Option ℕ
  | .picked f _ => some f
  | .gate f _ => some f
  | .dial f _ => some f
  | .greet f _ => some f
  | _ => none

/-- The request a reader reads for. -/
def Reader.entry? : Reader → Option Entry
  | .feed e _ => some e
  | .second e _ _ => some e
  | _ => none

/-- `Run` waits for a place for the bootstrap request. -/
def Writer.isBoot : Writer → Bool
  | .firstSlot => true
  | .body boot => boot
  | _ => false

/-- **The request that gets the error of a context in a step**, of one
that is not its own: from the dial, the server's connection or the
caller's writer, at the gate, or from the connection that was made for
it. -/
def Event.strays (cfg : Config) (s : State) : Event → Option ℕ
  | .dial i d => if (cfg.factory d).any isCtx then s.slots[i]?.bind Slot.first? else none
  | .greet i d =>
    if (newNNTPConnectionFromConn cfg.auth d).any isCtx then s.slots[i]?.bind Slot.first? else none
  | .other (.slot i .refuse) => s.slots[i]?.bind Slot.first?
  | .other (.conn k (.writer .connDone)) =>
    s.conns[k]?.bind fun c => if c.writer.isBoot then c.unsent else none
  | .other (.conn k (.writer (.ioErr e))) =>
    if isCtx e then s.conns[k]?.bind Conn.unsent else none
  | .other (.conn k (.reader (.finish _ reply))) =>
    if reply.err.any isCtx then s.conns[k]?.bind fun c => c.reader.entry?.map Entry.req else none
  | .other (.conn k (.reader (.second _ reply))) =>
    if reply.err.any isCtx then s.conns[k]?.bind fun c => c.reader.entry?.map Entry.req else none
  | .other _ => none

/-- The call of the request is cancelled, or has left the attempt. -/
def State.excused (S : Setup) (s : State) (r : ℕ) : Bool :=
  s.over S r || s.attempt r == .returned

/-- **The error of a context goes only to requests nobody waits for.** -/
def Event.Attributed (cfg : Config) (S : Setup) (s : State) (ev : Event) : Prop :=
  ∀ r ∈ ev.strays cfg s, s.excused S r = true

instance (cfg : Config) (S : Setup) (s : State) (ev : Event) :
    Decidable (ev.Attributed cfg S s) :=
  inferInstanceAs (Decidable (∀ r ∈ ev.strays cfg s, s.excused S r = true))

/-! ## Contexts that are done -/

/-- A context that is done stays so. -/
theorem Acts.over (h : Acts S s l s' effs) (hr : s.over S r = true) : s'.over S r = true := by
  unfold State.over at *
  cases h with
  | cancelClient => simp
  | @cancelCaller k x hk =>
    by_cases hrk : (S.info r).call = k
    · simp [hrk]
    · simpa [Function.update_of_ne hrk] using hr
  | sendHot | slot | conn =>
    rw [foldl_apply_caller, foldl_apply_client]
    exact hr
  | _ => exact hr

/-- An attempt that is over is not taken up again. -/
theorem Acts.returned (h : Acts S s l s' effs) (hr : s.attempt r = .returned) :
    s'.attempt r = .returned := by
  cases h.turn r with
  | same hin heq => rw [heq, hr]
  | start hin hl hk ha => simp [hr] at ha
  | send hin ha => simp [hr] at ha
  | receive hin hl ha => simp [hr] at ha
  | giveUp hin hl ha => simp [hr] at ha
  | make hin hk ha => simp [hr] at ha

theorem Acts.excused (h : Acts S s l s' effs) (hr : s.excused S r = true) :
    s'.excused S r = true := by
  simp only [State.excused, Bool.or_eq_true, beq_iff_eq] at *
  exact hr.imp h.over h.returned

/-- The context of a request is done if its call is cancelled, or has left
the attempt. -/
theorem State.excused_of_done {x : CtxErr} (h : s.done S r = some x) : s.excused S r = true := by
  unfold State.done at h
  unfold State.excused State.over
  cases hc : s.caller (S.info r).call with
  | some y => simp
  | none =>
    simp only [hc] at h
    split_ifs at h with hk hp ha
    simp [ha]

/-! ## Responses -/

/-- A response with the error of a context is for a request nobody waits
for. -/
def Owed (S : Setup) (s : State) (r : ℕ) (reply : Reply) : Prop :=
  reply.err.any isCtx = true → s.excused S r = true

theorem isCtx_named (S : Setup) (e : GoError) : isCtx (S.named e) = isCtx e := by
  unfold Setup.named
  split_ifs <;> rfl

/-- **A request is failed with the error of a context** only if it is its
own, or strays. -/
theorem Fault.excused (hallowed : ev.allowed s = true) (hP : ev.Attributed cfg S s)
    (h : Fault S s (ev.label cfg) r e) (hx : isCtx e = true) : s.excused S r = true := by
  cases h with
  | own hdone => exact State.excused_of_done hdone
  | pool hmem =>
    simp only [List.mem_cons, List.not_mem_nil, or_false] at hmem
    rcases hmem with rfl | rfl | rfl <;> cases hx
  | died =>
    rw [isCtx_named] at hx
    cases hx
  | refused hl hi =>
    obtain rfl := Event.of_refuse hl
    exact hP r (by simp [Event.strays, hi, Slot.first?])
  | @connect i second x hl hi =>
    have hfirst : s.slots[i]?.bind Slot.first? = some r := by
      rcases hi with hi | hi <;> simp [hi, Slot.first?]
    rcases Event.of_connect hallowed hl hi with ⟨d, rfl, hd⟩ | ⟨d, rfl, hd⟩
    · exact hP r (by simp [Event.strays, hd, hfirst, show isCtx x = true from hx])
    · exact hP r (by simp [Event.strays, hd, hfirst, show isCtx x = true from hx])
  | conn hl hc hw hu hdone =>
    obtain rfl := Event.of_conn hl
    refine hP r ?_
    rcases hw with hw | hw <;> simp [Event.strays, hc, hw, hu, Writer.isBoot]
  | io hl hc hu =>
    obtain rfl := Event.of_conn hl
    exact hP r (by simp [Event.strays, hx, hc, hu])

/-- **A reader reads the error of a context** only if it strays, or puts
the request's own in its place. -/
theorem Reading.owed {k : ℕ} {a : ReaderAct} {c : Conn}
    (hl : ev.label cfg = .conn k (.reader a)) (hc : s.conns[k]? = some c)
    (hP : ev.Attributed cfg S s)
    (hold : ∀ reply, c.reader.reply? = some (r, reply) → Owed S s r reply)
    (h : Reading S (s.env S) c a r reply) : Owed S s r reply := by
  obtain rfl := Event.of_conn hl
  intro hx
  cases h with
  | finish ha hr hreq =>
    subst ha
    exact hP r (by simp [Event.strays, hx, hc, hr, hreq, Reader.entry?])
  | limit => cases hx
  | @fed old hr =>
    cases hdone : s.done S r with
    | some x => exact State.excused_of_done hdone
    | none =>
      refine hold old hr ?_
      cases herr : old.err with
      | none => simp [respErr, herr] at hx
      | some x => simpa [respErr, herr, State.env, hdone, isCtx_named] using hx
  | @second x deliver checked first second ha hr hreq =>
    subst ha
    -- an error of the second response comes before one of the first
    cases herr : second.err with
    | none => exact hold first (by rw [hr, ← hreq]; rfl) (by simpa [secondReply, herr] using hx)
    | some y =>
      have hy : isCtx y = true := by simpa [secondReply, herr, isCtx_named] using hx
      exact hP r (by simp [Event.strays, herr, hy, hc, hr, hreq, Reader.entry?])

/-- One step. -/
theorem Vouched.owed_step (h : Vouched (Owed S s) s) (hstep : serve cfg S s ev = some s')
    (hP : ev.Attributed cfg S s) : Vouched (Owed S s') s' := by
  obtain ⟨hallowed, effs, hact⟩ := serve_acts hstep
  refine h.step hact (fun r reply hr hx => hact.excused (hr hx))
    (fun r e he hx => hact.excused (he.excused hallowed hP ?_))
    fun k a c r reply hl hc hold hr hx => hact.excused (hr.owed hl hc hP hold hx)
  simpa using hx

/-! ## Runs -/

theorem isCtx_of_classifyOutcome {code : ℤ} {err : Option GoError}
    (h : Dispatch.classifyOutcome code err = .cancellation) : err.any isCtx = true := by
  have hclass := Dispatch.classifyOutcome_classified code err
  rw [h] at hclass
  cases hclass with
  | cancellation h => exact h

theorem isCtx_toError {code : ℤ} {status : Bytes} (h : toError code status = some e) :
    isCtx e = false := by
  obtain ⟨n, message, rfl, -⟩ := Dispatch.toError_protocol h
  rfl

/-- Without the error of a context the outcome is no cancellation. -/
theorem isCtx_of_cancellation {q : Request} (h : q.outcome reply = .cancellation) :
    reply.err.any isCtx = true := by
  obtain ⟨code, status, err⟩ := reply
  unfold Request.outcome Dispatch.attemptOutcome at h
  split_ifs at h
  have hany := isCtx_of_classifyOutcome h
  cases err with
  | some e => exact hany
  | none =>
    obtain ⟨e, he, hx⟩ := (Option.any_eq_true _ _).mp hany
    exact absurd hx (by simp [isCtx_toError he])

/-- **A cancellation is the caller's or the client's**, in every run in
which the error of another context goes only to requests nobody waits
for. -/
theorem cancellation_of_context {es : List Event}
    (hrun : exec (serve cfg S) (start S) es = some s)
    (hall : Along (serve cfg S) (fun s ev => ev.Attributed cfg S s) (start S) es)
    (hstep : serve cfg S s ev = some s')
    (hrec : s.records S (ev.label cfg) = some (r, .cancellation)) : s.over S r = true := by
  have hvouched := exec_invariant (I := fun s => Vouched (Owed S s) s)
    (fun s ev s' h hP hs => h.owed_step hs hP) es (.start _ S) hall hrun
  obtain ⟨-, effs, hact⟩ := serve_acts hstep
  rcases State.records_eq_some hrec with ⟨reply, hl, hbuf, ho⟩ | ⟨why, e, -, he, ho⟩
  · have hexcused := hvouched.sent r reply hbuf (isCtx_of_cancellation ho)
    -- the attempt is waiting, so it is the call that is cancelled
    rw [hl] at hact
    cases hact with
    | receive ha => simpa [State.excused, ha] using hexcused
  · have hx : isCtx e = true := by simpa using isCtx_of_cancellation ho
    unfold State.over
    cases why with
    | client | caller =>
      obtain ⟨x, hx, -⟩ := Option.map_eq_some_iff.mp he
      simp [hx]
    | group =>
      -- a provider that is gone is no context error
      simp only [State.cause] at he
      split_ifs at he
      cases he
      cases hx

/-- A provider with one connection, asked for one article. -/
def oneBody : Setup where
  connections := 1
  limits := ⟨1, 1, 1⟩
  providerName := "p"
  keepaliveCode := 111
  info _ := { payload := ascii "BODY <a@b>\r\n", keepalive_writer := Request.any_writer }

/-- The request is handed in, and a slot takes it. -/
def taken : List Event :=
  [.other (.start 0), .other (.send 0), .other (.slot 0 .req), .other (.slot 0 .go)]

/-- The slot comes to the gate, and to its dial. -/
def dialling : List Event := taken ++ [.other (.slot 0 .go), .other (.slot 0 .go)]

/-- A caller that has cancelled by the time the slot has taken the
request. -/
theorem cancellation_of_context_caller : ∃ s s',
    exec (serve {} oneBody) (start oneBody)
      (taken ++ [.other (.cancelCaller 0 .canceled), .other (.slot 0 .go)]) = some s ∧
    serve {} oneBody s (.other (.receive 0)) = some s' ∧
    s.records oneBody (.receive 0) = some (0, .cancellation) ∧ s.over oneBody 0 = true := by
  have hrun : (exec (serve {} oneBody) (start oneBody)
      (taken ++ [.other (.cancelCaller 0 .canceled), .other (.slot 0 .go)])).map
        (fun s => (s.records oneBody (.receive 0),
          (serve {} oneBody s (.other (.receive 0))).isSome)) =
      some (some (0, .cancellation), true) := by decide
  obtain ⟨s, hs, hp⟩ := Option.map_eq_some_iff.mp hrun
  obtain ⟨hrec, hstep⟩ := Prod.mk.inj hp
  obtain ⟨s', hs'⟩ := Option.isSome_iff_exists.mp hstep
  exact ⟨s, s', hs, hs', hrec,
    cancellation_of_context hs (by decide) hs' hrec⟩

/-- The evidence of a response. -/
def evidenceOf (S : Setup) (r : ℕ) (reply : Reply) : Dispatch.Evidence :=
  Dispatch.buildAttemptEvidence
    ⟨(S.info r).payload, (S.info r).validateBody, (S.info r).maps451, false, false⟩
    S.providerName reply.statusCode reply.status reply.err

/-- After these events `tryGroup` records the request as cancelled,
with every context of the call alive, and the breaker takes it as
neutral. -/
def Unasked (es : List Event) : Prop :=
  ∃ s s' reply, exec (serve { tls := true } oneBody) (start oneBody) es = some s ∧
    serve { tls := true } oneBody s (.other (.receive 0)) = some s' ∧
    s.records oneBody (.receive 0) = some (0, .cancellation) ∧ s.over oneBody 0 = false ∧
    (s.ch 0).buf = some reply ∧
    classifyCircuitBreakerCompletion [evidenceOf oneBody 0 reply] true false
      (some (false, false)) = .neutral

/-- What is computed of such a run. -/
theorem Unasked.of_exec {es : List Event}
    (h : (exec (serve { tls := true } oneBody) (start oneBody) es).map (fun s =>
        ((s.records oneBody (.receive 0), s.over oneBody 0),
          (serve { tls := true } oneBody s (.other (.receive 0))).isSome,
          (s.ch 0).buf.map fun reply =>
            classifyCircuitBreakerCompletion [evidenceOf oneBody 0 reply] true false
              (some (false, false)))) =
      some ((some (0, .cancellation), false), true, some .neutral)) : Unasked es := by
  obtain ⟨s, hs, hp⟩ := Option.map_eq_some_iff.mp h
  obtain ⟨⟨hrec, hover⟩, hstep, hbuf⟩ := by simpa only [Prod.mk.injEq] using hp
  obtain ⟨s', hs'⟩ := Option.isSome_iff_exists.mp hstep
  obtain ⟨reply, hreply, hneutral⟩ := Option.map_eq_some_iff.mp hbuf
  exact ⟨s, s', reply, hs, hs', hrec, hover, hreply, hneutral⟩

/-- **Cancellations that nobody has asked for**: a dial and a handshake
that take longer than `newNetConn` allows, a provider that is removed
while a request is at its gate, and one that is removed while a new
connection waits for a place. -/
theorem timeouts_count_as_cancellation :
    Unasked (dialling ++ [.dial 0 { dial := some .expired }]) ∧
    Unasked (dialling ++ [.dial 0 { handshake := some .expired }]) ∧
    Unasked (taken ++
      [.other (.slot 0 .go), .other .removeProvider, .other (.slot 0 .refuse)]) ∧
    Unasked (dialling ++ [.dial 0 {}, .greet 0 { greeting := .ok ⟨200, []⟩ },
      .other (.conn 0 (.writer .go)), .other .removeProvider,
      .other (.conn 0 (.writer .connDone))]) := by
  refine ⟨?_, ?_, ?_, ?_⟩ <;> exact .of_exec (by decide)

end Pool

end NntpPool
