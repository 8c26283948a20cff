import NntpPool.Pool.Replies
import NntpPool.Dispatch.Turn
/-!
# Pool — what counts as an absence

An attempt is evidence that an article is absent if its own command was
answered with 423 or 430, or with 451 where the provider's policy says
so. The outcome is read off an error chain, though, and the login
dialogue puts `toError` of whatever code the server used into it: a 430
to AUTHINFO is `ErrArticleNotFound` to everything behind
(`newNNTPConnectionFromConn_isCode`). Where no login is refused with 423
or 430, an absence was answered.
-/

namespace NntpPool

namespace Pool

variable {S : Setup} {cfg : Config} {env : Env} {s s' : State} {ev : Event} {effs : List Effect}
variable {r : ℕ} {e : GoError} {reply : Reply}

/-! ## Errors from outside -/

/-- The error of a read. -/
def readError : Except GoError Line → List GoError
  | .error e => [e]
  | .ok _ => []

/-- The errors in a dial that the code has not made. -/
def Dial.foreign (d : Dial) : List GoError :=
  d.custom.toList ++ d.dial.toList.map Stop.dialError ++ d.handshake.toList.map Stop.handshakeError

/-- The errors in a dialogue that the code has not made. -/
def Dialogue.foreign (d : Dialogue) : List GoError :=
  readError d.greeting ++ d.userWrite.toList ++ readError d.user ++ d.passWrite.toList ++
    readError d.pass

/-- The errors that come into the pool from outside in a step: from the
factory, the connection, and the caller's writer. -/
def Event.foreign : Event → List GoError
  | .dial _ d => d.foreign
  | .greet _ d => d.foreign
  | .other (.conn _ (.writer (.ioErr e))) => [e]
  | .other (.conn _ (.reader (.finish _ reply))) => reply.err.toList
  | .other (.conn _ (.reader (.second _ reply))) => reply.err.toList
  | .other _ => []

/-- None of them is `ErrArticleNotFound`. -/
def Event.Genuine (ev : Event) : Prop := ∀ e ∈ ev.foreign, e.isCode 430 = false

instance (ev : Event) : Decidable ev.Genuine :=
  inferInstanceAs (Decidable (∀ e ∈ ev.foreign, e.isCode 430 = false))

/-! ## The login -/

/-- The code AUTHINFO PASS is refused with, where it is. -/
def Dialogue.passRefusal (d : Dialogue) : Option ℤ :=
  match d.passWrite, d.pass with
  | none, .ok resp => if resp.statusCode ≠ 281 then some resp.statusCode else none
  | _, _ => none

/-- The code AUTHINFO is refused with, where it is. -/
def Dialogue.authRefusal (d : Dialogue) : Option ℤ :=
  match d.userWrite, d.user with
  | none, .ok resp =>
    if resp.statusCode = 281 then none
    else if resp.statusCode = 381 then d.passRefusal
    else some resp.statusCode
  | _, _ => none

/-- The same of a whole dialogue, which may not come to a login. -/
def Dialogue.refusal (a : Auth) (d : Dialogue) : Option ℤ :=
  match d.greeting with
  | .ok greeting =>
    if (greeting.statusCode = 200 ∨ greeting.statusCode = 201) ∧ a.username ≠ "" ∧
        a.password ≠ "" then d.authRefusal
    else none
  | .error _ => none

/-- **No login is refused with 423 or 430.** -/
def Event.Admits (cfg : Config) : Event → Prop
  | .greet _ d => d.refusal cfg.auth ≠ some 423 ∧ d.refusal cfg.auth ≠ some 430
  | _ => True

instance (cfg : Config) : (ev : Event) → Decidable (ev.Admits cfg)
  | .greet _ d =>
    inferInstanceAs (Decidable (d.refusal cfg.auth ≠ some 423 ∧ d.refusal cfg.auth ≠ some 430))
  | .dial _ _ => .isTrue trivial
  | .other _ => .isTrue trivial

/-- The login dialogue classifies by the code alone. -/
theorem authResponseError_isCode (stage : String) (resp : Line) :
    (authResponseError stage resp).isCode 430 = true ↔
      resp.statusCode = 423 ∨ resp.statusCode = 430 := by
  have hclass (text : String) (category : GoError) :
      (withErrorClassification (plainError text) category).isCode 430 = category.isCode 430 := by
    unfold withErrorClassification plainError
    cases category <;> simp [GoError.isCode, GoError.isSentinel]
  rw [authResponseError, hclass]
  cases h : toError resp.statusCode resp.message with
  | some e => exact Dispatch.isCode_toError h
  | none => exact Dispatch.isCode_protocol _ _

theorem authPass_isCode {d : Dialogue} (h : authPass d = some e)
    (hd : ∀ x ∈ d.foreign, x.isCode 430 = false) :
    e.isCode 430 = true ↔ d.passRefusal = some 423 ∨ d.passRefusal = some 430 := by
  unfold authPass at h
  unfold Dialogue.passRefusal
  split at h
  · rename_i x hw
    cases h
    have := hd x (by simp [Dialogue.foreign, hw])
    simp [hw, GoError.isCode, this]
  · rename_i x hw hp
    cases h
    have := hd x (by simp [Dialogue.foreign, hp, readError])
    simp [hw, hp, GoError.isCode, this]
  · rename_i resp hw hp
    split_ifs at h with hcode
    cases h
    simp [hw, hp, hcode, authResponseError_isCode]

theorem auth_isCode {d : Dialogue} (h : auth d = some e)
    (hd : ∀ x ∈ d.foreign, x.isCode 430 = false) :
    e.isCode 430 = true ↔ d.authRefusal = some 423 ∨ d.authRefusal = some 430 := by
  unfold auth at h
  unfold Dialogue.authRefusal
  split at h
  · rename_i x hw
    cases h
    have := hd x (by simp [Dialogue.foreign, hw])
    simp [hw, GoError.isCode, this]
  · rename_i x hw hu
    cases h
    have := hd x (by simp [Dialogue.foreign, hu, readError])
    simp [hw, hu, GoError.isCode, this]
  · rename_i resp hw hu
    simp only [hw, hu]
    split_ifs at h with hcode hpass
    · rw [if_neg hcode, if_pos hpass]
      exact authPass_isCode h hd
    · cases h
      rw [if_neg hcode, if_neg hpass]
      simp [authResponseError_isCode]

/-- **A failed bootstrap is `ErrArticleNotFound`** exactly if the login was
refused with 423 or 430. -/
theorem newNNTPConnectionFromConn_isCode {a : Auth} {d : Dialogue}
    (h : newNNTPConnectionFromConn a d = some e) (hd : ∀ x ∈ d.foreign, x.isCode 430 = false) :
    e.isCode 430 = true ↔ d.refusal a = some 423 ∨ d.refusal a = some 430 := by
  unfold newNNTPConnectionFromConn at h
  unfold Dialogue.refusal
  split at h
  · rename_i x hg
    cases h
    have := hd x (by simp [Dialogue.foreign, hg, readError])
    simp [hg, GoError.isCode, this]
  · rename_i greeting hg
    simp only [hg]
    split_ifs at h with hcode huser hpass
    · cases h
      have : ¬(greeting.statusCode = 200 ∨ greeting.statusCode = 201) := by omega
      simp [this, GoError.isCode, errorCategory]
    · cases h
      simp [hpass, withErrorClassification, plainError, GoError.isCode, GoError.isSentinel]
    · rw [if_pos ⟨by omega, huser, hpass⟩]
      exact auth_isCode h hd

/-- No classification of a dial makes it `ErrArticleNotFound`. -/
theorem factory_isCode {d : Dial} (h : cfg.factory d = some e)
    (hd : ∀ x ∈ d.foreign, x.isCode 430 = false) : e.isCode 430 = false := by
  have hclass (x : GoError) : (withErrorClassification x
      (.sentinel .invalidProviderConfiguration)).isCode 430 = x.isCode 430 := by
    unfold withErrorClassification
    dsimp only
    split_ifs <;> simp [GoError.isCode]
  unfold Config.factory at h
  split_ifs at h
  · exact hd e (by simp [Dial.foreign, h])
  · unfold newNetConn at h
    split at h
    · rename_i stop hs
      cases h
      have := hd stop.dialError (by simp [Dial.foreign, hs])
      unfold classifyDialConfigurationError
      split_ifs <;> simp [hclass, this]
    · split_ifs at h
      obtain ⟨stop, hs, rfl⟩ := Option.map_eq_some_iff.mp h
      have := hd stop.handshakeError (by simp [Dial.foreign, hs])
      unfold classifyTLSConfigurationError
      split_ifs <;> simp [hclass, this]

/-! ## Responses -/

/-- The response carries no absence of its own, and the code it has was
read for the request. -/
def Read (log : List (ℕ × ℤ)) (r : ℕ) (reply : Reply) : Prop :=
  (∀ e, reply.err = some e → e.isCode 430 = false) ∧
    (reply.statusCode = 0 ∨ (r, reply.statusCode) ∈ log)

theorem isCode_named (S : Setup) (e : GoError) : (S.named e).isCode 430 = e.isCode 430 := by
  unfold Setup.named
  split_ifs <;> rfl

theorem isCode_ctxErr (x : CtxErr) : x.toError.isCode 430 = false := by
  cases x <;> rfl

/-- **No request is failed with an absence**, unless by its login. -/
theorem Fault.isCode (hallowed : ev.allowed s = true) (hg : ev.Genuine) (ha : ev.Admits cfg)
    (h : Fault S s (ev.label cfg) r e) : e.isCode 430 = false := by
  cases h with
  | own hx => exact isCode_ctxErr _
  | pool => rfl
  | died => exact (isCode_named S _).trans rfl
  | refused => rfl
  | connect hl hi =>
    rw [GoError.isCode]
    rcases Event.of_connect hallowed hl hi with ⟨d, rfl, hd⟩ | ⟨d, rfl, hd⟩
    · exact factory_isCode hd hg
    · have hiff := newNNTPConnectionFromConn_isCode hd hg
      exact Bool.eq_false_iff.mpr fun hc => (hiff.mp hc).elim ha.1 ha.2
  | conn => exact isCode_ctxErr _
  | io hl =>
    obtain rfl := Event.of_conn hl
    exact hg e List.mem_cons_self

theorem Read.failed (log : List (ℕ × ℤ)) (r : ℕ) (h : e.isCode 430 = false) :
    Read log r { err := some e } :=
  ⟨fun _ hx => Option.some.inj hx ▸ h, .inl rfl⟩

theorem Read.mono {log : List (ℕ × ℤ)} (h : Read log r reply) (more : List (ℕ × ℤ)) :
    Read (log ++ more) r reply :=
  ⟨h.1, h.2.imp_right (List.mem_append_left more)⟩

/-- The request's own context comes before the error that was read. -/
theorem Read.respErr {log : List (ℕ × ℤ)} (h : Read log r reply) :
    Read log r (respErr S env r reply) := by
  refine ⟨fun e he => ?_, h.2⟩
  obtain ⟨x, hx, rfl⟩ := Option.map_eq_some_iff.mp he
  rw [isCode_named]
  cases env.done r with
  | none => exact h.1 x hx
  | some ctx => exact isCode_ctxErr ctx

/-- **Readers read no absence** but for the codes. -/
theorem Reading.read {k : ℕ} {a : ReaderAct} {c : Conn} {log : List (ℕ × ℤ)}
    (hl : ev.label cfg = .conn k (.reader a)) (hc : s.conns[k]? = some c) (hg : ev.Genuine)
    (hold : ∀ reply, c.reader.reply? = some (r, reply) → Read log r reply)
    (h : Reading S (s.env S) c a r reply) :
    Read (log ++ s.answers (ev.label cfg)) r reply := by
  obtain rfl := Event.of_conn hl
  cases h with
  | finish ha hr hx =>
    subst ha
    exact ⟨fun e he => hg e (by simp [Event.foreign, he]),
      .inr (List.mem_append_right _ (by simp [State.answers, Event.label, hc, hr, hx]))⟩
  | limit ha hr hx =>
    subst ha
    exact ⟨fun e he => by cases he; rfl,
      .inr (List.mem_append_right _ (by simp [State.answers, Event.label, hc, hr, hx]))⟩
  | fed hr => exact (hold _ hr).respErr.mono _
  | second ha hr hx =>
    subst ha
    refine ⟨fun e he => ?_,
      .inr (List.mem_append_right _ (by simp [State.answers, Event.label, hc, hr, hx, secondReply]))⟩
    -- an error of the second response comes before one of the first
    rename_i second
    cases hs : second.err with
    | none => exact (hold _ (by rw [hr, ← hx]; rfl)).1 e (by simpa [secondReply, hs] using he)
    | some x =>
      obtain rfl : S.named x = e := by simpa [secondReply, hs] using he
      rw [isCode_named]
      exact hg x (by simp [Event.foreign, hs])

/-- The command was answered in a way that says the article is absent. -/
def AnsweredAbsent (S : Setup) (log : List (ℕ × ℤ)) (r : ℕ) : Prop :=
  (r, 423) ∈ log ∨ (r, 430) ∈ log ∨
    (r, 451) ∈ log ∧ (S.info r).maps451 = true ∧
      isArticleOperation (operationFromPayload (S.info r).payload) = true

instance (S : Setup) (log : List (ℕ × ℤ)) (r : ℕ) : Decidable (AnsweredAbsent S log r) :=
  inferInstanceAs (Decidable (_ ∨ _ ∨ _))

/-- An outcome of absence is the code's. -/
theorem Read.answered {log : List (ℕ × ℤ)} (h : Read log r reply)
    (ho : (S.info r).outcome reply = .hardArticleAbsence) : AnsweredAbsent S log r := by
  obtain ⟨code, status, err⟩ := reply
  have hlog (hcode : code ≠ 0) : (r, code) ∈ log := h.2.resolve_left hcode
  cases err with
  | none =>
    rcases Dispatch.attemptOutcome_none_absence.1 ho with rfl | rfl | hm
    · exact .inl (hlog (by decide))
    · exact .inr (.inl (hlog (by decide)))
    · obtain rfl := Dispatch.eq_of_requestMaps451 hm
      simp only [Dispatch.requestMaps451ToAbsence, Bool.and_eq_true] at hm
      exact .inr (.inr ⟨hlog (by decide), hm.1.2, hm.2⟩)
  | some e =>
    have hclass := (Dispatch.attemptOutcome_some _ code status e).symm.trans ho
    rcases Dispatch.classifyOutcome_some_absence hclass with rfl | rfl | hc
    · exact .inl (hlog (by decide))
    · exact .inr (.inl (hlog (by decide)))
    · simp [h.1 e rfl] at hc

/-! ## Runs -/

/-- One step. -/
theorem Vouched.read_step {log : List (ℕ × ℤ)} (h : Vouched (Read log) s)
    (hstep : serve cfg S s ev = some s') (hg : ev.Genuine) (ha : ev.Admits cfg) :
    Vouched (Read (log ++ s.answers (ev.label cfg))) s' := by
  obtain ⟨hallowed, effs, hact⟩ := serve_acts hstep
  exact h.step hact (fun r reply hr => hr.mono _)
    (fun r e he => .failed _ r (he.isCode hallowed hg ha))
    fun k a c r reply hl hc hold hr => hr.read hl hc hg hold

/-- What an attempt gives up on is no absence. -/
theorem isCode_cause {k : ℕ} {why : Why} (h : s.cause k why = some e) : e.isCode 430 = false := by
  cases why with
  | group =>
    simp only [State.cause] at h
    split_ifs at h
    cases h
    rfl
  | client | caller =>
    obtain ⟨x, -, rfl⟩ := Option.map_eq_some_iff.mp h
    exact isCode_ctxErr x

/-- The request of an attempt of `tryGroup`. -/
def Request.ofCommand (g : Dispatch.Provider) (cmd : Dispatch.Command) : Request where
  payload := cmd.payload
  validateBody := cmd.validateBody
  maps451 := g.maps451
  hasWriter := cmd.hasWriter
  postMode := false
  keepalive := false
  post_payload := nofun
  keepalive_writer := nofun

/-- Without a response it takes an error that says so. -/
theorem isCode_of_absence {req : Dispatch.RequestInfo} {providerID : String}
    (ho : (Dispatch.buildAttemptEvidence req providerID 0 [] (some e)).outcome =
      .hardArticleAbsence) : e.isCode 430 = true := by
  have hclass := (Dispatch.attemptOutcome_some req 0 [] e).symm.trans ho
  rcases Dispatch.classifyOutcome_some_absence hclass with h | h | h
  · cases h
  · cases h
  · exact h

/-- An attempt of `tryGroup` is evidence of an absence by its response. -/
theorem evidence_absence {g : Dispatch.Provider} {cmd : Dispatch.Command} {a : Dispatch.Attempt}
    {x : Dispatch.Evidence} (hx : x ∈ Dispatch.evidence g cmd a)
    (ho : x.outcome = .hardArticleAbsence) :
    ∃ reply : Reply, a.fin = .reply reply.statusCode reply.status reply.err ∧
      (Request.ofCommand g cmd).outcome reply = .hardArticleAbsence := by
  cases hok : (Dispatch.tryGroup g cmd a).ok with
  | false =>
    rcases Dispatch.tryGroup_silent hok with hr | ⟨y, hy, -, hev⟩
    · simp [Dispatch.evidence, hr] at hx
    · obtain rfl := List.mem_singleton.mp (hev ▸ hx)
      cases isCode_of_absence ho
  | true =>
    obtain ⟨code, status, err, hf⟩ := Dispatch.tryGroup_ok hok
    rw [Dispatch.evidence, Dispatch.tryGroup_reply hf] at hx
    dsimp only at hx
    split_ifs at hx
    · cases hx
    · obtain rfl := List.mem_singleton.mp hx
      exact ⟨⟨code, status, err⟩, hf, ho⟩

/-- **An absence was answered.** In every run in which no login is refused
with 423 or 430, an attempt that ends with the outcome of an absence is
one whose own command was answered with 423 or 430, or with 451 where
that is mapped; and whatever `tryGroupResilient` collects, an absence in
it is that of one of the responses to its attempts. -/
theorem absence_answered (cfg : Config) (S : Setup) :
    (∀ es s ev s' r, exec (serve cfg S) (start S) es = some s →
      Along (serve cfg S) (fun _ ev => ev.Genuine ∧ ev.Admits cfg) (start S) es →
      serve cfg S s ev = some s' →
      s.records S (ev.label cfg) = some (r, .hardArticleAbsence) →
      AnsweredAbsent S (logged (serve cfg S) (fun s ev => s.answers (ev.label cfg)) (start S) es)
        r) ∧
    ∀ g cmd turn t, Dispatch.tryGroupResilient g cmd turn = some t →
      ∀ x ∈ t.resp.attempts, x.outcome = .hardArticleAbsence →
        ∃ a ∈ t.made, ∃ reply : Reply,
          a.fin = .reply reply.statusCode reply.status reply.err ∧
            (Request.ofCommand g cmd).outcome reply = .hardArticleAbsence := by
  refine ⟨fun es s ev s' r hrun hall hstep hrec => ?_, fun g cmd turn t ht x hx ho => ?_⟩
  · have hvouched := exec_logged (I := fun s log => Vouched (Read log) s)
      (fun s log ev s' h hP hs => h.read_step hs hP.1 hP.2) es (.start (Read []) S) hall hrun
    rw [List.nil_append] at hvouched
    rcases State.records_eq_some hrec with ⟨reply, -, hbuf, ho⟩ | ⟨why, e, -, he, ho⟩
    · exact (hvouched.sent r reply hbuf).answered ho
    · exact (Read.failed _ r (isCode_cause he)).answered ho
  · cases Dispatch.tryGroupResilient_turned ht with
    | refused e cancelled he =>
      obtain rfl := List.mem_singleton.mp hx
      exact absurd (isCode_of_absence ho) (by simp [he])
    | made front a cancelled hfront hlast =>
      obtain ⟨b, hb, hev⟩ := List.mem_flatMap.mp hx
      obtain ⟨reply, hreply⟩ := evidence_absence hev ho
      exact ⟨b, hb, reply, hreply⟩

theorem stat_not_posted : false = true → isCheapCommand (ascii "STAT <a@b>\r\n") = false :=
  fun h => absurd h Bool.false_ne_true

/-- A provider with one connection, asked for one article. -/
def oneStat : Setup where
  connections := 1
  limits := ⟨1, 1, 1⟩
  providerName := "p"
  keepaliveCode := 111
  info _ := { payload := ascii "STAT <a@b>\r\n", post_payload := stat_not_posted,
              keepalive_writer := Request.any_writer }

/-- It wants a login. -/
def withLogin : Config where
  auth := ⟨"u", "w"⟩

/-- The request is handed in and a slot comes to connect for it, to a
server that greets and answers AUTHINFO USER with `code`. -/
def connecting (code : ℤ) : List Event :=
  [.other (.start 0), .other (.send 0), .other (.slot 0 .req), .other (.slot 0 .go),
    .other (.slot 0 .go), .other (.slot 0 .go), .dial 0 {},
    .greet 0 { greeting := .ok ⟨200, ascii "ready"⟩, user := .ok ⟨code, ascii "no"⟩ }]

/-- The connection sends the command and reads the answer. -/
def answering (code : ℤ) : List Event :=
  (List.replicate 6 (.other (.conn 0 (.writer .go)))) ++
  (List.replicate 4 (.other (.conn 0 (.reader .go)))) ++
    [.other (.conn 0 (.reader (.finish false ⟨code, ascii "no", none⟩))),
      .other (.conn 0 (.reader .go)), .other (.conn 0 (.reader .go))]

/-- A login that goes through, and an article that is not there. -/
theorem absence_answered_stat : ∃ s s',
    exec (serve withLogin oneStat) (start oneStat) (connecting 281 ++ answering 430) = some s ∧
    serve withLogin oneStat s (.other (.receive 0)) = some s' ∧
    s.records oneStat (.receive 0) = some (0, .hardArticleAbsence) ∧
    AnsweredAbsent oneStat (logged (serve withLogin oneStat)
      (fun s ev => s.answers (ev.label withLogin)) (start oneStat)
      (connecting 281 ++ answering 430)) 0 := by
  have hrun : (exec (serve withLogin oneStat) (start oneStat)
      (connecting 281 ++ answering 430)).map (fun s => (s.records oneStat (.receive 0),
        (serve withLogin oneStat s (.other (.receive 0))).isSome)) =
      some (some (0, .hardArticleAbsence), true) := by decide
  obtain ⟨s, hs, hp⟩ := Option.map_eq_some_iff.mp hrun
  obtain ⟨hrec, hstep⟩ := Prod.mk.inj hp
  obtain ⟨s', hs'⟩ := Option.isSome_iff_exists.mp hstep
  exact ⟨s, s', hs, hs', hrec, (absence_answered withLogin oneStat).1 _ s _ s' 0 hs
    (by decide) hs' hrec⟩

/-- **A login refused with 430 counts as an absence**: no article was ever
asked for, and nothing but the server's code is out of the ordinary. -/
theorem refused_login_is_absence : ∃ s s',
    exec (serve withLogin oneStat) (start oneStat) (connecting 430) = some s ∧
    Along (serve withLogin oneStat) (fun _ ev => ev.Genuine) (start oneStat) (connecting 430) ∧
    serve withLogin oneStat s (.other (.receive 0)) = some s' ∧
    s.records oneStat (.receive 0) = some (0, .hardArticleAbsence) ∧
    ¬AnsweredAbsent oneStat (logged (serve withLogin oneStat)
      (fun s ev => s.answers (ev.label withLogin)) (start oneStat) (connecting 430)) 0 := by
  have hrun : (exec (serve withLogin oneStat) (start oneStat) (connecting 430)).map
      (fun s => (s.records oneStat (.receive 0),
        (serve withLogin oneStat s (.other (.receive 0))).isSome)) =
      some (some (0, .hardArticleAbsence), true) := by decide
  obtain ⟨s, hs, hp⟩ := Option.map_eq_some_iff.mp hrun
  obtain ⟨hrec, hstep⟩ := Prod.mk.inj hp
  obtain ⟨s', hs'⟩ := Option.isSome_iff_exists.mp hstep
  exact ⟨s, s', hs, by decide, hs', hrec, by decide⟩

end Pool

end NntpPool
