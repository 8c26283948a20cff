import NntpPool.Conn.Model.Pipeline
import NntpPool.Reader.Window
/-!
# Conn — whose response a request is given

The reader matches responses to requests by counting: the next response
on the wire belongs to the next request of the FIFO. The count holds as
long as every response is read to its end, or the connection is retired,
and nobody else takes requests out of the FIFO. `Keeps` is that condition
on a step, and along a run of such steps every response delivered is the
one the server produced for that request, or a front part of it with an
error (`responses_attributed`).

It is not met by every step. A cancelled request's read error is replaced
by `context.Canceled`, which does not retire the connection, so the
response of a STAT that comes too late is given to the next request
(`late_response_misattributed`).
-/

namespace NntpPool

namespace Conn

open Reader

/-! ## The property -/

/-- What one call of `Feed` makes of exactly the reply. -/
def Reply.decoded (N : Rapidyenc) (req : Request) (R : Reply) : Option Decoded :=
  decode N.decodeIncremental accepting (fresh req.onMeta req.validateBody).toDecoder [] R.bytes

/-- The response has nothing from the wire. -/
structure Response.Empty (resp : Response) : Prop where
  statusCode : resp.statusCode = 0
  status : resp.status = []
  lines : resp.lines = []
  body : resp.body = []

/-- The response is the reply that comes to `d`. -/
structure Response.Shows (resp : Response) (d : Decoded) : Prop where
  statusCode : resp.statusCode = d.r.statusCode
  status : resp.status = d.r.message
  lines : resp.lines = d.r.lines
  body : resp.body = d.out

/-- The response is a front part of it. -/
structure Response.ShowsPart (resp : Response) (d : Decoded) : Prop where
  status : resp.statusCode = 0 ∧ resp.status = [] ∨
    resp.statusCode = d.r.statusCode ∧ resp.status = d.r.message
  lines : resp.lines <+: d.r.lines
  body : resp.body <+: d.out

/-- **The response is that of the request's own command**: all of it, or
with an error a front part of it, or nothing. -/
def Attributed (N : Rapidyenc) (replies : List Reply) (e : Entry) (resp : Response) : Prop :=
  (resp.err = none →
    ∃ R d, replies[e.index]? = some R ∧ R.decoded N e.req = some d ∧ resp.Shows d) ∧
  (resp.err ≠ none → resp.Empty ∨
    ∃ R d, replies[e.index]? = some R ∧ R.decoded N e.req = some d ∧ resp.ShowsPart d)

/-- The bytes of the replies from the `i`-th on. -/
def owedFrom (replies : List Reply) (i : ℕ) : Bytes := ((replies.drop i).map Reply.bytes).flatten

/-- **Requests and responses are matched**: so far, and for the request
that is next, whose response is what is unread. -/
structure Pipeline.Matched (N : Rapidyenc) (s : Pipeline) : Prop where
  delivered : ∀ p ∈ s.delivered, Attributed N s.replies p.1 p.2
  aligned : s.phase = .idle → s.window ++ s.wire = owedFrom s.replies s.started
  next : s.failing = false → ∀ e ∈ s.pending.head?, e.index = s.started

/-- Behind a response that was not read to its end the connection is
retired. -/
def RetiresEarly (cfg : Config) (s : Pipeline) : Phase → Prop
  | .stopped x (some e) =>
    retires x.cur.req.payload (x.response cfg (s.ctxErr x.cur.index) (some e)) = true
  | _ => True

instance (cfg : Config) (s : Pipeline) : (p : Phase) → Decidable (RetiresEarly cfg s p)
  | .stopped _ (some _) => inferInstanceAs (Decidable (_ = true))
  | .stopped _ none => .isTrue trivial
  | .idle => .isTrue trivial
  | .reading _ => .isTrue trivial
  | .dead => .isTrue trivial

/-- **The steps that keep them matched**: no request is taken once the
writer has begun to fail what is pending, and a response that was not
read to its end retires the connection. -/
def Keeps (cfg : Config) (s : Pipeline) : Label → Prop
  | .take _ => s.failing = false
  | .finish => RetiresEarly cfg s s.phase
  | _ => True

instance (cfg : Config) (s : Pipeline) : (l : Label) → Decidable (Keeps cfg s l)
  | .take _ => inferInstanceAs (Decidable (_ = false))
  | .finish => inferInstanceAs (Decidable (RetiresEarly _ _ _))
  | .write _ | .push | .answer _ | .cancel _ _ | .read _ _ _ _ | .feed _ _ | .recheck _ _
  | .failOutstanding | .stop => .isTrue trivial

/-- **When a response that was not read to its end retires the
connection**: always for BODY and ARTICLE; otherwise the error counts
only while the request is wanted, and of the context's errors only an
expired deadline does. -/
theorem retires_early_iff (cfg : Config) (x : Reading) (ctxErr : Option CtxErr) (e : GoError) :
    retires x.cur.req.payload (x.response cfg ctxErr (some e)) = true ↔
      isBodyCommand x.cur.req.payload = true ∨ ctxErr = some .deadlineExceeded ∨
        (ctxErr = none ∧ (e.isTimeout = true ∨ e.isSentinel .protocolDesync = true)) ∨
        x.r.statusCode = 502 ∨ x.r.statusCode = 451 := by
  have hwrap : ∀ e : GoError,
      (if cfg.providerName = "" then e else .wrapped cfg.providerName e).isTimeout = e.isTimeout ∧
      (if cfg.providerName = "" then e else .wrapped cfg.providerName e).isSentinel
        .protocolDesync = e.isSentinel .protocolDesync := by
    intro e
    split_ifs <;> exact ⟨rfl, rfl⟩
  have hdl : (GoError.sentinel .deadlineExceeded).isTimeout = true := rfl
  have hca : (GoError.sentinel .canceled).isTimeout = false := rfl
  have hca' : (GoError.sentinel .canceled).isSentinel .protocolDesync = false := rfl
  rcases ctxErr with _ | _ | _ <;>
    simp [retires, Reading.response, Reading.validated, respErr, hwrap, CtxErr.toError, hdl, hca,
      hca', or_assoc]

/-! ## Within a response -/

section Standing

variable (N : Rapidyenc) (replies : List Reply) (unread : Bytes) (x : Reading)

/-- The reader has seen a part of the reply to its request, or nothing. -/
def SeenPart : Prop :=
  seen x.r.toDecoder = (0, [], []) ∧ x.out = [] ∨
    ∃ R D, replies[x.cur.index]? = some R ∧
      Framed N x.cur.req.onMeta x.cur.req.validateBody R.bytes D ∧
      PartOf x.r.toDecoder x.out D.r D.out

/-- The reader has read the reply to its request, and `unread` is what
follows it. -/
def Over : Prop :=
  ∃ R D, replies[x.cur.index]? = some R ∧
    Framed N x.cur.req.onMeta x.cur.req.validateBody R.bytes D ∧
    x.r.toDecoder = D.r ∧ x.out = D.out ∧ unread = owedFrom replies (x.cur.index + 1)

/-- The reader waits for a reply that has not been sent. -/
def Waiting : Prop :=
  replies.length = x.cur.index ∧ unread = [] ∧
    x.r.toDecoder = (fresh x.cur.req.onMeta x.cur.req.validateBody).toDecoder ∧ x.out = []

/-- The reader is within the reply to its request. -/
def Amid : Prop :=
  ∃ R rest, replies[x.cur.index]? = some R ∧
    Midway N x.cur.req.onMeta x.cur.req.validateBody R.bytes x.r.toDecoder x.out rest ∧
    unread = rest ++ owedFrom replies (x.cur.index + 1)

/-- **Where the reader stands** in the stream of replies. -/
def Standing : Prop :=
  if x.point = .fed true then Over N replies unread x
  else Waiting replies unread x ∨ Amid N replies unread x

theorem framed_reply (onMeta strict : Bool) (R : Reply) :
    ∃ D, Framed N onMeta strict R.bytes D := by
  cases R with
  | text R => exact framed_textReply N onMeta strict R
  | yenc R => exact framed_yencReply N onMeta strict R

variable {N replies unread x}

/-- Wherever it stands, what it has seen is a part of the reply. -/
theorem Standing.seenPart (h : Standing N replies unread x) : SeenPart N replies x := by
  unfold Standing at h
  split_ifs at h
  · obtain ⟨R, D, hR, hF, hr, ho, -⟩ := h
    refine Or.inr ⟨R, D, hR, hF, ?_⟩
    rw [hr, ho]
    exact .refl _ _
  · rcases h with ⟨-, -, hr, ho⟩ | ⟨R, rest, hR, hmid, -⟩
    · exact Or.inl ⟨by rw [hr]; rfl, ho⟩
    · obtain ⟨D, hF⟩ := framed_reply N x.cur.req.onMeta x.cur.req.validateBody R
      obtain ⟨hb, hg⟩ := hmid.grows hF
      exact Or.inr ⟨R, D, hR, hF, hg.partOf hb⟩

/-- Between two calls of `Feed` the place is the same. -/
theorem Standing.of_point {x' : Reading} (h : Standing N replies unread x)
    (hp : x.point ≠ .fed true) (hp' : x'.point ≠ .fed true) (hcur : x'.cur = x.cur)
    (hr : x'.r.toDecoder = x.r.toDecoder) (ho : x'.out = x.out) :
    Standing N replies unread x' := by
  unfold Standing at h ⊢
  rw [if_neg hp] at h
  rw [if_neg hp']
  unfold Waiting Amid at h ⊢
  rw [hcur, hr, ho]
  exact h

/-! ## The server answers -/

theorem getElem?_append_reply {i : ℕ} {R : Reply} (h : replies[i]? = some R) (R' : Reply) :
    (replies ++ [R'])[i]? = some R := by
  obtain ⟨hi, -⟩ := List.getElem?_eq_some_iff.mp h
  rw [List.getElem?_append_left hi, h]

theorem owedFrom_append {i : ℕ} (h : i ≤ replies.length) (R : Reply) :
    owedFrom (replies ++ [R]) i = owedFrom replies i ++ R.bytes := by
  simp [owedFrom, List.drop_append_of_le_length h]

theorem SeenPart.answer (h : SeenPart N replies x) (R : Reply) :
    SeenPart N (replies ++ [R]) x := by
  rcases h with h | ⟨R', D, hR, h⟩
  · exact Or.inl h
  · exact Or.inr ⟨R', D, getElem?_append_reply hR R, h⟩

theorem Over.answer (h : Over N replies unread x) (R : Reply) :
    Over N (replies ++ [R]) (unread ++ R.bytes) x := by
  obtain ⟨R', D, hR, hF, hr, ho, hu⟩ := h
  obtain ⟨hi, -⟩ := List.getElem?_eq_some_iff.mp hR
  exact ⟨R', D, getElem?_append_reply hR R, hF, hr, ho, by rw [owedFrom_append hi, hu]⟩

/-- **A reply that is sent is the one the reader waits for**, or comes
behind those it has still to read. -/
theorem Standing.answer (h : Standing N replies unread x) (R : Reply) :
    Standing N (replies ++ [R]) (unread ++ R.bytes) x := by
  unfold Standing at h ⊢
  split_ifs at h ⊢
  · exact h.answer R
  · refine Or.inr ?_
    rcases h with ⟨hi, hu, hr, ho⟩ | ⟨R', rest, hR, hmid, hu⟩
    · refine ⟨R, R.bytes, by simp [← hi], ?_, ?_⟩
      · rw [hr, ho]
        exact midway_fresh N _ _ R.bytes
      · simp [hu, owedFrom, ← hi]
    · obtain ⟨hi, -⟩ := List.getElem?_eq_some_iff.mp hR
      exact ⟨R', rest, getElem?_append_reply hR R, hmid, by
        rw [owedFrom_append hi, hu, List.append_assoc]⟩

theorem Attributed.answer {e : Entry} {resp : Response} (h : Attributed N replies e resp)
    (R : Reply) : Attributed N (replies ++ [R]) e resp := by
  refine ⟨fun he => ?_, fun he => ?_⟩
  · obtain ⟨R', d, hR, hd⟩ := h.1 he
    exact ⟨R', d, getElem?_append_reply hR R, hd⟩
  · rcases h.2 he with h | ⟨R', d, hR, hd⟩
    · exact Or.inl h
    · exact Or.inr ⟨R', d, getElem?_append_reply hR R, hd⟩

end Standing

/-! ## One call of `Feed` -/

section Feed

variable {N : Rapidyenc} {replies : List Reply} {window wire : Bytes} {x : Reading}

theorem feedWindow_append (lim : Limits) (window : Bytes) :
    feedWindow lim window ++ window.drop (feedWindow lim window).length = window := by
  have hpre : feedWindow lim window <+: window := by
    unfold feedWindow
    split_ifs
    · exact List.take_prefix _ _
    · exact List.prefix_refl _
  exact List.prefix_append_drop hpre |>.symm

/-- **A call of `Feed` keeps the reader in its place**, or shows a part of
the reply. -/
theorem Standing.feed (h : Standing N replies (window ++ wire) x) (hp : x.point ≠ .fed true)
    (w : Writer) (lim : Limits) {f : Fed}
    (hf : Reader.feed N.decodeIncremental w x.r x.out (feedWindow lim window) = some f) (n : ℤ) :
    let x' := { x with r := f.r, out := f.out, consumedBytes := n }
    (f.err ≠ none → SeenPart N replies x') ∧
      (f.err = none → Standing N replies
        (f.rest ++ window.drop (feedWindow lim window).length ++ wire)
        { x' with point := .fed f.done }) := by
  intro x'
  obtain ⟨d, hd, rfl⟩ := Option.map_eq_some_iff.mp hf
  have hwin := feedWindow_append lim window
  generalize hu : window.drop (feedWindow lim window).length = u at hwin
  generalize feedWindow lim window = c at hwin hd
  unfold Standing at h
  rw [if_neg hp] at h
  rcases h with ⟨hi, hnil, hr, ho⟩ | ⟨R, rest, hR, hmid, hrest⟩
  · -- nothing has been sent, so the window is empty
    rw [← hwin] at hnil
    obtain ⟨rfl, rfl, rfl⟩ : c = [] ∧ u = [] ∧ wire = [] := by simpa using hnil
    have hnob : ¬ (fresh x.cur.req.onMeta x.cur.req.validateBody).body = true := nofun
    rw [hr, ho, decode, if_neg hnob, scan_of_cut_none N w [] 0 (by decide)] at hd
    obtain rfl := Option.some.inj hd
    refine ⟨fun he => absurd rfl he, fun _ => ?_⟩
    rw [Standing, if_neg (by simp [fresh])]
    exact Or.inl ⟨hi, rfl, rfl, rfl⟩
  · obtain ⟨D, hF⟩ := framed_reply N x.cur.req.onMeta x.cur.req.validateBody R
    rw [← hwin, List.append_assoc] at hrest
    obtain ⟨d', hd', herr', hplace⟩ := hmid.feed hF hrest
    obtain ⟨hblank, -⟩ := hmid.grows hF
    rcases decode_writes N w hmid.settled hd hd' with rfl | ⟨herr, hb, hg⟩
    · refine ⟨fun he => absurd herr' he, fun _ => ?_⟩
      rw [List.append_assoc]
      rcases hplace with ⟨heof, rest', hmid', hrest'⟩ | ⟨hr, ho, heof, hrest'⟩
      · rw [Standing, if_neg (by simp [heof])]
        exact Or.inr ⟨R, rest', hR, hmid', hrest'⟩
      · rw [Standing, if_pos (by simp [heof, herr'])]
        exact ⟨R, D, hR, hF, hr, ho, hrest'⟩
    · refine ⟨fun _ => Or.inr ⟨R, D, hR, hF, ?_⟩, fun he => absurd he herr⟩
      refine Grows.partOf ?_ (hb hblank)
      rcases hplace with ⟨-, rest', hmid', -⟩ | ⟨hr, ho, -, -⟩
      · exact hg.trans (hmid'.grows hF).2
      · rw [← hr, ← ho]
        exact hg

end Feed

/-! ## Behind a response -/

section Finish

variable {N : Rapidyenc} {replies : List Reply} {x : Reading}

/-- A reply that was read whole is decoded in one call. -/
theorem Reply.decoded_eq {R : Reply} {req : Request} {D : Decoded}
    (hF : Framed N req.onMeta req.validateBody R.bytes D) : R.decoded N req = some D := by
  have hstuck : ¬ Stuck (fresh req.onMeta req.validateBody).toDecoder := fun h => nomatch h.1
  rw [Reply.decoded, decode_eq_drive hstuck]
  exact hF.whole

theorem seen_validateBody (r : Decoder) : seen (Reader.validateBody r).1 = seen r := by
  unfold Reader.validateBody
  split_ifs
  · rfl
  · split
    · rfl
    · unfold applicableCRC
      split_ifs <;> rfl

/-- `validateBody` leaves what the caller sees. -/
theorem seen_validated (err : Option GoError) :
    seen (x.validated err).1.toDecoder = seen x.r.toDecoder := by
  unfold Reading.validated
  split
  · rfl
  · split_ifs
    · exact seen_validateBody x.r.toDecoder
    · rfl

/-- A response built from a part of the reply is attributed, if it has an
error. -/
theorem attributed_of_seenPart (h : SeenPart N replies x) (cfg : Config)
    (ctxErr : Option CtxErr) (err : Option GoError)
    (he : (x.response cfg ctxErr err).err ≠ none) :
    Attributed N replies x.cur (x.response cfg ctxErr err) := by
  refine ⟨fun hn => absurd hn he, fun _ => ?_⟩
  have hseen := seen_validated (x := x) err
  rcases h with ⟨hs, ho⟩ | ⟨R, D, hR, hF, hpart⟩
  · rw [hs] at hseen
    simp only [seen, Prod.mk.injEq] at hseen
    exact Or.inl ⟨hseen.1, hseen.2.1, hseen.2.2, ho⟩
  · simp only [seen, Prod.mk.injEq] at hseen
    refine Or.inr ⟨R, D, hR, Reply.decoded_eq hF, ?_, ?_, hpart.out⟩
    · change (x.validated err).1.statusCode = 0 ∧ (x.validated err).1.message = [] ∨ _
      rw [hseen.1, hseen.2.1]
      rcases hpart.status with h | h
      · exact Or.inl h
      · exact Or.inr ⟨hseen.1.trans h.1, hseen.2.1.trans h.2⟩
    · change (x.validated err).1.lines <+: _
      rw [hseen.2.2]
      exact hpart.lines

/-- A response built from all of the reply is attributed. -/
theorem attributed_of_over {unread : Bytes} (h : Over N replies unread x) (cfg : Config)
    (ctxErr : Option CtxErr) (err : Option GoError) :
    Attributed N replies x.cur (x.response cfg ctxErr err) := by
  obtain ⟨R, D, hR, hF, hr, ho, -⟩ := h
  have hpart : SeenPart N replies x := Or.inr ⟨R, D, hR, hF, by rw [hr, ho]; exact .refl _ _⟩
  refine ⟨fun _ => ?_, fun he => (attributed_of_seenPart hpart cfg ctxErr err he).2 he⟩
  have hseen := seen_validated (x := x) err
  rw [hr] at hseen
  simp only [seen, Prod.mk.injEq] at hseen
  exact ⟨R, D, hR, Reply.decoded_eq hF, hseen.1, hseen.2.1, hseen.2.2, ho⟩

end Finish

/-! ## The invariant -/

section Invariant

variable (N : Rapidyenc) (cfg : Config)

/-- Where the reader is in the stream of replies, in each of its phases. -/
def Place (replies : List Reply) (unread : Bytes) (started : ℕ) : Phase → Prop
  | .idle => started ≤ replies.length ∧ unread = owedFrom replies started
  | .reading x => x.cur.index + 1 = started ∧ Standing N replies unread x
  | .stopped x none => x.cur.index + 1 = started ∧ Over N replies unread x
  | .stopped x (some _) => SeenPart N replies x
  | .dead => True

/-- **The invariant.** The FIFO, with the writer's request behind it, holds
the commands that were written and not taken, in their order. -/
structure Inv (s : Pipeline) : Prop where
  answered : s.replies.length ≤ s.written
  started : s.started ≤ s.written
  queued : s.failing = false → (s.pending ++ s.writer.toList).map Entry.index =
    List.range' s.started (s.written - s.started)
  place : Place N s.replies (s.window ++ s.wire) s.started s.phase
  delivered : ∀ p ∈ s.delivered, Attributed N s.replies p.1 p.2

theorem inv_init : Inv N {} :=
  ⟨Nat.le_refl 0, Nat.le_refl 0, fun _ => rfl, ⟨Nat.le_refl 0, rfl⟩, fun _ h => nomatch h⟩

variable {N cfg} {s s' : Pipeline}

/-- The requests of the FIFO are next in order. -/
theorem Inv.head (h : Inv N s) (hf : s.failing = false) {e : Entry} {rest : List Entry}
    (hp : s.pending = e :: rest) :
    e.index = s.started ∧ s.started + 1 ≤ s.written ∧
      (rest ++ s.writer.toList).map Entry.index =
        List.range' (s.started + 1) (s.written - (s.started + 1)) := by
  have hq := h.queued hf
  have hlt : s.started < s.written := by
    by_contra hge
    rw [hp, show s.written - s.started = 0 by omega] at hq
    simp at hq
  rw [hp, show s.written - s.started = s.written - (s.started + 1) + 1 by omega,
    List.range'_succ] at hq
  simp only [List.cons_append, List.map_cons, List.cons.injEq] at hq
  exact ⟨hq.1, hlt, hq.2⟩

theorem Inv.write (h : Inv N s) (hw : s.writer = none) (req : Request) :
    Inv N { s with writer := some ⟨s.written, req⟩, written := s.written + 1 } := by
  have hle := h.started
  refine ⟨Nat.le_succ_of_le h.answered, Nat.le_succ_of_le h.started, fun hf => ?_, h.place,
    h.delivered⟩
  have hq := h.queued hf
  simp only [hw, Option.toList_none, List.append_nil] at hq
  simp only [Option.toList_some, List.map_append, hq, List.map_cons, List.map_nil]
  rw [show s.written + 1 - s.started = s.written - s.started + 1 by omega, List.range'_1_concat,
    show s.started + (s.written - s.started) = s.written by omega]

theorem Inv.push (h : Inv N s) {e : Entry} (hw : s.writer = some e) :
    Inv N { s with writer := none, pending := s.pending ++ [e] } := by
  refine ⟨h.answered, h.started, fun hf => ?_, h.place, h.delivered⟩
  have hq := h.queued hf
  rw [hw] at hq
  simpa using hq

/-- A reply that is sent comes behind all that is unread. -/
theorem Place.answer {replies : List Reply} {unread : Bytes} {started : ℕ} {phase : Phase}
    (h : Place N replies unread started phase) (R : Reply) :
    Place N (replies ++ [R]) (unread ++ R.bytes) started phase := by
  rcases phase with _ | x | ⟨x, _ | e⟩ | _
  · refine ⟨le_trans h.1 (by simp), ?_⟩
    rw [owedFrom_append h.1, h.2]
  · exact ⟨h.1, h.2.answer R⟩
  · exact ⟨h.1, h.2.answer R⟩
  · exact SeenPart.answer h R
  · trivial

theorem Inv.answer (h : Inv N s) (hlt : s.replies.length < s.written) (R : Reply) :
    Inv N { s with replies := s.replies ++ [R], wire := s.wire ++ R.bytes } := by
  refine ⟨?_, h.started, h.queued, ?_, fun p hp => (h.delivered p hp).answer R⟩
  · rw [List.length_append, List.length_singleton]
    exact hlt
  · rw [← List.append_assoc]
    exact h.place.answer R

theorem Inv.take (h : Inv N s) (hi : s.phase = .idle) (hf : s.failing = false) {e : Entry}
    {rest : List Entry} (hp : s.pending = e :: rest) (ctxDone : Bool) (now : Time) :
    Inv N { s with
      pending := rest
      started := s.started + 1
      phase := .reading (beginReading e ctxDone now) } := by
  obtain ⟨hidx, hle, hq⟩ := h.head hf hp
  have hplace := h.place
  rw [hi] at hplace
  obtain ⟨hlen, hunread⟩ := hplace
  refine ⟨h.answered, hle, fun _ => hq, ⟨by rw [← hidx]; rfl, ?_⟩, h.delivered⟩
  rw [Standing, if_neg (by simp [beginReading])]
  rcases Nat.lt_or_ge s.started s.replies.length with hlt | hge
  · refine Or.inr ⟨s.replies[s.started], s.replies[s.started].bytes, ?_, ?_, ?_⟩
    · simp [beginReading, hidx, hlt]
    · exact midway_fresh N _ _ _
    · rw [hunread, owedFrom, List.drop_eq_getElem_cons hlt, List.map_cons, List.flatten_cons]
      rw [show (beginReading e ctxDone now).cur.index = s.started from hidx]
      rfl
  · refine Or.inl ⟨?_, ?_, rfl, rfl⟩
    · exact (Nat.le_antisymm hge hlen).trans hidx.symm
    · rw [hunread, owedFrom, List.drop_of_length_le hge]
      rfl

/-- A reader that has stopped keeps what it has seen. -/
theorem Inv.stopped (h : Inv N s) {x : Reading} {e : GoError} {window wire : Bytes}
    (hs : SeenPart N s.replies x) :
    Inv N { s with window := window, wire := wire, phase := .stopped x (some e) } :=
  ⟨h.answered, h.started, h.queued, hs, h.delivered⟩

theorem Inv.readMore (h : Inv N s) {x : Reading} (hi : x.cur.index + 1 = s.started)
    (hst : Standing N s.replies (s.window ++ s.wire) x) (hp : x.point ≠ .fed true) {n : ℕ}
    {err : Option GoError} (hs : readMore s x n err = some s') : Inv N s' := by
  unfold Conn.readMore at hs
  split_ifs at hs with hfull hn
  · obtain rfl := Option.some.inj hs
    exact h.stopped hst.seenPart
  · have hmove : s.window ++ s.wire.take n ++ s.wire.drop n = s.window ++ s.wire := by
      rw [List.append_assoc, List.take_append_drop]
    cases err with
    | some e =>
      obtain rfl := Option.some.inj hs
      exact h.stopped hst.seenPart
    | none =>
      obtain rfl := Option.some.inj hs
      refine ⟨h.answered, h.started, h.queued, ⟨hi, ?_⟩, h.delivered⟩
      dsimp only
      rw [hmove]
      refine hst.of_point hp ?_ rfl rfl rfl
      dsimp only
      split_ifs <;> simp

theorem Inv.feedOnce (h : Inv N s) {x : Reading} (hi : x.cur.index + 1 = s.started)
    (hst : Standing N s.replies (s.window ++ s.wire) x) (hp : x.point ≠ .fed true)
    (lim : Limits) : Inv N (feedOnce N s x lim) := by
  unfold Conn.feedOnce
  dsimp only
  rcases hf : Reader.feed N.decodeIncremental x.outRef x.r x.out (feedWindow lim s.window) with _ | f
  · exact ⟨h.answered, h.started, h.queued, trivial, h.delivered⟩
  · obtain ⟨hpart, hgo⟩ := hst.feed hp x.outRef lim hf (x.consumedBytes + max f.consumed 0)
    dsimp only
    rcases herr : f.err with _ | e
    · exact ⟨h.answered, h.started, h.queued, ⟨hi, hgo herr⟩, h.delivered⟩
    · exact h.stopped (hpart (by rw [herr]; simp))

theorem Inv.feedAgain (h : Inv N s) {x : Reading} {done : Bool}
    (hi : x.cur.index + 1 = s.started) (hst : Standing N s.replies (s.window ++ s.wire) x)
    (hp : x.point = .fed done) : Inv N (feedAgain s x done) := by
  unfold Conn.feedAgain
  cases done with
  | true =>
    rw [Standing, if_pos hp] at hst
    exact ⟨h.answered, h.started, h.queued, ⟨hi, hst⟩, h.delivered⟩
  | false =>
    refine ⟨h.answered, h.started, h.queued, ⟨hi, ?_⟩, h.delivered⟩
    exact hst.of_point (by simp [hp]) (by simp) rfl rfl rfl

/-- **Behind a response**: it is attributed, and the reader stands before
the next one, or has retired the connection. -/
theorem Inv.finish (h : Inv N s) {x : Reading} {err : Option GoError}
    (hphase : s.phase = .stopped x err)
    (hkeep : ∀ e, err = some e →
      retires x.cur.req.payload (x.response cfg (s.ctxErr x.cur.index) (some e)) = true) :
    Inv N (finishReading cfg s x err) := by
  have hplace := h.place
  rw [hphase] at hplace
  have hattr : Attributed N s.replies x.cur (x.response cfg (s.ctxErr x.cur.index) err) := by
    rcases err with _ | e
    · exact attributed_of_over hplace.2 cfg _ _
    · refine attributed_of_seenPart hplace cfg _ _ ?_
      simp [Reading.response, Reading.validated, respErr]
  refine ⟨h.answered, h.started, h.queued, ?_, fun p hp => ?_⟩
  · unfold finishReading
    dsimp only
    split_ifs with hret
    · trivial
    · rcases err with _ | e
      · obtain ⟨hi, R, D, hR, -, -, -, hunread⟩ := hplace
        obtain ⟨hlt, -⟩ := List.getElem?_eq_some_iff.mp hR
        refine ⟨by omega, ?_⟩
        rw [hunread, hi]
      · exact absurd (hkeep e rfl) hret
  · unfold finishReading at hp
    dsimp only at hp
    split_ifs at hp
    · rcases List.mem_append.mp hp with hp | hp
      · exact h.delivered p hp
      · obtain rfl := List.mem_singleton.mp hp
        exact hattr
    · exact h.delivered p hp

end Invariant

/-! ## Steps and runs -/

section Run

variable {N : Rapidyenc} {cfg : Config} {s s' : Pipeline}

/-- **Asking the closure keeps the invariant**, if what comes behind it
does: its variables do not move the reader. -/
theorem Inv.ask (h : Inv N s) {x : Reading} (hst : Standing N s.replies (s.window ++ s.wire) x)
    {now later : Time} {k : Reading → Limits → Option Pipeline}
    (hk : ∀ p lim, k { x with p := p } lim = some s' → Inv N s')
    (hs : x.ask cfg s now later k = some s') : Inv N s' := by
  unfold Reading.ask at hs
  dsimp only at hs
  split at hs
  · obtain rfl := Option.some.inj hs
    exact h.stopped hst.seenPart
  · exact hk _ _ hs

/-- **What the reader does within a response.** -/
theorem Inv.readingStep (h : Inv N s) {x : Reading} (hphase : s.phase = .reading x) {l : Label}
    (hs : x.step N cfg s l = some s') : Inv N s' := by
  have hplace := h.place
  rw [hphase] at hplace
  obtain ⟨hi, hst⟩ := hplace
  cases l with
  | read now later n err =>
    simp only [Reading.step] at hs
    split_ifs at hs with hpoint
    have hp : x.point ≠ .fed true := by
      rcases hpoint with hpt | ⟨hpt, -⟩ <;> simp [hpt]
    exact h.ask hst (fun p _ hk => h.readMore (x := { x with p := p }) hi hst hp hk) hs
  | feed now later =>
    simp only [Reading.step] at hs
    split_ifs at hs with hpoint
    have hp : x.point ≠ .fed true := by
      rcases hpoint with hpt | ⟨hpt, -⟩ <;> simp [hpt]
    refine h.ask hst (fun p lim hk => ?_) hs
    obtain rfl := Option.some.inj hk
    exact h.feedOnce (x := { x with p := p }) hi hst hp lim
  | recheck now later =>
    rcases hpt : x.point with _ | _ | done | _
    all_goals simp only [Reading.step, hpt, reduceCtorEq] at hs
    refine h.ask hst (fun p _ hk => ?_) hs
    obtain rfl := Option.some.inj hk
    exact h.feedAgain (x := { x with p := p }) hi hst hpt
  | _ => cases hs

/-- **A step that keeps requests and responses matched keeps the
invariant.** -/
theorem Inv.step (h : Inv N s) {l : Label} (hkeep : Keeps cfg s l)
    (hs : s.step N cfg l = some s') : Inv N s' := by
  have hreader : s.readerStep N cfg l = some s' → Inv N s' := by
    intro hs
    unfold Pipeline.readerStep at hs
    rcases hphase : s.phase with _ | x | ⟨x, err⟩ | _
    · rw [hphase] at hs
      cases l with
      | take now =>
        rcases hp : s.pending with _ | ⟨e, rest⟩
        · rw [hp] at hs
          cases hs
        · rw [hp] at hs
          obtain rfl := Option.some.inj hs
          exact h.take hphase hkeep hp _ now
      | stop =>
        obtain rfl := Option.some.inj hs
        exact ⟨h.answered, h.started, h.queued, trivial, h.delivered⟩
      | _ => cases hs
    · rw [hphase] at hs
      exact h.readingStep hphase hs
    · rw [hphase] at hs
      cases l with
      | finish =>
        obtain rfl := Option.some.inj hs
        refine h.finish hphase fun e he => ?_
        have hret : RetiresEarly cfg s s.phase := hkeep
        rw [hphase, he] at hret
        exact hret
      | _ => cases hs
    · rw [hphase] at hs
      cases hs
  cases l with
  | write req =>
    simp only [Pipeline.step] at hs
    split_ifs at hs with hw
    obtain rfl := Option.some.inj hs
    rw [not_or, Option.not_isSome_iff_eq_none] at hw
    exact h.write hw.1 req
  | push =>
    obtain ⟨e, he, rfl⟩ := Option.map_eq_some_iff.mp hs
    exact h.push he
  | answer R =>
    simp only [Pipeline.step] at hs
    split_ifs at hs with hlt
    obtain rfl := Option.some.inj hs
    exact h.answer hlt R
  | cancel i e =>
    obtain rfl := Option.some.inj hs
    exact ⟨h.answered, h.started, h.queued, h.place, h.delivered⟩
  | failOutstanding =>
    obtain rfl := Option.some.inj hs
    exact ⟨h.answered, h.started, fun hf => (nomatch hf), h.place, h.delivered⟩
  | _ => exact hreader hs

theorem Inv.matched (h : Inv N s) : s.Matched N := by
  refine ⟨h.delivered, fun hi => ?_, fun hf e he => ?_⟩
  · have hplace := h.place
    rw [hi] at hplace
    exact hplace.2
  · obtain ⟨rest, hp⟩ : ∃ rest, s.pending = e :: rest := by
      rw [Option.mem_def, List.head?_eq_some_iff] at he
      exact he
    exact (h.head hf hp).1

variable (N cfg)

/-- **Response attribution on a pipelined connection.** In every state of
every run whose steps take no request from a FIFO that is being failed,
and retire the connection behind a response that was not read to its end,
each response delivered is the one the server produced for that request's
command, and the next response on the wire is that of the next request. -/
theorem responses_attributed {ls : List Label} (hrun : exec (Pipeline.step N cfg) {} ls = some s)
    (hkeep : Along (Pipeline.step N cfg) (Keeps cfg) {} ls) : s.Matched N :=
  (exec_invariant (fun _ _ _ h hk hs => h.step hk hs) ls (inv_init N) hkeep hrun).matched

end Run

/-! ## A response that comes too late -/

/-- The defaults of the pool. -/
def defaultConfig : Config where
  stallTimeout := 8000000000
  abandonedDrainBytes := 1024 * 1024
  abandonedDrainTimeout := 250000000
  providerName := "p"

/-- A STAT request. -/
def statRequest (id : Bytes) : Request where
  payload := ascii "STAT " ++ id ++ crlf
  bodyWriter := none
  validateBody := false
  onMeta := false
  responseTimeout := 2000000000
  ctxDeadline := none

/-- The article is there. -/
def statFound : Reply :=
  .text ⟨⟨ascii "223 0 <a>", by decide, by decide, by decide⟩, [], fun _ => rfl,
    List.forall_mem_nil _, nofun⟩

/-- The article is missing. -/
def statMissing : Reply :=
  .text ⟨⟨ascii "430 no <b>", by decide, by decide, by decide⟩, [], fun _ => rfl,
    List.forall_mem_nil _, nofun⟩

/-- Two STAT requests are pipelined. -/
def twoStats : List Label :=
  [.write (statRequest (ascii "<a>")), .push, .write (statRequest (ascii "<b>")), .push]

/-- A response is read in one piece of `n` bytes. -/
def readOne (n : ℕ) : List Label :=
  [.take 0, .read 0 0 n none, .feed 0 0, .recheck 0 0, .finish]

/-- Both are answered in time. -/
def promptRun : List Label :=
  twoStats ++ [.answer statFound] ++ readOne 11 ++ [.answer statMissing] ++ readOne 12

/-- What a read answers at its deadline. -/
def ioTimeout : GoError := .external ⟨"i/o timeout", [], [], some true, false⟩

/-- The first is cancelled, and the read of its response runs into the
deadline before the server answers. -/
def lateRun : List Label :=
  twoStats ++ [.take 0, .cancel 0 .canceled, .read 1 2 0 (some ioTimeout), .finish] ++
    [.answer statFound, .answer statMissing] ++ readOne 11

/-- The two responses of a run in time are delivered, each to its own
request. -/
theorem responses_attributed_at_promptRun :
    ∃ s, exec (Pipeline.step Rapidyenc.scalar defaultConfig) {} promptRun = some s ∧
      s.delivered.map (fun p => p.2.statusCode) = [223, 430] ∧ s.Matched Rapidyenc.scalar := by
  have hrun : (exec (Pipeline.step Rapidyenc.scalar defaultConfig) {} promptRun).map
      (fun s => s.delivered.map fun p => p.2.statusCode) = some [223, 430] := by decide
  obtain ⟨s, hs, hdelivered⟩ := Option.map_eq_some_iff.mp hrun
  exact ⟨s, hs, hdelivered, responses_attributed Rapidyenc.scalar defaultConfig hs
    (by decide)⟩

/-- **The late response is given to the next request**: the article `<b>`,
which is missing, is reported as found. -/
theorem late_response_misattributed :
    ∃ s, exec (Pipeline.step Rapidyenc.scalar defaultConfig) {} lateRun = some s ∧
      ¬ s.Matched Rapidyenc.scalar := by
  -- of each delivery: whether it has an error, its status, and the status of its own reply
  let shown (s : Pipeline) := s.delivered.map fun p => (p.2.err, p.2.statusCode,
    (s.replies[p.1.index]?).bind fun R => (R.decoded Rapidyenc.scalar p.1.req).map (·.r.statusCode))
  have hrun : (exec (Pipeline.step Rapidyenc.scalar defaultConfig) {} lateRun).map shown =
      some [(none, 223, some 430)] := by decide
  obtain ⟨s, hs, hshown⟩ := Option.map_eq_some_iff.mp hrun
  refine ⟨s, hs, fun hm => ?_⟩
  obtain ⟨p, hp, hshow⟩ := List.mem_map.mp (hshown ▸ List.mem_singleton_self _ :
    (none, 223, some 430) ∈ shown s)
  simp only [Prod.mk.injEq] at hshow
  obtain ⟨herr, hcode, hown⟩ := hshow
  obtain ⟨R, d, hR, hd, hshows⟩ := (hm.delivered p hp).1 herr
  rw [hR, Option.bind_some, hd, Option.map_some, ← hshows.statusCode, hcode] at hown
  exact absurd hown (by decide)

end Conn

end NntpPool
