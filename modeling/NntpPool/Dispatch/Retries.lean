import Mathlib.Data.List.TakeWhile
import NntpPool.Dispatch.Model.Retry
import NntpPool.Dispatch.Evidence
/-!
# Dispatch — how often one provider is tried

`retry_goes` says what a turn of the loop of `tryGroupResilient` can do,
and `Bounded` what the loop has done so far: of the tries that leave
evidence each but the last was worth one of two retries of a dead
connection or the one retry behind a 451. From a 451 that is mapped to an
absence on the loop takes one more such try, so a 451 that completes the
absence is always the second (`retries_bounded`).
-/

namespace NntpPool

namespace Dispatch

variable {g : Provider} {cmd : Command} {delayCancelled : Bool} {s s' : Retries} {a : Try}
variable {n : Next} {r : Result} {as : List Try}

/-! ## One turn -/

/-- **What a turn can do.** -/
inductive Goes (g : Provider) (cmd : Command) (s : Retries) (a : Try) : Next → Prop
  /-- The connection was too old for the request. -/
  | refused (h : a.refused = true) :
      Goes g cmd s a (.again { s.note (a.result g cmd) a with why := s.why ++ [.refused] })
  /-- The one retry behind a 451. -/
  | temporary (hr : a.refused = false) (h : a.is451 = true) (ht : s.temporaryRetried = false) :
      Goes g cmd s a (.again { s.note (a.result g cmd) a with
        temporaryRetried := true
        mapped451Retry := maps g cmd
        freshTransport := true
        why := s.why ++ [.temporary] })
  /-- A retry of a dead connection, not behind a 451 that is mapped. -/
  | died (hr : a.refused = false) (h : a.died = true) (hm : s.mapped451Retry = false)
      (hc : s.connRetries < maxConnDiedRetries) :
      Goes g cmd s a (.again { s.note (a.result g cmd) a with
        connRetries := s.connRetries + 1, why := s.why ++ [.died] })
  /-- The loop returns; with a 451 only for a writer that has bytes, behind
  the retry, or cancelled. -/
  | returned (r : Result) (hr : a.refused = false)
      (hcode : r.resp.statusCode = (a.result g cmd).resp.statusCode)
      (hattempts : r.resp.attempts = s.attempts ++ (a.result g cmd).resp.attempts)
      (h : r.cancelled = false → a.is451 = true → a.committed = true ∨ s.temporaryRetried = true) :
      Goes g cmd s a (.ret (s.note (a.result g cmd) a) r)

/-- **The loop does nothing else.** -/
theorem retry_goes (g : Provider) (cmd : Command) (delayCancelled : Bool) (s : Retries) (a : Try) :
    Goes g cmd s a (retry g cmd delayCancelled s a) := by
  cases hfin : a.fin with
  | reply code status err =>
    have hcancelled : (a.result g cmd).cancelled = false := by simp [Try.result, hfin]
    have hok : (a.result g cmd).ok = true := by simp [Try.result, hfin]
    have herr : (a.result g cmd).resp.err = err := by simp [Try.result, hfin]
    have hcode : (a.result g cmd).resp.statusCode = code := by simp [Try.result, hfin]
    have hcommitted : (a.result g cmd).resp.committed = (!a.refused && a.committed) := by
      simp [Try.result, hfin]
    have hrefused : err.any (·.isSentinel .freshTransportRequired) = a.refused := by
      cases err <;> simp [Try.refused, hfin]
    have hdied : err.any isConnectionDeathError = a.died := by
      cases err <;> simp [Try.died, hfin]
    have h451 : (err.isNone = true ∧ code = 451) ↔ a.is451 = true := by
      cases err <;> simp [Try.is451, hfin]
    have hmaps : requestMaps451ToAbsence
        ⟨cmd.payload, cmd.validateBody, g.maps451, a.atHead, a.ctxDone⟩ code =
          (code == 451 && maps g cmd) := by
      simp [requestMaps451ToAbsence, maps, Bool.and_assoc]
    have hgoes : ¬((a.result g cmd).cancelled = true ∨ (a.result g cmd).ok = false) := by
      simp [hcancelled, hok]
    simp only [retry, if_neg hgoes, herr, hcode, hcommitted, hrefused, hdied, h451, hmaps]
    split_ifs with hwriter hfresh htemp hdelay hmapped hdead
    · have hc : a.refused = false ∧ a.committed = true := by simpa using hwriter.2
      exact .returned _ hc.1 hcode.symm rfl fun _ _ => .inl hc.2
    · exact .refused hfresh
    · exact .returned _ (Bool.eq_false_iff.mpr hfresh) hcode.symm rfl fun h => by cases h
    · have hbeq : (code == 451) = true := beq_iff_eq.mpr (h451.mpr htemp.2).2
      simp only [hbeq, Bool.true_and]
      exact .temporary (Bool.eq_false_iff.mpr hfresh) htemp.2 htemp.1
    · refine .returned _ (Bool.eq_false_iff.mpr hfresh) hcode.symm rfl fun _ h => ?_
      exact .inr (by simpa [h, Retries.note] using htemp)
    · exact .died (Bool.eq_false_iff.mpr hfresh) hdead.2
        (by simpa [hdead.2, Retries.note] using hmapped) hdead.1
    · refine .returned _ (Bool.eq_false_iff.mpr hfresh) hcode.symm rfl fun _ h => ?_
      exact .inr (by simpa [h, Retries.note] using htemp)
  | clientDone e | callerDone e | groupDone | closed =>
    have hret : (a.result g cmd).cancelled = true ∨ (a.result g cmd).ok = false := by
      simp [Try.result, hfin]
    simp only [retry, if_pos hret]
    refine .returned _ (by simp [Try.refused, hfin]) rfl rfl fun _ h => ?_
    simp [Try.is451, hfin] at h

/-- Every turn is a try. -/
theorem retry_made (g : Provider) (cmd : Command) (delayCancelled : Bool) (s : Retries) (a : Try) :
    (retry g cmd delayCancelled s a).state.made = s.made ++ [⟨s.freshTransport, a⟩] := by
  have hgo := retry_goes g cmd delayCancelled s a
  generalize retry g cmd delayCancelled s a = n at hgo
  cases hgo <;> rfl

/-- The loop tries on behind what was tried. -/
theorem retries_made_prefix (g : Provider) (cmd : Command) (delayCancelled : Bool) (s : Retries)
    (tries : List Try) : s.made <+: (retries g cmd delayCancelled s tries).state.made := by
  induction tries generalizing s with
  | nil => exact List.prefix_refl s.made
  | cons a tries ih =>
    have hmade := retry_made g cmd delayCancelled s a
    have hprefix : s.made <+: s.made ++ [⟨s.freshTransport, a⟩] := List.prefix_append _ _
    cases hturn : retry g cmd delayCancelled s a with
    | again s' =>
      simp only [hturn, Next.state] at hmade
      simp only [retries, hturn]
      exact (hmade ▸ hprefix).trans (ih s')
    | ret s' r =>
      simp only [hturn, Next.state] at hmade
      simpa only [retries, hturn, Next.state, hmade] using hprefix

/-- The first try is made. -/
theorem retries_made_cons (g : Provider) (cmd : Command) (delayCancelled : Bool) (s : Retries)
    (a : Try) (tries : List Try) : s.made ++ [⟨s.freshTransport, a⟩] <+:
      (retries g cmd delayCancelled s (a :: tries)).state.made := by
  have hmade := retry_made g cmd delayCancelled s a
  cases hturn : retry g cmd delayCancelled s a with
  | again s' =>
    simp only [hturn, Next.state] at hmade
    simp only [retries, hturn, ← hmade]
    exact retries_made_prefix g cmd delayCancelled s' tries
  | ret s' r =>
    simp only [hturn, Next.state] at hmade
    simp only [retries, hturn, Next.state, ← hmade]
    exact List.prefix_refl _

/-- A try without an answer is the last. -/
theorem retry_returns (g : Provider) (cmd : Command) (delayCancelled : Bool) (s : Retries)
    (h : (a.result g cmd).ok = false) :
    ∃ r, retry g cmd delayCancelled s a = .ret (s.note (a.result g cmd) a) r := by
  simp only [retry, h, or_true, if_true]
  exact ⟨_, rfl⟩

/-! ## The loop so far -/

/-- A try that leaves evidence, as all do but those refused for want of a
fresh transport. -/
def Tried.bearing (t : Tried) : Bool := !t.a.refused

/-- A 451 that is mapped to an absence. -/
def Tried.mapped (g : Provider) (cmd : Command) (t : Tried) : Bool := maps g cmd && t.a.is451

/-- What was tried behind the first such 451. -/
def afterMapped (g : Provider) (cmd : Command) (made : List Tried) : List Tried :=
  (made.dropWhile fun t => !t.mapped g cmd).tail

theorem Try.is451_of_refused (h : a.refused = true) : a.is451 = false := by
  unfold Try.refused at h
  unfold Try.is451
  split at h <;> simp_all

theorem Try.is451_of_died (h : a.died = true) : a.is451 = false := by
  unfold Try.died at h
  unfold Try.is451
  split at h <;> simp_all

theorem afterMapped_concat {made : List Tried} (t : Tried)
    (h : ∃ x ∈ made, x.mapped g cmd = true) :
    afterMapped g cmd (made ++ [t]) = afterMapped g cmd made ++ [t] := by
  have hne : made.dropWhile (fun t => !t.mapped g cmd) ≠ [] := by
    intro hnil
    obtain ⟨x, hx, hm⟩ := h
    have := List.dropWhile_eq_nil_iff.mp hnil x hx
    simp [hm] at this
  unfold afterMapped
  rw [List.dropWhile_append, if_neg (by simpa using hne), List.tail_append_of_ne_nil hne]

theorem afterMapped_eq_nil {made : List Tried} (h : ∀ x ∈ made, x.mapped g cmd = false)
    (t : Tried) : afterMapped g cmd (made ++ [t]) = [] := by
  have hnil : made.dropWhile (fun t => !t.mapped g cmd) = [] :=
    List.dropWhile_eq_nil_iff.mpr fun x hx => by simp [h x hx]
  unfold afterMapped
  rw [List.dropWhile_append, hnil, List.isEmpty_nil, if_pos rfl]
  cases hm : t.mapped g cmd <;> simp [hm]

/-- **The loop so far**, while it goes on. -/
structure Bounded (g : Provider) (cmd : Command) (s : Retries) : Prop where
  /-- Every try that left evidence was worth a retry. -/
  count : (s.made.filter Tried.bearing).length = s.connRetries + s.temporaryRetried.toNat
  conn : s.connRetries ≤ maxConnDiedRetries
  temporary : s.why.count .temporary = s.temporaryRetried.toNat
  mapped : s.mapped451Retry = (s.temporaryRetried && maps g cmd)
  /-- The retry behind a 451 is that of a 451. -/
  answered : s.temporaryRetried = true ↔ ∃ t ∈ s.made, t.a.is451 = true
  /-- Nothing has left evidence behind a 451 that is mapped. -/
  waits : (afterMapped g cmd s.made).filter Tried.bearing = []

theorem Bounded.start (g : Provider) (cmd : Command) (freshTransport : Bool) :
    Bounded g cmd { freshTransport := freshTransport } where
  count := rfl
  conn := Nat.zero_le _
  temporary := rfl
  mapped := rfl
  answered := by simp
  waits := rfl

/-- The first 451 that is mapped is the one retried. -/
theorem Bounded.mapped_iff (h : Bounded g cmd s) :
    (∃ t ∈ s.made, t.mapped g cmd = true) ↔ s.mapped451Retry = true := by
  rw [h.mapped, Bool.and_eq_true, h.answered]
  simp only [Tried.mapped, Bool.and_eq_true]
  constructor
  · rintro ⟨t, ht, hmaps, h451⟩
    exact ⟨⟨t, ht, h451⟩, hmaps⟩
  · rintro ⟨⟨t, ht, h451⟩, hmaps⟩
    exact ⟨t, ht, hmaps, h451⟩

/-- What is tried behind a 451 that is mapped. -/
theorem Bounded.afterMapped_note (h : Bounded g cmd s) (t : Tried) :
    (afterMapped g cmd (s.made ++ [t])).filter Tried.bearing =
      if s.mapped451Retry = true ∧ t.bearing = true then [t] else [] := by
  by_cases hm : s.mapped451Retry = true
  · rw [afterMapped_concat t (h.mapped_iff.mpr hm), List.filter_append, h.waits]
    cases hb : t.bearing <;> simp [hm, hb]
  · have hno : ∀ x ∈ s.made, x.mapped g cmd = false := by
      intro x hx
      by_contra hx'
      exact hm (h.mapped_iff.mp ⟨x, hx, by simpa using hx'⟩)
    rw [afterMapped_eq_nil hno, if_neg fun hc => hm hc.1]
    rfl

/-- **A turn after which the loop goes on.** -/
theorem Bounded.again (h : Bounded g cmd s) (hgo : Goes g cmd s a (.again s')) :
    Bounded g cmd s' := by
  generalize hn : Next.again s' = n at hgo
  cases hgo with
  | refused hr =>
    cases hn
    have h451 : a.is451 = false := Try.is451_of_refused hr
    refine ⟨?_, h.conn, ?_, h.mapped, ?_, ?_⟩
    · simpa [Retries.note, List.filter_append, Tried.bearing, hr] using h.count
    · simpa [Retries.note] using h.temporary
    · simpa [Retries.note, or_and_right, exists_or, h451] using h.answered
    · exact (h.afterMapped_note _).trans (if_neg (by simp [Tried.bearing, hr]))
  | temporary hr h451 ht =>
    cases hn
    refine ⟨?_, h.conn, ?_, by simp, ?_, ?_⟩
    · have hcount := h.count
      simp only [ht, Bool.toNat_false] at hcount
      simp [Retries.note, List.filter_append, Tried.bearing, hr]
      simpa [Tried.bearing] using hcount
    · have := h.temporary
      simp only [ht, Bool.toNat_false] at this
      simp [this]
    · simp [Retries.note, or_and_right, exists_or, h451]
    · have hm : s.mapped451Retry = false := by rw [h.mapped, ht, Bool.false_and]
      exact (h.afterMapped_note _).trans (if_neg (by simp [hm]))
  | died hr hd hm hc =>
    cases hn
    refine ⟨?_, hc, ?_, h.mapped, ?_, ?_⟩
    · have hcount := h.count
      simp [Retries.note, List.filter_append, Tried.bearing, hr] at hcount ⊢
      omega
    · simpa [Retries.note] using h.temporary
    · simpa [Retries.note, or_and_right, exists_or, Try.is451_of_died hd] using h.answered
    · exact (h.afterMapped_note _).trans (if_neg (by simp [hm]))
  | returned => cases hn

/-- **The loop so far, or its last turn.** -/
theorem retries_cases (h : Bounded g cmd s) (delayCancelled : Bool) (tries : List Try) :
    (∃ s', retries g cmd delayCancelled s tries = .again s' ∧ Bounded g cmd s') ∨
      ∃ s₀ a s' r, a ∈ tries ∧ retries g cmd delayCancelled s tries = .ret s' r ∧
        Bounded g cmd s₀ ∧ Goes g cmd s₀ a (.ret s' r) := by
  induction tries generalizing s with
  | nil => exact .inl ⟨s, rfl, h⟩
  | cons a tries ih =>
    have hgo := retry_goes g cmd delayCancelled s a
    cases hturn : retry g cmd delayCancelled s a with
    | again s₁ =>
      rw [hturn] at hgo
      simp only [retries, hturn]
      obtain hag | ⟨s₀, b, s', r, hb, hret⟩ := ih (h.again hgo)
      · exact .inl hag
      · exact .inr ⟨s₀, b, s', r, List.mem_cons_of_mem a hb, hret⟩
    | ret s' r =>
      rw [hturn] at hgo
      simp only [retries, hturn]
      exact .inr ⟨s, a, s', r, List.mem_cons_self, rfl, h, hgo⟩

/-! ## The bounds -/

/-- **What a run of the loop keeps to.** -/
structure Kept (g : Provider) (cmd : Command) (s : Retries) : Prop where
  /-- Four tries leave evidence. -/
  four : (s.made.filter Tried.bearing).length ≤ 4
  /-- One retry is because of a 451. -/
  once : s.why.count .temporary ≤ 1
  /-- One try leaves evidence behind a 451 that is mapped. -/
  last : ((afterMapped g cmd s.made).filter Tried.bearing).length ≤ 1

theorem Bounded.kept (h : Bounded g cmd s) : Kept g cmd s where
  four := by
    have hconn : s.connRetries ≤ 2 := h.conn
    have := Bool.toNat_le s.temporaryRetried
    rw [h.count]
    omega
  once := h.temporary ▸ Bool.toNat_le _
  last := by simp [h.waits]

/-- The turn the loop returns in is one more try. -/
theorem Bounded.kept_note (h : Bounded g cmd s) (t : Result) : Kept g cmd (s.note t a) where
  four := by
    have hconn : s.connRetries ≤ 2 := h.conn
    have := Bool.toNat_le s.temporaryRetried
    have hone := List.length_filter_le Tried.bearing [⟨s.freshTransport, a⟩]
    simp only [Retries.note, List.filter_append, List.length_append, h.count]
    simp only [List.length_singleton] at hone
    omega
  once := h.kept.once
  last := by
    simp only [Retries.note, h.afterMapped_note]
    split_ifs <;> simp

/-- **What `tryGroup` can answer with a 451**: the reply has no body, so
nothing is committed, and an error that is `ErrArticleNotFound` comes
from the login dialogue, before there is a reply. -/
structure Try.Lone (a : Try) : Prop where
  uncommitted : ∀ status err, a.fin = .reply 451 status err → a.committed = false
  genuine : ∀ status e, a.fin = .reply 451 status (some e) → e.isCode 430 = false

/-- A try whose 451 stands for an absence. -/
theorem Try.mapped_of_absence (hlone : a.Lone) (before : List Evidence)
    (hcode : (a.result g cmd).resp.statusCode = 451) (hr : a.refused = false)
    (ha : (before ++ (a.result g cmd).resp.attempts).getLast?.any
      (fun e => e.responseCode == 451 && e.outcome == .hardArticleAbsence) = true) :
    maps g cmd = true ∧ a.is451 = true ∧ a.committed = false := by
  cases hfin : a.fin with
  | reply code status err =>
    obtain rfl : code = 451 := by simpa [Try.result, hfin] using hcode
    have hout : attemptOutcome ⟨cmd.payload, cmd.validateBody, g.maps451, a.atHead, a.ctxDone⟩
        451 status err = .hardArticleAbsence := by
      simpa [Try.result, hfin, hr, buildAttemptEvidence] using ha
    cases err with
    | none =>
      have hmaps := attemptOutcome_none_absence.1 hout
      refine ⟨?_, by simp [Try.is451, hfin], hlone.uncommitted _ _ hfin⟩
      simpa [requestMaps451ToAbsence, maps] using hmaps
    | some e =>
      rw [attemptOutcome_some] at hout
      have h430 := classifyOutcome_some_absence hout
      simp [hlone.genuine _ _ hfin] at h430
  | clientDone e | callerDone e | groupDone | closed =>
    simp [Try.result, hfin] at hcode

/-- **A 451 that stands for an absence is the second.** -/
theorem Bounded.absent (h : Bounded g cmd s) (hlone : a.Lone)
    (hgo : Goes g cmd s a (.ret s' r)) (hc : r.cancelled = false)
    (hcode : r.resp.statusCode = 451) (habs : responseIsHardArticleAbsence r.resp = true) :
    maps g cmd = true ∧ ∃ front last, s'.made = front ++ [last] ∧ last.a.is451 = true ∧
      ∃ t ∈ front, t.a.is451 = true := by
  cases hgo with
  | returned _ hr hcode' hattempts hback =>
    have ha : (s.attempts ++ (a.result g cmd).resp.attempts).getLast?.any
        (fun e => e.responseCode == 451 && e.outcome == .hardArticleAbsence) = true := by
      rw [← hattempts]
      simpa [responseIsHardArticleAbsence, hcode] using habs
    obtain ⟨hmaps, h451, hcommitted⟩ :=
      Try.mapped_of_absence hlone s.attempts (hcode' ▸ hcode) hr ha
    have htemp : s.temporaryRetried = true := by simpa [hcommitted] using hback hc h451
    exact ⟨hmaps, s.made, ⟨s.freshTransport, a⟩, rfl, h451, h.answered.mp htemp⟩

/-- **The retries of one provider are bounded**, for whatever `tryGroup`
returns time after time, and however long the loop goes on: four tries
leave evidence, one of them is behind the first 451 that is mapped, and
one retry is because of a 451. An uncancelled 451 that is returned for an
absence is the last try, behind another 451. -/
theorem retries_bounded (g : Provider) (cmd : Command) (delayCancelled freshTransport : Bool)
    (tries : List Try) :
    Kept g cmd (retries g cmd delayCancelled { freshTransport := freshTransport } tries).state ∧
    ((∀ a ∈ tries, a.Lone) → ∀ s r,
      retries g cmd delayCancelled { freshTransport := freshTransport } tries = .ret s r →
      r.cancelled = false → r.resp.statusCode = 451 →
      responseIsHardArticleAbsence r.resp = true →
      maps g cmd = true ∧ ∃ front last, s.made = front ++ [last] ∧ last.a.is451 = true ∧
        ∃ t ∈ front, t.a.is451 = true) := by
  have hstart := Bounded.start g cmd freshTransport
  obtain ⟨s', hs', hb⟩ | ⟨s₀, a, s', r, ha, hret, hb, hgo⟩ :=
    retries_cases hstart delayCancelled tries
  · rw [hs']
    exact ⟨hb.kept, nofun⟩
  · rw [hret]
    refine ⟨?_, ?_⟩
    · cases hgo
      exact hb.kept_note _
    · rintro hlone s r ⟨⟩ hc hcode habs
      exact hb.absent (hlone a ha) hgo hc hcode habs

/-- A reply with a status line alone. -/
def Try.answer (code : ℤ) : Try where
  fin := .reply code [] none

/-- A connection that dies under the request. -/
def Try.death : Try where
  fin := .reply 0 [] (some (.sentinel .connectionDied))

theorem Try.lone_answer (code : ℤ) : (Try.answer code).Lone where
  uncommitted := fun _ _ _ => rfl
  genuine := fun _ _ h => by simp [Try.answer] at h

theorem Try.lone_death : Try.death.Lone where
  uncommitted := fun _ _ _ => rfl
  genuine := fun _ _ h => by simp [Try.death] at h

/-- A provider whose article operations map a 451 to an absence. -/
def mappingProvider : Provider := ⟨"p", "p", true⟩

def statOnce : Command := ⟨ascii "STAT <a@b>\r\n", false, false⟩

/-- Two connections die, and two 451 are an absence: the most the loop
does. -/
theorem retries_bounded_deaths :
    let tries := [.death, .death, .answer 451, .answer 451, .answer 223]
    (∀ a ∈ tries, a.Lone) ∧ ∃ s r,
      retries mappingProvider statOnce false {} tries = .ret s r ∧
      r.cancelled = false ∧ r.resp.statusCode = 451 ∧
      responseIsHardArticleAbsence r.resp = true ∧ s.made.length = 4 ∧
      Kept mappingProvider statOnce s ∧
      ∃ front last, s.made = front ++ [last] ∧ last.a.is451 = true ∧
        ∃ t ∈ front, t.a.is451 = true := by
  intro tries
  have hlone : ∀ a ∈ tries, a.Lone := by
    simp [tries, Try.lone_death, Try.lone_answer]
  obtain ⟨hkept, habsent⟩ := retries_bounded mappingProvider statOnce false false tries
  refine ⟨hlone, _, _, rfl, rfl, rfl, by decide, rfl, hkept, ?_⟩
  exact (habsent hlone _ _ rfl rfl rfl (by decide)).2

/-! ## Fresh transports -/

/-- **Where a fresh transport is wanted**: from the start, if the loop
starts so, and behind a 451. -/
structure Renewed (fresh : Bool) (s : Retries) : Prop where
  next : fresh = true ∨ (∃ t ∈ s.made, t.a.is451 = true) → s.freshTransport = true
  made : ∀ n t, s.made[n]? = some t →
    fresh = true ∨ (∃ u ∈ s.made.take n, u.a.is451 = true) → t.freshTransport = true

theorem Renewed.start (fresh : Bool) : Renewed fresh { freshTransport := fresh } where
  next h := by simpa using h
  made n t h := by simp at h

/-- The try that is made next is among those behind a 451, if there is
one. -/
theorem Renewed.made_note {fresh : Bool} (h : Renewed fresh s) (a : Try) {n : ℕ} {t : Tried}
    (ht : (s.made ++ [Tried.mk s.freshTransport a])[n]? = some t)
    (hwant : fresh = true ∨
      ∃ u ∈ (s.made ++ [Tried.mk s.freshTransport a]).take n, u.a.is451 = true) :
    t.freshTransport = true := by
  rcases Nat.lt_or_ge n s.made.length with hn | hn
  · rw [List.getElem?_append_left hn] at ht
    rw [List.take_append_of_le_length hn.le] at hwant
    exact h.made n t ht hwant
  · obtain ⟨hlen, hget⟩ := List.getElem?_eq_some_iff.mp ht
    obtain rfl : n = s.made.length := by
      simp only [List.length_append, List.length_singleton] at hlen
      omega
    obtain rfl : Tried.mk s.freshTransport a = t := by simpa using hget
    rw [List.take_left] at hwant
    exact h.next hwant

/-- **A turn after which the loop goes on.** -/
theorem Renewed.again {fresh : Bool} (h : Renewed fresh s) (hgo : Goes g cmd s a (.again s')) :
    Renewed fresh s' := by
  -- but for a 451 the try changes nothing
  have hsame (h451 : a.is451 = false) :
      fresh = true ∨ (∃ t ∈ s.made ++ [Tried.mk s.freshTransport a], t.a.is451 = true) →
        s.freshTransport = true := by
    intro hwant
    refine h.next (hwant.imp_right ?_)
    rintro ⟨t, ht, ht451⟩
    rcases List.mem_append.mp ht with ht | ht
    · exact ⟨t, ht, ht451⟩
    · rw [List.mem_singleton.mp ht, h451] at ht451
      cases ht451
  generalize hn : Next.again s' = n at hgo
  cases hgo with
  | refused hr =>
    cases hn
    exact ⟨hsame (Try.is451_of_refused hr), fun _ _ => h.made_note a⟩
  | temporary =>
    cases hn
    exact ⟨fun _ => rfl, fun _ _ => h.made_note a⟩
  | died hr hd =>
    cases hn
    exact ⟨hsame (Try.is451_of_died hd), fun _ _ => h.made_note a⟩
  | returned => cases hn

/-- **What the loop tries behind a 451 wants a fresh transport**, and
everything, if it starts so. -/
theorem retries_renewed {fresh : Bool} (h : Renewed fresh s) (delayCancelled : Bool)
    (tries : List Try) {n : ℕ} {t : Tried}
    (ht : (retries g cmd delayCancelled s tries).state.made[n]? = some t)
    (hwant : fresh = true ∨
      ∃ u ∈ (retries g cmd delayCancelled s tries).state.made.take n, u.a.is451 = true) :
    t.freshTransport = true := by
  induction tries generalizing s with
  | nil => exact h.made n t ht hwant
  | cons a tries ih =>
    have hgo := retry_goes g cmd delayCancelled s a
    have hmade := retry_made g cmd delayCancelled s a
    cases hturn : retry g cmd delayCancelled s a with
    | again s₁ =>
      rw [hturn] at hgo
      simp only [retries, hturn] at ht hwant
      exact ih (h.again hgo) ht hwant
    | ret s₁ r =>
      simp only [hturn, Next.state] at hmade
      simp only [retries, hturn, Next.state, hmade] at ht hwant
      exact h.made_note a ht hwant

/-! ## The loop of the dispatch model -/

/-- How an attempt of the dispatch model ends. -/
def Attempt.toTry (cmd : Command) (a : Attempt) : Try where
  fin := a.fin
  atHead := a.atHead
  ctxDone := a.ctxDone
  committed := isBodyCommand cmd.payload && a.touched

theorem tryGroup_eq_result (g : Provider) (cmd : Command) (a : Attempt) :
    tryGroup g cmd a = (a.toTry cmd).result g cmd := by
  cases hfin : a.fin with
  | reply code status err =>
    cases err with
    | none => simp [tryGroup, Try.result, Attempt.toTry, Try.refused, requestInfo, hfin]
    | some e =>
      cases hfresh : e.isSentinel .freshTransportRequired with
      | false => simp [tryGroup, Try.result, Attempt.toTry, Try.refused, requestInfo, hfin, hfresh]
      | true =>
        have htouched := a.unsent code status e hfin hfresh
        simp [tryGroup, Try.result, Attempt.toTry, Try.refused, hfin, hfresh, htouched]
  | clientDone e | callerDone e | groupDone | closed =>
    simp [tryGroup, Try.result, Attempt.toTry, requestInfo, hfin]

/-- What a loop that has returned returns. -/
def Next.result? : Next → Option Result
  | .again _ => none
  | .ret _ r => some r

/-- The two loops have come equally far. -/
structure Retries.Same (s : Retries) (u : Retry) : Prop where
  attempts : s.attempts = u.attempts
  connRetries : s.connRetries = u.connRetries
  temporaryRetried : s.temporaryRetried = u.temporaryRetried
  mapped451Retry : s.mapped451Retry = u.mapped451Retry

/-- **The loop of the dispatch model is this loop.** -/
theorem resilientLoop_eq_retries (g : Provider) (cmd : Command) (delayCancelled : Bool)
    {as : List Attempt} {s : Retries} {u : Retry} (h : s.Same u) :
    (resilientLoop g cmd delayCancelled as u).map (·.toResult) =
      (retries g cmd delayCancelled s (as.map (Attempt.toTry cmd))).result? := by
  induction as generalizing s u with
  | nil => rfl
  | cons a as ih =>
    have hreq : requestInfo g cmd a =
        ⟨cmd.payload, cmd.validateBody, g.maps451, (a.toTry cmd).atHead, (a.toTry cmd).ctxDone⟩ :=
      rfl
    simp only [resilientLoop, List.map_cons, retries, retry, tryGroup_eq_result, hreq,
      Retries.note, h.attempts, h.temporaryRetried, h.mapped451Retry, h.connRetries]
    -- the branches that return give the same response, and in the others
    -- the loops have again come equally far
    split_ifs with hret hwriter hfresh htemp hdelay hmapped hdead
    · rfl
    · rfl
    · exact ih ⟨rfl, rfl, rfl, rfl⟩
    · rfl
    · exact ih ⟨rfl, rfl, rfl, rfl⟩
    · rfl
    · exact ih ⟨rfl, rfl, rfl, rfl⟩
    · rfl

end Dispatch

end NntpPool
