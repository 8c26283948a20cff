import NntpPool.Dispatch.Course
/-!
# Dispatch — the caller's writer

A call with a `bodyWriter` hands the same writer to every attempt it
makes, so it must not go on to another attempt once one has written. It
learns of written bytes from the response of an attempt, and from that
alone: an attempt it leaves because the provider was removed, one whose
reply channel is closed, and any attempt of a command other than BODY and
ARTICLE write unseen. `writer_never_restarted_iff` shows that these are
the only ways a writer is restarted, and `writer_restarted_after_removal`
that there is one.
-/

namespace NntpPool

namespace Dispatch

/-- The attempts of a turn that write into the caller's writer. Probes
have none. -/
def Event.streamed : Event → List Attempt
  | .skipped _ _ => []
  | .tried _ .probe _ => []
  | .tried _ _ t => t.made

/-- The attempts of a call that have the caller's writer, in order. -/
def streamed (log : List Event) : List Attempt := log.flatMap Event.streamed

/-- **The writer is never restarted**: at most one attempt writes into
it, and what it takes over the whole call is a front part of what that
attempt decodes. -/
structure NeverRestarted (as : List Attempt) : Prop where
  once : as.Pairwise fun a b => a.wrote = [] ∨ b.wrote = []
  front : as.flatMap Attempt.wrote = [] ∨
    ∃ a ∈ as, as.flatMap Attempt.wrote <+: a.decoded

/-- If at most one attempt writes, the rest follows. -/
theorem NeverRestarted.of_once {as : List Attempt}
    (h : as.Pairwise fun a b => a.wrote = [] ∨ b.wrote = []) : NeverRestarted as := by
  refine ⟨h, ?_⟩
  induction h with
  | nil => exact .inl rfl
  | @cons a as ha _ ih =>
    rw [List.flatMap_cons]
    by_cases hw : a.wrote = []
    · rw [hw, List.nil_append]
      exact ih.imp_right fun ⟨b, hb, hpre⟩ => ⟨b, List.mem_cons_of_mem a hb, hpre⟩
    · have hnil : as.flatMap Attempt.wrote = [] :=
        List.flatMap_eq_nil_iff.mpr fun b hb => (ha b hb).resolve_left hw
      rw [hnil, List.append_nil]
      exact .inr ⟨a, List.mem_cons_self, a.wrote_front⟩

/-- The attempt ends in a way that does not show the call whether bytes
were written. -/
def Attempt.unseen (cmd : Command) (a : Attempt) : Bool :=
  match a.fin with
  | .groupDone => true
  | .closed => true
  | .reply _ _ _ => !isBodyCommand cmd.payload
  | .clientDone _ => false
  | .callerDone _ => false

/-- If the attempt has written, it was not seen. -/
def Hidden (cmd : Command) (a : Attempt) : Prop := a.wrote ≠ [] → a.unseen cmd = true

variable {g : Provider} {cmd : Command} {stage : Stage} {t : TurnResult} {a : Attempt}
  {log : List Event}

/-! ## One turn -/

/-- Only attempts that wrote unseen are retried. -/
theorem Retried.hidden (hw : cmd.hasWriter = true) (h : Retried g cmd a) : Hidden cmd a := by
  intro hwrote
  obtain ⟨code, status, err, hf⟩ := tryGroup_ok h.ok
  have hquiet := h.quiet
  simp only [tryGroup_reply hf, hw, a.touched_of_wrote hwrote, Bool.and_true, true_and,
    Bool.not_eq_true] at hquiet
  simp [Attempt.unseen, hf, hquiet]

/-- A response to BODY or ARTICLE with written bytes ends the call. -/
theorem verdict_committed {code : ℤ} {status : Bytes} {err : Option GoError}
    {es : List Evidence} {id : String} (hw : cmd.hasWriter = true)
    (hf : a.fin = .reply code status err) (htouched : a.touched = true) :
    let t : Result := ⟨⟨code, status, err, es, true, id⟩, true, false⟩
    verdict cmd.hasWriter t = .committed ∨ verdict cmd.hasWriter t = .success := by
  intro t
  cases err with
  | some e => exact .inl (by rw [verdict_some, hw]; rfl)
  | none =>
    right
    rw [verdict_none]
    rcases a.coded code status none hf htouched with rfl | rfl <;>
      simp [responseIsHardArticleAbsence]

/-- **A turn the call goes on from has written nothing it could see.** -/
theorem Turned.hidden (h : Turned g cmd t) (hw : cmd.hasWriter = true)
    (hv : (verdict cmd.hasWriter t.toResult).goesOn stage = true) :
    ∀ a ∈ t.made, Hidden cmd a := by
  cases h with
  | refused => exact fun _ h => nomatch h
  | made front a c hfront hlast hc =>
    refine List.forall_mem_append.mpr
      ⟨fun b hb => (hfront b hb).hidden hw, List.forall_mem_singleton.mpr fun hwrote => ?_⟩
    have htouched := a.touched_of_wrote hwrote
    cases hf : a.fin with
    | groupDone => simp [Attempt.unseen, hf]
    | closed => simp [Attempt.unseen, hf]
    | clientDone e =>
      have : c = true := hc.elim (fun h => by simpa [tryGroup, hf] using h) (·.1)
      simp [verdict, this, Verdict.goesOn] at hv
    | callerDone e =>
      have : c = true := hc.elim (fun h => by simpa [tryGroup, hf] using h) (·.1)
      simp [verdict, this, Verdict.goesOn] at hv
    | reply code status err =>
      by_contra hseen
      have hbody : isBodyCommand cmd.payload = true := by simpa [Attempt.unseen, hf] using hseen
      cases c with
      | true => simp [verdict, Verdict.goesOn] at hv
      | false =>
        rw [made_reply front hf hlast, hbody, htouched, tryGroup_reply hf] at hv
        rcases @verdict_committed cmd a code status err _ _ hw hf htouched with h | h
        · rw [Bool.and_self, h] at hv
          cases hv
        · rw [Bool.and_self, h] at hv
          cases hv

/-- In every turn, only the last attempt may have written something the
call sees. -/
theorem Turned.hidden_front (h : Turned g cmd t) (hw : cmd.hasWriter = true) :
    t.made.Pairwise fun a _ => Hidden cmd a := by
  cases h with
  | refused => exact .nil
  | made front a c hfront hlast hc =>
    have hall : ∀ b ∈ front, Hidden cmd b := fun b hb => (hfront b hb).hidden hw
    refine List.pairwise_append.mpr ⟨?_, List.pairwise_singleton _ _, fun b hb _ _ => hall b hb⟩
    exact List.pairwise_of_forall_mem_list fun b hb _ _ => hall b hb

/-! ## The call -/

/-- An event the call goes on from. -/
theorem Passes.hidden {e : Event} (h : Passes cmd e) (hw : cmd.hasWriter = true) :
    ∀ a ∈ e.streamed, Hidden cmd a := by
  cases h with
  | skip => exact fun _ h => nomatch h
  | probe => exact fun _ h => nomatch h
  | @turn g stage t hstage ht hv =>
    have hst : (Event.tried g stage t).streamed = t.made := by
      cases stage <;> first | rfl | exact absurd rfl hstage
    rw [hst]
    exact ht.hidden hw hv

theorem hidden_of_passes (hw : cmd.hasWriter = true) (h : ∀ e ∈ log, Passes cmd e) :
    ∀ a ∈ streamed log, Hidden cmd a := by
  intro a ha
  obtain ⟨e, he, ha⟩ := List.mem_flatMap.mp ha
  exact (h e he).hidden hw a ha

/-- A last turn behind events that pass. -/
theorem hidden_append (hw : cmd.hasWriter = true) (h : ∀ e ∈ log, Passes cmd e) {e : Event}
    (he : e.streamed.Pairwise fun a _ => Hidden cmd a) :
    (streamed (log ++ [e])).Pairwise fun a _ => Hidden cmd a := by
  have hall := hidden_of_passes hw h
  rw [streamed, List.flatMap_append, List.flatMap_singleton]
  exact List.pairwise_append.mpr ⟨List.pairwise_of_forall_mem_list fun a ha _ _ => hall a ha, he,
    fun a ha _ _ => hall a ha⟩

theorem Turned.hidden_tried (h : Turned g cmd t) (hw : cmd.hasWriter = true) :
    (Event.tried g stage t).streamed.Pairwise fun a _ => Hidden cmd a := by
  cases stage with
  | probe => exact .nil
  | _ => exact h.hidden_front hw

theorem streamed_probed (results : List (Provider × TurnResult)) :
    streamed (results.map probed) = [] := by
  rw [streamed, List.flatMap_map]
  exact List.flatMap_eq_nil_iff.mpr fun _ _ => rfl

/-- **In a whole call, only the last attempt may have written something
the call sees.** -/
theorem Sent.hidden {w : World} {c : Send} {resp : Response} (h : Sent w c resp log)
    (hw : c.cmd.hasWriter = true) : (streamed log).Pairwise fun a _ => Hidden c.cmd a := by
  cases h with
  | noMains => exact .nil
  | main hd =>
    cases hd with
    | mk hfront _ ht _ => exact hidden_append hw hfront (ht.hidden_tried hw)
  | backup hmains hd =>
    cases hd.behind hmains with
    | mk hfront _ ht _ => exact hidden_append hw hfront (ht.hidden_tried hw)
  | cancelled hs =>
    cases hs with
    | turn hfront _ ht _ => exact hidden_append hw hfront (ht.hidden_tried hw)
    | probes _ hfront _ _ =>
      have hall := hidden_of_passes hw hfront
      rw [List.nil_append, streamed, List.flatMap_append, ← streamed, ← streamed, streamed_probed,
        List.append_nil]
      exact List.pairwise_of_forall_mem_list fun a ha _ _ => hall a ha
  | exhausted hc =>
    have hall := hidden_of_passes hw hc.passes
    exact List.pairwise_of_forall_mem_list fun a ha _ _ => hall a ha

/-! ## A writer that is restarted -/

theorem first_second_distinct : (([⟨"first", "first", false⟩, ⟨"second", "second", false⟩] ++ [] :
    List Provider).map Provider.id).Nodup := by decide

/-- Two main providers and no backups, for BODY with a caller's writer. -/
def streamCall : Send where
  cmd := ⟨ascii "BODY <a@b>" ++ crlf, false, true⟩
  statProbe := false
  strategy := .fifo
  loads := [⟨1, false, 1⟩, ⟨1, false, 1⟩]
  nextIdx := 0
  mains := [⟨"first", "first", false⟩, ⟨"second", "second", false⟩]
  backups := []
  distinct := first_second_distinct

/-- The provider is removed when one of two bytes has been written. -/
def removedAttempt : Attempt where
  fin := .groupDone
  atHead := true
  ctxDone := false
  touched := true
  decoded := [97, 98]
  wrote := [97]
  wrote_front := by decide
  touched_of_wrote := fun _ => rfl
  coded := nofun
  unsent := nofun
  genuine := nofun

/-- The article is written whole. -/
def wholeAttempt : Attempt where
  fin := .reply 222 (ascii "222 0 <a@b>") none
  atHead := true
  ctxDone := false
  touched := true
  decoded := [97, 98]
  wrote := [97, 98]
  wrote_front := by decide
  touched_of_wrote := fun _ => rfl
  coded := by
    intro code status err h _
    cases h
    exact .inr rfl
  unsent := nofun
  genuine := nofun

/-- The first attempts on the two providers. -/
def streamWorld (first second : Attempt) : World where
  quota := fun _ _ => false
  turn := fun _ g => ⟨.granted, [if g.id = "first" then first else second], false⟩
  cancelCause := none

/-- **When a caller's writer is restarted.** It never is exactly if no
attempt that writes unseen is followed by one that writes. -/
theorem writer_never_restarted_iff {w : World} {c : Send} {resp : Response}
    (hw : c.cmd.hasWriter = true) (h : doSendWithRetry w c = some (resp, log)) :
    NeverRestarted (streamed log) ↔
      (streamed log).Pairwise fun a b =>
        a.unseen c.cmd = true → a.wrote = [] ∨ b.wrote = [] := by
  constructor
  · intro hn
    refine hn.once.imp ?_
    intro a b hab _
    exact hab
  · intro hcond
    refine .of_once ((hcond.and ((doSendWithRetry_sent h).hidden hw)).imp ?_)
    rintro a b ⟨hab, hhid⟩
    by_cases ha : a.wrote = []
    · exact .inl ha
    · exact hab (hhid ha)

/-- A call whose first provider delivers the article. -/
theorem writer_never_restarted_at_whole :
    ∃ resp log, doSendWithRetry (streamWorld wholeAttempt removedAttempt) streamCall =
      some (resp, log) ∧ NeverRestarted (streamed log) := by
  have hrun : (doSendWithRetry (streamWorld wholeAttempt removedAttempt) streamCall).map
      (fun r => (streamed r.2).length) = some 1 := by decide
  obtain ⟨⟨resp, log⟩, h, hlen⟩ := Option.map_eq_some_iff.mp hrun
  obtain ⟨a, ha⟩ := List.length_eq_one_iff.mp hlen
  refine ⟨resp, log, h, (writer_never_restarted_iff rfl h).mpr ?_⟩
  rw [show streamed log = [a] from ha]
  exact List.pairwise_singleton _ _

/-- **A writer that is restarted**: the first provider is removed while
its response is streaming, and the second writes the article behind what
the first has left. -/
theorem writer_restarted_after_removal :
    ∃ resp log, doSendWithRetry (streamWorld removedAttempt wholeAttempt) streamCall =
      some (resp, log) ∧ ¬NeverRestarted (streamed log) := by
  have hrun : (doSendWithRetry (streamWorld removedAttempt wholeAttempt) streamCall).map
      (fun r => (streamed r.2).map Attempt.wrote) = some [[97], [97, 98]] := by decide
  obtain ⟨⟨resp, log⟩, h, hwrote⟩ := Option.map_eq_some_iff.mp hrun
  refine ⟨resp, log, h, fun hn => ?_⟩
  have hpair : ((streamed log).map Attempt.wrote).Pairwise fun p q => p = [] ∨ q = [] :=
    List.pairwise_map.mpr hn.once
  rw [show (streamed log).map Attempt.wrote = [[97], [97, 98]] from hwrote] at hpair
  simp at hpair

end Dispatch

end NntpPool
