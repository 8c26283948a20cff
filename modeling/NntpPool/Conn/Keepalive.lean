import NntpPool.Reader.Yenc
/-!
# Conn — the keepalive probe

When a connection has been idle, `Run` sends a keepalive command through
the pipeline and waits for its reply, which `readerLoop` reads like any
other: up to the end the status code announces. The code `Run` expects
and the codes the decoder takes for the start of a block are kept in two
places. They agree for DATE and CAPABILITIES; the reply to HELP is a
block behind the code 100, which the decoder does not know to be one. So
the probe succeeds with the help text unread, and the next request is
given its first line (`help_text_answers_next`). `keepalive_in_step_iff`
says that HELP is the only such command.
-/

namespace NntpPool

namespace Conn

open Reader

/-! ## Commands and replies -/

/-- `keepaliveExpectedCode`. -/
def keepaliveExpectedCode (cmd : String) : ℤ :=
  if cmd = "HELP" then 100 else if cmd = "CAPABILITIES" then 101 else 111

/-- The documented values of `KeepaliveCommand`. -/
inductive KeepaliveCommand
  | date
  | help
  | capabilities
  deriving DecidableEq, Repr

/-- The command as it is configured. -/
def KeepaliveCommand.text : KeepaliveCommand → String
  | .date => "DATE"
  | .help => "HELP"
  | .capabilities => "CAPABILITIES"

/-- The code of its reply in RFC 3977. -/
def KeepaliveCommand.code : KeepaliveCommand → ℤ
  | .date => 111
  | .help => 100
  | .capabilities => 101

/-- Whether the reply goes on to a `.` line there. -/
def KeepaliveCommand.hasBlock : KeepaliveCommand → Bool
  | .date => false
  | .help => true
  | .capabilities => true

/-- **A reply to a keepalive command**, well formed by RFC 3977. -/
structure KeepaliveReply (c : KeepaliveCommand) where
  status : StatusLine
  code : status.code = c.code
  lines : List Bytes
  single : c.hasBlock = false → lines = []
  text : ∀ l ∈ lines, IsText l

/-- What the server sends for it. -/
def KeepaliveReply.bytes {c : KeepaliveCommand} (K : KeepaliveReply c) : Bytes :=
  K.status.text ++ crlf ++ if c.hasBlock then joinLines K.lines ++ terminator else []

/-- `Run` behind the reply: the connection is kept when there was no error
and the code is the expected one. -/
def keepaliveKept (cmd : String) (f : Fed) : Bool :=
  f.err.isNone && f.r.statusCode == keepaliveExpectedCode cmd

/-- The probe's request has no `OnMeta` and does not validate a body. -/
def keepaliveFed (N : Rapidyenc) (chunks : List Bytes) : Option Fed :=
  feedChunks N.decodeIncremental false false chunks

/-! ## Where the reader stands behind the reply -/

theorem expectedCode_eq (c : KeepaliveCommand) : keepaliveExpectedCode c.text = c.code := by
  cases c <;> rfl

/-- The decoder reads a block behind the code of CAPABILITIES only. -/
theorem isMultiline_code (c : KeepaliveCommand) :
    isMultiline c.code = true ↔ c = .capabilities := by
  cases c <;> decide

section

variable (N : Rapidyenc) {c : KeepaliveCommand} (K : KeepaliveReply c)

/-- **A reply without a block of the decoder's** is over behind its status
line, and no cut before leaves the decoder in a body. -/
theorem whole_of_line (hc : c ≠ .capabilities) (t : Bytes) :
    (∃ d, whole N false false (K.bytes ++ t) = some d ∧ d.err = none ∧ d.r.eof = true ∧
      d.r.statusCode = c.code ∧ d.read = K.status.text.length + 2) ∧
    ∀ q d, q <+: K.bytes ++ t → whole N false false q = some d → d.err = none →
      d.r.eof = false → ¬ InBody d.r ∧ ¬ Stuck d.r := by
  have hm : ¬ isMultiline K.status.code = true := by rwa [K.code, isMultiline_code]
  constructor
  · rw [KeepaliveReply.bytes, List.append_assoc _ _ t, whole_status, if_neg hm]
    exact ⟨_, rfl, rfl, rfl, K.code, rfl⟩
  · intro q d hq hd _ heof
    rw [KeepaliveReply.bytes, List.append_assoc _ _ t] at hq
    rcases prefix_line K.status.free hq with ⟨hcut, -⟩ | ⟨u, rfl, -⟩
    · rw [whole_of_cut_none N false false hcut, Option.some.injEq] at hd
      subst hd
      exact ⟨not_inBody_fresh false false, fun hs => nomatch hs.1⟩
    · rw [whole_status, if_neg hm, Option.some.injEq] at hd
      subst hd
      simp at heof

/-- The block of a CAPABILITIES reply is kept as text: no line of it is
looked at for a format. -/
theorem idle_capabilities (K : KeepaliveReply .capabilities) :
    Idle (afterStatus false false K.status) ∧ K.status.code ≠ 0 := by
  have hcode := K.code
  refine ⟨Or.inr ⟨rfl, ?_, ?_⟩, ?_⟩
  · exact fun hc => absurd (hcode.symm.trans hc) (by decide)
  · exact fun hc => absurd (hcode.symm.trans hc) (by decide)
  · rw [hcode]
    decide

/-- **A CAPABILITIES reply is read to exactly its end**, and no cut before
leaves the decoder in a body. -/
theorem whole_of_block (K : KeepaliveReply .capabilities) (t : Bytes) :
    (∃ d, whole N false false (K.bytes ++ t) = some d ∧ d.err = none ∧ d.r.eof = true ∧
      d.r.statusCode = KeepaliveCommand.code .capabilities ∧ d.read = K.bytes.length) ∧
    ∀ q d, q <+: K.bytes ++ t → whole N false false q = some d → d.err = none →
      d.r.eof = false → ¬ InBody d.r ∧ ¬ Stuck d.r := by
  obtain ⟨hr, hb⟩ := ready_afterStatus false false K.status
  obtain ⟨hidle, hne⟩ := idle_capabilities K
  obtain ⟨hq, -, hstuck⟩ := quietLines_of_idle K.lines hne hidle K.text
  have hm : isMultiline K.status.code = true := by rw [K.code]; rfl
  have hbytes : K.bytes = K.status.text ++ crlf ++ (joinLines K.lines ++ terminator) := rfl
  have hend : ∀ u, whole N false false (K.bytes ++ u) =
      some ⟨{ K.lines.foldl noteLine (afterStatus false false K.status) with eof := true }, [],
        K.bytes.length, u, none⟩ := by
    intro u
    have hlen : (K.bytes.length : ℤ) =
        K.status.text.length + 2 + ((joinLines K.lines).length + 3) := by
      have hthree : terminator.length = 3 := rfl
      simp only [hbytes, List.length_append, crlf_length, hthree]
      omega
    rw [hlen, hbytes, List.append_assoc _ _ u, List.append_assoc (joinLines _), whole_status,
      if_pos hm, scan_block N hr hb hq]
    rfl
  constructor
  · rw [hend]
    refine ⟨_, rfl, rfl, rfl, ?_, rfl⟩
    exact (foldl_noteLine_statusCode K.lines).trans K.code
  · intro q d hpre hd _ heof
    by_cases hfull : K.bytes <+: q
    · -- the reply is complete
      obtain ⟨u, rfl⟩ := hfull
      rw [hend, Option.some.injEq] at hd
      subst hd
      simp at heof
    · have hq' : q <+: K.bytes :=
        (List.prefix_or_prefix_of_prefix hpre (List.prefix_append _ _)).resolve_right hfull
      have hqne : q ≠ K.bytes := fun hc => hfull (hc ▸ List.prefix_rfl)
      rw [hbytes] at hq' hqne
      rcases prefix_line K.status.free hq' with ⟨hcut, -⟩ | ⟨u, rfl, hu⟩
      · rw [whole_of_cut_none N false false hcut, Option.some.injEq] at hd
        subst hd
        exact ⟨not_inBody_fresh false false, fun hs => nomatch hs.1⟩
      · rw [whole_status, if_pos hm] at hd
        obtain ⟨d', hd', rfl⟩ := Option.map_eq_some_iff.mp hd
        obtain ⟨hnb, hs⟩ := stuck_of_block_front N hr hb rfl hq hu (fun hc => hqne (by rw [hc])) hd'
        refine ⟨hnb, fun hc => ?_⟩
        -- no line of an idle block starts a UU body
        have hnone : uuBodyEnd (afterStatus false false K.status) K.lines = none := by
          rw [uuBodyEnd_eq_none_iff rfl, hstuck]
          exact fun h => nomatch h.1
        obtain ⟨e, he, -⟩ := hs.mp hc
        rw [hnone] at he
        cases he

/-- **Only HELP leaves the reader out of step.** However the reply and
what follows it come in, the probe is answered with the code `Run`
expects and the connection is kept; the reader then stands at the end of
the reply if and only if the command is not HELP. -/
theorem keepalive_in_step_iff {chunks : List Bytes} {t : Bytes}
    (h : chunks.flatten = K.bytes ++ t) :
    ∃ f, keepaliveFed N chunks = some f ∧ f.done = true ∧ keepaliveKept c.text f = true ∧
      (f.r.bytesConsumed = K.bytes.length ↔ c ≠ .help) := by
  have hspec : (∃ d, whole N false false (K.bytes ++ t) = some d ∧ d.err = none ∧
      d.r.eof = true ∧ d.r.statusCode = c.code ∧ (d.read = K.bytes.length ↔ c ≠ .help)) ∧
      ∀ q d, q <+: K.bytes ++ t → whole N false false q = some d → d.err = none →
        d.r.eof = false → ¬ InBody d.r ∧ ¬ Stuck d.r := by
    by_cases hc : c = .capabilities
    · subst hc
      obtain ⟨⟨d, hd, herr, heof, hcode, hread⟩, hcut⟩ := whole_of_block N K t
      exact ⟨⟨d, hd, herr, heof, hcode, by simp [hread]⟩, hcut⟩
    · obtain ⟨⟨d, hd, herr, heof, hcode, hread⟩, hcut⟩ := whole_of_line N K hc t
      refine ⟨⟨d, hd, herr, heof, hcode, ?_⟩, hcut⟩
      rw [hread, KeepaliveReply.bytes]
      -- behind HELP at least the `.` line is left
      cases c with
      | date => simp [KeepaliveCommand.hasBlock]
      | help =>
        have hthree : terminator.length = 3 := rfl
        simp only [KeepaliveCommand.hasBlock, if_true, List.length_append, crlf_length, hthree,
          ne_eq, not_true_eq_false, iff_false]
        omega
      | capabilities => exact absurd rfl hc
  obtain ⟨⟨d, hd, herr, heof, hcode, hread⟩, hcut⟩ := hspec
  rw [← h] at hd hcut
  obtain ⟨f, hf, hdone, hferr, hr⟩ := feedChunks_over N false false hcut hd herr heof
  refine ⟨f, hf, hdone, ?_, by rw [hr]; exact hread⟩
  rw [keepaliveKept, hferr, hr, expectedCode_eq]
  simp [hcode]

end

/-- A CAPABILITIES reply in two chunks, the second with the start of the
next reply. -/
theorem keepalive_in_step_iff_capabilities :
    ∃ f, keepaliveFed Rapidyenc.scalar
        [ascii "101 list\r\nVERS", ascii "ION 2\r\n.\r\n223 0"] = some f ∧
      f.done = true ∧ keepaliveKept "CAPABILITIES" f = true ∧
      (f.r.bytesConsumed = (ascii "101 list\r\nVERSION 2\r\n.\r\n").length ↔
        KeepaliveCommand.capabilities ≠ .help) :=
  keepalive_in_step_iff Rapidyenc.scalar
    (⟨⟨ascii "101 list", by decide, by decide, by decide⟩, by decide, [ascii "VERSION 2"],
      by decide, by decide⟩ : KeepaliveReply .capabilities)
    (t := ascii "223 0") (by decide)

/-- A HELP reply whose text explains a code. -/
def helpReply : KeepaliveReply .help where
  status := ⟨ascii "100 help", by decide, by decide, by decide⟩
  code := by decide
  lines := [ascii "430 no such article"]
  single := by decide
  text := by decide

/-- **The help text answers the next request.** The probe succeeds, the
reader stands behind the status line, and a STAT whose own response is
223 is told that there is no such article. -/
theorem help_text_answers_next :
    ∃ f g, keepaliveFed Rapidyenc.scalar [helpReply.bytes ++ ascii "223 0 <a>\r\n"] = some f ∧
      f.done = true ∧ keepaliveKept "HELP" f = true ∧
      f.r.bytesConsumed ≠ helpReply.bytes.length ∧
      feed Rapidyenc.scalar.decodeIncremental accepting (fresh false false) [] f.rest = some g ∧
      g.done = true ∧ g.r.statusCode = 430 := by
  have hprobe : (keepaliveFed Rapidyenc.scalar [helpReply.bytes ++ ascii "223 0 <a>\r\n"]).map
      (fun f => (f.done, keepaliveKept "HELP" f, f.r.bytesConsumed, f.rest)) =
        some (true, true, 10, ascii "430 no such article\r\n.\r\n223 0 <a>\r\n") := by
    decide
  obtain ⟨f, hf, hp⟩ := Option.map_eq_some_iff.mp hprobe
  simp only [Prod.mk.injEq] at hp
  obtain ⟨hdone, hkept, hread, hrest⟩ := hp
  have hnext : (feed Rapidyenc.scalar.decodeIncremental accepting (fresh false false) [] f.rest).map
      (fun g => (g.done, g.r.statusCode)) = some (true, 430) := by
    rw [hrest]
    decide
  obtain ⟨g, hg, hq⟩ := Option.map_eq_some_iff.mp hnext
  simp only [Prod.mk.injEq] at hq
  refine ⟨f, g, hf, hdone, hkept, ?_, hg, hq.1, hq.2⟩
  rw [hread]
  decide

end Conn

end NntpPool
