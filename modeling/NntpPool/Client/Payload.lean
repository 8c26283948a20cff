import NntpPool.Dispatch.Model.Send
/-!
# Client — the commands a call writes

Every call that asks for an article puts the message-ID it is given
between a command word and `>\r\n`, and the payload goes to the
connection as it is. `readerLoop` then counts on one response for each
request. That is so as long as a payload is one command line: no
message-ID may hold a line break (`one_command_each_iff`). None of the
calls looks, so an ID with `\r\n` in it writes two commands for one
request (`broken_id_writes_two`).
-/

namespace NntpPool

namespace Client

/-! ## The calls -/

/-- What all the payloads are: the message-ID behind the command's
head. -/
def idCommand (head id : Bytes) : Bytes := head ++ id ++ ascii ">\r\n"

/-- The payload of `doBody`, `BodyPriority`, `BodyTargeted` and
`SpeedTest`. -/
def bodyPayload (messageID : Bytes) : Bytes := idCommand (ascii "BODY <") messageID

/-- The payload of `Head`. -/
def headPayload (messageID : Bytes) : Bytes := idCommand (ascii "HEAD <") messageID

/-- `statPayload`. -/
def statPayload (messageID : Bytes) : Bytes := idCommand (ascii "STAT <") messageID

/-- A provider group, by what `findGroup` compares. -/
structure Group where
  name : String
  id : String

/-- `findGroup`. -/
def findGroup (groups : List Group) (name : String) : Option Group :=
  groups.find? fun g => g.name == name || g.id == name

/-- **The calls that take message-IDs.** A writer is only known by whether
there is one; `nzb` is what `loadSpeedTestSegments` answers, by the IDs of
the segments. -/
inductive Call
  | body (messageID : Bytes)
  | bodyPriority (messageID : Bytes)
  | bodyTargeted (messageID : Bytes) (provider : String)
  | bodyStream (messageID : Bytes) (writer : Bool)
  | bodyAsync (messageID : Bytes)
  | head (messageID : Bytes)
  | stat (messageID : Bytes)
  | statPriority (messageID : Bytes)
  | statAsync (messageID : Bytes)
  | statMany (messageIDs : List Bytes) (provider : String)
  | speedTest (nzb : Option (List Bytes)) (maxSegments : ℤ) (provider : String)

/-- Why a call is rejected before anything is sent. -/
inductive Rejection
  | providerNotFound (name : String)
  | nilWriter
  | nzb
  | noSegments
  deriving DecidableEq, Repr

/-- A call that is confined to a provider, if it names one. -/
def targeted (groups : List Group) (provider : String) (payloads : List Bytes) :
    Except Rejection (List Bytes) :=
  if provider ≠ "" ∧ (findGroup groups provider).isNone then .error (.providerNotFound provider)
  else .ok payloads

/-- The segments of a speed test, up to `MaxSegments` of them. -/
def limitSegments (maxSegments : ℤ) (segments : List Bytes) : List Bytes :=
  if 0 < maxSegments ∧ maxSegments < segments.length then segments.take maxSegments.toNat
  else segments

/-- **The payloads of a call**, one for each request. -/
def Call.payloads (groups : List Group) : Call → Except Rejection (List Bytes)
  | .body id => .ok [bodyPayload id]
  | .bodyPriority id => .ok [bodyPayload id]
  | .bodyTargeted id provider =>
    -- unlike the others it does not take the empty name for no provider
    if (findGroup groups provider).isNone then .error (.providerNotFound provider)
    else .ok [bodyPayload id]
  | .bodyStream id writer => if writer then .ok [bodyPayload id] else .error .nilWriter
  | .bodyAsync id => .ok [bodyPayload id]
  | .head id => .ok [headPayload id]
  | .stat id => .ok [statPayload id]
  | .statPriority id => .ok [statPayload id]
  | .statAsync id => .ok [statPayload id]
  | .statMany ids provider => targeted groups provider (ids.map statPayload)
  | .speedTest none _ _ => .error .nzb
  | .speedTest (some segments) maxSegments provider =>
    if segments = [] then .error .noSegments
    else targeted groups provider ((limitSegments maxSegments segments).map bodyPayload)

/-- The message-IDs a call is given and uses. -/
def Call.ids : Call → List Bytes
  | .body id | .bodyPriority id | .bodyTargeted id _ | .bodyStream id _ | .bodyAsync id
  | .head id | .stat id | .statPriority id | .statAsync id => [id]
  | .statMany ids _ => ids
  | .speedTest nzb maxSegments _ => limitSegments maxSegments (nzb.getD [])

/-- The call is rejected. -/
def Call.Rejected (groups : List Group) (c : Call) : Prop := ∃ e, c.payloads groups = .error e

/-- What it writes. -/
def Call.written (groups : List Group) (c : Call) : List Bytes :=
  (c.payloads groups).toOption.getD []

/-! ## Command lines -/

/-- The bytes have no line break. -/
def Unbroken (b : Bytes) : Prop := 13 ∉ b ∧ 10 ∉ b

instance (b : Bytes) : Decidable (Unbroken b) := inferInstanceAs (Decidable (_ ∧ _))

/-- **Exactly one command line**: the only line break is the last one. -/
def IsCommandLine (p : Bytes) : Prop := ∃ l, p = l ++ crlf ∧ Unbroken l

/-- How many commands the server reads from the bytes. -/
def commandLines : Bytes → ℕ
  | 13 :: 10 :: t => commandLines t + 1
  | _ :: t => commandLines t
  | [] => 0

/-- The payload of the probes that may run before a command. -/
def probePayload (payload : Bytes) : Option Bytes :=
  (Dispatch.extractProbeMsgID payload).map fun id => ascii "STAT " ++ id ++ crlf

theorem unbroken_append {a b : Bytes} : Unbroken (a ++ b) ↔ Unbroken a ∧ Unbroken b := by
  unfold Unbroken
  rw [List.mem_append, List.mem_append]
  tauto

/-- A line without a break in front of its terminator counts as one. -/
theorem commandLines_line {l : Bytes} (h : Unbroken l) (t : Bytes) :
    commandLines (l ++ crlf ++ t) = commandLines t + 1 := by
  induction l with
  | nil => rfl
  | cons b l ih =>
    have hb : b ≠ 13 := fun hc => h.1 (by simp [hc])
    have hl : Unbroken l := ⟨fun hc => h.1 (by simp [hc]), fun hc => h.2 (by simp [hc])⟩
    rw [List.cons_append, List.cons_append, commandLines]
    · exact ih hl
    · intro t' hc
      exact fun _ => hb hc

/-- **One command for each request**, when every payload is a command
line. -/
theorem commandLines_flatten {ps : List Bytes} (h : ∀ p ∈ ps, IsCommandLine p) :
    commandLines ps.flatten = ps.length := by
  induction ps with
  | nil => rfl
  | cons p ps ih =>
    obtain ⟨l, rfl, hl⟩ := h p (List.mem_cons_self ..)
    rw [List.flatten_cons, commandLines_line hl, ih fun p' hp' => h p' (by simp [hp']),
      List.length_cons]

/-- A payload is a command line if and only if its message-ID has no line
break. -/
theorem isCommandLine_idCommand {head : Bytes} (hhead : Unbroken head) (id : Bytes) :
    IsCommandLine (idCommand head id) ↔ Unbroken id := by
  have heq : idCommand head id = head ++ id ++ [62] ++ crlf := by
    simp [idCommand, ascii, crlf]
  have hmark : Unbroken [62] := by decide
  constructor
  · rintro ⟨l, hl, hun⟩
    rw [heq] at hl
    rw [← List.append_cancel_right hl, unbroken_append, unbroken_append] at hun
    exact hun.1.2
  · intro h
    exact ⟨_, heq, unbroken_append.2 ⟨unbroken_append.2 ⟨hhead, h⟩, hmark⟩⟩

/-! ## The probes -/

theorem takeWhile_mark {b : UInt8} (a t : Bytes) :
    (a ++ b :: t).takeWhile (· != b) = a.takeWhile (· != b) := by
  induction a with
  | nil => simp
  | cons c a ih =>
    rw [List.cons_append, List.takeWhile_cons, List.takeWhile_cons, ih]

/-- The ID a probe asks for is the call's, up to a `>` within. -/
theorem extractProbeMsgID_idCommand {head id : Bytes}
    (hhead : head = ascii "BODY <" ∨ head = ascii "HEAD <") :
    Dispatch.extractProbeMsgID (idCommand head id) =
      some (60 :: id.takeWhile (· != 62) ++ [62]) := by
  have hword : ((idCommand head id).take 4).map Dispatch.lower ≠ ascii "stat" ∧
      ((idCommand head id).take 4).map Dispatch.lower ≠ ascii "post" := by
    rcases hhead with rfl | rfl
    · exact ⟨show ascii "body" ≠ _ by decide, show ascii "body" ≠ _ by decide⟩
    · exact ⟨show ascii "head" ≠ _ by decide, show ascii "head" ≠ _ by decide⟩
  have htail : (idCommand head id).dropWhile (· != 60) = 60 :: (id ++ 62 :: crlf) := by
    rcases hhead with rfl | rfl <;> rfl
  have hmem : (60 :: (id ++ 62 :: crlf)).contains 62 = true := by simp
  have htake : (60 :: (id ++ 62 :: crlf)).takeWhile (· != 62) = 60 :: id.takeWhile (· != 62) := by
    rw [List.takeWhile_cons, if_pos (by decide), takeWhile_mark]
  simp only [Dispatch.extractProbeMsgID, hword.1, hword.2, or_self, if_false, htail, hmem, if_true,
    htake]

/-- A probe is a command line when the ID has no line break, and STAT has
none. -/
theorem isCommandLine_probe {head id : Bytes}
    (hhead : head ∈ [ascii "BODY <", ascii "HEAD <", ascii "STAT <"]) (h : Unbroken id) :
    ∀ q ∈ probePayload (idCommand head id), IsCommandLine q := by
  intro q hq
  simp only [List.mem_cons, List.not_mem_nil, or_false] at hhead
  by_cases hstat : head = ascii "STAT <"
  · have hnone : Dispatch.extractProbeMsgID (idCommand head id) = none := by
      subst hstat
      rfl
    rw [probePayload, hnone] at hq
    simp at hq
  · have hprobed : head = ascii "BODY <" ∨ head = ascii "HEAD <" :=
      hhead.imp_right fun h => h.resolve_right hstat
    rw [probePayload, extractProbeMsgID_idCommand hprobed] at hq
    simp only [Option.map_some, Option.mem_def, Option.some.injEq] at hq
    refine ⟨_, hq.symm, unbroken_append.2 ⟨by decide, ?_⟩⟩
    -- what is asked for is a part of the ID
    have hsub := (List.takeWhile_prefix (· != 62) (l := id)).subset
    refine unbroken_append.2 ⟨⟨fun hc => ?_, fun hc => ?_⟩, by decide⟩
    · exact h.1 (hsub ((List.mem_cons.mp hc).resolve_left (by decide)))
    · exact h.2 (hsub ((List.mem_cons.mp hc).resolve_left (by decide)))

/-! ## What the calls write -/

variable (groups : List Group)

/-- **A call is rejected, or every ID it is given becomes a payload** as it
is. -/
theorem Call.rejected_or_payloads (c : Call) :
    c.Rejected groups ∨ ∃ head ∈ [ascii "BODY <", ascii "HEAD <", ascii "STAT <"],
      c.payloads groups = .ok (c.ids.map (idCommand head)) := by
  have htargeted : ∀ (provider : String) (ps : List Bytes),
      (∃ e, targeted groups provider ps = .error e) ∨ targeted groups provider ps = .ok ps := by
    intro provider ps
    unfold targeted
    split_ifs
    · exact Or.inl ⟨_, rfl⟩
    · exact Or.inr rfl
  rcases c with id | id | ⟨id, provider⟩ | ⟨id, writer⟩ | id | id | id | id | id | ⟨ids, provider⟩ |
    ⟨nzb, limit, provider⟩
  case bodyTargeted =>
    by_cases hg : (findGroup groups provider).isNone
    · exact Or.inl ⟨_, if_pos hg⟩
    · exact Or.inr ⟨ascii "BODY <", by simp, if_neg hg⟩
  case bodyStream =>
    by_cases hw : writer = true
    · exact Or.inr ⟨ascii "BODY <", by simp, if_pos hw⟩
    · exact Or.inl ⟨_, if_neg hw⟩
  case head => exact Or.inr ⟨ascii "HEAD <", by simp, rfl⟩
  case stat => exact Or.inr ⟨ascii "STAT <", by simp, rfl⟩
  case statPriority => exact Or.inr ⟨ascii "STAT <", by simp, rfl⟩
  case statAsync => exact Or.inr ⟨ascii "STAT <", by simp, rfl⟩
  case statMany =>
    rcases htargeted provider (ids.map statPayload) with h | h
    · exact Or.inl h
    · exact Or.inr ⟨ascii "STAT <", by simp, h⟩
  case speedTest =>
    rcases nzb with _ | segments
    · exact Or.inl ⟨_, rfl⟩
    by_cases hs : segments = []
    · exact Or.inl ⟨.noSegments, by rw [Call.payloads, if_pos hs]⟩
    rcases htargeted provider ((limitSegments limit segments).map bodyPayload) with ⟨e, h⟩ | h
    · exact Or.inl ⟨e, by rw [Call.payloads, if_neg hs, h]⟩
    · exact Or.inr ⟨ascii "BODY <", by simp, by rw [Call.payloads, if_neg hs, h]; rfl⟩
  all_goals exact Or.inr ⟨ascii "BODY <", by simp, rfl⟩

/-- What a call writes is command lines, and its probes are, if and only
if it is rejected or none of its IDs has a line break. -/
theorem Call.written_iff (c : Call) :
    (∀ p ∈ c.written groups, IsCommandLine p ∧ ∀ q ∈ probePayload p, IsCommandLine q) ↔
      c.Rejected groups ∨ ∀ id ∈ c.ids, Unbroken id := by
  rcases c.rejected_or_payloads groups with hr | ⟨head, hhead, hp⟩
  · obtain ⟨e, he⟩ := id hr
    have hnone : c.written groups = [] := by rw [Call.written, he]; rfl
    rw [hnone]
    exact ⟨fun _ => Or.inl hr, fun _ p hp => absurd hp List.not_mem_nil⟩
  · have hun : Unbroken head := by
      simp only [List.mem_cons, List.not_mem_nil, or_false] at hhead
      rcases hhead with rfl | rfl | rfl <;> decide
    have hnot : ¬ c.Rejected groups := by
      rintro ⟨e, he⟩
      rw [hp] at he
      cases he
    have hwritten : c.written groups = c.ids.map (idCommand head) := by rw [Call.written, hp]; rfl
    rw [hwritten, or_iff_right hnot]
    constructor
    · intro h id hid
      exact (isCommandLine_idCommand hun id).mp (h _ (List.mem_map_of_mem hid)).1
    · intro h p hp
      obtain ⟨id, hid, rfl⟩ := List.mem_map.mp hp
      exact ⟨(isCommandLine_idCommand hun id).mpr (h id hid), isCommandLine_probe hhead (h id hid)⟩

/-- **One request writes one command.** Of any calls, what they write to
the connections is one command line a request, for the commands and for
their probes, and the server reads as many commands as there are requests,
if and only if every call is rejected or given IDs without a line
break. -/
theorem one_command_each_iff (calls : List Call) :
    ((∀ p ∈ calls.flatMap (Call.written groups),
        IsCommandLine p ∧ ∀ q ∈ probePayload p, IsCommandLine q) ∧
      commandLines (calls.flatMap (Call.written groups)).flatten =
        (calls.flatMap (Call.written groups)).length) ↔
      ∀ c ∈ calls, c.Rejected groups ∨ ∀ id ∈ c.ids, Unbroken id := by
  have hlines : (∀ p ∈ calls.flatMap (Call.written groups),
      IsCommandLine p ∧ ∀ q ∈ probePayload p, IsCommandLine q) ↔
      ∀ c ∈ calls, c.Rejected groups ∨ ∀ id ∈ c.ids, Unbroken id := by
    rw [List.forall_mem_flatMap]
    exact forall₂_congr fun c _ => c.written_iff groups
  rw [hlines, and_iff_left_iff_imp]
  intro h
  exact commandLines_flatten fun p hp => (hlines.mpr h p hp).1

/-- An ID with a second command in it. -/
def brokenID : Bytes := ascii "a>\r\nSTAT <b"

/-- **One request, two commands**: a STAT for an ID with a line break
is not rejected, and the server answers twice. -/
theorem broken_id_writes_two :
    ¬ (Call.stat brokenID).Rejected [] ∧
      (Call.stat brokenID).written [] = [ascii "STAT <a>\r\nSTAT <b>\r\n"] ∧
      ¬ (∀ p ∈ (Call.stat brokenID).written [], IsCommandLine p) ∧
      commandLines ((Call.stat brokenID).written []).flatten = 2 := by
  refine ⟨?_, rfl, ?_, rfl⟩
  · rintro ⟨e, he⟩
    cases he
  · intro h
    have hun := (isCommandLine_idCommand (by decide) brokenID).mp
      (h (statPayload brokenID) (List.mem_singleton.mpr rfl))
    exact absurd hun (by decide)

end Client

end NntpPool
