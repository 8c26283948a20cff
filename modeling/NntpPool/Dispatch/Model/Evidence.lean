import NntpPool.Model.Errors
/-!
# Dispatch — evidence of an attempt

`errors.go`: every attempt on a provider leaves an `AttemptEvidence`
whose outcome is read off the status code and the error chain, and the
call ends in a `TransportError` that sums the evidence up. The durations
of the evidence are left out; no decision reads them.
-/

namespace NntpPool

namespace Dispatch

/-- `OutcomeKind`. -/
inductive OutcomeKind
  | success
  | hardArticleAbsence
  | temporaryFailure
  | providerUnavailable
  | corruptBody
  | cancellation
  | transportFailure
  | inconclusive
  deriving DecidableEq, Repr

/-- `BodyValidationStatus`. -/
inductive BodyValidation
  | notApplicable
  | notRequested
  | valid
  | invalid
  | incomplete
  deriving DecidableEq, Repr

/-- `AttemptEvidence`. -/
structure Evidence where
  providerID : String
  operation : Operation
  outcome : OutcomeKind
  responseCode : ℤ
  bodyValidation : BodyValidation
  cause : Option GoError
  providerResponseTimeout : Bool
  deriving DecidableEq, Repr

/-- The error is one that makes a provider unavailable. -/
def isUnavailable (e : GoError) : Bool :=
  e.isCode 502 || e.isCode 480 || e.isCode 481 || e.isSentinel .quotaExceeded ||
    e.isSentinel .invalidProviderConfiguration || e.isSentinel .maxConnections

/-- **`classifyOutcome`.** -/
def classifyOutcome (code : ℤ) (err : Option GoError) : OutcomeKind :=
  if err.isNone ∧ 200 ≤ code ∧ code < 400 then .success
  else if err.any fun e => e.isSentinel .canceled || e.isSentinel .deadlineExceeded then
    .cancellation
  else if err.any fun e => e.isSentinel .bodyCorrupt || e.isSentinel .crcMismatch then .corruptBody
  else if err.any (·.isSentinel .circuitBreakerOpen) then .temporaryFailure
  else if err.any isUnavailable ∨ code = 502 then .providerUnavailable
  else if code = 423 ∨ code = 430 ∨ err.any (·.isCode 430) then .hardArticleAbsence
  else if code = 451 then .temporaryFailure
  else if err.any (·.asProtocol) then .inconclusive
  else if err.isSome then .transportFailure
  else .inconclusive

/-- What `buildAttemptEvidence` reads of a request. -/
structure RequestInfo where
  payload : Bytes
  validateBody : Bool
  /-- `response451Policy` is `Response451AbsentAfterRetry`. -/
  maps451 : Bool
  /-- It has reached the response head. -/
  atHead : Bool
  ctxDone : Bool

/-- `requestMaps451ToAbsence`. -/
def requestMaps451ToAbsence (req : RequestInfo) (code : ℤ) : Bool :=
  code == 451 && req.maps451 && isArticleOperation (operationFromPayload req.payload)

/-- The outcome `buildAttemptEvidence` records. -/
def attemptOutcome (req : RequestInfo) (code : ℤ) (status : Bytes) (err : Option GoError) :
    OutcomeKind :=
  if err.isNone ∧ requestMaps451ToAbsence req code then .hardArticleAbsence
  else classifyOutcome code (err <|> toError code status)

/-- The validation status it records. -/
def attemptValidation (req : RequestInfo) (code : ℤ) (err : Option GoError)
    (outcome : OutcomeKind) : BodyValidation :=
  if operationFromPayload req.payload ≠ .body then .notApplicable
  else if req.validateBody = false then .notRequested
  else if outcome = .success then .valid
  else if outcome = .corruptBody then .invalid
  else if code = 222 ∨ err.isSome then .incomplete
  else .notApplicable

/-- **`buildAttemptEvidence`.** -/
def buildAttemptEvidence (req : RequestInfo) (providerID : String) (code : ℤ) (status : Bytes)
    (err : Option GoError) : Evidence where
  providerID := providerID
  operation := operationFromPayload req.payload
  outcome := attemptOutcome req code status err
  responseCode := code
  bodyValidation := attemptValidation req code err (attemptOutcome req code status err)
  cause := err <|> toError code status
  providerResponseTimeout := req.atHead && !req.ctxDone && err.any (·.isTimeout)

/-- `buildEligibilityEvidence`. -/
def buildEligibilityEvidence (payload : Bytes) (providerID : String) (cause : GoError)
    (validateBody : Bool) : Evidence :=
  buildAttemptEvidence ⟨payload, validateBody, false, false, false⟩ providerID 0 [] (some cause)

/-! ## The final error -/

/-- `TransportError`. -/
structure TransportError where
  kind : OutcomeKind
  providerID : String
  responseCode : ℤ
  attempts : List Evidence
  cause : Option GoError

/-- `Response.Err` of a final response. -/
inductive FinalErr
  | plain (e : GoError)
  | transport (e : TransportError)

/-- `errors.Is` against an `*Error` of the given code. -/
def FinalErr.isCode (code : ℤ) : FinalErr → Bool
  | .plain e => e.isCode code
  | .transport e => e.cause.any (·.isCode code)

/-- The variables of the first loop of `newTransportError`. -/
structure Tally where
  kind : OutcomeKind := .inconclusive
  haveKind : Bool := false
  mixed : Bool := false

/-- One turn of that loop. -/
def Tally.add (t : Tally) (o : OutcomeKind) : Tally :=
  if o = .success then t
  else if o = .cancellation then ⟨.cancellation, true, false⟩
  else if t.kind = .cancellation then t
  else if t.haveKind = false then { t with kind := o, haveKind := true }
  else if t.kind ≠ o then { t with kind := .inconclusive, mixed := true }
  else t

/-- The loop. -/
def tally (attempts : List Evidence) : Tally := (attempts.map (·.outcome)).foldl Tally.add {}

/-- The attempt the summary fields are taken from: of a mixed result the
last that failed otherwise than by absence, else the last of the kind. -/
def representative (t : Tally) (attempts : List Evidence) : Option Evidence :=
  attempts.reverse.find? fun a =>
    if t.mixed then
      a.outcome ≠ .success ∧ a.outcome ≠ .hardArticleAbsence ∧ a.cause.isSome
    else a.outcome = t.kind

/-- **`newTransportError`.** -/
def newTransportError (attempts : List Evidence) (cause : GoError) : TransportError :=
  let t := tally attempts
  let rep := representative t attempts
  let cause := (rep.bind (·.cause)).getD cause
  { kind := t.kind
    providerID := if t.mixed then "" else (rep.map (·.providerID)).getD ""
    responseCode := if t.mixed then 0 else (rep.map (·.responseCode)).getD 0
    attempts := attempts
    cause := some (if t.kind = .hardArticleAbsence then
      withErrorClassification cause errArticleNotFound else cause) }

/-- A response as the caller receives it. -/
structure Response where
  statusCode : ℤ := 0
  status : Bytes := []
  err : Option FinalErr := none
  attempts : List Evidence := []
  providerID : String := ""

/-- **`responseError`.** -/
def responseError (resp : Response) : Option FinalErr :=
  let wrap (cause : GoError) : FinalErr :=
    if resp.attempts = [] then .plain cause else .transport (newTransportError resp.attempts cause)
  match resp.err with
  | some (.transport e) => some (.transport e)
  | some (.plain e) => some (wrap e)
  | none => (toError resp.statusCode resp.status).map wrap

/-- `cancellationResponse`. -/
def cancellationResponse (attempts : List Evidence) (cause : Option GoError) : Response where
  err := some (.transport
    { kind := .cancellation
      providerID := (attempts.getLast?.map (·.providerID)).getD ""
      responseCode := 0
      attempts := attempts
      cause := cause })
  attempts := attempts

end Dispatch

end NntpPool
