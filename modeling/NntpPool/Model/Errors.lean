import NntpPool.Common.Bytes
/-!
# Errors

Go error values as trees, and the three questions the pool asks of them:
`errors.Is` against a sentinel (`isSentinel`), `errors.Is` against one of
the protocol errors of `errors.go` (`isCode`), and `errors.As` into
`net.Error` (`asNetError`). Errors that come from outside the repository
(the network stack, a caller's connection factory or writer) are
`external`, which says what such a value answers to the same questions.
-/

namespace NntpPool

/-- The error values compared by identity. -/
inductive Sentinel
  | maxConnections
  | connectionDied
  | abandonedBodyDrainLimit
  | freshTransportRequired
  | backgroundStatWindowFull
  | crcMismatch
  | bodyCorrupt
  | protocolDesync
  | quotaExceeded
  | invalidProviderConfiguration
  | circuitBreakerOpen
  | readBufferExceeded
  | noMainProviders
  | allProvidersExhausted
  | canceled
  | deadlineExceeded
  | eof
  | unexpectedEOF
  | closedPipe
  | netClosed
  deriving DecidableEq, Repr

/-- An error value of foreign code, by what it answers: the sentinels and
the protocol codes `errors.Is` finds in it, what `net.Error` says its
`Timeout` is, and whether a `net.AddrError` is in its chain. -/
structure External where
  name : String
  is : List Sentinel
  codes : List ℤ
  timeout : Option Bool
  addrError : Bool
  deriving DecidableEq, Repr

/-- **Error values.** -/
inductive GoError
  /-- `errors.New`, and the context, `io` and `net` sentinels. -/
  | sentinel (s : Sentinel)
  /-- `*Error`, a protocol-level error with its status code. -/
  | protocol (code : ℤ) (message : Bytes)
  /-- `*greetingError`. -/
  | greeting (code : ℤ) (message : Bytes)
  /-- `*CircuitBreakerError`. -/
  | breakerOpen (providerID : String)
  /-- `fmt.Errorf("text: %w", cause)`. -/
  | wrapped (text : String) (cause : GoError)
  /-- `fmt.Errorf("%w: %w", a, b)`. -/
  | joined (a b : GoError)
  /-- `*classifiedError`. -/
  | classified (cause category : GoError)
  /-- A value made elsewhere. -/
  | external (e : External)
  deriving DecidableEq, Repr

/-- `errorCategory`: 423 and 430 are one category. -/
def errorCategory (code : ℤ) : ℤ := if code = 423 ∨ code = 430 then 430 else code

namespace GoError

/-- `errors.Is` against a sentinel. -/
def isSentinel (s : Sentinel) : GoError → Bool
  | sentinel t => t == s
  | protocol _ _ => false
  -- `greetingError.Is`: a 400 or 502 greeting is a connection limit
  | greeting c _ => (c == 400 || c == 502) && s == .maxConnections
  | breakerOpen _ => s == .circuitBreakerOpen
  | wrapped _ e => e.isSentinel s
  | joined a b => a.isSentinel s || b.isSentinel s
  | classified a b => a.isSentinel s || b.isSentinel s
  | external e => e.is.contains s

/-- `errors.Is` against an `*Error` of the given code: by category. -/
def isCode (code : ℤ) : GoError → Bool
  | sentinel _ => false
  | protocol c _ => errorCategory c == errorCategory code
  -- `greetingError.Is` defers to `ErrAuthRequired` and `ErrAuthRejected`
  | greeting c _ => (c == 480 && errorCategory code == 480) || (c == 481 && errorCategory code == 481)
  | breakerOpen _ => false
  | wrapped _ e => e.isCode code
  | joined a b => a.isCode code || b.isCode code
  | classified a b => a.isCode code || b.isCode code
  | external e => e.codes.any fun c => errorCategory c == errorCategory code

/-- Whether `errors.As` finds an `*Error`. -/
def asProtocol : GoError → Bool
  | sentinel _ => false
  | protocol _ _ => true
  | greeting _ _ => false
  | breakerOpen _ => false
  | wrapped _ e => e.asProtocol
  | joined a b => a.asProtocol || b.asProtocol
  | classified a b => a.asProtocol || b.asProtocol
  | external e => !e.codes.isEmpty

/-- `errors.As` into `net.Error`: what `Timeout` answers on the first
match. `context.DeadlineExceeded` is one that has timed out,
`context.Canceled` is none, and a closed connection is one that has
not. -/
def asNetError : GoError → Option Bool
  | sentinel .deadlineExceeded => some true
  | sentinel .netClosed => some false
  | sentinel _ => none
  | protocol _ _ => none
  | greeting _ _ => none
  | breakerOpen _ => none
  | wrapped _ e => e.asNetError
  | joined a b => a.asNetError <|> b.asNetError
  | classified a b => a.asNetError <|> b.asNetError
  | external e => e.timeout

/-- A network timeout, in the sense `readerLoop` tests for. -/
def isTimeout (e : GoError) : Bool := e.asNetError == some true

end GoError

/-- What a context that is done answers. -/
inductive CtxErr
  | canceled
  | deadlineExceeded
  deriving DecidableEq, Repr

def CtxErr.toError : CtxErr → GoError
  | .canceled => .sentinel .canceled
  | .deadlineExceeded => .sentinel .deadlineExceeded

/-- The protocol errors of `errors.go`. -/
def errArticleNotFound : GoError := .protocol 430 (ascii "no such article")
def errPostingNotPermitted : GoError := .protocol 440 (ascii "posting not permitted")
def errPostingFailed : GoError := .protocol 441 (ascii "posting failed")
def errAuthRequired : GoError := .protocol 480 (ascii "authentication required")
def errAuthRejected : GoError := .protocol 481 (ascii "authentication rejected")
def errServiceUnavailable : GoError := .protocol 502 (ascii "service unavailable")

/-- `toError`: a status code as an error, `none` on success. -/
def toError (code : ℤ) (status : Bytes) : Option GoError :=
  if 200 ≤ code ∧ code < 400 then none
  else if code = 423 ∨ code = 430 then some errArticleNotFound
  else if code = 440 then some errPostingNotPermitted
  else if code = 441 then some errPostingFailed
  else if code = 480 then some errAuthRequired
  else if code = 481 then some errAuthRejected
  else if code = 502 then some errServiceUnavailable
  else some (.protocol code status)

/-- `toError` is silent exactly on the success codes. -/
theorem toError_eq_none {code : ℤ} {status : Bytes} :
    toError code status = none ↔ 200 ≤ code ∧ code < 400 := by
  unfold toError
  split_ifs <;> simp_all

/-- `withErrorClassification`: attach a category the cause does not
already match. Only protocol errors and sentinels are ever attached. -/
def withErrorClassification (cause category : GoError) : GoError :=
  let already := match category with
    | .sentinel s => cause.isSentinel s
    | .protocol code _ => cause.isCode code
    | _ => false
  if already then cause else .classified cause category

/-- `isConnectionDeathError`: the connection failed at the transport
layer, other than by a timeout. -/
def isConnectionDeathError (e : GoError) : Bool :=
  if e.isCode 480 || e.isCode 481 || e.isSentinel .invalidProviderConfiguration then false
  else if e.isSentinel .connectionDied || e.isSentinel .eof || e.isSentinel .unexpectedEOF ||
      e.isSentinel .closedPipe || e.isSentinel .netClosed then true
  else e.asNetError == some false

/-! ## Operations -/

/-- The NNTP command of a request. -/
inductive Operation
  | unknown
  | body
  | stat
  | head
  | article
  | post
  deriving DecidableEq, Repr

/-- Simple case folding, as `bytes.EqualFold` applies it against ASCII
text: letters, and the long s and the Kelvin sign, which fold to ASCII. -/
def foldCase : Bytes → Bytes
  | 0xC5 :: 0xBF :: bs => 115 :: foldCase bs
  | 0xE2 :: 0x84 :: 0xAA :: bs => 107 :: foldCase bs
  | b :: bs => (if 65 ≤ b ∧ b ≤ 90 then b + 32 else b) :: foldCase bs
  | [] => []

/-- `operationFromPayload`: the first word of the payload. -/
def operationFromPayload (payload : Bytes) : Operation :=
  let command := foldCase (payload.takeWhile fun b => !(b == 32 || b == 9 || b == 13 || b == 10))
  if command = ascii "body" then .body
  else if command = ascii "stat" then .stat
  else if command = ascii "head" then .head
  else if command = ascii "article" then .article
  else if command = ascii "post" then .post
  else .unknown

/-- `isArticleOperation`. -/
def isArticleOperation : Operation → Bool
  | .stat | .body | .head | .article => true
  | _ => false

/-- `isCheapCommand`: STAT alone. -/
def isCheapCommand (payload : Bytes) : Bool := operationFromPayload payload == .stat

/-- `isBodyCommand`: BODY and ARTICLE. -/
def isBodyCommand (payload : Bytes) : Bool :=
  match operationFromPayload payload with
  | .body | .article => true
  | _ => false

end NntpPool
