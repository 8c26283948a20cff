import NntpPool.Common.Space
import NntpPool.Common.Lines
import NntpPool.Common.Decimal
import Mathlib.Data.List.Sort
/-!
# Post — the headers of an article

`PostHeaders` with the checks of `validate`, the lines `WriteTo` writes
and how it folds them, and `parseHeaders`, which reads such lines. Strings
are byte strings, as they are in Go.

A map is a list of its entries in the order a loop over it comes to them;
what `WriteTo` writes does not depend on that order, as it sorts the keys.
The encoder of RFC 2047 is a parameter, and so is the current time. A time
is given by what `Format` prints of it in UTC. A writer that fails is left
out: it has taken the beginning of what is written here.
-/

namespace NntpPool

namespace Post

/-! ## Checks -/

/-- `strings.ContainsAny`. -/
def containsAny (s set : Bytes) : Bool := s.any set.contains

def containsCRLF (s : Bytes) : Bool := containsAny s crlf

/-- A letter or a digit. -/
def isAlphanumeric (b : UInt8) : Bool :=
  (97 ≤ b && b ≤ 122) || (65 ≤ b && b ≤ 90) || (48 ≤ b && b ≤ 57)

/-- The first character is a letter or a digit, and the others are too, or
one of `.+_-`. -/
def isValidNewsgroupName : Bytes → Bool
  | [] => false
  | b :: s => isAlphanumeric b && s.all fun b => isAlphanumeric b || (ascii ".+_-").contains b

def isValidHeaderName (s : Bytes) : Bool :=
  s ≠ [] && s.all fun b => !(b < 33 || 126 < b || b == 58)

/-- What `validate` finds wrong. -/
inductive HeaderErr
  | fromRequired
  | fromCRLF
  | subjectRequired
  | subjectCRLF
  | newsgroupRequired
  | invalidNewsgroup (name : Bytes)
  | messageIDCRLF
  | malformedMessageID (id : Bytes)
  | invalidExtraName (name : Bytes)
  | extraCRLF (name : Bytes)
  deriving DecidableEq, Repr

/-- The text of the error, with `%q` as a parameter. -/
def HeaderErr.text (quote : Bytes → String) : HeaderErr → String
  | .fromRequired => "nntp post: From header is required"
  | .fromCRLF => "nntp post: From contains CR/LF"
  | .subjectRequired => "nntp post: Subject header is required"
  | .subjectCRLF => "nntp post: Subject contains CR/LF"
  | .newsgroupRequired => "nntp post: at least one newsgroup is required"
  | .invalidNewsgroup name => "nntp post: invalid newsgroup name " ++ quote name
  | .messageIDCRLF => "nntp post: Message-ID contains CR/LF"
  | .malformedMessageID id => "nntp post: malformed Message-ID " ++ quote id
  | .invalidExtraName name => "nntp post: invalid Extra header name " ++ quote name
  | .extraCRLF name => "nntp post: Extra header " ++ quote name ++ " value contains CR/LF"

/-- A time in UTC. The month, the day and the weekday are counted from
zero, the weekday from Sunday. -/
structure UTC where
  year : ℤ
  month : Fin 12
  day : Fin 31
  weekday : Fin 7
  hour : Fin 24
  minute : Fin 60
  second : Fin 60
  deriving DecidableEq, Repr

/-- **`PostHeaders`.** -/
structure PostHeaders where
  fromAddr : Bytes
  subject : Bytes
  newsgroups : List Bytes
  messageID : Bytes := []
  /-- There is none if `Date` is the zero time. -/
  date : Option UTC := none
  extra : List (Bytes × List Bytes) := []
  /-- A map has one entry for a key. -/
  extra_nodup : (extra.map Prod.fst).Nodup := by decide

def validateMessageID (id : Bytes) : Option HeaderErr :=
  if id = [] then none
  else if containsCRLF id then some .messageIDCRLF
  else if !(ascii "<").isPrefixOf id || !(ascii ">").isSuffixOf id || containsAny id [32, 9] then
    some (.malformedMessageID id)
  else none

def validateExtra (extra : List (Bytes × List Bytes)) : Option HeaderErr :=
  extra.findSome? fun (k, vs) =>
    if !isValidHeaderName k then some (.invalidExtraName k)
    else if vs.any containsCRLF then some (.extraCRLF k)
    else none

/-- **`validate`.** -/
def PostHeaders.validate (h : PostHeaders) : Option HeaderErr :=
  if trimSpace h.fromAddr = [] then some .fromRequired
  else if containsCRLF h.fromAddr then some .fromCRLF
  else if trimSpace h.subject = [] then some .subjectRequired
  else if containsCRLF h.subject then some .subjectCRLF
  else if h.newsgroups = [] then some .newsgroupRequired
  else
    match h.newsgroups.find? fun g => !isValidNewsgroupName (trimSpace g) with
    | some g => some (.invalidNewsgroup (trimSpace g))
    | none => (validateMessageID h.messageID).or (validateExtra h.extra)

/-! ## Values -/

/-- `encodeHeaderValue`, with `mime.BEncoding` as a parameter. -/
def encodeHeaderValue (encode : Bytes → Bytes) (s : Bytes) : Bytes :=
  if isASCII s then s else encode s

/-- `appendInt` of the time package: zeros up to the width. -/
def appendInt (x : ℤ) (width : ℕ) : Bytes :=
  (if x < 0 then [45] else []) ++
    List.replicate (width - (decimal x.natAbs).length) 48 ++ decimal x.natAbs

def weekdays : List Bytes := ["Sun", "Mon", "Tue", "Wed", "Thu", "Fri", "Sat"].map ascii

def months : List Bytes :=
  ["Jan", "Feb", "Mar", "Apr", "May", "Jun", "Jul", "Aug", "Sep", "Oct", "Nov", "Dec"].map ascii

/-- `Format(time.RFC1123)`. -/
def UTC.rfc1123 (t : UTC) : Bytes :=
  weekdays.get t.weekday ++ ascii ", " ++ appendInt (t.day + 1 : ℕ) 2 ++ ascii " " ++
    months.get t.month ++ ascii " " ++ appendInt t.year 4 ++ ascii " " ++
    appendInt (t.hour : ℕ) 2 ++ ascii ":" ++ appendInt (t.minute : ℕ) 2 ++ ascii ":" ++
    appendInt (t.second : ℕ) 2 ++ ascii " UTC"

/-! ## Folding -/

def maxHeaderLineLen : ℕ := 900

/-- A space or a tab. -/
def isBlank (b : UInt8) : Bool := [32, 9].contains b

/-- `strings.LastIndexAny`, for spaces and tabs. -/
def lastBlank : Bytes → Option ℕ
  | [] => none
  | b :: s =>
    match lastBlank s with
    | some i => some (i + 1)
    | none => if isBlank b then some 0 else none

/-- The loop of `foldHeaderLine`, with what remains of the line. -/
def foldLoop (remaining : Bytes) : Bytes :=
  if remaining.length ≤ maxHeaderLineLen then remaining
  else
    match lastBlank (remaining.take maxHeaderLineLen) with
    | none => remaining
    | some 0 => remaining
    | some (cut + 1) =>
      remaining.take (cut + 1) ++ crlf ++ [9] ++
        foldLoop ((remaining.drop (cut + 1)).dropWhile isBlank)
termination_by remaining.length
decreasing_by
  have hle := (List.dropWhile_sublist (l := remaining.drop (cut + 1)) isBlank).length_le
  have hdrop : (remaining.drop (cut + 1)).length = remaining.length - (cut + 1) := List.length_drop
  simp only [maxHeaderLineLen] at *
  omega

/-- **`foldHeaderLine`.** -/
def foldHeaderLine (line : Bytes) : Bytes :=
  if line.length ≤ maxHeaderLineLen then line else foldLoop line

/-! ## Writing -/

/-- `h.Extra[k]`. -/
def PostHeaders.extraValues (h : PostHeaders) (k : Bytes) : List Bytes :=
  (h.extra.lookup k).getD []

/-- The keys as `sort.Strings` sorts them. -/
def PostHeaders.sortedKeys (h : PostHeaders) : List Bytes :=
  (h.extra.map Prod.fst).insertionSort (· ≤ ·)

/-- **What `write` is called with**, in order: a name and a value. -/
def PostHeaders.fields (encode : Bytes → Bytes) (now : UTC) (h : PostHeaders) :
    List (Bytes × Bytes) :=
  [(ascii "From", encodeHeaderValue encode h.fromAddr),
    (ascii "Newsgroups", (ascii ", ").intercalate (h.newsgroups.map trimSpace)),
    (ascii "Subject", encodeHeaderValue encode h.subject)] ++
  (if h.messageID ≠ [] then [(ascii "Message-ID", h.messageID)] else []) ++
  (if (h.extra.lookup (ascii "Date")).isNone then
    [(ascii "Date", (h.date.getD now).rfc1123)] else []) ++
  h.sortedKeys.flatMap fun k => (h.extraValues k).map fun v => (k, v)

/-- The line of a field. -/
def headerLine (name value : Bytes) : Bytes := name ++ ascii ": " ++ value

/-- `write`. -/
def writeField (name value : Bytes) : Bytes := foldHeaderLine (headerLine name value) ++ crlf

/-- **`WriteTo`**: what is written. -/
def PostHeaders.writeTo (encode : Bytes → Bytes) (now : UTC) (h : PostHeaders) :
    Except HeaderErr Bytes :=
  match h.validate with
  | some e => .error e
  | none => .ok ((h.fields encode now).flatMap (fun f => writeField f.1 f.2) ++ crlf)

/-! ## Reading -/

/-- The variables of `parseHeaders`. -/
structure Parsed where
  headers : Bytes → List Bytes := fun _ => []
  currentKey : Bytes := []

/-- The last value, with more behind it. -/
def appendLast (more : Bytes) : List Bytes → List Bytes
  | [] => []
  | [v] => [v ++ more]
  | v :: vs => v :: appendLast more vs

/-- The values of the current key. -/
def Parsed.set (st : Parsed) (key : Bytes) (values : List Bytes) : Parsed where
  headers := Function.update st.headers key values
  currentKey := key

/-- One line. -/
def Parsed.line (st : Parsed) (line : Bytes) : Parsed :=
  match line with
  | [] => st
  | b :: _ =>
    if isBlank b then
      if st.currentKey = [] then st
      else
        st.set st.currentKey
          (appendLast (ascii " " ++ trimSpace line) (st.headers st.currentKey))
    else
      match cut (ascii ":") line with
      | none => st
      | some (key, value) =>
        st.set (trimSpace key) (st.headers (trimSpace key) ++ [trimSpace value])

/-- **`parseHeaders`**: the values of a name. -/
def parseHeaders (lines : List Bytes) : Bytes → List Bytes := (lines.foldl Parsed.line {}).headers

end Post

end NntpPool
