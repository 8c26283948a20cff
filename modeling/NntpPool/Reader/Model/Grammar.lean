import NntpPool.Reader.Model.Feed
/-!
# Reader — well-formed responses

What a server sends: a status line, and behind some codes a block of
lines up to the `.` line. A block is text, or text around one yEnc
frame. The structures carry what makes them well formed, so every value
is a response.
-/

namespace NntpPool

namespace Reader

/-- The lines with their terminators. -/
def joinLines (ls : List Bytes) : Bytes := (ls.map (· ++ crlf)).flatten

/-- The line that ends a block. -/
def terminator : Bytes := ascii "." ++ crlf

/-- **A status line**: three bytes that read as a number, and a text. -/
structure StatusLine where
  text : Bytes
  free : cut crlf text = none
  long : 3 ≤ text.length
  valid : (atoi (text.take 3)).2 = none

/-- Its code. -/
def StatusLine.code (s : StatusLine) : ℤ := (atoi (s.text.take 3)).1

/-- A line of a block: no terminator within, and not the one that ends
the block. -/
def IsText (l : Bytes) : Prop := cut crlf l = none ∧ l ≠ ascii "."

instance (l : Bytes) : Decidable (IsText l) := inferInstanceAs (Decidable (_ ∧ _))

/-- **A response without a yEnc frame**: a status line alone, or followed
by a block of text. -/
structure TextReply where
  status : StatusLine
  lines : List Bytes
  single : isMultiline status.code = false → lines = []
  text : ∀ l ∈ lines, IsText l
  plain : ∀ l ∈ lines, ¬ (ascii "=ybegin ").isPrefixOf l

/-- What the server sends for it. -/
def TextReply.bytes (R : TextReply) : Bytes :=
  R.status.text ++ crlf ++
    if isMultiline R.status.code then joinLines R.lines ++ terminator else []

/-- A data line of a yEnc body: dot-stuffed, and no header. -/
def IsData (l : Bytes) : Prop :=
  cut crlf l = none ∧ (l.head? = some dot → (l.drop 1).head? = some dot) ∧
    ¬ (ascii "=y").isPrefixOf l

instance (l : Bytes) : Decidable (IsData l) := inferInstanceAs (Decidable (_ ∧ _ ∧ _))

/-- The `=ybegin` line has a part number. -/
def multipart (ybegin : Bytes) : Bool :=
  (extractInt (ybegin.drop (ascii "=ybegin").length) (ascii " part=")).2.isNone

/-- **A yEnc frame**: its `=ybegin` line, a `=ypart` line if it is
multi-part, data, and its `=yend` line. -/
structure Frame where
  ybegin : Bytes
  ypart : Option Bytes
  data : List Bytes
  yend : Bytes
  ybegin_free : cut crlf ybegin = none
  ybegin_head : (ascii "=ybegin ").isPrefixOf ybegin
  ypart_iff : ypart.isSome = multipart ybegin
  ypart_free : ∀ l ∈ ypart, cut crlf l = none
  ypart_head : ∀ l ∈ ypart, (ascii "=ypart ").isPrefixOf l
  isData : ∀ l ∈ data, IsData l
  yend_free : cut crlf yend = none
  yend_head : (ascii "=yend ").isPrefixOf yend

/-- The header lines before the data. -/
def Frame.headers (F : Frame) : List Bytes := F.ybegin :: F.ypart.toList

/-- The lines of the frame. -/
def Frame.lines (F : Frame) : List Bytes := F.headers ++ F.data ++ [F.yend]

/-- **A response with one yEnc frame**, and any text around it. -/
structure YencReply where
  status : StatusLine
  multi : isMultiline status.code = true
  before : List Bytes
  frame : Frame
  after : List Bytes
  before_text : ∀ l ∈ before, IsText l
  before_plain : ∀ l ∈ before, ¬ (ascii "=ybegin ").isPrefixOf l
  after_text : ∀ l ∈ after, IsText l
  after_plain : ∀ l ∈ after,
    ¬ (ascii "=ybegin ").isPrefixOf l ∧ ¬ (ascii "=ypart ").isPrefixOf l

/-- What the server sends for it. -/
def YencReply.bytes (R : YencReply) : Bytes :=
  R.status.text ++ crlf ++
    (joinLines (R.before ++ R.frame.lines ++ R.after) ++ terminator)

/-! ## Frames by their lines alone

Whether a `=ybegin` line has a part number the decoder can read does not
matter for where a response ends. -/

/-- A line of a dot-stuffed block. -/
def IsStuffed (l : Bytes) : Prop :=
  cut crlf l = none ∧ (l.head? = some dot → (l.drop 1).head? = some dot)

instance (l : Bytes) : Decidable (IsStuffed l) := inferInstanceAs (Decidable (_ ∧ _))

/-- The line starts or continues the header of a frame. -/
def IsHeader (l : Bytes) : Prop :=
  (ascii "=ybegin ").isPrefixOf l ∨ (ascii "=ypart ").isPrefixOf l

instance (l : Bytes) : Decidable (IsHeader l) := inferInstanceAs (Decidable (_ ∨ _))

/-- **A response with the lines of one frame**, with or without a `=ypart`
line, and dot-stuffed text around it. -/
structure FrameReply where
  status : StatusLine
  multi : isMultiline status.code = true
  before : List Bytes
  ybegin : Bytes
  ypart : Option Bytes
  data : List Bytes
  yend : Bytes
  after : List Bytes
  before_stuffed : ∀ l ∈ before, IsStuffed l
  before_plain : ∀ l ∈ before, ¬ IsHeader l
  ybegin_free : cut crlf ybegin = none
  ybegin_head : (ascii "=ybegin ").isPrefixOf ybegin
  ypart_free : ∀ l ∈ ypart, cut crlf l = none
  ypart_head : ∀ l ∈ ypart, (ascii "=ypart ").isPrefixOf l
  isData : ∀ l ∈ data, IsData l
  yend_free : cut crlf yend = none
  yend_head : (ascii "=yend ").isPrefixOf yend
  after_stuffed : ∀ l ∈ after, IsStuffed l
  after_plain : ∀ l ∈ after, ¬ IsHeader l

/-- The lines behind the header lines. -/
def FrameReply.tail (R : FrameReply) : List Bytes := R.data ++ R.yend :: R.after

/-- The lines of the block. -/
def FrameReply.lines (R : FrameReply) : List Bytes :=
  R.before ++ R.ybegin :: (R.ypart.toList ++ R.tail)

/-- What the server sends for it. -/
def FrameReply.bytes (R : FrameReply) : Bytes :=
  R.status.text ++ crlf ++ (joinLines R.lines ++ terminator)

/-- **A well-formed response.** -/
inductive WireReply
  | text (R : TextReply)
  | frame (R : FrameReply)

/-- What the server sends for it. -/
def WireReply.bytes : WireReply → Bytes
  | .text R => R.bytes
  | .frame R => R.bytes

end Reader

end NntpPool
