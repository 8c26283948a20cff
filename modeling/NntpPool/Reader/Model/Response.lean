import NntpPool.Model.Errors
import NntpPool.Common.Transducer
/-!
# Reader — the response decoder

`reader.go`: an `NNTPResponse` is fed the unread bytes of the connection
and consumes them line by line, or, inside a yEnc body, through the
native decoder, which works in place on the same buffer. `feed` answers
how much it consumed and whether the response is over; a slice
expression out of range, which panics in the source, is `none`.

The native decoder is not part of the repository. It is the parameter
`DecodeFn`; `Rapidyenc` states what is assumed of it.
-/

namespace NntpPool

namespace Reader

/-- `rapidyenc.Format`. -/
inductive Format
  | unknown
  | yenc
  | uu
  deriving DecidableEq, Repr

/-- `rapidyenc.State`: what the native decoder carries from one call to
the next, named after the bytes it has just read. The first is the zero
value, so a fresh decoder stands after a line terminator. -/
inductive State
  | crlf
  | eq
  | cr
  | none
  | crlfdt
  | crlfdtcr
  | crlfeq
  deriving DecidableEq, Repr

/-- `rapidyenc.End`. -/
inductive End
  | none
  | control
  | article
  deriving DecidableEq, Repr

/-- `YEncMeta`. -/
structure YEncMeta where
  fileName : Bytes := []
  fileSize : ℤ := 0
  part : ℤ := 0
  partBegin : ℤ := 0
  partSize : ℤ := 0
  total : ℤ := 0
  deriving DecidableEq, Repr

/-- What goes wrong when a value is read out of a header line. -/
inductive ExtractErr
  | notFound (substr : Bytes)
  | num (e : NumErr)
  | crcNotFound
  | crcLength
  deriving DecidableEq, Repr

/-- `headerErr`, by the field it names. -/
inductive HeaderErr
  | ybeginSize (e : ExtractErr)
  | ybeginName (e : ExtractErr)
  | ybeginPart (e : ExtractErr)
  | ybeginTotal (e : ExtractErr)
  | ypartBegin
  | ypartEnd
  | yendPcrc32 (e : ExtractErr)
  | yendCrc32 (e : ExtractErr)
  | yendSize (e : ExtractErr)
  deriving DecidableEq, Repr

/-- **The fields of `NNTPResponse` that `decode` works on**: all but the
count `Feed` keeps. The callback `onMeta` is a flag, armed until it is
called, and `metaCalls` records the calls. -/
structure Decoder where
  bytesDecoded : ℕ := 0
  lines : List Bytes := []
  format : Format := .unknown
  yenc : YEncMeta := {}
  endSize : ℤ := 0
  expectedCRC : UInt32 := 0
  message : Bytes := []
  state : State := .crlf
  statusCode : ℤ := 0
  crc : UInt32 := 0
  eof : Bool := false
  body : Bool := false
  hasPart : Bool := false
  hasBegin : Bool := false
  hasEnd : Bool := false
  hasCrc : Bool := false
  hasPartCRC : Bool := false
  hasFileCRC : Bool := false
  hasEmptyline : Bool := false
  partCRC : UInt32 := 0
  fileCRC : UInt32 := 0
  onMeta : Bool := false
  metaCalls : List YEncMeta := []
  headerErr : Option HeaderErr := none
  strictDecodeErrors : Bool := false
  deriving DecidableEq, Repr

/-- **`NNTPResponse`.** -/
structure NNTPResponse extends Decoder where
  bytesConsumed : ℤ := 0
  deriving DecidableEq, Repr

/-- The status codes with a name in the source. -/
def nntpBody : ℤ := 222
def nntpArtiicle : ℤ := 220
def nntpHead : ℤ := 221
def nntpCapabilities : ℤ := 101

/-- `isMultiline`: the codes whose reply goes on to a `.` line. -/
def isMultiline (code : ℤ) : Bool :=
  code == nntpBody || code == nntpArtiicle || code == nntpHead || code == nntpCapabilities

/-! ## Format detection -/

/-- `allInASCIIRange`. -/
def allInASCIIRange (b : Bytes) (lo hi : UInt8) : Bool := b.all fun c => lo ≤ c && c ≤ hi

/-- `onlySpaceOrBacktick`. -/
def onlySpaceOrBacktick (b : Bytes) : Bool := b.all fun c => c == 32 || c == 96

/-- `decodeUUCharWorkaround`; `(int(c)-32)&63` is taken modulo 64. -/
def decodeUUCharWorkaround (c : UInt8) : ℕ := ((c.toNat + 32) % 64 * 4 + 5) / 3

/-- `decodeUUChar`. -/
def decodeUUChar (c : UInt8) : ℕ := if c = 96 then 0 else (c.toNat + 32) % 64

/-- A length the first character may stand for fits the line: the body in
range, the rest padding. -/
def uuLengthFits (line : Bytes) (length : ℕ) : Bool :=
  decide (length ≤ line.length) && decide (0 < length) &&
    allInASCIIRange ((line.take length).drop 1) 32 96 && onlySpaceOrBacktick (line.drop length)

/-- The last heuristic of `detectFormat`: a line that reads as UU data
once its dot stuffing is removed. -/
def looksUU (line : Bytes) : Bool :=
  let line := if (ascii "..").isPrefixOf line then line.drop 1 else line
  match line with
  | first :: _ :: _ =>
    uuLengthFits line (decodeUUCharWorkaround first) || uuLengthFits line (decodeUUChar first)
  | _ => false

/-- `detectFormat`. -/
def detectFormat (r : Decoder) (line : Bytes) : Decoder :=
  if r.statusCode ≠ nntpBody ∧ r.statusCode ≠ nntpArtiicle then r
  else if line = [] then { r with hasEmptyline := true }
  else if (ascii "=ybegin ").isPrefixOf line then { r with format := .yenc }
  else if (line.length = 60 ∨ line.length = 61) ∧ line.head? = some 77 then
    { r with format := .uu }
  else if (ascii "begin ").isPrefixOf line then
    -- the permission token is looked for behind a space the trim has removed
    match (line.drop 6).dropWhile (· == 32) with
    | 32 :: perms => if perms.all fun c => 48 ≤ c && c ≤ 55 then { r with format := .uu } else r
    | _ => r
  else if r.statusCode ≠ nntpBody ∧ (r.statusCode ≠ nntpArtiicle ∨ ¬ r.hasEmptyline) then r
  else if looksUU line then { r with format := .uu, body := true }
  else r

/-! ## yEnc headers -/

/-- The value behind `substr`, up to a byte of `stops`. -/
def extractField (data substr stops : Bytes) : Option Bytes :=
  (index data substr).map fun start => untilAny stops (data.drop (start + substr.length))

/-- `extractString`. -/
def extractString (data substr : Bytes) : Bytes × Option ExtractErr :=
  match extractField data substr [0, 13, 10] with
  | none => ([], some (.notFound substr))
  | some v => (v, none)

/-- `extractInt`: out of range it answers the bound, with the error. -/
def extractInt (data substr : Bytes) : ℤ × Option ExtractErr :=
  match extractField data substr [0, 32, 13, 10] with
  | none => (0, some (.notFound substr))
  | some v => ((parseInt v).1, (parseInt v).2.map .num)

/-- `extractCRC`: exactly eight hexadecimal digits. -/
def extractCRC (data substr : Bytes) : UInt32 × Option ExtractErr :=
  match extractField data substr [0, 32, 13, 10] with
  | none => (0, some .crcNotFound)
  | some v =>
    if v.length ≠ 8 then (0, some .crcLength)
    else ((parseUint 16 32 v).1.toUInt32, (parseUint 16 32 v).2.map .num)

/-- `onMeta`, called at most once. -/
def callMeta (r : Decoder) : Decoder :=
  if r.onMeta then { r with metaCalls := r.metaCalls ++ [r.yenc], onMeta := false } else r

/-- `headerErr` after a field: the last error stands. -/
def noteErr (r : Decoder) (e : Option HeaderErr) : Decoder :=
  match e with
  | none => r
  | some e => { r with headerErr := some e }

/-- The `size=` of a `=ybegin` line. -/
def ybeginSize (r : Decoder) (line : Bytes) : Decoder :=
  let size := extractInt line (ascii " size=")
  noteErr { r with yenc := { r.yenc with fileSize := size.1 } } (size.2.map .ybeginSize)

/-- The `name=` of a `=ybegin` line. -/
def ybeginName (r : Decoder) (line : Bytes) : Decoder :=
  let name := extractString line (ascii " name=")
  noteErr { r with yenc := { r.yenc with fileName := name.1 } } (name.2.map .ybeginName)

/-- The `part=` of a `=ybegin` line. Without one that parses the article
is not multi-part, and the body starts right after the line. -/
def ybeginPart (r : Decoder) (line : Bytes) : Decoder :=
  let part := extractInt line (ascii " part=")
  let r := { r with yenc := { r.yenc with part := part.1 } }
  match part.2 with
  | none => r
  | some e =>
    let r := if contains line (ascii " part=") then noteErr r (some (.ybeginPart e)) else r
    callMeta { r with body := true, yenc := { r.yenc with partSize := r.yenc.fileSize } }

/-- The `total=` of a `=ybegin` line. -/
def ybeginTotal (r : Decoder) (line : Bytes) : Decoder :=
  let total := extractInt line (ascii " total=")
  let r := { r with yenc := { r.yenc with total := total.1 } }
  match total.2 with
  | none => r
  | some e => if contains line (ascii " total=") then noteErr r (some (.ybeginTotal e)) else r

/-- `processYencHeader` on a `=ybegin` line. -/
def processYbegin (r : Decoder) (line : Bytes) : Decoder :=
  let r := { r with hasBegin := true }
  ybeginTotal (ybeginPart (ybeginName (ybeginSize r line) line) line) line

/-- The `begin=` of a `=ypart` line, from 1-based to 0-based. -/
def ypartBegin (r : Decoder) (line : Bytes) : Decoder :=
  let begin_ := extractInt line (ascii " begin=")
  if begin_.2.isSome ∨ begin_.1 ≤ 0 then noteErr r (some .ypartBegin)
  else { r with yenc := { r.yenc with partBegin := begin_.1 - 1 } }

/-- The `end=` of a `=ypart` line. -/
def ypartEnd (r : Decoder) (line : Bytes) : Decoder :=
  let begin_ := extractInt line (ascii " begin=")
  let end_ := extractInt line (ascii " end=")
  if end_.2.isNone ∧ begin_.1 ≤ end_.1 ∧ 0 < begin_.1 then
    { r with yenc := { r.yenc with partSize := end_.1 - r.yenc.partBegin } }
  else noteErr r (some .ypartEnd)

/-- `processYencHeader` on a `=ypart` line. -/
def processYpart (r : Decoder) (line : Bytes) : Decoder :=
  let r := { r with hasPart := true, body := true }
  callMeta (ypartEnd (ypartBegin r line) line)

/-- The `pcrc32=` of a `=yend` line. -/
def yendPcrc32 (r : Decoder) (line : Bytes) : Decoder :=
  if contains line (ascii " pcrc32=") then
    let crc := extractCRC line (ascii " pcrc32=")
    match crc.2 with
    | some e => noteErr r (some (.yendPcrc32 e))
    | none => { r with partCRC := crc.1, hasPartCRC := true }
  else r

/-- The `crc32=` of a `=yend` line. -/
def yendCrc32 (r : Decoder) (line : Bytes) : Decoder :=
  if contains line (ascii " crc32=") then
    let crc := extractCRC line (ascii " crc32=")
    match crc.2 with
    | some e => noteErr r (some (.yendCrc32 e))
    | none => { r with fileCRC := crc.1, hasFileCRC := true }
  else r

/-- The single expected checksum: the part's, else the file's. -/
def chooseCRC (r : Decoder) : Decoder :=
  if r.hasPartCRC then { r with expectedCRC := r.partCRC, hasCrc := true }
  else if r.hasFileCRC then { r with expectedCRC := r.fileCRC, hasCrc := true }
  else r

/-- The `size=` of a `=yend` line. -/
def yendSize (r : Decoder) (line : Bytes) : Decoder :=
  let size := extractInt line (ascii " size=")
  noteErr { r with endSize := size.1 } (size.2.map .yendSize)

/-- `processYencHeader` on a `=yend` line. -/
def processYend (r : Decoder) (line : Bytes) : Decoder :=
  let r := { r with hasEnd := true }
  yendSize (chooseCRC (yendCrc32 (yendPcrc32 r line) line)) line

/-- `processYencHeader`. -/
def processYencHeader (r : Decoder) (line : Bytes) : Decoder :=
  if (ascii "=ybegin ").isPrefixOf line then processYbegin r (line.drop (ascii "=ybegin").length)
  else if (ascii "=ypart ").isPrefixOf line then processYpart r (line.drop (ascii "=ypart").length)
  else if (ascii "=yend ").isPrefixOf line then processYend r (line.drop (ascii "=yend").length)
  else r

/-! ## The checksum -/

/-- One bit of the reflected IEEE polynomial division. -/
def crcShift (c : UInt32) : UInt32 := if c &&& 1 = 1 then (c >>> 1) ^^^ 0xEDB88320 else c >>> 1

/-- An entry of `crc32.IEEETable`. -/
def ieeeTable (b : UInt32) : UInt32 :=
  crcShift (crcShift (crcShift (crcShift (crcShift (crcShift (crcShift (crcShift b)))))))

/-- `crc32.Update` with the IEEE table. -/
def crc32Update (crc : UInt32) (p : Bytes) : UInt32 :=
  ~~~ (p.foldl (fun c b => ieeeTable ((c ^^^ b.toUInt32) &&& 0xFF) ^^^ (c >>> 8)) (~~~ crc))

end Reader

end NntpPool
