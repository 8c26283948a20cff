import NntpPool.Reader.Model.Response
/-!
# Reader — `validateBody`

The framing and integrity facts of a BODY response that is over: the yEnc
headers are there and parse, the sizes fit each other and the decoded
bytes, and the checksums that cover those bytes match.
-/

namespace NntpPool

namespace Reader

/-- `fmt.Errorf("%w: text", ErrBodyCorrupt)`. -/
def bodyCorrupt (text : String) : GoError := .wrapped text (.sentinel .bodyCorrupt)

/-- `fmt.Errorf("%w: %w", ErrBodyCorrupt, ErrCRCMismatch)`. -/
def bodyCRC : GoError := .joined (.sentinel .bodyCorrupt) (.sentinel .crcMismatch)

/-- The text of `headerErr`, up to that of the error it wraps. -/
def HeaderErr.text : HeaderErr → String
  | .ybeginSize _ => "invalid =ybegin size"
  | .ybeginName _ => "invalid =ybegin name"
  | .ybeginPart _ => "invalid =ybegin part"
  | .ybeginTotal _ => "invalid =ybegin total"
  | .ypartBegin => "invalid =ypart begin"
  | .ypartEnd => "invalid =ypart end"
  | .yendPcrc32 _ => "invalid =yend pcrc32"
  | .yendCrc32 _ => "invalid =yend crc32"
  | .yendSize _ => "invalid =yend size"

/-- The part covers the whole file. -/
def completeFile (r : Decoder) : Bool :=
  !r.hasPart || (r.yenc.partBegin == 0 && r.yenc.partSize == r.yenc.fileSize)

/-- The sizes of a part that does not fit its file; `partEnd` is an
`int64`. -/
def incoherentPart (r : Decoder) : Bool :=
  let partEnd := (r.yenc.partBegin + r.yenc.partSize).bmod (2 ^ 64)
  r.yenc.partSize != r.bytesDecoded || decide (r.yenc.fileSize < partEnd) ||
    (r.yenc.part == r.yenc.total && partEnd != r.yenc.fileSize) ||
    (decide (r.yenc.part < r.yenc.total) && decide (r.yenc.fileSize ≤ partEnd))

/-- The checks of the headers. -/
def headerFault (r : Decoder) : Option GoError :=
  if r.format ≠ .yenc ∨ r.hasBegin = false then some (bodyCorrupt "missing valid =ybegin")
  else if let some e := r.headerErr then some (bodyCorrupt e.text)
  else if r.hasEnd = false then some (bodyCorrupt "missing =yend")
  else if r.yenc.fileSize < 0 ∨ r.yenc.partSize < 0 ∨ r.yenc.partBegin < 0 then
    some (bodyCorrupt "negative yEnc metadata")
  else if r.yenc.fileName = [] then some (bodyCorrupt "missing yEnc name")
  else if r.hasPart ∧ r.yenc.part ≤ 0 then
    some (bodyCorrupt "=ypart without valid part number")
  else none

/-- The checks of the sizes. -/
def sizeFault (r : Decoder) : Option GoError :=
  if 0 < r.yenc.part ∧ r.hasPart = false then some (bodyCorrupt "multipart body missing =ypart")
  else if 0 < r.yenc.part ∧ (r.yenc.total ≤ 0 ∨ r.yenc.total < r.yenc.part) then
    some (bodyCorrupt "part exceeds total")
  else if 0 < r.yenc.part ∧ incoherentPart r then
    some (bodyCorrupt "incoherent multipart size")
  else if r.yenc.part ≤ 0 ∧ r.yenc.fileSize ≠ r.bytesDecoded then
    some (bodyCorrupt ("decoded size " ++ toString r.bytesDecoded ++
      " does not match file size " ++ toString r.yenc.fileSize))
  else if r.endSize ≠ r.bytesDecoded then
    some (bodyCorrupt ("trailer size " ++ toString r.endSize ++
      " does not match decoded size " ++ toString r.bytesDecoded))
  else none

/-- The checks of the checksums; `crc32` covers the complete file. -/
def crcFault (r : Decoder) : Option GoError :=
  if r.hasPartCRC ∧ r.crc ≠ r.partCRC then some bodyCRC
  else if r.hasFileCRC ∧ completeFile r ∧ r.crc ≠ r.fileCRC then some bodyCRC
  else none

/-- The checksum that was applicable to the decoded bytes. -/
def applicableCRC (r : Decoder) : Decoder :=
  if r.hasPartCRC then { r with hasCrc := true, expectedCRC := r.partCRC }
  else if r.hasFileCRC ∧ completeFile r then { r with hasCrc := true, expectedCRC := r.fileCRC }
  else { r with hasCrc := false, expectedCRC := 0 }

/-- **`validateBody`.** -/
def validateBody (r : Decoder) : Decoder × Option GoError :=
  if r.statusCode ≠ nntpBody then (r, none)
  else
    match headerFault r <|> sizeFault r <|> crcFault r with
    | some e => (r, some e)
    | none => (applicableCRC r, none)

end Reader

end NntpPool
