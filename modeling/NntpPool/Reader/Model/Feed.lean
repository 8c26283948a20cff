import NntpPool.Reader.Model.Response
/-!
# Reader — `Feed`

The decoding half of `reader.go`. The native decoder writes its output
over the front of the buffer it reads, so `decodeYenc` returns the buffer
as it stands afterwards, and what `feed` hands back as unconsumed is read
from there.
-/

namespace NntpPool

namespace Reader

/-- What a call of the native decoder answers: the bytes it produced, how
many it consumed, its state, why it stopped, and an error. -/
structure DecodeResult where
  dst : Bytes
  nSrc : ℕ
  state : State
  stop : End
  err : Option GoError

/-- `decodeFn`. -/
abbrev DecodeFn := State → Bytes → DecodeResult

/-- An `io.Writer`, by what it has taken so far and what it is offered:
`none` when it takes all of it, otherwise how much it took and the
error. -/
abbrev Writer := Bytes → Bytes → Option (ℕ × GoError)

/-- A writer that takes everything, such as `bytes.Buffer` or
`io.Discard`. -/
def accepting : Writer := fun _ _ => none

/-- `buf[n:]`, which panics unless `0 ≤ n ≤ len(buf)`. -/
def sliceFrom (buf : Bytes) (n : ℤ) : Option Bytes :=
  if 0 ≤ n ∧ n ≤ buf.length then some (buf.drop n.toNat) else none

/-- What `decodeYenc` leaves: the decoder, what `out` has taken, the
count it returns, the buffer after the in-place decode, and the error. -/
structure YencStep where
  r : Decoder
  out : Bytes
  n : ℤ
  buf : Bytes
  err : Option GoError

/-- How many bytes the end of `decodeYenc` gives back, by how the native
decoder stopped: `\r\n=` and nothing more may be the start of `=yend`,
`=y` belongs to a header line, and the terminator to the line loop. -/
def givenBack (state : State) (stop : End) : ℕ :=
  match stop with
  | .none => if state = .crlfeq then 1 else 0
  | .control => 2
  | .article => 3

/-- What it does to the decoder: the state is reset behind `\r\n=`, and a
stop leaves the body. -/
def leaveBody (r : Decoder) (stop : End) : Decoder :=
  match stop with
  | .none => if r.state = .crlfeq then { r with state := .crlf } else r
  | .control => { r with body := false }
  | .article => { r with body := false }

/-- `decodeYenc`. -/
def decodeYenc (dec : DecodeFn) (w : Writer) (r : Decoder) (out buf : Bytes) : YencStep :=
  if buf = [] then ⟨r, out, 0, buf, none⟩ else
  let d := dec r.state buf
  let mem := d.dst ++ buf.drop d.dst.length
  let r := { r with state := d.state }
  if d.err.isSome ∧ r.strictDecodeErrors then
    ⟨r, out, 0, mem, d.err.map (.joined (.sentinel .bodyCorrupt))⟩
  else if d.dst = [] then
    ⟨leaveBody r d.stop, out, (d.nSrc : ℤ) - givenBack d.state d.stop, mem, none⟩
  else
    let r := { r with
      crc := crc32Update r.crc d.dst, bytesDecoded := r.bytesDecoded + d.dst.length }
    match w out d.dst with
    | some (k, e) => ⟨r, out ++ d.dst.take k, 0, mem, some e⟩
    | none =>
      ⟨leaveBody r d.stop, out ++ d.dst, (d.nSrc : ℤ) - givenBack d.state d.stop, mem, none⟩

/-- What `decode` leaves; `rest` is the buffer from `read` on, as it
stands after the call. -/
structure Decoded where
  r : Decoder
  out : Bytes
  read : ℤ
  rest : Bytes
  err : Option GoError

/-- What one turn of the line loop comes to: `decode` returns, panics, or
goes on with the rest of the buffer. The counts are the turn's own. -/
inductive Turn
  | ret (d : Decoded)
  | panic
  | goOn (r : Decoder) (out : Bytes) (read : ℤ) (buf : Bytes)

/-- The turn of the status line: the reply is over unless its code
announces more lines. -/
def statusTurn (r : Decoder) (out line buf : Bytes) : Turn :=
  let read : ℤ := line.length + 2
  let code := atoi (line.take 3)
  let r := { r with message := line, statusCode := code.1 }
  if code.2.isSome then .ret ⟨r, out, read, buf, some (.sentinel .protocolDesync)⟩
  else if isMultiline code.1 then .goOn r out read buf
  else .ret ⟨{ r with eof := true }, out, read, buf, none⟩

/-- The turn of a line that starts or continues a yEnc body. -/
def bodyTurn (dec : DecodeFn) (w : Writer) (r : Decoder) (out line buf : Bytes) : Turn :=
  let read : ℤ := line.length + 2
  let y := decodeYenc dec w r out buf
  match sliceFrom y.buf y.n with
  | none => .panic
  | some buf =>
    -- an error, or the body goes on and needs more data
    if y.err.isSome ∨ y.r.body then .ret ⟨y.r, y.out, read + y.n, buf, y.err⟩
    else .goOn y.r y.out (read + y.n) buf

/-- The turn of a line by the format it is in. -/
def formatTurn (dec : DecodeFn) (w : Writer) (r : Decoder) (out line buf : Bytes) : Turn :=
  let read : ℤ := line.length + 2
  match r.format with
  | .unknown => .goOn { r with lines := r.lines ++ [line] } out read buf
  | .yenc =>
    let r := processYencHeader r line
    if r.body then bodyTurn dec w r out line buf else .goOn r out read buf
  | .uu => .goOn r out read buf

/-- **One turn of the line loop of `decode`**, on a line and the buffer
behind it. -/
def lineTurn (dec : DecodeFn) (w : Writer) (r : Decoder) (out line buf : Bytes) : Turn :=
  let read : ℤ := line.length + 2
  if line = ascii "." then .ret ⟨{ r with eof := true }, out, read, buf, none⟩
  else if r.format = .unknown then
    if r.statusCode = 0 ∧ 3 ≤ line.length then statusTurn r out line buf
    else formatTurn dec w (detectFormat r line) out line buf
  else formatTurn dec w r out line buf

/-- The line loop of `decode`. Every turn consumes a line terminator, so
as many turns as the buffer has bytes are enough. -/
def decodeLines (dec : DecodeFn) (w : Writer) :
    ℕ → Decoder → Bytes → ℤ → Bytes → Option Decoded
  | 0, r, out, read, buf => some ⟨r, out, read, buf, none⟩
  | fuel + 1, r, out, read, buf =>
    match cut crlf buf with
    | none => some ⟨r, out, read, buf, none⟩
    | some (line, buf) =>
      match lineTurn dec w r out line buf with
      | .ret d => some { d with read := read + d.read }
      | .panic => none
      | .goOn r out n buf => decodeLines dec w fuel r out (read + n) buf

/-- The line loop with all the turns it can take. -/
def scan (dec : DecodeFn) (w : Writer) (r : Decoder) (out : Bytes) (read : ℤ) (buf : Bytes) :
    Option Decoded :=
  decodeLines dec w (buf.length + 1) r out read buf

/-- `decode`. In a UU body neither branch of the source runs. -/
def decode (dec : DecodeFn) (w : Writer) (r : Decoder) (out buf : Bytes) : Option Decoded :=
  if r.body then
    if r.format = .yenc then
      let y := decodeYenc dec w r out buf
      if y.err.isSome then some ⟨y.r, y.out, y.n, y.buf, y.err⟩
      else
        match sliceFrom y.buf y.n with
        | none => none
        | some buf =>
          if y.r.body then some ⟨y.r, y.out, y.n, buf, none⟩ else scan dec w y.r y.out y.n buf
    else some ⟨r, out, 0, buf, none⟩
  else scan dec w r out 0 buf

/-- What `Feed` answers, with the decoder, what `out` has taken, and the
unconsumed bytes it hands back. -/
structure Fed where
  r : NNTPResponse
  out : Bytes
  consumed : ℤ
  rest : Bytes
  done : Bool
  err : Option GoError

/-- **`Feed`.** -/
def feed (dec : DecodeFn) (w : Writer) (r : NNTPResponse) (out buf : Bytes) : Option Fed :=
  (decode dec w r.toDecoder out buf).map fun d =>
    ⟨⟨d.r, r.bytesConsumed + d.read⟩, d.out, d.read, d.rest, d.err.isNone && d.r.eof, d.err⟩

/-- A response before its first call; the two flags are the caller's. -/
def fresh (onMeta strict : Bool) : NNTPResponse :=
  { onMeta := onMeta, strictDecodeErrors := strict }

/-! ## The native decoder -/

/-- The bytes the native decoder's markers are made of. -/
def dot : UInt8 := 46
def equals : UInt8 := 61
def letterY : UInt8 := 121

/-- **What is assumed of `rapidyenc.DecodeIncremental`.** It is a
byte-at-a-time automaton over `State`, whose states are entered as their
names say. It stops just after the `y` of a line that starts `=y`, and
just after the terminator `.` line, and the bytes of a marker are not
output. -/
structure Rapidyenc extends Transducer State UInt8 UInt8 End where
  stop_control : ∀ s b, stop s b = some .control ↔ s = .crlfeq ∧ b = letterY
  stop_article : ∀ s b, stop s b = some .article ↔ s = .crlfdtcr ∧ b = 10
  stop_none : ∀ s b, stop s b ≠ some .none
  enter_crlf : ∀ s b, next s b = .crlf → (s = .cr ∨ s = .crlfdtcr) ∧ b = 10
  enter_cr : ∀ s b, next s b = .cr → b = 13
  enter_crlfdt : ∀ s b, next s b = .crlfdt → s = .crlf ∧ b = dot
  enter_crlfdtcr : ∀ s b, next s b = .crlfdtcr → s = .crlfdt ∧ b = 13
  -- raw NNTP input: a line may be dot-stuffed before the `=`
  enter_crlfeq : ∀ s b, next s b = .crlfeq → (s = .crlf ∨ s = .crlfdt) ∧ b = equals
  next_cr : ∀ s, s ≠ .crlfdt → next s 13 = .cr
  next_dot_cr : next .crlfdt 13 = .crlfdtcr
  next_lf : next .cr 10 = .crlf
  next_equals : next .crlf equals = .crlfeq
  emit_stop : ∀ s b, stop s b ≠ none → emit s b = none
  emit_marker : ∀ s b, next s b = .crlfeq ∨ next s b = .crlfdt ∨ next s b = .crlfdtcr →
    emit s b = none

namespace Rapidyenc

/-- `rapidyenc.DecodeIncremental`. -/
def decodeIncremental (N : Rapidyenc) : DecodeFn := fun s src =>
  ⟨(N.run s src).out, (N.run s src).consumed, (N.run s src).state,
    (N.run s src).stopped.getD .none, none⟩

/-- The states of the raw decoder, byte by byte. -/
def scalarNext (s : State) (b : UInt8) : State :=
  if b = 13 then if s = .crlfdt then .crlfdtcr else .cr
  else if b = 10 then if s = .cr ∨ s = .crlfdtcr then .crlf else .none
  else if b = equals then
    if s = .crlf ∨ s = .crlfdt then .crlfeq else if s = .eq ∨ s = .crlfeq then .none else .eq
  else if b = dot ∧ s = .crlf then .crlfdt
  else .none

/-- Its stops. -/
def scalarStop (s : State) (b : UInt8) : Option End :=
  if s = .crlfeq ∧ b = letterY then some .control
  else if s = .crlfdtcr ∧ b = 10 then some .article
  else none

/-- Its output: 42 less than the byte, and 64 less again behind an
escape. -/
def scalarEmit (s : State) (b : UInt8) : Option UInt8 :=
  if (scalarStop s b).isSome then none
  else if s = .eq ∨ s = .crlfeq then some (b - 106)
  else if b = 13 ∨ b = 10 ∨ b = equals ∨ (b = dot ∧ s = .crlf) then none
  else some (b - 42)

theorem scalarNext_crlfdt {s : State} {b : UInt8} (h : scalarNext s b = .crlfdt) :
    s = .crlf ∧ b = dot := by
  unfold scalarNext at h
  split_ifs at h
  simp_all

theorem scalarNext_crlfdtcr {s : State} {b : UInt8} (h : scalarNext s b = .crlfdtcr) :
    s = .crlfdt ∧ b = 13 := by
  unfold scalarNext at h
  split_ifs at h
  simp_all

theorem scalarNext_crlfeq {s : State} {b : UInt8} (h : scalarNext s b = .crlfeq) :
    (s = .crlf ∨ s = .crlfdt) ∧ b = equals := by
  unfold scalarNext at h
  split_ifs at h
  simp_all

/-- **The assumptions are met**: by the yEnc decoder over raw NNTP
input. -/
def scalar : Rapidyenc where
  next := scalarNext
  emit := scalarEmit
  stop := scalarStop
  stop_control s b := by
    unfold scalarStop
    split_ifs with h1 h2 <;> simp_all
  stop_article s b := by
    unfold scalarStop
    split_ifs with h1 h2 <;> simp_all
  stop_none s b := by
    unfold scalarStop
    split_ifs <;> simp
  enter_crlf s b := by
    unfold scalarNext
    split_ifs <;> simp_all
  enter_cr s b := by
    unfold scalarNext
    split_ifs <;> simp_all
  enter_crlfdt _ _ := scalarNext_crlfdt
  enter_crlfdtcr _ _ := scalarNext_crlfdtcr
  enter_crlfeq _ _ := scalarNext_crlfeq
  next_cr s h := by simp [scalarNext, h]
  next_dot_cr := rfl
  next_lf := rfl
  next_equals := rfl
  emit_stop s b h := by
    have hs : (scalarStop s b).isSome := Option.isSome_iff_ne_none.mpr h
    simp [scalarEmit, hs]
  emit_marker s b h := by
    rcases h with h | h | h
    · obtain ⟨rfl | rfl, rfl⟩ := scalarNext_crlfeq h <;> rfl
    · obtain ⟨rfl, rfl⟩ := scalarNext_crlfdt h
      rfl
    · obtain ⟨rfl, rfl⟩ := scalarNext_crlfdtcr h
      rfl

end Rapidyenc

end Reader

end NntpPool
