import Aevrix.Http.Bytes
import Aevrix.Incremental.BigEndian
import Aevrix.Incremental.Reader

/-!
# WebSocket frames (`websocket_frame.h`, `websocket_frame.cpp`)

The frame parser and the frame encoder. A frame is read by a resumable reader that asks
for its header, its length, its mask key and its payload in the order the source looks at
them, and checks between them what the source checks.
-/

namespace Aevrix.Ws
open Incremental

inductive Opcode where
  | continuation | text | binary | close | ping | pong
  deriving DecidableEq, Repr

/-- The value of the enumerator. -/
def Opcode.code : Opcode → Byte
  | .continuation => 0x0
  | .text => 0x1
  | .binary => 0x2
  | .close => 0x8
  | .ping => 0x9
  | .pong => 0xA

/-- `is_control_opcode`. -/
def isControlOpcode (opcode : Opcode) : Bool := opcode.code &&& 0x08 != 0

/-- The opcode of a value that `is_known_opcode` lets through (`websocket_frame.cpp:43-51`). -/
def knownOpcode (raw : Byte) : Option Opcode := match raw with
  | 0x0 => some .continuation
  | 0x1 => some .text
  | 0x2 => some .binary
  | 0x8 => some .close
  | 0x9 => some .ping
  | 0xA => some .pong
  | _ => none

abbrev MaskKey := Vector Byte 4

/-- The mask key of a frame without one. -/
def noMaskKey : MaskKey := #v[0, 0, 0, 0]

structure Frame where
  fin : Bool := true
  rsv : Byte := 0
  opcode : Opcode := .text
  masked : Bool := false
  maskKey : MaskKey := noMaskKey
  payload : Bytes := []
  deriving DecidableEq

inductive ParseError where
  | none | protocolViolation | payloadTooLarge
  deriving DecidableEq, Repr

/-- The loop over `payload[i] ^ mask_key[i % 4]`. -/
def applyMask (maskKey : MaskKey) (payload : Bytes) : Bytes :=
  payload.mapIdx fun i b => b ^^^ maskKey.get ⟨i % 4, Nat.mod_lt i (by decide)⟩

/-! ### Parsing -/

/-- What the parser gives up with: the kind and the text of the error. -/
abbrev FrameReader (α : Type) := Reader (ParseError × Bytes) Byte α

def violation (message : Bytes) : ParseError × Bytes := (.protocolViolation, message)

/-- The payload length in its 7-bit, 16-bit or 64-bit form (`websocket_frame.cpp:144-167`). -/
def readLength (len7 : ℕ) : FrameReader ℕ :=
  if len7 = 126 then (Reader.take 2).bind fun v => Reader.pure (BigEndian.value v)
  else if len7 = 127 then (Reader.take 8).bind fun v =>
    (Reader.require (BigEndian.value v < 2 ^ 63)
      (violation (ascii "64-bit payload length has MSB set"))).bind fun _ =>
    Reader.pure (BigEndian.value v)
  else Reader.pure len7

/-- The checks of control frames and of the payload limit (`websocket_frame.cpp:171-189`). -/
def checkLength (maxPayloadBytes : ℕ) (fin : Bool) (opcode : Opcode) (payloadLength : ℕ) :
    FrameReader Unit :=
  (Reader.require (isControlOpcode opcode = true → fin = true)
    (violation (ascii "control frames must not be fragmented"))).bind fun _ =>
  (Reader.require (isControlOpcode opcode = true → payloadLength ≤ 125)
    (violation (ascii "control frame payload exceeds 125 bytes"))).bind fun _ =>
  Reader.require (payloadLength ≤ maxPayloadBytes)
    (.payloadTooLarge, ascii "declared payload length " ++ decimalText payloadLength ++
      ascii " exceeds limit " ++ decimalText maxPayloadBytes)

/-- The mask key, if the frame has one. -/
def readMaskKey (masked : Bool) : FrameReader MaskKey :=
  if masked then (Reader.take 4).bind fun v =>
    Reader.pure (Vector.ofFn fun i => v.getD i.val 0)
  else Reader.pure noMaskKey

/-- The rest of a frame behind the two fixed header bytes. -/
def readBody (maxPayloadBytes : ℕ) (fin masked : Bool) (opcode : Opcode) (len7 : ℕ) :
    FrameReader Frame :=
  (readLength len7).bind fun payloadLength =>
  (checkLength maxPayloadBytes fin opcode payloadLength).bind fun _ =>
  (readMaskKey masked).bind fun maskKey =>
  (Reader.take payloadLength).bind fun payload =>
  Reader.pure {
    fin, rsv := 0, opcode, masked, maskKey
    payload := if masked then applyMask maskKey payload else payload }

/-- A frame by its two fixed header bytes (`websocket_frame.cpp:121-142`). -/
def readHeader (maxPayloadBytes : ℕ) (b0 b1 : Byte) : FrameReader Frame :=
  let fin := b0 &&& 0x80 != 0
  let rsv := (b0 &&& 0x70) >>> 4
  let rawOpcode := b0 &&& 0x0F
  let masked := b1 &&& 0x80 != 0
  let len7 := (b1 &&& 0x7F).toNat
  (Reader.require (rsv = 0)
    (violation (ascii "RSV bits set without a negotiated extension"))).bind fun _ =>
  match knownOpcode rawOpcode with
  | none => Reader.fail (violation (ascii "reserved opcode " ++ decimalText rawOpcode.toNat))
  | some opcode => readBody maxPayloadBytes fin masked opcode len7

/-- The body of `FrameParser::next` (`websocket_frame.cpp:108-215`). -/
def readFrame (maxPayloadBytes : ℕ) : FrameReader Frame :=
  (Reader.take 2).bind fun v => readHeader maxPayloadBytes (v.getD 0 0) (v.getD 1 0)

structure FrameParser where
  buffer : Bytes := []
  maxPayloadBytes : ℕ
  error : ParseError := .none
  errorMessage : Bytes := []
  deriving DecidableEq

/-- `ParseStatus`, with the frame that was written to `out`. -/
inductive ParseStatus where
  | needMore
  | frameReady (out : Frame)
  | error
  deriving DecidableEq

namespace FrameParser

def hasError (p : FrameParser) : Bool := p.error != .none

def feed (p : FrameParser) (data : Bytes) : FrameParser :=
  if p.hasError then p else { p with buffer := p.buffer ++ data }

def clear (p : FrameParser) : FrameParser :=
  { p with buffer := [], error := .none, errorMessage := [] }

/-- `FrameParser::next`. -/
def next (p : FrameParser) : ParseStatus × FrameParser :=
  if p.hasError then (.error, p)
  else match (readFrame p.maxPayloadBytes).run p.buffer with
    | .needMore => (.needMore, p)
    | .failed (error, errorMessage) => (.error, { p with error, errorMessage })
    | .done (frame, rest) => (.frameReady frame, { p with buffer := rest })

/-- `next` called until it is not ready, with the frames that came out. Every frame takes
bytes, so more calls than there are bytes are enough. -/
def takeFramesFor : ℕ → FrameParser → List Frame × FrameParser
  | 0, p => ([], p)
  | fuel + 1, p => match p.next with
    | (.frameReady frame, p) =>
      let (frames, p) := takeFramesFor fuel p
      (frame :: frames, p)
    | (_, p) => ([], p)

def takeFrames (p : FrameParser) : List Frame × FrameParser := takeFramesFor (p.buffer.length + 1) p

/-- The frames that come out when `next` is called until it needs more after every feed. -/
def feedAll (p : FrameParser) : List Bytes → List Frame × FrameParser
  | [] => ([], p)
  | d :: ds =>
    let (frames, p) := (p.feed d).takeFrames
    let (more, p) := p.feedAll ds
    (frames ++ more, p)

end FrameParser

/-! ### Encoding -/

/-- `encode_frame` (`websocket_frame.cpp:221-263`). -/
def encodeFrame (opcode : Opcode) (payload : Bytes) (fin mask : Bool) (maskKey : MaskKey) : Bytes :=
  let length := payload.length
  let byte0 := if fin then (opcode.code &&& 0x0F) ||| 0x80 else opcode.code &&& 0x0F
  let byte1 : Byte := if mask then 0x80 else 0x00
  let header :=
    if length < 126 then [byte0, byte1 ||| UInt8.ofNat length]
    else if length ≤ 0xFFFF then byte0 :: (byte1 ||| 126) :: BigEndian.bytes 2 length
    else byte0 :: (byte1 ||| 127) :: BigEndian.bytes 8 length
  if mask then header ++ maskKey.toList ++ applyMask maskKey payload else header ++ payload

end Aevrix.Ws
