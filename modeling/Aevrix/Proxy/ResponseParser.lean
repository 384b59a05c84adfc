import Aevrix.Http.Header

/-!
# The upstream response parser (`proxy_response_parser.h`, `proxy_response_parser.cpp`)

`Core` is every member but `buffer_` and `offset_`. What is done with a line once
it is in hand is a function on `Core`; the parser around it keeps the receive
buffer with its read offset, as the source does.
-/

namespace Aevrix.Proxy
open Aevrix.Http

namespace ProxyResponseParser

/-- Limits and context (`proxy_response_parser.h:72-76`). -/
structure Config where
  maxHeaderBytes : ℕ := 64 * 1024
  maxBodyBytes : ℕ := 4 * 1024 * 1024
  requestWasHead : Bool := false

/-- The sum the receive buffer is held against, as `size_t` arithmetic computes it. -/
def Config.bufferLimit (c : Config) : ℕ := (c.maxHeaderBytes + c.maxBodyBytes) % 2 ^ 64

inductive State where
  | statusLine | headers | body | chunkSize | chunkData | chunkDataCrlf | trailer | complete | error
  deriving DecidableEq, Repr

inductive Framing where
  | none | contentLength | chunked | untilClose
  deriving DecidableEq, Repr

/-- Longest chunk-size line (`kMaxLineLength`). -/
def maxLineLength : ℕ := 8 * 1024
/-- Consumed bytes that make the buffer worth compacting (`kCompactThreshold`). -/
def compactThreshold : ℕ := 8 * 1024

structure Core where
  headers : HttpHeaders
  body : Bytes
  reasonPhrase : Bytes
  errorMessage : Bytes
  state : State
  framing : Framing
  config : Config
  statusCode : ℕ
  contentLength : ℕ
  chunkRemaining : ℕ
  headerBytes : ℕ
  sawContentLength : Bool
  sawTransferEncoding : Bool
  closeRequested : Bool
  isInterim : Bool

end ProxyResponseParser

/-- The parser; the read offset never leaves the buffer. -/
structure ProxyResponseParser extends ProxyResponseParser.Core where
  buffer : Bytes
  offset : ℕ
  inBuffer : offset ≤ buffer.length

/-! ### Text helpers -/

/-- What may stand next to a token in a list: a comma or optional whitespace. -/
def isSeparator (c : Byte) : Bool := c == 44 || isOws c

/-- `contains_token` (`proxy_response_parser.cpp:46-76`): `token` occurs in `value`,
letter case aside, with separators or the ends of `value` on both sides. -/
def containsToken (value token : Bytes) : Bool :=
  if token = [] ∨ value.length < token.length then false
  else (List.range (value.length + 1 - token.length)).any fun i =>
    ((value.drop i).take token.length).map toLower == token.map toLower &&
    (i == 0 || (value[i - 1]?).all isSeparator) && (value[i + token.length]?).all isSeparator

/-- Value of a hexadecimal digit. -/
def hexDigit (c : Byte) : Option ℕ :=
  if 48 ≤ c ∧ c ≤ 57 then some (c.toNat - 48)
  else if 97 ≤ c ∧ c ≤ 102 then some (c.toNat - 97 + 10)
  else if 65 ≤ c ∧ c ≤ 70 then some (c.toNat - 65 + 10)
  else none

/-- The digit loop of `parse_chunk_size`: the limit is tested after every digit. -/
def chunkSizeOf (max : ℕ) (line : Bytes) : ℕ → Bytes → Except Bytes ℕ
  | value, [] => .ok value
  | value, c :: rest => match hexDigit c with
    | none => .error (ascii "malformed upstream chunk size '" ++ line ++ ascii "'")
    | some digit =>
      let value := value * 16 + digit
      if max < value then .error (ascii "upstream chunk size exceeds the configured limit")
      else chunkSizeOf max line value rest

namespace ProxyResponseParser

namespace Core

/-- The members of a parser constructed or reset with `config`. -/
def fresh (config : Config) : Core where
  headers := []
  body := []
  reasonPhrase := []
  errorMessage := []
  state := .statusLine
  framing := .none
  config := config
  statusCode := 0
  contentLength := 0
  chunkRemaining := 0
  headerBytes := 0
  sawContentLength := false
  sawTransferEncoding := false
  closeRequested := false
  isInterim := false

/-- `fail`, but for the buffer. -/
def fail (c : Core) (message : Bytes) : Core :=
  { c with state := .error, errorMessage := message, body := [] }

/-- `finish_message`, but for the buffer. -/
def finishMessage (c : Core) : Core := { c with state := .complete }

/-- HEAD, 204 and 304 responses have no body. -/
def bodyless (c : Core) : Bool := c.config.requestWasHead || c.statusCode == 204 || c.statusCode == 304

/-- `parse_status_line` once the line is taken (`proxy_response_parser.cpp:215-287`). -/
def statusLineText (c : Core) (line : Bytes) : Core :=
  let c := { c with headerBytes := c.headerBytes + (line.length + 2) }
  if 32 ∉ line then c.fail (ascii "malformed upstream status line")
  else
    let version := line.takeWhile (· != 32)
    if version ≠ ascii "HTTP/1.1" ∧ version ≠ ascii "HTTP/1.0" then
      c.fail (ascii "unsupported upstream protocol version '" ++ version ++ ascii "'")
    else
      let rest := (line.dropWhile (· != 32)).drop 1
      let codeText := rest.takeWhile (· != 32)
      if codeText.length ≠ 3 ∨ !codeText.all isDigit then
        c.fail (ascii "malformed upstream status code '" ++ codeText ++ ascii "'")
      else
        let code := decimalValue codeText
        if code < 100 ∨ 599 < code then c.fail (ascii "upstream status code out of range")
        else
          let c := { c with
            statusCode := code
            reasonPhrase :=
              if 32 ∈ rest then trimOws ((rest.dropWhile (· != 32)).drop 1) else [] }
          if code < 200 then
            if code = 101 then c.fail (ascii "upstream requested a protocol upgrade (101)")
            else { c with
              isInterim := true
              headers := []
              sawContentLength := false
              sawTransferEncoding := false
              closeRequested := false
              state := .headers }
          else { c with isInterim := false, state := .headers }

/-- `decide_framing` (`proxy_response_parser.cpp:403-436`). -/
def decideFraming (c : Core) : Core :=
  if c.sawTransferEncoding && c.sawContentLength then
    c.fail (ascii "upstream sent both Content-Length and Transfer-Encoding")
  else if c.bodyless then finishMessage { c with framing := .none }
  else if c.sawTransferEncoding then { c with framing := .chunked, state := .chunkSize }
  else if c.sawContentLength then
    let c := { c with framing := .contentLength }
    if c.contentLength = 0 then c.finishMessage else { c with state := .body }
  else { c with framing := .untilClose, state := .body }

/-- The empty line of `parse_header_line`. An interim response ends here: its headers
are dropped, its other traces are not. -/
def endOfHeaders (c : Core) : Core :=
  let c := { c with headerBytes := c.headerBytes + 2 }
  if c.isInterim then { c with isInterim := false, headers := [], state := .statusLine }
  else c.decideFraming

/-- The `Content-Length` branch of `parse_header_line`. -/
def contentLengthField (c : Core) (name value : Bytes) : Core :=
  if c.sawContentLength && c.headers.get (ascii "Content-Length") != value then
    c.fail (ascii "conflicting Content-Length headers from upstream")
  else if value = [] ∨ 19 < value.length ∨ !value.all isDigit then
    c.fail (ascii "malformed upstream Content-Length '" ++ value ++ ascii "'")
  else
    let length := decimalValue value
    if !c.bodyless ∧ c.config.maxBodyBytes < length then
      c.fail (ascii "upstream Content-Length exceeds the configured limit")
    else { c with
      contentLength := length, sawContentLength := true, headers := c.headers.set name value }

/-- The `Transfer-Encoding` branch. -/
def transferEncodingField (c : Core) (name value : Bytes) : Core :=
  if !containsToken value (ascii "chunked") then
    c.fail (ascii "unsupported upstream Transfer-Encoding '" ++ value ++ ascii "'")
  else { c with sawTransferEncoding := true, headers := c.headers.set name value }

/-- The `Connection` branch. -/
def connectionField (c : Core) (name value : Bytes) : Core :=
  { c with
    closeRequested := c.closeRequested || containsToken value (ascii "close")
    headers := c.headers.set name value }

/-- A valid header field: the framing-relevant ones are looked at, all are stored. -/
def storeField (c : Core) (name value : Bytes) : Core :=
  let normalized := HttpHeader.normalizeName name
  if normalized = ascii "content-length" then c.contentLengthField name value
  else if normalized = ascii "transfer-encoding" then c.transferEncodingField name value
  else if normalized = ascii "connection" then c.connectionField name value
  else { c with headers := c.headers.set name value }

/-- `parse_header_line` on a line that is not empty (`proxy_response_parser.cpp:319-400`). -/
def headerLineText (c : Core) (line : Bytes) : Core :=
  if line.head?.any isOws then
    c.fail (ascii "obsolete header line folding in upstream response")
  else
    let c := { c with headerBytes := c.headerBytes + (line.length + 2) }
    if c.config.maxHeaderBytes < c.headerBytes then
      c.fail (ascii "upstream response header limit exceeded")
    else if 58 ∉ line ∨ line.head? = some 58 then
      c.fail (ascii "malformed upstream header line")
    else
      let name := line.takeWhile (· != 58)
      let value := trimOws ((line.dropWhile (· != 58)).drop 1)
      if !(HttpHeader.ofField name value).isValid then
        c.fail (ascii "invalid upstream header '" ++ name ++ ascii "'")
      else c.storeField name value

/-- `parse_chunk_size` once the line is taken (`proxy_response_parser.cpp:497-541`). -/
def chunkSizeText (c : Core) (line : Bytes) : Core :=
  let line := trimOws (line.takeWhile (· != 59))
  if line = [] ∨ 8 < line.length then c.fail (ascii "malformed upstream chunk size line")
  else match chunkSizeOf c.config.maxBodyBytes line 0 line with
    | .error message => c.fail message
    | .ok value =>
      if value = 0 then { c with state := .trailer }
      else { c with chunkRemaining := value, state := .chunkData }

/-- `parse_trailer_line` on a line that is not empty: the fields are not kept. -/
def trailerLineText (c : Core) (line : Bytes) : Core :=
  if line.head?.any isOws then
    c.fail (ascii "obsolete header line folding in upstream trailer")
  else if 58 ∉ line then c.fail (ascii "malformed upstream trailer line")
  else
    let c := { c with headerBytes := c.headerBytes + (line.length + 2) }
    if c.config.maxHeaderBytes < c.headerBytes then
      c.fail (ascii "upstream response header limit exceeded")
    else c

/-- `upstream_keep_alive` (`proxy_response_parser.cpp:634-643`). -/
def upstreamKeepAlive (c : Core) : Bool :=
  if c.state ≠ .complete then false
  else if c.closeRequested then false
  else c.framing != .untilClose

end Core

/-! ### The parser -/

/-- A parser with an empty buffer. -/
def ofCore (c : Core) : ProxyResponseParser := ⟨c, [], 0, le_rfl⟩

def fresh (config : Config) : ProxyResponseParser := ofCore (Core.fresh config)

def available (p : ProxyResponseParser) : ℕ := p.buffer.length - p.offset
/-- The bytes not read yet. -/
def data (p : ProxyResponseParser) : Bytes := p.buffer.drop p.offset
def findCrlf (p : ProxyResponseParser) : Option ℕ := Aevrix.findCrlf p.data

def consume (p : ProxyResponseParser) (count : ℕ) : ProxyResponseParser :=
  if h : p.buffer.length ≤ p.offset + count then ofCore p.toCore
  else if compactThreshold ≤ p.offset + count then
    ⟨p.toCore, p.buffer.drop (p.offset + count), 0, Nat.zero_le _⟩
  else ⟨p.toCore, p.buffer, p.offset + count, (Nat.not_le.mp h).le⟩

/-- The same receive buffer with other members. -/
def put (p : ProxyResponseParser) (c : Core) : ProxyResponseParser :=
  ⟨c, p.buffer, p.offset, p.inBuffer⟩

/-- The members after a step; `fail` and `finish_message` empty the buffer. -/
def update (p : ProxyResponseParser) (c : Core) : ProxyResponseParser :=
  if c.state = .error ∨ c.state = .complete then ofCore c else p.put c

def fail (p : ProxyResponseParser) (message : Bytes) : ProxyResponseParser :=
  p.update (p.toCore.fail message)
def finishMessage (p : ProxyResponseParser) : ProxyResponseParser := p.update p.toCore.finishMessage

def isComplete (p : ProxyResponseParser) : Bool := p.state == .complete
def hasError (p : ProxyResponseParser) : Bool := p.state == .error

/-- The line in front of the CRLF at `crlf`, and the parser behind the CRLF. -/
def takeLine (p : ProxyResponseParser) (crlf : ℕ) : Bytes × ProxyResponseParser :=
  (p.data.take crlf, p.consume (crlf + 2))

def parseStatusLine (p : ProxyResponseParser) : Bool × ProxyResponseParser := match p.findCrlf with
  | none =>
    if p.config.maxHeaderBytes < p.available then
      (false, p.fail (ascii "upstream response header limit exceeded"))
    else (false, p)
  | some crlf =>
    let (line, p) := p.takeLine crlf
    let p := p.update (p.toCore.statusLineText line)
    (!p.hasError, p)

def parseHeaderLine (p : ProxyResponseParser) : Bool × ProxyResponseParser := match p.findCrlf with
  | none =>
    if p.config.maxHeaderBytes < p.available then
      (false, p.fail (ascii "upstream response header limit exceeded"))
    else (false, p)
  | some 0 =>
    let p := p.consume 2
    let p := p.update p.toCore.endOfHeaders
    (!p.isComplete, p)
  | some crlf =>
    let (line, p) := p.takeLine crlf
    let p := p.update (p.toCore.headerLineText line)
    (!p.hasError, p)

/-- `body_.append(data(), take); consume(take);` -/
def takeBody (p : ProxyResponseParser) (take : ℕ) : ProxyResponseParser :=
  (p.put { p.toCore with body := p.body ++ p.data.take take }).consume take

def parseBody (p : ProxyResponseParser) : Bool × ProxyResponseParser :=
  if p.framing = .contentLength then
    let remaining := p.contentLength - p.body.length
    if remaining = 0 then (false, p.finishMessage)
    else
      let take := min remaining p.available
      if take = 0 then (false, p)
      else
        let p := p.takeBody take
        if p.body.length = p.contentLength then (false, p.finishMessage) else (false, p)
  else
    let take := p.available
    if take = 0 then (false, p)
    else if p.config.maxBodyBytes < p.body.length + take then
      (false, p.fail (ascii "upstream response body exceeds the configured limit"))
    else (false, p.takeBody take)

def parseChunkSize (p : ProxyResponseParser) : Bool × ProxyResponseParser := match p.findCrlf with
  | none =>
    if maxLineLength < p.available then
      (false, p.fail (ascii "malformed upstream chunk size line"))
    else (false, p)
  | some crlf =>
    let (line, p) := p.takeLine crlf
    let p := p.update (p.toCore.chunkSizeText line)
    (!p.hasError, p)

def parseChunkData (p : ProxyResponseParser) : Bool × ProxyResponseParser :=
  if p.chunkRemaining = 0 then (true, p.put { p.toCore with state := .chunkDataCrlf })
  else
    let take := min p.chunkRemaining p.available
    if take = 0 then (false, p)
    else if p.config.maxBodyBytes < p.body.length + take then
      (false, p.fail (ascii "upstream response body exceeds the configured limit"))
    else
      let p := p.takeBody take
      let c : Core := { p.toCore with chunkRemaining := p.chunkRemaining - take }
      (true, p.put (if c.chunkRemaining = 0 then { c with state := .chunkDataCrlf } else c))

def parseChunkCrlf (p : ProxyResponseParser) : Bool × ProxyResponseParser := match p.data with
  | a :: b :: _ =>
    if a ≠ CR ∨ b ≠ LF then
      (false, p.fail (ascii "malformed chunk terminator in upstream response"))
    else (true, (p.consume 2).put { p.toCore with state := .chunkSize })
  | _ => (false, p)

def parseTrailerLine (p : ProxyResponseParser) : Bool × ProxyResponseParser := match p.findCrlf with
  | none =>
    if p.config.maxHeaderBytes < p.available then
      (false, p.fail (ascii "upstream response header limit exceeded"))
    else (false, p)
  | some 0 => (false, (p.consume 2).finishMessage)
  | some crlf =>
    let (line, p) := p.takeLine crlf
    let p := p.update (p.toCore.trailerLineText line)
    (!p.hasError, p)

/-- One turn of the loop of `process`; `false` leaves the loop. -/
def turn (p : ProxyResponseParser) : Bool × ProxyResponseParser := match p.state with
  | .statusLine => p.parseStatusLine
  | .headers => p.parseHeaderLine
  | .body => p.parseBody
  | .chunkSize => p.parseChunkSize
  | .chunkData => p.parseChunkData
  | .chunkDataCrlf => p.parseChunkCrlf
  | .trailer => p.parseTrailerLine
  | .complete => (false, p)
  | .error => (false, p)

/-- The loop of `process`, cut off after `fuel` turns. -/
def process : ℕ → ProxyResponseParser → ProxyResponseParser
  | 0, p => p
  | fuel + 1, p =>
    if p.isComplete || p.hasError then p
    else match p.turn with
      | (false, p) => p
      | (true, p) => process fuel p

/-- `buffer_.append(data, length)`. -/
def append (p : ProxyResponseParser) (data : Bytes) : ProxyResponseParser :=
  ⟨p.toCore, p.buffer ++ data, p.offset, p.inBuffer.trans (by simp)⟩

/-- `feed` (`proxy_response_parser.cpp:125-142`). A turn that goes on takes a byte or
turns from chunk data to its CRLF, so the turns allowed here are never used up
(`process_enough`). -/
def feed (p : ProxyResponseParser) (data : Bytes) : ProxyResponseParser :=
  if p.hasError then p
  else if p.isComplete ∨ data = [] then p
  else if p.config.bufferLimit < p.available + data.length then
    p.fail (ascii "upstream response buffer limit exceeded")
  else
    let p := p.append data
    process (2 * p.available + 2) p

/-- `finish_on_eof` (`proxy_response_parser.cpp:144-162`). -/
def finishOnEof (p : ProxyResponseParser) : Bool × ProxyResponseParser :=
  if p.isComplete then (true, p)
  else if p.hasError then (false, p)
  else if p.state = .body ∧ p.framing = .untilClose then (true, p.finishMessage)
  else (false, p.fail (ascii "upstream closed the connection before the response was complete"))

/-- The parser after a sequence of feeds. -/
def run (config : Config) (ds : List Bytes) : ProxyResponseParser := ds.foldl feed (fresh config)

end ProxyResponseParser
end Aevrix.Proxy
