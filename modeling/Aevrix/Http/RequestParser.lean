import Aevrix.Http.Request

/-!
# The request parser (`http_request_parser.h`, `http_request_parser.cpp`)

The parser as the server runs it. `Core` is every member but `buffer_`; the
functions that read a line are split where the source has the line in hand, so
that what is done with the line is a function on `Core`. Sizes are natural
numbers: each is the length of a buffer or a configured limit.
-/

namespace Aevrix.Http

/-- Limits of the parser (`http_request_parser.h:98-133`). The largest body is a
`size_t`; the other limits are only compared with. -/
structure ParserConfig where
  maxRequestLineBytes : ℕ := 8192
  maxHeaderFieldBytes : ℕ := 8192
  maxHeaderCount : ℕ := 100
  maxTotalHeaderBytes : ℕ := 65536
  maxBodyBytes : ℕ := 1048576
  maxBodyBytes_lt : maxBodyBytes < 2 ^ 64 := by decide

/-- `ParserConfig::default_config()`. -/
def ParserConfig.default : ParserConfig := {}

inductive ParserState where
  | requestLine | headers | body | complete | error
  deriving DecidableEq, Repr

structure HttpRequestParser.Core where
  state : ParserState
  config : ParserConfig
  request : HttpRequest
  errorMessage : Bytes
  headersReceived : ℕ
  totalHeaderBytes : ℕ
  bodyBytesReceived : ℕ

structure HttpRequestParser extends HttpRequestParser.Core where
  buffer : Bytes

/-! ### Standard library pieces -/

/-- `iss >> word`: skip white space, take what precedes the next white space; it
fails when nothing is left. -/
def extractWord (s : Bytes) : Option (Bytes × Bytes) :=
  let s := s.dropWhile isSpace
  let word := s.takeWhile fun c => !isSpace c
  if word = [] then none else some (word, s.dropWhile fun c => !isSpace c)

/-- `std::stoul` in base 10: leading white space, a sign, then a prefix of digits.
A negative number wraps around; no digit and out of range throw. -/
def stoul (s : Bytes) : Option ℕ :=
  let s := s.dropWhile isSpace
  let (negative, s) := match s with
    | 45 :: t => (true, t)
    | 43 :: t => (false, t)
    | t => (false, t)
  let digits := s.takeWhile isDigit
  let value := decimalValue digits
  if digits = [] then none
  else if 2 ^ 64 ≤ value then none
  else some (if negative then (2 ^ 64 - value) % 2 ^ 64 else value)

namespace HttpRequestParser

namespace Core

/-- State of `HttpRequestParser(config)` and of `reset()`. -/
def fresh (config : ParserConfig) : Core :=
  ⟨.requestLine, config, {}, [], 0, 0, 0⟩

def setError (c : Core) (message : Bytes) : Core :=
  { c with state := .error, errorMessage := message }

/-- `parse_request_line` once the line is taken (`http_request_parser.cpp:42-91`).
The method and the target are stored before the version is looked at. -/
def requestLineText (c : Core) (line : Bytes) : Bool × Core :=
  match extractWord line with
  | none => (false, c.setError (ascii "Missing method in request line"))
  | some (methodStr, rest) => match extractWord rest with
    | none => (false, c.setError (ascii "Missing target in request line"))
    | some (target, rest) => match extractWord rest with
      | none => (false, c.setError (ascii "Missing version in request line"))
      | some (version, _) =>
        let method := stringToHttpMethod methodStr
        if method = .unknown then
          (false, c.setError (ascii "Unknown HTTP method: " ++ methodStr))
        else
          let c := { c with request := { c.request with method := method } }
          if target = [] then (false, c.setError (ascii "Empty target in request line"))
          else
            let c := { c with request := { c.request with target := target } }
            if version = [] then (false, c.setError (ascii "Empty version in request line"))
            else if !(ascii "HTTP/").isPrefixOf version then
              (false, c.setError (ascii "Invalid HTTP version: " ++ version))
            else (true, { c with request := { c.request with version := version } })

/-- `parse_header` once a non-empty line is taken (`http_request_parser.cpp:116-159`). -/
def headerText (c : Core) (line : Bytes) : Bool × Core :=
  if c.config.maxHeaderCount ≤ c.headersReceived then
    (false, c.setError (ascii "Too many headers"))
  else if 58 ∉ line then
    (false, c.setError (ascii "Invalid header format (missing colon): " ++ line))
  else
    let name := trimBy isOws (line.takeWhile (· != 58))
    let value := (line.dropWhile (· != 58)).drop 1
    if !(HttpHeader.ofField name (ascii "test")).isValidName then
      (false, c.setError (ascii "Invalid header name: " ++ name))
    else
      let c := { c with totalHeaderBytes := c.totalHeaderBytes + line.length }
      if c.config.maxTotalHeaderBytes < c.totalHeaderBytes then
        (false, c.setError (ascii "Total header size exceeded"))
      else
        (true, { c with
          request := c.request.setHeader name value
          headersReceived := c.headersReceived + 1 })

/-- The empty line: `feed` decides whether a body follows (`http_request_parser.h:413-417`).
`has_body()` looks at the body stored so far. -/
def endOfHeaders (c : Core) : Core :=
  if c.request.hasBody || c.request.requiresBody then { c with state := .body }
  else { c with state := .complete }

end Core

def fresh (config : ParserConfig) : HttpRequestParser := ⟨Core.fresh config, []⟩

def isComplete (p : HttpRequestParser) : Bool := p.state == .complete
def hasError (p : HttpRequestParser) : Bool := p.state == .error

def setError (p : HttpRequestParser) (message : Bytes) : HttpRequestParser :=
  { p with toCore := p.toCore.setError message }

def consumeBytes (p : HttpRequestParser) (count : ℕ) : Bytes × HttpRequestParser :=
  (p.buffer.take count, { p with buffer := p.buffer.drop count })

def reset (p : HttpRequestParser) : HttpRequestParser := fresh p.config

/-- `take_request`: the request, and the parser reset; nothing before completion. -/
def takeRequest (p : HttpRequestParser) : HttpRequest × HttpRequestParser :=
  if p.isComplete then (p.request, p.reset) else ({}, p)

/-- The line up to the CRLF at `crlfPos` and the parser after line and CRLF. -/
def takeLine (p : HttpRequestParser) (crlfPos : ℕ) : Bytes × HttpRequestParser :=
  let (line, p) := p.consumeBytes crlfPos
  (line, (p.consumeBytes 2).2)

def parseRequestLine (p : HttpRequestParser) : Bool × HttpRequestParser :=
  match findCrlf p.buffer with
  | none =>
    if p.config.maxRequestLineBytes < p.buffer.length then
      (false, p.setError (ascii "Request line too long"))
    else (false, p)
  | some crlfPos =>
    let (line, p) := p.takeLine crlfPos
    let (ok, c) := p.requestLineText line
    (ok, { p with toCore := c })

def parseHeader (p : HttpRequestParser) : Bool × HttpRequestParser :=
  match findCrlf p.buffer with
  | none =>
    if p.config.maxHeaderFieldBytes < p.buffer.length then
      (false, p.setError (ascii "Header field too long"))
    else (false, p)
  | some 0 => (true, p)
  | some crlfPos =>
    let (line, p) := p.takeLine crlfPos
    let (ok, c) := p.headerText line
    (ok, { p with toCore := c })

def parseBody (p : HttpRequestParser) : Bool × HttpRequestParser :=
  let contentLengthStr := p.request.getHeader (ascii "Content-Length")
  if contentLengthStr = [] then (true, p)
  else match stoul contentLengthStr with
    | none => (false, p.setError (ascii "Invalid Content-Length: " ++ contentLengthStr))
    | some contentLength =>
      if p.config.maxBodyBytes < contentLength then (false, p.setError (ascii "Body too large"))
      else if p.buffer.length < contentLength then (false, p)
      else
        let (body, p) := p.consumeBytes contentLength
        (true, { p with request := { p.request with body := body } })

/-- One turn of the loop of `feed`; `false` leaves the loop. -/
def turn (p : HttpRequestParser) : Bool × HttpRequestParser := match p.state with
  | .requestLine => match p.parseRequestLine with
    | (false, p) => (false, p)
    | (true, p) => (true, { p with state := .headers })
  | .headers => match p.parseHeader with
    | (false, p) => (false, p)
    | (true, p) =>
      if findCrlf p.buffer = some 0 then
        let p := (p.consumeBytes 2).2
        (true, { p with toCore := p.toCore.endOfHeaders })
      else (true, p)
  | .body => match p.parseBody with
    | (false, p) => (false, p)
    | (true, p) => (true, { p with state := .complete })
  | .complete => (false, p)
  | .error => (false, p)

/-- The loop of `feed`, cut off after `fuel` turns. -/
def process : ℕ → HttpRequestParser → HttpRequestParser
  | 0, p => p
  | fuel + 1, p => match p.turn with
    | (false, p) => p
    | (true, p) => process fuel p

/-- `feed` (`http_request_parser.h:384-429`). Every turn but the last takes bytes or
ends the body, so the turns allowed here are never used up (`process_enough`). -/
def feed (p : HttpRequestParser) (data : Bytes) : HttpRequestParser :=
  if p.hasError then p
  else
    let p := if p.isComplete then p.reset else p
    let p := { p with buffer := p.buffer ++ data }
    process (p.buffer.length + 2) p

/-- The parser after a sequence of feeds. -/
def run (config : ParserConfig) (ds : List Bytes) : HttpRequestParser :=
  ds.foldl feed (fresh config)

end HttpRequestParser
end Aevrix.Http
