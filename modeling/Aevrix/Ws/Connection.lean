import Aevrix.Ws.Frame
import Aevrix.Ws.Utf8

/-!
# A WebSocket session (`websocket_connection.h`, `websocket_connection.cpp`)

`Session` holds the members of `WebSocketConnection` besides its parser: what a frame does
is a function of these alone. The clock is an argument, in nanoseconds.
-/

namespace Aevrix.Ws
open Incremental

inductive WebSocketState where
  | established | closing | closed
  deriving DecidableEq, Repr

structure Session where
  maxMessageBytes : ℕ
  output : Bytes := []
  state : WebSocketState := .established
  closeSent : Bool := false
  closeReceived : Bool := false
  protocolError : Bool := false
  fragmentInProgress : Bool := false
  fragmentOpcode : Opcode := .text
  fragmentPayload : Bytes := []
  lastPing : ℕ
  deriving DecidableEq

def appendCloseCode (payload : Bytes) (code : ℕ) : Bytes := payload ++ BigEndian.bytes 2 code
def readCloseCode (payload : Bytes) : ℕ := BigEndian.value (payload.take 2)

/-- `valid_close_code` (`websocket_connection.cpp:271-278`). -/
def validCloseCode (code : ℕ) : Bool :=
  if code < 1000 ∨ code > 4999 then false
  else code != 1004 && code != 1005 && code != 1006 && code != 1015

namespace Session

/-- `queue_frame`. Server frames are never masked. -/
def queueFrame (s : Session) (opcode : Opcode) (payload : Bytes) (fin : Bool := true) : Session :=
  { s with output := s.output ++ encodeFrame opcode payload fin false noMaskKey }

/-- The Close frame of `fail_connection`, unless one was sent before. -/
def queueFailure (s : Session) (code : ℕ) (reason : Bytes) : Session :=
  if s.closeSent then s
  else { s.queueFrame .close (appendCloseCode [] code ++ reason.take 123) with closeSent := true }

/-- `fail_connection` (`websocket_connection.cpp:204-226`). -/
def failConnection (s : Session) (code : ℕ) (reason : Bytes) : Session :=
  if s.protocolError then s
  else
    let s := { s with protocolError := true }.queueFailure code reason
    { s with
      state := if s.closeSent && s.closeReceived then .closed else .closing
      fragmentInProgress := false, fragmentPayload := [] }

/-- `deliver_message` (`websocket_connection.cpp:162-170`): the echo. -/
def deliverMessage (s : Session) (opcode : Opcode) (payload : Bytes) : Session :=
  if opcode = .text ∧ validUtf8 payload = false then
    s.failConnection 1007 (ascii "text message is not valid UTF-8")
  else s.queueFrame opcode payload

/-- The reply to an accepted Close and the end of the handshake
(`websocket_connection.cpp:192-201`). -/
def acceptClose (s : Session) (payload : Bytes) : Session :=
  let s := if s.state = .established then
      { s.queueFrame .close payload with closeSent := true } else s
  if s.closeSent && s.closeReceived then { s with state := .closed } else s

/-- `handle_close_payload` (`websocket_connection.cpp:176-202`). -/
def handleClosePayload (s : Session) (payload : Bytes) : Session :=
  let s := { s with closeReceived := true }
  if payload.length = 1 then s.failConnection 1002 (ascii "malformed close frame payload")
  else if payload.length ≥ 2 ∧ validCloseCode (readCloseCode payload) = false then
    s.failConnection 1002 (ascii "invalid close status code")
  else s.acceptClose payload

def clearFragment (s : Session) : Session := { s with fragmentPayload := [] }

/-- A data frame that starts a message (`websocket_connection.cpp:127-140`). -/
def startMessage (s : Session) (frame : Frame) : Session :=
  if s.fragmentInProgress then
    s.failConnection 1002 (ascii "new data frame during a fragmented message")
  else if frame.fin then s.deliverMessage frame.opcode frame.payload
  else { s with
    fragmentInProgress := true, fragmentOpcode := frame.opcode, fragmentPayload := frame.payload }

/-- A continuation frame (`websocket_connection.cpp:142-158`). -/
def continueMessage (s : Session) (frame : Frame) : Session :=
  if s.fragmentInProgress = false then
    s.failConnection 1002 (ascii "continuation frame without a started message")
  else if s.fragmentPayload.length + frame.payload.length > s.maxMessageBytes then
    s.failConnection 1009 (ascii "fragmented message exceeds size limit")
  else
    let s := { s with fragmentPayload := s.fragmentPayload ++ frame.payload }
    if frame.fin then
      ({ s with fragmentInProgress := false }.deliverMessage s.fragmentOpcode
        s.fragmentPayload).clearFragment
    else s

/-- `process_frame` (`websocket_connection.cpp:94-160`). -/
def processFrame (s : Session) (frame : Frame) : Session :=
  if frame.masked = false then s.failConnection 1002 (ascii "client frame was not masked")
  else if s.state ≠ .established then
    if frame.opcode = .close ∧ s.closeReceived = false then s.handleClosePayload frame.payload
    else s
  else match frame.opcode with
    | .close => s.handleClosePayload frame.payload
    | .ping => s.queueFrame .pong frame.payload
    | .pong => s
    | .text | .binary => s.startMessage frame
    | .continuation => s.continueMessage frame

/-- `initiate_close` (`websocket_connection.cpp:228-238`). -/
def initiateClose (s : Session) (code : ℕ) : Session :=
  if s.state ≠ .established ∨ s.closeSent = true then s
  else { s.queueFrame .close (appendCloseCode [] code) with closeSent := true, state := .closing }

/-- `maybe_queue_ping` (`websocket_connection.cpp:244-257`). The interval becomes a signed number of
nanoseconds there, which is the same for those that fit into 64 bits (292 years). -/
def maybeQueuePing (s : Session) (pingIntervalMs now : ℕ) : Bool × Session :=
  if pingIntervalMs = 0 ∨ s.state ≠ .established then (false, s)
  else if now < s.lastPing + pingIntervalMs * 1000000 then (false, s)
  else (true, { s with lastPing := now }.queueFrame .ping [])

/-- The close code and the text for what the parser gave up with
(`websocket_connection.cpp:65-70`). -/
def reportError (s : Session) (error : ParseError × Bytes) : Session :=
  s.failConnection (if error.1 = .payloadTooLarge then 1009 else 1002) error.2

end Session

structure WebSocketConnection where
  parser : FrameParser
  session : Session
  deriving DecidableEq

namespace WebSocketConnection

/-- The constructor, at time `now`. -/
def fresh (maxMessageBytes now : ℕ) : WebSocketConnection where
  parser := { maxPayloadBytes := maxMessageBytes }
  session := { maxMessageBytes, lastPing := now }

/-- The loop of `feed` (`websocket_connection.cpp:55-91`). -/
def feedLoop : ℕ → WebSocketConnection → WebSocketConnection
  | 0, c => c
  | fuel + 1, c =>
    if c.parser.hasError then
      -- a violation reported before: the offending bytes are dropped
      if c.session.protocolError then { c with parser := c.parser.clear }
      else { parser := c.parser.clear
             session := c.session.reportError (c.parser.error, c.parser.errorMessage) }
    else match c.parser.next with
      | (.needMore, parser) => { c with parser }
      | (.error, parser) => feedLoop fuel { c with parser }
      | (.frameReady frame, parser) =>
        let session := c.session.processFrame frame
        if session.protocolError then { parser := parser.clear, session }
        else feedLoop fuel { parser, session }

/-- `feed` (`websocket_connection.cpp:46-92`). Every pass takes a frame off the buffer, but
for the two that find an error and report it. -/
def feed (c : WebSocketConnection) (data : Bytes) : WebSocketConnection :=
  if c.session.state = .closed then c
  else
    let parser := c.parser.feed data
    feedLoop (parser.buffer.length + 2) { c with parser }

def takeOutput (c : WebSocketConnection) : Bytes × WebSocketConnection :=
  (c.session.output, { c with session := { c.session with output := [] } })

def readyToClose (c : WebSocketConnection) : Bool :=
  c.session.closeSent && c.session.closeReceived && c.session.output.isEmpty

def initiateClose (c : WebSocketConnection) (code : ℕ) : WebSocketConnection :=
  { c with session := c.session.initiateClose code }

def maybeQueuePing (c : WebSocketConnection) (pingIntervalMs now : ℕ) :
    Bool × WebSocketConnection :=
  let (queued, session) := c.session.maybeQueuePing pingIntervalMs now
  (queued, { c with session })

end WebSocketConnection
end Aevrix.Ws
