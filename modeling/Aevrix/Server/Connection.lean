import Aevrix.Http.RequestParser
import Aevrix.Proxy.Handler

/-!
# One client connection (`connection.h`, `connection.cpp`)

The buffers, the parser and the flags of a connection, with its non-blocking reads and
writes; what `recv` and `send` return is an argument. The session of an upgraded
connection is any type with the operations the server calls on it. Times are left out.
-/

namespace Aevrix.Server
open Aevrix.Http
open Aevrix.Proxy (Recv)

/-- The calls of the server on a WebSocket session (`websocket_connection.h:48-125`).
`take_output` gives `output` and leaves `clearOutput`. -/
class WebSocketSession (σ : Type) where
  start : ℕ → σ
  feed : σ → Bytes → σ
  output : σ → Bytes
  clearOutput : σ → σ
  readyToClose : σ → Bool
  initiateClose : σ → ℕ → σ
  maybeQueuePing : σ → ℕ → ℕ → Bool × σ

inductive ConnectionState where
  | new | tlsHandshake | reading | writing | waiting | closing | closed
  deriving DecidableEq, Repr

inductive WriteState where
  | idle | headers | body | complete | error
  deriving DecidableEq, Repr

inductive IoResult where
  | success | inProgress | closed | error
  deriving DecidableEq, Repr

/-- What `send` may return. -/
inductive Send where
  | sent (count : ℕ)
  | again
  | interrupted
  | failed (reason : Bytes)
  deriving DecidableEq

structure Connection (σ : Type) where
  id : ℕ
  state : ConnectionState := .new
  writeState : WriteState := .idle
  inputBuffer : Bytes := []
  outputBuffer : Bytes := []
  writeOffset : ℕ := 0
  parser : HttpRequestParser := .fresh .default
  keepAlive : Bool := false
  requestId : ℕ := 0
  workerActive : Bool := false
  websocket : Option σ := none

namespace Connection
variable {σ : Type}

def isWebsocket (c : Connection σ) : Bool := c.websocket.isSome
def resetParser (c : Connection σ) : Connection σ := { c with parser := .fresh .default }
def hasPendingOutput (c : Connection σ) : Bool := !c.outputBuffer.isEmpty
def isOutputComplete (c : Connection σ) : Bool := c.outputBuffer.isEmpty && c.writeOffset == 0

/-- `set_output_buffer` (`connection.h:367-370`): the output there was is replaced. -/
def setOutputBuffer (c : Connection σ) (data : Bytes) : Connection σ :=
  { c with outputBuffer := data, writeOffset := 0 }

def appendOutputBuffer (c : Connection σ) (data : Bytes) : Connection σ :=
  { c with outputBuffer := c.outputBuffer ++ data }

def clearOutputBuffer (c : Connection σ) : Connection σ :=
  { c with outputBuffer := [], writeOffset := 0 }

def incrementRequestId (c : Connection σ) : Connection σ := { c with requestId := c.requestId + 1 }

/-- `feed_parser` (`connection.h:316-325`). -/
def feedParser (c : Connection σ) : Bool × Connection σ :=
  if c.inputBuffer.isEmpty then (true, c)
  else
    let parser := c.parser.feed c.inputBuffer
    (!parser.hasError, { c with parser, inputBuffer := [] })

/-- `evaluate_keep_alive` (`connection.cpp:49-93`): the whole value is compared. -/
def evaluateKeepAlive (c : Connection σ) (request : HttpRequest) : Connection σ :=
  let lower := (request.getHeader (ascii "Connection")).map toLower
  { c with keepAlive :=
      if request.version = ascii "HTTP/1.1" then lower != ascii "close"
      else lower == ascii "keep-alive" }

/-- `read_nonblocking` (`connection.cpp:99-209`). -/
def readNonblocking (c : Connection σ) : Recv → IoResult × Connection σ
  | .data [] => (.closed, c)
  | .data bytes => (.success, { c with inputBuffer := c.inputBuffer ++ bytes })
  | .again => (.inProgress, c)
  | .interrupted => (.inProgress, c)
  | .failed _ => (.error, c)

/-- The part of the output that has not left. -/
def unsent (c : Connection σ) : Bytes := c.outputBuffer.drop c.writeOffset

/-- `write_nonblocking` (`connection.cpp:211-340`), with the bytes that left. `send`
takes at most what it is given. -/
def writeNonblocking (c : Connection σ) (send : Send) : IoResult × Connection σ × Bytes :=
  if c.outputBuffer.isEmpty then (.success, c, [])
  else if c.outputBuffer.length - c.writeOffset = 0 then (.success, c.clearOutputBuffer, [])
  else match send with
    | .sent count =>
      let written := c.unsent.take count
      let offset := c.writeOffset + written.length
      if c.outputBuffer.length ≤ offset then (.success, c.clearOutputBuffer, written)
      else (.success, { c with writeOffset := offset }, written)
    | .again => (.inProgress, c, [])
    | .interrupted => (.inProgress, c, [])
    | .failed _ => (.error, c, [])

section lemmas
variable (c : Connection σ) (data : Bytes)

@[simp] theorem setOutputBuffer_unsent : (c.setOutputBuffer data).unsent = data := rfl
@[simp] theorem clearOutputBuffer_unsent : c.clearOutputBuffer.unsent = [] := rfl
@[simp] theorem resetParser_unsent : c.resetParser.unsent = c.unsent := rfl
@[simp] theorem setOutputBuffer_websocket : (c.setOutputBuffer data).websocket = c.websocket := rfl
@[simp] theorem clearOutputBuffer_websocket : c.clearOutputBuffer.websocket = c.websocket := rfl
@[simp] theorem resetParser_websocket : c.resetParser.websocket = c.websocket := rfl
@[simp] theorem evaluateKeepAlive_unsent (request : HttpRequest) :
    (c.evaluateKeepAlive request).unsent = c.unsent := rfl
@[simp] theorem evaluateKeepAlive_websocket (request : HttpRequest) :
    (c.evaluateKeepAlive request).websocket = c.websocket := rfl
@[simp] theorem incrementRequestId_unsent : c.incrementRequestId.unsent = c.unsent := rfl
@[simp] theorem incrementRequestId_websocket :
    c.incrementRequestId.websocket = c.websocket := rfl

/-- The offset stays inside the buffer. -/
def OffsetInside : Prop := c.writeOffset ≤ c.outputBuffer.length

theorem appendOutputBuffer_unsent (h : c.OffsetInside) :
    (c.appendOutputBuffer data).unsent = c.unsent ++ data :=
  List.drop_append_of_le_length h

theorem unsent_eq_nil (h : c.isOutputComplete = true) : c.unsent = [] := by
  simp only [isOutputComplete, Bool.and_eq_true, List.isEmpty_iff] at h
  rw [unsent, h.1, List.drop_nil]

theorem readNonblocking_output (recv : Recv) :
    (c.readNonblocking recv).2.outputBuffer = c.outputBuffer ∧
      (c.readNonblocking recv).2.writeOffset = c.writeOffset ∧
      (c.readNonblocking recv).2.websocket = c.websocket := by
  unfold readNonblocking
  split <;> exact ⟨rfl, rfl, rfl⟩

theorem readNonblocking_success (recv : Recv) (h : (c.readNonblocking recv).1 = .success) :
    ∃ bytes, bytes ≠ [] ∧ recv = .data bytes ∧
      (c.readNonblocking recv).2 = { c with inputBuffer := c.inputBuffer ++ bytes } := by
  cases recv with
  | data bytes =>
    cases bytes with
    | nil => cases h
    | cons b bytes => exact ⟨b :: bytes, List.cons_ne_nil b bytes, rfl, rfl⟩
  | again => cases h
  | interrupted => cases h
  | failed reason => cases h

theorem feedParser_input (h : c.inputBuffer ≠ []) : c.feedParser.2 =
    { c with parser := c.parser.feed c.inputBuffer, inputBuffer := [] } := by
  rw [feedParser, if_neg (by simpa using h)]

theorem feedParser_output : c.feedParser.2.outputBuffer = c.outputBuffer ∧
    c.feedParser.2.writeOffset = c.writeOffset ∧ c.feedParser.2.websocket = c.websocket := by
  unfold feedParser
  split <;> exact ⟨rfl, rfl, rfl⟩

theorem writeNonblocking_unsent (send : Send) :
    (c.writeNonblocking send).2.2 ++ (c.writeNonblocking send).2.1.unsent = c.unsent := by
  unfold writeNonblocking
  split
  · rfl
  split
  · next h => exact (List.drop_eq_nil_of_le (by omega)).symm
  cases send with
  | sent count =>
    simp only
    split
    · next h =>
      have hall : (c.unsent.take count).length = c.unsent.length := by
        simp only [unsent, List.length_take, List.length_drop] at h ⊢
        omega
      rw [clearOutputBuffer_unsent, List.append_nil]
      exact List.take_of_length_le (by
        rw [List.length_take] at hall
        omega)
    · have hlen : (c.unsent.take count).length = min count c.unsent.length := List.length_take
      change c.unsent.take count ++ c.outputBuffer.drop (c.writeOffset + _) = c.unsent
      rw [← List.drop_drop, ← unsent, hlen]
      rcases Nat.le_total count c.unsent.length with hc | hc
      · rw [min_eq_left hc, List.take_append_drop]
      · rw [min_eq_right hc, List.take_of_length_le hc, List.drop_length, List.append_nil]
  | again => rfl
  | interrupted => rfl
  | failed reason => rfl

theorem writeNonblocking_inside (send : Send) (h : c.OffsetInside) :
    (c.writeNonblocking send).2.1.OffsetInside := by
  unfold writeNonblocking
  split
  · exact h
  split
  · exact Nat.zero_le _
  cases send with
  | sent count =>
    simp only
    split
    · exact Nat.zero_le _
    · next hle => exact Nat.le_of_lt (Nat.lt_of_not_le hle)
  | again => exact h
  | interrupted => exact h
  | failed reason => exact h

theorem writeNonblocking_websocket (send : Send) :
    (c.writeNonblocking send).2.1.websocket = c.websocket := by
  unfold writeNonblocking
  split
  · rfl
  split
  · rfl
  cases send with
  | sent count =>
    simp only
    split <;> rfl
  | again => rfl
  | interrupted => rfl
  | failed reason => rfl

theorem writeNonblocking_keepAlive (send : Send) :
    (c.writeNonblocking send).2.1.keepAlive = c.keepAlive := by
  unfold writeNonblocking
  split
  · rfl
  split
  · rfl
  cases send with
  | sent count =>
    simp only
    split <;> rfl
  | again => rfl
  | interrupted => rfl
  | failed reason => rfl

theorem writeNonblocking_rest (send : Send) : (c.writeNonblocking send).1 = .success →
    (c.writeNonblocking send).2.1.unsent = [] →
      (c.writeNonblocking send).2.1.isOutputComplete = true ∨ c.outputBuffer = [] := by
  unfold writeNonblocking
  split
  · next h => exact fun _ _ => Or.inr (by simpa using h)
  split
  · exact fun _ _ => Or.inl rfl
  cases send with
  | sent count =>
    simp only
    split
    · exact fun _ _ => Or.inl rfl
    · next hle =>
      intro _ hnil
      have hlength := congrArg List.length hnil
      simp only [unsent, List.length_drop, List.length_nil] at hlength
      simp only [unsent] at hle
      omega
  | again => exact fun h => by cases h
  | interrupted => exact fun h => by cases h
  | failed reason => exact fun h => by cases h

theorem writeNonblocking_unsuccessful (send : Send) (h : (c.writeNonblocking send).1 ≠ .success) :
    (c.writeNonblocking send).2 = (c, []) := by
  revert h
  unfold writeNonblocking
  split
  · exact fun h => (h rfl).elim
  split
  · exact fun h => (h rfl).elim
  cases send with
  | sent count =>
    simp only
    split <;> exact fun h => (h rfl).elim
  | again => exact fun _ => rfl
  | interrupted => exact fun _ => rfl
  | failed reason => exact fun _ => rfl

end lemmas
end Connection
end Aevrix.Server
