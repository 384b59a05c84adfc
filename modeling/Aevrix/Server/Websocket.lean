import Aevrix.Server.Delivery
import Aevrix.Ws.Undrained

/-!
# An upgraded connection

The four handlers that touch an upgraded connection, in any order. Bytes go from the session
to the output buffer and from there to the socket; nothing is lost or changes places on the
way (`output_conserved`).
-/

namespace Aevrix.Server
open Aevrix.Http Aevrix.Ws
open Aevrix.Proxy (Recv)
open Aevrix.Ws.WebSocketConnection (Call runCalls fresh)

/-- Times are counted from the upgrade. -/
instance : WebSocketSession WebSocketConnection where
  start maxMessageBytes := fresh maxMessageBytes 0
  feed := WebSocketConnection.feed
  output c := c.session.output
  clearOutput c := c.takeOutput.2
  readyToClose := WebSocketConnection.readyToClose
  initiateClose := WebSocketConnection.initiateClose
  maybeQueuePing := WebSocketConnection.maybeQueuePing

/-- What happens to an upgraded connection. -/
inductive WebsocketEvent where
  | readable (services : Services) (recv : Recv)
  | writable (send : Send)
  | pingPass (intervalMs now : ℕ)
  | shutdownNotice (code : ℕ) (sends : List Send)

namespace WebsocketEvent

/-- The handler of an event. -/
def handle (e : Endpoint WebSocketConnection) : WebsocketEvent → Handled WebSocketConnection
  | readable services recv => handleReadEvent services e recv
  | writable send => handleWriteEvent e send
  | pingPass intervalMs now => maintainWebsocket e intervalMs now
  | shutdownNotice code sends => initiateWebsocketShutdown e code sends

/-- What the handler asks of the session before it takes the output. -/
def sessionCall (c : Connection WebSocketConnection) : WebsocketEvent → Option Call
  | readable _ (.data (b :: bytes)) => some (.feed (c.inputBuffer ++ b :: bytes))
  | readable _ _ => none
  | writable _ => none
  | pingPass intervalMs now => some (.maybeQueuePing intervalMs now)
  | shutdownNotice code _ => some (.initiateClose code)

end WebsocketEvent

/-- A connection since its upgrade: the bytes that left, and what was asked of the session. -/
structure Websocket where
  endpoint : Endpoint WebSocketConnection
  isOpen : Bool
  sent : Bytes
  calls : List Call

namespace Websocket
open WebsocketEvent

/-- As the read event that upgrades it leaves a connection. -/
def upgraded (h : Handled WebSocketConnection) : Websocket where
  endpoint := h.toEndpoint
  isOpen := h.keepOpen
  sent := []
  calls := []

/-- A connection that a handler reported to be closed sees no more events. -/
def step (w : Websocket) (event : WebsocketEvent) : Websocket :=
  if w.isOpen then
    let h := event.handle w.endpoint
    { endpoint := h.toEndpoint
      isOpen := h.keepOpen
      sent := w.sent ++ h.sent
      calls := w.calls ++ (event.sessionCall w.endpoint.conn).toList }
  else w

def run (w : Websocket) (events : List WebsocketEvent) : Websocket := events.foldl step w

/-- The frames a fresh session queues in these calls, when nobody takes its output. -/
def queuedFrames (maxMessageBytes : ℕ) (calls : List Call) : Bytes :=
  (runCalls (fresh maxMessageBytes 0) calls).1.session.output

end Websocket

/-! ### One handler call -/

/-- A session and what is asked of it. -/
def callSession (c : WebSocketConnection) : Option Call → WebSocketConnection
  | some call => (WebSocketConnection.call (c, []) call).1
  | none => c

/-- The handler leaves the session, but for the output it took. -/
def Takes (session : WebSocketConnection) (h : Handled WebSocketConnection) : Prop :=
  ∃ left, h.conn.websocket = some left ∧ session = left.behind h.frames

section handlers
variable {e : Endpoint WebSocketConnection} {session : WebSocketConnection}

theorem queueFrames_takes (e : Endpoint WebSocketConnection) (session : WebSocketConnection) :
    Takes session (queueFrames e session) := by
  refine ⟨session.takeOutput.2, rfl, ?_⟩
  show session = { session with session := _ }
  simp only [queueFrames, WebSocketSession.output, WebSocketConnection.takeOutput, Session.behind,
    List.append_nil]

theorem readFrames_takes (e : Endpoint WebSocketConnection) (session : WebSocketConnection) :
    Takes (session.feed e.conn.inputBuffer) (readFrames e session) := by
  unfold readFrames
  simp only
  split
  · exact ⟨_, rfl, rfl⟩
  · exact queueFrames_takes _ _

theorem handleReadEvent_websocket (services : Services) (hweb : e.conn.websocket = some session)
    (b : Byte) (bytes : Bytes) : handleReadEvent services e (.data (b :: bytes)) =
      readFrames ⟨{ e.conn with inputBuffer := e.conn.inputBuffer ++ b :: bytes }, e.epollOut⟩
        session := by
  unfold handleReadEvent
  simp only [Connection.readNonblocking, hweb]

theorem outputFlushed_takes (hweb : e.conn.websocket = some session) :
    Takes session (outputFlushed e) := by
  unfold outputFlushed
  rw [hweb]
  simp only
  split
  · split
    · exact ⟨session, hweb, rfl⟩
    · exact ⟨session, hweb, rfl⟩
  · exact queueFrames_takes e session

theorem handleWriteEvent_takes (hweb : e.conn.websocket = some session) (send : Send) :
    Takes session (handleWriteEvent e send) := by
  have hsame := (e.conn.writeNonblocking_websocket send).trans hweb
  unfold handleWriteEvent
  generalize e.conn.writeNonblocking send = write at hsame ⊢
  obtain ⟨result, conn, sent⟩ := write
  simp only at hsame ⊢
  have hstays : Takes session { (⟨conn, e.epollOut⟩ : Endpoint WebSocketConnection).stay with
    sent } := ⟨session, hsame, rfl⟩
  have hflushed : Takes session { outputFlushed (⟨conn, e.epollOut⟩ : Endpoint WebSocketConnection)
    with sent } := outputFlushed_takes (e := ⟨conn, e.epollOut⟩) hsame
  cases result with
  | inProgress => exact hstays
  | error => exact ⟨session, hsame, rfl⟩
  | success =>
    simp only
    split
    · exact hflushed
    · exact hstays
  | closed =>
    simp only
    split
    · exact hflushed
    · exact hstays

theorem maintainWebsocket_takes (hweb : e.conn.websocket = some session) (intervalMs now : ℕ) :
    Takes (session.maybeQueuePing intervalMs now).2 (maintainWebsocket e intervalMs now) := by
  unfold maintainWebsocket
  rw [hweb]
  simp only
  split
  · exact queueFrames_takes e _
  · exact ⟨_, rfl, rfl⟩

theorem initiateWebsocketShutdown_takes (hweb : e.conn.websocket = some session) (code : ℕ)
    (sends : List Send) :
    Takes (session.initiateClose code) (initiateWebsocketShutdown e code sends) := by
  unfold initiateWebsocketShutdown
  rw [hweb]
  obtain ⟨left, hleft, htaken⟩ := queueFrames_takes e (session.initiateClose code)
  exact ⟨left, (State.drainOutput_websocket sends _).trans hleft, htaken⟩

theorem handle_takes (hweb : e.conn.websocket = some session) (event : WebsocketEvent) :
    Takes (callSession session (event.sessionCall e.conn)) (event.handle e) := by
  cases event with
  | readable services recv =>
    cases recv with
    | data bytes =>
      cases bytes with
      | nil => exact ⟨session, hweb, rfl⟩
      | cons b bytes =>
        rw [WebsocketEvent.handle, handleReadEvent_websocket services hweb]
        exact readFrames_takes _ session
    | again => exact ⟨session, hweb, rfl⟩
    | interrupted => exact ⟨session, hweb, rfl⟩
    | failed reason => exact ⟨session, hweb, rfl⟩
  | writable send => exact handleWriteEvent_takes hweb send
  | pingPass intervalMs now => exact maintainWebsocket_takes hweb intervalMs now
  | shutdownNotice code sends => exact initiateWebsocketShutdown_takes hweb code sends

theorem handle_conserves (hweb : e.conn.websocket = some session) (hinside : e.conn.OffsetInside)
    (event : WebsocketEvent) : Conserves e.conn (event.handle e) ∧ (event.handle e).answer = none := by
  cases event with
  | readable services recv =>
    refine ⟨handleReadEvent_conserves services e recv hinside, ?_⟩
    rcases handleReadEvent_cases services e recv with ⟨h, heq, -, -, hanswer, -⟩ | ⟨_, _, -, hnone, -⟩
    · rw [WebsocketEvent.handle, heq, hanswer]
    · rw [hweb] at hnone
      cases hnone
  | writable send =>
    obtain ⟨hu, hq⟩ := State.handleWriteEvent_upgrades e send
    exact ⟨handleWriteEvent_conserves e send hinside, (hu.asked hq).1⟩
  | pingPass intervalMs now =>
    obtain ⟨hu, hq⟩ := State.maintainWebsocket_upgrades e intervalMs now
    exact ⟨maintainWebsocket_conserves e intervalMs now hinside, (hu.asked hq).1⟩
  | shutdownNotice code sends =>
    obtain ⟨hu, hq⟩ := State.initiateWebsocketShutdown_upgrades e code sends
    exact ⟨initiateWebsocketShutdown_conserves e code sends hinside, (hu.asked hq).1⟩

end handlers

/-! ### Runs -/

namespace Websocket

/-- `taken` is what left the session: it follows the response on its way to the socket, and
the session that kept it is the one nobody takes output of. -/
structure Conserved (maxMessageBytes : ℕ) (response : Bytes) (w : Websocket) (taken : Bytes)
    (session : WebSocketConnection) : Prop where
  upgraded : w.endpoint.conn.websocket = some session
  undrained : (runCalls (fresh maxMessageBytes 0) w.calls).1 = session.behind taken
  output : w.sent ++ w.endpoint.conn.unsent = response ++ taken
  inside : w.endpoint.conn.OffsetInside

section Conserved
variable {maxMessageBytes : ℕ} {response taken : Bytes} {w : Websocket} {session : WebSocketConnection}

theorem behind_call (taken : Bytes) (session : WebSocketConnection) {c : Connection WebSocketConnection}
    {event : WebsocketEvent} {call : Call} (hcall : event.sessionCall c = some call) (x : Bytes) :
    (WebSocketConnection.call (session.behind taken, x) call).1 =
      (callSession session (some call)).behind taken := by
  cases call with
  | feed data => exact WebSocketConnection.feed_behind taken session data
  | initiateClose code =>
    exact congrArg (WebSocketConnection.mk _) (Session.behind_initiateClose taken session.session code)
  | maybeQueuePing intervalMs now =>
    have hping := Session.behind_maybeQueuePing taken session.session intervalMs now
    exact congrArg (fun p => WebSocketConnection.mk session.parser p.2) hping
  | takeOutput =>
    cases event with
    | readable services recv =>
      cases recv with
      | data bytes => cases bytes <;> cases hcall
      | again => cases hcall
      | interrupted => cases hcall
      | failed reason => cases hcall
    | writable send => cases hcall
    | pingPass intervalMs now => cases hcall
    | shutdownNotice code sends => cases hcall

theorem Conserved.step (hw : Conserved maxMessageBytes response w taken session)
    (event : WebsocketEvent) : ∃ taken' session',
      Conserved maxMessageBytes response (w.step event) taken' session' := by
  unfold Websocket.step
  split
  · obtain ⟨left, hleft, hbehind⟩ := handle_takes hw.upgraded event
    obtain ⟨hc, hanswer⟩ := handle_conserves hw.upgraded hw.inside event
    refine ⟨taken ++ (event.handle w.endpoint).frames, left, hleft, ?_, ?_, hc.inside⟩
    · have hundrained := hw.undrained
      unfold runCalls at hundrained ⊢
      rw [List.foldl_append]
      generalize w.calls.foldl WebSocketConnection.call (fresh maxMessageBytes 0, []) = x at hundrained ⊢
      obtain ⟨c, out⟩ := x
      simp only at hundrained
      subst hundrained
      rw [← WebSocketConnection.behind_behind, ← hbehind]
      cases hcall : event.sessionCall w.endpoint.conn with
      | none => rfl
      | some call => exact behind_call taken session hcall out
    · show (w.sent ++ _) ++ _ = _
      rw [List.append_assoc, hc.kept hanswer, ← List.append_assoc, hw.output, List.append_assoc]
  · exact ⟨taken, session, hw⟩

theorem Conserved.run (hw : Conserved maxMessageBytes response w taken session)
    (events : List WebsocketEvent) : ∃ taken' session',
      Conserved maxMessageBytes response (w.run events) taken' session' := by
  induction events generalizing w taken session with
  | nil => exact ⟨taken, session, hw⟩
  | cons event events ih =>
    obtain ⟨_, _, hstep⟩ := hw.step event
    exact ih hstep

end Conserved

theorem conserved_upgraded {services : Services} {e : Endpoint WebSocketConnection}
    {request : HttpRequest} {response : Bytes}
    (h : services.dispatch request = .upgraded response) :
    Conserved services.websocketMaxMessageBytes response
      (upgraded (dispatchRequest services e request)) []
      (fresh services.websocketMaxMessageBytes 0) := by
  rw [dispatchRequest, h]
  exact ⟨rfl, rfl, (List.append_nil response).symm, Nat.zero_le _⟩

/-- **The output of a WebSocket is conserved.** From the upgrade on, in any order of its
events, what was sent, what the output buffer holds behind its offset and what the session
has pending are together the response to the upgrade and all frames the session queued, in
this order; and the offset is inside the buffer. -/
theorem output_conserved (services : Services) (e : Endpoint WebSocketConnection)
    (request : HttpRequest) (response : Bytes)
    (h : services.dispatch request = .upgraded response) (events : List WebsocketEvent) :
    let w := (upgraded (dispatchRequest services e request)).run events
    ∃ session, w.endpoint.conn.websocket = some session ∧
      w.sent ++ w.endpoint.conn.unsent ++ session.session.output =
        response ++ queuedFrames services.websocketMaxMessageBytes w.calls ∧
      w.endpoint.conn.writeOffset ≤ w.endpoint.conn.outputBuffer.length := by
  intro w
  obtain ⟨taken, session, hw⟩ := (conserved_upgraded (e := e) h).run events
  refine ⟨session, hw.upgraded, ?_, hw.inside⟩
  have hqueued : queuedFrames services.websocketMaxMessageBytes w.calls =
      taken ++ session.session.output := by
    rw [queuedFrames, hw.undrained]
    rfl
  rw [hw.output, hqueued, List.append_assoc]

/-- The response of a handshake. -/
def switching : Bytes := ascii "HTTP/1.1 101 Switching Protocols\r\n\r\n"

/-- Every request is an upgrade. -/
def chatServices : Services where
  routes := []
  websocketEnabled := true
  websocketMaxMessageBytes := 65536
  evaluateUpgrade _ := { verdict := .accepted, response := switching }
  proxyHandles _ := false
  proxyStart _ := none
  documentRoot := []
  workerAccepts := true

/-- A connection that was upgraded. -/
def chat : Websocket := upgraded (dispatchRequest chatServices ⟨{ id := 1 }, false⟩ {})

/-- A message comes while the response to the upgrade is being written. -/
theorem output_conserved_message :
    let w := chat.run [.writable (.sent 20), .readable chatServices (.data [0x81, 0x81, 0, 0, 0, 0, 0x68]),
      .writable (.sent 18), .shutdownNotice 1001 [.sent 1, .again]]
    ∃ session, w.endpoint.conn.websocket = some session ∧
      w.sent ++ w.endpoint.conn.unsent ++ session.session.output =
        switching ++ queuedFrames 65536 w.calls ∧
      w.endpoint.conn.writeOffset ≤ w.endpoint.conn.outputBuffer.length :=
  output_conserved chatServices ⟨{ id := 1 }, false⟩ {} switching rfl [.writable (.sent 20),
    .readable chatServices (.data [0x81, 0x81, 0, 0, 0, 0, 0x68]), .writable (.sent 18),
    .shutdownNotice 1001 [.sent 1, .again]]

end Websocket
end Aevrix.Server
