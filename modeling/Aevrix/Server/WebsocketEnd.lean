import Aevrix.Server.Websocket

/-!
# The end of an upgraded connection

A session that is ready to close and whose output has left waits for nothing, so its
connection must be closed, or EPOLLOUT armed for the write event that closes it. That fails
exactly where the Close frame of the peer comes last, behind the one of this side
(`never_waiting_iff`).
-/

namespace Aevrix.Ws
open Incremental

/-! ### What a feed leaves of a session -/

namespace Session

theorem wire_ne_nil (opcode : Opcode) (payload : Bytes) : wire opcode payload ≠ [] := by
  simp only [wire, encodeFrame, Bool.false_eq_true, if_false]
  split
  · simp
  split
  · simp
  · simp

/-- A Close that was sent is still in the output. -/
def Announced (s : Session) : Prop := s.closeSent = true → s.output ≠ []

theorem Announced.append {s s' : Session} {opcode : Opcode} {payload : Bytes}
    (h : s'.output = s.output ++ wire opcode payload) : s'.Announced := by
  intro _ hnil
  rw [h] at hnil
  exact wire_ne_nil opcode payload (List.append_eq_nil_iff.mp hnil).2

theorem Announced.failConnection {s : Session} (h : s.Announced) (code : ℕ) (reason : Bytes) :
    (s.failConnection code reason).Announced := by
  cases he : s.protocolError with
  | true =>
    rw [failConnection_of_error he]
    exact h
  | false =>
    rw [failConnection_eq he]
    cases hsent : s.closeSent with
    | true =>
      intro _
      simpa using h hsent
    | false => exact Announced.append (s := s) rfl

theorem Outcome.announced {s s' : Session} {frame : Frame} (hc : s.Coherent) (h : s.Announced)
    (ho : Outcome s frame s') : s'.Announced := by
  cases ho with
  | ignored => exact h
  | failed received code reason =>
    exact Announced.failConnection (s := { s with closeReceived := s.closeReceived || received }) h
      code reason
  | answered hs hop => exact Announced.append (s := s) rfl
  | echoed hs hprogress hop => exact Announced.append (s := s) rfl
  | started hs hop => exact h
  | extended hs hprogress hlen => exact h
  | assembled hs hprogress hlen => exact Announced.append (s := s) rfl
  | closed hs hop => exact Announced.append (s := s) rfl
  | acknowledged hs hreceived => exact fun _ => h (hc.sent hs)

end Session

namespace WebSocketConnection
open Session
variable {c : WebSocketConnection}

theorem feed_coherent (h : c.session.Coherent) (data : Bytes) : (c.feed data).session.Coherent :=
  (feed_preserves (fun _ _ frame _ hc _ => hc.processFrame frame) (fun _ e hc => hc.reportError e)
    rfl h data).1

theorem feed_closing (h : c.session.Coherent) (hsent : c.session.closeSent = true) (data : Bytes) :
    c.session.After (c.feed data).session := by
  have hlate (s : Session) (hc : s.Coherent) (hafter : c.session.After s) : s.state ≠ .established := by
    rw [ne_eq, hc.established, hafter.closeSent, hsent]
    decide
  have hfed := feed_preserves (P := fun s => s.Coherent ∧ c.session.After s)
    (fun s _ frame _ hs _ => ⟨hs.1.processFrame frame,
      hs.2.trans ((processFrame_cases hs.1 frame).after hs.1 (hlate s hs.1 hs.2))⟩)
    (fun s e hs => ⟨hs.1.reportError e, hs.2.trans (After.reportError hs.1 (hlate s hs.1 hs.2) e)⟩)
    rfl ⟨h, After.refl c.session⟩ data
  exact hfed.1.2

theorem feed_announced (h : c.session.Coherent) (hsent : c.session.closeSent = false) (data : Bytes) :
    (c.feed data).session.Announced := by
  have hfresh : c.session.Announced := by
    intro hclosed
    rw [hsent] at hclosed
    cases hclosed
  have hfed := feed_preserves (P := fun s => s.Coherent ∧ s.Announced)
    (fun s _ frame _ hs _ => ⟨hs.1.processFrame frame, (processFrame_cases hs.1 frame).announced hs.1 hs.2⟩)
    (fun s e hs => ⟨hs.1.reportError e, hs.2.failConnection _ _⟩) rfl ⟨h, hfresh⟩ data
  exact hfed.1.2

end WebSocketConnection
end Aevrix.Ws

namespace Aevrix.Server
open Aevrix.Http Aevrix.Ws
open Aevrix.Proxy (Recv)
open Aevrix.Ws.WebSocketConnection (fresh)

/-- The closing handshake is done and all output has left, and only EPOLLIN is armed. -/
def Endpoint.finished (e : Endpoint WebSocketConnection) : Bool :=
  !e.epollOut && e.conn.outputBuffer.isEmpty && match e.conn.websocket with
    | some session => session.readyToClose
    | none => false

/-- The event ends the closing handshake when the output of this side has left before: bytes
with the peer's Close come behind the Close of this side, or a notice flushes what an earlier
one left. -/
def WebsocketEvent.late (e : Endpoint WebSocketConnection) : WebsocketEvent → Bool
  | .readable _ (.data (b :: bytes)) => match e.conn.websocket with
    | some session => !e.epollOut && e.conn.outputBuffer.isEmpty && session.session.closeSent &&
        (session.feed (e.conn.inputBuffer ++ b :: bytes)).session.closeReceived
    | none => false
  | .shutdownNotice _ sends => match e.conn.websocket with
    | some session => !e.epollOut && session.session.closeSent && session.session.closeReceived &&
        (drainOutput e.conn sends).1.outputBuffer.isEmpty
    | none => false
  | _ => false

/-- Between two handlers: the session's output is taken. -/
structure Settled (c : Connection WebSocketConnection) (session : WebSocketConnection) : Prop where
  upgraded : c.websocket = some session
  coherent : session.session.Coherent
  drained : session.session.output = []
  inside : c.OffsetInside

/-! ### One handler call -/

section handlers
variable {e : Endpoint WebSocketConnection} {session : WebSocketConnection}

theorem finished_of_armed (h : e.epollOut = true) : e.finished = false := by
  rw [Endpoint.finished, h]
  rfl

theorem readyToClose_drained (h : session.session.output = []) : session.readyToClose =
    (session.session.closeSent && session.session.closeReceived) := by
  rw [WebSocketConnection.readyToClose, h]
  exact Bool.and_true _

/-- What a handler that was told what to take out leaves. -/
structure Rests (h : Handled WebSocketConnection) (late : Bool) : Prop where
  settled : ∃ session, Settled h.conn session
  finished : (h.keepOpen && h.toEndpoint.finished) = late

theorem queueFrames_rests (hs : session.session.Coherent) (hinside : e.conn.OffsetInside)
    (hweb : e.conn.websocket ≠ none) : Rests (queueFrames e session) false := by
  refine ⟨⟨session.takeOutput.2, rfl, hs.of_eq rfl rfl rfl rfl, rfl,
    (queueFrames_conserves e session hinside hweb).inside⟩, ?_⟩
  exact finished_of_armed (e := (queueFrames e session).toEndpoint) rfl

theorem Settled.stays (hs : Settled e.conn session) {conn : Connection WebSocketConnection}
    (hweb : conn.websocket = e.conn.websocket) (hbuffer : conn.outputBuffer = e.conn.outputBuffer)
    (hoffset : conn.writeOffset = e.conn.writeOffset) : Settled conn session := by
  refine ⟨hweb.trans hs.upgraded, hs.coherent, hs.drained, ?_⟩
  rw [Connection.OffsetInside, hbuffer, hoffset]
  exact hs.inside

theorem readFrames_rests (hs : Settled e.conn session) (input : Bytes) :
    Rests (readFrames ⟨{ e.conn with inputBuffer := input }, e.epollOut⟩ session)
      (!e.epollOut && e.conn.outputBuffer.isEmpty && session.session.closeSent &&
        (session.feed input).session.closeReceived) := by
  have hcoherent := WebSocketConnection.feed_coherent hs.coherent input
  have hsome : (some (session.feed input) : Option WebSocketConnection) ≠ none := Option.some_ne_none _
  cases hsent : session.session.closeSent with
  | true =>
    -- nothing is queued any more, so the connection waits unless EPOLLOUT is armed
    have hafter := WebSocketConnection.feed_closing hs.coherent hsent input
    have hout : (session.feed input).session.output = [] := hafter.output.trans hs.drained
    have hempty : (WebSocketSession.output (WebSocketSession.feed session input)).isEmpty = true := by
      show (session.feed input).session.output.isEmpty = true
      rw [hout]
      rfl
    unfold readFrames
    simp only [hempty, if_true]
    refine ⟨⟨session.feed input, rfl, hcoherent, hout, hs.inside⟩, ?_⟩
    show (true && (!e.epollOut && e.conn.outputBuffer.isEmpty && (session.feed input).readyToClose)) = _
    rw [Bool.true_and, Bool.and_true, readyToClose_drained hout, hafter.closeSent, hsent, Bool.true_and]
  | false =>
    have hannounced := WebSocketConnection.feed_announced hs.coherent hsent input
    rw [Bool.and_false, Bool.false_and]
    unfold readFrames
    simp only
    split
    · next hempty =>
      have hout : (session.feed input).session.output = [] := List.isEmpty_iff.mp hempty
      have hopen : (session.feed input).session.closeSent = false := by
        by_contra hclosed
        exact hannounced (by simpa using hclosed) hout
      refine ⟨⟨session.feed input, rfl, hcoherent, hout, hs.inside⟩, ?_⟩
      show (true && (!e.epollOut && e.conn.outputBuffer.isEmpty && (session.feed input).readyToClose)) = _
      rw [readyToClose_drained hout, hopen, Bool.false_and, Bool.and_false]
      rfl
    · exact queueFrames_rests hcoherent hs.inside hsome

theorem stays_rests (hs : Settled e.conn session) (hfinished : e.finished = false)
    {h : Handled WebSocketConnection} (hconn : h.toEndpoint = e) : Rests h false := by
  rw [← hconn] at hs hfinished
  exact ⟨⟨session, hs⟩, by rw [hfinished, Bool.and_false]⟩

theorem handleReadEvent_rests (services : Services) (hs : Settled e.conn session)
    (hfinished : e.finished = false) (recv : Recv) :
    Rests (handleReadEvent services e recv) ((WebsocketEvent.readable services recv).late e) := by
  cases recv with
  | data bytes =>
    cases bytes with
    | nil => exact stays_rests hs hfinished rfl
    | cons b bytes =>
      rw [handleReadEvent_websocket services hs.upgraded]
      have hlate : (WebsocketEvent.readable services (.data (b :: bytes))).late e =
          (!e.epollOut && e.conn.outputBuffer.isEmpty && session.session.closeSent &&
            (session.feed (e.conn.inputBuffer ++ b :: bytes)).session.closeReceived) := by
        simp only [WebsocketEvent.late, hs.upgraded]
      rw [hlate]
      exact readFrames_rests hs _
  | again => exact stays_rests hs hfinished rfl
  | interrupted => exact stays_rests hs hfinished rfl
  | failed reason => exact stays_rests hs hfinished rfl

theorem outputFlushed_rests (hs : Settled e.conn session) : Rests (outputFlushed e) false := by
  have hempty : (WebSocketSession.output session).isEmpty = true := by
    show session.session.output.isEmpty = true
    rw [hs.drained]
    rfl
  unfold outputFlushed
  simp only [hs.upgraded, hempty, if_true]
  split
  · exact ⟨⟨session, hs.stays hs.upgraded.symm rfl rfl⟩, rfl⟩
  · next hready =>
    refine ⟨⟨session, hs.stays hs.upgraded.symm rfl rfl⟩, ?_⟩
    show (true && (true && e.conn.outputBuffer.isEmpty && session.readyToClose)) = false
    have hwaits : session.readyToClose = false := Bool.not_eq_true _ ▸ hready
    simp only [hwaits, Bool.and_false]

theorem handleWriteEvent_rests (hs : Settled e.conn session) (hfinished : e.finished = false)
    (send : Send) : Rests (handleWriteEvent e send) false := by
  have hweb := (e.conn.writeNonblocking_websocket send).trans hs.upgraded
  have hinside := e.conn.writeNonblocking_inside send hs.inside
  have hnone := e.conn.writeNonblocking_unsuccessful send
  unfold handleWriteEvent
  generalize e.conn.writeNonblocking send = write at hweb hinside hnone ⊢
  obtain ⟨result, conn, sent⟩ := write
  simp only at hweb hinside hnone ⊢
  have hsettled : Settled conn session := ⟨hweb, hs.coherent, hs.drained, hinside⟩
  have hwritten : Rests { (if conn.isOutputComplete then
      outputFlushed (⟨conn, e.epollOut⟩ : Endpoint WebSocketConnection)
      else (⟨conn, e.epollOut⟩ : Endpoint WebSocketConnection).stay) with sent } false := by
    split
    · obtain ⟨hsettled', hfinished'⟩ := outputFlushed_rests (e := ⟨conn, e.epollOut⟩) hsettled
      exact ⟨hsettled', hfinished'⟩
    · next hdone =>
      refine ⟨⟨session, hsettled⟩, ?_⟩
      have hleft : conn.outputBuffer.isEmpty = false := by
        by_contra hempty
        rw [Bool.not_eq_false, List.isEmpty_iff] at hempty
        rw [Connection.OffsetInside, hempty, List.length_nil, Nat.le_zero] at hinside
        exact hdone (by rw [Connection.isOutputComplete, hempty, hinside]; rfl)
      show (true && (!e.epollOut && conn.outputBuffer.isEmpty && _)) = false
      rw [hleft, Bool.and_false, Bool.false_and, Bool.and_false]
  cases result with
  | inProgress =>
    obtain ⟨rfl, rfl⟩ := Prod.mk.inj (hnone (by decide))
    exact stays_rests hs hfinished rfl
  | error => exact ⟨⟨session, hsettled⟩, rfl⟩
  | success => exact hwritten
  | closed => exact hwritten

theorem maintainWebsocket_rests (hs : Settled e.conn session) (hfinished : e.finished = false)
    (intervalMs now : ℕ) : Rests (maintainWebsocket e intervalMs now) false := by
  have hcoherent := hs.coherent.maybeQueuePing intervalMs now
  have hsome : e.conn.websocket ≠ none := by
    rw [hs.upgraded]
    exact Option.some_ne_none _
  unfold maintainWebsocket
  simp only [hs.upgraded]
  split
  · exact queueFrames_rests hcoherent hs.inside hsome
  · next hquiet =>
    have hsame : (session.session.maybeQueuePing intervalMs now).2 = session.session := by
      revert hquiet
      simp only [WebSocketSession.maybeQueuePing, WebSocketConnection.maybeQueuePing]
      unfold Session.maybeQueuePing
      split
      · exact fun _ => rfl
      split
      · exact fun _ => rfl
      · exact fun h => (h rfl).elim
    have hsession : (WebSocketSession.maybeQueuePing session intervalMs now).2 = session :=
      congrArg (WebSocketConnection.mk session.parser) hsame
    rw [hsession, ← hs.upgraded]
    exact stays_rests hs hfinished rfl

/-- What a notice leaves: the session asked to close, with its output in the buffer or gone. -/
theorem shutdown_left (hs : Settled e.conn session) (code : ℕ) (sends : List Send) :
    ∃ conn, (initiateWebsocketShutdown e code sends).toEndpoint = ⟨conn, e.epollOut⟩ ∧
      (initiateWebsocketShutdown e code sends).keepOpen = true ∧
      Settled conn (session.initiateClose code).takeOutput.2 ∧
      conn = (drainOutput { e.conn.appendOutputBuffer (session.initiateClose code).session.output with
        websocket := some (session.initiateClose code).takeOutput.2 } sends).1 := by
  have hcoherent := hs.coherent.initiateClose code
  have hinside := (initiateWebsocketShutdown_conserves e code sends hs.inside).inside
  unfold initiateWebsocketShutdown at hinside ⊢
  simp only [hs.upgraded] at hinside ⊢
  exact ⟨_, rfl, rfl, ⟨State.drainOutput_websocket sends _, hcoherent.of_eq rfl rfl rfl rfl, rfl,
    hinside⟩, rfl⟩

theorem initiateWebsocketShutdown_rests (hs : Settled e.conn session) (code : ℕ) (sends : List Send) :
    Rests (initiateWebsocketShutdown e code sends)
      ((WebsocketEvent.shutdownNotice code sends).late e) := by
  obtain ⟨conn, hendpoint, hopen, hsettled, hconn⟩ := shutdown_left hs code sends
  refine ⟨⟨(session.initiateClose code).takeOutput.2, ?_⟩, ?_⟩
  · rw [hendpoint]
    exact hsettled
  have hready := readyToClose_drained hsettled.drained
  rw [hopen, hendpoint, Bool.true_and]
  simp only [Endpoint.finished, WebsocketEvent.late, hsettled.upgraded, hs.upgraded, hready]
  cases hsent : session.session.closeSent with
  | true =>
    have hsame : session.initiateClose code = session := by
      rw [WebSocketConnection.initiateClose, Session.initiateClose, if_pos (Or.inr hsent)]
    have htaken : session.takeOutput.2 = session := by
      rw [WebSocketConnection.takeOutput, ← hs.drained]
    rw [hsame, htaken, hs.drained, Connection.appendOutputBuffer, List.append_nil, ← hs.upgraded]
      at hconn
    rw [hsame, htaken, hsent, Bool.true_and, Bool.and_true, hconn]
    cases e.epollOut with
    | true => rfl
    | false => exact Bool.and_comm _ _
  | false =>
    have hestablished := hs.coherent.established.mpr hsent
    have hreceived : (session.initiateClose code).takeOutput.2.session.closeReceived = false := by
      show (session.session.initiateClose code).closeReceived = false
      unfold Session.initiateClose
      split
      · exact hs.coherent.not_received hestablished
      · exact hs.coherent.not_received hestablished
    rw [hreceived, Bool.and_false, Bool.and_false, Bool.and_false, Bool.false_and, Bool.false_and]

/-- **One event.** The handler keeps open a connection that has finished exactly where the
event is late. -/
theorem handle_rests (hs : Settled e.conn session) (hfinished : e.finished = false)
    (event : WebsocketEvent) : Rests (event.handle e) (event.late e) := by
  cases event with
  | readable services recv => exact handleReadEvent_rests services hs hfinished recv
  | writable send => exact handleWriteEvent_rests hs hfinished send
  | pingPass intervalMs now => exact maintainWebsocket_rests hs hfinished intervalMs now
  | shutdownNotice code sends => exact initiateWebsocketShutdown_rests hs code sends

end handlers

/-! ### Runs -/

namespace Websocket

/-- The last handler kept the connection, which has finished and waits for input alone. -/
def waiting (w : Websocket) : Bool := w.isOpen && w.endpoint.finished

/-- No event of the run is late. -/
def OnTime (w : Websocket) : List WebsocketEvent → Prop
  | [] => True
  | event :: events => (w.isOpen = true → event.late w.endpoint = false) ∧ OnTime (w.step event) events

/-- What holds of an open connection between two handlers. -/
def Rested (w : Websocket) : Prop := w.isOpen = true → ∃ session, Settled w.endpoint.conn session

theorem step_waiting {w : Websocket} (hrested : w.Rested) (hwaiting : w.waiting = false)
    (event : WebsocketEvent) : (w.step event).Rested ∧
      ((w.step event).waiting = false ↔ (w.isOpen = true → event.late w.endpoint = false)) := by
  unfold Websocket.step
  split
  · next hopen =>
    obtain ⟨session, hs⟩ := hrested hopen
    have hfinished : w.endpoint.finished = false := by
      rw [waiting, hopen, Bool.true_and] at hwaiting
      exact hwaiting
    obtain ⟨hsettled, hlate⟩ := handle_rests hs hfinished event
    refine ⟨fun _ => hsettled, ?_⟩
    show ((event.handle w.endpoint).keepOpen && _) = false ↔ _
    rw [hlate]
    exact ⟨fun h _ => h, fun h => h hopen⟩
  · next hclosed =>
    exact ⟨hrested, iff_of_true hwaiting fun hopen => (hclosed hopen).elim⟩

theorem run_waiting {w : Websocket} (hrested : w.Rested) (hwaiting : w.waiting = false)
    (events : List WebsocketEvent) :
    (∀ n, (w.run (events.take n)).waiting = false) ↔ w.OnTime events := by
  induction events generalizing w with
  | nil =>
    refine iff_of_true (fun n => ?_) trivial
    rw [List.take_nil]
    exact hwaiting
  | cons event events ih =>
    obtain ⟨hrested', hiff⟩ := step_waiting hrested hwaiting event
    constructor
    · intro hall
      have hstep : (w.step event).waiting = false := hall 1
      exact ⟨hiff.mp hstep, (ih hrested' hstep).mp fun n => hall (n + 1)⟩
    · rintro ⟨hlate, hrest⟩ n
      have hstep := hiff.mpr hlate
      cases n with
      | zero => exact hwaiting
      | succ n => exact (ih hrested' hstep).mpr hrest n

/-- **When a finished WebSocket is never left waiting.** In a run from the upgrade on no
handler keeps a connection that is ready to close, with its output flushed and only EPOLLIN
armed, if and only if no event is late. -/
theorem never_waiting_iff (services : Services) (e : Endpoint WebSocketConnection)
    (request : HttpRequest) (response : Bytes)
    (h : services.dispatch request = .upgraded response) (events : List WebsocketEvent) :
    (∀ n, ((upgraded (dispatchRequest services e request)).run (events.take n)).waiting = false) ↔
      (upgraded (dispatchRequest services e request)).OnTime events := by
  refine run_waiting (fun _ => ?_) ?_ events
  · have hconserved := conserved_upgraded (e := e) h
    exact ⟨_, hconserved.upgraded, Session.Coherent.fresh _ _, rfl, hconserved.inside⟩
  · rw [dispatchRequest, h]
    rfl

/-- A frame that is not masked is refused with a Close, which the client answers once it has
left. -/
def answeredClose : List WebsocketEvent :=
  [.writable (.sent 100), .readable chatServices (.data [0x81, 0x01, 0x68]), .writable (.sent 100),
    .readable chatServices (.data [0x88, 0x80, 0, 0, 0, 0])]

theorem never_waiting_iff_answered :
    (∀ n, (chat.run (answeredClose.take n)).waiting = false) ↔ chat.OnTime answeredClose :=
  never_waiting_iff chatServices ⟨{ id := 1 }, false⟩ {} switching rfl answeredClose

/-- Both Close frames have gone over the connection, and it waits for input. -/
theorem left_waiting : (chat.run answeredClose).waiting = true ∧
    ¬∀ (services : Services) (e : Endpoint WebSocketConnection) (request : HttpRequest)
        (response : Bytes) (events : List WebsocketEvent),
      services.dispatch request = .upgraded response →
        ∀ n, ((upgraded (dispatchRequest services e request)).run (events.take n)).waiting =
          false := by
  refine ⟨by decide, fun hall => ?_⟩
  have hnever := hall chatServices ⟨{ id := 1 }, false⟩ {} switching answeredClose rfl 4
  revert hnever
  decide

end Websocket
end Aevrix.Server
