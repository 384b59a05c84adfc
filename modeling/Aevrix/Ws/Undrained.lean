import Aevrix.Ws.Output

/-!
# A session whose output is not taken

No call looks at the output: a session whose output was taken and one whose output is still
there do the same (`feed_behind`). So all frames that a session has queued are the output of
the same calls without `take_output`.
-/

namespace Aevrix.Ws
namespace Session

/-- The session with what was taken out still in front of its output. -/
def behind (taken : Bytes) (s : Session) : Session := { s with output := taken ++ s.output }

section behind
variable (taken : Bytes) (s : Session)

theorem behind_behind (front : Bytes) : behind front (behind taken s) = behind (front ++ taken) s := by
  simp only [behind, List.append_assoc]

theorem behind_queueFrame (opcode : Opcode) (payload : Bytes) (fin : Bool) :
    (behind taken s).queueFrame opcode payload fin = behind taken (s.queueFrame opcode payload fin) := by
  simp only [behind, queueFrame, List.append_assoc]

theorem behind_failConnection (code : ℕ) (reason : Bytes) :
    (behind taken s).failConnection code reason = behind taken (s.failConnection code reason) := by
  cases he : s.protocolError with
  | true => rw [failConnection_of_error he, failConnection_of_error (s := behind taken s) he]
  | false =>
    rw [failConnection_eq he, failConnection_eq (s := behind taken s) he]
    cases hsent : s.closeSent with
    | true => simp only [behind, hsent, if_true]
    | false =>
      simp only [behind, hsent, Bool.false_eq_true, if_false, List.append_assoc]

theorem behind_deliverMessage (opcode : Opcode) (payload : Bytes) :
    (behind taken s).deliverMessage opcode payload = behind taken (s.deliverMessage opcode payload) := by
  unfold deliverMessage
  split
  · exact behind_failConnection taken s _ _
  · exact behind_queueFrame taken s _ _ _

theorem behind_acceptClose (payload : Bytes) :
    (behind taken s).acceptClose payload = behind taken (s.acceptClose payload) := by
  unfold acceptClose
  have hstate : (behind taken s).state = s.state := rfl
  rw [hstate]
  by_cases hs : s.state = .established
  · simp only [if_pos hs, behind_queueFrame]
    cases hr : s.closeReceived with
    | true => simp only [behind, queueFrame, hr, Bool.true_and, if_true]
    | false => simp only [behind, queueFrame, hr, Bool.true_and, Bool.false_eq_true, if_false]
  · simp only [if_neg hs]
    have hflags : ((behind taken s).closeSent && (behind taken s).closeReceived) =
        (s.closeSent && s.closeReceived) := rfl
    rw [hflags]
    split <;> rfl

theorem behind_handleClosePayload (payload : Bytes) :
    (behind taken s).handleClosePayload payload = behind taken (s.handleClosePayload payload) := by
  unfold handleClosePayload
  simp only
  split
  · exact behind_failConnection taken { s with closeReceived := true } _ _
  split
  · exact behind_failConnection taken { s with closeReceived := true } _ _
  · exact behind_acceptClose taken { s with closeReceived := true } _

theorem behind_startMessage (frame : Frame) :
    (behind taken s).startMessage frame = behind taken (s.startMessage frame) := by
  unfold startMessage
  have hprogress : (behind taken s).fragmentInProgress = s.fragmentInProgress := rfl
  rw [hprogress]
  split
  · exact behind_failConnection taken s _ _
  split
  · exact behind_deliverMessage taken s _ _
  · rfl

theorem behind_continueMessage (frame : Frame) :
    (behind taken s).continueMessage frame = behind taken (s.continueMessage frame) := by
  unfold continueMessage
  have hprogress : (behind taken s).fragmentInProgress = s.fragmentInProgress := rfl
  have hlength : (behind taken s).fragmentPayload = s.fragmentPayload := rfl
  have hmax : (behind taken s).maxMessageBytes = s.maxMessageBytes := rfl
  rw [hprogress, hlength, hmax]
  split
  · exact behind_failConnection taken s _ _
  split
  · exact behind_failConnection taken s _ _
  simp only
  split
  · have hdelivered := behind_deliverMessage taken { s with
      fragmentPayload := s.fragmentPayload ++ frame.payload, fragmentInProgress := false }
      s.fragmentOpcode (s.fragmentPayload ++ frame.payload)
    exact congrArg clearFragment hdelivered
  · rfl

theorem behind_processFrame (frame : Frame) :
    (behind taken s).processFrame frame = behind taken (s.processFrame frame) := by
  unfold processFrame
  have hstate : (behind taken s).state = s.state := rfl
  have hreceived : (behind taken s).closeReceived = s.closeReceived := rfl
  rw [hstate, hreceived]
  split
  · exact behind_failConnection taken s _ _
  split
  · split
    · exact behind_handleClosePayload taken s _
    · rfl
  cases frame.opcode with
  | close => exact behind_handleClosePayload taken s _
  | ping => exact behind_queueFrame taken s _ _ _
  | pong => rfl
  | text => exact behind_startMessage taken s _
  | binary => exact behind_startMessage taken s _
  | continuation => exact behind_continueMessage taken s _

theorem behind_initiateClose (code : ℕ) :
    (behind taken s).initiateClose code = behind taken (s.initiateClose code) := by
  unfold initiateClose
  have hstate : (behind taken s).state = s.state := rfl
  have hsent : (behind taken s).closeSent = s.closeSent := rfl
  rw [hstate, hsent]
  split
  · rfl
  · rw [behind_queueFrame]
    rfl

theorem behind_maybeQueuePing (pingIntervalMs now : ℕ) :
    (behind taken s).maybeQueuePing pingIntervalMs now =
      ((s.maybeQueuePing pingIntervalMs now).1, behind taken (s.maybeQueuePing pingIntervalMs now).2) := by
  unfold maybeQueuePing
  have hstate : (behind taken s).state = s.state := rfl
  have hlast : (behind taken s).lastPing = s.lastPing := rfl
  rw [hstate, hlast]
  split
  · rfl
  split
  · rfl
  · exact congrArg (Prod.mk true)
      (behind_queueFrame taken { s with lastPing := now } .ping [] true)

end behind
end Session

namespace WebSocketConnection

/-- The connection with what was taken out still in front of its output. -/
def behind (taken : Bytes) (c : WebSocketConnection) : WebSocketConnection :=
  { c with session := c.session.behind taken }

theorem behind_behind (front taken : Bytes) (c : WebSocketConnection) :
    (c.behind taken).behind front = c.behind (front ++ taken) :=
  congrArg (WebSocketConnection.mk _) (Session.behind_behind taken c.session front)

theorem feedLoop_behind (taken : Bytes) (n : ℕ) (c : WebSocketConnection) :
    feedLoop n (c.behind taken) = (feedLoop n c).behind taken := by
  induction n generalizing c with
  | zero => rfl
  | succ n ih =>
    rw [feedLoop, feedLoop]
    have hparser : (c.behind taken).parser = c.parser := rfl
    have herror : (c.behind taken).session.protocolError = c.session.protocolError := rfl
    rw [hparser, herror]
    split
    · split
      · rfl
      · exact congrArg (WebSocketConnection.mk _)
          (Session.behind_failConnection taken c.session _ _)
    · split
      · rfl
      · rename_i parser _
        exact ih ⟨parser, c.session⟩
      · rename_i frame parser _
        have hframe : (c.behind taken).session.processFrame frame =
            (c.session.processFrame frame).behind taken :=
          Session.behind_processFrame taken c.session frame
        rw [hframe]
        have hfailed : ((c.session.processFrame frame).behind taken).protocolError =
            (c.session.processFrame frame).protocolError := rfl
        dsimp only
        rw [hfailed]
        split
        · rfl
        · exact ih ⟨parser, c.session.processFrame frame⟩

theorem feed_behind (taken : Bytes) (c : WebSocketConnection) (data : Bytes) :
    (c.behind taken).feed data = (c.feed data).behind taken := by
  unfold feed
  have hstate : (c.behind taken).session.state = c.session.state := rfl
  rw [hstate]
  split
  · rfl
  · exact feedLoop_behind taken _ { c with parser := c.parser.feed data }

end WebSocketConnection
end Aevrix.Ws
