import Aevrix.Ws.Connection

/-!
# What a frame can do to a session

`processFrame_cases` is the one case analysis of `process_frame`: a frame is ignored, ends
the session, is answered, adds to a message, or takes part in the closing handshake. What
holds of a session in every state is read off these cases.
-/

namespace Aevrix.Ws
open Incremental

namespace Session

/-- The bytes of a frame as the server sends it. -/
def wire (opcode : Opcode) (payload : Bytes) : Bytes := encodeFrame opcode payload true false noMaskKey

/-- State and flags agree. -/
structure Coherent (s : Session) : Prop where
  established : s.state = .established ↔ s.closeSent = false
  closed : s.state = .closed → s.closeReceived = true
  received : s.closeReceived = true → s.closeSent = true
  error : s.protocolError = true → s.closeSent = true

section Coherent
variable {s : Session}

theorem Coherent.no_error (h : s.Coherent) (hs : s.state = .established) :
    s.protocolError = false := by
  have hsent := h.established.mp hs
  by_contra he
  rw [h.error (by simpa using he)] at hsent
  cases hsent

theorem Coherent.not_received (h : s.Coherent) (hs : s.state = .established) :
    s.closeReceived = false := by
  have hsent := h.established.mp hs
  by_contra hr
  rw [h.received (by simpa using hr)] at hsent
  cases hsent

theorem Coherent.sent (h : s.Coherent) (hs : s.state ≠ .established) : s.closeSent = true := by
  rw [← Bool.not_eq_false, ← h.established]
  exact hs

end Coherent

/-! ### Failing -/

/-- The Close payload of a failure. -/
def failurePayload (code : ℕ) (reason : Bytes) : Bytes :=
  appendCloseCode [] code ++ reason.take 123

theorem failurePayload_length (code : ℕ) (reason : Bytes) :
    (failurePayload code reason).length ≤ 125 := by
  simp only [failurePayload, appendCloseCode, List.nil_append, List.length_append,
    BigEndian.bytes_length, List.length_take]
  omega

section failConnection
variable {s : Session} {code : ℕ} {reason : Bytes}

theorem failConnection_of_error (h : s.protocolError = true) : s.failConnection code reason = s := by
  rw [failConnection, if_pos h]

theorem failConnection_eq (h : s.protocolError = false) : s.failConnection code reason =
    { s with
      output := if s.closeSent then s.output
        else s.output ++ wire .close (failurePayload code reason)
      state := if s.closeReceived then .closed else .closing
      closeSent := true, protocolError := true
      fragmentInProgress := false, fragmentPayload := [] } := by
  rw [failConnection, if_neg (by rw [h]; exact Bool.false_ne_true)]
  unfold queueFailure
  cases hsent : s.closeSent with
  | false => rfl
  | true =>
    simp only [if_true]
    rfl

theorem failConnection_protocolError : (s.failConnection code reason).protocolError = true := by
  cases h : s.protocolError with
  | true => rw [failConnection_of_error h, h]
  | false => rw [failConnection_eq h]

end failConnection

/-! ### The cases -/

/-- What a frame can leave of a session. -/
inductive Outcome (s : Session) (frame : Frame) : Session → Prop
  | ignored : Outcome s frame s
  | failed (received : Bool) (code : ℕ) (reason : Bytes) :
      Outcome s frame
        ({ s with closeReceived := s.closeReceived || received }.failConnection code reason)
  | answered (hs : s.state = .established) (hop : frame.opcode = .ping) :
      Outcome s frame (s.queueFrame .pong frame.payload)
  | echoed (hs : s.state = .established) (hprogress : s.fragmentInProgress = false)
      (hop : frame.opcode = .text ∨ frame.opcode = .binary) :
      Outcome s frame (s.queueFrame frame.opcode frame.payload)
  | started (hs : s.state = .established) (hop : frame.opcode = .text ∨ frame.opcode = .binary) :
      Outcome s frame { s with
        fragmentInProgress := true, fragmentOpcode := frame.opcode
        fragmentPayload := frame.payload }
  | extended (hs : s.state = .established) (hprogress : s.fragmentInProgress = true)
      (hlen : s.fragmentPayload.length + frame.payload.length ≤ s.maxMessageBytes) :
      Outcome s frame { s with fragmentPayload := s.fragmentPayload ++ frame.payload }
  | assembled (hs : s.state = .established) (hprogress : s.fragmentInProgress = true)
      (hlen : s.fragmentPayload.length + frame.payload.length ≤ s.maxMessageBytes) :
      Outcome s frame { s.queueFrame s.fragmentOpcode (s.fragmentPayload ++ frame.payload) with
        fragmentInProgress := false, fragmentPayload := [] }
  | closed (hs : s.state = .established) (hop : frame.opcode = .close) :
      Outcome s frame { s.queueFrame .close frame.payload with
        closeSent := true, closeReceived := true, state := .closed }
  | acknowledged (hs : s.state ≠ .established) (hreceived : s.closeReceived = false) :
      Outcome s frame { s with closeSent := true, closeReceived := true, state := .closed }

section cases
variable {s : Session} {frame : Frame}

theorem fails (code : ℕ) (reason : Bytes) : Outcome s frame (s.failConnection code reason) := by
  have h : Outcome s frame _ := Outcome.failed false code reason
  rw [Bool.or_false] at h
  exact h

theorem handleClosePayload_cases (hc : s.Coherent) (hreceived : s.closeReceived = false)
    (hop : frame.opcode = .close) : Outcome s frame (s.handleClosePayload frame.payload) := by
  have hfail : ∀ code reason,
      Outcome s frame ({ s with closeReceived := true }.failConnection code reason) := by
    intro code reason
    have h : Outcome s frame _ := Outcome.failed true code reason
    rw [Bool.or_true] at h
    exact h
  unfold handleClosePayload
  split
  · exact hfail _ _
  · split
    · exact hfail _ _
    · by_cases hs : s.state = .established
      · have h : Outcome s frame _ := Outcome.closed hs hop
        simp only [acceptClose, hs, queueFrame, if_true, Bool.and_self]
        exact h
      · have h : Outcome s frame _ := Outcome.acknowledged hs hreceived
        simp only [acceptClose, if_neg hs, hc.sent hs, Bool.and_self, if_true]
        exact h

theorem startMessage_cases (hs : s.state = .established)
    (hop : frame.opcode = .text ∨ frame.opcode = .binary) :
    Outcome s frame (s.startMessage frame) := by
  unfold startMessage
  split
  · exact fails _ _
  · rename_i hprogress
    split
    · unfold deliverMessage
      split
      · exact fails _ _
      · exact Outcome.echoed hs (by simpa using hprogress) hop
    · exact Outcome.started hs hop

theorem continueMessage_cases (hc : s.Coherent) (hs : s.state = .established) :
    Outcome s frame (s.continueMessage frame) := by
  unfold continueMessage
  split
  · exact fails _ _
  · rename_i hprogress
    split
    · exact fails _ _
    · rename_i hlen
      have hpart : s.fragmentInProgress = true := by simpa using hprogress
      have hwithin : s.fragmentPayload.length + frame.payload.length ≤ s.maxMessageBytes := by omega
      split
      · simp only [deliverMessage]
        split
        · -- a failure empties the fragment as well
          have herror := hc.no_error hs
          have h : Outcome s frame _ := fails 1007 (ascii "text message is not valid UTF-8")
          rw [failConnection_eq herror] at h
          rw [failConnection_eq (by exact herror)]
          exact h
        · exact Outcome.assembled hs hpart hwithin
      · exact Outcome.extended hs hpart hwithin

theorem processFrame_cases (hc : s.Coherent) (frame : Frame) :
    Outcome s frame (s.processFrame frame) := by
  unfold processFrame
  split
  · exact fails _ _
  · split
    · split
      · rename_i h
        exact handleClosePayload_cases hc h.2 h.1
      · exact Outcome.ignored
    · rename_i hstate
      have hs : s.state = .established := by simpa using hstate
      cases hop : frame.opcode with
      | close => exact handleClosePayload_cases hc (hc.not_received hs) hop
      | ping => exact Outcome.answered hs hop
      | pong => exact Outcome.ignored
      | text => exact startMessage_cases hs (Or.inl hop)
      | binary => exact startMessage_cases hs (Or.inr hop)
      | continuation => exact continueMessage_cases hc hs

end cases

/-! ### State and flags -/

theorem Coherent.fresh (maxMessageBytes now : ℕ) :
    (WebSocketConnection.fresh maxMessageBytes now).session.Coherent where
  established := by simp [WebSocketConnection.fresh]
  closed := by simp [WebSocketConnection.fresh]
  received := by simp [WebSocketConnection.fresh]
  error := by simp [WebSocketConnection.fresh]

section preserved
variable {s s' : Session}

theorem Coherent.of_eq (h : s.Coherent) (hstate : s'.state = s.state)
    (hsent : s'.closeSent = s.closeSent) (hreceived : s'.closeReceived = s.closeReceived)
    (herror : s'.protocolError = s.protocolError) : s'.Coherent where
  established := by rw [hstate, hsent]; exact h.established
  closed := by rw [hstate, hreceived]; exact h.closed
  received := by rw [hreceived, hsent]; exact h.received
  error := by rw [herror, hsent]; exact h.error

theorem Coherent.of_sent (hsent : s.closeSent = true) (hstate : s.state ≠ .established)
    (hclosed : s.state = .closed → s.closeReceived = true) : s.Coherent where
  established := by simp [hsent, hstate]
  closed := hclosed
  received _ := hsent
  error _ := hsent

theorem Coherent.fail (h : s.Coherent) (received : Bool) (code : ℕ) (reason : Bytes) :
    ({ s with closeReceived := s.closeReceived || received }.failConnection code reason).Coherent := by
  cases he : s.protocolError with
  | false =>
    rw [failConnection_eq rfl]
    refine Coherent.of_sent rfl ?_ ?_
    · dsimp only
      split <;> simp
    · dsimp only
      split
      · rename_i hr
        exact fun _ => hr
      · intro hstate
        cases hstate
  | true =>
    rw [failConnection_of_error rfl]
    have hsent := h.error he
    refine Coherent.of_sent hsent ?_ ?_
    · rw [ne_eq, h.established, hsent]
      simp
    · intro hstate
      simp only [h.closed hstate, Bool.true_or]

theorem Outcome.coherent {frame : Frame} (h : s.Coherent) (ho : Outcome s frame s') :
    s'.Coherent := by
  cases ho with
  | ignored => exact h
  | failed received code reason => exact h.fail received code reason
  | answered | echoed | started | extended | assembled => exact h.of_eq rfl rfl rfl rfl
  | closed | acknowledged => exact Coherent.of_sent rfl (by simp) (fun _ => rfl)

theorem Coherent.processFrame (h : s.Coherent) (frame : Frame) : (s.processFrame frame).Coherent :=
  (processFrame_cases h frame).coherent h

theorem Coherent.reportError (h : s.Coherent) (error : ParseError × Bytes) :
    (s.reportError error).Coherent := by
  have hfail := h.fail false (if error.1 = .payloadTooLarge then 1009 else 1002) error.2
  rw [Bool.or_false] at hfail
  exact hfail

end preserved
end Session

/-! ### Whole feeds -/

namespace WebSocketConnection

section preserves
variable {P : Session → Prop} {maxPayloadBytes : ℕ}

theorem feedLoop_preserves
    (hframe : ∀ s u frame r, P s → (readFrame maxPayloadBytes).run u = .done (frame, r) →
      P (s.processFrame frame))
    (herror : ∀ s e, P s → P (s.reportError e)) (n : ℕ) {c : WebSocketConnection}
    (hmax : c.parser.maxPayloadBytes = maxPayloadBytes) (h : P c.session) :
    P (feedLoop n c).session ∧ (feedLoop n c).parser.maxPayloadBytes = maxPayloadBytes := by
  induction n generalizing c with
  | zero => exact ⟨h, hmax⟩
  | succ n ih =>
    rw [feedLoop]
    split
    · split
      · exact ⟨h, hmax⟩
      · exact ⟨herror _ _ h, hmax⟩
    · rename_i hno
      rw [FrameParser.next, if_neg hno]
      cases hr : (readFrame c.parser.maxPayloadBytes).run c.parser.buffer with
      | needMore => exact ⟨h, hmax⟩
      | failed e => exact ih hmax h
      | done p =>
        obtain ⟨frame, rest⟩ := p
        rw [hmax] at hr
        have hnext := hframe c.session c.parser.buffer frame rest h hr
        dsimp only
        split
        · exact ⟨hnext, hmax⟩
        · exact ih hmax hnext

theorem feed_preserves
    (hframe : ∀ s u frame r, P s → (readFrame maxPayloadBytes).run u = .done (frame, r) →
      P (s.processFrame frame))
    (herror : ∀ s e, P s → P (s.reportError e)) {c : WebSocketConnection}
    (hmax : c.parser.maxPayloadBytes = maxPayloadBytes) (h : P c.session) (data : Bytes) :
    P (c.feed data).session ∧ (c.feed data).parser.maxPayloadBytes = maxPayloadBytes := by
  rw [feed]
  split
  · exact ⟨h, hmax⟩
  · refine feedLoop_preserves hframe herror _ ?_ h
    rw [← hmax, FrameParser.feed]
    split <;> rfl

end preserves
end WebSocketConnection
end Aevrix.Ws
