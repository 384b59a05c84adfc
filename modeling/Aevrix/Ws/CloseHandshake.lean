import Aevrix.Ws.Echo
import Aevrix.Ws.Output

/-!
# The state of a session and its Close frames

The state follows from the flags, but for one order of events: a Close that is malformed, behind a
violation, is noted as received and leaves the session closing (`agrees_iff_neverStrands`).
-/

namespace Aevrix.Ws
open Incremental

/-! ### State and flags -/

namespace Session

/-- The state is the one of the flags. -/
structure Agrees (s : Session) : Prop where
  closed : s.state = .closed ↔ s.closeSent = true ∧ s.closeReceived = true
  established : s.state = .established ↔ s.closeSent = false ∧ s.protocolError = false
  closing : s.state = .closing ↔
    ¬(s.closeSent = true ∧ s.closeReceived = true) ∧ ¬(s.closeSent = false ∧ s.protocolError = false)

/-- A Close payload that `handle_close_payload` refuses. -/
def Malformed (payload : Bytes) : Prop :=
  payload.length = 1 ∨ 2 ≤ payload.length ∧ validCloseCode (readCloseCode payload) = false

/-- The Close was sent and received, and the session still waits for one. -/
structure Stranded (s : Session) : Prop where
  state : s.state = .closing
  sent : s.closeSent = true
  received : s.closeReceived = true
  error : s.protocolError = true

section agrees
variable {s : Session} {frame : Frame}

theorem Stranded.not_agrees (h : s.Stranded) : ¬s.Agrees := by
  intro hagrees
  have hclosed := hagrees.closed.mpr ⟨h.sent, h.received⟩
  rw [h.state] at hclosed
  cases hclosed

theorem failConnection_agrees (herror : s.protocolError = false) (code : ℕ) (reason : Bytes) :
    (s.failConnection code reason).Agrees := by
  rw [failConnection_eq herror]
  cases hreceived : s.closeReceived with
  | false => constructor <;> simp
  | true => constructor <;> simp

theorem Agrees.of_eq {s' : Session} (h : s.Agrees) (hstate : s'.state = s.state)
    (hsent : s'.closeSent = s.closeSent) (hreceived : s'.closeReceived = s.closeReceived)
    (herror : s'.protocolError = s.protocolError) : s'.Agrees where
  closed := by rw [hstate, hsent, hreceived]; exact h.closed
  established := by rw [hstate, hsent, herror]; exact h.established
  closing := by rw [hstate, hsent, hreceived, herror]; exact h.closing

theorem processFrame_agrees (hc : s.Coherent) (h : s.Agrees) (herror : s.protocolError = false)
    (frame : Frame) : (s.processFrame frame).Agrees := by
  have hcases := processFrame_cases hc frame
  generalize s.processFrame frame = s' at hcases ⊢
  cases hcases with
  | ignored => exact h
  | failed received code reason =>
    exact failConnection_agrees (s := { s with closeReceived := s.closeReceived || received }) herror
      code reason
  | answered => exact h.of_eq rfl rfl rfl rfl
  | echoed => exact h.of_eq rfl rfl rfl rfl
  | started => exact h.of_eq rfl rfl rfl rfl
  | extended => exact h.of_eq rfl rfl rfl rfl
  | assembled => exact h.of_eq rfl rfl rfl rfl
  | closed => constructor <;> simp
  | acknowledged => constructor <;> simp

theorem processFrame_of_error (hc : s.Coherent) (herror : s.protocolError = true) :
    s.processFrame frame =
      if frame.masked = true ∧ frame.opcode = .close ∧ s.closeReceived = false then
        s.handleClosePayload frame.payload
      else s := by
  have hstate : s.state ≠ .established := by
    intro hs
    rw [hc.no_error hs] at herror
    cases herror
  unfold processFrame
  cases hmasked : frame.masked with
  | false =>
    rw [if_pos rfl, failConnection_of_error herror, if_neg]
    intro h
    cases h.1
  | true =>
    rw [if_neg Bool.true_eq_false.mp, if_pos hstate]
    simp only [true_and]

theorem processFrame_still_error (hc : s.Coherent) (herror : s.protocolError = true) :
    (s.processFrame frame).protocolError = true := by
  have hstate : s.state ≠ .established := by
    intro hs
    rw [hc.no_error hs] at herror
    cases herror
  have hcases := processFrame_cases hc frame
  generalize s.processFrame frame = s' at hcases ⊢
  cases hcases with
  | ignored => exact herror
  | failed received code reason => exact failConnection_protocolError
  | answered hs => exact absurd hs hstate
  | echoed hs => exact absurd hs hstate
  | started hs => exact absurd hs hstate
  | extended hs => exact absurd hs hstate
  | assembled hs => exact absurd hs hstate
  | closed hs => exact absurd hs hstate
  | acknowledged => exact herror

theorem handleClosePayload_of_error (hstate : s.state = .closing) (hsent : s.closeSent = true)
    (herror : s.protocolError = true) (payload : Bytes) :
    (Malformed payload → (s.handleClosePayload payload).Stranded) ∧
      (¬Malformed payload → (s.handleClosePayload payload).Agrees) := by
  have hfails (code : ℕ) (reason : Bytes) :
      ({ s with closeReceived := true }.failConnection code reason) =
        { s with closeReceived := true } := failConnection_of_error herror
  unfold handleClosePayload
  dsimp only
  constructor
  · intro hmalformed
    have hstranded : Stranded { s with closeReceived := true } := ⟨hstate, hsent, rfl, herror⟩
    rcases hmalformed with hone | htwo
    · rw [if_pos hone, hfails]
      exact hstranded
    · rw [if_neg (by omega), if_pos htwo, hfails]
      exact hstranded
  · intro hwell
    rw [Malformed, not_or] at hwell
    have hopen : s.state ≠ .established := by
      rw [hstate]
      decide
    rw [if_neg hwell.1, if_neg hwell.2]
    simp only [acceptClose, if_neg hopen, hsent, Bool.and_self, if_true]
    constructor <;> simp

end agrees
end Session

/-! ### Runs -/

namespace WebSocketConnection
open Session

/-- A malformed Close is read behind a violation. -/
def Strands (c : WebSocketConnection) : Call → Prop
  | .feed data => c.session.protocolError = true ∧ c.session.closeReceived = false ∧
      ∃ frame parser, (c.parser.feed data).next = (.frameReady frame, parser) ∧
        frame.masked = true ∧ frame.opcode = .close ∧ Malformed frame.payload
  | _ => False

/-- What holds between two calls. -/
structure Kept (maxMessageBytes : ℕ) (c : WebSocketConnection) : Prop where
  rests : ∃ u, c = waiting maxMessageBytes c.session u
  coherent : c.session.Coherent
  state : c.session.Agrees ∨ c.session.Stranded

section feed
variable {maxMessageBytes n : ℕ} {s : Session} {u data : Bytes} {c : WebSocketConnection}

theorem feedLoop_agrees (hc : s.Coherent) (h : s.Agrees) (herror : s.protocolError = false)
    (hn : u.length + 2 ≤ n) : (feedLoop n (waiting maxMessageBytes s u)).session.Agrees := by
  induction n generalizing s u with
  | zero => omega
  | succ n ih =>
    cases hr : (readFrame maxMessageBytes).run u with
    | needMore =>
      rw [feedLoop_needMore hr (Nat.succ_pos n)]
      exact h
    | failed e =>
      obtain ⟨m, rfl⟩ := Nat.exists_eq_succ_of_ne_zero (by omega : n ≠ 0)
      rw [feedLoop_failed hr]
      exact failConnection_agrees herror _ _
    | done x =>
      obtain ⟨frame, rest⟩ := x
      have hframe := processFrame_agrees hc h herror frame
      have hlt := readFrame_productive maxMessageBytes hr
      rw [feedLoop_done hr]
      split
      · exact hframe
      · rename_i hok
        exact ih (hc.processFrame frame) hframe (by simpa using hok) (by omega)

theorem feed_of_error (maxMessageBytes : ℕ) (u data : Bytes) (hc : s.Coherent) (herror : s.protocolError = true) (hopen : s.state ≠ .closed) :
    (feed (waiting maxMessageBytes s u) data).session =
      match (readFrame maxMessageBytes).run (u ++ data) with
      | .done (frame, _) => s.processFrame frame
      | _ => s := by
  rw [feed_open hopen]
  cases hr : (readFrame maxMessageBytes).run (u ++ data) with
  | needMore =>
    rw [feedLoop_needMore hr (by omega)]
    rfl
  | failed e =>
    rw [feedLoop_failed hr]
    exact failConnection_of_error herror
  | done x =>
    obtain ⟨frame, rest⟩ := x
    rw [feedLoop_done hr, processFrame_still_error hc herror, if_pos rfl]
    rfl

theorem Kept.of_eq (h : Kept maxMessageBytes c) (c' : WebSocketConnection)
    (hparser : c'.parser = c.parser) (hstate : c'.session.state = c.session.state)
    (hsent : c'.session.closeSent = c.session.closeSent)
    (hreceived : c'.session.closeReceived = c.session.closeReceived)
    (herror : c'.session.protocolError = c.session.protocolError) :
    Kept maxMessageBytes c' ∧ (c'.session.Agrees ↔ c.session.Agrees) := by
  have hagrees : c'.session.Agrees ↔ c.session.Agrees :=
    ⟨fun h => h.of_eq hstate.symm hsent.symm hreceived.symm herror.symm,
      fun h => h.of_eq hstate hsent hreceived herror⟩
  obtain ⟨u, hu⟩ := h.rests
  refine ⟨⟨⟨u, ?_⟩, h.coherent.of_eq hstate hsent hreceived herror, ?_⟩, hagrees⟩
  · show c' = { parser := (waiting maxMessageBytes c.session u).parser, session := c'.session }
    rw [← hu, ← hparser]
  · apply h.state.imp hagrees.mpr
    intro hs
    exact ⟨hstate.trans hs.state, hsent.trans hs.sent, hreceived.trans hs.received,
      herror.trans hs.error⟩

theorem feed_rests (maxMessageBytes : ℕ) (u data : Bytes) (hopen : s.state ≠ .closed) :
    ∃ w, feed (waiting maxMessageBytes s u) data =
      waiting maxMessageBytes (feed (waiting maxMessageBytes s u) data).session w := by
  rw [feed_open hopen]
  obtain ⟨s', w, hloop, -⟩ := feedLoop_rests (s := s) maxMessageBytes
    (Nat.le_refl ((u ++ data).length + 2))
  rw [hloop]
  exact ⟨w, rfl⟩

theorem strands_feed_iff (hno : s.closeReceived = false) (herror : s.protocolError = true) :
    Strands (waiting maxMessageBytes s u) (.feed data) ↔ ∃ frame r,
      (readFrame maxMessageBytes).run (u ++ data) = .done (frame, r) ∧ frame.masked = true ∧
        frame.opcode = .close ∧ Malformed frame.payload := by
  have hfed : (waiting maxMessageBytes s u).parser.feed data =
      { buffer := u ++ data, maxPayloadBytes := maxMessageBytes } := rfl
  constructor
  · rintro ⟨-, -, frame, parser, hnext, hframe⟩
    rw [hfed] at hnext
    cases hr : (readFrame maxMessageBytes).run (u ++ data) with
    | needMore =>
      rw [FrameParser.next_needMore hr] at hnext
      cases hnext
    | failed e =>
      rw [FrameParser.next, if_neg (by simp [FrameParser.hasError]), hr] at hnext
      cases hnext
    | done x =>
      obtain ⟨frame', r⟩ := x
      rw [FrameParser.next_ready hr] at hnext
      obtain rfl := ParseStatus.frameReady.inj (Prod.mk.inj hnext).1
      exact ⟨frame', r, rfl, hframe⟩
  · rintro ⟨frame, r, hr, hframe⟩
    exact ⟨herror, hno, frame, _, hfed ▸ FrameParser.next_ready hr, hframe⟩

theorem feed_agrees_iff (maxMessageBytes : ℕ) (u data : Bytes) (hc : s.Coherent) (hstate : s.Agrees ∨ s.Stranded) :
    Kept maxMessageBytes (feed (waiting maxMessageBytes s u) data) ∧
      ((feed (waiting maxMessageBytes s u) data).session.Agrees ↔
        s.Agrees ∧ ¬Strands (waiting maxMessageBytes s u) (.feed data)) := by
  by_cases hclosed : s.state = .closed
  · rw [feed_closed hclosed]
    refine ⟨⟨⟨u, rfl⟩, hc, hstate⟩, (and_iff_left ?_).symm⟩
    rintro ⟨-, hno, -⟩
    exact absurd ((hc.closed hclosed).symm.trans hno) Bool.true_eq_false.mp
  have hrests := feed_rests maxMessageBytes u data hclosed
  have hcoherent : (feed (waiting maxMessageBytes s u) data).session.Coherent :=
    (feed_preserves (P := Coherent) (fun _ _ frame _ hs _ => hs.processFrame frame)
      (fun _ e hs => hs.reportError e) (c := waiting maxMessageBytes s u) rfl hc data).1
  cases herror : s.protocolError with
  | false =>
    have hagrees : s.Agrees := by
      apply hstate.resolve_right
      intro hs
      exact absurd (herror.symm.trans hs.error) Bool.false_ne_true
    have hfed : (feed (waiting maxMessageBytes s u) data).session.Agrees := by
      rw [feed_open hclosed]
      exact feedLoop_agrees hc hagrees herror (Nat.le_refl _)
    refine ⟨⟨hrests, hcoherent, Or.inl hfed⟩, iff_of_true hfed ⟨hagrees, ?_⟩⟩
    rintro ⟨hviolated, -⟩
    exact absurd (herror.symm.trans hviolated) Bool.false_ne_true
  | true =>
    have hsent := hc.error herror
    have hclosing : s.state = .closing := by
      cases hs : s.state with
      | established => exact absurd ((hc.established.mp hs).symm.trans hsent) Bool.false_ne_true
      | closing => rfl
      | closed => exact absurd hs hclosed
    have hsession := feed_of_error maxMessageBytes u data hc herror hclosed
    have hsame (hfed : (feed (waiting maxMessageBytes s u) data).session = s)
        (hmet : ¬Strands (waiting maxMessageBytes s u) (.feed data)) :
        Kept maxMessageBytes (feed (waiting maxMessageBytes s u) data) ∧
          ((feed (waiting maxMessageBytes s u) data).session.Agrees ↔
            s.Agrees ∧ ¬Strands (waiting maxMessageBytes s u) (.feed data)) := by
      refine ⟨⟨hrests, hcoherent, ?_⟩, ?_⟩
      · rw [hfed]
        exact hstate
      · rw [hfed]
        exact (and_iff_left hmet).symm
    cases hreceived : s.closeReceived with
    | true =>
      apply hsame
      · rw [hsession]
        split
        · rw [processFrame_of_error hc herror, if_neg]
          rintro ⟨-, -, hno⟩
          exact absurd (hreceived.symm.trans hno) Bool.true_eq_false.mp
        · rfl
      · rintro ⟨-, hno, -⟩
        exact absurd (hreceived.symm.trans hno) Bool.true_eq_false.mp
    | false =>
      have hagrees : s.Agrees := by
        apply hstate.resolve_right
        intro hs
        exact absurd (hreceived.symm.trans hs.received) Bool.false_ne_true
      cases hr : (readFrame maxMessageBytes).run (u ++ data) with
      | needMore =>
        apply hsame
        · rw [hsession, hr]
        · rw [strands_feed_iff hreceived herror, hr]
          rintro ⟨_, _, h, -⟩
          cases h
      | failed e =>
        apply hsame
        · rw [hsession, hr]
        · rw [strands_feed_iff hreceived herror, hr]
          rintro ⟨_, _, h, -⟩
          cases h
      | done x =>
        obtain ⟨frame, r⟩ := x
        rw [hr] at hsession
        dsimp only at hsession
        rw [processFrame_of_error hc herror] at hsession
        by_cases hclose : frame.masked = true ∧ frame.opcode = .close ∧ s.closeReceived = false
        · rw [if_pos hclose] at hsession
          obtain ⟨hstrand, hwell⟩ := handleClosePayload_of_error hclosing hsent herror frame.payload
          by_cases hpayload : Malformed frame.payload
          · have hfed := hstrand hpayload
            rw [← hsession] at hfed
            refine ⟨⟨hrests, hcoherent, Or.inr hfed⟩, iff_of_false hfed.not_agrees ?_⟩
            rintro ⟨-, hmet⟩
            exact hmet ((strands_feed_iff hreceived herror).mpr
              ⟨frame, r, hr, hclose.1, hclose.2.1, hpayload⟩)
          · have hfed := hwell hpayload
            rw [← hsession] at hfed
            refine ⟨⟨hrests, hcoherent, Or.inl hfed⟩, iff_of_true hfed ⟨hagrees, ?_⟩⟩
            rw [strands_feed_iff hreceived herror, hr]
            rintro ⟨_, _, h, -, -, hmalformed⟩
            obtain ⟨rfl, -⟩ := Prod.mk.inj (Outcome.done.inj h)
            exact hpayload hmalformed
        · rw [if_neg hclose] at hsession
          apply hsame hsession
          rw [strands_feed_iff hreceived herror, hr]
          rintro ⟨_, _, h, hmasked, hop, -⟩
          obtain ⟨rfl, -⟩ := Prod.mk.inj (Outcome.done.inj h)
          exact hclose ⟨hmasked, hop, hreceived⟩

end feed

section calls
variable {maxMessageBytes : ℕ} {x : WebSocketConnection × Bytes}

theorem Kept.initiateClose {c : WebSocketConnection} (h : Kept maxMessageBytes c) (code : ℕ) :
    Kept maxMessageBytes (c.initiateClose code) ∧
      ((c.initiateClose code).session.Agrees ↔ c.session.Agrees) := by
  by_cases hopen : c.session.state ≠ .established ∨ c.session.closeSent = true
  · have hsame : c.session.initiateClose code = c.session := if_pos hopen
    exact h.of_eq _ rfl (congrArg Session.state hsame) (congrArg Session.closeSent hsame)
      (congrArg Session.closeReceived hsame) (congrArg Session.protocolError hsame)
  · have hclosing : c.session.initiateClose code = { c.session.queueFrame .close
        (appendCloseCode [] code) with closeSent := true, state := .closing } := if_neg hopen
    rw [not_or, not_not] at hopen
    have hreceived := h.coherent.not_received hopen.1
    have hagrees : (c.initiateClose code).session.Agrees := by
      show (c.session.initiateClose code).Agrees
      rw [hclosing]
      constructor <;> simp [queueFrame, hreceived]
    obtain ⟨u, hu⟩ := h.rests
    have hbefore : c.session.Agrees := by
      apply h.state.resolve_right
      intro hs
      exact absurd (hreceived.symm.trans hs.received) Bool.false_ne_true
    refine ⟨⟨⟨u, ?_⟩, h.coherent.initiateClose code, Or.inl hagrees⟩, iff_of_true hagrees hbefore⟩
    exact congrArg (fun parser : FrameParser => (⟨parser, _⟩ : WebSocketConnection))
      (congrArg WebSocketConnection.parser hu)

theorem Kept.call (h : Kept maxMessageBytes x.1) (k : Call) :
    Kept maxMessageBytes (call x k).1 ∧
      ((call x k).1.session.Agrees ↔ x.1.session.Agrees ∧ ¬Strands x.1 k) := by
  cases k with
  | feed data =>
    obtain ⟨u, hu⟩ := h.rests
    have hfeed := feed_agrees_iff maxMessageBytes u data h.coherent h.state
    rw [← hu] at hfeed
    exact hfeed
  | initiateClose code =>
    obtain ⟨hkept, hagrees⟩ := h.initiateClose code
    exact ⟨hkept, hagrees.trans (and_iff_left id).symm⟩
  | maybeQueuePing pingIntervalMs now =>
    have hsame : ∀ s : Session, (s.maybeQueuePing pingIntervalMs now).2.state = s.state ∧
        (s.maybeQueuePing pingIntervalMs now).2.closeSent = s.closeSent ∧
        (s.maybeQueuePing pingIntervalMs now).2.closeReceived = s.closeReceived ∧
        (s.maybeQueuePing pingIntervalMs now).2.protocolError = s.protocolError := by
      intro s
      unfold Session.maybeQueuePing
      split
      · exact ⟨rfl, rfl, rfl, rfl⟩
      · split <;> exact ⟨rfl, rfl, rfl, rfl⟩
    obtain ⟨hstate, hsent, hreceived, herror⟩ := hsame x.1.session
    obtain ⟨hkept, hagrees⟩ := h.of_eq (x.1.maybeQueuePing pingIntervalMs now).2 rfl hstate hsent
      hreceived herror
    exact ⟨hkept, hagrees.trans (and_iff_left id).symm⟩
  | takeOutput =>
    obtain ⟨hkept, hagrees⟩ := h.of_eq x.1.takeOutput.2 rfl rfl rfl rfl rfl
    exact ⟨hkept, hagrees.trans (and_iff_left id).symm⟩

/-- In no call of a run is a malformed Close read behind a violation. -/
def NeverStrands (x : WebSocketConnection × Bytes) : List Call → Prop
  | [] => True
  | k :: calls => ¬Strands x.1 k ∧ NeverStrands (call x k) calls

theorem Kept.calls (h : Kept maxMessageBytes x.1) (calls : List Call) :
    Kept maxMessageBytes (calls.foldl WebSocketConnection.call x).1 ∧
      ((calls.foldl WebSocketConnection.call x).1.session.Agrees ↔
        x.1.session.Agrees ∧ NeverStrands x calls) := by
  induction calls generalizing x with
  | nil => exact ⟨h, (and_iff_left trivial).symm⟩
  | cons k calls ih =>
    obtain ⟨hkept, hagrees⟩ := h.call k
    obtain ⟨hrun, hrest⟩ := ih hkept
    refine ⟨hrun, ?_⟩
    rw [List.foldl_cons, hrest, hagrees, NeverStrands, and_assoc]

theorem kept_fresh (maxMessageBytes now : ℕ) : Kept maxMessageBytes (fresh maxMessageBytes now) where
  rests := ⟨[], rfl⟩
  coherent := Coherent.fresh maxMessageBytes now
  state := Or.inl (by constructor <;> simp [fresh])

/-- Behind any calls on a session, it is closed exactly when a Close was sent and received,
established exactly when no Close was sent and no violation seen, and closing otherwise: if and
only if in none of them a malformed Close was read behind a violation. -/
theorem agrees_iff_neverStrands (maxMessageBytes now : ℕ) (calls : List Call) :
    (runCalls (fresh maxMessageBytes now) calls).1.session.Agrees ↔
      NeverStrands (fresh maxMessageBytes now, []) calls := by
  have hkept := kept_fresh maxMessageBytes now
  have hfresh : (fresh maxMessageBytes now).session.Agrees := by
    constructor <;> simp [fresh]
  obtain ⟨-, hagrees⟩ := Kept.calls (x := (fresh maxMessageBytes now, [])) hkept calls
  exact hagrees.trans (and_iff_right hfresh)

/-- An unmasked ping, then a Close with half a code. -/
theorem stranded_close : ¬∀ (maxMessageBytes now : ℕ) (calls : List Call),
    (runCalls (fresh maxMessageBytes now) calls).1.session.Agrees := by
  intro h
  have hagrees := h 8 0 [.feed [0x89, 0x00], .feed [0x88, 0x81, 0, 0, 0, 0, 0x03]]
  have hclosed := hagrees.closed.mpr
  revert hclosed
  decide

end calls
end WebSocketConnection
end Aevrix.Ws
