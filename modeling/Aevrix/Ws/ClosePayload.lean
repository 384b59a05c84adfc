import Aevrix.Ws.CloseHandshake

/-!
# What a Close frame may carry

A Close is taken by its length and its code, and echoed as it came; nobody looks at the reason. So
the session refuses what it must, and what it sends is well formed, as long as the reasons it
receives are text (`close_payload_law`).
-/

namespace Aevrix.Ws
open Incremental

/-- An empty payload, or a code and a reason of UTF-8 text. -/
def WellFormedClose (payload : Bytes) : Prop :=
  payload = [] ∨ ∃ code reason, CloseCode code ∧ payload = BigEndian.bytes 2 code ++ reason ∧
    IsUtf8 reason

instance (code : ℕ) : Decidable (CloseCode code) :=
  inferInstanceAs (Decidable (_ ∧ _ ∧ _))

/-- A reason behind a code is text. -/
def ReasonIsText (payload : Bytes) : Prop :=
  ∀ code reason, CloseCode code → payload = BigEndian.bytes 2 code ++ reason → IsUtf8 reason

theorem closeCode_of_valid {code : ℕ} (h : validCloseCode code = true) : CloseCode code := by
  unfold validCloseCode at h
  split at h
  · cases h
  · simp only [Bool.and_eq_true, bne_iff_ne] at h
    refine ⟨by omega, by omega, ?_⟩
    simp only [List.mem_cons, List.not_mem_nil, or_false]
    omega

/-- The payloads that are not refused are the empty one and those with a code. -/
theorem validClose_iff (payload : Bytes) : ValidClose payload ↔ ¬Session.Malformed payload := by
  constructor
  · rintro (rfl | ⟨code, reason, hcode, rfl⟩) hmalformed
    · rcases hmalformed with h | ⟨h, -⟩ <;> simp at h
    · rcases hmalformed with h | ⟨-, h⟩
      · rw [List.length_append, BigEndian.bytes_length] at h
        omega
      · rw [validClose_code hcode reason] at h
        cases h
  · intro hwell
    rw [Session.Malformed, not_or, not_and] at hwell
    by_cases hnil : payload = []
    · exact Or.inl hnil
    · have hpos := List.length_pos_iff.mpr hnil
      have htwo : 2 ≤ payload.length := by omega
      have hcode : validCloseCode (readCloseCode payload) = true := by
        simpa using hwell.2 htwo
      refine Or.inr ⟨readCloseCode payload, payload.drop 2, closeCode_of_valid hcode, ?_⟩
      have hlen : (payload.take 2).length = 2 := List.length_take_of_le htwo
      have hvalue := BigEndian.bytes_value (payload.take 2)
      rw [hlen] at hvalue
      rw [readCloseCode, hvalue, List.take_append_drop]

theorem wellFormedClose_iff (payload : Bytes) :
    WellFormedClose payload ↔ ValidClose payload ∧ ReasonIsText payload := by
  have hcodes {code code' : ℕ} {reason reason' : Bytes}
      (h : BigEndian.bytes 2 code ++ reason = BigEndian.bytes 2 code' ++ reason') :
      reason = reason' :=
    (List.append_inj h (by rw [BigEndian.bytes_length, BigEndian.bytes_length])).2
  constructor
  · rintro (rfl | ⟨code, reason, hcode, rfl, htext⟩)
    · refine ⟨Or.inl rfl, ?_⟩
      intro code reason _ h
      have hlen := congrArg List.length h
      rw [List.length_append, BigEndian.bytes_length, List.length_nil] at hlen
      omega
    · refine ⟨Or.inr ⟨code, reason, hcode, rfl⟩, ?_⟩
      intro code' reason' _ h
      exact hcodes h ▸ htext
  · rintro ⟨rfl | ⟨code, reason, hcode, rfl⟩, htext⟩
    · exact Or.inl rfl
    · exact Or.inr ⟨code, reason, hcode, rfl, htext code reason hcode rfl⟩

/-! ### ASCII texts -/

def IsAscii (text : Bytes) : Prop := ∀ b ∈ text, b ≤ 0x7F

instance (text : Bytes) : Decidable (IsAscii text) := List.decidableBAll _ text

theorem IsAscii.append {text more : Bytes} (h : IsAscii text) (hmore : IsAscii more) :
    IsAscii (text ++ more) := by
  intro b hb
  exact (List.mem_append.mp hb).elim (h b) (hmore b)

theorem isAscii_decimalText (n : ℕ) : IsAscii (decimalText n) := by
  intro b hb
  have hdigit := (isDecimal_decimalText n).2.1 b hb
  simp only [isDigit, Bool.and_eq_true, decide_eq_true_eq] at hdigit
  exact UInt8.le_trans hdigit.2 (by decide)

theorem IsAscii.isUtf8 {text : Bytes} (h : IsAscii text) : IsUtf8 text := by
  have hloop : ∀ (text : Bytes) (fuel : ℕ), text.length ≤ fuel → IsAscii text →
      validUtf8For fuel text = true := by
    intro text
    induction text with
    | nil =>
      intro fuel _ _
      rw [validUtf8For]
    | cons b text ih =>
      intro fuel hfuel hascii
      rw [List.length_cons] at hfuel
      obtain ⟨n, rfl⟩ := Nat.exists_eq_succ_of_ne_zero (by omega : fuel ≠ 0)
      rw [validUtf8For, readCodePoint, if_pos (hascii b List.mem_cons_self)]
      exact ih n (by omega) fun c hc => hascii c (List.mem_cons_of_mem b hc)
  exact (validUtf8_iff text).mp (hloop text text.length (Nat.le_refl _) h)

theorem wellFormedClose_failure {code : ℕ} {reason : Bytes} (hcode : CloseCode code)
    (hascii : IsAscii reason) : WellFormedClose (Session.failurePayload code reason) := by
  refine Or.inr ⟨code, reason.take 123, hcode, rfl, ?_⟩
  have htake : IsAscii (reason.take 123) := fun b hb => hascii b (List.mem_of_mem_take hb)
  exact htake.isUtf8

theorem readFrame_failsWith_ascii (maxPayloadBytes : ℕ) :
    (readFrame maxPayloadBytes).FailsWith fun e => IsAscii e.2 := by
  have hlength : ∀ len7, (readLength len7).FailsWith fun e => IsAscii e.2 := by
    intro len7
    unfold readLength
    split
    · exact Reader.failsWith_bind (Reader.failsWith_take 2) fun _ => Reader.failsWith_pure _
    · split
      · exact Reader.failsWith_bind (Reader.failsWith_take 8) fun _ =>
          Reader.failsWith_bind (Reader.failsWith_require (by decide)) fun _ =>
            Reader.failsWith_pure _
      · exact Reader.failsWith_pure _
  have htoo_large : ∀ n, IsAscii (ascii "declared payload length " ++ decimalText n ++
      ascii " exceeds limit " ++ decimalText maxPayloadBytes) := by
    intro n
    have hdeclared : IsAscii (ascii "declared payload length ") := by decide
    have hlimit : IsAscii (ascii " exceeds limit ") := by decide
    exact ((hdeclared.append (isAscii_decimalText n)).append hlimit).append
      (isAscii_decimalText maxPayloadBytes)
  have hcheck : ∀ fin opcode n,
      (checkLength maxPayloadBytes fin opcode n).FailsWith fun e => IsAscii e.2 := by
    intro fin opcode n
    exact Reader.failsWith_bind (Reader.failsWith_require (by decide)) fun _ =>
      Reader.failsWith_bind (Reader.failsWith_require (by decide)) fun _ =>
        Reader.failsWith_require (htoo_large n)
  have hkey : ∀ masked, (readMaskKey masked).FailsWith fun e => IsAscii e.2 := by
    intro masked
    unfold readMaskKey
    split
    · exact Reader.failsWith_bind (Reader.failsWith_take 4) fun _ => Reader.failsWith_pure _
    · exact Reader.failsWith_pure _
  refine Reader.failsWith_bind (Reader.failsWith_take 2) fun v => ?_
  refine Reader.failsWith_bind (Reader.failsWith_require (by decide)) fun _ => ?_
  split
  · have hreserved : IsAscii (ascii "reserved opcode ") := by decide
    exact Reader.failsWith_fail (hreserved.append (isAscii_decimalText _))
  · exact Reader.failsWith_bind (hlength _) fun _ => Reader.failsWith_bind (hcheck _ _ _) fun _ =>
      Reader.failsWith_bind (hkey _) fun _ =>
        Reader.failsWith_bind (Reader.failsWith_take _) fun _ => Reader.failsWith_pure _

/-! ### What a session sends -/

/-- Frames of a server, each Close among them well formed. -/
def WellClosed (out : Bytes) : Prop :=
  ∃ frames : List (Opcode × Bytes), out = frames.flatMap (fun f => Session.wire f.1 f.2) ∧
    ∀ f ∈ frames, f.1 = .close → WellFormedClose f.2

theorem WellClosed.append {out payload : Bytes} {opcode : Opcode} (h : WellClosed out)
    (hclose : opcode = .close → WellFormedClose payload) :
    WellClosed (out ++ Session.wire opcode payload) := by
  obtain ⟨frames, rfl, hframes⟩ := h
  refine ⟨frames ++ [(opcode, payload)], ?_, ?_⟩
  · rw [List.flatMap_append, List.flatMap_singleton]
  · intro f hf
    rcases List.mem_append.mp hf with hf | hf
    · exact hframes f hf
    · rw [List.mem_singleton.mp hf]
      exact hclose

namespace Session

section sends
variable {taken : Bytes} {s : Session}

theorem queueFrame_wellClosed (h : WellClosed (taken ++ s.output)) {opcode : Opcode}
    {payload : Bytes} (hclose : opcode = .close → WellFormedClose payload) :
    WellClosed (taken ++ (s.queueFrame opcode payload).output) := by
  show WellClosed (taken ++ (s.output ++ wire opcode payload))
  rw [← List.append_assoc]
  exact h.append hclose

theorem failConnection_wellClosed (h : WellClosed (taken ++ s.output)) {code : ℕ}
    {reason : Bytes} (hcode : CloseCode code) (hascii : IsAscii reason) :
    WellClosed (taken ++ (s.failConnection code reason).output) := by
  cases herror : s.protocolError with
  | true =>
    rw [failConnection_of_error herror]
    exact h
  | false =>
    rw [failConnection_eq herror]
    dsimp only
    split
    · exact h
    · rw [← List.append_assoc]
      exact h.append fun _ => wellFormedClose_failure hcode hascii

theorem deliverMessage_wellClosed (h : WellClosed (taken ++ s.output)) {opcode : Opcode}
    (hop : opcode ≠ .close) (payload : Bytes) :
    WellClosed (taken ++ (s.deliverMessage opcode payload).output) := by
  unfold deliverMessage
  split
  · exact failConnection_wellClosed h (by decide) (by decide)
  · exact queueFrame_wellClosed h fun hclose => absurd hclose hop

theorem startMessage_wellClosed (h : WellClosed (taken ++ s.output)) {frame : Frame}
    (hop : frame.opcode ≠ .close) : WellClosed (taken ++ (s.startMessage frame).output) := by
  unfold startMessage
  split
  · exact failConnection_wellClosed h (by decide) (by decide)
  · split
    · exact deliverMessage_wellClosed h hop _
    · exact h

theorem continueMessage_wellClosed (h : WellClosed (taken ++ s.output))
    (hop : s.fragmentOpcode ≠ .close) (frame : Frame) :
    WellClosed (taken ++ (s.continueMessage frame).output) := by
  unfold continueMessage
  split
  · exact failConnection_wellClosed h (by decide) (by decide)
  · split
    · exact failConnection_wellClosed h (by decide) (by decide)
    · dsimp only
      split
      · exact deliverMessage_wellClosed (s := { s with
          fragmentInProgress := false, fragmentPayload := s.fragmentPayload ++ frame.payload }) h hop _
      · exact h

theorem handleClosePayload_wellClosed (h : WellClosed (taken ++ s.output)) {payload : Bytes}
    (htext : s.state = .established → ReasonIsText payload) :
    WellClosed (taken ++ (s.handleClosePayload payload).output) := by
  unfold handleClosePayload
  dsimp only
  split
  · exact failConnection_wellClosed (s := { s with closeReceived := true }) h (by decide) (by decide)
  · split
    · exact failConnection_wellClosed (s := { s with closeReceived := true }) h (by decide)
        (by decide)
    · rename_i hone htwo
      have hvalid : ValidClose payload := by
        rw [validClose_iff, Malformed, not_or]
        exact ⟨hone, htwo⟩
      have houtput : ({ s with closeReceived := true }.acceptClose payload).output =
          if s.state = .established then (s.queueFrame .close payload).output else s.output := by
        unfold acceptClose
        dsimp only
        split <;> split <;> rfl
      rw [houtput]
      split
      · rename_i hs
        exact queueFrame_wellClosed h fun _ =>
          (wellFormedClose_iff payload).mpr ⟨hvalid, htext hs⟩
      · exact h

theorem processFrame_wellClosed (h : WellClosed (taken ++ s.output))
    (hop : s.fragmentOpcode ≠ .close) {frame : Frame}
    (htext : s.state = .established → frame.masked = true → frame.opcode = .close →
      ReasonIsText frame.payload) : WellClosed (taken ++ (s.processFrame frame).output) := by
  unfold processFrame
  split
  · exact failConnection_wellClosed h (by decide) (by decide)
  · rename_i hmasked
    have hmasked : frame.masked = true := by simpa using hmasked
    split
    · rename_i hstate
      split
      · exact handleClosePayload_wellClosed h fun hs => absurd hs hstate
      · exact h
    · cases hframe : frame.opcode with
      | close => exact handleClosePayload_wellClosed h fun hs => htext hs hmasked hframe
      | ping => exact queueFrame_wellClosed h fun hclose => by cases hclose
      | pong => exact h
      | text => exact startMessage_wellClosed h (by rw [hframe]; decide)
      | binary => exact startMessage_wellClosed h (by rw [hframe]; decide)
      | continuation => exact continueMessage_wellClosed h hop frame

theorem failConnection_fragmentOpcode (code : ℕ) (reason : Bytes) :
    (s.failConnection code reason).fragmentOpcode = s.fragmentOpcode := by
  cases herror : s.protocolError with
  | true => rw [failConnection_of_error herror]
  | false => rw [failConnection_eq herror]

theorem processFrame_fragmentOpcode (hc : s.Coherent) (hop : s.fragmentOpcode ≠ .close)
    (frame : Frame) : (s.processFrame frame).fragmentOpcode ≠ .close := by
  have hcases := processFrame_cases hc frame
  generalize s.processFrame frame = s' at hcases ⊢
  cases hcases with
  | ignored => exact hop
  | failed received code reason =>
    rw [failConnection_fragmentOpcode]
    exact hop
  | answered => exact hop
  | echoed => exact hop
  | started _ hdata =>
    rcases hdata with hdata | hdata <;> (show frame.opcode ≠ _; rw [hdata]; decide)
  | extended => exact hop
  | assembled => exact hop
  | closed => exact hop
  | acknowledged => exact hop

/-- What holds of a session and of all it has sent so far, `taken` of it taken out. -/
structure ClosesWell (taken : Bytes) (s : Session) : Prop where
  coherent : s.Coherent
  fragment : s.fragmentOpcode ≠ .close
  sent : WellClosed (taken ++ s.output)

end sends
end Session

/-! ### Runs -/

namespace WebSocketConnection
open Session

/-- A frame that the loop of a feed hands to its session, and the session as it is then. -/
inductive Handed : WebSocketConnection → Session → Frame → Prop
  | here {c frame parser} (h : c.parser.next = (.frameReady frame, parser)) :
      Handed c c.session frame
  | later {c frame parser s f} (h : c.parser.next = (.frameReady frame, parser))
      (hok : (c.session.processFrame frame).protocolError = false)
      (rest : Handed ⟨parser, c.session.processFrame frame⟩ s f) : Handed c s f

/-- The session takes no Close with a reason that is not text, and sends none with a code that is
not valid. -/
def PlainCloses (c : WebSocketConnection) : Call → Prop
  | .feed data => ∀ s f, Handed { c with parser := c.parser.feed data } s f →
      s.state = .established → f.masked = true → f.opcode = .close → ReasonIsText f.payload
  | .initiateClose code => CloseCode code
  | _ => True

def OnlyPlainCloses (x : WebSocketConnection × Bytes) : List Call → Prop
  | [] => True
  | k :: calls => PlainCloses x.1 k ∧ OnlyPlainCloses (call x k) calls

section feed
variable {maxMessageBytes n : ℕ} {s : Session} {u data taken : Bytes}

theorem feedLoop_closesWell (h : ClosesWell taken s) (hn : u.length + 2 ≤ n)
    (htext : ∀ s' f, Handed (waiting maxMessageBytes s u) s' f → s'.state = .established →
      f.masked = true → f.opcode = .close → ReasonIsText f.payload) :
    ClosesWell taken (feedLoop n (waiting maxMessageBytes s u)).session := by
  induction n generalizing s u with
  | zero => omega
  | succ n ih =>
    cases hr : (readFrame maxMessageBytes).run u with
    | needMore =>
      rw [feedLoop_needMore hr (Nat.succ_pos n)]
      exact h
    | failed e =>
      obtain ⟨m, rfl⟩ := Nat.exists_eq_succ_of_ne_zero (by omega : n ≠ 0)
      rw [feedLoop_failed hr]
      have hascii := readFrame_failsWith_ascii maxMessageBytes u e hr
      have hcode : CloseCode (if e.1 = .payloadTooLarge then 1009 else 1002) := by
        split <;> decide
      exact ⟨h.coherent.reportError e,
        (failConnection_fragmentOpcode (s := s) _ e.2).trans_ne h.fragment,
        failConnection_wellClosed h.sent hcode hascii⟩
    | done x =>
      obtain ⟨frame, rest⟩ := x
      have hnext : (waiting maxMessageBytes s u).parser.next =
          (.frameReady frame, { buffer := rest, maxPayloadBytes := maxMessageBytes }) :=
        FrameParser.next_ready hr
      have hframe : ClosesWell taken (s.processFrame frame) :=
        ⟨h.coherent.processFrame frame, processFrame_fragmentOpcode h.coherent h.fragment frame,
          processFrame_wellClosed h.sent h.fragment (htext s frame (.here hnext))⟩
      have hlt := readFrame_productive maxMessageBytes hr
      rw [feedLoop_done hr]
      split
      · exact hframe
      · rename_i hok
        have hno : (s.processFrame frame).protocolError = false := by simpa using hok
        exact ih hframe (by omega) fun s' f hf => htext s' f (.later hnext hno hf)

end feed

section calls
variable {maxMessageBytes : ℕ} {x : WebSocketConnection × Bytes}

theorem call_closesWell (hkept : Kept maxMessageBytes x.1) (h : ClosesWell x.2 x.1.session)
    {k : Call} (hk : PlainCloses x.1 k) :
    ClosesWell (call x k).2 (call x k).1.session := by
  obtain ⟨u, hu⟩ := hkept.rests
  have hcoherent := (hkept.call k).1.coherent
  cases k with
  | feed data =>
    show ClosesWell x.2 (x.1.feed data).session
    by_cases hclosed : x.1.session.state = .closed
    · rw [feed, if_pos hclosed]
      exact h
    · have htext : ∀ s' f, Handed (waiting maxMessageBytes x.1.session (u ++ data)) s' f →
          s'.state = .established → f.masked = true → f.opcode = .close →
            ReasonIsText f.payload := by
        have hsame : waiting maxMessageBytes x.1.session (u ++ data) =
            { x.1 with parser := x.1.parser.feed data } := by
          rw [hu]
          rfl
        rw [hsame]
        exact hk
      rw [hu, feed_open hclosed]
      exact feedLoop_closesWell h (Nat.le_refl _) htext
  | initiateClose code =>
    refine ⟨hcoherent, ?_, ?_⟩
    · show (x.1.session.initiateClose code).fragmentOpcode ≠ .close
      unfold Session.initiateClose
      split <;> exact h.fragment
    · show WellClosed (x.2 ++ (x.1.session.initiateClose code).output)
      unfold Session.initiateClose
      split
      · exact h.sent
      · have hcode : WellFormedClose (appendCloseCode [] code) :=
          Or.inr ⟨code, [], hk, (List.append_nil _).symm, [], rfl⟩
        exact queueFrame_wellClosed h.sent fun _ => hcode
  | maybeQueuePing pingIntervalMs now =>
    refine ⟨hcoherent, ?_, ?_⟩
    · show (x.1.session.maybeQueuePing pingIntervalMs now).2.fragmentOpcode ≠ .close
      unfold Session.maybeQueuePing
      split
      · exact h.fragment
      · split <;> exact h.fragment
    · show WellClosed (x.2 ++ (x.1.session.maybeQueuePing pingIntervalMs now).2.output)
      unfold Session.maybeQueuePing
      split
      · exact h.sent
      · split
        · exact h.sent
        · exact queueFrame_wellClosed (s := { x.1.session with lastPing := now }) h.sent
            fun hclose => by cases hclose
  | takeOutput =>
    refine ⟨hcoherent, h.fragment, ?_⟩
    show WellClosed (x.2 ++ x.1.session.output ++ [])
    rw [List.append_nil]
    exact h.sent

theorem calls_closesWell (hkept : Kept maxMessageBytes x.1) (h : ClosesWell x.2 x.1.session)
    {calls : List Call} (hcalls : OnlyPlainCloses x calls) :
    ClosesWell (calls.foldl call x).2 (calls.foldl call x).1.session := by
  induction calls generalizing x with
  | nil => exact h
  | cons k calls ih =>
    obtain ⟨hk, hrest⟩ := hcalls
    exact ih (hkept.call k).1 (call_closesWell hkept h hk) hrest

end calls

/-- A Close is taken without a protocol error and echoed. -/
def Echoed (s : Session) (frame : Frame) : Prop :=
  (s.processFrame frame).protocolError = false ∧
    (s.processFrame frame).output = s.output ++ wire .close frame.payload

instance (s : Session) (frame : Frame) : Decidable (Echoed s frame) :=
  inferInstanceAs (Decidable (_ ∧ _))

theorem echoed_iff {s : Session} {frame : Frame} (hc : s.Coherent) (hs : s.state = .established)
    (hmasked : frame.masked = true) (hop : frame.opcode = .close) :
    Echoed s frame ↔ ValidClose frame.payload := by
  have hframe : s.processFrame frame = s.handleClosePayload frame.payload := by
    rw [processFrame, if_neg (by rw [hmasked]; exact Bool.true_eq_false.mp), if_neg (by simpa using hs),
      hop]
  rw [Echoed, hframe, validClose_iff]
  unfold handleClosePayload
  dsimp only
  constructor
  · rintro ⟨herror, -⟩ hmalformed
    rcases hmalformed with hone | htwo
    · rw [if_pos hone, failConnection_protocolError] at herror
      cases herror
    · rw [if_neg (by omega), if_pos htwo, failConnection_protocolError] at herror
      cases herror
  · intro hwell
    rw [Malformed, not_or] at hwell
    rw [if_neg hwell.1, if_neg hwell.2]
    simp only [acceptClose, hs, if_true]
    exact ⟨hc.no_error hs, rfl⟩

/-- The Close frames of a session, behind any calls. An established session refuses and echoes a
Close as its payload demands exactly when a reason behind a valid code is text; and as long as
those it takes have such reasons, each Close it sends is well formed. -/
theorem close_payload_law (maxMessageBytes now : ℕ) (calls : List Call) :
    let x := runCalls (fresh maxMessageBytes now) calls
    (∀ frame, x.1.session.state = .established → frame.masked = true → frame.opcode = .close →
      ((Echoed x.1.session frame ↔ WellFormedClose frame.payload) ↔ ReasonIsText frame.payload)) ∧
    (OnlyPlainCloses (fresh maxMessageBytes now, []) calls →
      WellClosed (x.2 ++ x.1.session.output)) := by
  intro x
  have hfresh := kept_fresh maxMessageBytes now
  obtain ⟨hkept, -⟩ := Kept.calls (x := (fresh maxMessageBytes now, [])) hfresh calls
  constructor
  · intro frame hs hmasked hop
    have hechoed : Echoed x.1.session frame ↔ ValidClose frame.payload :=
      echoed_iff hkept.coherent hs hmasked hop
    rw [hechoed, wellFormedClose_iff]
    constructor
    · intro h code reason hcode hpayload
      exact (h.mp (Or.inr ⟨code, reason, hcode, hpayload⟩)).2 code reason hcode hpayload
    · intro htext
      exact (and_iff_left htext).symm
  · intro hcalls
    have hstart : ClosesWell [] (fresh maxMessageBytes now).session :=
      ⟨hfresh.coherent, by simp [fresh], [], rfl, fun f hf => absurd hf List.not_mem_nil⟩
    exact (calls_closesWell (x := (fresh maxMessageBytes now, [])) hfresh hstart hcalls).sent

/-- A Close with a valid code and a reason that is no text. -/
def garbledClose : Frame where
  opcode := .close
  masked := true
  payload := [0x03, 0xE8, 0xFF]

theorem close_payload_law_fresh :
    ((Echoed (fresh 8 0).session garbledClose ↔ WellFormedClose garbledClose.payload) ↔
      ReasonIsText garbledClose.payload) ∧ WellClosed [] :=
  have h := close_payload_law 8 0 []
  ⟨h.1 garbledClose rfl rfl rfl, h.2 trivial⟩

/-- It is echoed. -/
theorem garbledClose_echoed : ¬∀ (maxMessageBytes now : ℕ) (calls : List Call) (frame : Frame),
    let s := (runCalls (fresh maxMessageBytes now) calls).1.session
    s.state = .established → frame.masked = true → frame.opcode = .close →
      (Echoed s frame ↔ WellFormedClose frame.payload) := by
  intro h
  have hwell := (h 8 0 [] garbledClose rfl rfl rfl).mp (by decide)
  have htext := ((wellFormedClose_iff _).mp hwell).2 1000 [0xFF] (by decide) rfl
  have hvalid := (validUtf8_iff _).mpr htext
  revert hvalid
  decide

end WebSocketConnection
end Aevrix.Ws
