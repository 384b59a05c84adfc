import Aevrix.Ws.SessionSegmentation

/-!
# What a session sends

Whatever is called on a session, its output is a sequence of whole, unmasked frames in
minimal encoding, with small control frames and nothing behind a Close (`output_legal`).
-/

namespace Aevrix.Ws
open Incremental

/-! ### Frames on the wire -/

/-- The length field of an unmasked frame, in the shortest form for its payload length. -/
inductive MinimalLength : ℕ → Bytes → Prop
  | short {n : ℕ} (h : n ≤ 125) : MinimalLength n [UInt8.ofNat n]
  | two {n : ℕ} {field : Bytes} (hlow : 125 < n) (hlen : field.length = 2)
      (hvalue : BigEndian.value field = n) : MinimalLength n (126 :: field)
  | eight {n : ℕ} {field : Bytes} (hlow : 65535 < n) (hlen : field.length = 8)
      (hvalue : BigEndian.value field = n) : MinimalLength n (127 :: field)

/-- A legal frame of a server. -/
structure ServerFrame where
  opcode : Opcode
  payload : Bytes
  lengthField : Bytes
  minimal : MinimalLength payload.length lengthField
  small : isControlOpcode opcode = true → payload.length ≤ 125

namespace ServerFrame

/-- FIN and the opcode, the length with no mask bit, the payload. -/
def bytes (f : ServerFrame) : Bytes := (0x80 ||| f.opcode.code) :: (f.lengthField ++ f.payload)

end ServerFrame

theorem exists_serverFrame {opcode : Opcode} {payload : Bytes}
    (hsmall : isControlOpcode opcode = true → payload.length ≤ 125)
    (hlen : payload.length < 2 ^ 64) :
    ∃ f : ServerFrame, f.opcode = opcode ∧ f.bytes = Session.wire opcode payload := by
  have hfirst : (opcode.code &&& 0x0F) ||| 0x80 = 0x80 ||| opcode.code := by
    cases opcode <;> decide
  simp only [Session.wire, encodeFrame, if_true, Bool.false_eq_true, if_false, hfirst]
  by_cases h1 : payload.length < 126
  · refine ⟨⟨opcode, payload, [UInt8.ofNat payload.length], .short (by omega), hsmall⟩, rfl, ?_⟩
    rw [if_pos h1, ServerFrame.bytes, UInt8.zero_or]
    rfl
  by_cases h2 : payload.length ≤ 0xFFFF
  · have hvalue : BigEndian.value (BigEndian.bytes 2 payload.length) = payload.length :=
      BigEndian.value_bytes (by omega)
    refine ⟨⟨opcode, payload, 126 :: BigEndian.bytes 2 payload.length,
      .two (by omega) (BigEndian.bytes_length 2 _) hvalue, hsmall⟩, rfl, ?_⟩
    rw [if_neg h1, if_pos h2, ServerFrame.bytes]
    rfl
  · have hvalue : BigEndian.value (BigEndian.bytes 8 payload.length) = payload.length :=
      BigEndian.value_bytes (by omega)
    refine ⟨⟨opcode, payload, 127 :: BigEndian.bytes 8 payload.length,
      .eight (by omega) (BigEndian.bytes_length 8 _) hvalue, hsmall⟩, rfl, ?_⟩
    rw [if_neg h1, if_neg h2, ServerFrame.bytes]
    rfl

/-- Legal frames, with no Close but the last, and no Close at all unless one was sent. -/
def LegalOutput (out : Bytes) (closeSent : Bool) : Prop :=
  ∃ frames : List ServerFrame, out = frames.flatMap ServerFrame.bytes ∧
    (∀ f ∈ frames.dropLast, f.opcode ≠ .close) ∧ (closeSent = false → ∀ f ∈ frames, f.opcode ≠ .close)

theorem legalOutput_nil : LegalOutput [] false := by
  refine ⟨[], rfl, fun f hf => ?_, fun _ f hf => ?_⟩ <;> cases hf

namespace LegalOutput
variable {out : Bytes}

theorem sent (h : LegalOutput out false) : LegalOutput out true := by
  obtain ⟨frames, hout, hlast, -⟩ := h
  exact ⟨frames, hout, hlast, fun h => by cases h⟩

theorem append {opcode : Opcode} {payload : Bytes} {closeSent : Bool} (h : LegalOutput out false)
    (hclose : opcode = .close → closeSent = true)
    (hsmall : isControlOpcode opcode = true → payload.length ≤ 125)
    (hlen : payload.length < 2 ^ 64) :
    LegalOutput (out ++ Session.wire opcode payload) closeSent := by
  obtain ⟨frames, rfl, -, hnone⟩ := h
  obtain ⟨g, hop, hbytes⟩ := exists_serverFrame hsmall hlen
  refine ⟨frames ++ [g], ?_, ?_, fun hsent f hf => ?_⟩
  · rw [List.flatMap_append, List.flatMap_singleton, hbytes]
  · rw [List.dropLast_concat]
    exact hnone rfl
  · rcases List.mem_append.mp hf with hf | hf
    · exact hnone rfl f hf
    · rw [List.mem_singleton.mp hf, hop]
      intro hc
      rw [hclose hc] at hsent
      cases hsent

end LegalOutput

/-! ### Frames the parser lets through -/

/-- A parsed frame is within the maximum, and a control frame is small. -/
structure Within (maxPayloadBytes : ℕ) (frame : Frame) : Prop where
  within : frame.payload.length ≤ maxPayloadBytes
  small : isControlOpcode frame.opcode = true → frame.payload.length ≤ 125

theorem readBody_within {maxPayloadBytes : ℕ} {fin masked : Bool} {opcode : Opcode} {len7 : ℕ}
    {u r : Bytes} {frame : Frame}
    (h : (readBody maxPayloadBytes fin masked opcode len7).run u = .done (frame, r)) :
    Within maxPayloadBytes frame := by
  obtain ⟨n, v₁, -, h⟩ := Reader.of_bind h
  obtain ⟨_, v₂, hcheck, h⟩ := Reader.of_bind h
  obtain ⟨maskKey, v₃, -, h⟩ := Reader.of_bind h
  obtain ⟨payload, v₄, htake, h⟩ := Reader.of_bind h
  obtain ⟨-, hlen⟩ := Reader.of_take htake
  rw [Reader.run_pure, Outcome.done.injEq, Prod.mk.injEq] at h
  obtain ⟨rfl, -⟩ := h
  obtain ⟨_, w₁, -, hcheck⟩ := Reader.of_bind hcheck
  obtain ⟨_, w₂, hsmall, hcheck⟩ := Reader.of_bind hcheck
  have hpayload : (if masked then applyMask maskKey payload else payload).length = n := by
    split
    · rw [applyMask_length, hlen]
    · exact hlen
  exact ⟨by rw [hpayload]; exact (Reader.of_require hcheck).1,
    fun hop => by rw [hpayload]; exact (Reader.of_require hsmall).1 hop⟩

theorem readFrame_within {maxPayloadBytes : ℕ} {u r : Bytes} {frame : Frame}
    (h : (readFrame maxPayloadBytes).run u = .done (frame, r)) : Within maxPayloadBytes frame := by
  obtain ⟨v, w, -, h⟩ := Reader.of_bind h
  obtain ⟨_, w', -, h⟩ := Reader.of_bind h
  split at h
  · cases h
  · exact readBody_within h

/-! ### Every call -/

namespace Session

/-- What holds of a session and of all it has sent so far, `taken` of it taken out. -/
structure Sends (maxMessageBytes : ℕ) (taken : Bytes) (s : Session) : Prop where
  max : s.maxMessageBytes = maxMessageBytes
  data : s.fragmentOpcode = .text ∨ s.fragmentOpcode = .binary
  output : LegalOutput (taken ++ s.output) s.closeSent

section Sends
variable {maxMessageBytes : ℕ} {taken : Bytes} {s s' : Session}

/-- A frame that is small or data within the maximum, on a session that has sent no Close. -/
theorem Sends.frame (hbound : maxMessageBytes < 2 ^ 64) (h : Sends maxMessageBytes taken s)
    (hsent : s.closeSent = false) {opcode : Opcode} {payload : Bytes} {closeSent : Bool}
    (hclose : opcode = .close → closeSent = true)
    (hlen : payload.length ≤ 125 ∨
      (opcode = .text ∨ opcode = .binary) ∧ payload.length ≤ maxMessageBytes) :
    LegalOutput (taken ++ (s.output ++ wire opcode payload)) closeSent := by
  have hout := h.output
  rw [hsent] at hout
  rw [← List.append_assoc]
  refine hout.append hclose (fun hcontrol => ?_) (by omega)
  rcases hlen with hlen | ⟨rfl | rfl, -⟩
  · exact hlen
  · exact absurd hcontrol (by decide)
  · exact absurd hcontrol (by decide)

theorem Sends.fail (hbound : maxMessageBytes < 2 ^ 64) (h : Sends maxMessageBytes taken s)
    (code : ℕ) (reason : Bytes) : Sends maxMessageBytes taken (s.failConnection code reason) := by
  cases he : s.protocolError with
  | true =>
    rw [failConnection_of_error he]
    exact h
  | false =>
    rw [failConnection_eq he]
    refine ⟨h.max, h.data, ?_⟩
    cases hsent : s.closeSent with
    | true =>
      have hout := h.output
      rw [hsent] at hout
      exact hout
    | false =>
      exact h.frame hbound hsent (fun _ => rfl) (Or.inl (failurePayload_length code reason))

theorem Outcome.sends (hbound : maxMessageBytes < 2 ^ 64) {frame : Frame}
    (hframe : Within maxMessageBytes frame) (hc : s.Coherent) (h : Sends maxMessageBytes taken s)
    (hout : Outcome s frame s') : Sends maxMessageBytes taken s' := by
  have hmax := h.max
  cases hout with
  | ignored => exact h
  | failed received code reason =>
    have hreceived : Sends maxMessageBytes taken
        { s with closeReceived := s.closeReceived || received } := ⟨h.max, h.data, h.output⟩
    exact hreceived.fail hbound code reason
  | answered hs hop =>
    have hsmall := hframe.small (by rw [hop]; decide)
    have hsent := hc.established.mp hs
    exact ⟨h.max, h.data, h.frame hbound hsent (fun hop => by cases hop) (Or.inl hsmall)⟩
  | echoed hs _ hop =>
    have hsent := hc.established.mp hs
    refine ⟨h.max, h.data, h.frame hbound hsent ?_ (Or.inr ⟨hop, hframe.within⟩)⟩
    rcases hop with hop | hop <;> rw [hop] <;> simp
  | started hs hop => exact ⟨h.max, hop, h.output⟩
  | extended hs _ hlen => exact ⟨h.max, h.data, h.output⟩
  | assembled hs _ hlen =>
    have hsent := hc.established.mp hs
    refine ⟨h.max, h.data, h.frame hbound hsent ?_ (Or.inr ⟨h.data, ?_⟩)⟩
    · rcases h.data with hop | hop <;> rw [hop] <;> simp
    · rw [List.length_append]
      omega
  | closed hs hop =>
    have hsmall := hframe.small (by rw [hop]; decide)
    have hsent := hc.established.mp hs
    exact ⟨h.max, h.data, h.frame hbound hsent (fun _ => rfl) (Or.inl hsmall)⟩
  | acknowledged hs _ =>
    have hout := h.output
    rw [hc.sent hs] at hout
    exact ⟨h.max, h.data, hout⟩

theorem Sends.initiateClose (hbound : maxMessageBytes < 2 ^ 64)
    (h : Sends maxMessageBytes taken s) (code : ℕ) :
    Sends maxMessageBytes taken (s.initiateClose code) := by
  unfold Session.initiateClose
  split
  · exact h
  · rename_i hopen
    have hsent : s.closeSent = false := by
      rw [not_or] at hopen
      simpa using hopen.2
    refine ⟨h.max, h.data, h.frame hbound hsent (fun _ => rfl) (Or.inl ?_)⟩
    simp [appendCloseCode]

theorem Sends.maybeQueuePing (hbound : maxMessageBytes < 2 ^ 64) (hc : s.Coherent)
    (h : Sends maxMessageBytes taken s) (pingIntervalMs now : ℕ) :
    Sends maxMessageBytes taken (s.maybeQueuePing pingIntervalMs now).2 := by
  unfold Session.maybeQueuePing
  split
  · exact h
  · rename_i hopen
    split
    · exact h
    · have hs : s.state = .established := by
        rw [not_or] at hopen
        simpa using hopen.2
      have hsent := hc.established.mp hs
      exact ⟨h.max, h.data, h.frame hbound hsent (fun hop => by cases hop) (Or.inl (by simp))⟩

end Sends

section Coherent
variable {s : Session}

theorem Coherent.initiateClose (h : s.Coherent) (code : ℕ) : (s.initiateClose code).Coherent := by
  unfold Session.initiateClose
  split
  · exact h
  · exact Coherent.of_sent rfl (by simp) (fun hclosed => by cases hclosed)

theorem Coherent.maybeQueuePing (h : s.Coherent) (pingIntervalMs now : ℕ) :
    (s.maybeQueuePing pingIntervalMs now).2.Coherent := by
  unfold Session.maybeQueuePing
  split
  · exact h
  · split
    · exact h
    · exact h.of_eq rfl rfl rfl rfl

end Coherent
end Session

namespace WebSocketConnection
open Session

/-- The calls of a session's user. -/
inductive Call where
  | feed (data : Bytes)
  | initiateClose (code : ℕ)
  | maybeQueuePing (pingIntervalMs now : ℕ)
  | takeOutput
  deriving DecidableEq

/-- One call, with all that was taken out so far. -/
def call (x : WebSocketConnection × Bytes) : Call → WebSocketConnection × Bytes
  | .feed data => (x.1.feed data, x.2)
  | .initiateClose code => (x.1.initiateClose code, x.2)
  | .maybeQueuePing pingIntervalMs now => ((x.1.maybeQueuePing pingIntervalMs now).2, x.2)
  | .takeOutput => (x.1.takeOutput.2, x.2 ++ x.1.takeOutput.1)

def runCalls (c : WebSocketConnection) (calls : List Call) : WebSocketConnection × Bytes :=
  calls.foldl call (c, [])

/-- What holds between two calls. -/
structure Sound (maxMessageBytes : ℕ) (x : WebSocketConnection × Bytes) : Prop where
  limit : x.1.parser.maxPayloadBytes = maxMessageBytes
  coherent : x.1.session.Coherent
  sends : Sends maxMessageBytes x.2 x.1.session

section calls
variable {maxMessageBytes : ℕ} {x : WebSocketConnection × Bytes}

theorem Sound.call (hbound : maxMessageBytes < 2 ^ 64) (h : Sound maxMessageBytes x) (k : Call) :
    Sound maxMessageBytes (WebSocketConnection.call x k) := by
  cases k with
  | feed data =>
    obtain ⟨⟨hc, hs⟩, hlimit⟩ := feed_preserves
      (P := fun s => s.Coherent ∧ Sends maxMessageBytes x.2 s)
      (fun s u frame r hP hr => ⟨hP.1.processFrame frame,
        (processFrame_cases hP.1 frame).sends hbound (readFrame_within hr) hP.1 hP.2⟩)
      (fun s e hP => ⟨hP.1.reportError e, hP.2.fail hbound _ _⟩) h.limit ⟨h.coherent, h.sends⟩ data
    exact ⟨hlimit, hc, hs⟩
  | initiateClose code =>
    exact ⟨h.limit, h.coherent.initiateClose code, h.sends.initiateClose hbound code⟩
  | maybeQueuePing pingIntervalMs now =>
    exact ⟨h.limit, h.coherent.maybeQueuePing pingIntervalMs now,
      h.sends.maybeQueuePing hbound h.coherent pingIntervalMs now⟩
  | takeOutput =>
    refine ⟨h.limit, h.coherent.of_eq rfl rfl rfl rfl, h.sends.max, h.sends.data, ?_⟩
    have hout := h.sends.output
    rw [← List.append_nil (x.2 ++ x.1.session.output)] at hout
    exact hout

theorem Sound.calls (hbound : maxMessageBytes < 2 ^ 64) (h : Sound maxMessageBytes x)
    (calls : List Call) : Sound maxMessageBytes (calls.foldl WebSocketConnection.call x) := by
  induction calls generalizing x with
  | nil => exact h
  | cons k calls ih => exact ih (h.call hbound k)

end calls

/-- **What a session sends is legal.** All output of any sequence of calls, taken out or
still pending, is a sequence of whole, unmasked server frames in minimal encoding, control
frames of at most 125 bytes, with no Close before the last. -/
theorem output_legal (maxMessageBytes now : ℕ) (hbound : maxMessageBytes < 2 ^ 64)
    (calls : List Call) :
    let (c, taken) := runCalls (fresh maxMessageBytes now) calls
    ∃ frames : List ServerFrame, taken ++ c.session.output = frames.flatMap ServerFrame.bytes ∧
      ∀ f ∈ frames.dropLast, f.opcode ≠ .close := by
  have hfresh : Sound maxMessageBytes (fresh maxMessageBytes now, []) :=
    ⟨rfl, Coherent.fresh maxMessageBytes now, rfl, Or.inl rfl, legalOutput_nil⟩
  obtain ⟨frames, hout, hlast, -⟩ := (hfresh.calls hbound calls).sends.output
  exact ⟨frames, hout, hlast⟩

/-- A ping, a shutdown, and a message that comes too late. -/
theorem output_legal_shutdown :
    let (c, taken) := runCalls (fresh 8 0) [.maybeQueuePing 1 1000000, .takeOutput,
      .initiateClose 1001, .feed [0x81, 0x81, 0, 0, 0, 0, 0x68]]
    taken ++ c.session.output = [0x89, 0, 0x88, 2, 3, 0xE9] ∧
      ∃ frames : List ServerFrame, taken ++ c.session.output = frames.flatMap ServerFrame.bytes ∧
        ∀ f ∈ frames.dropLast, f.opcode ≠ .close :=
  ⟨by decide, output_legal 8 0 (by decide) [.maybeQueuePing 1 1000000, .takeOutput,
    .initiateClose 1001, .feed [0x81, 0x81, 0, 0, 0, 0, 0x68]]⟩

end WebSocketConnection
end Aevrix.Ws
