import Aevrix.Ws.SessionSegmentation

/-!
# What a conforming peer gets

`replies` says what the session owes for a sequence of frames: a Pong for every Ping, an
echo for every completed message, the Close. For a conforming sequence (`Conforming`) that
is what it sends, however the encoded frames are cut (`conforming_answered`).
-/

namespace Aevrix.Ws
open Incremental

/-- The codes that may stand in a Close frame. -/
def CloseCode (code : ℕ) : Prop := 1000 ≤ code ∧ code ≤ 4999 ∧ code ∉ [1004, 1005, 1006, 1015]

/-- An empty payload, or a code and a reason (of any bytes). -/
def ValidClose (payload : Bytes) : Prop :=
  payload = [] ∨ ∃ code reason, CloseCode code ∧ payload = BigEndian.bytes 2 code ++ reason

def IsData (opcode : Opcode) : Prop := opcode = .text ∨ opcode = .binary

theorem IsData.not_control {opcode : Opcode} (h : IsData opcode) : isControlOpcode opcode = false := by
  rcases h with rfl | rfl <;> decide

/-- A message the session takes: within the maximum, and UTF-8 if it is text. -/
structure Message (maxMessageBytes : ℕ) (opcode : Opcode) (payload : Bytes) : Prop where
  string : payload.length < 2 ^ 63
  within : payload.length ≤ maxMessageBytes
  text : opcode = .text → IsUtf8 payload

/-- Legal sequences of frames, behind the first frames of a message (its opcode and the
payload so far) or between messages. -/
inductive Conforming (maxMessageBytes : ℕ) : Option (Opcode × Bytes) → List SentFrame → Prop
  | nil (message : Option (Opcode × Bytes)) : Conforming maxMessageBytes message []
  | ping {message f fs} (hop : f.opcode = .ping) (rest : Conforming maxMessageBytes message fs) :
      Conforming maxMessageBytes message (f :: fs)
  | pong {message f fs} (hop : f.opcode = .pong) (rest : Conforming maxMessageBytes message fs) :
      Conforming maxMessageBytes message (f :: fs)
  | close {message f} (hop : f.opcode = .close) (hpayload : ValidClose f.payload) :
      Conforming maxMessageBytes message [f]
  | whole {f fs} (hop : IsData f.opcode) (hfin : f.fin = true)
      (hmessage : Message maxMessageBytes f.opcode f.payload)
      (rest : Conforming maxMessageBytes none fs) : Conforming maxMessageBytes none (f :: fs)
  | first {f fs} (hop : IsData f.opcode) (hfin : f.fin = false)
      (rest : Conforming maxMessageBytes (some (f.opcode, f.payload)) fs) :
      Conforming maxMessageBytes none (f :: fs)
  | middle {opcode parts f fs} (hop : f.opcode = .continuation) (hfin : f.fin = false)
      (hlen : (parts ++ f.payload).length ≤ maxMessageBytes)
      (rest : Conforming maxMessageBytes (some (opcode, parts ++ f.payload)) fs) :
      Conforming maxMessageBytes (some (opcode, parts)) (f :: fs)
  | last {opcode parts f fs} (hop : f.opcode = .continuation) (hfin : f.fin = true)
      (hmessage : Message maxMessageBytes opcode (parts ++ f.payload))
      (rest : Conforming maxMessageBytes none fs) :
      Conforming maxMessageBytes (some (opcode, parts)) (f :: fs)

/-- A frame as the server sends it: whole and not masked. -/
def serverFrame (opcode : Opcode) (payload : Bytes) : SentFrame where
  opcode := opcode
  payload := payload
  fin := true
  mask := false
  maskKey := noMaskKey

/-- What is owed for the frames, behind the first frames of a message or between messages. -/
def replies : Option (Opcode × Bytes) → List SentFrame → List SentFrame
  | _, [] => []
  | message, f :: fs => match f.opcode, message with
    | .ping, message => serverFrame .pong f.payload :: replies message fs
    | .pong, message => replies message fs
    | .close, _ => [serverFrame .close f.payload]
    | .text, _ | .binary, _ =>
      if f.fin then serverFrame f.opcode f.payload :: replies none fs
      else replies (some (f.opcode, f.payload)) fs
    | .continuation, some (opcode, parts) =>
      if f.fin then serverFrame opcode (parts ++ f.payload) :: replies none fs
      else replies (some (opcode, parts ++ f.payload)) fs
    | .continuation, none => replies none fs

theorem validClose_code {code : ℕ} (h : CloseCode code) (reason : Bytes) :
    validCloseCode (readCloseCode (BigEndian.bytes 2 code ++ reason)) = true := by
  obtain ⟨hlow, hhigh, hnot⟩ := h
  have hcode : readCloseCode (BigEndian.bytes 2 code ++ reason) = code := by
    rw [readCloseCode, List.take_left' (BigEndian.bytes_length 2 code)]
    exact BigEndian.value_bytes (by omega)
  simp only [List.mem_cons, List.not_mem_nil, or_false, not_or] at hnot
  rw [hcode, validCloseCode, if_neg (by omega)]
  simp [hnot]

namespace Session

/-- An established session behind the first frames of a message, or between messages. -/
structure Awaits (s : Session) (maxMessageBytes : ℕ) (message : Option (Opcode × Bytes)) :
    Prop where
  max : s.maxMessageBytes = maxMessageBytes
  state : s.state = .established
  received : s.closeReceived = false
  error : s.protocolError = false
  progress : s.fragmentInProgress = message.isSome
  fragment : ∀ p ∈ message, s.fragmentOpcode = p.1 ∧ s.fragmentPayload = p.2

section frames
variable {maxMessageBytes : ℕ} {s : Session} {message : Option (Opcode × Bytes)} {f : SentFrame}

theorem processFrame_open (h : s.Awaits maxMessageBytes message) (hmask : f.mask = true) :
    s.processFrame f.frame = match f.opcode with
      | .close => s.handleClosePayload f.payload
      | .ping => s.queueFrame .pong f.payload
      | .pong => s
      | .text | .binary => s.startMessage f.frame
      | .continuation => s.continueMessage f.frame := by
  rw [processFrame, if_neg (by simp [SentFrame.frame, hmask]), if_neg (by simp [h.state])]
  rfl

theorem deliverMessage_of_message {opcode : Opcode} {payload : Bytes}
    (h : Message maxMessageBytes opcode payload) :
    s.deliverMessage opcode payload = s.queueFrame opcode payload := by
  refine if_neg ?_
  rintro ⟨htext, hutf8⟩
  rw [(validUtf8_iff payload).mpr (h.text htext)] at hutf8
  cases hutf8

theorem startMessage_whole (h : s.Awaits maxMessageBytes none) (hfin : f.fin = true)
    (hmessage : Message maxMessageBytes f.opcode f.payload) :
    s.startMessage f.frame = s.queueFrame f.opcode f.payload := by
  have hprogress : s.fragmentInProgress = false := h.progress
  rw [startMessage, if_neg (by rw [hprogress]; exact Bool.false_ne_true),
    if_pos (show f.frame.fin = true from hfin)]
  exact deliverMessage_of_message hmessage

theorem startMessage_first (h : s.Awaits maxMessageBytes none) (hfin : f.fin = false) :
    s.startMessage f.frame = { s with
      fragmentInProgress := true, fragmentOpcode := f.opcode, fragmentPayload := f.payload } := by
  have hprogress : s.fragmentInProgress = false := h.progress
  rw [startMessage, if_neg (by rw [hprogress]; exact Bool.false_ne_true),
    if_neg (by simp [SentFrame.frame, hfin])]
  rfl

section continuation
variable {opcode : Opcode} {parts : Bytes}

theorem continueMessage_middle (h : s.Awaits maxMessageBytes (some (opcode, parts)))
    (hfin : f.fin = false) (hlen : (parts ++ f.payload).length ≤ maxMessageBytes) :
    s.continueMessage f.frame = { s with fragmentPayload := parts ++ f.payload } := by
  have hprogress : s.fragmentInProgress = true := h.progress
  obtain ⟨-, hparts⟩ := h.fragment (opcode, parts) rfl
  rw [List.length_append] at hlen
  rw [continueMessage, if_neg (by rw [hprogress]; exact Bool.true_eq_false.mp),
    if_neg (by rw [h.max, hparts]; exact Nat.not_lt.mpr hlen)]
  simp only [SentFrame.frame, hfin, Bool.false_eq_true, if_false, hparts]

theorem continueMessage_last (h : s.Awaits maxMessageBytes (some (opcode, parts)))
    (hfin : f.fin = true) (hmessage : Message maxMessageBytes opcode (parts ++ f.payload)) :
    s.continueMessage f.frame = { s.queueFrame opcode (parts ++ f.payload) with
      fragmentInProgress := false, fragmentPayload := [] } := by
  have hprogress : s.fragmentInProgress = true := h.progress
  have hopcode : s.fragmentOpcode = opcode := (h.fragment (opcode, parts) rfl).1
  have hparts : s.fragmentPayload = parts := (h.fragment (opcode, parts) rfl).2
  subst hopcode hparts
  have hlen := hmessage.within
  rw [List.length_append] at hlen
  rw [continueMessage, if_neg (by rw [hprogress]; exact Bool.true_eq_false.mp),
    if_neg (by rw [h.max]; exact Nat.not_lt.mpr hlen)]
  simp only [SentFrame.frame, hfin, if_true]
  rw [deliverMessage_of_message hmessage]
  rfl

end continuation

theorem handleClosePayload_valid (h : s.Awaits maxMessageBytes message) {payload : Bytes}
    (hpayload : ValidClose payload) : s.handleClosePayload payload =
      { s.queueFrame .close payload with
        closeSent := true, closeReceived := true, state := .closed } := by
  have hlen : payload.length ≠ 1 := by
    rcases hpayload with rfl | ⟨code, reason, -, rfl⟩
    · simp
    · rw [List.length_append, BigEndian.bytes_length]
      omega
  have hcode : ¬(payload.length ≥ 2 ∧ validCloseCode (readCloseCode payload) = false) := by
    rcases hpayload with rfl | ⟨code, reason, hcode, rfl⟩
    · simp
    · simp [validClose_code hcode reason]
  rw [handleClosePayload]
  simp only [if_neg hlen, if_neg hcode, acceptClose, h.state, queueFrame, if_true, Bool.and_self]

end frames

/-! ### The whole sequence -/

def closes (fs : List SentFrame) : Bool := fs.any fun f => decide (f.opcode = .close)

section run
variable {maxMessageBytes : ℕ} {s : Session} {message : Option (Opcode × Bytes)} {f : SentFrame}

theorem drain_frame (h : s.Awaits maxMessageBytes message) (hlegal : f.Legal maxMessageBytes)
    (x : Bytes) : (machine maxMessageBytes).drain s (f.bytes ++ x) =
      (machine maxMessageBytes).drain (s.processFrame f.frame) x := by
  have hlive : s.live = true := by simp [live, h.state, h.error]
  exact Machine.drain_some (Reader.machine_step_done hlive (readFrame_encode hlegal x))

/-- What the session owes for the frames is what it has sent when it is through with them. -/
def Answered (maxMessageBytes : ℕ) (s : Session) (message : Option (Opcode × Bytes))
    (fs : List SentFrame) : Prop :=
  ∃ s', (machine maxMessageBytes).drain s (fs.flatMap SentFrame.bytes) = (s', []) ∧
    s'.output = s.output ++ (replies message fs).flatMap SentFrame.bytes ∧
    s'.protocolError = false ∧ s'.closeReceived = closes fs ∧
    s'.state = if closes fs then .closed else .established

theorem Answered.cons (next : Option (Opcode × Bytes)) {fs : List SentFrame}
    (h : s.Awaits maxMessageBytes message) (hlegal : f.Legal maxMessageBytes)
    (hop : f.opcode ≠ .close) (sent : List SentFrame)
    (hreplies : replies message (f :: fs) = sent ++ replies next fs)
    (hsent : (s.processFrame f.frame).output = s.output ++ sent.flatMap SentFrame.bytes)
    (rest : Answered maxMessageBytes (s.processFrame f.frame) next fs) :
    Answered maxMessageBytes s message (f :: fs) := by
  obtain ⟨s', hdrain, hout, hflags⟩ := rest
  have hcloses : closes (f :: fs) = closes fs := by
    rw [closes, List.any_cons, decide_eq_false hop, Bool.false_or]
    rfl
  rw [Answered, hcloses]
  refine ⟨s', ?_, ?_, hflags⟩
  · rw [List.flatMap_cons, drain_frame h hlegal, hdrain]
  · rw [hout, hsent, hreplies, List.flatMap_append, List.append_assoc]

theorem answered_of_conforming {fs : List SentFrame} (hconf : Conforming maxMessageBytes message fs)
    (hmask : ∀ f ∈ fs, f.mask = true) (hlegal : ∀ f ∈ fs, f.Legal maxMessageBytes)
    (h : s.Awaits maxMessageBytes message) : Answered maxMessageBytes s message fs := by
  induction hconf generalizing s with
  | nil message =>
    refine ⟨s, Machine.drain_none ?_, by rw [replies, List.flatMap_nil, List.append_nil], h.error,
      h.received, h.state⟩
    exact Reader.machine_step_needMore
      (Reader.run_bind_needMore (Reader.run_take_short (by decide)) _)
  | @ping message f fs hop rest ih =>
    obtain ⟨hmf, hmfs⟩ := List.forall_mem_cons.mp hmask
    obtain ⟨hlf, hlfs⟩ := List.forall_mem_cons.mp hlegal
    have hstep : s.processFrame f.frame = s.queueFrame .pong f.payload := by
      rw [processFrame_open h hmf, hop]
    refine Answered.cons message h hlf (by rw [hop]; simp)
      [serverFrame .pong f.payload] (by simp [replies, hop]) (by rw [hstep, List.flatMap_singleton]; rfl) ?_
    rw [hstep]
    exact ih hmfs hlfs ⟨h.max, h.state, h.received, h.error, h.progress, h.fragment⟩
  | @pong message f fs hop rest ih =>
    obtain ⟨hmf, hmfs⟩ := List.forall_mem_cons.mp hmask
    obtain ⟨hlf, hlfs⟩ := List.forall_mem_cons.mp hlegal
    have hstep : s.processFrame f.frame = s := by
      rw [processFrame_open h hmf, hop]
    refine Answered.cons message h hlf (by rw [hop]; simp) [] (by simp [replies, hop])
      (by rw [hstep, List.flatMap_nil, List.append_nil]) ?_
    rw [hstep]
    exact ih hmfs hlfs h
  | @close message f hop hpayload =>
    have hmf := hmask f (List.mem_singleton_self f)
    have hlf := hlegal f (List.mem_singleton_self f)
    have hstep := processFrame_open h hmf
    rw [hop] at hstep
    refine ⟨s.processFrame f.frame, ?_, ?_, ?_, ?_, ?_⟩
    · rw [List.flatMap_singleton, ← List.append_nil f.bytes, drain_frame h hlf]
      refine Machine.drain_none (Reader.machine_step_needMore ?_)
      exact Reader.run_bind_needMore (Reader.run_take_short (by decide)) _
    all_goals
      rw [hstep]
      simp only [handleClosePayload_valid h hpayload, replies, hop, closes, List.any_cons,
        List.any_nil, decide_true, Bool.true_or, if_true]
    · rw [List.flatMap_singleton]
      rfl
    · exact h.error
  | @whole f fs hop hfin hmessage rest ih =>
    obtain ⟨hmf, hmfs⟩ := List.forall_mem_cons.mp hmask
    obtain ⟨hlf, hlfs⟩ := List.forall_mem_cons.mp hlegal
    have hstep : s.processFrame f.frame = s.queueFrame f.opcode f.payload := by
      rw [processFrame_open h hmf, ← startMessage_whole h hfin hmessage]
      rcases hop with hop | hop <;> rw [hop]
    refine Answered.cons none h hlf (by rcases hop with hop | hop <;> rw [hop] <;> simp)
      [serverFrame f.opcode f.payload]
      (by rcases hop with hop | hop <;> simp [replies, hop, hfin])
      (by rw [hstep, List.flatMap_singleton]; rfl) ?_
    rw [hstep]
    exact ih hmfs hlfs ⟨h.max, h.state, h.received, h.error, h.progress, h.fragment⟩
  | @first f fs hop hfin rest ih =>
    obtain ⟨hmf, hmfs⟩ := List.forall_mem_cons.mp hmask
    obtain ⟨hlf, hlfs⟩ := List.forall_mem_cons.mp hlegal
    have hstep : s.processFrame f.frame = { s with
        fragmentInProgress := true, fragmentOpcode := f.opcode, fragmentPayload := f.payload } := by
      rw [processFrame_open h hmf, ← startMessage_first h hfin]
      rcases hop with hop | hop <;> rw [hop]
    refine Answered.cons (some (f.opcode, f.payload)) h hlf
      (by rcases hop with hop | hop <;> rw [hop] <;> simp) []
      (by rcases hop with hop | hop <;> simp [replies, hop, hfin])
      (by rw [hstep, List.flatMap_nil, List.append_nil]) ?_
    rw [hstep]
    refine ih hmfs hlfs ⟨h.max, h.state, h.received, h.error, rfl, ?_⟩
    rintro p ⟨⟩
    exact ⟨rfl, rfl⟩
  | @middle opcode parts f fs hop hfin hlen rest ih =>
    obtain ⟨hmf, hmfs⟩ := List.forall_mem_cons.mp hmask
    obtain ⟨hlf, hlfs⟩ := List.forall_mem_cons.mp hlegal
    have hstep : s.processFrame f.frame = { s with fragmentPayload := parts ++ f.payload } := by
      rw [processFrame_open h hmf, hop]
      exact continueMessage_middle h hfin hlen
    refine Answered.cons (some (opcode, parts ++ f.payload)) h hlf
      (by rw [hop]; simp) [] (by simp [replies, hop, hfin])
      (by rw [hstep, List.flatMap_nil, List.append_nil]) ?_
    rw [hstep]
    refine ih hmfs hlfs ⟨h.max, h.state, h.received, h.error, h.progress, ?_⟩
    rintro p ⟨⟩
    exact ⟨(h.fragment (opcode, parts) rfl).1, rfl⟩
  | @last opcode parts f fs hop hfin hmessage rest ih =>
    obtain ⟨hmf, hmfs⟩ := List.forall_mem_cons.mp hmask
    obtain ⟨hlf, hlfs⟩ := List.forall_mem_cons.mp hlegal
    have hstep : s.processFrame f.frame = { s.queueFrame opcode (parts ++ f.payload) with
        fragmentInProgress := false, fragmentPayload := [] } := by
      rw [processFrame_open h hmf, hop]
      exact continueMessage_last h hfin hmessage
    refine Answered.cons none h hlf (by rw [hop]; simp)
      [serverFrame opcode (parts ++ f.payload)] (by simp [replies, hop, hfin])
      (by rw [hstep, List.flatMap_singleton]; rfl) ?_
    rw [hstep]
    exact ih hmfs hlfs ⟨h.max, h.state, h.received, h.error, rfl, fun p hp => by cases hp⟩

end run
end Session

/-! ### The replies, decoded -/

section replies
variable {maxMessageBytes : ℕ} {message : Option (Opcode × Bytes)} {fs : List SentFrame}

theorem legal_serverFrame {f : SentFrame} (hlegal : f.Legal maxMessageBytes)
    (hop : isControlOpcode f.opcode = true) (opcode : Opcode) :
    (serverFrame opcode f.payload).Legal maxMessageBytes where
  string := hlegal.string
  within := hlegal.within
  control _ := ⟨rfl, (hlegal.control hop).2⟩

theorem Message.legal {opcode : Opcode} {payload : Bytes} (hop : IsData opcode)
    (h : Message maxMessageBytes opcode payload) :
    (serverFrame opcode payload).Legal maxMessageBytes where
  string := h.string
  within := h.within
  control hcontrol := (Bool.false_ne_true (hop.not_control.symm.trans hcontrol)).elim

theorem legal_replies (hconf : Conforming maxMessageBytes message fs)
    (hlegal : ∀ f ∈ fs, f.Legal maxMessageBytes) (hmessage : ∀ p ∈ message, IsData p.1) :
    ∀ g ∈ replies message fs, g.Legal maxMessageBytes := by
  induction hconf with
  | nil message =>
    intro g hg
    rw [replies] at hg
    cases hg
  | @ping message f fs hop rest ih =>
    obtain ⟨hf, hfs⟩ := List.forall_mem_cons.mp hlegal
    simp only [replies, hop]
    exact List.forall_mem_cons.mpr ⟨legal_serverFrame hf (by rw [hop]; rfl) .pong, ih hfs hmessage⟩
  | @pong message f fs hop rest ih =>
    simp only [replies, hop]
    exact ih (List.forall_mem_cons.mp hlegal).2 hmessage
  | @close message f hop hpayload =>
    have hf := hlegal f (List.mem_singleton_self f)
    simp only [replies, hop]
    exact List.forall_mem_singleton.mpr (legal_serverFrame hf (by rw [hop]; rfl) .close)
  | @whole f fs hop hfin hmsg rest ih =>
    have hreplies : replies none (f :: fs) = serverFrame f.opcode f.payload :: replies none fs := by
      rcases hop with hop | hop <;> simp [replies, hop, hfin]
    rw [hreplies]
    exact List.forall_mem_cons.mpr
      ⟨hmsg.legal hop, ih (List.forall_mem_cons.mp hlegal).2 hmessage⟩
  | @first f fs hop hfin rest ih =>
    have hreplies : replies none (f :: fs) = replies (some (f.opcode, f.payload)) fs := by
      rcases hop with hop | hop <;> simp [replies, hop, hfin]
    rw [hreplies]
    refine ih (List.forall_mem_cons.mp hlegal).2 ?_
    rintro p ⟨⟩
    exact hop
  | @middle opcode parts f fs hop hfin hlen rest ih =>
    have hreplies : replies (some (opcode, parts)) (f :: fs) =
        replies (some (opcode, parts ++ f.payload)) fs := by
      simp [replies, hop, hfin]
    rw [hreplies]
    refine ih (List.forall_mem_cons.mp hlegal).2 ?_
    rintro p ⟨⟩
    exact hmessage (opcode, parts) rfl
  | @last opcode parts f fs hop hfin hmsg rest ih =>
    have hreplies : replies (some (opcode, parts)) (f :: fs) =
        serverFrame opcode (parts ++ f.payload) :: replies none fs := by
      simp [replies, hop, hfin]
    rw [hreplies]
    exact List.forall_mem_cons.mpr ⟨hmsg.legal (hmessage (opcode, parts) rfl),
      ih (List.forall_mem_cons.mp hlegal).2 (fun p hp => by cases hp)⟩

end replies

namespace WebSocketConnection
open Session

/-- **A conforming peer is answered.** For every conforming sequence of masked frames and
every cut of its encoding, the output is one Pong for each Ping, one echo for each completed
message and the Close, in the order of completion, and decodes to just that; no violation is
reported, and the session is Closed if a Close came and Established otherwise. -/
theorem conforming_answered (maxMessageBytes now : ℕ) (fs : List SentFrame)
    (hmask : ∀ f ∈ fs, f.mask = true) (hlegal : ∀ f ∈ fs, f.Legal maxMessageBytes)
    (hconf : Conforming maxMessageBytes none fs) (ds : List Bytes)
    (hds : ds.flatten = fs.flatMap SentFrame.bytes) :
    let s := (feedAll (fresh maxMessageBytes now) ds).session
    s.output = (replies none fs).flatMap SentFrame.bytes ∧
    FrameParser.feedAll { maxPayloadBytes := maxMessageBytes } [s.output] =
      ((replies none fs).map SentFrame.frame, { maxPayloadBytes := maxMessageBytes }) ∧
    s.protocolError = false ∧ s.closeReceived = closes fs ∧
    s.state = if closes fs then .closed else .established := by
  intro s
  have hc := Coherent.fresh maxMessageBytes now
  obtain ⟨s', hdrain, hout, herror, hreceived, hstate⟩ := answered_of_conforming hconf hmask hlegal
    (s := (fresh maxMessageBytes now).session) ⟨rfl, rfl, rfl, rfl, rfl, fun p hp => by cases hp⟩
  have hnil : (machine maxMessageBytes).drain (fresh maxMessageBytes now).session [] =
      ((fresh maxMessageBytes now).session, []) :=
    Machine.drain_none (Reader.machine_step_needMore
      (Reader.run_bind_needMore (Reader.run_take_short (by decide)) _))
  obtain ⟨s'', w, hrun, -, -, hend⟩ := feedAll_drain maxMessageBytes hc ds [] (by rw [hnil]; rfl)
  rw [hnil] at hrun
  rw [List.nil_append, hds, hdrain] at hend
  have hs : s = s' := by
    have hfront := stopsAtEnd_of_drain (s := (fresh maxMessageBytes now).session)
      (u := fs.flatMap SentFrame.bytes) (by rw [hdrain])
    exact (congrArg WebSocketConnection.session hrun).trans (hend hfront)
  have hreplied : s'.output = (replies none fs).flatMap SentFrame.bytes := hout
  rw [hs]
  refine ⟨hreplied, ?_, herror, hreceived, hstate⟩
  refine (FrameParser.feedAll_encoded maxMessageBytes (replies none fs)
    (legal_replies hconf hlegal (fun p hp => by cases hp)) [s'.output] ?_).1
  rw [List.flatten_singleton, hreplied]

/-- A text message in two frames with a Ping between them, then a Close. -/
def helloFrames : List SentFrame :=
  [⟨.text, ascii "he", false, true, #v[1, 2, 3, 4]⟩, ⟨.ping, ascii "?", true, true, #v[5, 6, 7, 8]⟩,
    ⟨.continuation, ascii "y", true, true, noMaskKey⟩,
    ⟨.close, [0x03, 0xE8], true, true, #v[9, 9, 9, 9]⟩]

theorem conforming_answered_hello :
    (feedAll (fresh 16 0) [(helloFrames.flatMap SentFrame.bytes).take 7,
      (helloFrames.flatMap SentFrame.bytes).drop 7]).session.output =
        [0x8A, 1, 0x3F, 0x81, 3, 0x68, 0x65, 0x79, 0x88, 2, 0x03, 0xE8] := by
  have hconf : Conforming 16 none helloFrames := by
    refine .first (Or.inl rfl) rfl (.ping rfl (.last rfl rfl ⟨by decide, by decide, fun _ => ?_⟩
      (.close rfl (Or.inr ⟨1000, [], ⟨by decide, by decide, by decide⟩, by decide⟩))))
    exact ⟨['h', 'e', 'y'], by decide⟩
  have hlegal : ∀ f ∈ helloFrames, f.Legal 16 := by
    simp only [helloFrames, List.forall_mem_cons]
    exact ⟨⟨by decide, by decide, by decide⟩, ⟨by decide, by decide, by decide⟩,
      ⟨by decide, by decide, by decide⟩, ⟨by decide, by decide, by decide⟩, by simp⟩
  exact (conforming_answered 16 0 helloFrames (by decide) hlegal hconf _ (by simp)).1.trans
    (by decide)

end WebSocketConnection
end Aevrix.Ws
