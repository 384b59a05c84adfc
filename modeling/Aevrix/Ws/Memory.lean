import Aevrix.Ws.Canonical
import Aevrix.Ws.Output

/-!
# What a session keeps of its input

A frame is refused by its declared length before its payload is waited for, and a fragment before
it is appended; so a session keeps less than one frame of unread bytes and no message that is too
long, whatever it is fed (`memory_bounded`).
-/

namespace Aevrix.Ws
open Incremental

/-- The payload length that a header declares, once the length field is there. -/
def declaredLength (u : Bytes) : Option ℕ :=
  if u.length < 2 then none
  else
    let len7 := (u.getD 1 0 &&& 0x7F).toNat
    if len7 = 126 then
      if u.length < 4 then none else some (BigEndian.value ((u.drop 2).take 2))
    else if len7 = 127 then
      if u.length < 10 then none else some (BigEndian.value ((u.drop 2).take 8))
    else some len7

/-! ### Waiting -/

theorem readLength_waits {len7 : ℕ} {u : Bytes} (h : (readLength len7).run u = .needMore) :
    u.length < 8 ∧ (len7 = 126 ∧ u.length < 2 ∨ len7 = 127) := by
  unfold readLength at h
  split at h
  · rename_i htwo
    rcases Reader.of_bind_needMore h with htake | ⟨_, _, -, hpure⟩
    · have hlen := Reader.of_take_needMore htake
      omega
    · cases hpure
  · split at h
    · rename_i height
      rcases Reader.of_bind_needMore h with htake | ⟨_, _, -, hrest⟩
      · have hlen := Reader.of_take_needMore htake
        omega
      · rcases Reader.of_bind_needMore hrest with hrequire | ⟨_, _, -, hpure⟩
        · exact absurd hrequire (Reader.require_not_needMore _)
        · cases hpure
    · cases h

theorem readMaskKey_waits {masked : Bool} {u : Bytes}
    (h : (readMaskKey masked).run u = .needMore) : u.length < 4 := by
  unfold readMaskKey at h
  split at h
  · rcases Reader.of_bind_needMore h with htake | ⟨_, _, -, hpure⟩
    · exact Reader.of_take_needMore htake
    · cases hpure
  · cases h

theorem checkLength_waits {maxPayloadBytes n : ℕ} {fin : Bool} {opcode : Opcode} {u : Bytes} :
    (checkLength maxPayloadBytes fin opcode n).run u ≠ .needMore := by
  intro h
  rcases Reader.of_bind_needMore h with hfin | ⟨_, _, -, hrest⟩
  · exact Reader.require_not_needMore _ hfin
  · rcases Reader.of_bind_needMore hrest with hsmall | ⟨_, _, -, hmax⟩
    · exact Reader.require_not_needMore _ hsmall
    · exact Reader.require_not_needMore _ hmax

theorem of_checkLength {maxPayloadBytes n : ℕ} {fin : Bool} {opcode : Opcode} {u r : Bytes}
    (h : (checkLength maxPayloadBytes fin opcode n).run u = .done ((), r)) :
    n ≤ maxPayloadBytes ∧ r = u := by
  obtain ⟨_, w, hfin, hrest⟩ := Reader.of_bind h
  obtain ⟨_, w', hsmall, hmax⟩ := Reader.of_bind hrest
  obtain ⟨hle, rfl⟩ := Reader.of_require hmax
  exact ⟨hle, (Reader.of_require hsmall).2.trans (Reader.of_require hfin).2⟩

/-- Before its payload is waited for, a frame was found to be within the maximum. -/
theorem readBody_waits {maxPayloadBytes len7 : ℕ} {fin masked : Bool} {opcode : Opcode} {u : Bytes}
    (h : (readBody maxPayloadBytes fin masked opcode len7).run u = .needMore) :
    (readLength len7).run u = .needMore ∨ ∃ n v, (readLength len7).run u = .done (n, v) ∧
      n ≤ maxPayloadBytes ∧ v.length < 4 + n := by
  rcases Reader.of_bind_needMore h with hlength | ⟨n, v₁, hlength, h₁⟩
  · exact Or.inl hlength
  · refine Or.inr ⟨n, v₁, hlength, ?_⟩
    rcases Reader.of_bind_needMore h₁ with hcheck | ⟨_, v₂, hcheck, h₂⟩
    · exact absurd hcheck checkLength_waits
    · obtain ⟨hle, rfl⟩ := of_checkLength hcheck
      refine ⟨hle, ?_⟩
      rcases Reader.of_bind_needMore h₂ with hkey | ⟨maskKey, v₃, hkey, h₃⟩
      · have hlen := readMaskKey_waits hkey
        omega
      · have hkeyLength : ((if masked then maskKey.toList else []) : Bytes).length ≤ 4 := by
          split
          · rw [Vector.length_toList]
          · exact Nat.zero_le 4
        rcases Reader.of_bind_needMore h₃ with hpayload | ⟨_, _, -, hpure⟩
        · have hlen := Reader.of_take_needMore hpayload
          rw [of_readMaskKey hkey, List.length_append]
          omega
        · cases hpure

/-- Bytes that are no frame yet are less than the header and the payload of the largest frame, and
declare no larger one. -/
theorem readFrame_waits {maxPayloadBytes : ℕ} {u : Bytes}
    (h : (readFrame maxPayloadBytes).run u = .needMore) :
    u.length ≤ maxPayloadBytes + 13 ∧ ∀ n ∈ declaredLength u, n ≤ maxPayloadBytes := by
  rcases Reader.of_bind_needMore h with htwo | ⟨v, w, htwo, hheader⟩
  · have hlen := Reader.of_take_needMore htwo
    refine ⟨by omega, ?_⟩
    rw [declaredLength, if_pos hlen]
    intro n hn
    cases hn
  · obtain ⟨rfl, hlen⟩ := Reader.of_take htwo
    obtain ⟨b0, b1, rfl⟩ := List.length_eq_two.mp hlen
    rcases Reader.of_bind_needMore hheader with hrsv | ⟨_, w', hrsv, hread⟩
    · exact absurd hrsv (Reader.require_not_needMore _)
    obtain ⟨-, rfl⟩ := Reader.of_require hrsv
    simp only [List.getD_cons_zero, List.getD_cons_succ] at hread
    have hdeclared : declaredLength (b0 :: b1 :: w') =
        if (b1 &&& 0x7F).toNat = 126 then
          if w'.length < 2 then none else some (BigEndian.value (w'.take 2))
        else if (b1 &&& 0x7F).toNat = 127 then
          if w'.length < 8 then none else some (BigEndian.value (w'.take 8))
        else some (b1 &&& 0x7F).toNat := by
      have hfour : (b0 :: b1 :: w').length < 4 ↔ w'.length < 2 := by
        rw [List.length_cons, List.length_cons]
        omega
      have hten : (b0 :: b1 :: w').length < 10 ↔ w'.length < 8 := by
        rw [List.length_cons, List.length_cons]
        omega
      rw [declaredLength, if_neg (by rw [List.length_cons, List.length_cons]; omega)]
      simp only [hfour, hten]
      rfl
    split at hread
    · cases hread
    · show (b0 :: b1 :: w').length ≤ _ ∧ ∀ n ∈ declaredLength (b0 :: b1 :: w'), _
      rw [hdeclared, List.length_cons, List.length_cons]
      generalize (b1 &&& 0x7F).toNat = len7 at hread
      rcases readBody_waits hread with hlength | ⟨n, r, hlength, hle, hrest⟩
      · obtain ⟨hshort, hform⟩ := readLength_waits hlength
        refine ⟨by omega, ?_⟩
        intro n hn
        rcases hform with ⟨rfl, htwo⟩ | rfl
        · rw [if_pos rfl, if_pos htwo] at hn
          cases hn
        · rw [if_neg (by decide), if_pos rfl, if_pos hshort] at hn
          cases hn
      · obtain ⟨field, rfl, hform⟩ := of_readLength hlength
        rw [List.length_append]
        rcases hform with ⟨htwo, height, rfl, rfl⟩ | ⟨rfl, hlen, rfl⟩ | ⟨rfl, hlen, rfl⟩
        · refine ⟨by rw [List.length_nil]; omega, ?_⟩
          rw [if_neg htwo, if_neg height]
          intro n hn
          rw [← Option.some.inj hn]
          exact hle
        · refine ⟨by omega, ?_⟩
          rw [if_pos rfl, if_neg (by omega), List.take_left' hlen]
          intro n hn
          rw [← Option.some.inj hn]
          exact hle
        · refine ⟨by omega, ?_⟩
          rw [if_neg (by decide), if_pos rfl, if_neg (by omega), List.take_left' hlen]
          intro n hn
          rw [← Option.some.inj hn]
          exact hle

/-! ### Runs -/

namespace Session
variable {maxMessageBytes : ℕ} {s : Session}

/-- The partial message is within the maximum. -/
structure Holds (maxMessageBytes : ℕ) (s : Session) : Prop where
  coherent : s.Coherent
  max : s.maxMessageBytes = maxMessageBytes
  fragment : s.fragmentPayload.length ≤ maxMessageBytes

theorem failConnection_holds (hmax : s.maxMessageBytes = maxMessageBytes)
    (hfragment : s.fragmentPayload.length ≤ maxMessageBytes) (code : ℕ) (reason : Bytes) :
    (s.failConnection code reason).maxMessageBytes = maxMessageBytes ∧
      (s.failConnection code reason).fragmentPayload.length ≤ maxMessageBytes := by
  cases herror : s.protocolError with
  | true =>
    rw [failConnection_of_error herror]
    exact ⟨hmax, hfragment⟩
  | false =>
    rw [failConnection_eq herror]
    exact ⟨hmax, Nat.zero_le _⟩

theorem reportError_holds (h : Holds maxMessageBytes s) (error : ParseError × Bytes) :
    Holds maxMessageBytes (s.reportError error) := by
  obtain ⟨hlimit, hfragment⟩ := failConnection_holds h.max h.fragment
    (if error.1 = .payloadTooLarge then 1009 else 1002) error.2
  exact ⟨h.coherent.reportError error, hlimit, hfragment⟩

theorem processFrame_holds (h : Holds maxMessageBytes s) {frame : Frame}
    (hframe : frame.payload.length ≤ maxMessageBytes) :
    Holds maxMessageBytes (s.processFrame frame) := by
  have hcoherent := h.coherent.processFrame frame
  have hcases := processFrame_cases h.coherent frame
  have hmax := h.max
  generalize s.processFrame frame = s' at hcases hcoherent ⊢
  cases hcases with
  | ignored => exact h
  | failed received code reason =>
    obtain ⟨hlimit, hfragment⟩ := failConnection_holds
      (s := { s with closeReceived := s.closeReceived || received }) h.max h.fragment code reason
    exact ⟨hcoherent, hlimit, hfragment⟩
  | answered => exact ⟨hcoherent, h.max, h.fragment⟩
  | echoed => exact ⟨hcoherent, h.max, h.fragment⟩
  | started => exact ⟨hcoherent, h.max, hframe⟩
  | extended _ _ hlen =>
    refine ⟨hcoherent, h.max, ?_⟩
    rw [List.length_append]
    omega
  | assembled => exact ⟨hcoherent, h.max, Nat.zero_le _⟩
  | closed => exact ⟨hcoherent, h.max, h.fragment⟩
  | acknowledged => exact ⟨hcoherent, h.max, h.fragment⟩

end Session

namespace WebSocketConnection
open Session

/-- What holds between two calls. -/
structure Waits (maxMessageBytes : ℕ) (c : WebSocketConnection) : Prop where
  rests : ∃ u, c = waiting maxMessageBytes c.session u ∧
    (readFrame maxMessageBytes).run u = .needMore
  holds : Holds maxMessageBytes c.session

variable {maxMessageBytes : ℕ} {x : WebSocketConnection × Bytes}

theorem Waits.feed {c : WebSocketConnection} (h : Waits maxMessageBytes c) (data : Bytes) :
    Waits maxMessageBytes (c.feed data) := by
  obtain ⟨u, hu, hwait⟩ := h.rests
  have hlimit : c.parser.maxPayloadBytes = maxMessageBytes :=
    congrArg (fun c => c.parser.maxPayloadBytes) hu
  obtain ⟨hholds, -⟩ := feed_preserves (P := Holds maxMessageBytes)
    (fun _ _ _ _ hs hr => processFrame_holds hs (readFrame_within hr).within)
    (fun s e hs => reportError_holds hs e) hlimit h.holds data
  refine ⟨?_, hholds⟩
  by_cases hclosed : c.session.state = .closed
  · have hsame : c.feed data = c := by rw [WebSocketConnection.feed, if_pos hclosed]
    rw [hsame]
    exact ⟨u, hu, hwait⟩
  · obtain ⟨s', w, hloop, hrest⟩ := feedLoop_rests (s := c.session) maxMessageBytes
      (Nat.le_refl ((u ++ data).length + 2))
    have hfeed : c.feed data = waiting maxMessageBytes s' w := by
      rw [hu, feed_open hclosed, hloop]
    exact ⟨w, by rw [hfeed]; rfl, hrest⟩

theorem Waits.of_parser {c : WebSocketConnection} (h : Waits maxMessageBytes c)
    (c' : WebSocketConnection) (hparser : c'.parser = c.parser) (hholds : Holds maxMessageBytes c'.session) :
    Waits maxMessageBytes c' := by
  obtain ⟨u, hu, hwait⟩ := h.rests
  refine ⟨⟨u, ?_, hwait⟩, hholds⟩
  show c' = { parser := (waiting maxMessageBytes c.session u).parser, session := c'.session }
  rw [← hu, ← hparser]

theorem Waits.call (h : Waits maxMessageBytes x.1) (k : Call) :
    Waits maxMessageBytes (WebSocketConnection.call x k).1 := by
  have hcoherent := h.holds.coherent
  cases k with
  | feed data => exact h.feed data
  | initiateClose code =>
    apply h.of_parser (x.1.initiateClose code) rfl
    refine ⟨hcoherent.initiateClose code, ?_, ?_⟩
    · show (x.1.session.initiateClose code).maxMessageBytes = _
      unfold Session.initiateClose
      split <;> exact h.holds.max
    · show (x.1.session.initiateClose code).fragmentPayload.length ≤ _
      unfold Session.initiateClose
      split <;> exact h.holds.fragment
  | maybeQueuePing pingIntervalMs now =>
    apply h.of_parser (x.1.maybeQueuePing pingIntervalMs now).2 rfl
    refine ⟨hcoherent.maybeQueuePing pingIntervalMs now, ?_, ?_⟩
    · show (x.1.session.maybeQueuePing pingIntervalMs now).2.maxMessageBytes = _
      unfold Session.maybeQueuePing
      split
      · exact h.holds.max
      · split <;> exact h.holds.max
    · show (x.1.session.maybeQueuePing pingIntervalMs now).2.fragmentPayload.length ≤ _
      unfold Session.maybeQueuePing
      split
      · exact h.holds.fragment
      · split <;> exact h.holds.fragment
  | takeOutput =>
    exact h.of_parser x.1.takeOutput.2 rfl ⟨hcoherent.of_eq rfl rfl rfl rfl, h.holds.max, h.holds.fragment⟩

theorem waits_run (maxMessageBytes now : ℕ) (calls : List Call) :
    Waits maxMessageBytes (runCalls (fresh maxMessageBytes now) calls).1 := by
  have hrun : ∀ x : WebSocketConnection × Bytes, Waits maxMessageBytes x.1 →
      Waits maxMessageBytes (calls.foldl WebSocketConnection.call x).1 := by
    induction calls with
    | nil => exact fun x h => h
    | cons k calls ih => exact fun x h => ih _ (h.call k)
  refine hrun (fresh maxMessageBytes now, []) ⟨⟨[], rfl, ?_⟩, ?_⟩
  · exact Reader.run_bind_needMore (Reader.run_take_short (by decide)) _
  · exact ⟨Coherent.fresh maxMessageBytes now, rfl, Nat.zero_le _⟩

/-- Between the calls on a session, whatever was fed, the unread bytes are at most the maximum and
13 more, the partial message is within the maximum, and no frame is waited for that declares a
larger payload. -/
theorem memory_bounded (maxMessageBytes now : ℕ) (calls : List Call) :
    let c := (runCalls (fresh maxMessageBytes now) calls).1
    c.parser.buffer.length ≤ maxMessageBytes + 13 ∧
      c.session.fragmentPayload.length ≤ maxMessageBytes ∧
      ∀ n ∈ declaredLength c.parser.buffer, n ≤ maxMessageBytes := by
  intro c
  have hwaits := waits_run maxMessageBytes now calls
  obtain ⟨u, hu, hwait⟩ := hwaits.rests
  have hbuffer : c.parser.buffer = u := congrArg (fun c => c.parser.buffer) hu
  obtain ⟨hlen, hdeclared⟩ := readFrame_waits hwait
  rw [hbuffer]
  exact ⟨hlen, hwaits.holds.fragment, hdeclared⟩

end WebSocketConnection
end Aevrix.Ws
