import Aevrix.Ws.FrameCodec
import Aevrix.Ws.Utf8

/-!
# Frames that are read are not always encoded that way

What the parser takes for a frame is what the encoder writes for it, except for the length: the
parser takes a length in the 16-bit or the 64-bit form that would fit in a shorter one.
-/

namespace Aevrix.Ws
open Incremental

/-- The payload length in the header of a frame is in the shortest form. -/
def ShortestForm (p : Bytes) : Prop :=
  ((p.getD 1 0 &&& 0x7F).toNat = 126 → 125 < BigEndian.value ((p.drop 2).take 2)) ∧
    ((p.getD 1 0 &&& 0x7F).toNat = 127 → 65535 < BigEndian.value ((p.drop 2).take 8))

instance (p : Bytes) : Decidable (ShortestForm p) :=
  inferInstanceAs (Decidable (_ ∧ _))

/-! ### The pieces of a frame -/

theorem of_byte0 {b0 : Byte} {opcode : Opcode} (hrsv : (b0 &&& 0x70) >>> 4 = 0)
    (hopcode : knownOpcode (b0 &&& 0x0F) = some opcode) :
    (if b0 &&& 0x80 != 0 then (opcode.code &&& 0x0F) ||| 0x80 else opcode.code &&& 0x0F) = b0 := by
  have hall : ∀ b0 : Byte, (b0 &&& 0x70) >>> 4 = 0 → ∀ opcode ∈ knownOpcode (b0 &&& 0x0F),
      (if b0 &&& 0x80 != 0 then (opcode.code &&& 0x0F) ||| 0x80 else opcode.code &&& 0x0F) = b0 := by
    apply byte_cases
    decide +kernel
  exact hall b0 hrsv opcode hopcode

theorem of_byte1 (b1 : Byte) :
    ((if b1 &&& 0x80 != 0 then 0x80 else 0x00) ||| UInt8.ofNat (b1 &&& 0x7F).toNat) = b1 := by
  revert b1
  apply byte_cases
  decide +kernel

theorem of_readMaskKey {masked : Bool} {maskKey : MaskKey} {u r : Bytes}
    (h : (readMaskKey masked).run u = .done (maskKey, r)) :
    u = (if masked then maskKey.toList else []) ++ r := by
  cases masked with
  | false =>
    rw [readMaskKey, if_neg Bool.false_ne_true, Reader.run_pure, Outcome.done.injEq,
      Prod.mk.injEq] at h
    exact h.2
  | true =>
    rw [readMaskKey, if_pos rfl] at h
    obtain ⟨v, w, htake, hkey⟩ := Reader.of_bind h
    obtain ⟨rfl, hlen⟩ := Reader.of_take htake
    rw [Reader.run_pure, Outcome.done.injEq, Prod.mk.injEq] at hkey
    obtain ⟨rfl, rfl⟩ := hkey
    have hv : (Vector.ofFn fun i : Fin 4 => v.getD i.val 0).toList = v := by
      apply List.ext_getElem
      · rw [Vector.length_toList, hlen]
      · intro i h1 h2
        rw [Vector.getElem_toList, Vector.getElem_ofFn, List.getD_eq_getElem?_getD,
          List.getElem?_eq_getElem h2, Option.getD_some]
    rw [if_pos rfl, hv]

theorem of_readLength {len7 n : ℕ} {u r : Bytes} (h : (readLength len7).run u = .done (n, r)) :
    ∃ field, u = field ++ r ∧
      (len7 ≠ 126 ∧ len7 ≠ 127 ∧ field = [] ∧ n = len7 ∨
        len7 = 126 ∧ field.length = 2 ∧ n = BigEndian.value field ∨
        len7 = 127 ∧ field.length = 8 ∧ n = BigEndian.value field) := by
  unfold readLength at h
  split at h
  · rename_i htwo
    obtain ⟨v, w, htake, hvalue⟩ := Reader.of_bind h
    obtain ⟨rfl, hlen⟩ := Reader.of_take htake
    rw [Reader.run_pure, Outcome.done.injEq, Prod.mk.injEq] at hvalue
    obtain ⟨rfl, rfl⟩ := hvalue
    exact ⟨v, rfl, Or.inr (Or.inl ⟨htwo, hlen, rfl⟩)⟩
  · rename_i htwo
    split at h
    · rename_i height
      obtain ⟨v, w, htake, hvalue⟩ := Reader.of_bind h
      obtain ⟨rfl, hlen⟩ := Reader.of_take htake
      obtain ⟨_, x, hbound, hpure⟩ := Reader.of_bind hvalue
      obtain ⟨-, rfl⟩ := Reader.of_require hbound
      rw [Reader.run_pure, Outcome.done.injEq, Prod.mk.injEq] at hpure
      obtain ⟨rfl, rfl⟩ := hpure
      exact ⟨v, rfl, Or.inr (Or.inr ⟨height, hlen, rfl⟩)⟩
    · rename_i height
      rw [Reader.run_pure, Outcome.done.injEq, Prod.mk.injEq] at h
      obtain ⟨rfl, rfl⟩ := h
      exact ⟨[], rfl, Or.inl ⟨htwo, height, rfl, rfl⟩⟩

/-- The header that the encoder writes for a length. -/
def lengthHeader (b0 byte1 : Byte) (n : ℕ) : Bytes :=
  if n < 126 then [b0, byte1 ||| UInt8.ofNat n]
  else if n ≤ 0xFFFF then b0 :: (byte1 ||| 126) :: BigEndian.bytes 2 n
  else b0 :: (byte1 ||| 127) :: BigEndian.bytes 8 n

/-- The encoder writes the header that was read exactly when its length is in the shortest form. -/
theorem lengthHeader_eq_iff {b0 b1 : Byte} {n : ℕ} {field : Bytes} (rest : Bytes)
    (h : (b1 &&& 0x7F).toNat ≠ 126 ∧ (b1 &&& 0x7F).toNat ≠ 127 ∧ field = [] ∧
        n = (b1 &&& 0x7F).toNat ∨
      (b1 &&& 0x7F).toNat = 126 ∧ field.length = 2 ∧ n = BigEndian.value field ∨
      (b1 &&& 0x7F).toNat = 127 ∧ field.length = 8 ∧ n = BigEndian.value field) :
    lengthHeader b0 (if b1 &&& 0x80 != 0 then 0x80 else 0x00) n = b0 :: b1 :: field ↔
      ShortestForm (b0 :: b1 :: (field ++ rest)) := by
  have hb1 := of_byte1 b1
  have hlt : (b1 &&& 0x7F).toNat < 128 := by
    rw [UInt8.toNat_and]
    exact Nat.lt_of_le_of_lt Nat.and_le_right (by decide)
  generalize (if b1 &&& 0x80 != 0 then 0x80 else 0x00 : Byte) = byte1 at hb1
  have hform : ShortestForm (b0 :: b1 :: (field ++ rest)) ↔
      ((b1 &&& 0x7F).toNat = 126 → 125 < BigEndian.value ((field ++ rest).take 2)) ∧
        ((b1 &&& 0x7F).toNat = 127 → 65535 < BigEndian.value ((field ++ rest).take 8)) := Iff.rfl
  rw [hform, lengthHeader]
  generalize (b1 &&& 0x7F).toNat = len7 at h hb1 hlt
  rcases h with ⟨htwo, height, rfl, rfl⟩ | ⟨rfl, hlen, rfl⟩ | ⟨rfl, hlen, rfl⟩
  · rw [if_pos (by omega), hb1]
    exact iff_of_true rfl ⟨fun h => absurd h htwo, fun h => absurd h height⟩
  · have hmax : BigEndian.value field < 256 ^ 2 := hlen ▸ BigEndian.value_lt field
    rw [List.take_left' hlen]
    by_cases hshort : BigEndian.value field < 126
    · rw [if_pos hshort]
      apply iff_of_false
      · intro heq
        have hlength := congrArg List.length heq
        simp only [List.length_cons, List.length_nil, hlen] at hlength
        omega
      · intro hform
        have := hform.1 rfl
        omega
    · rw [if_neg hshort, if_pos (by omega), ← hlen, BigEndian.bytes_value]
      refine iff_of_true ?_ ⟨fun _ => by omega, fun h => by omega⟩
      rw [show (126 : Byte) = UInt8.ofNat 126 from rfl, hb1]
  · rw [List.take_left' hlen]
    by_cases hlong : 65535 < BigEndian.value field
    · rw [if_neg (by omega), if_neg (by omega), ← hlen, BigEndian.bytes_value]
      refine iff_of_true ?_ ⟨fun h => by omega, fun _ => hlong⟩
      rw [show (127 : Byte) = UInt8.ofNat 127 from rfl, hb1]
    · apply iff_of_false
      · intro heq
        have hlength := congrArg List.length heq
        split_ifs at hlength <;>
          simp only [List.length_cons, List.length_nil, hlen, BigEndian.bytes_length] at hlength <;>
            omega
      · intro hform
        exact hlong (hform.2 rfl)

/-! ### Whole frames -/

theorem encodeFrame_eq_lengthHeader (frame : Frame) :
    encodeFrame frame.opcode frame.payload frame.fin frame.masked frame.maskKey =
      lengthHeader (if frame.fin then (frame.opcode.code &&& 0x0F) ||| 0x80
          else frame.opcode.code &&& 0x0F) (if frame.masked then 0x80 else 0x00)
        frame.payload.length ++
      ((if frame.masked then frame.maskKey.toList else []) ++
        (if frame.masked then applyMask frame.maskKey frame.payload else frame.payload)) := by
  unfold encodeFrame lengthHeader
  dsimp only
  cases frame.masked with
  | false => rfl
  | true =>
    simp only [if_true]
    rw [List.append_assoc]

theorem of_readFrame {maxPayloadBytes : ℕ} {u r : Bytes} {frame : Frame}
    (h : (readFrame maxPayloadBytes).run u = .done (frame, r)) :
    ∃ p, u = p ++ r ∧
      (encodeFrame frame.opcode frame.payload frame.fin frame.masked frame.maskKey = p ↔
        ShortestForm p) := by
  obtain ⟨v, w, htake, hheader⟩ := Reader.of_bind h
  obtain ⟨rfl, hlen⟩ := Reader.of_take htake
  obtain ⟨b0, b1, rfl⟩ := List.length_eq_two.mp hlen
  obtain ⟨_, w', hrequire, hread⟩ := Reader.of_bind hheader
  obtain ⟨hrsv, rfl⟩ := Reader.of_require hrequire
  simp only [List.getD_cons_zero, List.getD_cons_succ] at hrsv hread
  cases hopcode : knownOpcode (b0 &&& 0x0F) with
  | none =>
    rw [hopcode] at hread
    cases hread
  | some opcode =>
    rw [hopcode] at hread
    obtain ⟨n, v₁, hlength, hread₁⟩ := Reader.of_bind hread
    obtain ⟨_, v₂, hcheck, hread₂⟩ := Reader.of_bind hread₁
    obtain ⟨maskKey, v₃, hkey, hread₃⟩ := Reader.of_bind hread₂
    obtain ⟨payload, v₄, hpayload, hread₄⟩ := Reader.of_bind hread₃
    rw [Reader.run_pure, Outcome.done.injEq, Prod.mk.injEq] at hread₄
    obtain ⟨hframe, rfl⟩ := hread₄
    obtain ⟨field, rfl, hform⟩ := of_readLength hlength
    have hsame : v₂ = v₁ := by
      obtain ⟨_, w₁, hfin, hcheck₁⟩ := Reader.of_bind hcheck
      obtain ⟨_, w₂, hsmall, hcheck₂⟩ := Reader.of_bind hcheck₁
      rw [(Reader.of_require hcheck₂).2, (Reader.of_require hsmall).2, (Reader.of_require hfin).2]
    obtain rfl := hsame
    obtain rfl := of_readMaskKey hkey
    obtain ⟨rfl, hn⟩ := Reader.of_take hpayload
    generalize hrest : (if b1 &&& 0x80 != 0 then maskKey.toList else []) ++ payload = rest
    refine ⟨b0 :: b1 :: (field ++ rest), ?_, ?_⟩
    · rw [← hrest]
      simp only [List.cons_append, List.nil_append, List.append_assoc]
    · have hencode : encodeFrame frame.opcode frame.payload frame.fin frame.masked frame.maskKey =
          lengthHeader b0 (if b1 &&& 0x80 != 0 then 0x80 else 0x00) n ++ rest := by
        rw [encodeFrame_eq_lengthHeader, ← hframe, ← hrest]
        dsimp only
        rw [of_byte0 hrsv hopcode]
        cases b1 &&& 0x80 != 0 with
        | false =>
          simp only [Bool.false_eq_true, if_false]
          rw [hn]
        | true =>
          simp only [if_true]
          rw [applyMask_length, hn, applyMask_applyMask]
      rw [hencode, ← List.cons_append, ← List.cons_append, List.append_cancel_right_eq]
      exact lengthHeader_eq_iff rest hform

/-- A frame that the parser reports, encoded again, is the bytes that were consumed for it exactly
when these have the payload length in its shortest form. -/
theorem next_canonical_iff (p p' : FrameParser) (frame : Frame)
    (h : p.next = (.frameReady frame, p')) :
    ∃ consumed, p.buffer = consumed ++ p'.buffer ∧
      (encodeFrame frame.opcode frame.payload frame.fin frame.masked frame.maskKey = consumed ↔
        ShortestForm consumed) := by
  unfold FrameParser.next at h
  split at h
  · cases h
  · cases hrun : (readFrame p.maxPayloadBytes).run p.buffer with
    | needMore =>
      rw [hrun] at h
      cases h
    | failed e =>
      rw [hrun] at h
      cases h
    | done x =>
      obtain ⟨frame', rest⟩ := x
      rw [hrun] at h
      obtain ⟨hframe, rfl⟩ := Prod.mk.inj h
      obtain rfl := ParseStatus.frameReady.inj hframe
      exact of_readFrame hrun

/-- A byte of payload behind a 16-bit length. -/
def longForm : FrameParser := { buffer := [0x82, 0x7E, 0x00, 0x01, 0x41], maxPayloadBytes := 8 }

theorem next_canonical_iff_longForm : ∃ consumed, longForm.buffer = consumed ++ [] ∧
    (encodeFrame .binary [0x41] true false noMaskKey = consumed ↔ ShortestForm consumed) :=
  next_canonical_iff longForm { longForm with buffer := [] }
    { opcode := .binary, payload := [0x41] } (by decide)

theorem longForm_accepted :
    ¬∀ (p p' : FrameParser) (frame : Frame), p.next = (.frameReady frame, p') →
      ∀ consumed, p.buffer = consumed ++ p'.buffer →
        encodeFrame frame.opcode frame.payload frame.fin frame.masked frame.maskKey = consumed := by
  intro h
  have hsame := h longForm { longForm with buffer := [] }
    { opcode := .binary, payload := [0x41] } (by decide) longForm.buffer rfl
  revert hsame
  decide

end Aevrix.Ws
