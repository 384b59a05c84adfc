import Aevrix.Ws.Frame

/-!
# Encoded frames read back

The reader takes exactly the bytes of an encoded frame and returns the frame, whatever
follows (`readFrame_encode`), so a stream of encoded frames comes out of the parser as it
went in, however it is cut (`frames_round_trip`).
-/

namespace Aevrix.Ws
open Incremental

/-! ### Masking -/

@[simp] theorem applyMask_length (maskKey : MaskKey) (payload : Bytes) :
    (applyMask maskKey payload).length = payload.length := by
  simp only [applyMask, List.length_mapIdx]

theorem applyMask_applyMask (maskKey : MaskKey) (payload : Bytes) :
    applyMask maskKey (applyMask maskKey payload) = payload := by
  refine List.ext_getElem (by simp) fun i h1 h2 => ?_
  simp only [applyMask, List.getElem_mapIdx, UInt8.xor_assoc, UInt8.xor_self, UInt8.xor_zero]

/-! ### The header bytes -/

theorem byte0_spec (opcode : Opcode) (fin : Bool) :
    let b0 : Byte := if fin then (opcode.code &&& 0x0F) ||| 0x80 else opcode.code &&& 0x0F
    (b0 &&& 0x80 != 0) = fin ∧ (b0 &&& 0x70) >>> 4 = 0 ∧ knownOpcode (b0 &&& 0x0F) = some opcode := by
  cases opcode <;> cases fin <;> decide

theorem byte1_spec {n : ℕ} (h : n < 128) (mask : Bool) :
    let b1 : Byte := (if mask then 0x80 else 0x00) ||| UInt8.ofNat n
    (b1 &&& 0x80 != 0) = mask ∧ (b1 &&& 0x7F).toNat = n := by
  revert n
  cases mask <;> decide

/-! ### One frame -/

/-- A frame as it is handed to the encoder. -/
structure SentFrame where
  opcode : Opcode
  payload : Bytes
  fin : Bool
  mask : Bool
  maskKey : MaskKey
  deriving DecidableEq

namespace SentFrame

def bytes (f : SentFrame) : Bytes := encodeFrame f.opcode f.payload f.fin f.mask f.maskKey

/-- The frame as the parser reports it. -/
def frame (f : SentFrame) : Frame where
  fin := f.fin
  opcode := f.opcode
  masked := f.mask
  maskKey := if f.mask then f.maskKey else noMaskKey
  payload := f.payload

/-- The payload is a `std::string` within the maximum; a control frame is whole and small. -/
structure Legal (f : SentFrame) (maxPayloadBytes : ℕ) : Prop where
  string : f.payload.length < 2 ^ 63
  within : f.payload.length ≤ maxPayloadBytes
  control : isControlOpcode f.opcode = true → f.fin = true ∧ f.payload.length ≤ 125

end SentFrame

theorem run_readMaskKey (mask : Bool) (maskKey : MaskKey) (x : Bytes) :
    (readMaskKey mask).run ((if mask then maskKey.toList else []) ++ x) =
      .done (if mask then maskKey else noMaskKey, x) := by
  cases mask with
  | false => rfl
  | true =>
    have hlen : maskKey.toList.length = 4 := by simp
    simp only [readMaskKey, if_true]
    rw [Reader.run_bind_done (Reader.run_take hlen x), Reader.run_pure]
    congr 2
    refine Vector.ext fun i hi => ?_
    simp [List.getD_eq_getElem?_getD]

theorem run_readBody {f : SentFrame} {maxPayloadBytes : ℕ} (h : f.Legal maxPayloadBytes) {len7 : ℕ}
    {field : Bytes} (hfield : ∀ y, (readLength len7).run (field ++ y) = .done (f.payload.length, y))
    (x : Bytes) : (readBody maxPayloadBytes f.fin f.mask f.opcode len7).run (field ++
      ((if f.mask then f.maskKey.toList else []) ++
        ((if f.mask then applyMask f.maskKey f.payload else f.payload) ++ x))) = .done (f.frame, x) := by
  have hcheck : ∀ y : Bytes,
      (checkLength maxPayloadBytes f.fin f.opcode f.payload.length).run y = .done ((), y) := by
    intro y
    unfold checkLength
    rw [Reader.run_bind_done (Reader.run_require _ (fun hc => (h.control hc).1) y),
      Reader.run_bind_done (Reader.run_require _ (fun hc => (h.control hc).2) y)]
    exact Reader.run_require _ h.within y
  unfold readBody
  rw [Reader.run_bind_done (hfield _), Reader.run_bind_done (hcheck _),
    Reader.run_bind_done (run_readMaskKey f.mask f.maskKey _)]
  cases hm : f.mask with
  | false =>
    simp only [Bool.false_eq_true, if_false]
    rw [Reader.run_bind_done (Reader.run_take rfl x), Reader.run_pure, SentFrame.frame, hm]
    simp only [Bool.false_eq_true, if_false]
  | true =>
    simp only [if_true]
    rw [Reader.run_bind_done (Reader.run_take (applyMask_length f.maskKey f.payload) x),
      Reader.run_pure, applyMask_applyMask, SentFrame.frame, hm]
    simp only [if_true]

theorem run_readLength_short {n : ℕ} (h : n < 126) (y : Bytes) :
    (readLength n).run ([] ++ y) = .done (n, y) := by
  rw [readLength, if_neg (by omega), if_neg (by omega)]
  rfl

theorem run_readLength_two {n : ℕ} (h : n < 256 ^ 2) (y : Bytes) :
    (readLength 126).run (BigEndian.bytes 2 n ++ y) = .done (n, y) := by
  rw [readLength, if_pos rfl, Reader.run_bind_done (Reader.run_take (BigEndian.bytes_length 2 n) y),
    BigEndian.value_bytes h]
  rfl

theorem run_readLength_eight {n : ℕ} (h : n < 2 ^ 63) (y : Bytes) :
    (readLength 127).run (BigEndian.bytes 8 n ++ y) = .done (n, y) := by
  have hlt : n < 256 ^ 8 := h.trans (by decide)
  rw [readLength, if_neg (by decide), if_pos rfl,
    Reader.run_bind_done (Reader.run_take (BigEndian.bytes_length 8 n) y), BigEndian.value_bytes hlt,
    Reader.run_bind_done (Reader.run_require _ h y)]
  rfl

theorem encodeFrame_eq (f : SentFrame) :
    ∃ (len7 : ℕ) (field : Bytes), len7 < 128 ∧
      f.bytes = (if f.fin then (f.opcode.code &&& 0x0F) ||| 0x80 else f.opcode.code &&& 0x0F) ::
        ((if f.mask then 0x80 else 0x00) ||| UInt8.ofNat len7) :: (field ++
          ((if f.mask then f.maskKey.toList else []) ++
            (if f.mask then applyMask f.maskKey f.payload else f.payload))) ∧
      (f.payload.length < 2 ^ 63 →
        ∀ y, (readLength len7).run (field ++ y) = .done (f.payload.length, y)) := by
  have hpieces : ∀ header : Bytes, (if f.mask then header ++ f.maskKey.toList ++
      applyMask f.maskKey f.payload else header ++ f.payload) = header ++
        ((if f.mask then f.maskKey.toList else []) ++
          (if f.mask then applyMask f.maskKey f.payload else f.payload)) := by
    intro header
    cases f.mask <;> simp
  by_cases h1 : f.payload.length < 126
  · refine ⟨f.payload.length, [], by omega, ?_, fun _ => run_readLength_short h1⟩
    simp only [SentFrame.bytes, encodeFrame, if_pos h1, hpieces]
    rfl
  by_cases h2 : f.payload.length ≤ 0xFFFF
  · refine ⟨126, BigEndian.bytes 2 f.payload.length, by decide, ?_,
      fun _ => run_readLength_two (by omega)⟩
    simp only [SentFrame.bytes, encodeFrame, if_neg h1, if_pos h2, hpieces]
    rfl
  · refine ⟨127, BigEndian.bytes 8 f.payload.length, by decide, ?_, run_readLength_eight⟩
    simp only [SentFrame.bytes, encodeFrame, if_neg h1, if_neg h2, hpieces]
    rfl

theorem readFrame_encode {f : SentFrame} {maxPayloadBytes : ℕ} (h : f.Legal maxPayloadBytes)
    (x : Bytes) : (readFrame maxPayloadBytes).run (f.bytes ++ x) = .done (f.frame, x) := by
  obtain ⟨len7, field, hlen7, hbytes, hlength⟩ := encodeFrame_eq f
  obtain ⟨hfin, hrsv, hopcode⟩ := byte0_spec f.opcode f.fin
  obtain ⟨hmask, hseven⟩ := byte1_spec hlen7 f.mask
  rw [hbytes]
  generalize hb0 : (if f.fin then (f.opcode.code &&& 0x0F) ||| 0x80 else f.opcode.code &&& 0x0F) = b0
    at hfin hrsv hopcode
  generalize hb1 : ((if f.mask then 0x80 else 0x00) ||| UInt8.ofNat len7 : Byte) = b1
    at hmask hseven
  have hcons : ∀ rest : Bytes, b0 :: b1 :: rest ++ x = [b0, b1] ++ (rest ++ x) := fun rest => rfl
  have htwo : [b0, b1].length = 2 := rfl
  rw [hcons, readFrame, Reader.run_bind_done (Reader.run_take htwo _)]
  simp only [List.getD_cons_zero, List.getD_cons_succ, readHeader, hfin, hmask, hseven, hopcode]
  rw [Reader.run_bind_done (Reader.run_require _ hrsv _), List.append_assoc, List.append_assoc]
  exact run_readBody h (hlength h.string) x

/-! ### Streams of frames -/

theorem SentFrame.bytes_length (f : SentFrame) : 2 ≤ f.bytes.length := by
  obtain ⟨len7, field, -, hbytes, -⟩ := encodeFrame_eq f
  rw [hbytes, List.length_cons, List.length_cons]
  omega

namespace FrameParser

section next
variable {maxPayloadBytes : ℕ} {u : Bytes}

theorem next_ready {frame : Frame} {rest : Bytes}
    (h : (readFrame maxPayloadBytes).run u = .done (frame, rest)) :
    next { buffer := u, maxPayloadBytes } =
      (.frameReady frame, { buffer := rest, maxPayloadBytes }) := by
  rw [next, if_neg (by simp [hasError]), h]

theorem next_needMore (h : (readFrame maxPayloadBytes).run u = .needMore) :
    next { buffer := u, maxPayloadBytes } = (.needMore, { buffer := u, maxPayloadBytes }) := by
  rw [next, if_neg (by simp [hasError]), h]

end next

/-- A parser that waits in front of the stream `fs`, with `u` of its bytes read. -/
theorem takeFramesFor_stream {maxPayloadBytes : ℕ} (fs : List SentFrame)
    (hlegal : ∀ f ∈ fs, f.Legal maxPayloadBytes) (fuel : ℕ) {u y : Bytes}
    (hfuel : u.length < fuel) (hu : u ++ y = fs.flatMap SentFrame.bytes) :
    ∃ gs hs v, fs = gs ++ hs ∧ v ++ y = hs.flatMap SentFrame.bytes ∧
      (readFrame maxPayloadBytes).run v = .needMore ∧
      takeFramesFor fuel { buffer := u, maxPayloadBytes } =
        (gs.map SentFrame.frame, { buffer := v, maxPayloadBytes }) := by
  induction fs generalizing fuel u with
  | nil =>
    obtain ⟨n, rfl⟩ := Nat.exists_eq_succ_of_ne_zero (Nat.ne_zero_of_lt hfuel)
    obtain ⟨rfl, rfl⟩ := List.append_eq_nil_iff.mp hu
    have hmore : (readFrame maxPayloadBytes).run [] = .needMore :=
      Reader.run_bind_needMore (Reader.run_take_short (by decide)) _
    refine ⟨[], [], [], rfl, rfl, hmore, ?_⟩
    rw [takeFramesFor, next_needMore hmore]
    rfl
  | cons f fs ih =>
    obtain ⟨n, rfl⟩ := Nat.exists_eq_succ_of_ne_zero (Nat.ne_zero_of_lt hfuel)
    have hf := hlegal f (List.mem_cons_self ..)
    have hlen := f.bytes_length
    rw [List.flatMap_cons] at hu
    rcases List.append_eq_append_iff.mp hu with ⟨z, hz, hy⟩ | ⟨z, hz, hrest⟩
    · -- the frame is not there in full, unless the buffer ends with it
      by_cases hnil : z = []
      · rw [hnil, List.append_nil] at hz
        rw [hnil, List.nil_append] at hy
        have hread := readFrame_encode hf []
        rw [List.append_nil, hz] at hread
        obtain ⟨gs, hs, v, hsplit, hv, hmore, htake⟩ := ih (fun g hg => hlegal g (List.mem_cons_of_mem _ hg))
          n (u := []) (by rw [← hz] at hfuel; simp only [List.length_nil]; omega) (by simpa using hy)
        refine ⟨f :: gs, hs, v, by rw [hsplit, List.cons_append], hv, hmore, ?_⟩
        rw [takeFramesFor, next_ready hread]
        simp only [htake, List.map_cons]
      · have hread := readFrame_encode hf []
        rw [List.append_nil] at hread
        have hmore := Reader.run_front hread hz.symm hnil
        refine ⟨[], f :: fs, u, rfl, by rw [List.flatMap_cons]; exact hu, hmore, ?_⟩
        rw [takeFramesFor, next_needMore hmore]
        rfl
    · have hread := readFrame_encode hf z
      rw [← hz] at hread
      obtain ⟨gs, hs, v, hsplit, hv, hmore, htake⟩ := ih (fun g hg => hlegal g (List.mem_cons_of_mem _ hg))
        n (u := z) (by rw [hz, List.length_append] at hfuel; omega) hrest.symm
      refine ⟨f :: gs, hs, v, by rw [hsplit, List.cons_append], hv, hmore, ?_⟩
      rw [takeFramesFor, next_ready hread]
      simp only [htake, List.map_cons]

theorem feedAll_stream {maxPayloadBytes : ℕ} (ds : List Bytes) (fs : List SentFrame)
    (hlegal : ∀ f ∈ fs, f.Legal maxPayloadBytes) {u : Bytes}
    (hwait : (readFrame maxPayloadBytes).run u = .needMore)
    (hu : u ++ ds.flatten = fs.flatMap SentFrame.bytes) :
    ∃ gs hs v, fs = gs ++ hs ∧ v = hs.flatMap SentFrame.bytes ∧
      (readFrame maxPayloadBytes).run v = .needMore ∧
      feedAll { buffer := u, maxPayloadBytes } ds =
        (gs.map SentFrame.frame, { buffer := v, maxPayloadBytes }) := by
  induction ds generalizing fs u with
  | nil =>
    rw [List.flatten_nil, List.append_nil] at hu
    exact ⟨[], fs, u, rfl, hu, hwait, rfl⟩
  | cons d ds ih =>
    rw [List.flatten_cons, ← List.append_assoc] at hu
    obtain ⟨gs, hs, v, hsplit, hv, hmore, htake⟩ :=
      takeFramesFor_stream fs hlegal ((u ++ d).length + 1) (Nat.lt_succ_self _) hu
    obtain ⟨gs', hs', v', hsplit', hv', hmore', htake'⟩ := ih hs
      (fun f hf => hlegal f (by rw [hsplit]; exact List.mem_append_right _ hf)) hmore hv
    refine ⟨gs ++ gs', hs', v', by rw [hsplit, hsplit', List.append_assoc], hv', hmore', ?_⟩
    have hfeed : ({ buffer := u, maxPayloadBytes } : FrameParser).feed d =
        { buffer := u ++ d, maxPayloadBytes } := rfl
    rw [feedAll, hfeed, takeFrames]
    simp only [htake, htake', List.map_append]

/-- The pieces of a whole stream of legal frames give the frames, and nothing is left. -/
theorem feedAll_encoded (maxPayloadBytes : ℕ) (fs : List SentFrame)
    (hlegal : ∀ f ∈ fs, f.Legal maxPayloadBytes) (ds : List Bytes)
    (hds : ds.flatten = fs.flatMap SentFrame.bytes) :
    feedAll { maxPayloadBytes } ds = (fs.map SentFrame.frame, { maxPayloadBytes }) ∧
      (readFrame maxPayloadBytes).run [] = .needMore := by
  have hwait : (readFrame maxPayloadBytes).run [] = .needMore :=
    Reader.run_bind_needMore (Reader.run_take_short (by decide)) _
  obtain ⟨gs, hs, v, hsplit, hv, hmore, hfeed⟩ :=
    feedAll_stream ds fs hlegal (u := []) hwait (by rw [List.nil_append, hds])
  -- a parser in front of another frame would not wait
  have hnil : hs = [] := by
    cases hs with
    | nil => rfl
    | cons f hs =>
      have hf := hlegal f (by rw [hsplit]; simp)
      rw [hv, List.flatMap_cons, readFrame_encode hf] at hmore
      cases hmore
  rw [hnil, List.flatMap_nil] at hv
  rw [hnil, List.append_nil] at hsplit
  rw [hfeed, hv, hsplit]
  exact ⟨rfl, hwait⟩

end FrameParser

/-- **Frame streams round-trip.** Legal frames, encoded with any masks and fed in any
pieces, come out of the parser as they went in; then it waits, with nothing buffered. -/
theorem frames_round_trip (maxPayloadBytes : ℕ) (fs : List SentFrame)
    (hlegal : ∀ f ∈ fs, f.Legal maxPayloadBytes) (ds : List Bytes)
    (hds : ds.flatten = fs.flatMap SentFrame.bytes) :
    let (frames, p) := FrameParser.feedAll { maxPayloadBytes } ds
    frames = fs.map SentFrame.frame ∧ p.next = (.needMore, p) ∧ p.buffer = [] := by
  obtain ⟨hfeed, hmore⟩ := FrameParser.feedAll_encoded maxPayloadBytes fs hlegal ds hds
  rw [hfeed]
  exact ⟨rfl, FrameParser.next_needMore hmore, rfl⟩

/-- A masked text of one byte and an unmasked ping, cut inside the header, the key and
the payload. -/
theorem frames_round_trip_cut :
    (FrameParser.feedAll { maxPayloadBytes := 8 }
      [[0x81], [0x81, 1, 2], [3, 4, 0x69, 0x89], [0x02, 0x6F], [0x6B]]).1.map Frame.payload =
        [ascii "h", ascii "ok"] := by
  have h := frames_round_trip 8 [⟨.text, ascii "h", true, true, #v[1, 2, 3, 4]⟩,
      ⟨.ping, ascii "ok", true, false, noMaskKey⟩]
    (List.forall_mem_cons.mpr ⟨⟨by decide, by decide, by decide⟩,
      List.forall_mem_cons.mpr ⟨⟨by decide, by decide, by decide⟩, by simp⟩⟩)
    [[0x81], [0x81, 1, 2], [3, 4, 0x69, 0x89], [0x02, 0x6F], [0x6B]] (by decide)
  exact congrArg (List.map Frame.payload) h.1

end Aevrix.Ws
