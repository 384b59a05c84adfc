import Aevrix.Digest.Sha1
import Aevrix.Digest.Words
import Aevrix.Http.Bytes
import Mathlib.Data.List.GetD

/-!
# The hash behind a handshake (`websocket_handshake.cpp:26-148`)

`Sha1` takes its input byte by byte into a block of 64 and works a block off when it is full. What
it has taken is the message so far, however it was cut (`Absorbed`), so `finish` gives the digest
of the standard (`finish_updates`).
-/

namespace Aevrix.Ws
open Incremental Digest.Words

/-- `state_`, and the working variables of a block. -/
structure Sha1.Words where
  a : UInt32
  b : UInt32
  c : UInt32
  d : UInt32
  e : UInt32
  deriving DecidableEq

/-- The members; between two calls a block is never full. -/
structure Sha1 where
  state : Sha1.Words
  buffer : Bytes
  bufferLength : ℕ
  totalBytes : UInt64
  blockSize : buffer.length = 64
  notFull : bufferLength < 64

namespace Sha1

/-- `reset`. -/
def fresh : Sha1 where
  state := ⟨0x67452301, 0xEFCDAB89, 0x98BADCFE, 0x10325476, 0xC3D2E1F0⟩
  buffer := List.replicate 64 0
  bufferLength := 0
  totalBytes := 0
  blockSize := List.length_replicate
  notFull := by decide

def rotl (value bits : UInt32) : UInt32 := value <<< bits ||| value >>> (32 - bits)

/-- `w[i]` of the first loop of `process_block`. -/
def loadWord (block : Bytes) (i : ℕ) : UInt32 :=
  (block.getD (i * 4 + 0) 0).toUInt32 <<< 24 ||| (block.getD (i * 4 + 1) 0).toUInt32 <<< 16 |||
    (block.getD (i * 4 + 2) 0).toUInt32 <<< 8 ||| (block.getD (i * 4 + 3) 0).toUInt32

/-- The second loop of `process_block`; `w` holds the words before `w[i]`. -/
def extend (w : List UInt32) (i : ℕ) : List UInt32 :=
  w ++ [rotl (w.getD (i - 3) 0 ^^^ w.getD (i - 8) 0 ^^^ w.getD (i - 14) 0 ^^^ w.getD (i - 16) 0) 1]

def messageWords (block : Bytes) : List UInt32 :=
  (List.range' 16 64).foldl extend ((List.range 16).map (loadWord block))

/-- One turn of the third loop of `process_block`. -/
def round (w : List UInt32) (r : Words) (i : ℕ) : Words :=
  let (f, k) : UInt32 × UInt32 :=
    if i < 20 then ((r.b &&& r.c) ||| (~~~r.b &&& r.d), 0x5A827999)
    else if i < 40 then (r.b ^^^ r.c ^^^ r.d, 0x6ED9EBA1)
    else if i < 60 then ((r.b &&& r.c) ||| (r.b &&& r.d) ||| (r.c &&& r.d), 0x8F1BBCDC)
    else (r.b ^^^ r.c ^^^ r.d, 0xCA62C1D6)
  let temp := rotl r.a 5 + f + r.e + k + w.getD i 0
  ⟨temp, r.a, rotl r.b 30, r.c, r.d⟩

/-- `process_block` (`websocket_handshake.cpp:91-136`). -/
def processBlock (state : Words) (block : Bytes) : Words :=
  let r := (List.range 80).foldl (round (messageWords block)) state
  ⟨state.a + r.a, state.b + r.b, state.c + r.c, state.d + r.d, state.e + r.e⟩

/-- `buffer_[buffer_length_++] = data[i]`, and the block when it is full. -/
def push (s : Sha1) (byte : Byte) : Sha1 :=
  let buffer := s.buffer.set s.bufferLength byte
  if hfull : s.bufferLength + 1 = 64 then
    { s with
      state := processBlock s.state buffer
      buffer
      bufferLength := 0
      blockSize := (List.length_set ..).trans s.blockSize
      notFull := by decide }
  else
    { s with
      buffer
      bufferLength := s.bufferLength + 1
      blockSize := (List.length_set ..).trans s.blockSize
      notFull := by have := s.notFull; omega }

/-- `update` (`websocket_handshake.cpp:34-43`). -/
def update (s : Sha1) (data : Bytes) : Sha1 :=
  data.foldl push { s with totalBytes := s.totalBytes + data.length.toUInt64 }

/-- `buffer_[buffer_length_++] = byte`, for each byte in turn. -/
def write : Bytes → ℕ → Bytes → Bytes
  | buffer, _, [] => buffer
  | buffer, length, byte :: bytes => write (buffer.set length byte) (length + 1) bytes

/-- The eight bytes of the length, most significant first. -/
def lengthBytes (totalBits : UInt64) : Bytes :=
  [7, 6, 5, 4, 3, 2, 1, 0].map fun i : UInt64 => (totalBits >>> (i * 8) &&& 0xFF).toUInt8

def wordBytes (word : UInt32) : Bytes :=
  [(word >>> 24 &&& 0xFF).toUInt8, (word >>> 16 &&& 0xFF).toUInt8, (word >>> 8 &&& 0xFF).toUInt8,
    (word &&& 0xFF).toUInt8]

/-- `finish` (`websocket_handshake.cpp:45-75`). -/
def finish (s : Sha1) : Bytes :=
  let totalBits := s.totalBytes * 8
  let buffer := s.buffer.set s.bufferLength 0x80
  let length := s.bufferLength + 1
  let (state, buffer, length) : Words × Bytes × ℕ :=
    if 56 < length then
      (processBlock s.state (write buffer length (List.replicate (64 - length) 0)),
        write buffer length (List.replicate (64 - length) 0), 0)
    else (s.state, buffer, length)
  let buffer := write buffer length (List.replicate (56 - length) 0)
  let buffer := write buffer 56 (lengthBytes totalBits)
  let state := processBlock state buffer
  wordBytes state.a ++ wordBytes state.b ++ wordBytes state.c ++ wordBytes state.d ++
    wordBytes state.e

/-! ### A block -/

/-- The words as those of the standard. -/
def Words.chain (s : Words) : Digest.Sha1.Chain :=
  ⟨s.a.toBitVec, s.b.toBitVec, s.c.toBitVec, s.d.toBitVec, s.e.toBitVec⟩

theorem rotl_one (x : UInt32) : (rotl x 1).toBitVec = x.toBitVec.rotateLeft 1 := rfl
theorem rotl_five (x : UInt32) : (rotl x 5).toBitVec = x.toBitVec.rotateLeft 5 := rfl
theorem rotl_thirty (x : UInt32) : (rotl x 30).toBitVec = x.toBitVec.rotateLeft 30 := rfl

theorem joined_toNat (a b c d : Byte) :
    (a.toUInt32 <<< 24 ||| b.toUInt32 <<< 16 ||| c.toUInt32 <<< 8 ||| d.toUInt32).toNat =
      BigEndian.value [a, b, c, d] := by
  have htop := shift_byte a (k := 24) (n := 24) rfl (by decide)
  have htwo := or_toNat htop (shift_byte b (k := 16) (n := 16) rfl (by decide))
    (place_lt b.toNat_lt 16)
  have hthree := or_toNat (htwo.trans (place_add a.toNat b.toNat 8 16))
    (shift_byte c (k := 8) (n := 8) rfl (by decide)) (place_lt c.toNat_lt 8)
  rw [or_toNat (hthree.trans (place_add _ c.toNat 8 8)) (UInt8.toNat_toUInt32 d) d.toNat_lt]
  simp only [BigEndian.value, List.foldl_cons, List.foldl_nil, Nat.zero_mul, Nat.zero_add,
    Nat.reducePow]

theorem take_four {block : Bytes} {i : ℕ} (h : 4 * i + 4 ≤ block.length) :
    (block.drop (4 * i)).take 4 = [block.getD (i * 4 + 0) 0, block.getD (i * 4 + 1) 0,
      block.getD (i * 4 + 2) 0, block.getD (i * 4 + 3) 0] := by
  have hget : ∀ j, j < 4 → block.getD (i * 4 + j) 0 = (block.drop (4 * i)).getD j 0 := by
    intro j hj
    rw [List.getD_eq_getElem?_getD, List.getD_eq_getElem?_getD, List.getElem?_drop, Nat.mul_comm]
  rw [hget 0 (by decide), hget 1 (by decide), hget 2 (by decide), hget 3 (by decide)]
  have hlen : 4 ≤ (block.drop (4 * i)).length := by
    rw [List.length_drop]
    omega
  rcases hdrop : block.drop (4 * i) with _ | ⟨a, _ | ⟨b, _ | ⟨c, _ | ⟨d, rest⟩⟩⟩⟩
  · simp [hdrop] at hlen
  · simp [hdrop] at hlen
  · simp [hdrop] at hlen
  · simp [hdrop] at hlen
  · rfl

theorem loadWord_eq {block : Bytes} (hb : block.length = 64) {i : ℕ} (hi : i < 16) :
    (loadWord block i).toBitVec = Digest.Sha1.blockWord block i := by
  have hvalue := joined_toNat (block.getD (i * 4 + 0) 0) (block.getD (i * 4 + 1) 0)
    (block.getD (i * 4 + 2) 0) (block.getD (i * 4 + 3) 0)
  rw [Digest.Sha1.blockWord, take_four (by omega), ← hvalue, ← loadWord]
  rw [← UInt32.toBitVec_ofNat', UInt32.ofNat_toNat]

/-- The words before the `n`-th are those of the standard. -/
def Scheduled (m : ℕ → Digest.Sha1.Word) (w : List UInt32) (n : ℕ) : Prop :=
  w.length = n ∧ ∀ i < n, (w.getD i 0).toBitVec = Digest.Sha1.schedule m i

theorem Scheduled.extend {m : ℕ → Digest.Sha1.Word} {w : List UInt32} {n : ℕ}
    (h : Scheduled m w n) (hn : 16 ≤ n) : Scheduled m (extend w n) (n + 1) := by
  obtain ⟨hlen, hw⟩ := h
  refine ⟨by rw [Sha1.extend, List.length_append, hlen, List.length_singleton], fun i hi => ?_⟩
  by_cases hlast : i < n
  · rw [Sha1.extend, List.getD_append _ _ _ _ (by omega), hw i hlast]
  · have heq : i = n := by omega
    rw [Sha1.extend, List.getD_append_right _ _ _ _ (by omega), heq, hlen, Nat.sub_self,
      List.getD_cons_zero, rotl_one, Digest.Sha1.schedule_next m hn]
    simp only [UInt32.toBitVec_xor, hw (n - 3) (by omega), hw (n - 8) (by omega),
      hw (n - 14) (by omega), hw (n - 16) (by omega)]

theorem scheduled_extends {m : ℕ → Digest.Sha1.Word} (count : ℕ) {w : List UInt32} {n : ℕ}
    (h : Scheduled m w n) (hn : 16 ≤ n) :
    Scheduled m ((List.range' n count).foldl extend w) (n + count) := by
  induction count generalizing w n with
  | zero => exact h
  | succ count ih =>
    rw [List.range'_succ, List.foldl_cons]
    have hnext := ih (h.extend hn) (by omega)
    rwa [Nat.add_assoc, Nat.add_comm 1 count] at hnext

theorem scheduled_messageWords {block : Bytes} (hb : block.length = 64) :
    Scheduled (Digest.Sha1.blockWord block) (messageWords block) 80 := by
  refine scheduled_extends 64 ⟨by simp, fun i hi => ?_⟩ (le_refl 16)
  have hget : ((List.range 16).map (loadWord block)).getD i 0 = loadWord block i := by
    rw [List.getD_eq_getElem _ _ (by simpa using hi), List.getElem_map, List.getElem_range]
  rw [hget, loadWord_eq hb hi, Digest.Sha1.schedule_first _ hi]

theorem round_chain {m : ℕ → Digest.Sha1.Word} {w : List UInt32} (r : Words) {i : ℕ}
    (hw : (w.getD i 0).toBitVec = m i) :
    (round w r i).chain = Digest.Sha1.round m r.chain i := by
  have hsum : ∀ f k : UInt32, (rotl r.a 5 + f + r.e + k + w.getD i 0).toBitVec =
      r.a.toBitVec.rotateLeft 5 + f.toBitVec + r.e.toBitVec + m i + k.toBitVec := by
    intro f k
    simp only [UInt32.toBitVec_add, rotl_five, hw]
    rw [add_right_comm]
  unfold round Digest.Sha1.round Digest.Sha1.f Digest.Sha1.k Words.chain
  by_cases hone : i < 20
  · simp only [hone, Nat.le_of_lt_succ hone, if_true, hsum, rotl_thirty]
    rfl
  have hone' : ¬i ≤ 19 := by omega
  by_cases htwo : i < 40
  · simp only [hone, hone', htwo, Nat.le_of_lt_succ htwo, if_true, if_false, hsum, rotl_thirty]
    rfl
  have htwo' : ¬i ≤ 39 := by omega
  by_cases hthree : i < 60
  · simp only [hone, hone', htwo, htwo', hthree, Nat.le_of_lt_succ hthree, if_true, if_false, hsum,
      rotl_thirty]
    rfl
  have hthree' : ¬i ≤ 59 := by omega
  simp only [hone, hone', htwo, htwo', hthree, hthree', if_false, hsum, rotl_thirty]
  rfl

theorem rounds_chain {m : ℕ → Digest.Sha1.Word} {w : List UInt32} {turns : List ℕ}
    (hw : ∀ i ∈ turns, (w.getD i 0).toBitVec = m i) (r : Words) :
    (turns.foldl (round w) r).chain = turns.foldl (Digest.Sha1.round m) r.chain := by
  induction turns generalizing r with
  | nil => rfl
  | cons i turns ih =>
    rw [List.foldl_cons, List.foldl_cons, ih fun j hj => hw j (List.mem_cons_of_mem _ hj),
      round_chain r (hw i (List.mem_cons_self ..))]

theorem processBlock_chain (state : Words) {block : Bytes} (hb : block.length = 64) :
    (processBlock state block).chain = Digest.Sha1.compress state.chain block := by
  obtain ⟨-, hwords⟩ := scheduled_messageWords hb
  have hrounds := rounds_chain (fun i hi => hwords i (List.mem_range.mp hi)) state
  rw [Digest.Sha1.compress, ← hrounds]
  rfl

/-! ### The bytes taken -/

/-- What `buffer_` holds of an unfinished block. -/
def held (s : Sha1) : Bytes := s.buffer.take s.bufferLength

/-- `s` has taken the message `m`. -/
structure Absorbed (m : Bytes) (s : Sha1) : Prop where
  bufferLength : s.bufferLength = m.length % 64
  /-- Whatever follows, the standard gets as far from here as from the beginning. -/
  chain : ∀ x, Digest.Sha1.chain s.state.chain (s.held ++ x) =
    Digest.Sha1.chain Digest.Sha1.initial (m ++ x)

theorem absorbed_fresh : Absorbed [] fresh := ⟨rfl, fun _ => rfl⟩

theorem take_set {buffer : Bytes} {n : ℕ} (h : n < buffer.length) (byte : Byte) :
    (buffer.set n byte).take (n + 1) = buffer.take n ++ [byte] := by
  rw [List.take_add_one, List.take_set_of_le (le_refl n), List.getElem?_set_self h]
  rfl

theorem Absorbed.push {m : Bytes} {s : Sha1} (h : Absorbed m s) (byte : Byte) :
    Absorbed (m ++ [byte]) (s.push byte) := by
  have hroom : s.bufferLength < s.buffer.length := s.blockSize ▸ s.notFull
  have htake := take_set hroom byte
  have hlen : (m ++ [byte]).length = m.length + 1 := List.length_append
  have hn := h.bufferLength
  unfold Sha1.push
  dsimp only
  split
  · rename_i hfull
    refine ⟨?_, fun x => ?_⟩
    · change 0 = _
      omega
    · have hsize : (s.buffer.set s.bufferLength byte).length = 64 :=
        (List.length_set ..).trans s.blockSize
      have hall : s.buffer.set s.bufferLength byte = s.held ++ [byte] := by
        rw [held, ← htake, hfull, List.take_of_length_le (by omega)]
      change Digest.Sha1.chain (processBlock s.state _).chain (List.take 0 _ ++ x) = _
      rw [processBlock_chain _ hsize, List.take_zero, List.nil_append,
        ← Digest.Sha1.chain_block _ hsize, hall, List.append_assoc, h.chain, List.append_assoc]
  · refine ⟨?_, fun x => ?_⟩
    · change s.bufferLength + 1 = _
      have hnot := s.notFull
      omega
    · change Digest.Sha1.chain s.state.chain (List.take (s.bufferLength + 1) _ ++ x) = _
      rw [htake, List.append_assoc, ← held, h.chain, List.append_assoc]

theorem push_totalBytes (s : Sha1) (byte : Byte) : (s.push byte).totalBytes = s.totalBytes := by
  unfold push
  dsimp only
  split <;> rfl

theorem Absorbed.pushes {m : Bytes} {s : Sha1} (h : Absorbed m s) (data : Bytes) :
    Absorbed (m ++ data) (data.foldl Sha1.push s) := by
  induction data generalizing m s with
  | nil => rwa [List.append_nil]
  | cons byte data ih =>
    have hnext := ih (h.push byte)
    rwa [List.append_assoc] at hnext

theorem pushes_totalBytes (s : Sha1) (data : Bytes) :
    (data.foldl push s).totalBytes = s.totalBytes := by
  induction data generalizing s with
  | nil => rfl
  | cons byte data ih => rw [List.foldl_cons, ih, push_totalBytes]

theorem Absorbed.update {m : Bytes} {s : Sha1} (h : Absorbed m s) (data : Bytes) :
    Absorbed (m ++ data) (s.update data) := by
  have hcounted : Absorbed m { s with totalBytes := s.totalBytes + data.length.toUInt64 } :=
    ⟨h.1, h.2⟩
  exact hcounted.pushes data

theorem update_totalBytes (s : Sha1) (data : Bytes) :
    (s.update data).totalBytes = s.totalBytes + data.length.toUInt64 :=
  pushes_totalBytes _ data

/-! ### The padding -/

theorem write_length (buffer : Bytes) (n : ℕ) (bytes : Bytes) :
    (write buffer n bytes).length = buffer.length := by
  induction bytes generalizing buffer n with
  | nil => rfl
  | cons byte bytes ih => rw [write, ih, List.length_set]

theorem take_write (buffer : Bytes) (n : ℕ) (bytes : Bytes)
    (h : n + bytes.length ≤ buffer.length) :
    (write buffer n bytes).take (n + bytes.length) = buffer.take n ++ bytes := by
  induction bytes generalizing buffer n with
  | nil => rw [write, List.length_nil, Nat.add_zero, List.append_nil]
  | cons byte bytes ih =>
    rw [List.length_cons] at h ⊢
    have hnext := ih (buffer.set n byte) (n + 1) (by rw [List.length_set]; omega)
    rw [write, show n + (bytes.length + 1) = n + 1 + bytes.length by omega, hnext,
      take_set (by omega), List.append_assoc, List.singleton_append]

theorem write_block {buffer : Bytes} {n : ℕ} {bytes : Bytes} (hb : buffer.length = 64)
    (hn : n + bytes.length = 64) : write buffer n bytes = buffer.take n ++ bytes := by
  rw [← take_write _ _ _ (by omega), hn, List.take_of_length_le (by rw [write_length]; omega)]

theorem lengthBytes_eq (totalBits : UInt64) :
    lengthBytes totalBits = BigEndian.bytes 8 totalBits.toNat := by
  have hbyte : ∀ {i : UInt64} {n : ℕ}, (i * 8).toNat = n → n < 64 →
      (totalBits >>> (i * 8) &&& 0xFF).toUInt8 = UInt8.ofNat (totalBits.toNat / 2 ^ n % 256) :=
    long_byte totalBits
  simp only [lengthBytes, List.map_cons, List.map_nil, BigEndian.bytes, List.nil_append,
    List.cons_append, Nat.div_div_eq_div_mul, Nat.reduceMul]
  rw [hbyte (i := 7) (n := 56) rfl (by decide), hbyte (i := 6) (n := 48) rfl (by decide),
    hbyte (i := 5) (n := 40) rfl (by decide), hbyte (i := 4) (n := 32) rfl (by decide),
    hbyte (i := 3) (n := 24) rfl (by decide), hbyte (i := 2) (n := 16) rfl (by decide),
    hbyte (i := 1) (n := 8) rfl (by decide), hbyte (i := 0) (n := 0) rfl (by decide)]
  simp only [Nat.reducePow, Nat.div_one]

theorem wordBytes_eq (word : UInt32) :
    wordBytes word = BigEndian.bytes 4 word.toBitVec.toNat := by
  have hlast := word_byte word (i := 0) (n := 0) rfl (by decide)
  simp only [wordBytes, BigEndian.bytes, List.nil_append, List.cons_append,
    Nat.div_div_eq_div_mul, Nat.reduceMul]
  rw [word_byte word (i := 24) (n := 24) rfl (by decide),
    word_byte word (i := 16) (n := 16) rfl (by decide),
    word_byte word (i := 8) (n := 8) rfl (by decide)]
  simp only [UInt32.shiftRight_zero, Nat.reducePow, Nat.div_one] at hlast ⊢
  rw [hlast]
  rfl

theorem totalBits_toNat {s : Sha1} {m : Bytes} (htotal : s.totalBytes = m.length.toUInt64)
    (hm : m.length < 2 ^ 61) : (s.totalBytes * 8).toNat = 8 * m.length := by
  have height : UInt64.toNat 8 = 8 := rfl
  rw [UInt64.toNat_mul, htotal, height, Nat.toUInt64, UInt64.toNat_ofNat']
  omega

theorem wordBytes_chain (state : Words) :
    wordBytes state.a ++ wordBytes state.b ++ wordBytes state.c ++ wordBytes state.d ++
      wordBytes state.e = state.chain.bytes := by
  simp only [wordBytes_eq]
  rfl

section padding
variable (s : Sha1) {length : Bytes} (hlength : length.length = 8)
include hlength

theorem only_block (hn : s.bufferLength ≤ 55) :
    write (write (s.buffer.set s.bufferLength 0x80) (s.bufferLength + 1)
      (List.replicate (56 - (s.bufferLength + 1)) 0)) 56 length =
    s.held ++ (0x80 :: List.replicate (55 - s.bufferLength) 0 ++ length) := by
  have hsize : (s.buffer.set s.bufferLength 0x80).length = 64 :=
    (List.length_set ..).trans s.blockSize
  have hsum : s.bufferLength + 1 + (List.replicate (56 - (s.bufferLength + 1)) (0 : Byte)).length =
      56 := by
    rw [List.length_replicate]
    omega
  have hfront := take_write (s.buffer.set s.bufferLength 0x80) (s.bufferLength + 1)
    (List.replicate (56 - (s.bufferLength + 1)) 0) (by omega)
  rw [hsum, take_set (by rw [s.blockSize]; omega)] at hfront
  have hzeros : 56 - (s.bufferLength + 1) = 55 - s.bufferLength := by omega
  rw [write_block (by rw [write_length, hsize]) (by omega), hfront, hzeros]
  simp only [held, List.append_assoc, List.cons_append, List.nil_append]

theorem last_block {buffer : Bytes} (hsize : buffer.length = 64) :
    write (write buffer 0 (List.replicate (56 - 0) 0)) 56 length =
      List.replicate 56 0 ++ length := by
  have hfront := take_write buffer 0 (List.replicate (56 - 0) 0)
    (by rw [List.length_replicate]; omega)
  rw [List.length_replicate, Nat.zero_add, List.take_zero, List.nil_append] at hfront
  rw [write_block (by rw [write_length, hsize]) (by omega), hfront]
end padding

theorem filled_block (s : Sha1) (hn : 55 < s.bufferLength) :
    write (s.buffer.set s.bufferLength 0x80) (s.bufferLength + 1)
      (List.replicate (64 - (s.bufferLength + 1)) 0) =
    s.held ++ 0x80 :: List.replicate (63 - s.bufferLength) 0 := by
  have hnot := s.notFull
  rw [write_block ((List.length_set ..).trans s.blockSize) (by rw [List.length_replicate]; omega),
    take_set (by rw [s.blockSize]; omega), held, List.append_assoc, List.singleton_append,
    Nat.sub_add_eq, Nat.sub_right_comm]

theorem Absorbed.finish {m : Bytes} {s : Sha1} (h : Absorbed m s)
    (htotal : s.totalBytes = m.length.toUInt64) (hm : m.length < 2 ^ 61) :
    s.finish = Digest.Sha1.digest m := by
  have hbits := totalBits_toNat htotal hm
  have hpad : Digest.Sha1.pad m = m ++ Digest.Sha1.padding s.bufferLength m.length := by
    rw [Digest.Sha1.pad_eq, h.bufferLength]
  have hlength : (lengthBytes (s.totalBytes * 8)).length = 8 := rfl
  have hbytes : lengthBytes (s.totalBytes * 8) = BigEndian.bytes 8 (8 * m.length) := by
    rw [lengthBytes_eq, hbits]
  have hheld : s.held.length = s.bufferLength := by
    rw [held, List.length_take, s.blockSize]
    have hnot := s.notFull
    omega
  rw [Digest.Sha1.digest, hpad, ← h.chain]
  unfold Sha1.finish
  by_cases hn : s.bufferLength ≤ 55
  · simp only [show ¬56 < s.bufferLength + 1 by omega, if_false]
    rw [only_block s hlength hn, wordBytes_chain,
      processBlock_chain _ (by simp [hheld, hlength]; omega), Digest.Sha1.padding_fits hn, hbytes,
      Digest.Sha1.chain_one _ (by simp [hheld]; omega)]
  · have hspill : 55 < s.bufferLength := Nat.lt_of_not_le hn
    have hnot := s.notFull
    have hfirst : (s.held ++ 0x80 :: List.replicate (63 - s.bufferLength) 0).length = 64 := by
      rw [List.length_append, List.length_cons, List.length_replicate, hheld]
      omega
    simp only [show 56 < s.bufferLength + 1 by omega, if_true]
    rw [filled_block s hspill, last_block hlength hfirst, wordBytes_chain,
      processBlock_chain _ (by simp [hlength]), processBlock_chain _ hfirst,
      Digest.Sha1.padding_spills hspill s.notFull, ← List.append_assoc,
      Digest.Sha1.chain_block _ hfirst, hbytes, Digest.Sha1.chain_one _ (by simp)]

/-! ### A run -/

theorem absorbed_updates {m : Bytes} {s : Sha1} (h : Absorbed m s) (ds : List Bytes) :
    Absorbed (m ++ ds.flatten) (ds.foldl update s) := by
  induction ds generalizing m s with
  | nil => rwa [List.flatten_nil, List.append_nil]
  | cons data ds ih =>
    have hnext := ih (h.update data)
    rwa [List.append_assoc, ← List.flatten_cons] at hnext

theorem updates_totalBytes (s : Sha1) (ds : List Bytes) :
    (ds.foldl update s).totalBytes = s.totalBytes + ds.flatten.length.toUInt64 := by
  induction ds generalizing s with
  | nil => simp
  | cons data ds ih =>
    rw [List.foldl_cons, ih, update_totalBytes, List.flatten_cons, List.length_append, add_assoc]
    simp [Nat.toUInt64]

end Sha1

/-- `sha1` (`websocket_handshake.cpp:144-148`). -/
def sha1 (input : Bytes) : Bytes := (Sha1.fresh.update input).finish

open Sha1 in
/-- However a message is cut, `Sha1` gives the digest of the standard. -/
theorem finish_updates (ds : List Bytes) (h : ds.flatten.length < 2 ^ 61) :
    (ds.foldl update fresh).finish = Digest.Sha1.digest ds.flatten := by
  refine (absorbed_updates absorbed_fresh ds).finish ?_ h
  rw [updates_totalBytes, List.nil_append]
  exact zero_add _

open Sha1 in
/-- Two cuts, and a padding that takes a second block. -/
theorem finish_updates_spilled :
    ([ascii "abc", [], List.replicate 57 97].foldl update fresh).finish =
      Digest.Sha1.digest [ascii "abc", [], List.replicate 57 97].flatten :=
  finish_updates _ (by decide)

example : sha1 (ascii "abc") = [0xA9, 0x99, 0x3E, 0x36, 0x47, 0x06, 0x81, 0x6A, 0xBA, 0x3E, 0x25,
    0x71, 0x78, 0x50, 0xC2, 0x6C, 0x9C, 0xD0, 0xD8, 0x9D] := by decide +kernel

end Aevrix.Ws
