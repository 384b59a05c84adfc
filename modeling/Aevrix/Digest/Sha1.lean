import Mathlib.Data.BitVec
import Aevrix.Incremental.BigEndian

/-!
# Secure Hash Algorithm 1 (RFC 3174)

The digest of a message as the standard defines it, with words of 32 bits: the padding, the
message schedule, the eighty rounds. A message is taken in whole blocks, so what was digested of
it is a chaining value and the bytes of an unfinished block (`chain_block`).
-/

namespace Digest.Sha1
open Incremental

abbrev Word := BitVec 32

/-- Five words: a chaining value, or the registers of a round. -/
structure Chain where
  a : Word
  b : Word
  c : Word
  d : Word
  e : Word
  deriving DecidableEq

def initial : Chain := ⟨0x67452301, 0xEFCDAB89, 0x98BADCFE, 0x10325476, 0xC3D2E1F0⟩

/-- `f(t;B,C,D)` (section 5). -/
def f (t : ℕ) (b c d : Word) : Word :=
  if t ≤ 19 then (b &&& c) ||| (~~~b &&& d)
  else if t ≤ 39 then b ^^^ c ^^^ d
  else if t ≤ 59 then (b &&& c) ||| (b &&& d) ||| (c &&& d)
  else b ^^^ c ^^^ d

/-- `K(t)` (section 5). -/
def k (t : ℕ) : Word :=
  if t ≤ 19 then 0x5A827999 else if t ≤ 39 then 0x6ED9EBA1
  else if t ≤ 59 then 0x8F1BBCDC else 0xCA62C1D6

/-- `W(t)`, from the sixteen words of a block (section 6.1). -/
def schedule (m : ℕ → Word) (t : ℕ) : Word :=
  if t < 16 then m t
  else (schedule m (t - 3) ^^^ schedule m (t - 8) ^^^ schedule m (t - 14) ^^^
    schedule m (t - 16)).rotateLeft 1

def round (w : ℕ → Word) (r : Chain) (t : ℕ) : Chain where
  a := r.a.rotateLeft 5 + f t r.b r.c r.d + r.e + w t + k t
  b := r.a
  c := r.b.rotateLeft 30
  d := r.c
  e := r.d

def Chain.add (h r : Chain) : Chain := ⟨h.a + r.a, h.b + r.b, h.c + r.c, h.d + r.d, h.e + r.e⟩

/-- Word `t` of a block. -/
def blockWord (block : List UInt8) (t : ℕ) : Word :=
  BitVec.ofNat 32 (BigEndian.value ((block.drop (4 * t)).take 4))

def compress (h : Chain) (block : List UInt8) : Chain :=
  h.add ((List.range 80).foldl (round (schedule (blockWord block))) h)

/-- A one bit, the zero bits up to 448 modulo 512, and the length in bits (section 4). -/
def pad (m : List UInt8) : List UInt8 :=
  m ++ 0x80 :: (List.replicate ((119 - m.length % 64) % 64) 0 ++ BigEndian.bytes 8 (8 * m.length))

/-- The whole blocks at the front of `s`, in turn. -/
def chain (h : Chain) (s : List UInt8) : Chain :=
  if s.length < 64 then h else chain (compress h (s.take 64)) (s.drop 64)
termination_by s.length
decreasing_by
  rw [List.length_drop]
  omega

def Chain.bytes (h : Chain) : List UInt8 :=
  BigEndian.bytes 4 h.a.toNat ++ BigEndian.bytes 4 h.b.toNat ++ BigEndian.bytes 4 h.c.toNat ++
    BigEndian.bytes 4 h.d.toNat ++ BigEndian.bytes 4 h.e.toNat

def digest (m : List UInt8) : List UInt8 := (chain initial (pad m)).bytes

theorem schedule_first (m : ℕ → Word) {t : ℕ} (h : t < 16) : schedule m t = m t := by
  rw [schedule, if_pos h]

theorem schedule_next (m : ℕ → Word) {t : ℕ} (h : 16 ≤ t) :
    schedule m t = (schedule m (t - 3) ^^^ schedule m (t - 8) ^^^ schedule m (t - 14) ^^^
      schedule m (t - 16)).rotateLeft 1 := by
  rw [schedule, if_neg (by omega)]

theorem chain_short (h : Chain) {s : List UInt8} (hs : s.length < 64) : chain h s = h := by
  rw [chain, if_pos hs]

theorem chain_block (h : Chain) {block : List UInt8} (hb : block.length = 64) (s : List UInt8) :
    chain h (block ++ s) = chain (compress h block) s := by
  have hlen : ¬(block ++ s).length < 64 := by
    rw [List.length_append]
    omega
  rw [chain, if_neg hlen, List.take_left' hb, List.drop_left' hb]

theorem chain_one (h : Chain) {block : List UInt8} (hb : block.length = 64) :
    chain h block = compress h block := by
  have hblock := chain_block h hb []
  rwa [List.append_nil, chain_short (compress h block) (by decide)] at hblock

/-- The padding of a message whose last block holds `n` bytes. -/
def padding (n length : ℕ) : List UInt8 :=
  0x80 :: (List.replicate ((119 - n) % 64) 0 ++ BigEndian.bytes 8 (8 * length))

theorem pad_eq (m : List UInt8) : pad m = m ++ padding (m.length % 64) m.length := rfl

theorem padding_fits {n : ℕ} (h : n ≤ 55) (length : ℕ) : padding n length =
    0x80 :: List.replicate (55 - n) 0 ++ BigEndian.bytes 8 (8 * length) := by
  have hcount : (119 - n) % 64 = 55 - n := by omega
  rw [padding, hcount, List.cons_append]

theorem padding_spills {n : ℕ} (h : 55 < n) (hn : n < 64) (length : ℕ) : padding n length =
    0x80 :: List.replicate (63 - n) 0 ++
      (List.replicate 56 0 ++ BigEndian.bytes 8 (8 * length)) := by
  have hcount : (119 - n) % 64 = (63 - n) + 56 := by omega
  rw [padding, hcount, List.replicate_add, List.append_assoc, List.cons_append]

end Digest.Sha1
