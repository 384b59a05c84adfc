import Mathlib.Algebra.Order.Ring.Nat
import Mathlib.Data.UInt

/-!
# Words put together from smaller ones

A word that is shifted and or-ed together is a number in base two to the shift, and what is
shifted out and masked is a digit of it.
-/

namespace Digest.Words

theorem shift_toNat {x : UInt32} {k : UInt32} {n : ℕ} (hk : k.toNat = n) (hn : n < 32)
    (hx : x.toNat * 2 ^ n < 2 ^ 32) : (x <<< k).toNat = x.toNat * 2 ^ n := by
  rw [UInt32.toNat_shiftLeft, hk, Nat.mod_eq_of_lt hn, Nat.shiftLeft_eq, Nat.mod_eq_of_lt hx]

theorem shift_byte (b : UInt8) {k : UInt32} {n : ℕ} (hk : k.toNat = n) (hn : n ≤ 24) :
    (b.toUInt32 <<< k).toNat = b.toNat * 2 ^ n := by
  have hb : b.toUInt32.toNat = b.toNat := UInt8.toNat_toUInt32 b
  have hle : b.toNat ≤ 255 := Nat.le_of_lt_succ b.toNat_lt
  have hlt : b.toUInt32.toNat * 2 ^ n < 2 ^ 32 := by
    rw [hb]
    calc b.toNat * 2 ^ n ≤ 255 * 2 ^ 24 := Nat.mul_le_mul hle (Nat.pow_le_pow_right (by decide) hn)
      _ < 2 ^ 32 := by decide
  rw [shift_toNat hk (by omega) hlt, hb]

theorem or_toNat {x y : UInt32} {n m k : ℕ} (hx : x.toNat = n * 2 ^ k) (hy : y.toNat = m)
    (hm : m < 2 ^ k) : (x ||| y).toNat = n * 2 ^ k + m := by
  rw [UInt32.toNat_or, hx, hy, ← Nat.shiftLeft_eq, ← Nat.shiftLeft_add_eq_or_of_lt hm]

theorem place_lt {d w : ℕ} (h : d < 2 ^ w) (n : ℕ) : d * 2 ^ n < 2 ^ (w + n) := by
  rw [Nat.pow_add]
  exact Nat.mul_lt_mul_of_pos_right h (Nat.two_pow_pos n)

theorem place_add (x y w n : ℕ) : x * 2 ^ (w + n) + y * 2 ^ n = (x * 2 ^ w + y) * 2 ^ n := by
  rw [Nat.add_mul, Nat.mul_assoc, ← Nat.pow_add]

theorem low_byte (n : ℕ) : (UInt8.ofNat (n % 256)).toNat = (n &&& 255) % 2 ^ 8 := by
  rw [UInt8.toNat_ofNat']
  exact congrArg (· % 2 ^ 8) (Nat.and_two_pow_sub_one_eq_mod n 8).symm

theorem long_byte (x : UInt64) {i : UInt64} {n : ℕ} (hi : i.toNat = n) (hn : n < 64) :
    (x >>> i &&& 0xFF).toUInt8 = UInt8.ofNat (x.toNat / 2 ^ n % 256) := by
  rw [← UInt8.toNat_inj, low_byte, UInt64.toNat_toUInt8, UInt64.toNat_and, UInt64.toNat_shiftRight,
    hi, Nat.mod_eq_of_lt hn, Nat.shiftRight_eq_div_pow]
  rfl

theorem word_byte (x : UInt32) {i : UInt32} {n : ℕ} (hi : i.toNat = n) (hn : n < 32) :
    (x >>> i &&& 0xFF).toUInt8 = UInt8.ofNat (x.toNat / 2 ^ n % 256) := by
  rw [← UInt8.toNat_inj, low_byte, UInt32.toNat_toUInt8, UInt32.toNat_and, UInt32.toNat_shiftRight,
    hi, Nat.mod_eq_of_lt hn, Nat.shiftRight_eq_div_pow]
  rfl

end Digest.Words
