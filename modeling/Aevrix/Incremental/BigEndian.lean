import Mathlib.Algebra.Order.Ring.Nat
import Mathlib.Data.List.Infix
import Mathlib.Data.UInt

/-!
# Numbers in big-endian bytes

`value` reads a number, most significant byte first; `bytes k` writes one in `k` bytes.
-/

namespace Incremental.BigEndian

def value (v : List UInt8) : ℕ := v.foldl (fun n b => n * 256 + b.toNat) 0

/-- The `k` low bytes of `n`. -/
def bytes : ℕ → ℕ → List UInt8
  | 0, _ => []
  | k + 1, n => bytes k (n / 256) ++ [UInt8.ofNat (n % 256)]

@[simp] theorem bytes_length (k n : ℕ) : (bytes k n).length = k := by
  induction k generalizing n with
  | zero => rfl
  | succ k ih => rw [bytes, List.length_append, ih, List.length_singleton]

theorem value_append_singleton (v : List UInt8) (b : UInt8) :
    value (v ++ [b]) = value v * 256 + b.toNat := by
  simp only [value, List.foldl_append, List.foldl_cons, List.foldl_nil]

theorem value_bytes {k n : ℕ} (h : n < 256 ^ k) : value (bytes k n) = n := by
  induction k generalizing n with
  | zero =>
    rw [Nat.pow_zero] at h
    rw [show n = 0 by omega]
    rfl
  | succ k ih =>
    have hdiv : n / 256 < 256 ^ k := by
      rw [Nat.pow_succ'] at h
      exact Nat.div_lt_of_lt_mul h
    have hbyte : (UInt8.ofNat (n % 256)).toNat = n % 256 := by
      rw [UInt8.toNat_ofNat']
      omega
    rw [bytes, value_append_singleton, ih hdiv, hbyte]
    omega

theorem value_lt (v : List UInt8) : value v < 256 ^ v.length := by
  induction v using List.reverseRecOn with
  | nil => decide
  | append_singleton v b ih =>
    have hb := b.toNat_lt
    rw [value_append_singleton, List.length_append, List.length_singleton, Nat.pow_succ]
    omega

theorem bytes_value (v : List UInt8) : bytes v.length (value v) = v := by
  induction v using List.reverseRecOn with
  | nil => rfl
  | append_singleton v b ih =>
    have hb := b.toNat_lt
    have hdiv : (value v * 256 + b.toNat) / 256 = value v := by omega
    have hmod : (value v * 256 + b.toNat) % 256 = b.toNat := by omega
    rw [value_append_singleton, List.length_append, List.length_singleton, bytes, hdiv, hmod, ih,
      UInt8.ofNat_toNat]

end Incremental.BigEndian
