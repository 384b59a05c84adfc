import Aevrix.Ws.Sha1

/-!
# Base64 and the answer to a key (`websocket_handshake.cpp:150-249`, `306-316`)

Three bytes are four characters, and what is left at the end is filled up with `=`. Decoding undoes
the encoding, and takes the filled-up strings over the alphabet and no others.
-/

namespace Aevrix.Ws
open Digest.Words

def kBase64Alphabet : Bytes :=
  ascii "ABCDEFGHIJKLMNOPQRSTUVWXYZabcdefghijklmnopqrstuvwxyz0123456789+/"

/-- `kBase64Alphabet[value & 0x3F]`. -/
def base64Char (value : UInt32) : Byte := kBase64Alphabet.getD (value &&& 0x3F).toNat 0

abbrev padChar : Byte := 61

/-- `base64_encode` (`websocket_handshake.cpp:157-189`). -/
def base64Encode : Bytes → Bytes
  | a :: b :: c :: rest =>
    let triple := a.toUInt32 <<< 16 ||| b.toUInt32 <<< 8 ||| c.toUInt32
    base64Char (triple >>> 18) :: base64Char (triple >>> 12) :: base64Char (triple >>> 6) ::
      base64Char triple :: base64Encode rest
  | [a, b] =>
    let triple := a.toUInt32 <<< 16 ||| b.toUInt32 <<< 8
    [base64Char (triple >>> 18), base64Char (triple >>> 12), base64Char (triple >>> 6), padChar]
  | [a] =>
    let triple := a.toUInt32 <<< 16
    [base64Char (triple >>> 18), base64Char (triple >>> 12), padChar, padChar]
  | [] => []

/-- `base64_value`, where `none` is -1. -/
def base64Value (c : Byte) : Option UInt32 :=
  if isUpper c then some (c.toUInt32 - 65)
  else if isLower c then some (c.toUInt32 - 97 + 26)
  else if isDigit c then some (c.toUInt32 - 48 + 52)
  else if c = 43 then some 62
  else if c = 47 then some 63
  else none

/-- The bytes of a quantum (`websocket_handshake.cpp:236-246`). -/
def quantumBytes (padding : ℕ) (v₀ v₁ v₂ v₃ : UInt32) : Bytes :=
  let triple := v₀ <<< 18 ||| v₁ <<< 12 ||| v₂ <<< 6 ||| v₃
  (triple >>> 16 &&& 0xFF).toUInt8 ::
    ((if padding ≠ 2 then [(triple >>> 8 &&& 0xFF).toUInt8] else []) ++
      if padding ≠ 1 ∧ padding ≠ 2 then [(triple &&& 0xFF).toUInt8] else [])

/-- The character at `j < 2`, where `=` is refused. -/
def leadingValue (c : Byte) : Option UInt32 := if c = padChar then none else base64Value c

/-- One turn of the loop of `base64_decode`; `last` is `i + 4 == input.size()`. -/
def decodeQuantum (last : Bool) (c₀ c₁ c₂ c₃ : Byte) : Option Bytes := do
  let v₀ ← leadingValue c₀
  let v₁ ← leadingValue c₁
  if c₂ = padChar then
    if last && c₃ == padChar then return quantumBytes 2 v₀ v₁ 0 0 else none
  else
    let v₂ ← base64Value c₂
    if c₃ = padChar then
      if last then return quantumBytes 1 v₀ v₁ v₂ 0 else none
    else
      let v₃ ← base64Value c₃
      return quantumBytes 0 v₀ v₁ v₂ v₃

def decodeQuanta : Bytes → Option Bytes
  | c₀ :: c₁ :: c₂ :: c₃ :: rest => do
    let out ← decodeQuantum rest.isEmpty c₀ c₁ c₂ c₃
    return out ++ (← decodeQuanta rest)
  | _ => some []

/-- `base64_decode` (`websocket_handshake.cpp:201-249`). -/
def base64Decode (input : Bytes) : Option Bytes :=
  if input.length % 4 ≠ 0 then none else decodeQuanta input

def kWebSocketGuid : Bytes := ascii "258EAFA5-E914-47DA-95CA-C5AB0DC85B11"

/-- `compute_accept` (`websocket_handshake.cpp:306-316`). -/
def computeAccept (clientKey : Bytes) : Bytes := match base64Decode clientKey with
  | none => []
  | some decoded =>
    if decoded.length ≠ 16 then [] else base64Encode (sha1 (clientKey ++ kWebSocketGuid))

/-! ### A quantum -/

theorem alphabet_eq : kBase64Alphabet =
    (List.range' 65 26 ++ List.range' 97 26 ++ List.range' 48 10 ++ [43, 47]).map UInt8.ofNat := by
  decide

theorem digit_value {n : ℕ} (h : n < 64) :
    base64Value (kBase64Alphabet.getD n 0) = some (UInt32.ofNat n) ∧
      kBase64Alphabet.getD n 0 ≠ padChar := by
  rw [alphabet_eq]
  revert n
  decide +kernel

theorem base64Char_value (v : UInt32) :
    base64Value (base64Char v) = some (v &&& 0x3F) ∧ base64Char v ≠ padChar := by
  have hlt : (v &&& 0x3F).toNat < 64 := by
    rw [UInt32.toNat_and]
    exact Nat.and_lt_two_pow _ (by decide : (63 : ℕ) < 2 ^ 6)
  have hdigit := digit_value hlt
  rwa [UInt32.ofNat_toNat] at hdigit

theorem isUpper_iff (c : Byte) : isUpper c = true ↔ 65 ≤ c.toNat ∧ c.toNat ≤ 90 := by
  simp [isUpper, UInt8.le_iff_toNat_le]

theorem isLower_iff (c : Byte) : isLower c = true ↔ 97 ≤ c.toNat ∧ c.toNat ≤ 122 := by
  simp [isLower, UInt8.le_iff_toNat_le]

theorem isDigit_iff (c : Byte) : isDigit c = true ↔ 48 ≤ c.toNat ∧ c.toNat ≤ 57 := by
  simp [isDigit, UInt8.le_iff_toNat_le]

theorem base64Value_isSome (c : Byte) : (base64Value c).isSome = true ↔ c ∈ kBase64Alphabet := by
  constructor
  · intro h
    rw [alphabet_eq]
    refine List.mem_map.mpr ⟨c.toNat, ?_, UInt8.ofNat_toNat⟩
    simp only [List.mem_append, List.mem_range'_1, List.mem_cons, List.not_mem_nil, or_false]
    unfold base64Value at h
    split at h
    · rename_i hupper
      have hrange := (isUpper_iff c).mp hupper
      omega
    split at h
    · rename_i hlower
      have hrange := (isLower_iff c).mp hlower
      omega
    split at h
    · rename_i hdigit
      have hrange := (isDigit_iff c).mp hdigit
      omega
    split at h
    · rename_i hplus
      exact Or.inr (Or.inl (congrArg UInt8.toNat hplus))
    split at h
    · rename_i hslash
      exact Or.inr (Or.inr (congrArg UInt8.toNat hslash))
    · cases h
  · intro h
    have hall : ∀ d ∈ kBase64Alphabet, (base64Value d).isSome = true := by
      rw [alphabet_eq]
      decide +kernel
    exact hall c h

theorem digit_toNat (x : UInt32) {i : UInt32} {n : ℕ} (hi : i.toNat = n) (hn : n < 32) :
    (x >>> i &&& 0x3F).toNat = x.toNat / 2 ^ n % 64 := by
  rw [UInt32.toNat_and, UInt32.toNat_shiftRight, hi, Nat.mod_eq_of_lt hn,
    Nat.shiftRight_eq_div_pow]
  exact Nat.and_two_pow_sub_one_eq_mod _ 6

theorem last_digit_toNat (x : UInt32) : (x &&& 0x3F).toNat = x.toNat % 64 := by
  rw [UInt32.toNat_and]
  exact Nat.and_two_pow_sub_one_eq_mod _ 6

theorem triple_toNat {v₀ v₁ v₂ v₃ : UInt32} {n₀ n₁ n₂ n₃ : ℕ} (h₀ : v₀.toNat = n₀)
    (h₁ : v₁.toNat = n₁) (h₂ : v₂.toNat = n₂) (h₃ : v₃.toNat = n₃) (l₀ : n₀ < 2 ^ 6)
    (l₁ : n₁ < 2 ^ 6) (l₂ : n₂ < 2 ^ 6) (l₃ : n₃ < 2 ^ 6) :
    (v₀ <<< 18 ||| v₁ <<< 12 ||| v₂ <<< 6 ||| v₃).toNat =
      ((n₀ * 2 ^ 6 + n₁) * 2 ^ 6 + n₂) * 2 ^ 6 + n₃ := by
  have hshift : ∀ {v k : UInt32} {n m : ℕ}, v.toNat = n → n < 2 ^ 6 → k.toNat = m → m ≤ 18 →
      (v <<< k).toNat = n * 2 ^ m := by
    intro v k n m hv hn hk hm
    subst hv
    have hlt : v.toNat * 2 ^ m < 2 ^ (6 + m) := place_lt hn m
    exact shift_toNat hk (by omega) (hlt.trans_le (Nat.pow_le_pow_right (by decide) (by omega)))
  have htwo := or_toNat (hshift h₀ l₀ (k := 18) (m := 18) rfl (by decide))
    (hshift h₁ l₁ (k := 12) (m := 12) rfl (by decide)) (place_lt l₁ 12)
  have hthree := or_toNat (htwo.trans (place_add n₀ n₁ 6 12))
    (hshift h₂ l₂ (k := 6) (m := 6) rfl (by decide)) (place_lt l₂ 6)
  exact or_toNat (hthree.trans (place_add _ n₂ 6 6)) h₃ l₃

theorem regroup {t : UInt32} (ht : t.toNat < 2 ^ 24) :
    (t >>> 18 &&& 0x3F) <<< 18 ||| (t >>> 12 &&& 0x3F) <<< 12 ||| (t >>> 6 &&& 0x3F) <<< 6 |||
      (t &&& 0x3F) = t := by
  have hmod : ∀ n, n % 64 < 2 ^ 6 := fun n => Nat.mod_lt n (by decide)
  have htriple := triple_toNat (digit_toNat t (i := 18) (n := 18) rfl (by decide))
    (digit_toNat t (i := 12) (n := 12) rfl (by decide))
    (digit_toNat t (i := 6) (n := 6) rfl (by decide)) (last_digit_toNat t) (hmod _) (hmod _)
    (hmod _) (hmod _)
  rw [← UInt32.toNat_inj, htriple]
  simp only [Nat.reducePow] at ht ⊢
  omega

theorem quantumBytes_regroup {t : UInt32} (ht : t.toNat < 2 ^ 24) (padding : ℕ) :
    quantumBytes padding (t >>> 18 &&& 0x3F) (t >>> 12 &&& 0x3F) (t >>> 6 &&& 0x3F) (t &&& 0x3F) =
      (t >>> 16 &&& 0xFF).toUInt8 ::
        ((if padding ≠ 2 then [(t >>> 8 &&& 0xFF).toUInt8] else []) ++
          if padding ≠ 1 ∧ padding ≠ 2 then [(t &&& 0xFF).toUInt8] else []) := by
  rw [quantumBytes, regroup ht]

theorem triple_bytes {t : UInt32} {a b c : Byte}
    (ht : t.toNat = a.toNat * 2 ^ 16 + b.toNat * 2 ^ 8 + c.toNat) :
    t.toNat < 2 ^ 24 ∧ (t >>> 16 &&& 0xFF).toUInt8 = a ∧ (t >>> 8 &&& 0xFF).toUInt8 = b ∧
      (t &&& 0xFF).toUInt8 = c := by
  have ha := a.toNat_lt
  have hb := b.toNat_lt
  have hc := c.toNat_lt
  have hfirst := word_byte t (i := 16) (n := 16) rfl (by decide)
  have hsecond := word_byte t (i := 8) (n := 8) rfl (by decide)
  have hlast := word_byte t (i := 0) (n := 0) rfl (by decide)
  simp only [UInt32.shiftRight_zero, Nat.reducePow, Nat.div_one] at *
  rw [hfirst, hsecond, hlast, ht]
  refine ⟨by omega, ?_, ?_, ?_⟩
  · rw [show (a.toNat * 65536 + b.toNat * 256 + c.toNat) / 65536 % 256 = a.toNat by omega,
      UInt8.ofNat_toNat]
  · rw [show (a.toNat * 65536 + b.toNat * 256 + c.toNat) / 256 % 256 = b.toNat by omega,
      UInt8.ofNat_toNat]
  · rw [show (a.toNat * 65536 + b.toNat * 256 + c.toNat) % 256 = c.toNat by omega,
      UInt8.ofNat_toNat]

theorem leadingValue_iff {c : Byte} {v : UInt32} :
    leadingValue c = some v ↔ c ≠ padChar ∧ base64Value c = some v := by
  rw [leadingValue]
  split
  · simp [*]
  · simp [*]

theorem leadingValue_char (v : UInt32) : leadingValue (base64Char v) = some (v &&& 0x3F) :=
  leadingValue_iff.mpr (base64Char_value v).symm

theorem decodeQuantum_triple {t : UInt32} (last : Bool) (ht : t.toNat < 2 ^ 24) :
    decodeQuantum last (base64Char (t >>> 18)) (base64Char (t >>> 12)) (base64Char (t >>> 6))
      (base64Char t) =
    some [(t >>> 16 &&& 0xFF).toUInt8, (t >>> 8 &&& 0xFF).toUInt8, (t &&& 0xFF).toUInt8] := by
  unfold decodeQuantum
  simp only [leadingValue_char, (base64Char_value _).1, (base64Char_value _).2, if_false]
  exact congrArg some (quantumBytes_regroup ht 0)

theorem decodeQuantum_two {t : UInt32} (ht : t.toNat < 2 ^ 24) (hzero : t.toNat % 64 = 0) :
    decodeQuantum true (base64Char (t >>> 18)) (base64Char (t >>> 12)) (base64Char (t >>> 6))
      padChar = some [(t >>> 16 &&& 0xFF).toUInt8, (t >>> 8 &&& 0xFF).toUInt8] := by
  have hlow : t &&& 0x3F = 0 := by
    rw [← UInt32.toNat_inj, last_digit_toNat, hzero]
    rfl
  have hbytes := quantumBytes_regroup ht 1
  rw [hlow] at hbytes
  unfold decodeQuantum
  simp only [leadingValue_char, (base64Char_value _).1, (base64Char_value _).2, if_false, if_true]
  exact congrArg some hbytes

theorem decodeQuantum_one {t : UInt32} (ht : t.toNat < 2 ^ 24) (hzero : t.toNat % 4096 = 0) :
    decodeQuantum true (base64Char (t >>> 18)) (base64Char (t >>> 12)) padChar padChar =
      some [(t >>> 16 &&& 0xFF).toUInt8] := by
  have hlow : t &&& 0x3F = 0 := by
    rw [← UInt32.toNat_inj, last_digit_toNat]
    change t.toNat % 64 = 0
    omega
  have hmiddle : t >>> 6 &&& 0x3F = 0 := by
    rw [← UInt32.toNat_inj, digit_toNat t (i := 6) (n := 6) rfl (by decide)]
    change t.toNat / 64 % 64 = 0
    omega
  have hbytes := quantumBytes_regroup ht 2
  rw [hlow, hmiddle] at hbytes
  unfold decodeQuantum
  simp only [leadingValue_char, if_true]
  exact congrArg some hbytes

/-! ### Decoding what was encoded -/

theorem joined_three (a b c : Byte) :
    (a.toUInt32 <<< 16 ||| b.toUInt32 <<< 8 ||| c.toUInt32).toNat =
      a.toNat * 2 ^ 16 + b.toNat * 2 ^ 8 + c.toNat := by
  have htwo := or_toNat (shift_byte a (k := 16) (n := 16) rfl (by decide))
    (shift_byte b (k := 8) (n := 8) rfl (by decide)) (place_lt b.toNat_lt 8)
  rw [or_toNat (htwo.trans (place_add a.toNat b.toNat 8 8)) (UInt8.toNat_toUInt32 c) c.toNat_lt,
    ← place_add a.toNat b.toNat 8 8]

theorem joined_two (a b : Byte) : (a.toUInt32 <<< 16 ||| b.toUInt32 <<< 8).toNat =
    a.toNat * 2 ^ 16 + b.toNat * 2 ^ 8 :=
  or_toNat (shift_byte a (k := 16) (n := 16) rfl (by decide))
    (shift_byte b (k := 8) (n := 8) rfl (by decide)) (place_lt b.toNat_lt 8)

theorem decodeQuanta_encode (x : Bytes) : decodeQuanta (base64Encode x) = some x := by
  have hzero : UInt8.toNat 0 = 0 := rfl
  induction x using base64Encode.induct with
  | case1 a b c rest ih =>
    obtain ⟨hlt, hfirst, hsecond, hthird⟩ := triple_bytes (joined_three a b c)
    rw [base64Encode, decodeQuanta, decodeQuantum_triple _ hlt, hfirst, hsecond, hthird, ih]
    rfl
  | case2 a b =>
    have htwo := joined_two a b
    obtain ⟨hlt, hfirst, hsecond, -⟩ := triple_bytes (a := a) (b := b) (c := 0)
      (by rw [htwo, hzero, Nat.add_zero])
    have hlow : (a.toUInt32 <<< 16 ||| b.toUInt32 <<< 8).toNat % 64 = 0 := by
      rw [htwo]
      simp only [Nat.reducePow]
      omega
    have hquantum := decodeQuantum_two hlt hlow
    rw [hfirst, hsecond] at hquantum
    rw [base64Encode, decodeQuanta, List.isEmpty_nil, hquantum]
    rfl
  | case3 a =>
    have hone := shift_byte a (k := 16) (n := 16) rfl (by decide)
    obtain ⟨hlt, hfirst, -, -⟩ := triple_bytes (a := a) (b := 0) (c := 0)
      (by rw [hone, hzero, Nat.zero_mul, Nat.add_zero])
    have hlow : (a.toUInt32 <<< 16).toNat % 4096 = 0 := by
      rw [hone]
      simp only [Nat.reducePow]
      omega
    have hquantum := decodeQuantum_one hlt hlow
    rw [hfirst] at hquantum
    rw [base64Encode, decodeQuanta, List.isEmpty_nil, hquantum]
    rfl
  | case4 => rfl

theorem base64Encode_length (x : Bytes) : (base64Encode x).length % 4 = 0 := by
  induction x using base64Encode.induct with
  | case1 a b c rest ih =>
    simp only [base64Encode, List.length_cons]
    omega
  | case2 a b => simp only [base64Encode, List.length_cons, List.length_nil]
  | case3 a => simp only [base64Encode, List.length_cons, List.length_nil]
  | case4 => rfl

theorem decode_encode (x : Bytes) : base64Decode (base64Encode x) = some x := by
  rw [base64Decode, base64Encode_length, decodeQuanta_encode]
  rfl

/-! ### What is decoded -/

/-- Characters of the alphabet, and up to two `=` behind them. -/
def Padded (s : Bytes) : Prop := ∃ body pad, s = body ++ List.replicate pad padChar ∧ pad ≤ 2 ∧
  ∀ c ∈ body, c ∈ kBase64Alphabet

theorem exists_value {c : Byte} (h : c ∈ kBase64Alphabet) : ∃ v, base64Value c = some v :=
  Option.isSome_iff_exists.mp ((base64Value_isSome c).mpr h)

theorem mem_of_value {c : Byte} {v : UInt32} (h : base64Value c = some v) : c ∈ kBase64Alphabet :=
  (base64Value_isSome c).mp (h ▸ rfl)

theorem padChar_notMem : padChar ∉ kBase64Alphabet := by decide

/-- The forms of a quantum, and how many bytes each of them has. -/
inductive Quantum (last : Bool) (c₀ c₁ c₂ c₃ : Byte) : ℕ → Prop
  | full (h₂ : c₂ ∈ kBase64Alphabet) (h₃ : c₃ ∈ kBase64Alphabet) : Quantum last c₀ c₁ c₂ c₃ 3
  | two (hlast : last = true) (h₂ : c₂ ∈ kBase64Alphabet) (h₃ : c₃ = padChar) :
      Quantum last c₀ c₁ c₂ c₃ 2
  | one (hlast : last = true) (h₂ : c₂ = padChar) (h₃ : c₃ = padChar) : Quantum last c₀ c₁ c₂ c₃ 1

theorem decodeQuantum_some {last : Bool} {c₀ c₁ c₂ c₃ : Byte} {out : Bytes}
    (h : decodeQuantum last c₀ c₁ c₂ c₃ = some out) :
    c₀ ∈ kBase64Alphabet ∧ c₁ ∈ kBase64Alphabet ∧ Quantum last c₀ c₁ c₂ c₃ out.length := by
  unfold decodeQuantum at h
  obtain ⟨v₀, h₀, h⟩ := Option.bind_eq_some_iff.mp h
  obtain ⟨v₁, h₁, h⟩ := Option.bind_eq_some_iff.mp h
  refine ⟨mem_of_value (leadingValue_iff.mp h₀).2, mem_of_value (leadingValue_iff.mp h₁).2, ?_⟩
  split at h
  · rename_i h₂
    split at h
    · rename_i hlast
      rw [Bool.and_eq_true, beq_iff_eq] at hlast
      cases h
      exact .one hlast.1 h₂ hlast.2
    · cases h
  · obtain ⟨v₂, h₂, h⟩ := Option.bind_eq_some_iff.mp h
    split at h
    · rename_i h₃
      split at h
      · rename_i hlast
        cases h
        exact .two hlast (mem_of_value h₂) h₃
      · cases h
    · obtain ⟨v₃, h₃, h⟩ := Option.bind_eq_some_iff.mp h
      cases h
      exact .full (mem_of_value h₂) (mem_of_value h₃)

theorem exists_decodeQuantum {last : Bool} {c₀ c₁ c₂ c₃ : Byte} {n : ℕ}
    (h₀ : c₀ ∈ kBase64Alphabet) (h₁ : c₁ ∈ kBase64Alphabet) (h : Quantum last c₀ c₁ c₂ c₃ n) :
    ∃ out, decodeQuantum last c₀ c₁ c₂ c₃ = some out := by
  have hne : ∀ {c : Byte}, c ∈ kBase64Alphabet → c ≠ padChar := by
    rintro c hc rfl
    exact padChar_notMem hc
  obtain ⟨v₀, hv₀⟩ := exists_value h₀
  obtain ⟨v₁, hv₁⟩ := exists_value h₁
  unfold decodeQuantum
  simp only [leadingValue_iff.mpr ⟨hne h₀, hv₀⟩, leadingValue_iff.mpr ⟨hne h₁, hv₁⟩]
  cases h with
  | full h₂ h₃ =>
    obtain ⟨v₂, hv₂⟩ := exists_value h₂
    obtain ⟨v₃, hv₃⟩ := exists_value h₃
    simp only [hne h₂, hne h₃, if_false, hv₂, hv₃]
    exact ⟨_, rfl⟩
  | two hlast h₂ h₃ =>
    obtain ⟨v₂, hv₂⟩ := exists_value h₂
    simp only [hne h₂, h₃, hlast, if_false, if_true, hv₂]
    exact ⟨_, rfl⟩
  | one hlast h₂ h₃ =>
    simp only [h₂, h₃, hlast, if_true]
    exact ⟨_, rfl⟩

theorem padded_nil : Padded [] := ⟨[], 0, rfl, by decide, by decide⟩

/-- A string is filled up quantum by quantum: only the last one has room for it. -/
theorem padded_quantum {c₀ c₁ c₂ c₃ : Byte} {rest : Bytes} (h4 : rest.length % 4 = 0) :
    Padded (c₀ :: c₁ :: c₂ :: c₃ :: rest) ↔ c₀ ∈ kBase64Alphabet ∧ c₁ ∈ kBase64Alphabet ∧
      (∃ n, Quantum rest.isEmpty c₀ c₁ c₂ c₃ n) ∧ Padded rest := by
  constructor
  · rintro ⟨body, pad, hs, hpad, hbody⟩
    have hlen := congrArg List.length hs
    simp only [List.length_cons, List.length_append, List.length_replicate] at hlen
    rcases body with _ | ⟨x, _ | ⟨y, _ | ⟨z, _ | ⟨w, body⟩⟩⟩⟩
    · rw [List.length_nil] at hlen
      omega
    · rw [List.length_singleton] at hlen
      omega
    · have hpad2 : pad = 2 := by
        simp only [List.length_cons, List.length_nil] at hlen
        omega
      subst hpad2
      obtain ⟨rfl, rfl, rfl, rfl, rfl⟩ := by simpa using hs
      exact ⟨hbody _ (by simp), hbody _ (by simp), ⟨1, .one rfl rfl rfl⟩, padded_nil⟩
    · have hpad1 : pad = 1 := by
        simp only [List.length_cons, List.length_nil] at hlen
        omega
      subst hpad1
      obtain ⟨rfl, rfl, rfl, rfl, rfl⟩ := by simpa using hs
      exact ⟨hbody _ (by simp), hbody _ (by simp), ⟨2, .two rfl (hbody _ (by simp)) rfl⟩,
        padded_nil⟩
    · simp only [List.cons_append, List.cons.injEq] at hs
      obtain ⟨rfl, rfl, rfl, rfl, hrest⟩ := hs
      exact ⟨hbody _ (by simp), hbody _ (by simp),
        ⟨3, .full (hbody _ (by simp)) (hbody _ (by simp))⟩, body, pad, hrest, hpad,
        fun c hc => hbody c (by simp [hc])⟩
  · rintro ⟨h₀, h₁, ⟨n, hq⟩, body, pad, hrest, hpad, hbody⟩
    cases hq with
    | full h₂ h₃ =>
      refine ⟨c₀ :: c₁ :: c₂ :: c₃ :: body, pad, by rw [hrest]; rfl, hpad, ?_⟩
      simpa [h₀, h₁, h₂, h₃] using hbody
    | two hlast h₂ h₃ =>
      rw [List.isEmpty_iff.mp hlast]
      exact ⟨[c₀, c₁, c₂], 1, by rw [h₃]; rfl, by decide, by simp [h₀, h₁, h₂]⟩
    | one hlast h₂ h₃ =>
      rw [List.isEmpty_iff.mp hlast]
      exact ⟨[c₀, c₁], 2, by rw [h₂, h₃]; rfl, by decide, by simp [h₀, h₁]⟩

theorem count_quantum {last : Bool} {c₀ c₁ c₂ c₃ : Byte} {n : ℕ} (h₀ : c₀ ∈ kBase64Alphabet)
    (h₁ : c₁ ∈ kBase64Alphabet) (h : Quantum last c₀ c₁ c₂ c₃ n) (rest : Bytes) :
    n + (c₀ :: c₁ :: c₂ :: c₃ :: rest).count padChar = 3 + rest.count padChar := by
  have hne : ∀ {c : Byte}, c ∈ kBase64Alphabet → (c == padChar) = false := by
    intro c hc
    rw [beq_eq_false_iff_ne]
    rintro rfl
    exact padChar_notMem hc
  simp only [List.count_cons, hne h₀, hne h₁]
  cases h with
  | full h₂ h₃ =>
    rw [hne h₂, hne h₃]
    simp only [Bool.false_eq_true, if_false]
    omega
  | two hlast h₂ h₃ =>
    rw [hne h₂, h₃]
    simp only [Bool.false_eq_true, if_false, beq_self_eq_true, if_true]
    omega
  | one hlast h₂ h₃ =>
    rw [h₂, h₃]
    simp only [Bool.false_eq_true, if_false, beq_self_eq_true, if_true]
    omega

theorem decodeQuanta_cons {c₀ c₁ c₂ c₃ : Byte} {rest out : Bytes} :
    decodeQuanta (c₀ :: c₁ :: c₂ :: c₃ :: rest) = some out ↔
      ∃ q tail, decodeQuantum rest.isEmpty c₀ c₁ c₂ c₃ = some q ∧ decodeQuanta rest = some tail ∧
        out = q ++ tail := by
  rw [decodeQuanta]
  constructor
  · intro h
    obtain ⟨q, hq, h⟩ := Option.bind_eq_some_iff.mp h
    obtain ⟨tail, htail, h⟩ := Option.bind_eq_some_iff.mp h
    exact ⟨q, tail, hq, htail, (Option.some.inj h).symm⟩
  · rintro ⟨q, tail, hq, htail, rfl⟩
    rw [hq, htail]
    rfl

theorem eq_nil_of_rest {s : Bytes} (h4 : s.length % 4 = 0)
    (hs : ∀ c₀ c₁ c₂ c₃ rest, s = c₀ :: c₁ :: c₂ :: c₃ :: rest → False) : s = [] := by
  rcases s with _ | ⟨c₀, _ | ⟨c₁, _ | ⟨c₂, _ | ⟨c₃, rest⟩⟩⟩⟩
  · rfl
  · cases h4
  · cases h4
  · cases h4
  · exact (hs c₀ c₁ c₂ c₃ rest rfl).elim

theorem exists_decodeQuanta {s : Bytes} (h4 : s.length % 4 = 0) :
    (∃ out, decodeQuanta s = some out) ↔ Padded s := by
  induction s using decodeQuanta.induct with
  | case1 c₀ c₁ c₂ c₃ rest ih =>
    have hrest : rest.length % 4 = 0 := by
      simp only [List.length_cons] at h4
      omega
    rw [padded_quantum hrest, ← ih hrest]
    constructor
    · rintro ⟨out, h⟩
      obtain ⟨q, tail, hq, htail, -⟩ := decodeQuanta_cons.mp h
      obtain ⟨h₀, h₁, hquantum⟩ := decodeQuantum_some hq
      exact ⟨h₀, h₁, ⟨_, hquantum⟩, tail, htail⟩
    · rintro ⟨h₀, h₁, ⟨n, hquantum⟩, tail, htail⟩
      obtain ⟨q, hq⟩ := exists_decodeQuantum h₀ h₁ hquantum
      exact ⟨q ++ tail, decodeQuanta_cons.mpr ⟨q, tail, hq, htail, rfl⟩⟩
  | case2 s hs =>
    rw [eq_nil_of_rest h4 hs]
    exact ⟨fun _ => padded_nil, fun _ => ⟨[], rfl⟩⟩

theorem decodeQuanta_length {s out : Bytes} (h4 : s.length % 4 = 0)
    (h : decodeQuanta s = some out) : out.length + s.count padChar = 3 * (s.length / 4) := by
  induction s using decodeQuanta.induct generalizing out with
  | case1 c₀ c₁ c₂ c₃ rest ih =>
    have hrest : rest.length % 4 = 0 := by
      simp only [List.length_cons] at h4
      omega
    obtain ⟨q, tail, hq, htail, rfl⟩ := decodeQuanta_cons.mp h
    obtain ⟨h₀, h₁, hquantum⟩ := decodeQuantum_some hq
    have hcount := count_quantum h₀ h₁ hquantum rest
    have htaillen := ih hrest htail
    rw [List.length_append]
    simp only [List.length_cons] at h4 hcount ⊢
    omega
  | case2 s hs =>
    rw [eq_nil_of_rest h4 hs] at h ⊢
    cases h
    rfl

theorem base64Decode_some {s out : Bytes} :
    base64Decode s = some out ↔ s.length % 4 = 0 ∧ decodeQuanta s = some out := by
  rw [base64Decode]
  split
  · rename_i h4
    constructor
    · intro h
      cases h
    · intro h
      exact (h4 h.1).elim
  · rename_i h4
    exact ⟨fun h => ⟨not_not.mp h4, h⟩, fun h => h.2⟩

/-! ### The answer to a key -/

theorem base64Encode_ne_nil {x : Bytes} (h : x ≠ []) : base64Encode x ≠ [] := by
  rcases x with _ | ⟨a, _ | ⟨b, _ | ⟨c, rest⟩⟩⟩
  · exact (h rfl).elim
  · exact List.cons_ne_nil _ _
  · exact List.cons_ne_nil _ _
  · exact List.cons_ne_nil _ _

theorem computeAccept_ne_nil {key : Bytes} :
    computeAccept key ≠ [] ↔ ∃ decoded, base64Decode key = some decoded ∧ decoded.length = 16 := by
  unfold computeAccept
  cases hdecoded : base64Decode key with
  | none => simp
  | some decoded =>
    have hanswer : base64Encode (sha1 (key ++ kWebSocketGuid)) ≠ [] :=
      base64Encode_ne_nil (List.cons_ne_nil _ _)
    simp [hanswer]

/-- Encoding and decoding are exact, and a key is answered just when it stands for 16 bytes. -/
theorem base64_exact (x s key : Bytes) :
    base64Decode (base64Encode x) = some x ∧
    ((∃ out, base64Decode s = some out) ↔ s.length % 4 = 0 ∧ Padded s) ∧
    (∀ out, base64Decode s = some out → out.length + s.count padChar = 3 * (s.length / 4)) ∧
    (computeAccept key ≠ [] ↔ ∃ decoded, base64Decode key = some decoded ∧ decoded.length = 16) := by
  refine ⟨decode_encode x, ⟨?_, ?_⟩, fun out h => ?_, computeAccept_ne_nil⟩
  · rintro ⟨out, h⟩
    obtain ⟨h4, hloop⟩ := base64Decode_some.mp h
    exact ⟨h4, (exists_decodeQuanta h4).mp ⟨out, hloop⟩⟩
  · rintro ⟨h4, hpadded⟩
    obtain ⟨out, hloop⟩ := (exists_decodeQuanta h4).mpr hpadded
    exact ⟨out, base64Decode_some.mpr ⟨h4, hloop⟩⟩
  · obtain ⟨h4, hloop⟩ := base64Decode_some.mp h
    exact decodeQuanta_length h4 hloop

example : base64Encode (ascii "Man, M") = ascii "TWFuLCBN" := by decide +kernel

end Aevrix.Ws
