import Aevrix.Http.Bytes

/-!
# UTF-8 of text messages (`websocket_connection.cpp:280-330`)

The check of the session, over the bytes still to look at. It accepts exactly the
encodings of sequences of Unicode scalar values (`validUtf8_iff`).
-/

namespace Aevrix.Ws

/-- What a lead byte announces: how many bytes follow, its own bits of the code point, and
the least code point of that length. -/
def leadByte (byte : Byte) : Option (ℕ × ℕ × ℕ) :=
  if byte &&& 0xE0 = 0xC0 then some (1, (byte &&& 0x1F).toNat, 0x80)
  else if byte &&& 0xF0 = 0xE0 then some (2, (byte &&& 0x0F).toNat, 0x800)
  else if byte &&& 0xF8 = 0xF0 then some (3, (byte &&& 0x07).toNat, 0x10000)
  else none

/-- The code point with `extra` continuation bytes taken in. -/
def takeContinuations : ℕ → ℕ → Bytes → Option (ℕ × Bytes)
  | 0, codePoint, rest => some (codePoint, rest)
  | _ + 1, _, [] => none
  | extra + 1, codePoint, cont :: rest =>
    if cont &&& 0xC0 = 0x80 then
      takeContinuations extra (codePoint * 64 + (cont &&& 0x3F).toNat) rest
    else none

/-- One pass of the loop: the first code point and the bytes behind it. -/
def readCodePoint (byte : Byte) (rest : Bytes) : Option (ℕ × Bytes) :=
  if byte ≤ 0x7F then some (byte.toNat, rest)
  else match leadByte byte with
    | none => none
    | some (extra, bits, min) =>
      if rest.length < extra then none
      else match takeContinuations extra bits rest with
        | none => none
        | some (codePoint, rest) =>
          -- overlong encodings, surrogates and values out of range
          if codePoint < min ∨ codePoint > 0x10FFFF ∨ (0xD800 ≤ codePoint ∧ codePoint ≤ 0xDFFF)
          then none
          else some (codePoint, rest)

def validUtf8For : ℕ → Bytes → Bool
  | _, [] => true
  | 0, _ :: _ => false
  | fuel + 1, byte :: rest => match readCodePoint byte rest with
    | none => false
    | some (_, rest) => validUtf8For fuel rest

/-- `valid_utf8`; every pass takes a byte. -/
def validUtf8 (text : Bytes) : Bool := validUtf8For text.length text

/-- The purpose of the check: the text is a sequence of encoded characters. -/
def IsUtf8 (text : Bytes) : Prop := ∃ cs : List Char, text = cs.flatMap String.utf8EncodeChar

/-! ### Lead and continuation bytes -/

theorem ascii_byte {v : ℕ} (h : v ≤ 0x7F) : UInt8.ofNat v ≤ 0x7F ∧ (UInt8.ofNat v).toNat = v := by
  have hv : (UInt8.ofNat v).toNat = v := UInt8.toNat_ofNat_of_lt' (by simp only [UInt8.size]; omega)
  refine ⟨?_, hv⟩
  rw [UInt8.le_iff_toNat_le, hv]
  exact h

theorem leadByte_two {k : ℕ} (h : k < 0x20) :
    ¬UInt8.ofNat (k + 0xC0) ≤ 0x7F ∧ leadByte (UInt8.ofNat (k + 0xC0)) = some (1, k, 0x80) := by
  revert k
  decide

theorem leadByte_three {k : ℕ} (h : k < 0x10) :
    ¬UInt8.ofNat (k + 0xE0) ≤ 0x7F ∧ leadByte (UInt8.ofNat (k + 0xE0)) = some (2, k, 0x800) := by
  revert k
  decide

theorem leadByte_four {k : ℕ} (h : k < 0x08) :
    ¬UInt8.ofNat (k + 0xF0) ≤ 0x7F ∧ leadByte (UInt8.ofNat (k + 0xF0)) = some (3, k, 0x10000) := by
  revert k
  decide

theorem continuation_byte {k : ℕ} (h : k < 0x40) :
    UInt8.ofNat (k + 0x80) &&& 0xC0 = 0x80 ∧ (UInt8.ofNat (k + 0x80) &&& 0x3F).toNat = k := by
  revert k
  decide

theorem byte_cases {P : Byte → Prop} (h : ∀ n < 256, P (UInt8.ofNat n)) (byte : Byte) : P byte := by
  rw [← UInt8.ofNat_toNat (x := byte)]
  exact h byte.toNat byte.toNat_lt

theorem of_ascii_byte {byte : Byte} (h : byte ≤ 0x7F) :
    byte.toNat ≤ 0x7F ∧ byte = UInt8.ofNat byte.toNat :=
  ⟨UInt8.le_iff_toNat_le.mp h, UInt8.ofNat_toNat.symm⟩

theorem of_leadByte {byte : Byte} {extra bits min : ℕ} (h : leadByte byte = some (extra, bits, min)) :
    (extra = 1 ∧ min = 0x80 ∧ bits < 0x20 ∧ byte = UInt8.ofNat (bits + 0xC0)) ∨
    (extra = 2 ∧ min = 0x800 ∧ bits < 0x10 ∧ byte = UInt8.ofNat (bits + 0xE0)) ∨
    (extra = 3 ∧ min = 0x10000 ∧ bits < 0x08 ∧ byte = UInt8.ofNat (bits + 0xF0)) := by
  have hall : ∀ byte : Byte, ∀ lead ∈ (leadByte byte).toList,
      (lead.1 = 1 ∧ lead.2.2 = 0x80 ∧ lead.2.1 < 0x20 ∧ byte = UInt8.ofNat (lead.2.1 + 0xC0)) ∨
      (lead.1 = 2 ∧ lead.2.2 = 0x800 ∧ lead.2.1 < 0x10 ∧ byte = UInt8.ofNat (lead.2.1 + 0xE0)) ∨
      (lead.1 = 3 ∧ lead.2.2 = 0x10000 ∧ lead.2.1 < 0x08 ∧
        byte = UInt8.ofNat (lead.2.1 + 0xF0)) := by
    apply byte_cases
    decide +kernel
  exact hall byte (extra, bits, min) (by rw [h]; exact List.mem_singleton_self _)

theorem of_continuation_byte {cont : Byte} (h : cont &&& 0xC0 = 0x80) :
    (cont &&& 0x3F).toNat < 0x40 ∧ cont = UInt8.ofNat ((cont &&& 0x3F).toNat + 0x80) := by
  revert cont
  apply byte_cases
  decide +kernel

/-- Low groups of six bits, most significant first, as continuation bytes. -/
def tail : ℕ → ℕ → Bytes
  | 0, _ => []
  | extra + 1, v => UInt8.ofNat (v / 64 ^ extra % 0x40 + 0x80) :: tail extra v

@[simp] theorem tail_length (extra v : ℕ) : (tail extra v).length = extra := by
  induction extra with
  | zero => rfl
  | succ extra ih => rw [tail, List.length_cons, ih]

/-- The continuation bytes bring back the number whose high part came from the lead byte. -/
theorem takeContinuations_tail (extra v : ℕ) (x : Bytes) :
    takeContinuations extra (v / 64 ^ extra) (tail extra v ++ x) = some (v, x) := by
  induction extra with
  | zero => simp only [takeContinuations, tail, Nat.pow_zero, Nat.div_one, List.nil_append]
  | succ extra ih =>
    obtain ⟨hcont, hbits⟩ := continuation_byte (Nat.mod_lt (v / 64 ^ extra) (by decide : 0 < 0x40))
    have hnext : v / 64 ^ (extra + 1) * 64 + v / 64 ^ extra % 0x40 = v / 64 ^ extra := by
      rw [Nat.pow_succ, ← Nat.div_div_eq_div_mul]
      omega
    rw [tail, List.cons_append, takeContinuations, if_pos hcont, hbits, hnext]
    exact ih

theorem of_takeContinuations {extra bits v : ℕ} {u r : Bytes}
    (h : takeContinuations extra bits u = some (v, r)) :
    v / 64 ^ extra = bits ∧ u = tail extra v ++ r := by
  induction extra generalizing bits u with
  | zero =>
    simp only [takeContinuations, Option.some.injEq, Prod.mk.injEq] at h
    obtain ⟨rfl, rfl⟩ := h
    exact ⟨by rw [Nat.pow_zero, Nat.div_one], rfl⟩
  | succ extra ih =>
    cases u with
    | nil => cases h
    | cons cont u =>
      rw [takeContinuations] at h
      split at h
      · rename_i hcont
        obtain ⟨hlt, hbyte⟩ := of_continuation_byte hcont
        obtain ⟨hv, rfl⟩ := ih h
        have hlow : v / 64 ^ extra % 0x40 = (cont &&& 0x3F).toNat := by omega
        refine ⟨?_, ?_⟩
        · rw [Nat.pow_succ, ← Nat.div_div_eq_div_mul, hv]
          omega
        · rw [tail, hlow, ← hbyte, List.cons_append]
      · cases h

/-! ### One code point -/

theorem encodeChar_eq (c : Char) : String.utf8EncodeChar c =
    if c.toNat ≤ 0x7F then [UInt8.ofNat c.toNat]
    else if c.toNat ≤ 0x7FF then UInt8.ofNat (c.toNat / 64 ^ 1 % 0x20 + 0xC0) :: tail 1 c.toNat
    else if c.toNat ≤ 0xFFFF then UInt8.ofNat (c.toNat / 64 ^ 2 % 0x10 + 0xE0) :: tail 2 c.toNat
    else UInt8.ofNat (c.toNat / 64 ^ 3 % 0x08 + 0xF0) :: tail 3 c.toNat := by
  simp only [tail, Nat.pow_zero, Nat.div_one]
  rfl

/-- A lead byte with its continuation bytes, none of the rejected code points. -/
theorem readCodePoint_tail {byte : Byte} {extra v min : ℕ} (hascii : ¬byte ≤ 0x7F)
    (hlead : leadByte byte = some (extra, v / 64 ^ extra, min)) (hmin : min ≤ v)
    (hv : v.isValidChar) (x : Bytes) : readCodePoint byte (tail extra v ++ x) = some (v, x) := by
  have hlen : ¬(tail extra v ++ x).length < extra := by
    rw [List.length_append, tail_length]
    omega
  have hscalar : ¬(v < min ∨ v > 0x10FFFF ∨ (0xD800 ≤ v ∧ v ≤ 0xDFFF)) := by
    unfold Nat.isValidChar at hv
    omega
  simp only [readCodePoint, if_neg hascii, hlead, if_neg hlen, takeContinuations_tail,
    if_neg hscalar]

theorem readCodePoint_encode (c : Char) : ∃ byte rest, String.utf8EncodeChar c = byte :: rest ∧
    ∀ x, readCodePoint byte (rest ++ x) = some (c.toNat, x) := by
  have hv : c.toNat.isValidChar := c.valid
  have hmax : c.toNat ≤ 0x10FFFF := by
    unfold Nat.isValidChar at hv
    omega
  rw [encodeChar_eq]
  generalize c.toNat = v at hv hmax
  by_cases h1 : v ≤ 0x7F
  · obtain ⟨hle, hnat⟩ := ascii_byte h1
    refine ⟨UInt8.ofNat v, [], by rw [if_pos h1], fun x => ?_⟩
    rw [readCodePoint, if_pos hle, hnat, List.nil_append]
  by_cases h2 : v ≤ 0x7FF
  · have hk : v / 64 ^ 1 < 0x20 := by omega
    obtain ⟨hascii, hlead⟩ := leadByte_two hk
    rw [if_neg h1, if_pos h2, Nat.mod_eq_of_lt hk]
    exact ⟨_, _, rfl, readCodePoint_tail hascii hlead (by omega) hv⟩
  by_cases h3 : v ≤ 0xFFFF
  · have hk : v / 64 ^ 2 < 0x10 := by omega
    obtain ⟨hascii, hlead⟩ := leadByte_three hk
    rw [if_neg h1, if_neg h2, if_pos h3, Nat.mod_eq_of_lt hk]
    exact ⟨_, _, rfl, readCodePoint_tail hascii hlead (by omega) hv⟩
  · have hk : v / 64 ^ 3 < 0x08 := by omega
    obtain ⟨hascii, hlead⟩ := leadByte_four hk
    rw [if_neg h1, if_neg h2, if_neg h3, Nat.mod_eq_of_lt hk]
    exact ⟨_, _, rfl, readCodePoint_tail hascii hlead (by omega) hv⟩

theorem of_readCodePoint {byte : Byte} {rest r : Bytes} {v : ℕ}
    (h : readCodePoint byte rest = some (v, r)) :
    ∃ c : Char, byte :: rest = String.utf8EncodeChar c ++ r := by
  have hchar : ∀ {v : ℕ} (hv : v.isValidChar), (Char.ofNatAux v hv).toNat = v := fun _ => rfl
  unfold readCodePoint at h
  split at h
  · rename_i hascii
    obtain ⟨hle, hbyte⟩ := of_ascii_byte hascii
    simp only [Option.some.injEq, Prod.mk.injEq] at h
    obtain ⟨rfl, rfl⟩ := h
    refine ⟨Char.ofNatAux byte.toNat (Or.inl (by omega)), ?_⟩
    rw [encodeChar_eq, hchar, if_pos hle, ← hbyte]
    rfl
  · split at h
    · cases h
    · rename_i extra bits min hlead
      split at h
      · cases h
      · split at h
        · cases h
        · rename_i codePoint rest' htake
          split at h
          · cases h
          · rename_i hok
            simp only [Option.some.injEq, Prod.mk.injEq] at h
            obtain ⟨rfl, rfl⟩ := h
            obtain ⟨hbits, rfl⟩ := of_takeContinuations htake
            have hv : codePoint.isValidChar := by
              unfold Nat.isValidChar
              omega
            refine ⟨Char.ofNatAux codePoint hv, ?_⟩
            rw [encodeChar_eq, hchar]
            rcases of_leadByte hlead with ⟨rfl, rfl, hlt, rfl⟩ | ⟨rfl, rfl, hlt, rfl⟩ |
              ⟨rfl, rfl, hlt, rfl⟩
            · rw [if_neg (by omega), if_pos (by omega), hbits, Nat.mod_eq_of_lt hlt]
              rfl
            · rw [if_neg (by omega), if_neg (by omega), if_pos (by omega), hbits,
                Nat.mod_eq_of_lt hlt]
              rfl
            · rw [if_neg (by omega), if_neg (by omega), if_neg (by omega), hbits,
                Nat.mod_eq_of_lt hlt]
              rfl

/-! ### The whole text -/

theorem validUtf8For_encode (cs : List Char) (fuel : ℕ)
    (hfuel : (cs.flatMap String.utf8EncodeChar).length ≤ fuel) :
    validUtf8For fuel (cs.flatMap String.utf8EncodeChar) = true := by
  induction cs generalizing fuel with
  | nil => rw [List.flatMap_nil, validUtf8For]
  | cons c cs ih =>
    obtain ⟨byte, rest, hc, hread⟩ := readCodePoint_encode c
    rw [List.flatMap_cons, hc, List.cons_append] at hfuel ⊢
    rw [List.length_cons, List.length_append] at hfuel
    obtain ⟨n, rfl⟩ := Nat.exists_eq_succ_of_ne_zero (by omega : fuel ≠ 0)
    rw [validUtf8For, hread]
    exact ih n (by omega)

theorem of_validUtf8For {fuel : ℕ} {text : Bytes} (h : validUtf8For fuel text = true) :
    IsUtf8 text := by
  induction fuel generalizing text with
  | zero =>
    cases text with
    | nil => exact ⟨[], rfl⟩
    | cons byte rest => cases h
  | succ fuel ih =>
    cases text with
    | nil => exact ⟨[], rfl⟩
    | cons byte rest =>
      rw [validUtf8For] at h
      split at h
      · cases h
      · rename_i v r hread
        obtain ⟨c, hc⟩ := of_readCodePoint hread
        obtain ⟨cs, rfl⟩ := ih h
        exact ⟨c :: cs, by rw [hc, List.flatMap_cons]⟩

theorem validUtf8_iff (text : Bytes) : validUtf8 text = true ↔ IsUtf8 text := by
  constructor
  · exact of_validUtf8For
  · rintro ⟨cs, rfl⟩
    exact validUtf8For_encode cs _ (Nat.le_refl _)

/-! ### Indices -/

/-- The continuation bytes from index `i` on; `none` stands for a read past the end. -/
def continuationsAt (text : Bytes) : ℕ → ℕ → ℕ → Option (Option ℕ)
  | 0, _, codePoint => some (some codePoint)
  | extra + 1, i, codePoint => match text[i]? with
    | none => none
    | some cont =>
      if cont &&& 0xC0 = 0x80 then
        continuationsAt text extra (i + 1) (codePoint * 64 + (cont &&& 0x3F).toNat)
      else some none

/-- The loop of `valid_utf8` over the index `i`; `none` stands for a read past the end. -/
def validUtf8From (text : Bytes) : ℕ → ℕ → Option Bool
  | 0, i => some (decide (text.length ≤ i))
  | fuel + 1, i =>
    if text.length ≤ i then some true
    else match text[i]? with
      | none => none
      | some byte =>
        if byte ≤ 0x7F then validUtf8From text fuel (i + 1)
        else match leadByte byte with
          | none => some false
          | some (extra, bits, min) =>
            if text.length ≤ i + extra then some false
            else match continuationsAt text extra (i + 1) bits with
              | none => none
              | some none => some false
              | some (some codePoint) =>
                if codePoint < min ∨ codePoint > 0x10FFFF ∨
                    (0xD800 ≤ codePoint ∧ codePoint ≤ 0xDFFF) then some false
                else validUtf8From text fuel (i + extra + 1)

def validUtf8At (text : Bytes) : Option Bool := validUtf8From text text.length 0

theorem takeContinuations_rest {extra bits v : ℕ} {u r : Bytes}
    (h : takeContinuations extra bits u = some (v, r)) : r = u.drop extra := by
  obtain ⟨-, rfl⟩ := of_takeContinuations h
  rw [List.drop_left' (tail_length extra v)]

theorem continuationsAt_eq (text : Bytes) (extra i codePoint : ℕ) (h : i + extra ≤ text.length) :
    continuationsAt text extra i codePoint =
      some ((takeContinuations extra codePoint (text.drop i)).map Prod.fst) := by
  induction extra generalizing i codePoint with
  | zero => rfl
  | succ extra ih =>
    have hi : i < text.length := by omega
    rw [continuationsAt, List.getElem?_eq_getElem hi, List.drop_eq_getElem_cons hi, takeContinuations]
    dsimp only
    split
    · exact ih (i + 1) _ (by omega)
    · rfl

/-- The loop over indices reads no byte past the end, and finds what the loop over the bytes does. -/
theorem validUtf8From_eq (text : Bytes) (fuel i : ℕ) :
    validUtf8From text fuel i = some (validUtf8For fuel (text.drop i)) := by
  induction fuel generalizing i with
  | zero =>
    rw [validUtf8From]
    by_cases hi : text.length ≤ i
    · rw [List.drop_eq_nil_of_le hi, validUtf8For, decide_eq_true hi]
    · rw [List.drop_eq_getElem_cons (by omega), validUtf8For, decide_eq_false hi]
  | succ fuel ih =>
    rw [validUtf8From]
    by_cases hi : text.length ≤ i
    · rw [if_pos hi, List.drop_eq_nil_of_le hi, validUtf8For]
    · have hlt : i < text.length := by omega
      rw [if_neg hi, List.getElem?_eq_getElem hlt, List.drop_eq_getElem_cons hlt, validUtf8For]
      dsimp only
      unfold readCodePoint
      split
      · exact ih (i + 1)
      · cases hlead : leadByte text[i] with
        | none => rfl
        | some lead =>
          obtain ⟨extra, bits, min⟩ := lead
          dsimp only
          rw [List.length_drop]
          by_cases hshort : text.length ≤ i + extra
          · rw [if_pos hshort, if_pos (by omega)]
          · rw [if_neg hshort, if_neg (by omega), continuationsAt_eq text extra _ _ (by omega)]
            cases htake : takeContinuations extra bits (text.drop (i + 1)) with
            | none => rfl
            | some p =>
              obtain ⟨codePoint, rest⟩ := p
              have hrest : rest = text.drop (i + extra + 1) := by
                rw [takeContinuations_rest htake, List.drop_drop]
                congr 1
                omega
              dsimp only [Option.map_some]
              split
              · rfl
              · rw [ih, hrest]

/-- The check reads no byte past the end, and accepts exactly the encodings of sequences of Unicode
scalar values. -/
theorem validUtf8At_decides (text : Bytes) :
    ∃ valid, validUtf8At text = some valid ∧ (valid = true ↔ IsUtf8 text) :=
  ⟨validUtf8 text, validUtf8From_eq text text.length 0, validUtf8_iff text⟩

end Aevrix.Ws
