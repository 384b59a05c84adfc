import Aevrix.Static.FileServer

/-!
# Percent-decoding

`url_decode` hands the two characters behind a percent sign to `std::stoi`, which also reads a
sign, white space and a digit with something else behind it. It decodes as it should, unless it
takes such an escape and finds no other reason to reject the string (`urlDecode_exact_iff`).
-/

namespace Aevrix.Static

/-- Two hexadecimal digits follow each percent sign. -/
def WellEscaped (s : Bytes) : Prop := ∀ front back, s = front ++ 37 :: back →
  ∃ h l rest, back = h :: l :: rest ∧ isHexDigit h = true ∧ isHexDigit l = true

/-- The string with a byte for each escape and a space for each plus. -/
def percentDecoded : Bytes → Bytes
  | [] => []
  | 37 :: h :: l :: rest =>
    if isHexDigit h && isHexDigit l then
      (hexDigitValue h * 16 + hexDigitValue l).toUInt8 :: percentDecoded rest
    else 37 :: percentDecoded (h :: l :: rest)
  | c :: rest => (if c = 43 then 32 else c) :: percentDecoded rest

/-- What `url_decode` should do: a string that is well escaped and decodes to one without a percent
sign is decoded, any other is rejected, and then no path comes of it. -/
structure Exact (s : Bytes) : Prop where
  decoded : WellEscaped s ∧ 37 ∉ percentDecoded s → urlDecode s = percentDecoded s
  rejected : ¬(WellEscaped s ∧ 37 ∉ percentDecoded s) →
    urlDecode s = [] ∧ ∀ (t : Filesystem.Tree) (server : StaticFileServer t),
      server.normalizePath s = none

/-- The escapes that the loop comes to. -/
def escapes : Bytes → List Bytes
  | [] => []
  | 37 :: h :: l :: rest =>
    [h, l] :: if (stoiHex [h, l]).isSome then escapes rest else escapes (h :: l :: rest)
  | c :: rest => if c = 37 then rest :: escapes rest else escapes rest

def IsHexPair (e : Bytes) : Prop := ∃ h l, e = [h, l] ∧ isHexDigit h = true ∧ isHexDigit l = true

/-- An escape that leaves a percent sign: it is cut off, refused by `stoi`, or stands for one. -/
def Rejected (e : Bytes) : Prop := e.length ≠ 2 ∨ stoiHex e = none ∨ stoiHex e = some 37

/-! ### What `stoi` makes of two characters -/

theorem isHexDigit_class {c : Byte} (h : isHexDigit c = true) :
    isSpace c = false ∧ c ≠ 45 ∧ c ≠ 43 ∧ c ≠ 37 := by
  unfold isHexDigit isDigit at h
  unfold isSpace
  grind

theorem hexDigitValue_lt {c : Byte} (h : isHexDigit c = true) : hexDigitValue c < 16 := by
  unfold isHexDigit isDigit at h
  unfold hexDigitValue isDigit
  simp only [Bool.or_eq_true, Bool.and_eq_true, decide_eq_true_eq, UInt8.le_iff_toNat_le,
    UInt8.reduceToNat] at h ⊢
  split
  · omega
  · split <;> omega

theorem hexFold_lt {digits : Bytes} (h : ∀ c ∈ digits, isHexDigit c = true) (n : ℕ) :
    digits.foldl (fun n c => n * 16 + hexDigitValue c) n < (n + 1) * 16 ^ digits.length := by
  induction digits generalizing n with
  | nil => simp
  | cons c digits ih =>
    have hvalue := hexDigitValue_lt (h c List.mem_cons_self)
    have hrest := ih (fun d hd => h d (List.mem_cons_of_mem _ hd)) (n * 16 + hexDigitValue c)
    rw [List.foldl_cons, List.length_cons, Nat.pow_succ', ← Nat.mul_assoc]
    exact hrest.trans_le (Nat.mul_le_mul_right _ (by omega))

theorem stoiHexDigits_short {text : Bytes} (h : text.length ≤ 2) : stoiHexDigits text =
    if text.takeWhile isHexDigit = [] then none
    else some (((text.takeWhile isHexDigit).foldl (fun n c => n * 16 + hexDigitValue c) 0 : ℕ) :
      ℤ) := by
  unfold stoiHexDigits
  split
  · simp only [List.length_cons] at h
    omega
  · rfl

theorem stoiHexDigits_range {text : Bytes} {code : ℤ} (hlen : text.length ≤ 2)
    (hcode : stoiHexDigits text = some code) : ∃ n : ℕ, code = n ∧ n < 16 ^ text.length := by
  rw [stoiHexDigits_short hlen] at hcode
  split at hcode
  · cases hcode
  · refine ⟨_, (Option.some.inj hcode).symm, ?_⟩
    have hdigits : ∀ c ∈ text.takeWhile isHexDigit, isHexDigit c = true :=
      fun c hc => List.mem_takeWhile_imp hc
    have hlt := hexFold_lt hdigits 0
    have hle : 16 ^ (text.takeWhile isHexDigit).length ≤ 16 ^ text.length :=
      Nat.pow_le_pow_right (by decide) (List.takeWhile_prefix _).length_le
    omega

theorem stoiHex_pair {h l : Byte} (hh : isHexDigit h = true) (hl : isHexDigit l = true) :
    stoiHex [h, l] = some ((hexDigitValue h * 16 + hexDigitValue l : ℕ) : ℤ) := by
  obtain ⟨hspace, hminus, hplus, -⟩ := isHexDigit_class hh
  have hlen : ([h, l] : Bytes).length ≤ 2 := Nat.le_refl 2
  have hdigits : stoiHexDigits [h, l] = some ((hexDigitValue h * 16 + hexDigitValue l : ℕ) : ℤ) := by
    rw [stoiHexDigits_short hlen]
    simp [hh, hl]
  have hdrop : [h, l].dropWhile isSpace = [h, l] := by rw [List.dropWhile_cons, hspace]; rfl
  rw [stoiHex, hdrop]
  split
  · rename_i heq
    exact absurd (List.cons.inj heq).1 hminus
  · rename_i heq
    exact absurd (List.cons.inj heq).1 hplus
  · exact hdigits

theorem stoiHex_range {h l : Byte} {code : ℤ} (hcode : stoiHex [h, l] = some code) :
    -16 < code ∧ code < 256 := by
  have hlen : ([h, l].dropWhile isSpace).length ≤ 2 := (List.dropWhile_suffix _).length_le
  have hone : ∀ {t : Bytes}, t.length ≤ 1 → 16 ^ t.length ≤ 16 ^ 1 :=
    fun ht => Nat.pow_le_pow_right (by decide) ht
  unfold stoiHex at hcode
  split at hcode
  · rename_i t heq
    rw [heq, List.length_cons] at hlen
    obtain ⟨n, hn, rfl⟩ := Option.map_eq_some_iff.mp hcode
    obtain ⟨m, rfl, hm⟩ := stoiHexDigits_range (by omega) hn
    have hpow := hone (t := t) (by omega)
    omega
  · rename_i t heq
    rw [heq, List.length_cons] at hlen
    obtain ⟨m, rfl, hm⟩ := stoiHexDigits_range (by omega) hcode
    have hpow := hone (t := t) (by omega)
    omega
  · obtain ⟨m, rfl, hm⟩ := stoiHexDigits_range hlen hcode
    have hpow : 16 ^ ([h, l].dropWhile isSpace).length ≤ 16 ^ 2 :=
      Nat.pow_le_pow_right (by decide) hlen
    omega

theorem toNat_ofInt8 (n : ℤ) : ((UInt8.ofInt n).toNat : ℤ) = n % 2 ^ 8 := by
  rw [UInt8.ofInt, UInt8.toNat_ofNat']
  omega

theorem ofInt_eq_percent {code : ℤ} (h : -16 < code ∧ code < 256) :
    UInt8.ofInt code = 37 ↔ code = 37 := by
  have hbyte := toNat_ofInt8 code
  have hpercent : (37 : UInt8).toNat = 37 := rfl
  rw [← UInt8.toNat_inj, hpercent]
  omega

theorem ofInt_natCast (n : ℕ) : UInt8.ofInt n = n.toUInt8 := by
  have hbyte := toNat_ofInt8 n
  rw [← UInt8.toNat_inj, Nat.toUInt8, UInt8.toNat_ofNat']
  omega

/-! ### The loop -/

theorem wellEscaped_nil : WellEscaped [] := by
  intro front back h
  cases front <;> cases h

theorem wellEscaped_cons {c : Byte} {s : Bytes} : WellEscaped (c :: s) ↔ (c = 37 → ∃ h l rest,
    s = h :: l :: rest ∧ isHexDigit h = true ∧ isHexDigit l = true) ∧ WellEscaped s := by
  constructor
  · intro hwell
    refine ⟨fun hc => hwell [] s (by rw [hc]; rfl), fun front back hs => ?_⟩
    exact hwell (c :: front) back (by rw [hs]; rfl)
  · rintro ⟨hhead, hrest⟩ front back hs
    cases front with
    | nil =>
      obtain ⟨hc, rfl⟩ := List.cons.inj hs
      exact hhead hc
    | cons d front => exact hrest front back (List.cons.inj hs).2

theorem isHexPair_pair {h l : Byte} :
    IsHexPair [h, l] ↔ isHexDigit h = true ∧ isHexDigit l = true := by
  constructor
  · rintro ⟨h', l', heq, hdigits⟩
    obtain ⟨rfl, htail⟩ := List.cons.inj heq
    obtain ⟨rfl, -⟩ := List.cons.inj htail
    exact hdigits
  · rintro ⟨hh, hl⟩
    exact ⟨h, l, rfl, hh, hl⟩

theorem wellEscaped_percent {h l : Byte} {s : Bytes} :
    WellEscaped (37 :: h :: l :: s) ↔ IsHexPair [h, l] ∧ WellEscaped s := by
  rw [wellEscaped_cons, isHexPair_pair]
  constructor
  · rintro ⟨hhead, hrest⟩
    obtain ⟨h', l', rest, heq, hdigits⟩ := hhead rfl
    obtain ⟨rfl, htail⟩ := List.cons.inj heq
    obtain ⟨rfl, -⟩ := List.cons.inj htail
    exact ⟨hdigits, (wellEscaped_cons.mp (wellEscaped_cons.mp hrest).2).2⟩
  · rintro ⟨hdigits, hs⟩
    obtain ⟨-, -, -, hh⟩ := isHexDigit_class hdigits.1
    obtain ⟨-, -, -, hl⟩ := isHexDigit_class hdigits.2
    refine ⟨fun _ => ⟨h, l, s, rfl, hdigits⟩, wellEscaped_cons.mpr ⟨fun h => absurd h hh, ?_⟩⟩
    exact wellEscaped_cons.mpr ⟨fun h => absurd h hl, hs⟩

section loop
variable {c h l : Byte} {code : ℤ} {s rest : Bytes}

theorem escapes_taken (hcode : stoiHex [h, l] = some code) :
    escapes (37 :: h :: l :: rest) = [h, l] :: escapes rest := by
  rw [escapes, hcode]
  rfl

theorem escapes_refused (hcode : stoiHex [h, l] = none) :
    escapes (37 :: h :: l :: rest) = [h, l] :: escapes (h :: l :: rest) := by
  rw [escapes, hcode]
  rfl

theorem not_isHexPair_of_refused (hcode : stoiHex [h, l] = none) : ¬IsHexPair [h, l] := by
  intro hpair
  obtain ⟨hh, hl⟩ := isHexPair_pair.mp hpair
  rw [stoiHex_pair hh hl] at hcode
  cases hcode

/-- A string is well escaped just if every escape that the loop comes to is a pair of digits. -/
theorem wellEscaped_iff (s : Bytes) : WellEscaped s ↔ ∀ e ∈ escapes s, IsHexPair e := by
  induction s using decodeLoop.induct with
  | case1 => exact iff_of_true wellEscaped_nil fun e he => absurd he List.not_mem_nil
  | case2 h l rest code hcode ih =>
    rw [escapes_taken hcode, List.forall_mem_cons, wellEscaped_percent, ih]
  | case3 h l rest hcode ih =>
    have hpair := not_isHexPair_of_refused hcode
    rw [escapes_refused hcode, List.forall_mem_cons, wellEscaped_percent]
    exact iff_of_false (fun hwell => hpair hwell.1) fun hall => hpair hall.1
  | case4 c rest hshort ih =>
    rw [escapes.eq_3 c rest hshort, wellEscaped_cons]
    split
    · rename_i hc
      refine iff_of_false (fun hwell => ?_) fun hall => ?_
      · obtain ⟨h, l, back, hrest, -⟩ := hwell.1 hc
        exact hshort h l back hc hrest
      · obtain ⟨h, l, hrest, -⟩ := hall rest List.mem_cons_self
        exact hshort h l [] hc hrest
    · rename_i hc
      rw [ih]
      exact and_iff_right fun h => absurd h hc

theorem percent_mem_decodeLoop (s : Bytes) :
    37 ∈ decodeLoop s ↔ ∃ e ∈ escapes s, Rejected e := by
  induction s using decodeLoop.induct with
  | case1 => simp [decodeLoop, escapes]
  | case2 h l rest code hcode ih =>
    have hrejected : Rejected [h, l] ↔ code = 37 := by simp [Rejected, hcode]
    rw [escapes_taken hcode, List.exists_mem_cons_iff, ← ih, hrejected,
      ← ofInt_eq_percent (stoiHex_range hcode), decodeLoop, hcode]
    exact List.mem_cons.trans (or_congr_left eq_comm)
  | case3 h l rest hcode ih =>
    rw [escapes_refused hcode, List.exists_mem_cons_iff, decodeLoop, hcode]
    exact iff_of_true List.mem_cons_self (Or.inl (Or.inr (Or.inl hcode)))
  | case4 c rest hshort ih =>
    rw [escapes.eq_3 c rest hshort, decodeLoop.eq_3 c rest hshort]
    by_cases hc : c = 37
    · rw [if_pos hc, if_neg (by rw [hc]; decide), hc]
      refine iff_of_true List.mem_cons_self ⟨rest, List.mem_cons_self, Or.inl fun hlen => ?_⟩
      obtain ⟨h, l, hrest⟩ := List.length_eq_two.mp hlen
      exact hshort h l [] hc hrest
    · have hkept : 37 ≠ if c = 43 then 32 else c := by
        split
        · decide
        · exact Ne.symm hc
      rw [if_neg hc, List.mem_cons, ih]
      exact or_iff_right hkept

theorem decodeLoop_wellEscaped (hs : WellEscaped s) : decodeLoop s = percentDecoded s := by
  induction s using decodeLoop.induct with
  | case1 => rfl
  | case2 h l rest code hcode ih =>
    obtain ⟨hpair, hrest⟩ := wellEscaped_percent.mp hs
    obtain ⟨hh, hl⟩ := isHexPair_pair.mp hpair
    rw [decodeLoop, percentDecoded, stoiHex_pair hh hl, hh, hl, ih hrest]
    exact congrArg (· :: _) (ofInt_natCast _)
  | case3 h l rest hcode ih =>
    exact absurd (wellEscaped_percent.mp hs).1 (not_isHexPair_of_refused hcode)
  | case4 c rest hshort ih =>
    rw [decodeLoop.eq_3 c rest hshort, percentDecoded.eq_3 c rest hshort,
      ih (wellEscaped_cons.mp hs).2]

theorem decodeLoop_ne_nil (hs : s ≠ []) : decodeLoop s ≠ [] := by
  induction s using decodeLoop.induct with
  | case1 => exact absurd rfl hs
  | case2 h l rest code hcode ih =>
    rw [decodeLoop, hcode]
    exact List.cons_ne_nil _ _
  | case3 h l rest hcode ih =>
    rw [decodeLoop, hcode]
    exact List.cons_ne_nil _ _
  | case4 c rest hshort ih =>
    rw [decodeLoop.eq_3 c rest hshort]
    exact List.cons_ne_nil _ _

end loop

theorem normalizePath_rejected {s : Bytes} (h : urlDecode s = []) (t : Filesystem.Tree)
    (server : StaticFileServer t) : server.normalizePath s = none := by
  rw [StaticFileServer.normalizePath, h]
  rfl

/-- Decoding is exact if and only if every escape that the loop comes to is a pair of hexadecimal
digits, or one of them is rejected. -/
theorem urlDecode_exact_iff (s : Bytes) :
    Exact s ↔ (∀ e ∈ escapes s, IsHexPair e) ∨ ∃ e ∈ escapes s, Rejected e := by
  rw [← wellEscaped_iff, ← percent_mem_decodeLoop]
  by_cases hwell : WellEscaped s
  · refine iff_of_true ?_ (Or.inl hwell)
    have hloop := decodeLoop_wellEscaped hwell
    constructor
    · rintro ⟨-, hclean⟩
      rw [urlDecode, hloop, if_neg hclean]
    · intro hnot
      have hpercent : 37 ∈ percentDecoded s := by
        by_contra hclean
        exact hnot ⟨hwell, hclean⟩
      have hempty : urlDecode s = [] := by rw [urlDecode, hloop, if_pos hpercent]
      exact ⟨hempty, normalizePath_rejected hempty⟩
  · have hne : s ≠ [] := by
      rintro rfl
      exact hwell wellEscaped_nil
    rw [or_iff_right hwell]
    constructor
    · intro hexact
      obtain ⟨hempty, -⟩ := hexact.rejected fun h => hwell h.1
      by_contra hclean
      rw [urlDecode, if_neg hclean] at hempty
      exact decodeLoop_ne_nil hne hempty
    · intro hpercent
      have hempty : urlDecode s = [] := by rw [urlDecode, if_pos hpercent]
      exact ⟨fun h => absurd h.1 hwell, fun _ => ⟨hempty, normalizePath_rejected hempty⟩⟩

/-- One digit and a letter that is none: the escape is taken for the byte 4. -/
theorem lenient_escape : ¬∀ s : Bytes, Exact s := by
  intro h
  have hnot : ¬WellEscaped (ascii "/%4g") := by
    rw [wellEscaped_iff]
    intro hall
    have hpair := isHexPair_pair.mp (hall [52, 103] (by decide))
    revert hpair
    decide
  have hempty := ((h (ascii "/%4g")).rejected fun hwell => hnot hwell.1).1
  revert hempty
  decide

end Aevrix.Static
