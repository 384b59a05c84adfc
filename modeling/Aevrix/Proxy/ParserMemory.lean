import Aevrix.Proxy.ResponseFraming
import Aevrix.Proxy.ResponseRefinement

/-!
# What a response parser keeps in memory

A declared length is held against the body limit in the head, long before the subtraction that
relies on it; a chunk is held against it while it is read. So the sizes of the parser stay
within its limits whatever is fed, and no accumulator leaves 64 bits (`sizes_bounded`).
-/

namespace Aevrix.Proxy
open Aevrix.Http Incremental ProxyResponseParser ProxyResponseParser.Core

/-! ### Digits -/

/-- What the digit loop of `parse_header_line` gives `length`, in turn
(`proxy_response_parser.cpp:367-374`). -/
def lengthSums : ℕ → Bytes → List ℕ
  | _, [] => []
  | n, c :: v =>
    if isDigit c then
      let n := n * 10 + (c.toNat - 48)
      n :: lengthSums n v
    else []

/-- What the digit loop of `parse_chunk_size` gives `value`, in turn. -/
def sizeSums (max : ℕ) : ℕ → Bytes → List ℕ
  | _, [] => []
  | n, c :: v => match hexDigit c with
    | none => []
    | some digit =>
      let n := n * 16 + digit
      n :: if max < n then [] else sizeSums max n v

/-- What the accumulators hold while the parser reads `line`. -/
def ProxyResponseParser.Core.digitSums (c : Core) (line : Bytes) : List ℕ :=
  if c.state = .headers ∧ fieldKey line = ascii "content-length" then
    if fieldValue line = [] ∨ 19 < (fieldValue line).length then []
    else lengthSums 0 (fieldValue line)
  else if c.state = .chunkSize then
    let digits := trimOws (line.takeWhile (· != 59))
    if digits = [] ∨ 8 < digits.length then [] else sizeSums c.config.maxBodyBytes 0 digits
  else []

theorem digit_le {c : Byte} (h : isDigit c = true) : c.toNat - 48 ≤ 9 := by
  simp only [isDigit, Bool.and_eq_true, decide_eq_true_eq] at h
  have hle : c.toNat ≤ 57 := h.2
  omega

theorem hexDigit_le {c : Byte} {digit : ℕ} (h : hexDigit c = some digit) : digit ≤ 15 := by
  unfold hexDigit at h
  split at h
  · rename_i hc
    have hle : c.toNat ≤ 57 := hc.2
    cases h
    omega
  split at h
  · rename_i hc
    have hle : c.toNat ≤ 102 := hc.2
    cases h
    omega
  split at h
  · rename_i hc
    have hle : c.toNat ≤ 70 := hc.2
    cases h
    omega
  · cases h

theorem place_lt {base n digit k : ℕ} (hn : n < base ^ k) (hd : digit + 1 ≤ base) :
    n * base + digit < base ^ (k + 1) := by
  have hmul : (n + 1) * base ≤ base ^ k * base := Nat.mul_le_mul_right base hn
  rw [Nat.pow_succ]
  rw [Nat.succ_mul] at hmul
  omega

theorem lengthSums_lt (v : Bytes) (n k : ℕ) (hn : n < 10 ^ k) :
    ∀ m ∈ lengthSums n v, m < 10 ^ (k + v.length) := by
  induction v generalizing n k with
  | nil =>
    intro m hm
    cases hm
  | cons c v ih =>
    intro m hm
    simp only [lengthSums] at hm
    split at hm
    · rename_i hc
      have hdigit := digit_le hc
      have hnext : n * 10 + (c.toNat - 48) < 10 ^ (k + 1) := place_lt hn (by omega)
      have hlen : k + (c :: v).length = k + 1 + v.length := by
        rw [List.length_cons]
        omega
      rw [hlen]
      rcases List.mem_cons.mp hm with rfl | hm
      · exact hnext.trans_le (Nat.pow_le_pow_right (by omega) (by omega))
      · exact ih _ _ hnext m hm
    · cases hm

theorem sizeSums_lt (max : ℕ) (v : Bytes) (n k : ℕ) (hn : n < 16 ^ k) :
    ∀ m ∈ sizeSums max n v, m < 16 ^ (k + v.length) := by
  induction v generalizing n k with
  | nil =>
    intro m hm
    cases hm
  | cons c v ih =>
    intro m hm
    simp only [sizeSums] at hm
    split at hm
    · cases hm
    · rename_i digit hc
      have hdigit := hexDigit_le hc
      have hnext : n * 16 + digit < 16 ^ (k + 1) := place_lt hn (by omega)
      have hlen : k + (c :: v).length = k + 1 + v.length := by
        rw [List.length_cons]
        omega
      rw [hlen]
      rcases List.mem_cons.mp hm with rfl | hm
      · exact hnext.trans_le (Nat.pow_le_pow_right (by omega) (by omega))
      split at hm
      · cases hm
      · exact ih _ _ hnext m hm

theorem digitSums_lt (c : Core) (line : Bytes) : ∀ n ∈ c.digitSums line, n < 2 ^ 64 := by
  intro n hn
  simp only [digitSums] at hn
  split at hn
  · split at hn
    · cases hn
    rename_i hshort
    rw [not_or, Nat.not_lt] at hshort
    have hlt := lengthSums_lt _ 0 0 (by decide) n hn
    have hpow : 10 ^ (0 + (fieldValue line).length) ≤ 10 ^ 19 :=
      Nat.pow_le_pow_right (by decide) (by omega)
    exact hlt.trans_le (hpow.trans (by decide))
  split at hn
  · split at hn
    · cases hn
    rename_i hshort
    rw [not_or, Nat.not_lt] at hshort
    have hlt := sizeSums_lt _ _ 0 0 (by decide) n hn
    have hpow : 16 ^ (0 + (trimOws (line.takeWhile (· != 59))).length) ≤ 16 ^ 8 :=
      Nat.pow_le_pow_right (by decide) (by omega)
    exact hlt.trans_le (hpow.trans (by decide))
  · cases hn

theorem decimalValue_mem (v : Bytes) (n : ℕ) (hne : v ≠ []) (hall : ∀ c ∈ v, isDigit c = true) :
    v.foldl (fun n c => n * 10 + (c.toNat - 48)) n ∈ lengthSums n v := by
  induction v generalizing n with
  | nil => exact (hne rfl).elim
  | cons c v ih =>
    have hc := hall c (List.mem_cons_self ..)
    simp only [lengthSums, hc, if_true, List.foldl_cons]
    cases v with
    | nil => exact List.mem_cons_self ..
    | cons b t =>
      refine List.mem_cons_of_mem _ (ih _ (List.cons_ne_nil _ _) fun c hc => ?_)
      exact hall c (List.mem_cons_of_mem _ hc)

theorem chunkSizeOf_mem {max : ℕ} {line v : Bytes} {n value : ℕ} (hne : v ≠ [])
    (h : chunkSizeOf max line n v = .ok value) : value ∈ sizeSums max n v := by
  induction v generalizing n with
  | nil => exact (hne rfl).elim
  | cons c v ih =>
    cases hc : hexDigit c with
    | none =>
      simp only [chunkSizeOf, hc] at h
      cases h
    | some digit =>
      simp only [chunkSizeOf, hc] at h
      simp only [sizeSums, hc]
      split at h
      · cases h
      · rename_i hmax
        rw [if_neg hmax]
        cases v with
        | nil =>
          cases h
          exact List.mem_cons_self ..
        | cons b t => exact List.mem_cons_of_mem _ (ih (List.cons_ne_nil _ _) h)

/-! ### Lengths -/

/-- Between a chunk size and the next. -/
def ProxyResponseParser.Core.InChunks (c : Core) : Prop :=
  c.state = .chunkSize ∨ c.state = .chunkData ∨ c.state = .chunkDataCrlf

/-- What the members promise about lengths. A length read in the head is only looked at after
it, so what is known of it there depends on whether a body will follow. -/
structure Sized (config : Config) (c : Core) : Prop where
  sameLimits : c.config = config
  body : c.body.length ≤ config.maxBodyBytes
  head : c.state = .statusLine ∨ c.state = .headers → c.body = [] ∧ c.framing = .none
  declared : c.state = .statusLine ∨ c.state = .headers → c.sawContentLength = true →
    c.bodyless = true ∨ c.contentLength ≤ config.maxBodyBytes
  interim : c.state = .statusLine ∨ c.state = .headers ∧ c.isInterim = true → c.statusCode < 200
  counted : c.framing = .contentLength →
    c.body.length ≤ c.contentLength ∧ c.contentLength ≤ config.maxBodyBytes
  chunked : c.InChunks → c.framing = .chunked
  chunk : c.state = .chunkData → 0 < c.chunkRemaining
  failed : c.state = .error → c.body = []
  words : c.contentLength < 2 ^ 64 ∧ c.chunkRemaining < 2 ^ 64

section sized
variable {config : Config} {c d : Core}

theorem fresh_sized (config : Config) : Sized config (Core.fresh config) where
  sameLimits := rfl
  body := Nat.zero_le _
  head := fun _ => ⟨rfl, rfl⟩
  declared := fun _ hsaw => by cases hsaw
  interim := fun _ => Nat.succ_pos _
  counted := fun hf => by cases hf
  chunked := fun hs => by rcases hs with hs | hs | hs <;> cases hs
  chunk := fun hs => by cases hs
  failed := fun _ => rfl
  words := ⟨Nat.two_pow_pos _, Nat.two_pow_pos _⟩

/-- What the steps past the head leave as it is. -/
structure KeepsLengths (c d : Core) : Prop where
  config : d.config = c.config
  framing : d.framing = c.framing
  contentLength : d.contentLength = c.contentLength

theorem Sized.fail {message : Bytes} (h : Sized config c) (hk : KeepsLengths c d)
    (hr : d.chunkRemaining = c.chunkRemaining) : Sized config (d.fail message) where
  sameLimits := hk.config.trans h.sameLimits
  body := Nat.zero_le _
  head := fun hs => by rcases hs with hs | hs <;> cases hs
  declared := fun hs => by rcases hs with hs | hs <;> cases hs
  interim := fun hs => by rcases hs with hs | ⟨hs, -⟩ <;> cases hs
  counted := fun hf => ⟨Nat.zero_le _, hk.contentLength ▸ (h.counted (hk.framing ▸ hf)).2⟩
  chunked := fun hs => by rcases hs with hs | hs | hs <;> cases hs
  chunk := fun hs => by cases hs
  failed := fun _ => rfl
  words := ⟨hk.contentLength ▸ h.words.1, hr ▸ h.words.2⟩

theorem Sized.of_head (hconfig : d.config = config) (hbody : d.body = [])
    (hframing : d.framing = .none) (hs : d.state = .statusLine ∨ d.state = .headers)
    (hdeclared : d.sawContentLength = true →
      d.bodyless = true ∨ d.contentLength ≤ config.maxBodyBytes)
    (hinterim : d.state = .statusLine ∨ d.isInterim = true → d.statusCode < 200)
    (hwords : d.contentLength < 2 ^ 64 ∧ d.chunkRemaining < 2 ^ 64) : Sized config d where
  sameLimits := hconfig
  body := by
    rw [hbody]
    exact Nat.zero_le _
  head := fun _ => ⟨hbody, hframing⟩
  declared := fun _ => hdeclared
  interim := fun hd => hinterim (hd.imp_right And.right)
  counted := fun hf => by
    rw [hframing] at hf
    cases hf
  chunked := fun hd => by
    rcases hs with hs | hs <;> rcases hd with hd | hd | hd <;> rw [hs] at hd <;> cases hd
  chunk := fun hd => by rcases hs with hs | hs <;> rw [hs] at hd <;> cases hd
  failed := fun _ => hbody
  words := hwords

/-- Past the head the body is as long as was asked for, or as long as is allowed. -/
theorem Sized.of_past (hconfig : d.config = config)
    (hs : d.state ≠ .statusLine ∧ d.state ≠ .headers ∧ d.state ≠ .error)
    (hbody : d.body.length ≤ config.maxBodyBytes)
    (hcounted : d.framing = .contentLength →
      d.body.length ≤ d.contentLength ∧ d.contentLength ≤ config.maxBodyBytes)
    (hchunked : d.InChunks → d.framing = .chunked)
    (hchunk : d.state = .chunkData → 0 < d.chunkRemaining)
    (hwords : d.contentLength < 2 ^ 64 ∧ d.chunkRemaining < 2 ^ 64) : Sized config d where
  sameLimits := hconfig
  body := hbody
  head := fun hd => (hd.elim hs.1 hs.2.1).elim
  declared := fun hd => (hd.elim hs.1 hs.2.1).elim
  interim := fun hd => (hd.elim hs.1 fun hd => hs.2.1 hd.1).elim
  counted := hcounted
  chunked := hchunked
  chunk := hchunk
  failed := fun hd => (hs.2.2 hd).elim
  words := hwords

/-! ### Lines -/

theorem statusLineText_sized (h : Sized config c) (hs : c.state = .statusLine) (line : Bytes) :
    Sized config (c.statusLineText line) := by
  obtain ⟨hbody, hframing⟩ := h.head (Or.inl hs)
  have hcode := h.interim (Or.inl hs)
  simp only [statusLineText]
  split
  · exact h.fail ⟨rfl, rfl, rfl⟩ rfl
  split
  · exact h.fail ⟨rfl, rfl, rfl⟩ rfl
  split
  · exact h.fail ⟨rfl, rfl, rfl⟩ rfl
  split
  · exact h.fail ⟨rfl, rfl, rfl⟩ rfl
  split
  · rename_i hlow
    split
    · exact h.fail ⟨rfl, rfl, rfl⟩ rfl
    · refine .of_head h.sameLimits hbody hframing (Or.inr rfl) (fun hsaw => ?_) (fun _ => hlow)
        h.words
      cases hsaw
  · refine .of_head h.sameLimits hbody hframing (Or.inr rfl) (fun hsaw => ?_) (fun hd => ?_) h.words
    · -- a length left over from an interim response was held against the limit there
      refine (h.declared (Or.inl hs) hsaw).imp_left fun hless => ?_
      simp only [bodyless, Bool.or_eq_true, beq_iff_eq] at hless ⊢
      have hhead : c.config.requestWasHead = true := by
        rcases hless with (hless | hless) | hless
        · exact hless
        · omega
        · omega
      exact Or.inl (Or.inl hhead)
    · rcases hd with hd | hd <;> cases hd

theorem storeField_sized (h : Sized config c) (hs : c.state = .headers) (name value : Bytes) :
    Sized config (c.storeField name value) := by
  obtain ⟨hbody, hframing⟩ := h.head (Or.inr hs)
  have hinterim : c.state = .statusLine ∨ c.isInterim = true → c.statusCode < 200 :=
    fun hd => h.interim (hd.imp_right fun hd => ⟨hs, hd⟩)
  simp only [storeField]
  split
  · simp only [contentLengthField]
    split
    · exact h.fail ⟨rfl, rfl, rfl⟩ rfl
    split
    · exact h.fail ⟨rfl, rfl, rfl⟩ rfl
    rename_i hdigits
    simp only [not_or, Bool.not_eq_true, Bool.not_eq_false', List.all_eq_true] at hdigits
    obtain ⟨hne, hshort, hall⟩ := hdigits
    split
    · exact h.fail ⟨rfl, rfl, rfl⟩ rfl
    rename_i hmax
    rw [not_and_or, Bool.not_eq_true, Bool.not_eq_false', Nat.not_lt, h.sameLimits] at hmax
    have hmem := lengthSums_lt value 0 0 (by decide) _ (decimalValue_mem value 0 hne hall)
    have hpow : 10 ^ (0 + value.length) ≤ 10 ^ 19 := Nat.pow_le_pow_right (by decide) (by omega)
    exact .of_head h.sameLimits hbody hframing (Or.inr hs) (fun _ => hmax) hinterim
      ⟨hmem.trans_le (hpow.trans (by decide)), h.words.2⟩
  have hdeclared := h.declared (Or.inr hs)
  split
  · simp only [transferEncodingField]
    split
    · exact h.fail ⟨rfl, rfl, rfl⟩ rfl
    · exact .of_head h.sameLimits hbody hframing (Or.inr hs) hdeclared hinterim h.words
  split
  · exact .of_head h.sameLimits hbody hframing (Or.inr hs) hdeclared hinterim h.words
  · exact .of_head h.sameLimits hbody hframing (Or.inr hs) hdeclared hinterim h.words

theorem Sized.counting (h : Sized config c) (n : ℕ) :
    Sized config { c with headerBytes := n } where
  sameLimits := h.sameLimits
  body := h.body
  head := h.head
  declared := h.declared
  interim := h.interim
  counted := h.counted
  chunked := h.chunked
  chunk := h.chunk
  failed := h.failed
  words := h.words

theorem headerLineText_sized (h : Sized config c) (hs : c.state = .headers) (line : Bytes) :
    Sized config (c.headerLineText line) := by
  simp only [headerLineText]
  split
  · exact h.fail ⟨rfl, rfl, rfl⟩ rfl
  split
  · exact h.fail ⟨rfl, rfl, rfl⟩ rfl
  split
  · exact h.fail ⟨rfl, rfl, rfl⟩ rfl
  split
  · exact h.fail ⟨rfl, rfl, rfl⟩ rfl
  · have hcounting := h.counting (c.headerBytes + (line.length + 2))
    exact storeField_sized hcounting hs _ _

theorem endOfHeaders_sized (h : Sized config c) (hs : c.state = .headers) :
    Sized config c.endOfHeaders := by
  obtain ⟨hbody, hframing⟩ := h.head (Or.inr hs)
  have hempty : c.body.length ≤ config.maxBodyBytes := h.body
  simp only [endOfHeaders]
  split
  · rename_i hinterim
    exact .of_head h.sameLimits hbody hframing (Or.inl rfl) (h.declared (Or.inr hs))
      (fun _ => h.interim (Or.inr ⟨hs, hinterim⟩)) h.words
  simp only [decideFraming]
  split
  · exact h.fail ⟨rfl, rfl, rfl⟩ rfl
  split
  · exact .of_past h.sameLimits (by simp) hempty (fun hf => by cases hf) (by simp [InChunks])
      (by simp) h.words
  rename_i hbodyless
  split
  · exact .of_past h.sameLimits (by simp) hempty (fun hf => by cases hf) (fun _ => rfl) (by simp)
      h.words
  split
  · rename_i hsaw
    have hmax : c.contentLength ≤ config.maxBodyBytes :=
      (h.declared (Or.inr hs) hsaw).resolve_left hbodyless
    have hnone : c.body.length ≤ c.contentLength := by
      rw [hbody]
      exact Nat.zero_le _
    split
    · exact .of_past h.sameLimits (by simp) hempty (fun _ => ⟨hnone, hmax⟩) (by simp [InChunks])
        (by simp) h.words
    · exact .of_past h.sameLimits (by simp) hempty (fun _ => ⟨hnone, hmax⟩) (by simp [InChunks])
        (by simp) h.words
  · exact .of_past h.sameLimits (by simp) hempty (fun hf => by cases hf) (by simp [InChunks])
      (by simp) h.words

theorem chunkSizeText_sized (h : Sized config c) (hs : c.state = .chunkSize) (line : Bytes) :
    Sized config (c.chunkSizeText line) := by
  simp only [chunkSizeText]
  generalize hdigits : trimOws (line.takeWhile (· != 59)) = digits
  split
  · exact h.fail ⟨rfl, rfl, rfl⟩ rfl
  rename_i hshort
  rw [not_or, Nat.not_lt] at hshort
  split
  · exact h.fail ⟨rfl, rfl, rfl⟩ rfl
  rename_i value hvalue
  have hmem := sizeSums_lt _ _ 0 0 (by decide) value (chunkSizeOf_mem hshort.1 hvalue)
  have hpow : 16 ^ (0 + digits.length) ≤ 16 ^ 8 := Nat.pow_le_pow_right (by decide) (by omega)
  split
  · exact .of_past h.sameLimits (by simp) h.body h.counted (by simp [InChunks]) (by simp) h.words
  · rename_i hzero
    have hchunked := h.chunked (Or.inl hs)
    exact .of_past h.sameLimits (by simp) h.body h.counted (fun _ => hchunked)
      (fun _ => Nat.pos_of_ne_zero hzero)
      ⟨h.words.1, hmem.trans_le (hpow.trans (by decide))⟩

theorem trailerLineText_sized (h : Sized config c) (line : Bytes) :
    Sized config (c.trailerLineText line) := by
  simp only [trailerLineText]
  split
  · exact h.fail ⟨rfl, rfl, rfl⟩ rfl
  split
  · exact h.fail ⟨rfl, rfl, rfl⟩ rfl
  split
  · exact h.fail ⟨rfl, rfl, rfl⟩ rfl
  · exact h.counting _
end sized

/-! ### Turns -/

/-- The members are in bounds and no more than `limit` bytes are unread. -/
structure Held (config : Config) (limit : ℕ) (p : ProxyResponseParser) : Prop where
  sized : Sized config p.toCore
  unread : p.data.length ≤ limit

section held
variable {config : Config} {limit : ℕ} {p : ProxyResponseParser}

theorem Held.update (h : Held config limit p) {c : Core} (hc : Sized config c) :
    Held config limit (p.update c) :=
  ⟨by rwa [update_toCore], (update_length_le p c).trans h.unread⟩

theorem Held.fail (h : Held config limit p) (message : Bytes) : Held config limit (p.fail message) :=
  h.update (h.sized.fail ⟨rfl, rfl, rfl⟩ rfl)

theorem Held.consume (h : Held config limit p) (n : ℕ) : Held config limit (p.consume n) := by
  refine ⟨by rw [consume_toCore]; exact h.sized, ?_⟩
  rw [consume_data, List.length_drop]
  have hunread := h.unread
  omega

theorem Held.put (h : Held config limit p) {c : Core} (hc : Sized config c) :
    Held config limit (p.put c) := ⟨hc, h.unread⟩

theorem held_parseStatusLine (h : Held config limit p) (hs : p.state = .statusLine) :
    Held config limit p.parseStatusLine.2 := by
  unfold parseStatusLine
  split
  · split
    · exact h.fail _
    · exact h
  · rename_i crlf _
    have hline := h.consume (crlf + 2)
    simp only [takeLine]
    exact hline.update (statusLineText_sized hline.sized (by rw [consume_toCore]; exact hs) _)

theorem held_parseHeaderLine (h : Held config limit p) (hs : p.state = .headers) :
    Held config limit p.parseHeaderLine.2 := by
  unfold parseHeaderLine
  split
  · split
    · exact h.fail _
    · exact h
  · have hend := h.consume 2
    exact hend.update (endOfHeaders_sized hend.sized (by rw [consume_toCore]; exact hs))
  · rename_i crlf _ _
    have hline := h.consume (crlf + 2)
    simp only [takeLine]
    exact hline.update (headerLineText_sized hline.sized (by rw [consume_toCore]; exact hs) _)

theorem held_parseChunkSize (h : Held config limit p) (hs : p.state = .chunkSize) :
    Held config limit p.parseChunkSize.2 := by
  unfold parseChunkSize
  split
  · split
    · exact h.fail _
    · exact h
  · rename_i crlf _
    have hline := h.consume (crlf + 2)
    simp only [takeLine]
    exact hline.update (chunkSizeText_sized hline.sized (by rw [consume_toCore]; exact hs) _)

theorem Held.finish (h : Held config limit p) : Held config limit p.finishMessage :=
  h.update (.of_past h.sized.sameLimits (by simp) h.sized.body h.sized.counted
    (by simp [InChunks]) (by simp) h.sized.words)

theorem held_parseTrailerLine (h : Held config limit p) :
    Held config limit p.parseTrailerLine.2 := by
  unfold parseTrailerLine
  split
  · split
    · exact h.fail _
    · exact h
  · exact (h.consume 2).finish
  · rename_i crlf _ _
    have hline := h.consume (crlf + 2)
    simp only [takeLine]
    exact hline.update (trailerLineText_sized hline.sized _)
/-- Body bytes are taken as far as the declared length and the limit allow. -/
theorem held_takeBody (h : Held config limit p) (hs : p.state = .body ∨ p.state = .chunkData)
    {n : ℕ} (hmax : p.body.length + n ≤ config.maxBodyBytes)
    (hcount : p.framing = .contentLength → p.body.length + n ≤ p.contentLength) :
    Held config limit (p.takeBody n) := by
  refine Held.consume (h.put ?_) n
  have hlen : (p.body ++ p.data.take n).length ≤ p.body.length + n := by
    rw [List.length_append, List.length_take]
    omega
  have hpast : p.state ≠ .statusLine ∧ p.state ≠ .headers ∧ p.state ≠ .error := by
    rcases hs with hs | hs <;> simp [hs]
  exact .of_past h.sized.sameLimits hpast (hlen.trans hmax)
    (fun hf => ⟨hlen.trans (hcount hf), (h.sized.counted hf).2⟩) h.sized.chunked h.sized.chunk
    h.sized.words

theorem held_parseBody (h : Held config limit p) (hs : p.state = .body) :
    Held config limit p.parseBody.2 := by
  unfold parseBody
  split
  · rename_i hframing
    obtain ⟨hlen, hmax⟩ := h.sized.counted hframing
    simp only
    split
    · exact h.finish
    split
    · exact h
    · have htake := held_takeBody h (Or.inl hs)
        (n := min (p.contentLength - p.body.length) p.available) (by omega) (fun _ => by omega)
      split
      · exact htake.finish
      · exact htake
  · rename_i hframing
    simp only
    split
    · exact h
    split
    · exact h.fail _
    · rename_i hmax
      rw [Nat.not_lt, h.sized.sameLimits] at hmax
      exact held_takeBody h (Or.inl hs) hmax fun hf => (hframing hf).elim

theorem held_parseChunkData (h : Held config limit p) (hs : p.state = .chunkData) :
    Held config limit p.parseChunkData.2 := by
  have hframing : p.framing = .chunked := h.sized.chunked (Or.inr (Or.inl hs))
  have hchunk := h.sized.chunk hs
  unfold parseChunkData
  split
  · omega
  simp only
  generalize htaken : min p.chunkRemaining p.available = n
  split
  · exact h
  split
  · exact h.fail _
  rename_i hmax
  rw [Nat.not_lt, h.sized.sameLimits] at hmax
  have htake := held_takeBody h (Or.inr hs) hmax fun hf => by
    rw [hframing] at hf
    cases hf
  have hleft : (p.takeBody n).chunkRemaining - n < 2 ^ 64 :=
    (Nat.sub_le _ _).trans_lt htake.sized.words.2
  have hkind : (p.takeBody n).framing = .chunked := by
    rw [takeBody_toCore]
    exact hframing
  have hstate : (p.takeBody n).state = .chunkData := by
    rw [takeBody_toCore]
    exact hs
  refine htake.put ?_
  split
  · exact .of_past htake.sized.sameLimits (by simp) htake.sized.body htake.sized.counted
      (fun _ => hkind) (by simp) ⟨htake.sized.words.1, hleft⟩
  · rename_i hrest
    exact .of_past htake.sized.sameLimits (by simp [hstate]) htake.sized.body htake.sized.counted
      (fun _ => hkind) (fun _ => Nat.pos_of_ne_zero hrest) ⟨htake.sized.words.1, hleft⟩

theorem held_parseChunkCrlf (h : Held config limit p) (hs : p.state = .chunkDataCrlf) :
    Held config limit p.parseChunkCrlf.2 := by
  have hframing : p.framing = .chunked := h.sized.chunked (Or.inr (Or.inr hs))
  unfold parseChunkCrlf
  split
  · split
    · exact h.fail _
    · refine (h.consume 2).put ?_
      exact .of_past h.sized.sameLimits (by simp) h.sized.body h.sized.counted
        (fun _ => hframing) (by simp) h.sized.words
  · exact h

theorem held_turn (h : Held config limit p) : Held config limit p.turn.2 := by
  cases hs : p.state with
  | statusLine =>
    simp only [turn, hs]
    exact held_parseStatusLine h hs
  | headers =>
    simp only [turn, hs]
    exact held_parseHeaderLine h hs
  | body =>
    simp only [turn, hs]
    exact held_parseBody h hs
  | chunkSize =>
    simp only [turn, hs]
    exact held_parseChunkSize h hs
  | chunkData =>
    simp only [turn, hs]
    exact held_parseChunkData h hs
  | chunkDataCrlf =>
    simp only [turn, hs]
    exact held_parseChunkCrlf h hs
  | trailer =>
    simp only [turn, hs]
    exact held_parseTrailerLine h
  | complete =>
    simp only [turn, hs]
    exact h
  | error =>
    simp only [turn, hs]
    exact h

theorem held_process (turns : ℕ) (h : Held config limit p) :
    Held config limit (process turns p) := by
  induction turns generalizing p with
  | zero => exact h
  | succ turns ih =>
    have hturn := held_turn h
    rw [process]
    split
    · exact h
    split
    · rename_i hp
      rwa [hp] at hturn
    · rename_i hp
      rw [hp] at hturn
      exact ih hturn
end held

/-! ### Whole runs -/

/-- The calls that reach a parser (`proxy_response_parser.h:83-95`). -/
inductive Input where
  | feed (data : Bytes)
  | finishOnEof

def Input.apply (p : ProxyResponseParser) : Input → ProxyResponseParser
  | .feed data => p.feed data
  | .finishOnEof => p.finishOnEof.2

/-- The parser after `inputs`. -/
def reached (config : Config) (inputs : List Input) : ProxyResponseParser :=
  inputs.foldl Input.apply (ProxyResponseParser.fresh config)

/-- What `feed` checks before it appends. -/
def Admits (p : ProxyResponseParser) (data : Bytes) : Prop :=
  p.hasError = false ∧ p.isComplete = false ∧ data ≠ [] ∧
    p.available + data.length ≤ p.config.bufferLimit

theorem Held.append {config : Config} {limit : ℕ} {p : ProxyResponseParser}
    (h : Held config limit p) (hconfig : config.bufferLimit = limit) {data : Bytes}
    (hfits : p.available + data.length ≤ p.config.bufferLimit) :
    Held config limit (p.append data) := by
  refine ⟨h.sized, ?_⟩
  rw [append_data, List.length_append, ← available_eq, ← hconfig, ← h.sized.sameLimits]
  exact hfits

theorem held_input {config : Config} {limit : ℕ} {p : ProxyResponseParser}
    (h : Held config limit p) (hconfig : config.bufferLimit = limit) (input : Input) :
    Held config limit (input.apply p) := by
  cases input with
  | feed data =>
    simp only [Input.apply, feed]
    split
    · exact h
    split
    · exact h
    split
    · exact h.fail _
    · rename_i hfits
      exact held_process _ (h.append hconfig (Nat.not_lt.mp hfits))
  | finishOnEof =>
    simp only [Input.apply, finishOnEof]
    split
    · exact h
    split
    · exact h
    split
    · exact h.finish
    · exact h.fail _

theorem held_reached (config : Config) (inputs : List Input) :
    Held config config.bufferLimit (reached config inputs) := by
  have hfresh : Held config config.bufferLimit (ProxyResponseParser.fresh config) :=
    ⟨fresh_sized config, Nat.zero_le _⟩
  unfold reached
  generalize ProxyResponseParser.fresh config = p at hfresh
  induction inputs generalizing p with
  | nil => exact hfresh
  | cons input inputs ih => exact ih _ (held_input hfresh rfl input)

/-- The sizes of a parser are within the limits of `config`. -/
structure Bounded (config : Config) (p : ProxyResponseParser) : Prop where
  body : p.body.length ≤ config.maxBodyBytes
  unread : p.available ≤ config.maxHeaderBytes + config.maxBodyBytes
  offset : p.offset ≤ p.buffer.length
  declared : p.framing = .contentLength →
    p.body.length ≤ p.contentLength ∧ p.contentLength ≤ config.maxBodyBytes
  chunk : p.state = .chunkData → 0 < p.chunkRemaining
  digits : ∀ line, ∀ n ∈ p.toCore.digitSums line, n < 2 ^ 64
  failed : p.state = .error → p.body = []

theorem Held.bounded {config : Config} {p : ProxyResponseParser}
    (hwords : config.maxHeaderBytes + config.maxBodyBytes < 2 ^ 64)
    (h : Held config config.bufferLimit p) : Bounded config p where
  body := h.sized.body
  unread := by
    rw [available_eq]
    exact h.unread.trans (Nat.mod_eq_of_lt hwords).le
  offset := p.inBuffer
  declared := h.sized.counted
  chunk := h.sized.chunk
  digits := digitSums_lt p.toCore
  failed := h.sized.failed

/-- Between the calls and at every turn of the loop inside them. -/
theorem sizes_bounded (config : Config)
    (hwords : config.maxHeaderBytes + config.maxBodyBytes < 2 ^ 64) (inputs : List Input) :
    Bounded config (reached config inputs) ∧
      ∀ data turns, Admits (reached config inputs) data →
        Bounded config (process turns ((reached config inputs).append data)) := by
  have h := held_reached config inputs
  refine ⟨h.bounded hwords, fun data turns hadmits => ?_⟩
  exact (held_process turns (h.append rfl hadmits.2.2.2)).bounded hwords

/-- A body cut short by the end of the stream. -/
theorem sizes_bounded_truncated :
    64 + 4 < 2 ^ 64 ∧ Bounded { maxHeaderBytes := 64, maxBodyBytes := 4 }
      (reached { maxHeaderBytes := 64, maxBodyBytes := 4 }
        [.feed (ascii "HTTP/1.1 200 OK\r\nContent-Length: 4\r\n\r\nab"), .finishOnEof]) :=
  ⟨by decide, (sizes_bounded _ (by decide) _).1⟩

end Aevrix.Proxy
