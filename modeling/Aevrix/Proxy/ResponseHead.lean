import Aevrix.Proxy.ResponseSegmentation

/-!
# Response heads

Status lines, header fields and what the parser makes of them. A head is a status
line, field lines and an empty line; `path_head` follows the parser through one from
any core in front of a status line, so that responses can be put one after another.
-/

namespace Aevrix.Proxy
open Aevrix.Http Incremental ProxyResponseParser ProxyResponseParser.Core

/-! ### Lines within the limits -/

/-- An unfinished line here never trips its limit. -/
def LineFits (c : Core) (u : Bytes) : Prop := c.ReadsLine → (frontLine u).length ≤ c.lineLimit

theorem calm_of_lineFits {c : Core} {s : Bytes}
    (h : ∀ y ∈ responseMachine.visited c s, LineFits y.1 y.2) : responseGuard.Calm c s :=
  calm_of_lines h

theorem lineFits_of_not {c : Core} (h : ¬c.ReadsLine) (u : Bytes) : LineFits c u :=
  fun hl => (h hl).elim

theorem not_readsLine_of_halted {c : Core} (h : c.Halted) : ¬c.ReadsLine := by
  rcases h with h | h <;> simp [ReadsLine, h]

/-- Steps from one core to another through the bytes between, all lines within their limits. -/
abbrev Reads (c : Core) (u : Bytes) (d : Core) (v : Bytes) : Prop :=
  Machine.Path responseMachine LineFits c u d v

theorem reads_line {c : Core} (hl : c.ReadsLine) {line : Bytes} (hcrlf : findCrlf line = none)
    (hlim : line.length + 1 ≤ c.lineLimit) (x : Bytes) :
    Reads c (line ++ crlf ++ x) (c.onLine line) x := by
  refine Machine.Path.single (fun _ => by rw [frontLine_crlf hcrlf]; exact hlim) ?_
  change c.step (line ++ crlf ++ x) = some (c.onLine line, x)
  rw [step_line hl, splitLine_append_crlf hcrlf, Option.map_some]

theorem reads_emptyLine {c : Core} (hl : c.ReadsLine) (hlim : 1 ≤ c.lineLimit) (x : Bytes) :
    Reads c (crlf ++ x) (c.onLine []) x :=
  reads_line hl (show findCrlf [] = none from rfl) hlim x

/-! ### Status lines -/

/-- `version SP status-code [SP reason-phrase]`. -/
structure StatusLine where
  version : Bytes
  codeText : Bytes
  reason : Option Bytes
  version_known : version = ascii "HTTP/1.1" ∨ version = ascii "HTTP/1.0"
  code_digits : codeText.length = 3 ∧ ∀ c ∈ codeText, isDigit c = true
  reason_clean : ∀ r ∈ reason, LF ∉ r

theorem http11_known : ascii "HTTP/1.1" = ascii "HTTP/1.1" ∨ ascii "HTTP/1.1" = ascii "HTTP/1.0" :=
  Or.inl rfl
theorem code100_digits : (ascii "100").length = 3 ∧ ∀ c ∈ ascii "100", isDigit c = true := by decide

/-- `HTTP/1.1 200 OK`. -/
def okLine : StatusLine :=
  ⟨ascii "HTTP/1.1", ascii "200", some (ascii "OK"), http11_known, by decide, by decide⟩

namespace StatusLine

def status (l : StatusLine) : ℕ := decimalValue l.codeText

def reasonPhrase (l : StatusLine) : Bytes := match l.reason with
  | none => []
  | some r => trimOws r

def reasonPart (l : StatusLine) : Bytes := match l.reason with
  | none => []
  | some r => 32 :: r

def bytes (l : StatusLine) : Bytes := l.version ++ 32 :: (l.codeText ++ l.reasonPart)

theorem version_no_space (l : StatusLine) : ∀ c ∈ l.version, (c != 32) = true := by
  rcases l.version_known with h | h <;> rw [h] <;> decide

theorem code_no_space (l : StatusLine) : ∀ c ∈ l.codeText, (c != 32) = true := by
  intro c hc
  have hd := l.code_digits.2 c hc
  unfold isDigit at hd
  grind

theorem takeWhile_version (l : StatusLine) : l.bytes.takeWhile (· != 32) = l.version := by
  rw [bytes, List.takeWhile_append_of_pos l.version_no_space, List.takeWhile_cons]
  simp

theorem dropWhile_version (l : StatusLine) :
    l.bytes.dropWhile (· != 32) = 32 :: (l.codeText ++ l.reasonPart) := by
  rw [bytes, List.dropWhile_append_of_pos l.version_no_space, List.dropWhile_cons]
  simp

theorem takeWhile_code (l : StatusLine) :
    (l.codeText ++ l.reasonPart).takeWhile (· != 32) = l.codeText := by
  rw [List.takeWhile_append_of_pos l.code_no_space, reasonPart]
  cases l.reason with
  | none => simp
  | some r => simp

theorem dropWhile_code (l : StatusLine) :
    (l.codeText ++ l.reasonPart).dropWhile (· != 32) = l.reasonPart := by
  rw [List.dropWhile_append_of_pos l.code_no_space, reasonPart]
  cases l.reason with
  | none => rfl
  | some r => simp

theorem reason_eq (l : StatusLine) :
    (if 32 ∈ l.codeText ++ l.reasonPart then trimOws (l.reasonPart.drop 1) else []) =
      l.reasonPhrase := by
  have hcode : (32 : Byte) ∉ l.codeText := fun h => by simpa using l.code_no_space 32 h
  unfold reasonPart reasonPhrase
  cases l.reason with
  | none => simp [hcode]
  | some r => simp

theorem findCrlf_bytes (l : StatusLine) : findCrlf l.bytes = none := by
  refine findCrlf_of_notMem fun h => ?_
  simp only [bytes, List.mem_append, List.mem_cons] at h
  rcases h with h | h | h | h
  · rcases l.version_known with hv | hv <;> rw [hv] at h <;> revert h <;> decide
  · exact absurd h (by decide)
  · have hd := l.code_digits.2 _ h
    revert hd
    decide
  · unfold reasonPart at h
    cases hr : l.reason with
    | none => rw [hr] at h; cases h
    | some r =>
      rw [hr] at h
      rcases List.mem_cons.mp h with h | h
      · exact absurd h (by decide)
      · exact l.reason_clean r (by simp [hr]) h

end StatusLine

/-- The core after a status line: an interim response clears what an earlier one left. -/
def ProxyResponseParser.Core.started (c : Core) (l : StatusLine) : Core :=
  let c := { c with
    headerBytes := c.headerBytes + (l.bytes.length + 2)
    statusCode := l.status
    reasonPhrase := l.reasonPhrase
    state := .headers }
  if l.status < 200 then { c with
    isInterim := true
    headers := []
    sawContentLength := false
    sawTransferEncoding := false
    closeRequested := false }
  else { c with isInterim := false }

theorem statusLineText_line (c : Core) (l : StatusLine) (hs : 100 ≤ l.status ∧ l.status ≤ 599) :
    c.statusLineText l.bytes = if l.status = 101 then
        Core.fail { c with
          headerBytes := c.headerBytes + (l.bytes.length + 2)
          statusCode := l.status
          reasonPhrase := l.reasonPhrase } (ascii "upstream requested a protocol upgrade (101)")
      else c.started l := by
  have hmem : 32 ∈ l.bytes := by simp [StatusLine.bytes]
  have hver : ¬(l.version ≠ ascii "HTTP/1.1" ∧ l.version ≠ ascii "HTTP/1.0") := by
    rintro ⟨h1, h2⟩
    exact l.version_known.elim h1 h2
  have hcode : ¬(l.codeText.length ≠ 3 ∨ (!l.codeText.all isDigit) = true) := by
    have hall : l.codeText.all isDigit = true := List.all_eq_true.mpr l.code_digits.2
    simp [l.code_digits.1, hall]
  have hrange : ¬(l.status < 100 ∨ 599 < l.status) := by omega
  have hreason := l.reason_eq
  rw [List.drop_one] at hreason
  have hstatus : decimalValue l.codeText = l.status := rfl
  simp only [statusLineText, hmem, not_true_eq_false, if_false, l.takeWhile_version, if_neg hver,
    l.dropWhile_version, List.drop_one, List.tail_cons, l.takeWhile_code, if_neg hcode, hstatus,
    if_neg hrange, l.dropWhile_code, hreason]
  by_cases h101 : l.status = 101
  · have hlt : l.status < 200 := by omega
    rw [if_pos hlt, if_pos h101, if_pos h101]
  · rw [if_neg h101, if_neg h101, started]

theorem statusLineText_bytes (c : Core) (l : StatusLine) (hs : 100 ≤ l.status ∧ l.status ≤ 599)
    (h101 : l.status ≠ 101) : c.statusLineText l.bytes = c.started l := by
  rw [statusLineText_line c l hs, if_neg h101]

theorem statusLineText_cases (c : Core) (l : StatusLine) (hs : 100 ≤ l.status ∧ l.status ≤ 599) :
    (c.statusLineText l.bytes).state = .error ∨ c.statusLineText l.bytes = c.started l := by
  rw [statusLineText_line c l hs]
  split
  · exact Or.inl rfl
  · exact Or.inr rfl

/-! ### Header fields -/

/-- A header field with optional whitespace around its value. -/
structure ResponseField where
  name : Bytes
  before : Bytes
  value : Bytes
  after : Bytes
  name_token : name ≠ [] ∧ ∀ c ∈ name, HttpHeader.isTokenChar c = true
  before_ows : ∀ c ∈ before, isOws c = true
  after_ows : ∀ c ∈ after, isOws c = true
  value_trimmed : trimWhitespace value = value
  value_clean : LF ∉ value

namespace ResponseField

/-- The name in the form names are compared in. -/
def key (f : ResponseField) : Bytes := HttpHeader.normalizeName f.name

/-- The header stored for the field. -/
def header (f : ResponseField) : HttpHeader := HttpHeader.ofField f.name f.value

def bytes (f : ResponseField) : Bytes := f.name ++ 58 :: (f.before ++ f.value ++ f.after)

theorem name_no_colon (f : ResponseField) : ∀ c ∈ f.name, (c != 58) = true :=
  fun c hc => bne_iff_ne.mpr (isTokenChar_not (f.name_token.2 c hc)).2.1

theorem takeWhile_bytes (f : ResponseField) : f.bytes.takeWhile (· != 58) = f.name := by
  rw [bytes, List.takeWhile_append_of_pos f.name_no_colon, List.takeWhile_cons]
  simp

theorem dropWhile_bytes (f : ResponseField) :
    f.bytes.dropWhile (· != 58) = 58 :: (f.before ++ f.value ++ f.after) := by
  rw [bytes, List.dropWhile_append_of_pos f.name_no_colon, List.dropWhile_cons]
  simp

theorem trimOws_value (f : ResponseField) : trimOws (f.before ++ f.value ++ f.after) = f.value := by
  have hsub : ∀ c, isOws c = true → isTrimmable c = true := fun c hc => by
    unfold isOws at hc
    unfold isTrimmable
    grind
  rw [trimOws, trimBy_pad f.before_ows f.after_ows]
  exact trimBy_of_trimBy hsub f.value_trimmed

theorem bytes_ne_nil (f : ResponseField) : f.bytes ≠ [] := by simp [bytes]

theorem head_bytes (f : ResponseField) :
    f.bytes.head?.any isOws = false ∧ f.bytes.head? ≠ some 58 := by
  obtain ⟨c, t, hc⟩ := List.exists_cons_of_ne_nil f.name_token.1
  have hn := isTokenChar_not (f.name_token.2 c (by rw [hc]; exact List.mem_cons_self ..))
  simp [bytes, hc, hn.1, hn.2.1]

theorem findCrlf_bytes (f : ResponseField) : findCrlf f.bytes = none := by
  refine findCrlf_of_notMem fun h => ?_
  simp only [bytes, List.mem_append, List.mem_cons] at h
  rcases h with h | h | (h | h) | h
  · exact (isTokenChar_not (f.name_token.2 _ h)).2.2 rfl
  · exact absurd h (by decide)
  · exact (isOws_not (f.before_ows _ h)).2 rfl
  · exact f.value_clean h
  · exact (isOws_not (f.after_ows _ h)).2 rfl

/-- The value has none of the bytes the parser refuses. -/
def Valid (f : ResponseField) : Prop := ∀ c ∈ f.value, HttpHeader.isControl c = false

instance (f : ResponseField) : Decidable f.Valid := by
  unfold Valid
  infer_instance

theorem header_valid {f : ResponseField} : f.header.isValid = true ↔ f.Valid := by
  have hname : f.header.isValidName = true := (HttpHeader.isValidName_iff _ _).mpr f.name_token
  rw [HttpHeader.isValid, hname, Bool.true_and, HttpHeader.isValidValue, header,
    HttpHeader.ofField_value, f.value_trimmed, List.all_eq_true, Valid]
  simp only [Bool.not_eq_true']

/-! The fields that decide the framing of a response, and the one that ends the connection. -/

def isContentLength (f : ResponseField) : Bool := f.key == ascii "content-length"
def isTransferEncoding (f : ResponseField) : Bool := f.key == ascii "transfer-encoding"
def isFraming (f : ResponseField) : Bool := f.isContentLength || f.isTransferEncoding
def closes (f : ResponseField) : Bool :=
  f.key == ascii "connection" && containsToken f.value (ascii "close")

section kinds
variable {f : ResponseField}

theorem closes_of_key (h : f.key ≠ ascii "connection") : f.closes = false := by
  rw [closes, beq_false_of_ne h, Bool.false_and]

theorem isContentLength_only (h : f.key = ascii "content-length") :
    f.isContentLength = true ∧ f.isTransferEncoding = false ∧ f.closes = false :=
  ⟨beq_iff_eq.mpr h, beq_false_of_ne (by rw [h]; decide), closes_of_key (by rw [h]; decide)⟩

theorem isTransferEncoding_only (h : f.key = ascii "transfer-encoding") :
    f.isContentLength = false ∧ f.isTransferEncoding = true ∧ f.closes = false :=
  ⟨beq_false_of_ne (by rw [h]; decide), beq_iff_eq.mpr h, closes_of_key (by rw [h]; decide)⟩

end kinds
end ResponseField

namespace ProxyResponseParser.Core

/-- The field is refused for no other reason than a limit. -/
def Accepts (c : Core) (f : ResponseField) : Prop :=
  (f.isContentLength = true →
    (c.sawContentLength = true → c.headers.get (ascii "Content-Length") = f.value) ∧
    f.value ≠ [] ∧ f.value.length ≤ 19 ∧ ∀ c ∈ f.value, isDigit c = true) ∧
  (f.isTransferEncoding = true → containsToken f.value (ascii "chunked") = true)

/-- The limit on a declared length, which does not apply to a response without a body. -/
def LengthWithin (c : Core) (f : ResponseField) : Prop :=
  f.isContentLength = true → c.bodyless = true ∨ decimalValue f.value ≤ c.config.maxBodyBytes

/-- The core after an accepted field. -/
def stored (c : Core) (f : ResponseField) : Core := { c with
  headerBytes := c.headerBytes + (f.bytes.length + 2)
  headers := c.headers.set f.name f.value
  contentLength := if f.isContentLength then decimalValue f.value else c.contentLength
  sawContentLength := c.sawContentLength || f.isContentLength
  sawTransferEncoding := c.sawTransferEncoding || f.isTransferEncoding
  closeRequested := c.closeRequested || f.closes }

/-- The core after a field line that is within the header limit. -/
def storeLine (c : Core) (f : ResponseField) : Core :=
  { c with headerBytes := c.headerBytes + (f.bytes.length + 2) }.storeField f.name f.value

end ProxyResponseParser.Core

section field
variable (c : Core) (f : ResponseField)

theorem headerLineText_bytes (hv : f.Valid)
    (hlim : c.headerBytes + (f.bytes.length + 2) ≤ c.config.maxHeaderBytes) :
    c.headerLineText f.bytes = c.storeLine f := by
  have hmem : 58 ∈ f.bytes := by simp [ResponseField.bytes]
  have hcolon : ¬(58 ∉ f.bytes ∨ f.bytes.head? = some 58) := by
    simp [hmem, f.head_bytes.2]
  have hvalid : (HttpHeader.ofField f.name f.value).isValid = true :=
    ResponseField.header_valid.mpr hv
  simp only [headerLineText, f.head_bytes.1, Bool.false_eq_true, if_false,
    if_neg (Nat.not_lt.mpr hlim), if_neg hcolon, f.takeWhile_bytes, f.dropWhile_bytes,
    List.drop_one, List.tail_cons, f.trimOws_value, hvalid, Bool.not_true, storeLine]

theorem headerLineText_cases :
    (c.headerLineText f.bytes).state = .error ∨ c.headerLineText f.bytes = c.storeLine f := by
  by_cases hlim : c.headerBytes + (f.bytes.length + 2) ≤ c.config.maxHeaderBytes
  · by_cases hv : f.Valid
    · exact Or.inr (headerLineText_bytes c f hv hlim)
    · have hmem : 58 ∈ f.bytes := by simp [ResponseField.bytes]
      have hcolon : ¬(58 ∉ f.bytes ∨ f.bytes.head? = some 58) := by
        simp [hmem, f.head_bytes.2]
      have hvalid : (HttpHeader.ofField f.name f.value).isValid = false :=
        Bool.eq_false_iff.mpr fun h => hv (ResponseField.header_valid.mp h)
      left
      simp only [headerLineText, f.head_bytes.1, Bool.false_eq_true, if_false,
        if_neg (Nat.not_lt.mpr hlim), if_neg hcolon, f.takeWhile_bytes, f.dropWhile_bytes,
        List.drop_one, List.tail_cons, f.trimOws_value, hvalid, Bool.not_false, if_true]
      rfl
  · left
    simp only [headerLineText, f.head_bytes.1, Bool.false_eq_true, if_false,
      if_pos (Nat.not_le.mp hlim)]
    rfl

theorem storeLine_accepted (h : c.Accepts f) (hl : c.LengthWithin f) :
    c.storeLine f = c.stored f := by
  obtain ⟨hlen, henc⟩ := h
  simp only [storeLine, storeField]
  split
  · rename_i hk
    obtain ⟨hcl, hte, hcn⟩ := ResponseField.isContentLength_only hk
    obtain ⟨hsame, hne, h19, hdig⟩ := hlen hcl
    have h1 : ¬(c.sawContentLength && c.headers.get (ascii "Content-Length") != f.value) = true := by
      simpa using hsame
    have h2 : ¬(f.value = [] ∨ 19 < f.value.length ∨ (!f.value.all isDigit) = true) := by
      simpa [hne, Nat.not_lt.mpr h19] using hdig
    have h3 : ¬((!c.bodyless) = true ∧ c.config.maxBodyBytes < decimalValue f.value) := by
      rcases hl hcl with hb | hb
      · simp [hb]
      · exact fun h => absurd h.2 (Nat.not_lt.mpr hb)
    have hb : Core.bodyless { c with headerBytes := c.headerBytes + (f.bytes.length + 2) } =
      c.bodyless := rfl
    simp only [contentLengthField, if_neg h1, if_neg h2, hb, if_neg h3, stored, hcl, hte, hcn,
      if_true, Bool.or_true, Bool.or_false]
  split
  · rename_i hk1 hk
    obtain ⟨hcl, hte, hcn⟩ := ResponseField.isTransferEncoding_only hk
    simp [transferEncodingField, henc hte, stored, hcl, hte, hcn]
  split
  · rename_i hk1 hk2 hk
    have hcl : f.isContentLength = false := beq_eq_false_iff_ne.mpr hk1
    have hte : f.isTransferEncoding = false := beq_eq_false_iff_ne.mpr hk2
    have hcn : f.closes = containsToken f.value (ascii "close") := by
      simp [ResponseField.closes, ResponseField.key, hk]
    simp [connectionField, stored, hcl, hte, hcn]
  · rename_i hk1 hk2 hk
    have hcl : f.isContentLength = false := beq_eq_false_iff_ne.mpr hk1
    have hte : f.isTransferEncoding = false := beq_eq_false_iff_ne.mpr hk2
    have hcn : f.closes = false := ResponseField.closes_of_key hk
    simp [stored, hcl, hte, hcn]

theorem storeLine_refused (h : ¬(c.Accepts f ∧ c.LengthWithin f)) :
    (c.storeLine f).state = .error := by
  simp only [storeLine, storeField]
  split
  · rename_i hk
    obtain ⟨hcl, hte, -⟩ := ResponseField.isContentLength_only hk
    simp only [contentLengthField]
    split
    · rfl
    split
    · rfl
    split
    · rfl
    rename_i h1 h2 h3
    refine (h ⟨⟨fun _ => ?_, fun ht => ?_⟩, fun _ => ?_⟩).elim
    · rw [not_or, not_or] at h2
      refine ⟨by simpa using h1, h2.1, Nat.not_lt.mp h2.2.1, by simpa using h2.2.2⟩
    · rw [hte] at ht
      cases ht
    · by_cases hb : c.bodyless = true
      · exact Or.inl hb
      · refine Or.inr (Nat.not_lt.mp fun hlt => h3 ⟨?_, hlt⟩)
        have hb' : Core.bodyless { c with headerBytes := c.headerBytes + (f.bytes.length + 2) } =
          c.bodyless := rfl
        rw [hb']
        simpa using hb
  · rename_i hk1
    have hcl : f.isContentLength = false := beq_eq_false_iff_ne.mpr hk1
    split
    · simp only [transferEncodingField]
      split
      · rfl
      · rename_i hk h1
        refine (h ⟨⟨fun ht => ?_, fun _ => by simpa using h1⟩, fun ht => ?_⟩).elim
        · rw [hcl] at ht
          cases ht
        · rw [hcl] at ht
          cases ht
    · rename_i hk
      have hte : f.isTransferEncoding = false := beq_eq_false_iff_ne.mpr hk
      refine (h ⟨⟨fun ht => ?_, fun ht => ?_⟩, fun ht => ?_⟩).elim
      · rw [hcl] at ht
        cases ht
      · rw [hte] at ht
        cases ht
      · rw [hcl] at ht
        cases ht

theorem onLine_field_cases (hs : c.state = .headers) :
    (c.onLine f.bytes).state = .error ∨ c.onLine f.bytes = c.stored f ∧ c.Accepts f := by
  simp only [onLine, hs, if_neg f.bytes_ne_nil]
  rcases headerLineText_cases c f with h | h
  · exact Or.inl h
  · rw [h]
    by_cases ha : c.Accepts f ∧ c.LengthWithin f
    · exact Or.inr ⟨storeLine_accepted c f ha.1 ha.2, ha.1⟩
    · exact Or.inl (storeLine_refused c f ha)

theorem onLine_field (hs : c.state = .headers) (hv : f.Valid) (ha : c.Accepts f)
    (hl : c.LengthWithin f)
    (hlim : c.headerBytes + (f.bytes.length + 2) ≤ c.config.maxHeaderBytes) :
    c.onLine f.bytes = c.stored f := by
  simp only [onLine, hs, if_neg f.bytes_ne_nil]
  rw [headerLineText_bytes c f hv hlim, storeLine_accepted c f ha hl]

end field

/-! ### Field sections -/

namespace ProxyResponseParser.Core

def storedAll (c : Core) (fs : List ResponseField) : Core := fs.foldl stored c

/-- Every field is accepted in the core the ones before it leave. -/
def AcceptsAll : Core → List ResponseField → Prop
  | _, [] => True
  | c, f :: fs => c.Accepts f ∧ AcceptsAll (c.stored f) fs

end ProxyResponseParser.Core

/-- Bytes of a field section up to and including the empty line. -/
def fieldSection (fs : List ResponseField) : Bytes := lineBlock (fs.map ResponseField.bytes)

theorem fieldSection_cons (f : ResponseField) (fs : List ResponseField) (x : Bytes) :
    fieldSection (f :: fs) ++ x = f.bytes ++ crlf ++ (fieldSection fs ++ x) := lineBlock_cons ..

theorem fieldSection_length (fs : List ResponseField) :
    (fieldSection fs).length = (fs.map fun f => f.bytes.length + 2).sum + 2 := by
  rw [fieldSection, lineBlock_length, List.map_map]
  rfl

/-- The length fields have 1 to 19 digits and one value, the coding fields name `chunked`. -/
structure FieldsAgree (fs : List ResponseField) : Prop where
  lengths : ∀ f ∈ fs, f.isContentLength = true →
    f.value ≠ [] ∧ f.value.length ≤ 19 ∧ ∀ c ∈ f.value, isDigit c = true
  same : ∀ f ∈ fs, ∀ g ∈ fs, f.isContentLength = true → g.isContentLength = true →
    f.value = g.value
  codings : ∀ f ∈ fs, f.isTransferEncoding = true → containsToken f.value (ascii "chunked") = true

theorem storedAll_eq (fs : List ResponseField) (c : Core) : c.storedAll fs = { c with
    headerBytes := c.headerBytes + (fs.map fun f => f.bytes.length + 2).sum
    headers := fs.foldl (fun hs f => hs.set f.name f.value) c.headers
    contentLength :=
      fs.foldl (fun n f => if f.isContentLength then decimalValue f.value else n) c.contentLength
    sawContentLength := c.sawContentLength || fs.any ResponseField.isContentLength
    sawTransferEncoding := c.sawTransferEncoding || fs.any ResponseField.isTransferEncoding
    closeRequested := c.closeRequested || fs.any ResponseField.closes } := by
  induction fs generalizing c with
  | nil => simp [storedAll]
  | cons f fs ih =>
    have hstep : c.storedAll (f :: fs) = (c.stored f).storedAll fs := rfl
    rw [hstep, ih]
    simp only [stored, List.map_cons, List.sum_cons, List.foldl_cons, List.any_cons, Bool.or_assoc,
      Nat.add_assoc]

/-- The length kept after a field is the one a later field is compared with. -/
theorem get_stored (c : Core) (f : ResponseField) :
    (c.stored f).headers.get (ascii "Content-Length") =
      if f.isContentLength then f.value else c.headers.get (ascii "Content-Length") := by
  have hname : HttpHeader.normalizeName (ascii "Content-Length") = ascii "content-length" := by
    decide
  simp only [stored]
  split
  · rename_i hcl
    have hk : HttpHeader.normalizeName f.name = HttpHeader.normalizeName (ascii "Content-Length") :=
      (beq_iff_eq.mp hcl).trans hname.symm
    rw [HttpHeaders.get_congr _ hk.symm, HttpHeaders.get_set_self, f.value_trimmed]
  · rename_i hcl
    refine HttpHeaders.get_set_other _ _ fun hk => hcl (beq_iff_eq.mpr ?_)
    exact (hname.symm.trans hk).symm

theorem acceptsAll_iff (fs : List ResponseField) (c : Core) : c.AcceptsAll fs ↔ FieldsAgree fs ∧
    (c.sawContentLength = true → ∀ f ∈ fs, f.isContentLength = true →
      f.value = c.headers.get (ascii "Content-Length")) := by
  induction fs generalizing c with
  | nil => simpa [AcceptsAll] using (⟨by simp, by simp, by simp⟩ : FieldsAgree [])
  | cons f fs ih =>
    rw [AcceptsAll, ih, get_stored]
    have hsaw : (c.stored f).sawContentLength = (c.sawContentLength || f.isContentLength) := rfl
    rw [hsaw]
    constructor
    · rintro ⟨hf, hfs, hlater⟩
      refine ⟨⟨?_, ?_, ?_⟩, ?_⟩
      · exact List.forall_mem_cons.mpr ⟨fun h => (hf.1 h).2, hfs.lengths⟩
      · have hfirst : ∀ g ∈ fs, f.isContentLength = true → g.isContentLength = true →
            g.value = f.value := fun g hg h h' => by
          have hg' := hlater (by rw [h, Bool.or_true]) g hg h'
          rwa [if_pos h] at hg'
        refine List.forall_mem_cons.mpr ⟨List.forall_mem_cons.mpr ⟨fun _ _ => rfl,
          fun g hg h h' => (hfirst g hg h h').symm⟩, fun g hg => List.forall_mem_cons.mpr
          ⟨fun h h' => hfirst g hg h' h, hfs.same g hg⟩⟩
      · exact List.forall_mem_cons.mpr ⟨hf.2, hfs.codings⟩
      · intro hc
        refine List.forall_mem_cons.mpr ⟨fun h => ((hf.1 h).1 hc).symm, fun g hg h => ?_⟩
        have hg' := hlater (by rw [hc, Bool.true_or]) g hg h
        split at hg'
        · rename_i hcl
          rw [hg', (hf.1 hcl).1 hc]
        · exact hg'
    · rintro ⟨hall, hsame⟩
      have hmem : f ∈ f :: fs := List.mem_cons_self ..
      have htail : ∀ g ∈ fs, g ∈ f :: fs := fun g hg => List.mem_cons_of_mem _ hg
      refine ⟨⟨fun h => ⟨fun hc => (hsame hc f hmem h).symm, hall.lengths f hmem h⟩,
        hall.codings f hmem⟩, ⟨fun g hg => hall.lengths g (htail g hg),
        fun g hg k hk => hall.same g (htail g hg) k (htail k hk),
        fun g hg => hall.codings g (htail g hg)⟩, fun hc g hg h => ?_⟩
      split
      · rename_i hcl
        exact hall.same g (htail g hg) f hmem h hcl
      · rename_i hcl
        rw [Bool.eq_false_iff.mpr hcl, Bool.or_false] at hc
        exact hsame hc g (htail g hg) h

theorem step_emptyLine {c : Core} (hs : c.state = .headers) (x : Bytes) :
    c.step (fieldSection [] ++ x) = some (c.endOfHeaders, x) := by
  have hline : splitLine (fieldSection [] ++ x) = some ([], x) := splitLine_append_crlf (l := []) rfl x
  rw [step_line (Or.inr (Or.inl hs)), hline, Option.map_some]
  simp only [onLine, hs, if_true]

theorem step_field {c : Core} (hs : c.state = .headers) (f : ResponseField)
    (fs : List ResponseField) (x : Bytes) :
    c.step (fieldSection (f :: fs) ++ x) = some (c.onLine f.bytes, fieldSection fs ++ x) := by
  rw [fieldSection_cons, step_line (Or.inr (Or.inl hs)), splitLine_append_crlf f.findCrlf_bytes,
    Option.map_some]

/-- The parser follows a field section that is accepted and within the limits. -/
theorem reads_fields (fs : List ResponseField) (c : Core) (x : Bytes) (hs : c.state = .headers)
    (hv : ∀ f ∈ fs, f.Valid) (ha : c.AcceptsAll fs) (hl : ∀ f ∈ fs, c.LengthWithin f)
    (hlim : c.headerBytes + (fieldSection fs).length ≤ c.config.maxHeaderBytes) :
    Reads c (fieldSection fs ++ x) (c.storedAll fs).endOfHeaders x := by
  have hreads : c.ReadsLine := Or.inr (Or.inl hs)
  have hmax : c.lineLimit = c.config.maxHeaderBytes := by simp [lineLimit, hs]
  induction fs generalizing c with
  | nil =>
    rw [fieldSection_length] at hlim
    have hend := reads_emptyLine hreads (by rw [hmax]; omega) x
    simp only [onLine, hs, if_true] at hend
    exact hend
  | cons f fs ih =>
    rw [fieldSection_length, List.map_cons, List.sum_cons] at hlim
    have hfield : c.onLine f.bytes = c.stored f := onLine_field c f hs
      (hv f (List.mem_cons_self ..)) ha.1 (hl f (List.mem_cons_self ..)) (by omega)
    have hline := reads_line hreads f.findCrlf_bytes (by rw [hmax]; omega) (fieldSection fs ++ x)
    rw [hfield] at hline
    rw [fieldSection_cons]
    refine hline.trans (ih (c.stored f) hs (fun g hg => hv g (List.mem_cons_of_mem _ hg)) ha.2
      (fun g hg => hl g (List.mem_cons_of_mem _ hg)) ?_ (Or.inr (Or.inl hs)) ?_)
    · rw [fieldSection_length]
      simp only [stored]
      omega
    · simp [lineLimit, stored, hs]

/-! ### Heads -/

/-- A status line and a field section. -/
structure Head where
  line : StatusLine
  fields : List ResponseField

namespace Head

def bytes (h : Head) : Bytes := headBlock h.line.bytes (h.fields.map ResponseField.bytes)

theorem bytes_append (h : Head) (x : Bytes) :
    h.bytes ++ x = h.line.bytes ++ crlf ++ (fieldSection h.fields ++ x) := headBlock_append ..

theorem bytes_length (h : Head) :
    h.bytes.length = h.line.bytes.length + 2 + (fieldSection h.fields).length := by
  simp only [bytes, headBlock, fieldSection, List.length_append, List.length_cons, List.length_nil]

theorem step_bytes (h : Head) {c : Core} (hs : c.state = .statusLine) (x : Bytes) :
    c.step (h.bytes ++ x) = some (c.statusLineText h.line.bytes, fieldSection h.fields ++ x) := by
  rw [h.bytes_append, step_line (Or.inl hs), splitLine_append_crlf h.line.findCrlf_bytes,
    Option.map_some]
  simp only [onLine, hs]

/-- The core after the fields, in front of the empty line. -/
def core (h : Head) (c : Core) : Core := (c.started h.line).storedAll h.fields

end Head

theorem reads_head (h : Head) (c : Core) (x : Bytes) (hs : c.state = .statusLine)
    (hcode : 100 ≤ h.line.status ∧ h.line.status ≤ 599) (h101 : h.line.status ≠ 101)
    (hv : ∀ f ∈ h.fields, f.Valid) (ha : (c.started h.line).AcceptsAll h.fields)
    (hl : ∀ f ∈ h.fields, (c.started h.line).LengthWithin f)
    (hlim : c.headerBytes + h.bytes.length ≤ c.config.maxHeaderBytes) :
    Reads c (h.bytes ++ x) (h.core c).endOfHeaders x := by
  have hmax : c.lineLimit = c.config.maxHeaderBytes := by simp [lineLimit, hs]
  rw [h.bytes_length] at hlim
  have hline := reads_line (Or.inl hs) h.line.findCrlf_bytes (by rw [hmax]; omega)
    (fieldSection h.fields ++ x)
  have hstart : c.onLine h.line.bytes = c.started h.line := by
    simp only [onLine, hs]
    exact statusLineText_bytes c h.line hcode h101
  rw [hstart] at hline
  rw [h.bytes_append]
  refine hline.trans (reads_fields h.fields _ x ?_ hv ha hl ?_)
  · simp only [started]
    split <;> rfl
  · have hbytes : (c.started h.line).headerBytes = c.headerBytes + (h.line.bytes.length + 2) := by
      simp only [started]
      split <;> rfl
    have hconf : (c.started h.line).config = c.config := by
      simp only [started]
      split <;> rfl
    rw [hbytes, hconf]
    omega

end Aevrix.Proxy
