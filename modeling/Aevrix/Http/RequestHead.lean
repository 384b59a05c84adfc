import Aevrix.Http.RequestSegmentation

/-!
# Request heads

A head as the bytes of its lines: a request line, field lines, the empty line.
The parser, given the bytes of a head within its limits, stores what the lines
say and goes on with the bytes after the empty line (`drain_head`).
-/

namespace Aevrix.Http
open Incremental HttpRequestParser HttpRequestParser.Core

/-! ### The request line -/

/-- `method SP target SP HTTP/DIGIT.DIGIT`. -/
structure RequestLine where
  methodStr : Bytes
  target : Bytes
  major : Byte
  minor : Byte
  known : stringToHttpMethod methodStr ≠ .unknown
  target_word : target ≠ [] ∧ ∀ c ∈ target, isSpace c = false
  digits : isDigit major ∧ isDigit minor

theorem get_known : stringToHttpMethod (ascii "GET") ≠ .unknown := by decide
theorem slash_word : ascii "/" ≠ [] ∧ ∀ c ∈ ascii "/", isSpace c = false := by decide
theorem one_one_digits : isDigit 49 ∧ isDigit 49 := by decide

namespace RequestLine

def method (l : RequestLine) : HttpMethod := stringToHttpMethod l.methodStr
def version (l : RequestLine) : Bytes := ascii "HTTP/" ++ [l.major, 46, l.minor]
def bytes (l : RequestLine) : Bytes := l.methodStr ++ 32 :: (l.target ++ 32 :: l.version)

end RequestLine

theorem isSpace_toUpper {c : Byte} (h : isSpace c = true) : isSpace (toUpper c) = true := by
  unfold toUpper isLower isSpace at *
  grind

theorem method_word {m : Bytes} (h : stringToHttpMethod m ≠ .unknown) :
    m ≠ [] ∧ ∀ c ∈ m, isSpace c = false := by
  have key : ∀ w : Bytes, m.map toUpper = w → w ≠ [] → (∀ c ∈ w, isSpace c = false) →
      m ≠ [] ∧ ∀ c ∈ m, isSpace c = false := by
    rintro w rfl hne hw
    refine ⟨fun hm => hne (by rw [hm, List.map_nil]), fun c hc => ?_⟩
    cases hs : isSpace c with
    | false => rfl
    | true =>
      have hup := hw _ (List.mem_map_of_mem hc)
      rw [isSpace_toUpper hs] at hup
      cases hup
  unfold stringToHttpMethod at h
  simp only at h
  split at h
  · rename_i he; exact key _ he (by decide) (by decide)
  split at h
  · rename_i he; exact key _ he (by decide) (by decide)
  split at h
  · rename_i he; exact key _ he (by decide) (by decide)
  split at h
  · rename_i he; exact key _ he (by decide) (by decide)
  split at h
  · rename_i he; exact key _ he (by decide) (by decide)
  split at h
  · rename_i he; exact key _ he (by decide) (by decide)
  split at h
  · rename_i he; exact key _ he (by decide) (by decide)
  · exact (h rfl).elim

theorem isDigit_not_space {c : Byte} (h : isDigit c = true) : isSpace c = false := by
  unfold isDigit at h
  unfold isSpace
  grind

theorem RequestLine.version_word (l : RequestLine) :
    l.version ≠ [] ∧ ∀ c ∈ l.version, isSpace c = false := by
  refine ⟨fun h => by simp [version] at h, fun c hc => ?_⟩
  rcases List.mem_append.mp hc with hc | hc
  · exact (by decide : ∀ c ∈ ascii "HTTP/", isSpace c = false) c hc
  · simp only [List.mem_cons, List.not_mem_nil, or_false] at hc
    rcases hc with rfl | rfl | rfl
    · exact isDigit_not_space l.digits.1
    · decide
    · exact isDigit_not_space l.digits.2

theorem isSpace_LF : isSpace LF = true := by decide

theorem RequestLine.findCrlf_bytes (l : RequestLine) : findCrlf l.bytes = none := by
  refine findCrlf_of_notMem fun h => ?_
  have hw : ∀ {w : Bytes}, (∀ c ∈ w, isSpace c = false) → LF ∉ w := fun hs hm => by
    have hsp := hs _ hm
    rw [isSpace_LF] at hsp
    cases hsp
  simp only [bytes, List.mem_append, List.mem_cons] at h
  rcases h with h | h | h | h | h
  · exact hw (method_word l.known).2 h
  · exact absurd h (by decide)
  · exact hw l.target_word.2 h
  · exact absurd h (by decide)
  · exact hw l.version_word.2 h

/-- Extraction of the first word of a line that begins with white space, the word,
and either its end or more white space. -/
theorem extractWord_word (pre : Bytes) {w rest : Bytes} (hpre : ∀ c ∈ pre, isSpace c = true)
    (hne : w ≠ []) (hw : ∀ c ∈ w, isSpace c = false) (hrest : ∀ c ∈ rest.head?, isSpace c = true) :
    extractWord (pre ++ (w ++ rest)) = some (w, rest) := by
  obtain ⟨c, t, rfl⟩ := List.exists_cons_of_ne_nil hne
  have hc : isSpace c = false := hw c (List.mem_cons_self ..)
  have hdrop : (pre ++ (c :: t ++ rest)).dropWhile isSpace = c :: t ++ rest := by
    rw [List.dropWhile_append_of_pos hpre, List.cons_append, List.dropWhile_cons, hc]
    rfl
  have hall : ∀ x ∈ c :: t, (!isSpace x) = true := fun x hx => by rw [hw x hx]; rfl
  have htake : rest.takeWhile (fun c => !isSpace c) = [] := by
    cases rest with
    | nil => rfl
    | cons d ds => rw [List.takeWhile_cons, hrest d rfl]; rfl
  have hrem : rest.dropWhile (fun c => !isSpace c) = rest := by
    cases rest with
    | nil => rfl
    | cons d ds => rw [List.dropWhile_cons, hrest d rfl]; rfl
  simp only [extractWord, hdrop, List.takeWhile_append_of_pos hall, htake, List.append_nil,
    List.dropWhile_append_of_pos hall, hrem, if_neg hne]

theorem requestLineText_bytes (c : Core) (l : RequestLine) :
    c.requestLineText l.bytes = (true, { c with request := { c.request with
      method := l.method
      target := l.target
      version := l.version } }) := by
  have hm := method_word l.known
  have h1 : extractWord l.bytes = some (l.methodStr, 32 :: (l.target ++ 32 :: l.version)) :=
    extractWord_word [] (by simp) hm.1 hm.2 (by simp [isSpace])
  have h2 : extractWord (32 :: (l.target ++ 32 :: l.version)) =
      some (l.target, 32 :: l.version) :=
    extractWord_word [32] (by simp [isSpace]) l.target_word.1 l.target_word.2
      (by simp [isSpace])
  have h3 : extractWord (32 :: l.version) = some (l.version, []) := by
    have h := extractWord_word [32] (by simp [isSpace]) l.version_word.1
      l.version_word.2 (show ∀ c ∈ ([] : Bytes).head?, isSpace c = true by simp)
    rwa [List.append_nil] at h
  have hp : (ascii "HTTP/").isPrefixOf l.version = true :=
    List.isPrefixOf_iff_prefix.mpr (List.prefix_append ..)
  simp only [requestLineText, h1, h2, h3, if_neg l.known, if_neg l.target_word.1,
    if_neg l.version_word.1, hp, Bool.not_true, Bool.false_eq_true, if_false, RequestLine.method]

/-! ### Field lines -/

/-- A field line. Optional whitespace around the name is accepted (`docs/HTTP.md`,
deviation 1). -/
structure FieldLine where
  before : Bytes
  name : Bytes
  between : Bytes
  value : Bytes
  before_ows : ∀ c ∈ before, isOws c = true
  between_ows : ∀ c ∈ between, isOws c = true
  name_token : name ≠ [] ∧ ∀ c ∈ name, HttpHeader.isTokenChar c = true

namespace FieldLine

def bytes (f : FieldLine) : Bytes := f.before ++ f.name ++ f.between ++ 58 :: f.value

/-- The value has no CR, LF or NUL. -/
def Clean (f : FieldLine) : Prop := ∀ c ∈ f.value, c ≠ CR ∧ c ≠ LF ∧ c ≠ 0

instance (f : FieldLine) : Decidable f.Clean := by
  unfold Clean
  infer_instance

/-- Nothing before the name, nothing between the name and the colon. -/
def Tight (f : FieldLine) : Prop := f.before = [] ∧ f.between = []

end FieldLine

namespace FieldLine

theorem label_colon (f : FieldLine) : ∀ c ∈ f.before ++ f.name ++ f.between, c ≠ 58 := by
  intro c hc
  simp only [List.mem_append] at hc
  rcases hc with (hc | hc) | hc
  · exact (isOws_not (f.before_ows c hc)).1
  · exact (isTokenChar_not (f.name_token.2 c hc)).2.1
  · exact (isOws_not (f.between_ows c hc)).1

theorem bytes_ne_nil (f : FieldLine) : f.bytes ≠ [] := by simp [bytes]

theorem findCrlf_bytes {f : FieldLine} (h : f.Clean) : findCrlf f.bytes = none := by
  refine findCrlf_of_notMem fun hm => ?_
  simp only [bytes, List.mem_append, List.mem_cons] at hm
  rcases hm with ((hm | hm) | hm) | hm | hm
  · exact (isOws_not (f.before_ows _ hm)).2 rfl
  · exact (isTokenChar_not (f.name_token.2 _ hm)).2.2 rfl
  · exact (isOws_not (f.between_ows _ hm)).2 rfl
  · exact absurd hm (by decide)
  · exact (h _ hm).2.1 rfl

theorem takeWhile_bytes (f : FieldLine) :
    f.bytes.takeWhile (· != 58) = f.before ++ f.name ++ f.between := by
  have hall : ∀ c ∈ f.before ++ f.name ++ f.between, (c != 58) = true :=
    fun c hc => bne_iff_ne.mpr (f.label_colon c hc)
  rw [bytes, List.takeWhile_append_of_pos hall, List.takeWhile_cons]
  simp

theorem dropWhile_bytes (f : FieldLine) : f.bytes.dropWhile (· != 58) = 58 :: f.value := by
  have hall : ∀ c ∈ f.before ++ f.name ++ f.between, (c != 58) = true :=
    fun c hc => bne_iff_ne.mpr (f.label_colon c hc)
  rw [bytes, List.dropWhile_append_of_pos hall, List.dropWhile_cons]
  simp

theorem trimmed_name (f : FieldLine) : trimBy isOws (f.before ++ f.name ++ f.between) = f.name := by
  rw [trimBy_pad f.before_ows f.between_ows]
  exact trimBy_of_none fun c hc => (isTokenChar_not (f.name_token.2 c hc)).1

end FieldLine

/-- The core after a field line that is within the limits. -/
def HttpRequestParser.Core.store (c : Core) (f : FieldLine) : Core :=
  { c with
    request := c.request.setHeader f.name f.value
    headersReceived := c.headersReceived + 1
    totalHeaderBytes := c.totalHeaderBytes + f.bytes.length }

theorem headerText_bytes (c : Core) (f : FieldLine)
    (hcount : c.headersReceived < c.config.maxHeaderCount)
    (htotal : c.totalHeaderBytes + f.bytes.length ≤ c.config.maxTotalHeaderBytes) :
    c.headerText f.bytes = (true, c.store f) := by
  have hmem : 58 ∈ f.bytes := by simp [FieldLine.bytes]
  have hname : (HttpHeader.ofField f.name (ascii "test")).isValidName = true :=
    (HttpHeader.isValidName_iff _ _).mpr f.name_token
  simp only [headerText, if_neg (Nat.not_le.mpr hcount), hmem, not_true_eq_false, if_false,
    f.takeWhile_bytes, f.dropWhile_bytes, f.trimmed_name, hname, Bool.not_true,
    Bool.false_eq_true, List.drop_one, List.tail_cons, if_neg (Nat.not_lt.mpr htotal), store]

/-! ### Heads -/

structure RequestHead where
  line : RequestLine
  fields : List FieldLine
  clean : ∀ f ∈ fields, f.Clean

namespace RequestHead

def bytes (h : RequestHead) : Bytes := headBlock h.line.bytes (h.fields.map FieldLine.bytes)

/-- What the lines say; of several fields of one name the last counts. -/
def request (h : RequestHead) : HttpRequest where
  method := h.line.method
  target := h.line.target
  version := h.line.version
  headers := h.fields.foldl (fun hs f => hs.set f.name f.value) []

/-- The number of fields and their bytes are within the limits. -/
def CountWithin (h : RequestHead) (config : ParserConfig) : Prop :=
  h.fields.length ≤ config.maxHeaderCount ∧
    (h.fields.map fun f => f.bytes.length).sum ≤ config.maxTotalHeaderBytes

/-- The head is within every limit of the parser; a line counts with its CR. -/
structure Within (h : RequestHead) (config : ParserConfig) : Prop where
  line : h.line.bytes.length + 1 ≤ config.maxRequestLineBytes
  fields : ∀ f ∈ h.fields, f.bytes.length + 1 ≤ config.maxHeaderFieldBytes
  emptyLine : 1 ≤ config.maxHeaderFieldBytes
  count : h.CountWithin config

/-- The core in front of the field lines. -/
def lineCore (h : RequestHead) (config : ParserConfig) : Core :=
  { Core.fresh config with
    state := .headers
    request := { method := h.line.method, target := h.line.target, version := h.line.version } }

/-- The core after the empty line. -/
def core (h : RequestHead) (config : ParserConfig) : Core :=
  (h.fields.foldl Core.store (h.lineCore config)).endOfHeaders

end RequestHead

section stored
variable (fs : List FieldLine) (c : Core)

@[simp] theorem foldl_store_state : (fs.foldl Core.store c).state = c.state := by
  induction fs generalizing c with
  | nil => rfl
  | cons f fs ih => rw [List.foldl_cons, ih]; rfl

@[simp] theorem foldl_store_config : (fs.foldl Core.store c).config = c.config := by
  induction fs generalizing c with
  | nil => rfl
  | cons f fs ih => rw [List.foldl_cons, ih]; rfl

theorem foldl_store_request : (fs.foldl Core.store c).request = { c.request with
    headers := fs.foldl (fun hs f => hs.set f.name f.value) c.request.headers } := by
  induction fs generalizing c with
  | nil => rfl
  | cons f fs ih => rw [List.foldl_cons, ih]; rfl

end stored

@[simp] theorem endOfHeaders_request (c : Core) : c.endOfHeaders.request = c.request := by
  unfold endOfHeaders
  split <;> rfl

@[simp] theorem endOfHeaders_config (c : Core) : c.endOfHeaders.config = c.config := by
  unfold endOfHeaders
  split <;> rfl

theorem endOfHeaders_state (c : Core) :
    c.endOfHeaders.state = .body ∨ c.endOfHeaders.state = .complete := by
  unfold endOfHeaders
  split
  · exact Or.inl rfl
  · exact Or.inr rfl

theorem endOfHeaders_pastHead (c : Core) :
    c.endOfHeaders.state ≠ .requestLine ∧ c.endOfHeaders.state ≠ .headers := by
  rcases endOfHeaders_state c with he | he <;> rw [he] <;> decide

@[simp] theorem RequestHead.core_request (h : RequestHead) (config : ParserConfig) :
    (h.core config).request = h.request := by
  rw [core, endOfHeaders_request, foldl_store_request]
  rfl

@[simp] theorem RequestHead.core_config (h : RequestHead) (config : ParserConfig) :
    (h.core config).config = config := by
  rw [core, endOfHeaders_config, foldl_store_config]
  rfl

theorem step_requestLine {c : Core} (hs : c.state = .requestLine) {line : Bytes}
    (hl : findCrlf line = none) (x : Bytes) :
    c.step (line ++ crlf ++ x) = some (c.onRequestLine line, x) := by
  simp only [step, hs, splitLine_append_crlf hl, Option.map_some]

theorem step_headerLine {c : Core} (hs : c.state = .headers) {line : Bytes}
    (hl : findCrlf line = none) (x : Bytes) :
    c.step (line ++ crlf ++ x) = some (c.onHeaderLine line, x) := by
  simp only [step, hs, splitLine_append_crlf hl, Option.map_some]

theorem step_emptyLine {c : Core} (hs : c.state = .headers) (x : Bytes) :
    c.step (crlf ++ x) = some (c.endOfHeaders, x) := by
  have h := step_headerLine hs (show findCrlf [] = none from rfl) x
  rwa [List.nil_append, onHeaderLine, if_pos rfl] at h

theorem step_fieldLine {c : Core} (hs : c.state = .headers) {f : FieldLine}
    (hl : findCrlf f.bytes = none) (hcount : c.headersReceived < c.config.maxHeaderCount)
    (htotal : c.totalHeaderBytes + f.bytes.length ≤ c.config.maxTotalHeaderBytes) (x : Bytes) :
    c.step (f.bytes ++ crlf ++ x) = some (c.store f, x) := by
  rw [step_headerLine hs hl, onHeaderLine, if_neg f.bytes_ne_nil, headerText_bytes c f hcount htotal]

/-- Bytes of field lines up to and including the empty line. -/
def fieldBlock (fs : List FieldLine) : Bytes := lineBlock (fs.map FieldLine.bytes)

theorem fieldBlock_cons (f : FieldLine) (fs : List FieldLine) (x : Bytes) :
    fieldBlock (f :: fs) ++ x = f.bytes ++ crlf ++ (fieldBlock fs ++ x) := lineBlock_cons ..

theorem RequestHead.bytes_eq (h : RequestHead) (x : Bytes) :
    h.bytes ++ x = h.line.bytes ++ crlf ++ (fieldBlock h.fields ++ x) := headBlock_append ..

theorem visited_fields (fs : List FieldLine) (c : Core) (x : Bytes) (hs : c.state = .headers)
    (hcrlf : ∀ f ∈ fs, findCrlf f.bytes = none)
    (hcount : c.headersReceived + fs.length ≤ c.config.maxHeaderCount)
    (htotal : c.totalHeaderBytes + (fs.map fun f => f.bytes.length).sum ≤
      c.config.maxTotalHeaderBytes) {P : Core × Bytes → Prop}
    (hline : ∀ f ∈ fs, ∀ d r, d.state = .headers → P (d, f.bytes ++ crlf ++ r))
    (hempty : ∀ d r, d.state = .headers → P (d, crlf ++ r))
    (hrest : ∀ y ∈ requestMachine.visited (fs.foldl Core.store c).endOfHeaders x, P y) :
    ∀ y ∈ requestMachine.visited c (fieldBlock fs ++ x), P y := by
  induction fs generalizing c with
  | nil =>
    have h : requestMachine.step c (fieldBlock [] ++ x) = some (c.endOfHeaders, x) :=
      step_emptyLine hs x
    rw [Machine.visited_some h]
    exact List.forall_mem_cons.mpr ⟨hempty c x hs, hrest⟩
  | cons f fs ih =>
    simp only [List.length_cons, List.map_cons, List.sum_cons] at hcount htotal
    have h : requestMachine.step c (f.bytes ++ crlf ++ (fieldBlock fs ++ x)) =
        some (c.store f, fieldBlock fs ++ x) :=
      step_fieldLine hs (hcrlf f (List.mem_cons_self ..)) (by omega) (by omega) _
    rw [fieldBlock_cons, Machine.visited_some h]
    refine List.forall_mem_cons.mpr ⟨hline f (List.mem_cons_self ..) _ _ hs, ?_⟩
    refine ih (c.store f) hs (fun g hg => hcrlf g (List.mem_cons_of_mem _ hg)) ?_ ?_
      (fun g hg => hline g (List.mem_cons_of_mem _ hg)) hrest
    · simp only [store]
      omega
    · simp only [store]
      omega

theorem drain_fields (fs : List FieldLine) (c : Core) (x : Bytes) (hs : c.state = .headers)
    (hcrlf : ∀ f ∈ fs, findCrlf f.bytes = none)
    (hcount : c.headersReceived + fs.length ≤ c.config.maxHeaderCount)
    (htotal : c.totalHeaderBytes + (fs.map fun f => f.bytes.length).sum ≤
      c.config.maxTotalHeaderBytes) :
    requestMachine.drain c (fieldBlock fs ++ x) =
      requestMachine.drain (fs.foldl Core.store c).endOfHeaders x := by
  induction fs generalizing c with
  | nil => exact drain_step (step_emptyLine hs x)
  | cons f fs ih =>
    simp only [List.length_cons, List.map_cons, List.sum_cons] at hcount htotal
    rw [fieldBlock_cons, drain_step (step_fieldLine hs (hcrlf f (List.mem_cons_self ..))
      (by omega) (by omega) _)]
    refine ih (c.store f) hs (fun g hg => hcrlf g (List.mem_cons_of_mem _ hg)) ?_ ?_
    · simp only [store]
      omega
    · simp only [store]
      omega

theorem onRequestLine_bytes (config : ParserConfig) (l : RequestLine) :
    (Core.fresh config).onRequestLine l.bytes = { Core.fresh config with
      state := .headers
      request := { method := l.method, target := l.target, version := l.version } } := by
  simp only [onRequestLine, requestLineText_bytes, if_true]
  rfl

/-- **Lines within the limits are stored as they read**, whatever bytes the values have. -/
theorem drain_lines {config : ParserConfig} (l : RequestLine) (fs : List FieldLine)
    (hcrlf : ∀ f ∈ fs, findCrlf f.bytes = none) (hcount : fs.length ≤ config.maxHeaderCount)
    (htotal : (fs.map fun f => f.bytes.length).sum ≤ config.maxTotalHeaderBytes) (x : Bytes) :
    requestMachine.drain (Core.fresh config) (headBlock l.bytes (fs.map FieldLine.bytes) ++ x) =
      requestMachine.drain
        (fs.foldl Core.store ((Core.fresh config).onRequestLine l.bytes)).endOfHeaders x := by
  have hblock : headBlock l.bytes (fs.map FieldLine.bytes) ++ x =
      l.bytes ++ crlf ++ (fieldBlock fs ++ x) := headBlock_append ..
  rw [hblock, drain_step (step_requestLine rfl l.findCrlf_bytes _), onRequestLine_bytes]
  refine drain_fields fs _ x rfl hcrlf ?_ ?_
  · simpa only [Core.fresh, Nat.zero_add] using hcount
  · simpa only [Core.fresh, Nat.zero_add] using htotal

namespace RequestHead

theorem onRequestLine_fresh (h : RequestHead) (config : ParserConfig) :
    (Core.fresh config).onRequestLine h.line.bytes = h.lineCore config :=
  onRequestLine_bytes config h.line

theorem findCrlf_fields (h : RequestHead) : ∀ f ∈ h.fields, findCrlf f.bytes = none :=
  fun f hf => FieldLine.findCrlf_bytes (h.clean f hf)

section within
variable (h : RequestHead) {config : ParserConfig} (hc : h.CountWithin config)
include hc

theorem count_lineCore : (h.lineCore config).headersReceived + h.fields.length ≤
    (h.lineCore config).config.maxHeaderCount := by
  simpa [lineCore, Core.fresh] using hc.1

theorem total_lineCore :
    (h.lineCore config).totalHeaderBytes + (h.fields.map fun f => f.bytes.length).sum ≤
      (h.lineCore config).config.maxTotalHeaderBytes := by
  simpa [lineCore, Core.fresh] using hc.2

theorem drain_head (x : Bytes) : requestMachine.drain (Core.fresh config) (h.bytes ++ x) =
    requestMachine.drain (h.core config) x := by
  rw [core, ← h.onRequestLine_fresh]
  exact drain_lines h.line h.fields h.findCrlf_fields hc.1 hc.2 x

end within

theorem visited_pastHead (c : Core) (u : Bytes) (hs : c.state ≠ .requestLine ∧ c.state ≠ .headers) :
    ∀ y ∈ requestMachine.visited c u, y.1.state ≠ .requestLine ∧ y.1.state ≠ .headers := by
  induction c, u using Machine.run_induction (M := requestMachine) with
  | blocked c u h =>
    intro y hy
    rw [Machine.visited_none h, List.mem_singleton] at hy
    rw [hy]
    exact hs
  | progress c u c' u' h ih =>
    rw [Machine.visited_some h]
    refine List.forall_mem_cons.mpr ⟨hs, ih ?_⟩
    change c.step u = some (c', u') at h
    cases hst : c.state with
    | requestLine => exact (hs.1 hst).elim
    | headers => exact (hs.2 hst).elim
    | body => rcases (step_body hst h).1 with he | he <;> rw [he] <;> decide
    | complete => rw [step_complete hst] at h; cases h
    | error => rw [step_error hst] at h; cases h

/-- Within its limits a head never trips the limit of an unfinished line, whatever follows it. -/
theorem linesWithin (h : RequestHead) {config : ParserConfig} (hw : h.Within config) (x : Bytes) :
    LinesWithin config (h.bytes ++ x) := by
  have hstep : requestMachine.step (Core.fresh config)
      (h.line.bytes ++ crlf ++ (fieldBlock h.fields ++ x)) =
      some ((Core.fresh config).onRequestLine h.line.bytes, fieldBlock h.fields ++ x) :=
    step_requestLine (c := Core.fresh config) rfl h.line.findCrlf_bytes _
  rw [LinesWithin, bytes_eq, Machine.visited_some hstep, h.onRequestLine_fresh]
  refine List.forall_mem_cons.mpr ⟨⟨fun _ => ?_, fun hs => by cases hs⟩, ?_⟩
  · rw [frontLine_crlf h.line.findCrlf_bytes]
    exact hw.line
  · refine visited_fields h.fields _ x rfl h.findCrlf_fields (h.count_lineCore hw.count)
      (h.total_lineCore hw.count) ?_ ?_ ?_
    · intro f hf d r hd
      refine ⟨fun hs => (by rw [hd] at hs; cases hs), fun _ => ?_⟩
      rw [frontLine_crlf (h.findCrlf_fields f hf)]
      exact hw.fields f hf
    · intro d r hd
      refine ⟨fun hs => (by rw [hd] at hs; cases hs), fun _ => ?_⟩
      have hlen := frontLine_crlf (l := []) rfl r
      rw [List.nil_append] at hlen
      rw [hlen]
      exact hw.emptyLine
    · intro y hy
      have hs := visited_pastHead _ x (endOfHeaders_pastHead _) y hy
      exact ⟨fun h => (hs.1 h).elim, fun h => (hs.2 h).elim⟩

end RequestHead
end Aevrix.Http
