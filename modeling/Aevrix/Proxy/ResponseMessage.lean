import Aevrix.Proxy.ResponseHead
import Aevrix.Proxy.Tokens

/-!
# Encoded responses

A body can be sent with a declared length, in chunks, or up to the end of the
connection. Whatever the coding, the parser gives back the body, the status and the
header fields (`decodes`).
-/

namespace Aevrix.Proxy
open Aevrix.Http Incremental ProxyResponseParser ProxyResponseParser.Core

/-! ### Chunk sizes -/

/-- Value of hexadecimal digits read after digits of value `n`. -/
def hexFrom (n : ℕ) (v : Bytes) : ℕ := v.foldl (fun n c => n * 16 + (hexDigit c).getD 0) n

theorem le_hexFrom (v : Bytes) (n : ℕ) : n ≤ hexFrom n v := by
  induction v generalizing n with
  | nil => exact le_rfl
  | cons c v ih =>
    have h := ih (n * 16 + (hexDigit c).getD 0)
    rw [hexFrom, List.foldl_cons]
    rw [hexFrom] at h
    omega

/-- The digit loop: the value, or the error of the first digit that passes the limit. -/
theorem chunkSizeOf_hex (max : ℕ) (line v : Bytes) (hv : ∀ c ∈ v, (hexDigit c).isSome = true)
    (n : ℕ) (hn : n ≤ max) : chunkSizeOf max line n v =
      if max < hexFrom n v then .error (ascii "upstream chunk size exceeds the configured limit")
      else .ok (hexFrom n v) := by
  induction v generalizing n with
  | nil =>
    have hnot : ¬max < hexFrom n [] := Nat.not_lt.mpr hn
    rw [if_neg hnot]
    rfl
  | cons c v ih =>
    obtain ⟨digit, hd⟩ := Option.isSome_iff_exists.mp (hv c (List.mem_cons_self ..))
    have hval : hexFrom n (c :: v) = hexFrom (n * 16 + digit) v := by
      rw [hexFrom, List.foldl_cons, hd]
      rfl
    simp only [chunkSizeOf, hd, hval]
    by_cases hlt : max < n * 16 + digit
    · rw [if_pos hlt, if_pos (lt_of_lt_of_le hlt (le_hexFrom v _))]
    · rw [if_neg hlt, ih (fun b hb => hv b (List.mem_cons_of_mem _ hb)) _ (Nat.not_lt.mp hlt)]

/-- `chunk-size` in hexadecimal digits of either case, then optional whitespace and an
extension. -/
structure SizeLine where
  digits : Bytes
  pad : Bytes
  extension : Bytes
  digits_hex : digits ≠ [] ∧ ∀ c ∈ digits, (hexDigit c).isSome = true
  pad_ows : ∀ c ∈ pad, isOws c = true
  extension_start : extension = [] ∨ extension.head? = some 59
  extension_clean : LF ∉ extension

namespace SizeLine

def size (l : SizeLine) : ℕ := hexFrom 0 l.digits
def bytes (l : SizeLine) : Bytes := l.digits ++ (l.pad ++ l.extension)

theorem hexDigit_not {c : Byte} (h : (hexDigit c).isSome = true) :
    isOws c = false ∧ c ≠ 59 ∧ c ≠ LF := by
  unfold hexDigit at h
  unfold isOws
  grind

theorem findCrlf_bytes (l : SizeLine) : findCrlf l.bytes = none := by
  refine findCrlf_of_notMem fun h => ?_
  simp only [bytes, List.mem_append] at h
  rcases h with h | h | h
  · exact (hexDigit_not (l.digits_hex.2 _ h)).2.2 rfl
  · exact (isOws_not (l.pad_ows _ h)).2 rfl
  · exact l.extension_clean h

theorem trimOws_bytes (l : SizeLine) : trimOws (l.bytes.takeWhile (· != 59)) = l.digits := by
  have hd : ∀ c ∈ l.digits, (c != 59) = true := fun c hc =>
    bne_iff_ne.mpr (hexDigit_not (l.digits_hex.2 c hc)).2.1
  have hp : ∀ c ∈ l.pad, (c != 59) = true := fun c hc => by
    have h := l.pad_ows c hc
    unfold isOws at h
    grind
  have he : l.extension.takeWhile (· != 59) = [] := by
    rcases l.extension_start with h | h
    · rw [h]
      rfl
    · obtain ⟨t, ht⟩ := List.head?_eq_some_iff.mp h
      rw [ht]
      rfl
  rw [bytes, List.takeWhile_append_of_pos hd, List.takeWhile_append_of_pos hp, he, List.append_nil]
  have hpad : trimBy isOws ([] ++ l.digits ++ l.pad) = trimBy isOws l.digits :=
    trimBy_pad (by simp) l.pad_ows
  rw [List.nil_append] at hpad
  rw [trimOws, hpad]
  exact trimBy_of_none fun c hc => (hexDigit_not (l.digits_hex.2 c hc)).1

end SizeLine

/-- The core after a size line that is taken. -/
def ProxyResponseParser.Core.sized (c : Core) (n : ℕ) : Core :=
  if n = 0 then { c with state := .trailer } else { c with chunkRemaining := n, state := .chunkData }

theorem chunkSizeText_bytes (c : Core) (l : SizeLine) (hd : l.digits.length ≤ 8)
    (hmax : l.size ≤ c.config.maxBodyBytes) : c.chunkSizeText l.bytes = c.sized l.size := by
  have hne : ¬(l.digits = [] ∨ 8 < l.digits.length) := by
    simp [l.digits_hex.1, Nat.not_lt.mpr hd]
  have hnot : ¬c.config.maxBodyBytes < hexFrom 0 l.digits := Nat.not_lt.mpr hmax
  simp only [chunkSizeText, l.trimOws_bytes, if_neg hne,
    chunkSizeOf_hex _ _ _ l.digits_hex.2 0 (Nat.zero_le _), if_neg hnot]
  rfl

theorem chunkSizeText_cases (c : Core) (l : SizeLine) :
    (c.chunkSizeText l.bytes).state = .error ∨ c.chunkSizeText l.bytes = c.sized l.size := by
  by_cases hd : l.digits.length ≤ 8
  · by_cases hmax : l.size ≤ c.config.maxBodyBytes
    · exact Or.inr (chunkSizeText_bytes c l hd hmax)
    · left
      have hne : ¬(l.digits = [] ∨ 8 < l.digits.length) := by
        simp [l.digits_hex.1, Nat.not_lt.mpr hd]
      have hlt : c.config.maxBodyBytes < hexFrom 0 l.digits := Nat.not_le.mp hmax
      simp only [chunkSizeText, l.trimOws_bytes, if_neg hne,
        chunkSizeOf_hex _ _ _ l.digits_hex.2 0 (Nat.zero_le _), if_pos hlt]
      rfl
  · left
    have hlong : l.digits = [] ∨ 8 < l.digits.length := Or.inr (Nat.not_le.mp hd)
    simp only [chunkSizeText, l.trimOws_bytes, if_pos hlong]
    rfl

/-! ### Chunked bodies -/

structure Chunk where
  sizeLine : SizeLine
  data : Bytes
  data_size : sizeLine.size = data.length
  data_some : data ≠ []

def Chunk.bytes (k : Chunk) : Bytes := k.sizeLine.bytes ++ crlf ++ (k.data ++ crlf)

/-- A line that may stand in a trailer section. -/
structure TrailerLine where
  text : Bytes
  colon : 58 ∈ text
  unfolded : text.head?.any isOws = false
  clean : findCrlf text = none

/-- Chunks, the size line of value zero, the trailer section. -/
structure ChunkedBody where
  chunks : List Chunk
  last : SizeLine
  trailers : List TrailerLine
  last_size : last.size = 0

namespace ChunkedBody

def content (b : ChunkedBody) : Bytes := b.chunks.flatMap Chunk.data
def trailerSection (b : ChunkedBody) : Bytes := lineBlock (b.trailers.map TrailerLine.text)
/-- Bytes of the trailer lines with their CRLFs. -/
def trailerLength (b : ChunkedBody) : ℕ := (b.trailers.map fun t => t.text.length + 2).sum
def bytes (b : ChunkedBody) : Bytes :=
  b.chunks.flatMap Chunk.bytes ++ (b.last.bytes ++ crlf ++ b.trailerSection)
def sizeLines (b : ChunkedBody) : List SizeLine := b.chunks.map Chunk.sizeLine ++ [b.last]

end ChunkedBody

/-- At most eight digits, on a line of less than `maxLineLength` bytes. -/
def SizeLine.Within (l : SizeLine) : Prop :=
  l.digits.length ≤ 8 ∧ l.bytes.length + 1 ≤ maxLineLength

instance (l : SizeLine) : Decidable l.Within := by
  unfold SizeLine.Within
  infer_instance

theorem lineFits_of_moves {c d : Core} {u v : Bytes} (h : Moves c u d v) : Reads c u d v :=
  h.mono fun _ u hn => lineFits_of_not hn u

theorem reads_sizeLine (l : SizeLine) (c : Core) (x : Bytes) (hs : c.state = .chunkSize)
    (hl : l.Within) (hmax : l.size ≤ c.config.maxBodyBytes) :
    Reads c (l.bytes ++ crlf ++ x) (c.sized l.size) x := by
  have hline := reads_line (Or.inr (Or.inr (Or.inl hs))) l.findCrlf_bytes
    (by simpa [lineLimit, hs] using hl.2) x
  simp only [onLine, hs] at hline
  rwa [chunkSizeText_bytes c l hl.1 hmax] at hline

/-- A chunk adds its data to the body, and the parser waits for the next one. -/
theorem reads_chunk (k : Chunk) (c : Core) (x : Bytes) (hs : c.state = .chunkSize)
    (hr : c.chunkRemaining = 0) (hl : k.sizeLine.Within)
    (hmax : c.body.length + k.data.length ≤ c.config.maxBodyBytes) :
    Reads c (k.bytes ++ x) { c with body := c.body ++ k.data } x := by
  have hpos : ¬k.data.length = 0 := fun h => k.data_some (List.eq_nil_of_length_eq_zero h)
  have hsize := reads_sizeLine k.sizeLine c (k.data ++ (crlf ++ x)) hs hl
    (by rw [k.data_size]; omega)
  rw [k.data_size, sized, if_neg hpos] at hsize
  have hdata := lineFits_of_moves (moves_chunk k.data
    { c with chunkRemaining := k.data.length, state := .chunkData } (crlf ++ x) rfl le_rfl hmax)
  have hend : Reads (Core.tookChunk { c with chunkRemaining := k.data.length, state := .chunkData }
      k.data) (crlf ++ x) { c with body := c.body ++ k.data } x := by
    refine Machine.Path.single (lineFits_of_not (by simp [tookChunk, ReadsLine]) _) ?_
    simp [responseMachine, step, tookChunk, stepChunkCrlf, chunkCrlf, hs, hr]
  have hbytes : k.bytes ++ x = k.sizeLine.bytes ++ crlf ++ (k.data ++ (crlf ++ x)) := by
    simp only [Chunk.bytes, List.append_assoc]
  rw [hbytes]
  exact hsize.trans (hdata.trans hend)

theorem reads_chunks (ks : List Chunk) (c : Core) (x : Bytes) (hs : c.state = .chunkSize)
    (hr : c.chunkRemaining = 0) (hl : ∀ k ∈ ks, k.sizeLine.Within)
    (hmax : c.body.length + (ks.flatMap Chunk.data).length ≤ c.config.maxBodyBytes) :
    Reads c (ks.flatMap Chunk.bytes ++ x) { c with body := c.body ++ ks.flatMap Chunk.data } x := by
  induction ks generalizing c with
  | nil =>
    simp only [List.flatMap_nil, List.append_nil, List.nil_append]
    exact Machine.Path.refl ..
  | cons k ks ih =>
    rw [List.flatMap_cons, List.length_append] at hmax
    rw [List.flatMap_cons, List.flatMap_cons, List.append_assoc, ← List.append_assoc c.body]
    refine (reads_chunk k c _ hs hr (hl k (List.mem_cons_self ..)) (by omega)).trans ?_
    refine ih { c with body := c.body ++ k.data } hs hr
      (fun j hj => hl j (List.mem_cons_of_mem _ hj)) ?_
    simp only [List.length_append]
    omega

theorem TrailerLine.text_ne_nil (t : TrailerLine) : t.text ≠ [] := fun h => by
  have hc := t.colon
  rw [h] at hc
  cases hc

theorem reads_trailers (ts : List TrailerLine) (c : Core) (x : Bytes) (hs : c.state = .trailer)
    (hone : 1 ≤ c.config.maxHeaderBytes)
    (hlim : c.headerBytes + (ts.map fun t => t.text.length + 2).sum ≤ c.config.maxHeaderBytes) :
    ∃ n, Reads c (lineBlock (ts.map TrailerLine.text) ++ x)
      (Core.finishMessage { c with headerBytes := n }) x := by
  have hreads : c.ReadsLine := Or.inr (Or.inr (Or.inr hs))
  have hmax : c.lineLimit = c.config.maxHeaderBytes := by simp [lineLimit, hs]
  induction ts generalizing c with
  | nil =>
    have hend := reads_emptyLine hreads (by rw [hmax]; exact hone) x
    simp only [onLine, hs, if_true] at hend
    exact ⟨c.headerBytes, hend⟩
  | cons t ts ih =>
    rw [List.map_cons, List.sum_cons] at hlim
    have hline := reads_line hreads t.clean (by rw [hmax]; omega)
      (lineBlock (ts.map TrailerLine.text) ++ x)
    have hon : c.onLine t.text = c.trailerLineText t.text := by
      simp only [onLine, hs, if_neg t.text_ne_nil]
    have htext : c.trailerLineText t.text =
        { c with headerBytes := c.headerBytes + (t.text.length + 2) } := by
      have hcolon : ¬58 ∉ t.text := not_not.mpr t.colon
      have hnot : ¬c.config.maxHeaderBytes < c.headerBytes + (t.text.length + 2) := by omega
      simp only [trailerLineText, t.unfolded, Bool.false_eq_true, if_false, if_neg hcolon,
        if_neg hnot]
    rw [hon, htext] at hline
    obtain ⟨n, hrest⟩ := ih { c with headerBytes := c.headerBytes + (t.text.length + 2) } hs hone
      (by simp only; omega) (Or.inr (Or.inr (Or.inr hs))) (by simp [lineLimit, hs])
    rw [List.map_cons, lineBlock_cons]
    exact ⟨n, hline.trans hrest⟩

theorem reads_chunkedBody (b : ChunkedBody) (c : Core) (x : Bytes) (hs : c.state = .chunkSize)
    (hr : c.chunkRemaining = 0) (hl : ∀ l ∈ b.sizeLines, l.Within)
    (hmax : c.body.length + b.content.length ≤ c.config.maxBodyBytes)
    (hone : 1 ≤ c.config.maxHeaderBytes)
    (hlim : c.headerBytes + b.trailerLength ≤ c.config.maxHeaderBytes) :
    ∃ n, Reads c (b.bytes ++ x) { c with
      body := c.body ++ b.content, headerBytes := n, state := .complete } x := by
  have hchunks := reads_chunks b.chunks c (b.last.bytes ++ crlf ++ (b.trailerSection ++ x)) hs hr
    (fun k hk => hl _ (List.mem_append_left _ (List.mem_map_of_mem hk))) hmax
  have hlast := reads_sizeLine b.last { c with body := c.body ++ b.content } (b.trailerSection ++ x)
    hs (hl _ (List.mem_append_right _ (List.mem_singleton_self _)))
    (by rw [b.last_size]; exact Nat.zero_le _)
  rw [b.last_size, sized, if_pos rfl] at hlast
  obtain ⟨n, htrailers⟩ := reads_trailers b.trailers
    { c with body := c.body ++ b.content, state := .trailer } x rfl hone hlim
  have hbytes : b.bytes ++ x = b.chunks.flatMap Chunk.bytes ++
      (b.last.bytes ++ crlf ++ (b.trailerSection ++ x)) := by
    simp only [ChunkedBody.bytes, List.append_assoc]
  rw [hbytes]
  exact ⟨n, hchunks.trans (hlast.trans htrailers)⟩

/-! ### Codings -/

inductive Coding where
  | contentLength (body : Bytes)
  | chunked (content : ChunkedBody)
  | untilClose (body : Bytes)

namespace Coding

def body : Coding → Bytes
  | contentLength body => body
  | chunked content => content.content
  | untilClose body => body

def bytes : Coding → Bytes
  | contentLength body => body
  | chunked content => content.bytes
  | untilClose body => body

def framing : Coding → Framing
  | contentLength _ => .contentLength
  | chunked _ => .chunked
  | untilClose _ => .untilClose

/-- The state behind the head. -/
def opening : Coding → State
  | contentLength body => if body.length = 0 then .complete else .body
  | chunked _ => .chunkSize
  | untilClose _ => .body

/-- The state behind the body. -/
def closing : Coding → State
  | untilClose _ => .body
  | _ => .complete

def sizeLines : Coding → List SizeLine
  | chunked content => content.sizeLines
  | _ => []

/-- Bytes of the coding that count as header bytes. -/
def trailerLength : Coding → ℕ
  | chunked content => content.trailerLength
  | _ => 0

/-- The framing fields among `fs` are those of the coding. -/
def FramedBy (fs : List ResponseField) : Coding → Prop
  | contentLength body => fs.any ResponseField.isContentLength = true ∧
      fs.any ResponseField.isTransferEncoding = false ∧
      ∀ f ∈ fs, f.isContentLength = true → decimalValue f.value = body.length
  | chunked _ => fs.any ResponseField.isTransferEncoding = true ∧
      fs.any ResponseField.isContentLength = false
  | untilClose _ => fs.any ResponseField.isContentLength = false ∧
      fs.any ResponseField.isTransferEncoding = false

end Coding

theorem declared_length (fs : List ResponseField) {n m : ℕ}
    (hall : ∀ f ∈ fs, f.isContentLength = true → decimalValue f.value = n)
    (hsome : fs.any ResponseField.isContentLength = true ∨ m = n) :
    fs.foldl (fun n f => if f.isContentLength then decimalValue f.value else n) m = n := by
  induction fs generalizing m with
  | nil => simpa using hsome
  | cons f fs ih =>
    rw [List.foldl_cons]
    refine ih (fun g hg => hall g (List.mem_cons_of_mem _ hg)) ?_
    split
    · rename_i hcl
      exact Or.inr (hall f (List.mem_cons_self ..) hcl)
    · rename_i hcl
      rwa [List.any_cons, Bool.eq_false_iff.mpr hcl, Bool.false_or] at hsome

section framing
variable {d : Core}

theorem decideFraming_contentLength {n : ℕ} (hcl : d.sawContentLength = true)
    (hte : d.sawTransferEncoding = false) (hb : d.bodyless = false) (hn : d.contentLength = n) :
    d.decideFraming = { d with
      framing := .contentLength
      state := if n = 0 then .complete else .body } := by
  subst hn
  simp only [decideFraming, hcl, hte, hb, Bool.false_and, Bool.false_eq_true, if_false, if_true]
  split <;> rfl

theorem decideFraming_chunked (hcl : d.sawContentLength = false)
    (hte : d.sawTransferEncoding = true) (hb : d.bodyless = false) :
    d.decideFraming = { d with framing := .chunked, state := .chunkSize } := by
  simp only [decideFraming, hcl, hte, hb, Bool.and_false, Bool.false_eq_true, if_false, if_true]

theorem decideFraming_bodyless (hte : d.sawTransferEncoding = false) (hb : d.bodyless = true) :
    d.decideFraming = { d with framing := .none, state := .complete } := by
  simp only [decideFraming, hte, hb, Bool.false_and, Bool.false_eq_true, if_false, if_true]
  rfl

theorem decideFraming_untilClose (hcl : d.sawContentLength = false)
    (hte : d.sawTransferEncoding = false) (hb : d.bodyless = false) :
    d.decideFraming = { d with framing := .untilClose, state := .body } := by
  simp only [decideFraming, hcl, hte, hb, Bool.and_false, Bool.false_eq_true, if_false]

end framing

/-- A core in front of a response: nothing of an earlier one is left in its flags. -/
structure Clean (c : Core) : Prop where
  state : c.state = .statusLine
  contentLength : c.sawContentLength = false
  transferEncoding : c.sawTransferEncoding = false
  body : c.body = []
  chunk : c.chunkRemaining = 0

theorem fresh_clean (config : Config) : Clean (Core.fresh config) := ⟨rfl, rfl, rfl, rfl, rfl⟩

/-- A status that is answered with a body. -/
def StatusLine.HasBody (l : StatusLine) : Prop :=
  200 ≤ l.status ∧ l.status ≤ 599 ∧ l.status ≠ 204 ∧ l.status ≠ 304

namespace Head

/-- The core in front of the body. -/
def opened (h : Head) (c : Core) (coding : Coding) : Core := { h.core c with
  headerBytes := (h.core c).headerBytes + 2
  framing := coding.framing
  state := coding.opening }

theorem core_eq (h : Head) (c : Core) (hs : 200 ≤ h.line.status) : h.core c = { c with
    headerBytes := c.headerBytes + (h.line.bytes.length + 2) +
      (h.fields.map fun f => f.bytes.length + 2).sum
    headers := h.fields.foldl (fun hs f => hs.set f.name f.value) c.headers
    contentLength := h.fields.foldl
      (fun n f => if f.isContentLength then decimalValue f.value else n) c.contentLength
    sawContentLength := c.sawContentLength || h.fields.any ResponseField.isContentLength
    sawTransferEncoding := c.sawTransferEncoding || h.fields.any ResponseField.isTransferEncoding
    closeRequested := c.closeRequested || h.fields.any ResponseField.closes
    statusCode := h.line.status
    reasonPhrase := h.line.reasonPhrase
    isInterim := false
    state := .headers } := by
  have hnot : ¬h.line.status < 200 := Nat.not_lt.mpr hs
  rw [core, storedAll_eq]
  simp only [started, if_neg hnot]

theorem core_headerBytes (h : Head) (c : Core) (hs : h.line.HasBody) :
    (h.core c).headerBytes + 2 = c.headerBytes + h.bytes.length := by
  rw [h.core_eq c hs.1, h.bytes_length, fieldSection_length]
  simp only
  omega

theorem endOfHeaders_core (h : Head) (c : Core) (hc : Clean c) (hs : h.line.HasBody)
    (hhead : c.config.requestWasHead = false) (coding : Coding) (hf : coding.FramedBy h.fields) :
    (h.core c).endOfHeaders = h.opened c coding := by
  have hinterim : (h.core c).isInterim = false := by rw [h.core_eq c hs.1]
  let d : Core := { h.core c with headerBytes := (h.core c).headerBytes + 2 }
  have hend : (h.core c).endOfHeaders = d.decideFraming := by
    rw [endOfHeaders, if_neg (by rw [hinterim]; decide)]
  have hbodyless : d.bodyless = false := by
    simp only [bodyless, d, h.core_eq c hs.1, hhead, beq_false_of_ne hs.2.2.1,
      beq_false_of_ne hs.2.2.2, Bool.or_false]
  have hcl : d.sawContentLength = h.fields.any ResponseField.isContentLength := by
    simp only [d, h.core_eq c hs.1, hc.contentLength, Bool.false_or]
  have hte : d.sawTransferEncoding = h.fields.any ResponseField.isTransferEncoding := by
    simp only [d, h.core_eq c hs.1, hc.transferEncoding, Bool.false_or]
  rw [hend]
  cases coding with
  | contentLength body =>
    have hlen : d.contentLength = body.length := by
      simp only [d, h.core_eq c hs.1]
      exact declared_length h.fields hf.2.2 (Or.inl hf.1)
    exact decideFraming_contentLength (hcl.trans hf.1) (hte.trans hf.2.1) hbodyless hlen
  | chunked content =>
    exact decideFraming_chunked (hcl.trans hf.2) (hte.trans hf.1) hbodyless
  | untilClose body =>
    exact decideFraming_untilClose (hcl.trans hf.1) (hte.trans hf.2) hbodyless

end Head

theorem reads_coding (coding : Coding) (d : Core) (x : Bytes) (hs : d.state = coding.opening)
    (hf : d.framing = coding.framing) (hb : d.body = []) (hr : d.chunkRemaining = 0)
    (hlen : coding.framing = .contentLength → d.contentLength = coding.body.length)
    (hl : ∀ l ∈ coding.sizeLines, l.Within) (hmax : coding.body.length ≤ d.config.maxBodyBytes)
    (hone : 1 ≤ d.config.maxHeaderBytes)
    (hlim : d.headerBytes + coding.trailerLength ≤ d.config.maxHeaderBytes) :
    ∃ n, Reads d (coding.bytes ++ x)
      { d with body := coding.body, headerBytes := n, state := coding.closing } x := by
  cases coding with
  | contentLength body =>
    have hn : d.contentLength = body.length := hlen rfl
    refine ⟨d.headerBytes, ?_⟩
    by_cases hz : body.length = 0
    · have hnil : body = [] := List.eq_nil_of_length_eq_zero hz
      have hstay : { d with body := [], state := .complete } = d := by
        rw [← hb, ← (hs.trans (if_pos hz) : d.state = .complete)]
      simp only [Coding.bytes, Coding.body, Coding.closing, hnil, List.nil_append, hstay]
      exact Machine.Path.refl ..
    · have hbody := moves_body body d x (hs.trans (if_neg hz)) hf (by simp [hb, hn])
      have htook : d.tookBody body = { d with body := body, state := .complete } := by
        simp [tookBody, hb, hn, Core.finishMessage]
      rw [htook] at hbody
      exact lineFits_of_moves hbody
  | chunked content =>
    have hroom : d.body.length + content.content.length ≤ d.config.maxBodyBytes := by
      rwa [hb, List.length_nil, Nat.zero_add]
    have hbody := reads_chunkedBody content d x hs hr hl hroom hone hlim
    rwa [hb, List.nil_append] at hbody
  | untilClose body =>
    have hstate : d.state = .body := hs
    have hroom : d.body.length + body.length ≤ d.config.maxBodyBytes := by
      rwa [hb, List.length_nil, Nat.zero_add]
    have hbody := moves_untilClose body d x hs (by simp [hf, Coding.framing]) hroom
    have hstay : { d with body := d.body ++ body } = { d with body := body, state := .body } := by
      rw [hb, List.nil_append, ← hstate]
    rw [hstay] at hbody
    exact ⟨d.headerBytes, lineFits_of_moves hbody⟩

/-! ### Responses -/

structure Response where
  head : Head
  coding : Coding

namespace Response

def bytes (m : Response) : Bytes := m.head.bytes ++ m.coding.bytes

/-- The response has one framing field, the one of its coding, or none where the body
ends with the connection. A declared length has at most the 19 digits of a size. -/
def Declared (m : Response) : Prop := match m.coding with
  | .contentLength body => ∃ f, m.head.fields.filter ResponseField.isFraming = [f] ∧
      f.isContentLength = true ∧ IsDecimal f.value body.length ∧ f.value.length ≤ 19
  | .chunked _ => ∃ f, m.head.fields.filter ResponseField.isFraming = [f] ∧
      f.isTransferEncoding = true ∧ f.value.map toLower = ascii "chunked"
  | .untilClose _ => m.head.fields.filter ResponseField.isFraming = []

/-- A response as an origin server writes it. -/
structure WellFormed (m : Response) : Prop where
  status : m.head.line.HasBody
  valid : ∀ f ∈ m.head.fields, f.Valid
  distinct : (m.head.fields.map ResponseField.key).Nodup
  declared : m.Declared

/-- The response is within the limits of the parser. -/
structure Within (m : Response) (config : Config) : Prop where
  head : m.head.bytes.length + m.coding.trailerLength ≤ config.maxHeaderBytes
  body : m.coding.body.length ≤ config.maxBodyBytes
  sizeLines : ∀ l ∈ m.coding.sizeLines, l.Within

end Response

theorem mem_framing {fs : List ResponseField} {f g : ResponseField}
    (h : fs.filter ResponseField.isFraming = [f]) (hg : g ∈ fs) (hk : g.isFraming = true) :
    g = f := by
  have hmem : g ∈ fs.filter ResponseField.isFraming := List.mem_filter.mpr ⟨hg, hk⟩
  rw [h] at hmem
  exact List.mem_singleton.mp hmem

theorem headers_of_distinct {fs : List ResponseField} (hd : (fs.map ResponseField.key).Nodup) :
    fs.foldl (fun (hs : HttpHeaders) f => hs.set f.name f.value) [] =
      fs.map ResponseField.header := by
  have hdistinct : HttpHeaders.Distinct (fs.map ResponseField.header) := by
    rw [HttpHeaders.Distinct, List.map_map]
    exact hd
  exact (HttpHeaders.foldl_set_distinct ResponseField.name ResponseField.value fs []
    hdistinct).trans (List.nil_append _)

namespace Response
variable {m : Response}

theorem WellFormed.lengths (h : m.WellFormed) : ∀ f ∈ m.head.fields, f.isContentLength = true →
    m.coding.framing = .contentLength ∧ IsDecimal f.value m.coding.body.length ∧
      f.value.length ≤ 19 := by
  intro f hf hcl
  have hk : f.isFraming = true := by rw [ResponseField.isFraming, hcl, Bool.true_or]
  have hd := h.declared
  unfold Declared at hd
  split at hd
  · rename_i body hm
    obtain ⟨g, hg, -, hn, h19⟩ := hd
    rw [mem_framing hg hf hk, hm]
    exact ⟨rfl, hn, h19⟩
  · obtain ⟨g, hg, hte, -⟩ := hd
    have hcl' := (ResponseField.isContentLength_only (beq_iff_eq.mp hcl)).2.1
    rw [mem_framing hg hf hk, hte] at hcl'
    cases hcl'
  · have hmem : f ∈ m.head.fields.filter ResponseField.isFraming := List.mem_filter.mpr ⟨hf, hk⟩
    rw [hd] at hmem
    cases hmem

theorem WellFormed.codings (h : m.WellFormed) : ∀ f ∈ m.head.fields, f.isTransferEncoding = true →
    m.coding.framing = .chunked ∧ f.value.map toLower = ascii "chunked" := by
  intro f hf hte
  have hk : f.isFraming = true := by rw [ResponseField.isFraming, hte, Bool.or_true]
  have hd := h.declared
  unfold Declared at hd
  split at hd
  · obtain ⟨g, hg, hcl, -⟩ := hd
    have hte' := (ResponseField.isContentLength_only (beq_iff_eq.mp hcl)).2.1
    rw [← mem_framing hg hf hk, hte] at hte'
    cases hte'
  · rename_i content hm
    obtain ⟨g, hg, -, hv⟩ := hd
    rw [mem_framing hg hf hk, hm]
    exact ⟨rfl, hv⟩
  · have hmem : f ∈ m.head.fields.filter ResponseField.isFraming := List.mem_filter.mpr ⟨hf, hk⟩
    rw [hd] at hmem
    cases hmem

theorem WellFormed.fieldsAgree (h : m.WellFormed) : FieldsAgree m.head.fields where
  lengths f hf hcl :=
    let ⟨_, hn, h19⟩ := h.lengths f hf hcl
    ⟨hn.1, h19, hn.2.1⟩
  same f hf g hg hcl hcl' := by
    have hkey : f.key = g.key := (beq_iff_eq.mp hcl).trans (beq_iff_eq.mp hcl').symm
    rw [List.inj_on_of_nodup_map h.distinct hf hg hkey]
  codings f hf hte := containsToken_self (by decide) (h.codings f hf hte).2

theorem WellFormed.framedBy (h : m.WellFormed) : m.coding.FramedBy m.head.fields := by
  have hcl : m.coding.framing ≠ .contentLength →
      m.head.fields.any ResponseField.isContentLength = false := fun hne =>
    List.any_eq_false.mpr fun f hf hk => hne (h.lengths f hf hk).1
  have hte : m.coding.framing ≠ .chunked →
      m.head.fields.any ResponseField.isTransferEncoding = false := fun hne =>
    List.any_eq_false.mpr fun f hf hk => hne (h.codings f hf hk).1
  have hd := h.declared
  have hlen := h.lengths
  unfold Declared at hd
  cases hm : m.coding with
  | contentLength body =>
    simp only [hm] at hd hlen hte
    obtain ⟨f, hf, hk, -⟩ := hd
    have hmem : f ∈ m.head.fields := (List.mem_filter.mp (by rw [hf]; simp)).1
    exact ⟨List.any_eq_true.mpr ⟨f, hmem, hk⟩, hte (by simp [Coding.framing]),
      fun g hg hgk => (hlen g hg hgk).2.1.2.2⟩
  | chunked content =>
    simp only [hm] at hd hcl
    obtain ⟨f, hf, hk, -⟩ := hd
    have hmem : f ∈ m.head.fields := (List.mem_filter.mp (by rw [hf]; simp)).1
    exact ⟨List.any_eq_true.mpr ⟨f, hmem, hk⟩, hcl (by simp [Coding.framing])⟩
  | untilClose body =>
    rw [hm] at hcl hte
    exact ⟨hcl (by simp [Coding.framing]), hte (by simp [Coding.framing])⟩

end Response

theorem reads_response (m : Response) (c : Core) (x : Bytes) (hw : m.WellFormed) (hc : Clean c)
    (hhead : c.config.requestWasHead = false)
    (hlim : c.headerBytes + m.head.bytes.length + m.coding.trailerLength ≤ c.config.maxHeaderBytes)
    (hmax : m.coding.body.length ≤ c.config.maxBodyBytes) (hl : ∀ l ∈ m.coding.sizeLines, l.Within) :
    ∃ n, Reads c (m.bytes ++ x) { m.head.opened c m.coding with
      body := m.coding.body, headerBytes := n, state := m.coding.closing } x := by
  have hcode := hw.status
  have hnot : ¬m.head.line.status < 200 := Nat.not_lt.mpr hcode.1
  have hsaw : (c.started m.head.line).sawContentLength = false := by
    simp only [started, if_neg hnot, hc.contentLength]
  have hconf : (c.started m.head.line).config = c.config := by
    simp only [started, if_neg hnot]
  have haccept : (c.started m.head.line).AcceptsAll m.head.fields :=
    (acceptsAll_iff _ _).mpr ⟨hw.fieldsAgree, fun h => by rw [hsaw] at h; cases h⟩
  have hlength : ∀ f ∈ m.head.fields, (c.started m.head.line).LengthWithin f := by
    intro f hf hcl
    right
    rw [hconf, (hw.lengths f hf hcl).2.1.2.2]
    exact hmax
  have hread := reads_head m.head c (m.coding.bytes ++ x) hc.state
    ⟨by have h200 := hcode.1; omega, hcode.2.1⟩ (by have h200 := hcode.1; omega) hw.valid haccept
    hlength (by omega)
  rw [m.head.endOfHeaders_core c hc hcode hhead m.coding hw.framedBy] at hread
  have hopen : m.head.opened c m.coding = { m.head.core c with
      headerBytes := c.headerBytes + m.head.bytes.length
      framing := m.coding.framing
      state := m.coding.opening } := by
    rw [Head.opened, m.head.core_headerBytes c hcode]
  have hdeclared : m.coding.framing = .contentLength →
      (m.head.opened c m.coding).contentLength = m.coding.body.length := by
    intro hframing
    cases hm : m.coding with
    | contentLength body =>
      have hframed := hw.framedBy
      rw [hm] at hframed
      simp only [Head.opened, m.head.core_eq c hcode.1]
      exact declared_length m.head.fields hframed.2.2 (Or.inl hframed.1)
    | chunked content => rw [hm] at hframing; cases hframing
    | untilClose body => rw [hm] at hframing; cases hframing
  obtain ⟨n, hbody⟩ := reads_coding m.coding (m.head.opened c m.coding) x rfl rfl
    (by simp only [Head.opened, m.head.core_eq c hcode.1, hc.body])
    (by simp only [Head.opened, m.head.core_eq c hcode.1, hc.chunk]) hdeclared hl
    (by simpa only [Head.opened, m.head.core_eq c hcode.1] using hmax)
    (by simp only [Head.opened, m.head.core_eq c hcode.1]; rw [m.head.bytes_length] at hlim; omega)
    (by rw [hopen]; simpa only [m.head.core_eq c hcode.1] using hlim)
  rw [Response.bytes, List.append_assoc]
  exact ⟨n, hread.trans hbody⟩

theorem step_closing {c : Core} (coding : Coding) (hs : c.state = coding.closing)
    (hf : c.framing = coding.framing) : c.step [] = none ∧ ¬c.ReadsLine := by
  cases coding with
  | untilClose body =>
    have hstate : c.state = .body := hs
    have hframing : c.framing = .untilClose := hf
    exact ⟨by simp [step, hstate, stepBody, hframing], by simp [ReadsLine, hstate]⟩
  | contentLength body =>
    have hhalted : c.Halted := Or.inl hs
    exact ⟨step_halted hhalted [], not_readsLine_of_halted hhalted⟩
  | chunked content =>
    have hhalted : c.Halted := Or.inl hs
    exact ⟨step_halted hhalted [], not_readsLine_of_halted hhalted⟩

theorem outcome_closing {c : Core} (coding : Coding) (hs : c.state = coding.closing)
    (hf : c.framing = coding.framing) :
    (if decide (coding.framing = .untilClose) = true then c.eof.outcome else c.outcome) =
      c.finishMessage.outcome := by
  have hdone : c.state = .complete → c.finishMessage = c := fun h => by
    rw [Core.finishMessage, ← h]
  cases coding with
  | untilClose body =>
    have hstate : c.state = .body := hs
    have hframing : c.framing = .untilClose := hf
    simp [Coding.framing, Core.eof, Halted, hstate, hframing]
  | contentLength body =>
    rw [hdone hs, if_neg (by simp [Coding.framing])]
  | chunked content =>
    rw [hdone hs, if_neg (by simp [Coding.framing])]

theorem decodes_of_admitted (config : Config) (hhead : config.requestWasHead = false) (m : Response)
    (hw : m.WellFormed) (hl : m.Within config) (ds : List Bytes) (hds : ds.flatten = m.bytes)
    (hadm : responseGuard.Admitted (Core.fresh config, []) ds) :
    let p := endOf config ds (decide (m.coding.framing = .untilClose))
    p.isComplete = true ∧ p.statusCode = m.head.line.status ∧
      p.headers = m.head.fields.map ResponseField.header ∧ p.body = m.coding.body ∧
      p.framing = m.coding.framing := by
  have hcode := hw.status
  obtain ⟨n, hpath⟩ := reads_response m (Core.fresh config) [] hw (fresh_clean config) hhead
    (by simpa [Core.fresh] using hl.head) hl.body hl.sizeLines
  rw [List.append_nil] at hpath
  generalize hd : ({ m.head.opened (Core.fresh config) m.coding with
    body := m.coding.body, headerBytes := n, state := m.coding.closing } : Core) = d at hpath
  obtain ⟨hblocked, hread⟩ := step_closing (c := d) m.coding (by rw [← hd]) (by rw [← hd]; rfl)
  have hcalm : responseGuard.Calm (Core.fresh config) ds.flatten := by
    rw [hds]
    refine calm_of_lineFits (hpath.forall_visited fun y hy => ?_)
    rw [Machine.visited_none hblocked, List.mem_singleton] at hy
    rw [hy]
    exact lineFits_of_not hread []
  have hsame := run_same_drain hadm hcalm
  rw [hds, hpath.drain_eq, drain_blocked hblocked] at hsame
  have hout := endOf_outcome hsame (decide (m.coding.framing = .untilClose))
  have hheaders : d.headers = m.head.fields.map ResponseField.header := by
    rw [← hd]
    simp only [Head.opened, m.head.core_eq _ hcode.1]
    exact headers_of_distinct hw.distinct
  have hstatus : d.statusCode = m.head.line.status := by
    rw [← hd]
    simp only [Head.opened, m.head.core_eq _ hcode.1]
  rw [outcome_closing m.coding (by rw [← hd]) (by rw [← hd]; rfl)] at hout
  refine ⟨?_, ?_, ?_, ?_, ?_⟩
  · exact beq_iff_eq.mpr (congrArg Outcome.state hout)
  · exact (congrArg Outcome.statusCode hout).trans hstatus
  · exact (congrArg Outcome.headers hout).trans hheaders
  · exact (congrArg Outcome.body hout).trans (by rw [← hd]; rfl)
  · exact (congrArg Outcome.framing hout).trans (by rw [← hd]; rfl)

/-- **Decoding undoes every coding.** A response fed in any pieces the receive buffer
has room for is reported with its status, its header fields, its body and its framing;
a response without a declared end is complete once the connection ends. -/
theorem response_decodes (config : Config) (hhead : config.requestWasHead = false) (m : Response)
    (hw : m.WellFormed) (hl : m.Within config) (ds : List Bytes) (hds : ds.flatten = m.bytes)
    (hfit : Fits config ds) :
    let p := endOf config ds (decide (m.coding.framing = .untilClose))
    p.isComplete = true ∧ p.statusCode = m.head.line.status ∧
      p.headers = m.head.fields.map ResponseField.header ∧ p.body = m.coding.body ∧
      p.framing = m.coding.framing :=
  decodes_of_admitted config hhead m hw hl ds hds (admitted_of_fits hfit)

/-- A head behind which no body is read is reported as soon as it has been fed. -/
theorem bodyless_decodes (config : Config) (h : Head) (hcode : 200 ≤ h.line.status ∧ h.line.status ≤ 599)
    (hbodyless : config.requestWasHead = true ∨ h.line.status = 204 ∨ h.line.status = 304)
    (hv : ∀ f ∈ h.fields, f.Valid) (hd : (h.fields.map ResponseField.key).Nodup)
    (ha : FieldsAgree h.fields) (hte : h.fields.any ResponseField.isTransferEncoding = false)
    (hlim : h.bytes.length ≤ config.maxHeaderBytes) (ds : List Bytes) (hds : ds.flatten = h.bytes)
    (hadm : responseGuard.Admitted (Core.fresh config, []) ds) :
    (run config ds).isComplete = true ∧ (run config ds).statusCode = h.line.status ∧
      (run config ds).headers = h.fields.map ResponseField.header ∧ (run config ds).body = [] := by
  let c := Core.fresh config
  have hnot : ¬h.line.status < 200 := Nat.not_lt.mpr hcode.1
  have hconf : (c.started h.line).config = config := by simp only [started, if_neg hnot]; rfl
  have hstatus : (c.started h.line).statusCode = h.line.status := by
    simp only [started, if_neg hnot]
  have hno : (c.started h.line).bodyless = true := by
    rw [bodyless, hconf, hstatus, Bool.or_eq_true, Bool.or_eq_true, beq_iff_eq, beq_iff_eq, or_assoc]
    exact hbodyless
  have haccept : (c.started h.line).AcceptsAll h.fields :=
    (acceptsAll_iff _ _).mpr ⟨ha, fun hsaw => by simp [started, if_neg hnot, c, Core.fresh] at hsaw⟩
  have hread := reads_head h c [] rfl ⟨by omega, hcode.2⟩ (by omega) hv haccept
    (fun f _ _ => Or.inl hno) (by simpa [c, Core.fresh] using hlim)
  rw [List.append_nil] at hread
  have hinterim : (h.core c).isInterim = false := by rw [h.core_eq c hcode.1]
  let d : Core := { h.core c with headerBytes := (h.core c).headerBytes + 2 }
  have hend : (h.core c).endOfHeaders = d.decideFraming := by
    rw [endOfHeaders, if_neg (by rw [hinterim]; decide)]
  have hbl : d.bodyless = true := by
    have hc : c.config = config := rfl
    simp only [d, bodyless, h.core_eq c hcode.1, hc]
    simpa only [bodyless, hconf, hstatus] using hno
  have hsaw : d.sawTransferEncoding = false := by
    simp only [d, h.core_eq c hcode.1, hte, Bool.or_false]
    rfl
  rw [hend, decideFraming_bodyless hsaw hbl] at hread
  generalize hx : ({ d with framing := .none, state := .complete } : Core) = x at hread
  have hhalted : x.Halted := Or.inl (by rw [← hx])
  have hcalm : responseGuard.Calm (Core.fresh config) ds.flatten := by
    rw [hds]
    refine calm_of_lineFits (hread.forall_visited fun y hy => ?_)
    rw [Machine.visited_none (step_halted hhalted []), List.mem_singleton] at hy
    rw [hy]
    exact lineFits_of_not (not_readsLine_of_halted hhalted) []
  have hsame := (run_same_drain hadm hcalm).1
  rw [hds, hread.drain_eq, drain_halted hhalted] at hsame
  have hcore := h.core_eq c hcode.1
  refine ⟨?_, ?_, ?_, ?_⟩
  · exact beq_iff_eq.mpr ((congrArg Outcome.state hsame).trans (by rw [← hx]; rfl))
  · exact (congrArg Outcome.statusCode hsame).trans (by simp only [← hx, d, hcore]; rfl)
  · refine (congrArg Outcome.headers hsame).trans ?_
    simp only [← hx, d, hcore]
    exact headers_of_distinct hd
  · exact (congrArg Outcome.body hsame).trans (by simp only [← hx, d, hcore]; rfl)

/-- A chunked response with an extension, an upper-case size and a trailer. -/
def chunkedSample : Response where
  head :=
    { line := okLine
      fields :=
        [⟨ascii "Server", ascii " ", ascii "up", [], by decide, ows_space, ows_nil, by decide,
          by decide⟩,
         ⟨ascii "Transfer-Encoding", [], ascii "Chunked", [], by decide, ows_nil, ows_nil, by decide,
          by decide⟩] }
  coding := .chunked
    { chunks := [⟨⟨ascii "00A", [], ascii ";x=1", by decide, by decide, by decide, by decide⟩,
        ascii "0123456789", by decide, by decide⟩]
      last := ⟨ascii "0", [], [], by decide, by decide, by decide, by decide⟩
      trailers := [⟨ascii "X-Sum: 45", by decide, by decide, by decide⟩]
      last_size := by decide }

theorem chunkedSample_wellFormed : chunkedSample.WellFormed where
  status := by unfold StatusLine.HasBody; decide
  valid := by decide
  distinct := by decide
  declared := ⟨_, rfl, by decide, by decide⟩

theorem chunkedSample_within : chunkedSample.Within {} := ⟨by decide, by decide, by decide⟩

/-- The sample, cut inside its first chunk. -/
theorem response_decodes_chunked :
    let p := endOf {} [chunkedSample.bytes.take 72, chunkedSample.bytes.drop 72] false
    p.isComplete = true ∧ p.statusCode = chunkedSample.head.line.status ∧
      p.headers = chunkedSample.head.fields.map ResponseField.header ∧
      p.body = ascii "0123456789" ∧ p.framing = .chunked :=
  response_decodes {} rfl chunkedSample chunkedSample_wellFormed chunkedSample_within _
    (by simp) (by decide)

end Aevrix.Proxy
