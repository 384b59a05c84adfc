import Aevrix.Http.RequestGrammar
import Aevrix.Proxy.Reuse

/-!
# Framing of upstream responses

What the parser remembers of the framing fields, tied to the field lines it has read:
a response it completes declares its length once or not at all, never next to a transfer
coding, and a body framed by its length has that length (`framing_unambiguous`).
-/

namespace Aevrix.Proxy
open Aevrix.Http Incremental ProxyResponseParser ProxyResponseParser.Core

/-! ### Field lines -/

/-- The name in front of the colon, as names are compared. -/
def fieldKey (line : Bytes) : Bytes := HttpHeader.normalizeName (line.takeWhile (· != 58))
/-- The value behind the colon. -/
def fieldValue (line : Bytes) : Bytes := trimOws ((line.dropWhile (· != 58)).drop 1)

/-- No field line pairs a length with a transfer coding. -/
def NoConflict (fields : List Bytes) : Prop :=
  ¬((∃ line ∈ fields, fieldKey line = ascii "content-length") ∧
    ∃ line ∈ fields, fieldKey line = ascii "transfer-encoding")

/-- Every length declared is the number `n` in digits. -/
def LengthsAgree (fields : List Bytes) (n : ℕ) : Prop :=
  ∀ line ∈ fields, fieldKey line = ascii "content-length" → IsDecimal (fieldValue line) n

/-- The status code of a status line: three digits behind the first space. -/
def statusCodeOf (line : Bytes) : Option ℕ :=
  let codeText := ((line.dropWhile (· != 32)).drop 1).takeWhile (· != 32)
  if codeText.length = 3 ∧ codeText.all isDigit then some (decimalValue codeText) else none

/-- The first line of the stream is no interim status line. -/
def NoInterim (s : Bytes) : Prop := ∀ line rest, s = line ++ crlf ++ rest → findCrlf line = none →
  ∀ code ∈ statusCodeOf line, 200 ≤ code

/-! ### The flags and the lines -/

/-- The flags of the parser say what the field lines declare. -/
structure Declares (c : Core) (fields : List Bytes) : Prop where
  lengths : ∀ line ∈ fields, fieldKey line = ascii "content-length" →
    c.sawContentLength = true ∧ fieldValue line = c.headers.get (ascii "Content-Length")
  number : c.sawContentLength = true →
    (∃ line ∈ fields, fieldKey line = ascii "content-length") ∧
      IsDecimal (c.headers.get (ascii "Content-Length")) c.contentLength
  codings : ∀ line ∈ fields, fieldKey line = ascii "transfer-encoding" →
    c.sawTransferEncoding = true

theorem Declares.congr {c d : Core} {fields : List Bytes} (h : Declares c fields)
    (hcl : d.sawContentLength = c.sawContentLength) (hte : d.sawTransferEncoding = c.sawTransferEncoding)
    (hn : d.contentLength = c.contentLength) (hs : d.headers = c.headers) : Declares d fields := by
  obtain ⟨h1, h2, h3⟩ := h
  refine ⟨?_, ?_, ?_⟩
  · rw [hcl, hs]
    exact h1
  · rw [hcl, hs, hn]
    exact h2
  · rw [hte]
    exact h3

theorem contentLength_key : HttpHeader.normalizeName (ascii "Content-Length") = ascii "content-length" := by
  decide

/-- What a field line does, as far as it is not refused. -/
structure Stored (c d : Core) : Prop where
  state : d.state = c.state
  isInterim : d.isInterim = c.isInterim
  body : d.body = c.body

theorem contentLengthField_declares {c : Core} {fields : List Bytes} {line : Bytes}
    (h : Declares c fields) (hk : fieldKey line = ascii "content-length") :
    (c.contentLengthField (line.takeWhile (· != 58)) (fieldValue line)).state = .error ∨
    Stored c (c.contentLengthField (line.takeWhile (· != 58)) (fieldValue line)) ∧
      Declares (c.contentLengthField (line.takeWhile (· != 58)) (fieldValue line))
        (fields ++ [line]) := by
  generalize hv : fieldValue line = value
  have hname : HttpHeader.normalizeName (line.takeWhile (· != 58)) = ascii "content-length" := hk
  unfold contentLengthField
  split
  · exact Or.inl rfl
  rename_i hagree
  split
  · exact Or.inl rfl
  rename_i hdigits
  simp only [not_or, Bool.not_eq_true, Bool.not_eq_false', List.all_eq_true] at hdigits
  obtain ⟨hne, -, hall⟩ := hdigits
  simp only
  split
  · exact Or.inl rfl
  have hget : (c.headers.set (line.takeWhile (· != 58)) value).get (ascii "Content-Length") = value := by
    rw [HttpHeaders.get_congr _ (contentLength_key.trans hname.symm), HttpHeaders.get_set_self,
      trimWhitespace_digits hall]
  refine Or.inr ⟨⟨rfl, rfl, rfl⟩, ⟨fun l hl hkey => ⟨rfl, ?_⟩, fun _ => ⟨⟨line, ?_, hk⟩, ?_⟩,
    fun l hl hkey => ?_⟩⟩
  · simp only [hget]
    rcases List.mem_append.mp hl with hl | hl
    · obtain ⟨hsaw, hval⟩ := h.lengths l hl hkey
      simp only [hsaw, Bool.true_and, bne_iff_ne, ne_eq, not_not] at hagree
      exact hval.trans hagree
    · rw [List.mem_singleton.mp hl, hv]
  · exact List.mem_append_right _ (List.mem_singleton.mpr rfl)
  · simp only [hget]
    exact ⟨hne, hall, rfl⟩
  · rcases List.mem_append.mp hl with hl | hl
    · exact h.codings l hl hkey
    · rw [List.mem_singleton.mp hl, hk] at hkey
      exact absurd hkey (by decide)

theorem Declares.other {c d : Core} {fields : List Bytes} {line : Bytes} (h : Declares c fields)
    (hk : fieldKey line ≠ ascii "content-length")
    (hcl : d.sawContentLength = c.sawContentLength) (hn : d.contentLength = c.contentLength)
    (hte : d.sawTransferEncoding = (c.sawTransferEncoding || fieldKey line == ascii "transfer-encoding"))
    (hs : d.headers = c.headers.set (line.takeWhile (· != 58)) (fieldValue line)) :
    Declares d (fields ++ [line]) := by
  have hget : d.headers.get (ascii "Content-Length") = c.headers.get (ascii "Content-Length") := by
    rw [hs]
    exact HttpHeaders.get_set_other _ _ (by rw [contentLength_key]; exact fun he => hk he.symm)
  refine ⟨fun l hl hkey => ?_, fun hsaw => ?_, fun l hl hkey => ?_⟩
  · rcases List.mem_append.mp hl with hl | hl
    · rw [hcl, hget]
      exact h.lengths l hl hkey
    · rw [List.mem_singleton.mp hl] at hkey
      exact (hk hkey).elim
  · obtain ⟨⟨l, hl, hkey⟩, hd⟩ := h.number (hcl ▸ hsaw)
    rw [hget, hn]
    exact ⟨⟨l, List.mem_append_left _ hl, hkey⟩, hd⟩
  · rw [hte, Bool.or_eq_true]
    rcases List.mem_append.mp hl with hl | hl
    · exact Or.inl (h.codings l hl hkey)
    · rw [List.mem_singleton.mp hl] at hkey
      exact Or.inr (beq_iff_eq.mpr hkey)

theorem headerLineText_declares {c : Core} {fields : List Bytes} (h : Declares c fields)
    (line : Bytes) : (c.headerLineText line).state = .error ∨
    Stored c (c.headerLineText line) ∧ Declares (c.headerLineText line) (fields ++ [line]) := by
  simp only [headerLineText]
  split
  · exact Or.inl rfl
  split
  · exact Or.inl rfl
  split
  · exact Or.inl rfl
  split
  · exact Or.inl rfl
  have hc : Declares { c with headerBytes := c.headerBytes + (line.length + 2) } fields :=
    h.congr rfl rfl rfl rfl
  rw [storeField]
  simp only
  split
  · rename_i hk
    rcases contentLengthField_declares hc hk with he | ⟨⟨h1, h2, h3⟩, hd⟩
    · exact Or.inl he
    · exact Or.inr ⟨⟨h1, h2, h3⟩, hd⟩
  split
  · rename_i hk hte
    unfold transferEncodingField
    split
    · exact Or.inl rfl
    · exact Or.inr ⟨⟨rfl, rfl, rfl⟩, hc.other hk rfl rfl
        (by rw [beq_iff_eq.mpr (show fieldKey line = _ from hte), Bool.or_true]) rfl⟩
  split
  · rename_i hk hte _
    exact Or.inr ⟨⟨rfl, rfl, rfl⟩, hc.other hk rfl rfl
      (by rw [beq_false_of_ne (show fieldKey line ≠ _ from hte), Bool.or_false]; rfl) rfl⟩
  · rename_i hk hte _
    exact Or.inr ⟨⟨rfl, rfl, rfl⟩, hc.other hk rfl rfl
      (by rw [beq_false_of_ne (show fieldKey line ≠ _ from hte), Bool.or_false]) rfl⟩

theorem statusLineText_final (c : Core) {line : Bytes} (h : ∀ code ∈ statusCodeOf line, 200 ≤ code) :
    (c.statusLineText line).state = .error ∨ (c.statusLineText line).state = .headers ∧
      (c.statusLineText line).isInterim = false ∧ (c.statusLineText line).body = c.body ∧
      (c.statusLineText line).sawContentLength = c.sawContentLength ∧
      (c.statusLineText line).sawTransferEncoding = c.sawTransferEncoding := by
  simp only [statusLineText]
  split
  · exact Or.inl rfl
  split
  · exact Or.inl rfl
  split
  · exact Or.inl rfl
  rename_i hcode
  simp only [not_or, Bool.not_eq_true, Bool.not_eq_false', not_not] at hcode
  have hfinal : 200 ≤ decimalValue (((line.dropWhile (· != 32)).drop 1).takeWhile (· != 32)) :=
    h _ (by simp only [statusCodeOf, hcode, and_self, if_true, Option.mem_def])
  split
  · exact Or.inl rfl
  split
  · omega
  · exact Or.inr ⟨rfl, rfl, rfl, rfl, rfl⟩

/-! ### Along the stream -/

/-- The framing is decided: no conflict, and a body framed by a length stays within it. -/
structure Framed (c : Core) : Prop where
  past : c.state ≠ .statusLine ∧ c.state ≠ .headers
  exclusive : ¬(c.sawContentLength = true ∧ c.sawTransferEncoding = true)
  counted : c.framing = .contentLength → c.sawContentLength = true ∧
    (c.state = .body ∧ c.body.length ≤ c.contentLength ∨
      c.state = .complete ∧ c.body.length = c.contentLength)

/-- Where the parser is in the stream `s` when `u` is unread. -/
def Progress (config : Config) (s : Bytes) (c : Core) (u : Bytes) : Prop := match c.state with
  | .error => True
  | .statusLine => c = Core.fresh config ∧ u = s
  | .headers => ∃ first fields, s = first ++ crlf ++ (fields.flatMap (· ++ crlf) ++ u) ∧
      findCrlf first = none ∧ (∀ l ∈ fields, l ≠ [] ∧ findCrlf l = none) ∧
      c.isInterim = false ∧ c.body = [] ∧ Declares c fields
  | _ => ∃ first fields, Http.HeadLines s first fields ∧ Declares c fields ∧ Framed c

section progress
variable {config : Config} {s : Bytes} {c : Core} {u : Bytes}

theorem Progress.of_error (h : c.state = .error) : Progress config s c u := by
  simp only [Progress, h]

theorem Progress.of_framed {first : Bytes} {fields : List Bytes}
    (hhead : Http.HeadLines s first fields) (hd : Declares c fields) (hf : Framed c) :
    Progress config s c u := by
  unfold Progress
  split
  · trivial
  · exact (hf.past.1 ‹_›).elim
  · exact (hf.past.2 ‹_›).elim
  · exact ⟨first, fields, hhead, hd, hf⟩

theorem Progress.framed (h : Progress config s c u) (hs : c.state ≠ .statusLine)
    (hh : c.state ≠ .headers) (he : c.state ≠ .error) :
    ∃ first fields, Http.HeadLines s first fields ∧ Declares c fields ∧ Framed c := by
  unfold Progress at h
  split at h
  · exact (he ‹_›).elim
  · exact (hs ‹_›).elim
  · exact (hh ‹_›).elim
  · exact h

/-- Past the head only the state, the body and the chunk counter change. -/
structure KeepsHead (c d : Core) : Prop where
  headers : d.headers = c.headers
  contentLength : d.contentLength = c.contentLength
  sawContentLength : d.sawContentLength = c.sawContentLength
  sawTransferEncoding : d.sawTransferEncoding = c.sawTransferEncoding
  framing : d.framing = c.framing

theorem Progress.step {d : Core} {v : Bytes} (h : Progress config s c u)
    (hs : c.state ≠ .statusLine) (hh : c.state ≠ .headers) (he : c.state ≠ .error)
    (hkeep : KeepsHead c d) (hpast : d.state ≠ .statusLine ∧ d.state ≠ .headers)
    (hcount : d.state = .error ∨ (c.framing = .contentLength →
      (c.state = .body ∧ c.body.length ≤ c.contentLength ∨
        c.state = .complete ∧ c.body.length = c.contentLength) →
      d.state = .body ∧ d.body.length ≤ c.contentLength ∨
        d.state = .complete ∧ d.body.length = c.contentLength)) : Progress config s d v := by
  rcases hcount with herr | hcount
  · exact .of_error herr
  obtain ⟨first, fields, hhead, hd, hf⟩ := h.framed hs hh he
  obtain ⟨k1, k2, k3, k4, k5⟩ := hkeep
  refine .of_framed hhead (hd.congr k3 k4 k2 k1) ⟨hpast, ?_, fun hfr => ?_⟩
  · rw [k3, k4]
    exact hf.exclusive
  · rw [k5] at hfr
    obtain ⟨hsaw, hc⟩ := hf.counted hfr
    rw [k2, k3]
    exact ⟨hsaw, hcount hfr hc⟩

end progress

@[simp] theorem finishMessage_state (c : Core) : c.finishMessage.state = .complete := rfl
@[simp] theorem finishMessage_framing (c : Core) : c.finishMessage.framing = c.framing := rfl

theorem decideFraming_framed {c : Core} (hb : c.body = []) : c.decideFraming.state = .error ∨
    Framed c.decideFraming ∧ c.decideFraming.sawContentLength = c.sawContentLength ∧
      c.decideFraming.sawTransferEncoding = c.sawTransferEncoding ∧
      c.decideFraming.contentLength = c.contentLength ∧ c.decideFraming.headers = c.headers := by
  unfold decideFraming
  split
  · exact Or.inl rfl
  rename_i hex
  rw [Bool.and_eq_true, and_comm] at hex
  split
  · exact Or.inr ⟨⟨by simp, hex, by simp⟩, rfl, rfl, rfl, rfl⟩
  split
  · exact Or.inr ⟨⟨by simp, hex, by simp⟩, rfl, rfl, rfl, rfl⟩
  split
  · rename_i hcl
    simp only
    split
    · rename_i hz
      refine Or.inr ⟨⟨by simp, hex, fun _ => ⟨hcl, Or.inr ⟨rfl, ?_⟩⟩⟩, rfl, rfl, rfl, rfl⟩
      simp only [Core.finishMessage, hb, hz, List.length_nil]
    · refine Or.inr ⟨⟨by simp, hex, fun _ => ⟨hcl, Or.inl ⟨rfl, ?_⟩⟩⟩, rfl, rfl, rfl, rfl⟩
      simp only [hb, List.length_nil, Nat.zero_le]
  · exact Or.inr ⟨⟨by simp, hex, by simp⟩, rfl, rfl, rfl, rfl⟩

theorem headers_progress {config : Config} {s : Bytes} {c : Core} {line r : Bytes}
    (hs : c.state = .headers) (h : Progress config s c (line ++ CR :: LF :: r))
    (hcrlf : findCrlf line = none) : Progress config s (c.onLine line) r := by
  simp only [Progress, hs] at h
  obtain ⟨first, fields, hsplit, hfirst, hfields, hinterim, hbody, hd⟩ := h
  simp only [onLine, hs]
  split
  · rename_i hnil
    have hend : c.endOfHeaders = decideFraming { c with headerBytes := c.headerBytes + 2 } :=
      if_neg (by rw [hinterim]; decide)
    rw [hend]
    generalize hc' : ({ c with headerBytes := c.headerBytes + 2 } : Core) = c'
    have hd' : Declares c' fields := by
      rw [← hc']
      exact hd.congr rfl rfl rfl rfl
    rcases decideFraming_framed (c := c') (by rw [← hc']; exact hbody) with he | ⟨hf, h1, h2, h3, h4⟩
    · exact .of_error he
    · have hstarts : headBlock first fields <+: s := by
        refine ⟨r, ?_⟩
        rw [hsplit, hnil, headBlock, lineBlock]
        simp only [List.append_assoc, List.nil_append, List.cons_append]
      exact .of_framed ⟨hstarts, hfirst, hfields⟩ (hd'.congr h1 h2 h3 h4) hf
  · rename_i hne
    rcases headerLineText_declares hd line with he | ⟨⟨h1, h2, h3⟩, hd'⟩
    · exact .of_error he
    · simp only [Progress, h1, hs]
      refine ⟨first, fields ++ [line], ?_, hfirst, ?_, h2.trans hinterim, h3.trans hbody, hd'⟩
      · rw [hsplit]
        simp only [List.flatMap_append, List.flatMap_cons, List.flatMap_nil, List.append_assoc,
          List.append_nil, List.cons_append, List.nil_append]
      · intro l hl
        rcases List.mem_append.mp hl with hl | hl
        · exact hfields l hl
        · rw [List.mem_singleton.mp hl]
          exact ⟨hne, hcrlf⟩

theorem statusLine_progress {config : Config} {s line r : Bytes} (hno : NoInterim s)
    (hs : s = line ++ CR :: LF :: r) (hcrlf : findCrlf line = none) :
    Progress config s ((Core.fresh config).statusLineText line) r := by
  have hsplit : s = line ++ crlf ++ r := by
    rw [hs, List.append_assoc]
    rfl
  rcases statusLineText_final (Core.fresh config) (hno line r hsplit hcrlf) with
    he | ⟨h1, h2, h3, h4, h5⟩
  · exact .of_error he
  · simp only [Progress, h1]
    refine ⟨line, [], hsplit, hcrlf, by simp, h2, h3, ⟨by simp, fun hsaw => ?_, by simp⟩⟩
    rw [h4] at hsaw
    cases hsaw

theorem keepsHead_fail (c : Core) (message : Bytes) : KeepsHead c (c.fail message) :=
  ⟨rfl, rfl, rfl, rfl, rfl⟩

theorem chunkSizeText_keeps (c : Core) (line : Bytes) : KeepsHead c (c.chunkSizeText line) ∧
    ((c.chunkSizeText line).state = .error ∨ (c.chunkSizeText line).state = .trailer ∨
      (c.chunkSizeText line).state = .chunkData) := by
  simp only [chunkSizeText]
  split
  · exact ⟨keepsHead_fail .., Or.inl rfl⟩
  split
  · exact ⟨keepsHead_fail .., Or.inl rfl⟩
  split
  · exact ⟨⟨rfl, rfl, rfl, rfl, rfl⟩, Or.inr (Or.inl rfl)⟩
  · exact ⟨⟨rfl, rfl, rfl, rfl, rfl⟩, Or.inr (Or.inr rfl)⟩

theorem trailerLineText_keeps (c : Core) (line : Bytes) : KeepsHead c (c.trailerLineText line) ∧
    ((c.trailerLineText line).state = .error ∨ (c.trailerLineText line).state = c.state) := by
  simp only [trailerLineText]
  split
  · exact ⟨keepsHead_fail .., Or.inl rfl⟩
  split
  · exact ⟨keepsHead_fail .., Or.inl rfl⟩
  split
  · exact ⟨⟨rfl, rfl, rfl, rfl, rfl⟩, Or.inl rfl⟩
  · exact ⟨⟨rfl, rfl, rfl, rfl, rfl⟩, Or.inr rfl⟩

theorem bodyByte_keeps {c : Core} (hs : c.state = .body) (hlt : c.framing = .contentLength →
      c.body.length < c.contentLength) (b : Byte) : KeepsHead c (c.bodyByte b) ∧
    ((c.bodyByte b).state = .error ∨ ((c.bodyByte b).state = .body ∨ (c.bodyByte b).state = .complete) ∧
      (c.framing = .contentLength →
        (c.bodyByte b).state = .body ∧ (c.bodyByte b).body.length ≤ c.contentLength ∨
          (c.bodyByte b).state = .complete ∧ (c.bodyByte b).body.length = c.contentLength)) := by
  simp only [bodyByte]
  split
  · rename_i hf
    have hle := hlt hf
    split
    · rename_i heq
      exact ⟨⟨rfl, rfl, rfl, rfl, rfl⟩, Or.inr ⟨Or.inr rfl, fun _ => Or.inr ⟨rfl, heq⟩⟩⟩
    · refine ⟨⟨rfl, rfl, rfl, rfl, rfl⟩, Or.inr ⟨Or.inl hs, fun _ => Or.inl ⟨hs, ?_⟩⟩⟩
      simp only [List.length_append, List.length_singleton]
      omega
  · rename_i hf
    split
    · exact ⟨keepsHead_fail .., Or.inl rfl⟩
    · exact ⟨⟨rfl, rfl, rfl, rfl, rfl⟩, Or.inr ⟨Or.inl hs, fun h => (hf h).elim⟩⟩

theorem chunkByte_keeps {c : Core} (hs : c.state = .chunkData) (b : Byte) :
    KeepsHead c (c.chunkByte b) ∧ ((c.chunkByte b).state = .error ∨
      (c.chunkByte b).state = .chunkDataCrlf ∨ (c.chunkByte b).state = .chunkData) := by
  simp only [chunkByte]
  split
  · exact ⟨keepsHead_fail .., Or.inl rfl⟩
  · refine ⟨⟨rfl, rfl, rfl, rfl, rfl⟩, Or.inr ?_⟩
    simp only
    split
    · exact Or.inl rfl
    · exact Or.inr hs

theorem not_counted {c : Core} {P : Prop} (h1 : c.state ≠ .body) (h2 : c.state ≠ .complete)
    (h : c.state = .body ∧ c.body.length ≤ c.contentLength ∨
      c.state = .complete ∧ c.body.length = c.contentLength) : P := by
  rcases h with h | h
  · exact (h1 h.1).elim
  · exact (h2 h.1).elim

theorem step_progress {config : Config} {s : Bytes} (hno : NoInterim s) {c c' : Core} {u u' : Bytes}
    (h : Progress config s c u) (hstep : c.step u = some (c', u')) : Progress config s c' u' := by
  rcases c.reads_cases with hl | hs | hs | hs | hh
  · rw [step_line hl] at hstep
    obtain ⟨⟨line, r⟩, hline, hx⟩ := Option.map_eq_some_iff.mp hstep
    simp only [Prod.mk.injEq] at hx
    obtain ⟨rfl, rfl⟩ := hx
    obtain ⟨hu, hcrlf⟩ := Lines.splitPair_some hline
    rcases hl with hs | hs | hs | hs
    · simp only [Progress, hs] at h
      obtain ⟨rfl, rfl⟩ := h
      exact statusLine_progress hno hu hcrlf
    · rw [hu] at h
      exact headers_progress hs h hcrlf
    · simp only [onLine, hs]
      obtain ⟨hkeep, hst⟩ := chunkSizeText_keeps c line
      refine h.step (by simp [hs]) (by simp [hs]) (by simp [hs]) hkeep ?_
        (Or.inr fun _ => not_counted (by simp [hs]) (by simp [hs]))
      rcases hst with hst | hst | hst <;> rw [hst] <;> simp
    · simp only [onLine, hs]
      split
      · exact h.step (by simp [hs]) (by simp [hs]) (by simp [hs]) ⟨rfl, rfl, rfl, rfl, rfl⟩ (by simp)
          (Or.inr fun _ => not_counted (by simp [hs]) (by simp [hs]))
      · obtain ⟨hkeep, hst⟩ := trailerLineText_keeps c line
        rw [hs] at hst
        refine h.step (by simp [hs]) (by simp [hs]) (by simp [hs]) hkeep ?_
          (Or.inr fun _ => not_counted (by simp [hs]) (by simp [hs]))
        rcases hst with hst | hst <;> rw [hst] <;> simp
  · simp only [step, hs, stepBody] at hstep
    obtain ⟨-, -, -, -, hf⟩ := h.framed (by simp [hs]) (by simp [hs]) (by simp [hs])
    have hle : c.framing = .contentLength → c.body.length ≤ c.contentLength := fun hfr => by
      rcases (hf.counted hfr).2 with hc | hc
      · exact hc.2
      · exact hc.2.le
    split at hstep
    · rename_i hz
      simp only [Option.some.injEq, Prod.mk.injEq] at hstep
      obtain ⟨rfl, rfl⟩ := hstep
      refine h.step (by simp [hs]) (by simp [hs]) (by simp [hs])
        ⟨rfl, rfl, rfl, rfl, rfl⟩ (by simp) (Or.inr fun hfr _ => Or.inr ⟨rfl, ?_⟩)
      have hbody := hle hfr
      have hzero := hz.2
      simp only [Core.finishMessage]
      omega
    · rename_i hz
      cases u with
      | nil => cases hstep
      | cons b t =>
        simp only [Option.some.injEq, Prod.mk.injEq] at hstep
        obtain ⟨rfl, rfl⟩ := hstep
        obtain ⟨hkeep, hst⟩ := bodyByte_keeps hs (fun hfr => by
          have hbody := hle hfr
          have hmore : ¬c.contentLength - c.body.length = 0 := fun h0 => hz ⟨hfr, h0⟩
          omega) b
        rcases hst with herr | ⟨hst, hcount⟩
        · exact .of_error herr
        · refine h.step (by simp [hs]) (by simp [hs]) (by simp [hs]) hkeep ?_
            (Or.inr fun hfr _ => hcount hfr)
          rcases hst with hst | hst <;> rw [hst] <;> simp
  · simp only [step, hs] at hstep
    rcases stepChunkData_cases hstep with ⟨rfl, rfl⟩ | ⟨b, rfl, rfl⟩
    · exact h.step (by simp [hs]) (by simp [hs]) (by simp [hs])
        ⟨rfl, rfl, rfl, rfl, rfl⟩ (by simp)
        (Or.inr fun _ => not_counted (by simp [hs]) (by simp [hs]))
    · obtain ⟨hkeep, hst⟩ := chunkByte_keeps hs b
      refine h.step (by simp [hs]) (by simp [hs]) (by simp [hs]) hkeep ?_
        (Or.inr fun _ => not_counted (by simp [hs]) (by simp [hs]))
      rcases hst with hst | hst | hst <;> rw [hst] <;> simp
  · simp only [step, hs] at hstep
    obtain ⟨a, b, rfl, rfl⟩ := stepChunkCrlf_cases hstep
    unfold chunkCrlf
    split
    · exact .of_error rfl
    · exact h.step (by simp [hs]) (by simp [hs]) (by simp [hs])
        ⟨rfl, rfl, rfl, rfl, rfl⟩ (by simp)
        (Or.inr fun _ => not_counted (by simp [hs]) (by simp [hs]))
  · rw [step_halted hh] at hstep
    cases hstep

theorem drain_progress (config : Config) {s : Bytes} (hno : NoInterim s) :
    Progress config s (responseMachine.drain (Core.fresh config) s).1
      (responseMachine.drain (Core.fresh config) s).2 :=
  Machine.drain_preserves (M := responseMachine) (P := Progress config s)
    (fun _ _ _ _ h hstep => step_progress hno h hstep) _ _ ⟨rfl, rfl⟩

theorem Progress.complete {config : Config} {s : Bytes} {c : Core} {u : Bytes}
    (h : Progress config s c u) (hs : c.state = .complete ∨ c.state = .body) :
    ∃ first fields, Http.HeadLines s first fields ∧ NoConflict fields ∧
      ∃ n, LengthsAgree fields n ∧ (c.state = .complete → c.framing = .contentLength →
        (∃ line ∈ fields, fieldKey line = ascii "content-length") ∧ c.body.length = n) := by
  obtain ⟨first, fields, hhead, hd, hf⟩ : ∃ first fields, Http.HeadLines s first fields ∧
      Declares c fields ∧ Framed c := by
    rcases hs with hs | hs
    · exact h.framed (by simp [hs]) (by simp [hs]) (by simp [hs])
    · exact h.framed (by simp [hs]) (by simp [hs]) (by simp [hs])
  refine ⟨first, fields, hhead, ?_, c.contentLength, fun line hl hk => ?_, fun hs hfr => ?_⟩
  · rintro ⟨⟨line, hl, hk⟩, line', hl', hk'⟩
    exact hf.exclusive ⟨(hd.lengths line hl hk).1, hd.codings line' hl' hk'⟩
  · obtain ⟨hsaw, hval⟩ := hd.lengths line hl hk
    rw [hval]
    exact (hd.number hsaw).2
  · obtain ⟨hsaw, hc⟩ := hf.counted hfr
    refine ⟨(hd.number hsaw).1, ?_⟩
    rcases hc with ⟨hb, -⟩ | ⟨-, hb⟩
    · rw [hs] at hb
      cases hb
    · exact hb

/-- A parser Complete at the end was so before, or had a body open to the end of the stream. -/
theorem complete_of_endOf {config : Config} {ds : List Bytes} {eof : Bool}
    (h : (endOf config ds eof).isComplete = true) :
    (run config ds).state = .complete ∧ (endOf config ds eof).toCore = (run config ds).toCore ∨
      (run config ds).state = .body ∧ (run config ds).framing = .untilClose ∧
        (endOf config ds eof).toCore = (run config ds).toCore.finishMessage := by
  have hdone : (endOf config ds eof).state = .complete := eq_of_beq h
  cases eof with
  | false => exact Or.inl ⟨hdone, rfl⟩
  | true =>
    have heof : (endOf config ds true).toCore = (run config ds).toCore.eof :=
      (finishOnEof_outcome (run config ds)).1
    rw [heof] at hdone ⊢
    unfold Core.eof at hdone ⊢
    split at hdone
    · rename_i hhalted
      rw [if_pos hhalted]
      exact Or.inl ⟨hdone, rfl⟩
    split at hdone
    · rename_i hhalted hopen
      rw [if_neg hhalted, if_pos hopen]
      exact Or.inr ⟨hopen.1, hopen.2, rfl⟩
    · cases hdone

theorem drain_of_endOf {config : Config} {ds : List Bytes} {eof : Bool}
    (h : (endOf config ds eof).isComplete = true) : (run config ds).outcome =
      (responseMachine.drain (Core.fresh config) ds.flatten).1.outcome := by
  refine (run_drain_or_error config ds).resolve_right fun he => ?_
  rcases complete_of_endOf h with ⟨hs, -⟩ | ⟨hs, -⟩
  · exact absurd (hs.symm.trans he) (by decide)
  · exact absurd (hs.symm.trans he) (by decide)

/-- **No ambiguous framing.** A response the parser completes, however it is fed, has no
field line for a length next to one for a transfer coding, all its lengths are the same
number in digits, and a body framed by its length has that many bytes. -/
theorem framing_unambiguous (config : Config) (ds : List Bytes) (eof : Bool)
    (hno : NoInterim ds.flatten) (hdone : (endOf config ds eof).isComplete = true) :
    ∃ first fields, Http.HeadLines ds.flatten first fields ∧ NoConflict fields ∧
      ∃ n, LengthsAgree fields n ∧ ((endOf config ds eof).framing = .contentLength →
        (∃ line ∈ fields, fieldKey line = ascii "content-length") ∧
          (endOf config ds eof).body.length = n) := by
  have hrun := complete_of_endOf hdone
  have hprogress := drain_progress config hno
  have hsame := drain_of_endOf hdone
  have hstate := congrArg Outcome.state hsame
  have hframing := congrArg Outcome.framing hsame
  have hbody := congrArg Outcome.body hsame
  simp only [Core.outcome] at hstate hframing hbody
  rcases hrun with ⟨hs, heq⟩ | ⟨hs, hclose, heq⟩
  · rw [heq, hframing, hbody]
    rw [hstate] at hs
    obtain ⟨first, fields, hhead, hconflict, n, hlengths, hcount⟩ := hprogress.complete (Or.inl hs)
    exact ⟨first, fields, hhead, hconflict, n, hlengths, hcount hs⟩
  · rw [hstate] at hs
    obtain ⟨first, fields, hhead, hconflict, n, hlengths, -⟩ := hprogress.complete (Or.inr hs)
    refine ⟨first, fields, hhead, hconflict, n, hlengths, fun h => ?_⟩
    rw [heq, Core.finishMessage, hclose] at h
    cases h

/-- The length twice, in two spellings and cut inside its value. -/
theorem framing_unambiguous_twice :
    let ds := [ascii "HTTP/1.1 200 OK\r\nContent-Length: 2\r\ncontent-LENGTH:",
      ascii "2 \r\n\r\nhi"]
    ∃ first fields, Http.HeadLines ds.flatten first fields ∧ NoConflict fields ∧
      ∃ n, LengthsAgree fields n ∧ ((endOf {} ds false).framing = .contentLength →
        (∃ line ∈ fields, fieldKey line = ascii "content-length") ∧
          (endOf {} ds false).body.length = n) :=
  framing_unambiguous {} _ false
    (by
      intro line rest hs hcrlf code hcode
      have hsplit : splitLine (line ++ crlf ++ rest) = some (ascii "HTTP/1.1 200 OK",
          ascii "Content-Length: 2\r\ncontent-LENGTH:2 \r\n\r\nhi") := by
        rw [← hs]
        decide
      rw [splitLine_append_crlf hcrlf, Option.some.injEq, Prod.mk.injEq] at hsplit
      rw [hsplit.1, show statusCodeOf (ascii "HTTP/1.1 200 OK") = some 200 by decide] at hcode
      exact Option.mem_some_iff.mp hcode ▸ le_rfl)
    (by decide)

end Aevrix.Proxy
