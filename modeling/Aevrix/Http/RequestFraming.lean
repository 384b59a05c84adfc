import Aevrix.Http.RequestHead

/-!
# Requests framed by Content-Length

The length of a request body is declared by `Content-Length` only (`docs/HTTP.md`,
Framing). The parser looks for a body after the heads of POST, PUT and PATCH
alone: after any other head it is Complete, and the body stays in the buffer.
-/

namespace Aevrix.Http
open Incremental HttpRequestParser HttpRequestParser.Core HttpHeader

/-! ### Fields of one name -/

def FieldLine.named (name : Bytes) (f : FieldLine) : Bool :=
  decide (normalizeName f.name = normalizeName name)

namespace HttpHeaders

theorem get_foldl_set (fs : List FieldLine) (hs : HttpHeaders) (name : Bytes) :
    get (fs.foldl (fun hs f => hs.set f.name f.value) hs) name =
      match (fs.filter (FieldLine.named name)).getLast? with
      | some f => trimWhitespace f.value
      | none => hs.get name := by
  induction fs generalizing hs with
  | nil => rfl
  | cons f fs ih =>
    rw [List.foldl_cons, ih]
    by_cases hf : normalizeName f.name = normalizeName name
    · have hn : FieldLine.named name f = true := decide_eq_true hf
      rw [List.filter_cons_of_pos hn, List.getLast?_cons]
      cases (fs.filter (FieldLine.named name)).getLast? with
      | none => simp only [Option.getD_none, ← get_congr _ hf, get_set_self]
      | some g => simp only [Option.getD_some]
    · have hn : ¬FieldLine.named name f = true := by simpa [FieldLine.named] using hf
      rw [List.filter_cons_of_neg hn]
      cases (fs.filter (FieldLine.named name)).getLast? with
      | none => simp only [get_set_other hs f.value (Ne.symm hf)]
      | some g => rfl

end HttpHeaders

/-! ### The declared length -/

theorem stoul_digits {v : Bytes} {n : ℕ} (h : IsDecimal v n) :
    stoul v = if 2 ^ 64 ≤ n then none else some n := by
  obtain ⟨hne, hdig, rfl⟩ := h
  obtain ⟨c, t, rfl⟩ := List.exists_cons_of_ne_nil hne
  have hc := hdig c (List.mem_cons_self ..)
  have hdrop : (c :: t).dropWhile isSpace = c :: t := by
    rw [List.dropWhile_cons, isDigit_not_space hc]
    rfl
  have htake : (c :: t).takeWhile isDigit = c :: t := List.takeWhile_eq_self_iff.mpr hdig
  have hsign : c ≠ 45 ∧ c ≠ 43 := by
    unfold isDigit at hc
    grind
  simp only [stoul, hdrop]
  split
  · rename_i heq
    exact (hsign.1 (List.cons.inj heq).1).elim
  · rename_i heq
    exact (hsign.2 (List.cons.inj heq).1).elim
  · rw [htake, if_neg hne]
    rfl

theorem stoul_decimal {v : Bytes} {n : ℕ} (h : IsDecimal v n) (hn : n < 2 ^ 64) :
    stoul v = some n := by
  rw [stoul_digits h, if_neg (Nat.not_le.mpr hn)]

namespace RequestHead

def contentLengthFields (h : RequestHead) : List FieldLine :=
  h.fields.filter (FieldLine.named (ascii "Content-Length"))

/-- Exactly one `Content-Length` field, of digits alone. -/
def Declares (h : RequestHead) (n : ℕ) : Prop :=
  ∃ f, h.contentLengthFields = [f] ∧ IsDecimal (trimWhitespace f.value) n

theorem getHeader_contentLength (h : RequestHead) :
    h.request.getHeader (ascii "Content-Length") = match h.contentLengthFields.getLast? with
      | some f => trimWhitespace f.value
      | none => [] := by
  simp only [request, HttpRequest.getHeader, HttpHeaders.get_foldl_set, contentLengthFields]
  rfl

theorem Declares.getHeader {h : RequestHead} {n : ℕ} (hd : h.Declares n) :
    IsDecimal (h.request.getHeader (ascii "Content-Length")) n := by
  obtain ⟨f, hf, hv⟩ := hd
  rw [getHeader_contentLength, hf]
  exact hv

/-- The parser reads the declared body: there is none, or the method is POST, PUT or PATCH. -/
def BodyIsRead (h : RequestHead) (n : ℕ) : Prop := n = 0 ∨ h.request.requiresBody = true

instance (h : RequestHead) (n : ℕ) : Decidable (h.BodyIsRead n) := by
  unfold BodyIsRead
  infer_instance

theorem core_state (h : RequestHead) (config : ParserConfig) : (h.core config).state =
    if h.request.requiresBody then .body else .complete := by
  have hreq : (h.fields.foldl Core.store (h.lineCore config)).request = h.request := by
    rw [foldl_store_request]
    rfl
  have hbody : h.request.hasBody = false := rfl
  simp only [core, endOfHeaders, hreq, hbody, Bool.false_or]
  split <;> rfl

end RequestHead

/-! ### Whole requests -/

/-- A request as a client sends it: a head, and the body its `Content-Length`
declares, none without one. -/
structure Message where
  head : RequestHead
  body : Bytes
  framed : (head.contentLengthFields = [] ∧ body = []) ∨ head.Declares body.length

namespace Message

def bytes (m : Message) : Bytes := m.head.bytes ++ m.body

/-- What the request says. -/
def request (m : Message) : HttpRequest := { m.head.request with body := m.body }

/-- The head is within its limits, the body within the largest body. -/
structure Within (m : Message) (config : ParserConfig) : Prop where
  head : m.head.Within config
  body : m.body.length ≤ config.maxBodyBytes

def BodyIsRead (m : Message) : Prop := m.head.BodyIsRead m.body.length

instance (m : Message) : Decidable m.BodyIsRead := by
  unfold BodyIsRead
  infer_instance

/-- The core at the end of the request. -/
def core (m : Message) (config : ParserConfig) : Core :=
  { m.head.core config with state := .complete, request := m.request }

end Message

theorem Message.core_of_nil {m : Message} (config : ParserConfig) (h : m.body = []) :
    m.core config = { m.head.core config with state := .complete } := by
  have hreq : m.request = (m.head.core config).request := by
    rw [RequestHead.core_request, request, h]
    rfl
  rw [core, hreq]

theorem onBody_none {c : Core} (h : c.request.getHeader (ascii "Content-Length") = []) (u : Bytes) :
    c.onBody u = some ({ c with state := .complete }, u) := by
  rw [onBody, if_pos h]

theorem onBody_declared {c : Core} {n : ℕ}
    (hd : IsDecimal (c.request.getHeader (ascii "Content-Length")) n)
    (hn : n ≤ c.config.maxBodyBytes) {body : Bytes} (hb : body.length = n) (x : Bytes) :
    c.onBody (body ++ x) = some ({ c with
      state := .complete, request := { c.request with body := body } }, x) := by
  have hlt : n < 2 ^ 64 := hn.trans_lt c.config.maxBodyBytes_lt
  have hlen : ¬(body ++ x).length < n := by rw [List.length_append]; omega
  simp only [onBody, if_neg hd.1, stoul_decimal hd hlt, if_neg (Nat.not_lt.mpr hn), if_neg hlen]
  rw [List.take_left' hb, List.drop_left' hb]

theorem Message.onBody_eq (m : Message) {config : ParserConfig} (hw : m.Within config) (x : Bytes) :
    (m.head.core config).onBody (m.body ++ x) = some (m.core config, x) := by
  rcases m.framed with ⟨hnone, hnil⟩ | hd
  · have hcl : (m.head.core config).request.getHeader (ascii "Content-Length") = [] := by
      rw [RequestHead.core_request, RequestHead.getHeader_contentLength, hnone]
      rfl
    rw [onBody_none hcl, core_of_nil config hnil, hnil, List.nil_append]
  · have hdec : IsDecimal ((m.head.core config).request.getHeader (ascii "Content-Length"))
        m.body.length := by
      rw [RequestHead.core_request]
      exact hd.getHeader
    rw [onBody_declared hdec (by rw [RequestHead.core_config]; exact hw.body) rfl,
      RequestHead.core_request]
    rfl

/-- **A request is read to its end** when its body is one the parser reads. -/
theorem Message.drain_eq (m : Message) {config : ParserConfig} (hw : m.Within config)
    (hr : m.BodyIsRead) (x : Bytes) :
    requestMachine.drain (Core.fresh config) (m.bytes ++ x) = (m.core config, x) := by
  have hcomplete : requestMachine.drain (m.core config) x = (m.core config, x) :=
    drain_blocked (step_complete (c := m.core config) rfl x)
  have hst := m.head.core_state config
  rw [bytes, List.append_assoc, m.head.drain_head hw.head.count]
  cases hreq : m.head.request.requiresBody with
  | false =>
    have hnil : m.body = [] := by
      rcases hr with h0 | h0
      · exact List.eq_nil_of_length_eq_zero h0
      · rw [hreq] at h0
        cases h0
    rw [hreq] at hst
    have hcore : m.core config = m.head.core config := by
      rw [core_of_nil config hnil, ← (show (m.head.core config).state = .complete from hst)]
    rw [hnil, List.nil_append, ← hcore, hcomplete]
  | true =>
    rw [hreq] at hst
    have hstep : (m.head.core config).step (m.body ++ x) = some (m.core config, x) := by
      simp only [step, show (m.head.core config).state = .body from hst, m.onBody_eq hw x]
    rw [drain_step hstep, hcomplete]

/-- A body the parser does not look for stays in the buffer of a Complete parser. -/
theorem RequestHead.drain_unread (h : RequestHead) {config : ParserConfig} (hw : h.Within config)
    (hr : h.request.requiresBody = false) (x : Bytes) :
    requestMachine.drain (Core.fresh config) (h.bytes ++ x) = (h.core config, x) := by
  have hst := h.core_state config
  rw [hr] at hst
  rw [h.drain_head hw.count]
  exact drain_blocked (step_complete hst x)

/-! ### Feeds of one request -/

theorem drain_front_not_complete {config : ParserConfig} {s : Bytes}
    (h : (requestMachine.drain (Core.fresh config) s).2 = []) (p x : Bytes) (hs : p ++ x = s)
    (hx : x ≠ []) : (requestMachine.drain (Core.fresh config) p).1.state ≠ .complete := by
  intro hc
  have hdead := Machine.drain_append_dead (M := requestMachine) x fun w => step_complete hc w
  rw [hs] at hdead
  rw [hdead] at h
  exact hx (List.append_eq_nil_iff.mp h).2

/-- What the framing of a request `s` with body `body`, cut into `ds`, asks of the
parser: Complete exactly when all of `s` is in, the body stored, nothing left over. -/
structure FramedBy (config : ParserConfig) (s body : Bytes) (ds : List Bytes) : Prop where
  complete : ∀ n ≤ ds.length, (run config (ds.take n)).isComplete = true ↔ (ds.take n).flatten = s
  body : (run config ds).request.body = body
  nothingLeft : (run config ds).buffer = []

theorem flatten_take_ne {ds : List Bytes} (hne : ∀ d ∈ ds, d ≠ []) {n : ℕ} (hn : n < ds.length) :
    (ds.take n).flatten ≠ ds.flatten := by
  intro h
  have hsplit := congrArg List.flatten (List.take_append_drop n ds)
  rw [List.flatten_append, h, List.drop_eq_getElem_cons hn, List.flatten_cons] at hsplit
  have hnil := List.append_right_eq_self.mp hsplit
  exact hne _ (List.getElem_mem hn) (List.append_eq_nil_iff.mp hnil).1

theorem Message.framedBy (m : Message) {config : ParserConfig} (hw : m.Within config)
    (hr : m.BodyIsRead) {ds : List Bytes} (hds : ds.flatten = m.bytes) (hne : ∀ d ∈ ds, d ≠ []) :
    FramedBy config m.bytes m.body ds := by
  have hd := m.drain_eq hw hr []
  rw [List.append_nil] at hd
  have hl : LinesWithin config ds.flatten := by
    rw [hds]
    exact m.head.linesWithin hw.head m.body
  have hearly : NotEarly config ds := notEarly_of_drain hl hne fun p x hp hx =>
    drain_front_not_complete (by rw [hd]) p x (hp.trans hds) hx
  obtain ⟨hcore, hbuf⟩ := run_eq_drain hl hearly
  rw [hds, hd] at hcore hbuf
  have hstate : (run config ds).state = .complete := by rw [hcore]; rfl
  refine ⟨fun n hn => ?_, by rw [hcore]; rfl, hbuf (by rw [hstate]; decide)⟩
  rcases Nat.lt_or_eq_of_le hn with hlt | rfl
  · have hnot : ¬(run config (ds.take n)).isComplete = true := by
      simpa [isComplete] using hearly n hlt
    have hfl : (ds.take n).flatten ≠ m.bytes := hds ▸ flatten_take_ne hne hlt
    exact ⟨fun h => (hnot h).elim, fun h => (hfl h).elim⟩
  · rw [List.take_length]
    exact ⟨fun _ => hds, fun _ => by simp [isComplete, hstate]⟩

/-- **Content-Length frames a request exactly when** its body is empty or its method
is POST, PUT or PATCH, for every cut of the request into feeds. -/
theorem framedBy_iff (config : ParserConfig) (h : RequestHead) (hw : h.Within config) (n : ℕ)
    (hd : h.Declares n) (hn : n ≤ config.maxBodyBytes) (body : Bytes) (hb : body.length = n)
    (ds : List Bytes) (hds : ds.flatten = h.bytes ++ body) (hne : ∀ d ∈ ds, d ≠ []) :
    FramedBy config (h.bytes ++ body) body ds ↔ n = 0 ∨ h.request.requiresBody = true := by
  subst hb
  constructor
  · intro hf
    cases hreq : h.request.requiresBody with
    | true => exact Or.inr rfl
    | false =>
      left
      have hl : LinesWithin config ds.flatten := by
        rw [hds]
        exact h.linesWithin hw body
      have hearly : NotEarly config ds := by
        intro k hk hc
        have hfl := (hf.complete k hk.le).mp (by simp [isComplete, hc])
        exact flatten_take_ne hne hk (hfl.trans hds.symm)
      have hbody := hf.body
      rw [(run_eq_drain hl hearly).1, hds, h.drain_unread hw hreq, RequestHead.core_request] at hbody
      rw [← hbody]
      rfl
  · intro hr
    exact Message.framedBy ⟨h, body, Or.inr hd⟩ ⟨hw, hn⟩ hr hds hne

/-- A head that declares five bytes. -/
def fiveByteHead (methodStr : Bytes) (known : stringToHttpMethod methodStr ≠ .unknown) :
    RequestHead where
  line := ⟨methodStr, ascii "/", 49, 49, known, slash_word, one_one_digits⟩
  fields := [⟨[], ascii "Content-Length", [], ascii " 5", ows_nil, ows_nil, contentLength_token⟩]
  clean := by decide

theorem fiveByteHead_declares (methodStr : Bytes) (known : stringToHttpMethod methodStr ≠ .unknown) :
    (fiveByteHead methodStr known).Declares 5 :=
  ⟨⟨[], ascii "Content-Length", [], ascii " 5", ows_nil, ows_nil, contentLength_token⟩, rfl,
    by decide⟩

/-- A POST cut inside its head and inside its body. -/
theorem framedBy_iff_post :
    FramedBy .default (ascii "POST / HTTP/1.1\r\nContent-Length: 5\r\n\r\nhello") (ascii "hello")
      [ascii "POST / HTTP/1.1\r\nContent-Le", ascii "ngth: 5\r\n\r\nhe", ascii "llo"] ↔
    5 = 0 ∨ (fiveByteHead (ascii "POST") (by decide)).request.requiresBody = true :=
  framedBy_iff .default (fiveByteHead (ascii "POST") (by decide))
    ⟨by decide, by decide, by decide, by decide, by decide⟩ 5 (fiveByteHead_declares _ _) (by decide)
    (ascii "hello") (by decide) _ (by decide) (by decide)

/-- A GET with a body of five bytes is Complete without it. -/
theorem not_framedBy_get :
    (fiveByteHead (ascii "GET") (by decide)).Within .default ∧
    (fiveByteHead (ascii "GET") (by decide)).Declares 5 ∧
    (fiveByteHead (ascii "GET") (by decide)).bytes ++ ascii "hello" =
      ascii "GET / HTTP/1.1\r\nContent-Length: 5\r\n\r\nhello" ∧
    ¬FramedBy .default (ascii "GET / HTTP/1.1\r\nContent-Length: 5\r\n\r\nhello") (ascii "hello")
      [ascii "GET / HTTP/1.1\r\nContent-Length: 5\r\n\r\nhello"] := by
  refine ⟨⟨by decide, by decide, by decide, by decide, by decide⟩, fiveByteHead_declares _ _, by decide, ?_⟩
  intro h
  exact absurd h.body (by decide)

end Aevrix.Http
