import Aevrix.Http.RequestFraming
import Aevrix.Http.StoredRequest
import Aevrix.Proxy.RequestBuilder
import Aevrix.Proxy.ResponseFraming

/-!
# Client requests as the upstream reads them

The request written upstream, read back by a request parser, is the client's with its
target rewritten and its hop-by-hop fields gone (`upstream_reads`). Its lines are those the
builder writes unless `Host` or `X-Forwarded-For` came with a bare CR or LF
(`ownTerminators_iff`).
-/

namespace Aevrix.Proxy
open Aevrix.Http Incremental HttpRequestParser HttpRequestParser.Core

/-! ### Texts without CR and LF -/

/-- A configured or received text that cannot end a line. -/
def LineFree (v : Bytes) : Prop := CR ∉ v ∧ LF ∉ v

instance (v : Bytes) : Decidable (LineFree v) := by
  unfold LineFree
  infer_instance

theorem lineFree_of_forall {v : Bytes} (h : ∀ c ∈ v, c ≠ CR ∧ c ≠ LF) : LineFree v :=
  ⟨fun hm => (h _ hm).1 rfl, fun hm => (h _ hm).2 rfl⟩

theorem lineFree_append {v w : Bytes} : LineFree (v ++ w) ↔ LineFree v ∧ LineFree w := by
  unfold LineFree
  simp only [List.mem_append, not_or]
  exact ⟨fun h => ⟨⟨h.1.1, h.2.1⟩, h.1.2, h.2.2⟩, fun h => ⟨⟨h.1.1, h.2.1⟩, h.1.2, h.2.2⟩⟩

theorem lineFree_of_word {v : Bytes} (h : ∀ c ∈ v, isSpace c = false) : LineFree v := by
  refine lineFree_of_forall fun c hc => ⟨?_, ?_⟩
  · rintro rfl
    exact absurd (h _ hc) (by decide)
  · rintro rfl
    exact absurd (h _ hc) (by decide)

theorem lineFree_token {v : Bytes} (h : ∀ c ∈ v, HttpHeader.isTokenChar c = true) : LineFree v := by
  refine lineFree_of_forall fun c hc => ⟨?_, (isTokenChar_not (h c hc)).2.2⟩
  rintro rfl
  exact absurd (h _ hc) (by decide)

theorem lineFree_decimalText (n : ℕ) : LineFree (decimalText n) :=
  lineFree_of_word fun c hc => isDigit_not_space ((isDecimal_decimalText n).2.1 c hc)

theorem lineFree_validValue {h : HttpHeader} (hv : h.isValid = true) : LineFree h.value := by
  have hall : ∀ c ∈ h.value, HttpHeader.isControl c = false := by
    simpa [HttpHeader.isValid, HttpHeader.isValidValue] using (Bool.and_eq_true_iff.mp hv).2
  refine lineFree_of_forall fun c hc => ⟨?_, ?_⟩
  · rintro rfl
    exact absurd (hall _ hc) (by decide)
  · rintro rfl
    exact absurd (hall _ hc) (by decide)

theorem LineFree.findCrlf {v : Bytes} (h : LineFree v) : findCrlf v = none := findCrlf_of_notMem h.2

theorem lineFree_nil : LineFree [] := by decide
theorem lineFree_comma : LineFree (ascii ", ") := by decide
theorem lineFree_colon : LineFree (ascii ": ") := by decide
theorem lineFree_space : LineFree (ascii " ") := by decide
theorem lineFree_version : LineFree (ascii " HTTP/1.1") := by decide
theorem lineFree_keepAlive : LineFree (ascii "keep-alive") := by decide

theorem lineFree_authority {target : ProxyTarget} (h : LineFree target.host) :
    LineFree target.authority := by
  have hcolon : LineFree [58] := by decide
  rw [ProxyTarget.authority, List.append_cons]
  exact lineFree_append.mpr ⟨lineFree_append.mpr ⟨h, hcolon⟩, lineFree_decimalText _⟩

theorem lineFree_host {target : ProxyTarget} (h : isValidHost target.host = true) :
    LineFree target.host := by
  simp only [isValidHost, Bool.and_eq_true, List.all_eq_true] at h
  refine lineFree_of_forall fun c hc => ⟨?_, ?_⟩
  · rintro rfl
    exact absurd (h.2 _ hc).1 (by decide)
  · rintro rfl
    exact absurd (h.2 _ hc).1 (by decide)

theorem lineFree_method (m : HttpMethod) : LineFree (httpMethodToString m) := by
  cases m <;> decide

/-! ### The request line -/

theorem stringToHttpMethod_toString {m : HttpMethod} (h : m ≠ .unknown) :
    stringToHttpMethod (httpMethodToString m) = m := by
  cases m with
  | unknown => exact (h rfl).elim
  | get => decide
  | head => decide
  | post => decide
  | put => decide
  | delete => decide
  | options => decide
  | patch => decide

theorem upstreamPath_word {target : Bytes} (h : ∀ c ∈ target, isSpace c = false)
    (pathPrefix : Bytes) (stripPrefix : Bool) :
    proxyUpstreamPath target pathPrefix stripPrefix ≠ [] ∧
      ∀ c ∈ proxyUpstreamPath target pathPrefix stripPrefix, isSpace c = false := by
  refine ⟨fun hnil => ?_, fun c hc => ?_⟩
  · have hhead := upstreamPath_head target pathPrefix stripPrefix
    rw [hnil] at hhead
    cases hhead
  · rcases mem_upstreamPath hc with rfl | hc
    · decide
    · exact h c hc

theorem exists_requestLine {request : HttpRequest} (h : request.Sound)
    (options : ProxyRequestOptions) : ∃ l : RequestLine, l.bytes = upstreamLine request options ∧
      l.method = request.method ∧
      l.target = proxyUpstreamPath request.target options.pathPrefix options.stripPrefix ∧
      l.version = ascii "HTTP/1.1" := by
  have hm := stringToHttpMethod_toString h.known
  have hspace : ascii " " = [32] := by decide
  have hversion : ascii " HTTP/1.1" = 32 :: (ascii "HTTP/" ++ [49, 46, 49]) := by decide
  refine ⟨⟨httpMethodToString request.method, _, 49, 49, by rw [hm]; exact h.known,
    upstreamPath_word h.target_word.2 options.pathPrefix options.stripPrefix, one_one_digits⟩,
    ?_, hm, rfl, show ascii "HTTP/" ++ [49, 46, 49] = ascii "HTTP/1.1" by decide⟩
  simp only [RequestLine.bytes, RequestLine.version, upstreamLine, hspace, hversion,
    List.append_assoc, List.cons_append, List.nil_append]

/-! ### The field lines -/

def fieldHeader (field : Bytes × Bytes) : HttpHeader := .ofField field.1 field.2

theorem exists_fieldLines {xs : List (Bytes × Bytes)}
    (h : ∀ x ∈ xs, x.1 ≠ [] ∧ ∀ c ∈ x.1, HttpHeader.isTokenChar c = true) :
    ∃ fs : List FieldLine, fs.map FieldLine.bytes = xs.map fieldText ∧
      fs.map (fun f => HttpHeader.ofField f.name f.value) = xs.map fieldHeader := by
  induction xs with
  | nil => exact ⟨[], rfl, rfl⟩
  | cons x xs ih =>
    obtain ⟨fs, hbytes, hheaders⟩ := ih fun y hy => h y (List.mem_cons_of_mem _ hy)
    have hcolon : ascii ": " = [58, 32] := by decide
    refine ⟨⟨[], x.1, [], 32 :: x.2, ows_nil, ows_nil, h x (List.mem_cons_self ..)⟩ :: fs, ?_, ?_⟩
    · rw [List.map_cons, List.map_cons, hbytes]
      congr 1
      simp only [FieldLine.bytes, fieldText, hcolon, List.nil_append, List.append_nil,
        List.append_assoc, List.cons_append]
    · rw [List.map_cons, List.map_cons, hheaders]
      rfl

/-! ### The fields written -/

section fields
variable {request : HttpRequest} (target : ProxyTarget) (options : ProxyRequestOptions)

theorem mem_forwardedHeaders {h : HttpHeader} {hs : HttpHeaders} : h ∈ forwardedHeaders hs ↔
    h ∈ hs ∧ isRegenerated h.normalizedName = false ∧ isHopByHopHeader h.normalizedName = false ∧
      h.isValid = true := by
  simp only [forwardedHeaders, List.mem_filter, Bool.and_eq_true, Bool.not_eq_true', and_assoc]

theorem mem_optionalField {name value : Bytes} {x : Bytes × Bytes} :
    x ∈ optionalField name value ↔ value ≠ [] ∧ x = (name, value) := by
  unfold optionalField
  split
  · rename_i h
    simp [h]
  · rename_i h
    simp [h]

theorem mem_upstreamFields {x : Bytes × Bytes} : x ∈ upstreamFields request target options ↔
    x = (ascii "Host", target.authority) ∨
    (forwardedFor request options ≠ [] ∧
      x = (ascii "X-Forwarded-For", forwardedFor request options)) ∨
    (options.forwardedProto ≠ [] ∧ x = (ascii "X-Forwarded-Proto", options.forwardedProto)) ∨
    (request.headers.get (ascii "Host") ≠ [] ∧
      x = (ascii "X-Forwarded-Host", request.headers.get (ascii "Host"))) ∨
    (∃ h ∈ forwardedHeaders request.headers, x = (h.name, h.value)) ∨
    ((request.body ≠ [] ∨ request.headers.has (ascii "Content-Length") = true) ∧
      x = (ascii "Content-Length", decimalText request.body.length)) ∨
    x = (ascii "Connection", ascii "keep-alive") := by
  have hlength : x ∈ (if request.body ≠ [] ∨ request.headers.has (ascii "Content-Length") = true then
      [(ascii "Content-Length", decimalText request.body.length)] else []) ↔
        (request.body ≠ [] ∨ request.headers.has (ascii "Content-Length") = true) ∧
          x = (ascii "Content-Length", decimalText request.body.length) := by
    split
    · rename_i h
      simp [h]
    · rename_i h
      simp [h]
  have hmap : x ∈ (forwardedHeaders request.headers).map (fun h => (h.name, h.value)) ↔
      ∃ h ∈ forwardedHeaders request.headers, x = (h.name, h.value) := by
    simp only [List.mem_map, eq_comm]
  simp only [upstreamFields, List.mem_append, hlength, hmap, mem_optionalField, List.mem_singleton,
    or_assoc]

theorem builderName_token : ∀ name ∈ [ascii "Host", ascii "X-Forwarded-For",
    ascii "X-Forwarded-Proto", ascii "X-Forwarded-Host", ascii "Content-Length", ascii "Connection"],
      name ≠ [] ∧ ∀ c ∈ name, HttpHeader.isTokenChar c = true := by decide

theorem upstreamFields_token (hr : request.Sound) : ∀ x ∈ upstreamFields request target options,
    x.1 ≠ [] ∧ ∀ c ∈ x.1, HttpHeader.isTokenChar c = true := by
  intro x hx
  rcases (mem_upstreamFields target options).mp hx with rfl | ⟨-, rfl⟩ | ⟨-, rfl⟩ | ⟨-, rfl⟩ |
    ⟨h, hh, rfl⟩ | ⟨-, rfl⟩ | rfl
  · exact builderName_token _ (by simp)
  · exact builderName_token _ (by simp)
  · exact builderName_token _ (by simp)
  · exact builderName_token _ (by simp)
  · exact hr.names h (mem_forwardedHeaders.mp hh).1
  · exact builderName_token _ (by simp)
  · exact builderName_token _ (by simp)

theorem keys_optionalField (name value : Bytes) :
    (((optionalField name value).map fieldHeader).map HttpHeader.normalizedName).Sublist
      [HttpHeader.normalizeName name] := by
  unfold optionalField
  split
  · exact List.nil_sublist _
  · exact List.Sublist.refl _

theorem upstreamFields_distinct (hr : request.Sound) :
    HttpHeaders.Distinct ((upstreamFields request target options).map fieldHeader) := by
  let middle := (forwardedHeaders request.headers).map HttpHeader.normalizedName
  let front : List Bytes := [ascii "host", ascii "x-forwarded-for", ascii "x-forwarded-proto",
    ascii "x-forwarded-host"]
  let back : List Bytes := [ascii "content-length", ascii "connection"]
  have hclass : ∀ k ∈ middle, isRegenerated k = false ∧ isHopByHopHeader k = false := by
    intro k hk
    obtain ⟨h, hh, rfl⟩ := List.mem_map.mp hk
    exact ⟨(mem_forwardedHeaders.mp hh).2.1, (mem_forwardedHeaders.mp hh).2.2.1⟩
  have hfront : ∀ k ∈ front, isRegenerated k = true ∧ k ∉ back := by decide
  have hback : ∀ k ∈ back, isRegenerated k = true ∨ isHopByHopHeader k = true := by decide
  -- all the names, every optional field among them
  have hkeys : (front ++ (middle ++ back)).Nodup := by
    have hmiddle : middle.Nodup := hr.distinct.sublist (List.filter_sublist.map _)
    refine List.nodup_append.mpr ⟨by decide, List.nodup_append.mpr ⟨hmiddle, by decide, ?_⟩, ?_⟩
    · rintro k hk l hl rfl
      obtain ⟨h1, h2⟩ := hclass k hk
      rcases hback k hl with hl | hl
      · rw [h1] at hl
        cases hl
      · rw [h2] at hl
        cases hl
    · rintro k hk l hl rfl
      rcases List.mem_append.mp hl with hl | hl
      · have hk := (hfront k hk).1
        rw [(hclass k hl).1] at hk
        cases hk
      · exact (hfront k hk).2 hl
  have hmap : ((((forwardedHeaders request.headers).map fun h => (h.name, h.value)).map
      fieldHeader).map HttpHeader.normalizedName) = middle := by
    simp only [List.map_map]
    rfl
  have hlength : (((if request.body ≠ [] ∨ request.headers.has (ascii "Content-Length") = true then
      [(ascii "Content-Length", decimalText request.body.length)] else []).map fieldHeader).map
        HttpHeader.normalizedName).Sublist [ascii "content-length"] := by
    split
    · exact List.Sublist.refl _
    · exact List.nil_sublist _
  have hshape : front ++ (middle ++ back) = [ascii "host"] ++ [ascii "x-forwarded-for"] ++
      [ascii "x-forwarded-proto"] ++ [ascii "x-forwarded-host"] ++ middle ++
      [ascii "content-length"] ++ [ascii "connection"] := by
    simp [front, back]
  rw [hshape] at hkeys
  refine hkeys.sublist ?_
  simp only [upstreamFields, List.map_append, hmap]
  exact (((((List.Sublist.refl _).append (keys_optionalField _ _)).append
    (keys_optionalField _ _)).append (keys_optionalField _ _)).append
      (List.Sublist.refl middle)).append hlength |>.append (List.Sublist.refl _)

end fields

/-! ### Lines without a CRLF inside -/

theorem get_unbroken {request : HttpRequest} (hr : request.Sound) (name : Bytes) :
    findCrlf (request.headers.get name) = none := by
  unfold HttpHeaders.get
  cases h : request.headers.findByName name with
  | none => rfl
  | some g => exact hr.unbroken g (HttpHeaders.mem_of_findByName h).1

theorem forwardedFor_unbroken {request : HttpRequest} (hr : request.Sound)
    {options : ProxyRequestOptions} (hip : LineFree options.clientIp) :
    findCrlf (forwardedFor request options) = none := by
  have hstored := get_unbroken hr (ascii "X-Forwarded-For")
  unfold forwardedFor
  simp only
  split
  · exact hstored
  split
  · exact hip.findCrlf
  · rw [List.append_assoc]
    have hrest : LineFree (ascii ", " ++ options.clientIp) := lineFree_append.mpr ⟨lineFree_comma, hip⟩
    exact Lines.findPair_join hstored hrest.findCrlf (Or.inr (by simp [ascii, LF]))

theorem fieldText_unbroken {x : Bytes × Bytes} (hn : ∀ c ∈ x.1, HttpHeader.isTokenChar c = true)
    (hv : findCrlf x.2 = none) : findCrlf (fieldText x) = none := by
  have hname : LineFree (x.1 ++ ascii ": ") := lineFree_append.mpr ⟨lineFree_token hn, lineFree_colon⟩
  exact Lines.findPair_join hname.findCrlf hv (Or.inl (by simp [ascii, CR]))

theorem upstreamFields_unbroken {request : HttpRequest} (hr : request.Sound) {target : ProxyTarget}
    (ht : LineFree target.host) {options : ProxyRequestOptions} (hip : LineFree options.clientIp)
    (hproto : LineFree options.forwardedProto) :
    ∀ x ∈ upstreamFields request target options, findCrlf (fieldText x) = none := by
  intro x hx
  refine fieldText_unbroken (upstreamFields_token target options hr x hx).2 ?_
  rcases (mem_upstreamFields target options).mp hx with rfl | ⟨-, rfl⟩ | ⟨-, rfl⟩ | ⟨-, rfl⟩ |
    ⟨h, hh, rfl⟩ | ⟨-, rfl⟩ | rfl
  · exact (lineFree_authority ht).findCrlf
  · exact forwardedFor_unbroken hr hip
  · exact hproto.findCrlf
  · exact get_unbroken hr _
  · exact hr.unbroken h (mem_forwardedHeaders.mp hh).1
  · exact (lineFree_decimalText _).findCrlf
  · exact lineFree_keepAlive.findCrlf

/-! ### Reading back -/

theorem lineBlock_bounds (lines : List Bytes) : lines.length ≤ (lineBlock lines).length ∧
    (lines.map List.length).sum ≤ (lineBlock lines).length := by
  induction lines with
  | nil => exact ⟨Nat.zero_le _, Nat.zero_le _⟩
  | cons line lines ih =>
    have hlen := congrArg List.length (lineBlock_cons line lines [])
    simp only [List.append_nil, List.length_append, List.length_cons, List.length_nil] at hlen
    rw [hlen, List.length_cons, List.map_cons, List.sum_cons]
    omega

/-- What a parser makes of the output. -/
def readBack (request : HttpRequest) (target : ProxyTarget) (options : ProxyRequestOptions) :
    HttpRequest where
  method := request.method
  target := proxyUpstreamPath request.target options.pathPrefix options.stripPrefix
  version := ascii "HTTP/1.1"
  headers := (upstreamFields request target options).map fieldHeader
  body := request.body

/-- The limits of a parser leave room for a request `out` with this body. -/
structure LargeEnough (config : ParserConfig) (out body : Bytes) : Prop where
  count : out.length ≤ config.maxHeaderCount
  total : out.length ≤ config.maxTotalHeaderBytes
  body : body.length ≤ config.maxBodyBytes

theorem exists_lines {request : HttpRequest} (hr : request.Sound) (target : ProxyTarget)
    (options : ProxyRequestOptions) : ∃ (l : RequestLine) (fs : List FieldLine),
      buildUpstreamRequest request target options =
        headBlock l.bytes (fs.map FieldLine.bytes) ++ request.body ∧
      l.method = request.method ∧
      l.target = proxyUpstreamPath request.target options.pathPrefix options.stripPrefix ∧
      l.version = ascii "HTTP/1.1" ∧
      fs.map FieldLine.bytes = (upstreamFields request target options).map fieldText ∧
      fs.foldl (fun (hs : HttpHeaders) f => hs.set f.name f.value) [] =
        (upstreamFields request target options).map fieldHeader := by
  obtain ⟨l, hbytes, hmethod, htarget, hversion⟩ := exists_requestLine hr options
  obtain ⟨fs, hfs, hheaders⟩ := exists_fieldLines (upstreamFields_token target options hr)
  have hdistinct := upstreamFields_distinct target options hr
  refine ⟨l, fs, ?_, hmethod, htarget, hversion, hfs, ?_⟩
  · rw [buildUpstreamRequest_eq, upstreamLines, ← hbytes, ← hfs, headBlock, lineBlock,
      List.flatMap_cons]
    simp only [List.append_assoc]
  · rw [HttpHeaders.foldl_set_distinct FieldLine.name FieldLine.value fs []
      (by rw [List.nil_append, hheaders]; exact hdistinct), List.nil_append, hheaders]

theorem mem_readBack {request : HttpRequest} (target : ProxyTarget)
    (options : ProxyRequestOptions) {g : HttpHeader}
    (hg : g ∈ (readBack request target options).headers) :
    g = .ofField (ascii "Host") target.authority ∨
    g.normalizedName ∈ [ascii "x-forwarded-for", ascii "x-forwarded-proto", ascii "x-forwarded-host"] ∨
    g ∈ forwardedHeaders request.headers ∨
    ((request.body ≠ [] ∨ request.headers.has (ascii "Content-Length") = true) ∧
      g = .ofField (ascii "Content-Length") (decimalText request.body.length)) ∨
    g = .ofField (ascii "Connection") (ascii "keep-alive") := by
  obtain ⟨x, hx, rfl⟩ := List.mem_map.mp hg
  have hnames : ∀ name ∈ [ascii "X-Forwarded-For", ascii "X-Forwarded-Proto",
      ascii "X-Forwarded-Host"], HttpHeader.normalizeName name ∈ [ascii "x-forwarded-for",
        ascii "x-forwarded-proto", ascii "x-forwarded-host"] := by decide
  rcases (mem_upstreamFields target options).mp hx with rfl | ⟨-, rfl⟩ | ⟨-, rfl⟩ | ⟨-, rfl⟩ |
    ⟨h, hh, rfl⟩ | ⟨hlen, rfl⟩ | rfl
  · exact Or.inl rfl
  · exact Or.inr (Or.inl (hnames _ (by simp [fieldHeader])))
  · exact Or.inr (Or.inl (hnames _ (by simp [fieldHeader])))
  · exact Or.inr (Or.inl (hnames _ (by simp [fieldHeader])))
  · refine Or.inr (Or.inr (Or.inl ?_))
    rw [fieldHeader, h.ofField_self]
    exact hh
  · exact Or.inr (Or.inr (Or.inr (Or.inl ⟨hlen, rfl⟩)))
  · exact Or.inr (Or.inr (Or.inr (Or.inr rfl)))

/-- A field read back under a name the builder regenerates is the builder's own. -/
theorem readBack_key {request : HttpRequest} {target : ProxyTarget}
    {options : ProxyRequestOptions} {g : HttpHeader}
    (hg : g ∈ (readBack request target options).headers) :
    (g.normalizedName = ascii "host" → g = .ofField (ascii "Host") target.authority) ∧
    (g.normalizedName = ascii "content-length" →
      (request.body ≠ [] ∨ request.headers.has (ascii "Content-Length") = true) ∧
        g = .ofField (ascii "Content-Length") (decimalText request.body.length)) ∧
    (isHopByHopHeader g.normalizedName = true →
      g = .ofField (ascii "Connection") (ascii "keep-alive")) := by
  rcases mem_readBack target options hg with rfl | hx | hf | ⟨hlen, rfl⟩ | rfl
  · exact ⟨fun _ => rfl, fun hk => absurd hk (by rw [HttpHeader.ofField_normalizedName]; decide),
      fun hk => absurd hk (by rw [HttpHeader.ofField_normalizedName]; decide)⟩
  · have hother : ∀ k ∈ [ascii "x-forwarded-for", ascii "x-forwarded-proto",
        ascii "x-forwarded-host"], k ≠ ascii "host" ∧ k ≠ ascii "content-length" ∧
          isHopByHopHeader k = false := by decide
    obtain ⟨h1, h2, h3⟩ := hother _ hx
    exact ⟨fun hk => (h1 hk).elim, fun hk => (h2 hk).elim, fun hk => by rw [h3] at hk; cases hk⟩
  · obtain ⟨-, hreg, hhop, -⟩ := mem_forwardedHeaders.mp hf
    refine ⟨fun hk => ?_, fun hk => ?_, fun hk => ?_⟩
    · rw [hk] at hreg
      exact absurd hreg (by decide)
    · rw [hk] at hreg
      exact absurd hreg (by decide)
    · rw [hhop] at hk
      cases hk
  · exact ⟨fun hk => absurd hk (by rw [HttpHeader.ofField_normalizedName]; decide),
      fun _ => ⟨hlen, rfl⟩, fun hk => absurd hk (by rw [HttpHeader.ofField_normalizedName]; decide)⟩
  · exact ⟨fun hk => absurd hk (by decide), fun hk => absurd hk (by decide), fun _ => rfl⟩

theorem readBack_contentLength {request : HttpRequest} (hr : request.Sound) (target : ProxyTarget)
    (options : ProxyRequestOptions) :
    (readBack request target options).getHeader (ascii "Content-Length") =
      if request.body ≠ [] ∨ request.headers.has (ascii "Content-Length") = true then
        decimalText request.body.length else [] := by
  have hdistinct := upstreamFields_distinct target options hr
  split
  · rename_i h
    have hm : fieldHeader (ascii "Content-Length", decimalText request.body.length) ∈
        (readBack request target options).headers :=
      List.mem_map_of_mem ((mem_upstreamFields target options).mpr (by simp [h]))
    rw [HttpRequest.getHeader]
    refine (HttpHeaders.get_of_mem hdistinct hm rfl).trans ?_
    exact trimWhitespace_digits (isDecimal_decimalText _).2.1
  · rename_i h
    have hnone : (readBack request target options).headers.findByName (ascii "Content-Length") =
        none := by
      refine HttpHeaders.findByName_eq_none.mpr fun g hg hk => ?_
      exact h ((readBack_key hg).2.1 (hk.trans contentLength_key)).1
    rw [HttpRequest.getHeader, HttpHeaders.get, hnone]

theorem drain_upstreamRequest {request : HttpRequest} (hr : request.Sound)
    (hbodied : request.body ≠ [] → request.requiresBody = true) {target : ProxyTarget}
    (ht : LineFree target.host) {options : ProxyRequestOptions} (hip : LineFree options.clientIp)
    (hproto : LineFree options.forwardedProto) {config : ParserConfig}
    (hlarge : LargeEnough config (buildUpstreamRequest request target options) request.body) :
    ∃ c : Core, requestMachine.drain (Core.fresh config)
        (buildUpstreamRequest request target options) = (c, []) ∧
      c.state = .complete ∧ c.request = readBack request target options := by
  obtain ⟨l, fs, hout, hmethod, htarget, hversion, hfs, hheaders⟩ := exists_lines hr target options
  have hcrlf : ∀ f ∈ fs, findCrlf f.bytes = none := by
    intro f hf
    have hm : f.bytes ∈ (upstreamFields request target options).map fieldText :=
      hfs ▸ List.mem_map_of_mem hf
    obtain ⟨x, hx, hxf⟩ := List.mem_map.mp hm
    rw [← hxf]
    exact upstreamFields_unbroken hr ht hip hproto x hx
  have hbound := lineBlock_bounds (fs.map FieldLine.bytes)
  have hlen := congrArg List.length hout
  rw [headBlock, List.length_append, List.length_append] at hlen
  rw [List.length_map, List.map_map] at hbound
  have hcount : fs.length ≤ config.maxHeaderCount :=
    (hbound.1.trans (by omega)).trans hlarge.count
  have htotal : (fs.map fun f => f.bytes.length).sum ≤ config.maxTotalHeaderBytes :=
    (hbound.2.trans (by omega)).trans hlarge.total
  rw [hout, drain_lines l fs hcrlf hcount htotal]
  -- the core in front of the body
  generalize hc : fs.foldl Core.store ((Core.fresh config).onRequestLine l.bytes) = c
  have hconfig : c.config = config := by
    rw [← hc, foldl_store_config, onRequestLine_bytes]
    rfl
  have hreq : c.request = { readBack request target options with body := [] } := by
    rw [← hc, foldl_store_request, onRequestLine_bytes]
    simp only [hheaders, hmethod, htarget, hversion, readBack]
  have hread : (c.request.hasBody || c.request.requiresBody) = request.requiresBody := by
    rw [hreq]
    rfl
  unfold endOfHeaders
  rw [hread]
  cases hrb : request.requiresBody with
  | false =>
    have hnil : request.body = [] := by
      by_contra hne
      rw [hbodied hne] at hrb
      cases hrb
    rw [if_neg Bool.false_ne_true, hnil]
    refine ⟨_, drain_blocked (step_complete rfl _), rfl, ?_⟩
    rw [readBack, hnil]
    exact hreq.trans (by rw [readBack])
  | true =>
    rw [if_pos rfl]
    have hget : c.request.getHeader (ascii "Content-Length") =
        (readBack request target options).getHeader (ascii "Content-Length") := by
      rw [hreq]
      rfl
    rw [readBack_contentLength hr target options] at hget
    have hstep : ∃ d : Core, ({ c with state := .body } : Core).step request.body = some (d, []) ∧
        d.state = .complete ∧ d.request = readBack request target options := by
      simp only [step]
      split at hget
      · have hdec : IsDecimal (c.request.getHeader (ascii "Content-Length")) request.body.length :=
          hget ▸ isDecimal_decimalText _
        have hle : request.body.length ≤ c.config.maxBodyBytes := hconfig ▸ hlarge.body
        have hbody := onBody_declared (c := { c with state := .body }) hdec hle rfl []
        rw [List.append_nil] at hbody
        exact ⟨_, hbody, rfl, by simp only [hreq]; rfl⟩
      · rename_i hno
        have hnil : request.body = [] := by
          by_contra hne
          exact hno (Or.inl hne)
        refine ⟨_, by rw [hnil]; exact onBody_none (c := { c with state := .body }) hget [], rfl, ?_⟩
        simp only [hreq, readBack, hnil]
    obtain ⟨d, hd, hcomplete, hrequest⟩ := hstep
    rw [drain_step hd]
    exact ⟨d, drain_blocked (step_complete hcomplete _), hcomplete, hrequest⟩

/-- `r`, read back from `out`, says what the client's request said: the fields stored are
those on the wire, one for each line, and of the client's all that are end to end and
valid are among them. -/
structure SaysTheSame (request : HttpRequest) (upstream : ProxyTarget)
    (options : ProxyRequestOptions) (out : Bytes) (r : HttpRequest) : Prop where
  method : r.method = request.method
  target : r.target = proxyUpstreamPath request.target options.pathPrefix options.stripPrefix
  body : r.body = request.body
  wire : ∃ first lines, Http.HeadLines out first lines ∧
    lines.map fieldKey = r.headers.map HttpHeader.normalizedName
  host : (r.headers.filter fun h => h.normalizedName == ascii "host").map (·.value) =
    [upstream.authority]
  length : ∀ h ∈ r.headers, h.normalizedName = ascii "content-length" →
    h.value = decimalText request.body.length
  hopByHop : ∀ h ∈ r.headers, isHopByHopHeader h.normalizedName = true →
    h.name = ascii "Connection" ∧ h.value = ascii "keep-alive"
  kept : ∀ h ∈ request.headers, isRegenerated h.normalizedName = false →
    isHopByHopHeader h.normalizedName = false → h.isValid = true → h ∈ r.headers

theorem fieldKey_fieldText {x : Bytes × Bytes} (h : ∀ c ∈ x.1, HttpHeader.isTokenChar c = true) :
    fieldKey (fieldText x) = HttpHeader.normalizeName x.1 := by
  have hall : ∀ c ∈ x.1, (c != 58) = true := fun c hc =>
    bne_iff_ne.mpr (isTokenChar_not (h c hc)).2.1
  have hcolon : ascii ": " = [58, 32] := by decide
  rw [fieldKey, fieldText, hcolon, List.append_assoc, List.takeWhile_append_of_pos hall]
  simp

theorem wire_upstreamRequest {request : HttpRequest} (hr : request.Sound) {target : ProxyTarget}
    (ht : LineFree target.host) {options : ProxyRequestOptions} (hip : LineFree options.clientIp)
    (hproto : LineFree options.forwardedProto) : ∃ first lines,
      Http.HeadLines (buildUpstreamRequest request target options) first lines ∧
        lines.map fieldKey =
          (readBack request target options).headers.map HttpHeader.normalizedName := by
  obtain ⟨l, fs, hout, -, -, -, hfs, -⟩ := exists_lines hr target options
  refine ⟨l.bytes, fs.map FieldLine.bytes, ⟨⟨request.body, hout.symm⟩, l.findCrlf_bytes, ?_⟩, ?_⟩
  · rw [hfs]
    intro line hline
    obtain ⟨x, hx, rfl⟩ := List.mem_map.mp hline
    exact ⟨by simp [fieldText, ascii], upstreamFields_unbroken hr ht hip hproto x hx⟩
  · rw [hfs, readBack, List.map_map, List.map_map]
    refine List.map_congr_left fun x hx => ?_
    exact fieldKey_fieldText (upstreamFields_token target options hr x hx).2

theorem readBack_saysTheSame {request : HttpRequest} (hr : request.Sound) {target : ProxyTarget}
    (ht : isValidHost target.host = true) {options : ProxyRequestOptions}
    (hip : LineFree options.clientIp) (hproto : LineFree options.forwardedProto) :
    SaysTheSame request target options (buildUpstreamRequest request target options)
      (readBack request target options) := by
  have hdistinct := upstreamFields_distinct target options hr
  refine ⟨rfl, rfl, rfl, wire_upstreamRequest hr (lineFree_host ht) hip hproto, ?_, ?_, ?_, ?_⟩
  · have hrest : ((((upstreamFields request target options).drop 1).map fieldHeader).filter
        fun h => h.normalizedName == ascii "host") = [] := by
      refine List.filter_eq_nil_iff.mpr fun g hg hk => ?_
      have htail := (List.nodup_cons.mp hdistinct).1
      refine htail (List.mem_map.mpr ⟨g, hg, ?_⟩)
      exact beq_iff_eq.mp hk
    have hfirst : (readBack request target options).headers =
        .ofField (ascii "Host") target.authority ::
          ((upstreamFields request target options).drop 1).map fieldHeader := rfl
    rw [hfirst, List.filter_cons_of_pos (by simp; decide), hrest, List.map_singleton,
      HttpHeader.ofField_value, trimmed_authority ht]
  · intro g hg hk
    rw [((readBack_key hg).2.1 hk).2]
    exact trimWhitespace_digits (isDecimal_decimalText _).2.1
  · intro g hg hk
    rw [(readBack_key hg).2.2 hk]
    exact ⟨rfl, by decide⟩
  · intro g hg h1 h2 h3
    have hm : g ∈ forwardedHeaders request.headers := mem_forwardedHeaders.mpr ⟨hg, h1, h2, h3⟩
    refine List.mem_map.mpr ⟨(g.name, g.value), ?_, g.ofField_self⟩
    exact (mem_upstreamFields target options).mpr
      (Or.inr (Or.inr (Or.inr (Or.inr (Or.inl ⟨g, hm, rfl⟩)))))

theorem feed_upstreamRequest {request : HttpRequest} (hr : request.Sound)
    (hbodied : request.body ≠ [] → request.requiresBody = true) {target : ProxyTarget}
    (ht : LineFree target.host) {options : ProxyRequestOptions} (hip : LineFree options.clientIp)
    (hproto : LineFree options.forwardedProto) {config : ParserConfig}
    (hlarge : LargeEnough config (buildUpstreamRequest request target options) request.body) :
    ∃ c : Core, (HttpRequestParser.fresh config).feed (buildUpstreamRequest request target options) =
        ⟨c, []⟩ ∧ c.state = .complete ∧ c.request = readBack request target options := by
  obtain ⟨c, hdrain, hcomplete, hrequest⟩ := drain_upstreamRequest hr hbodied ht hip hproto hlarge
  refine ⟨c, ?_, hcomplete, hrequest⟩
  rw [feed_refines _ (fun h => by cases h) (fun h => by cases h)]
  generalize buildUpstreamRequest request target options = out at hdrain
  have hin : requestGuard.exceeds c [] = false := by
    change c.overLimit [] = false
    rw [overLimit, hcomplete]
  have hfeed : requestGuard.feed (Core.fresh config, []) out = (c, []) := by
    change requestGuard.settle (requestMachine.drain (Core.fresh config) ([] ++ out)) = _
    rw [List.nil_append, hdrain, Guard.settle, hin, if_neg Bool.false_ne_true]
  exact congrArg ofConfig hfeed

/-- **The upstream request says what the client said.** Whatever request a parser
completes, and whatever upstream is configured, a parser with room for the request sent
upstream completes on it with nothing left over, and reads the client's message. -/
theorem upstream_reads {config : ParserConfig} {ds : List Bytes}
    (hdone : (run config ds).isComplete = true) {value : Bytes} {target : ProxyTarget}
    (htarget : parseProxyTarget value = .ok target) {options : ProxyRequestOptions}
    (hip : LineFree options.clientIp) (hproto : LineFree options.forwardedProto) :
    let request := (run config ds).takeRequest.1
    let out := buildUpstreamRequest request target options
    ∀ config' : ParserConfig, LargeEnough config' out request.body →
      let p := (HttpRequestParser.fresh config').feed out
      p.isComplete = true ∧ p.buffer = [] ∧ SaysTheSame request target options out p.request := by
  intro request out config' hlarge
  obtain ⟨hr, hbodied⟩ := sound_of_complete hdone
  have hhost := isValidHost_of_parse htarget
  obtain ⟨c, hfeed, hcomplete, hrequest⟩ :=
    feed_upstreamRequest hr hbodied (lineFree_host hhost) hip hproto hlarge
  simp only
  rw [hfeed]
  refine ⟨beq_iff_eq.mpr hcomplete, rfl, ?_⟩
  simp only
  rw [hrequest]
  exact readBack_saysTheSame hr hhost hip hproto

/-- What a client behind another proxy sends. -/
def clientPost : Bytes := ascii "POST /api HTTP/1.1\r\nHost: a.b\r\nConnection: close\r\n" ++
  ascii "X-Forwarded-For: 10.1.1.1\r\nContent-Length: 2\r\n\r\nhi"

/-- Options that strip `/api`. -/
def stripApi : ProxyRequestOptions :=
  { pathPrefix := ascii "/api", forwardedProto := ascii "http", clientIp := ascii "10.0.0.7" }

/-- The request stored for `clientPost`. -/
def postRequest : HttpRequest where
  method := .post
  target := ascii "/api"
  headers := [.ofField (ascii "Host") (ascii "a.b"), .ofField (ascii "Connection") (ascii "close"),
    .ofField (ascii "X-Forwarded-For") (ascii "10.1.1.1"),
    .ofField (ascii "Content-Length") (ascii "2")]
  body := ascii "hi"

theorem clientPost_run : (run .default [clientPost]).isComplete = true ∧
    (run .default [clientPost]).takeRequest.1 = postRequest := by decide

theorem upstream_reads_post :
    let out := buildUpstreamRequest (run .default [clientPost]).takeRequest.1
      ⟨ascii "127.0.0.1", 9001⟩ stripApi
    out = ascii "POST / HTTP/1.1\r\nHost: 127.0.0.1:9001\r\n" ++
      ascii "X-Forwarded-For: 10.1.1.1, 10.0.0.7\r\nX-Forwarded-Proto: http\r\n" ++
      ascii "X-Forwarded-Host: a.b\r\nContent-Length: 2\r\nConnection: keep-alive\r\n\r\nhi" ∧
    SaysTheSame (run .default [clientPost]).takeRequest.1 ⟨ascii "127.0.0.1", 9001⟩ stripApi out
      ((HttpRequestParser.fresh { maxHeaderCount := 1000 }).feed out).request := by
  have hlarge : LargeEnough { maxHeaderCount := 1000 } (buildUpstreamRequest
      (run .default [clientPost]).takeRequest.1 ⟨ascii "127.0.0.1", 9001⟩ stripApi)
      (run .default [clientPost]).takeRequest.1.body := by
    rw [clientPost_run.2]
    exact ⟨by decide +kernel, by decide +kernel, by decide +kernel⟩
  have htarget : parseProxyTarget (ascii "127.0.0.1:9001") = .ok ⟨ascii "127.0.0.1", 9001⟩ := by
    decide
  refine ⟨?_, (upstream_reads clientPost_run.1 htarget (by decide) (by decide) _ hlarge).2.2⟩
  rw [clientPost_run.2]
  decide +kernel

/-! ### Whose line ends they are -/

/-- No line has a CR or an LF of its own: those of the head are the builder's. -/
def OwnTerminators (lines : List Bytes) : Prop := ∀ line ∈ lines, LineFree line

instance (lines : List Bytes) : Decidable (OwnTerminators lines) := by
  unfold OwnTerminators
  infer_instance

theorem lineFree_upstreamLine {request : HttpRequest} (hr : request.Sound)
    (options : ProxyRequestOptions) : LineFree (upstreamLine request options) := by
  have hpath := (upstreamPath_word hr.target_word.2 options.pathPrefix options.stripPrefix).2
  rw [upstreamLine]
  simp only [lineFree_append]
  exact ⟨⟨⟨lineFree_method _, lineFree_space⟩, lineFree_of_word hpath⟩, lineFree_version⟩

theorem lineFree_fieldText {x : Bytes × Bytes} (hn : ∀ c ∈ x.1, HttpHeader.isTokenChar c = true) :
    LineFree (fieldText x) ↔ LineFree x.2 := by
  rw [fieldText, lineFree_append, lineFree_append]
  exact and_iff_right ⟨lineFree_token hn, lineFree_colon⟩

theorem lineFree_forwardedFor {request : HttpRequest} {options : ProxyRequestOptions}
    (hip : LineFree options.clientIp) : LineFree (forwardedFor request options) ↔
      LineFree (request.headers.get (ascii "X-Forwarded-For")) := by
  unfold forwardedFor
  simp only
  split
  · exact Iff.rfl
  split
  · rename_i h
    rw [h]
    exact iff_of_true hip lineFree_nil
  · rw [lineFree_append, lineFree_append]
    exact ⟨fun h => h.1.1, fun h => ⟨⟨h, lineFree_comma⟩, hip⟩⟩

/-- The lines for a sound request end where the builder ends them, unless a value it does
not validate comes with a CR or an LF. -/
theorem ownTerminators_sound {request : HttpRequest} (hr : request.Sound) {target : ProxyTarget}
    (ht : LineFree target.host) {options : ProxyRequestOptions} (hip : LineFree options.clientIp)
    (hproto : LineFree options.forwardedProto) :
    OwnTerminators (upstreamLines request target options) ↔
      LineFree (request.headers.get (ascii "Host")) ∧
        LineFree (request.headers.get (ascii "X-Forwarded-For")) := by
  have htext : ∀ x ∈ upstreamFields request target options, LineFree (fieldText x) ↔ LineFree x.2 :=
    fun x hx => lineFree_fieldText (upstreamFields_token target options hr x hx).2
  constructor
  · intro h
    have hvalue : ∀ x ∈ upstreamFields request target options, LineFree x.2 := fun x hx =>
      (htext x hx).mp (h _ (List.mem_cons_of_mem _ (List.mem_map_of_mem hx)))
    constructor
    · by_cases hnil : request.headers.get (ascii "Host") = []
      · rw [hnil]
        exact lineFree_nil
      · exact hvalue _ ((mem_upstreamFields target options).mpr
          (Or.inr (Or.inr (Or.inr (Or.inl ⟨hnil, rfl⟩)))))
    · refine (lineFree_forwardedFor hip).mp ?_
      by_cases hnil : forwardedFor request options = []
      · rw [hnil]
        exact lineFree_nil
      · exact hvalue _ ((mem_upstreamFields target options).mpr (Or.inr (Or.inl ⟨hnil, rfl⟩)))
  · rintro ⟨hhost, hfor⟩ line hline
    rcases List.mem_cons.mp hline with rfl | hline
    · exact lineFree_upstreamLine hr options
    obtain ⟨x, hx, rfl⟩ := List.mem_map.mp hline
    refine (htext x hx).mpr ?_
    rcases (mem_upstreamFields target options).mp hx with rfl | ⟨-, rfl⟩ | ⟨-, rfl⟩ | ⟨-, rfl⟩ |
      ⟨g, hg, rfl⟩ | ⟨-, rfl⟩ | rfl
    · exact lineFree_authority ht
    · exact (lineFree_forwardedFor hip).mpr hfor
    · exact hproto
    · exact hhost
    · exact lineFree_validValue (mem_forwardedHeaders.mp hg).2.2.2
    · exact lineFree_decimalText _
    · exact lineFree_keepAlive

/-- **Whose line ends they are.** The output is the builder's lines with their CRLFs, the
empty line and the body; no line has a CR or an LF of its own exactly when the stored values
of `Host` and `X-Forwarded-For`, which go out unvalidated, have none. -/
theorem ownTerminators_iff {config : ParserConfig} {ds : List Bytes}
    (hdone : (run config ds).isComplete = true) {target : ProxyTarget}
    (ht : LineFree target.host) {options : ProxyRequestOptions} (hip : LineFree options.clientIp)
    (hproto : LineFree options.forwardedProto) :
    let request := (run config ds).takeRequest.1
    let lines := upstreamLines request target options
    buildUpstreamRequest request target options =
        lines.flatMap (· ++ crlf) ++ crlf ++ request.body ∧
      (OwnTerminators lines ↔ LineFree (request.headers.get (ascii "Host")) ∧
        LineFree (request.headers.get (ascii "X-Forwarded-For"))) :=
  ⟨buildUpstreamRequest_eq _ _ _,
    ownTerminators_sound (sound_of_complete hdone).1 ht hip hproto⟩

theorem ownTerminators_iff_post : OwnTerminators (upstreamLines
    (run .default [clientPost]).takeRequest.1 ⟨ascii "127.0.0.1", 9001⟩ stripApi) := by
  refine (ownTerminators_iff clientPost_run.1 (by decide) (by decide) (by decide)).2.mpr ?_
  rw [clientPost_run.2]
  exact ⟨by decide, by decide⟩

/-- A `Host` value with an LF inside. -/
def brokenHost : Bytes := ascii "GET /api HTTP/1.1\r\nHost: a\nEvil: b\r\n\r\n"

theorem brokenHost_run : (run .default [brokenHost]).isComplete = true ∧
    (run .default [brokenHost]).takeRequest.1 = { target := ascii "/api", headers :=
      [.ofField (ascii "Host") (ascii "a\nEvil: b")] } := by decide

/-- The LF goes upstream as it came. -/
theorem brokenHost_not_own :
    buildUpstreamRequest (run .default [brokenHost]).takeRequest.1 ⟨ascii "127.0.0.1", 9001⟩ stripApi =
      ascii "GET / HTTP/1.1\r\nHost: 127.0.0.1:9001\r\nX-Forwarded-For: 10.0.0.7\r\n" ++
        ascii "X-Forwarded-Proto: http\r\nX-Forwarded-Host: a\nEvil: b\r\n" ++
        ascii "Connection: keep-alive\r\n\r\n" ∧
    ¬∀ (config : ParserConfig) (ds : List Bytes) (target : ProxyTarget)
        (options : ProxyRequestOptions), (run config ds).isComplete = true →
      LineFree target.host → LineFree options.pathPrefix → LineFree options.forwardedProto →
      LineFree options.clientIp →
        OwnTerminators (upstreamLines (run config ds).takeRequest.1 target options) := by
  refine ⟨by rw [brokenHost_run.2]; decide, fun h => ?_⟩
  have hown := h .default [brokenHost] ⟨ascii "127.0.0.1", 9001⟩ stripApi brokenHost_run.1
    (by decide) (by decide) (by decide) (by decide)
  rw [brokenHost_run.2] at hown
  exact absurd hown (by decide)

end Aevrix.Proxy
