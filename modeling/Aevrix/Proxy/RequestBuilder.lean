import Aevrix.Http.Request
import Aevrix.Proxy.UpstreamPool

/-!
# The request sent upstream (`proxy_target.cpp`, `proxy_request_builder.cpp`)

The upstream endpoint as it is parsed from `proxy_pass`, and what is written to it for a
client request: a new request line, the forwarding fields, the end-to-end fields, the
framing, the body.
-/

namespace Aevrix.Proxy
open Aevrix.Http

/-! ### The upstream endpoint -/

/-- `is_valid_host` (`proxy_target.cpp:58-75`). -/
def isValidHost (host : Bytes) : Bool := !host.isEmpty && host.all fun c =>
  !(decide (c ≤ 32) || c == 127) && decide (c ∉ ascii "/\\?#@")

/-- `parse_port` (`proxy_target.cpp:84-105`). -/
def parsePort (text : Bytes) : Except Bytes UInt16 :=
  let invalid := ascii "invalid port '" ++ text ++ ascii "' in proxy_pass"
  if text = [] ∨ 5 < text.length then .error invalid
  else if !text.all isDigit then .error invalid
  else if decimalValue text = 0 ∨ 65535 < decimalValue text then
    .error (ascii "port '" ++ text ++ ascii "' out of range in proxy_pass")
  else .ok (UInt16.ofNat (decimalValue text))

/-- The text in front of the first `://` and the text behind it. -/
def splitScheme : Bytes → Option (Bytes × Bytes)
  | [] => none
  | c :: text =>
    if (ascii "://").isPrefixOf (c :: text) then some ([], text.drop 2)
    else (splitScheme text).map fun x => (c :: x.1, x.2)

/-- Host and port text of an authority (`proxy_target.cpp:154-190`). -/
def splitAuthority (text : Bytes) : Except Bytes (Bytes × Bytes) := match text with
  | 91 :: address =>
    if 93 ∉ address then .error (ascii "unterminated IPv6 literal in proxy_pass")
    else
      let host := address.takeWhile (· != 93)
      match (address.dropWhile (· != 93)).drop 1 with
      | [] => .ok (host, [])
      | 58 :: portText => .ok (host, portText)
      | _ => .error (ascii "malformed proxy_pass authority '" ++ text ++ ascii "'")
  | _ =>
    if 58 ∉ text then .ok (text, [])
    else if text.count 58 = 1 then
      .ok (text.takeWhile (· != 58), (text.dropWhile (· != 58)).drop 1)
    else .error (ascii "IPv6 proxy_pass targets must use the [address]:port form")

/-- The authority of a target: without scheme, path, query and fragment. -/
def authorityText (text : Bytes) : Except Bytes Bytes :=
  let cut := fun text : Bytes => text.takeWhile fun c => decide (c ∉ ascii "/?#")
  match splitScheme text with
  | none => .ok (cut text)
  | some (scheme, rest) =>
    let scheme := scheme.map toLower
    if scheme = ascii "http" then .ok (cut rest)
    else .error (ascii "unsupported proxy_pass scheme '" ++ scheme ++
      ascii "' (only http:// upstreams are supported)")

/-- `parse_proxy_target` (`proxy_target.cpp:117-214`). -/
def parseProxyTarget (value : Bytes) : Except Bytes ProxyTarget :=
  let text := trimWhitespace value
  if text = [] then .error (ascii "proxy_pass is empty")
  else do
    let text ← authorityText text
    if text = [] then throw (ascii "proxy_pass has no host component")
    let (host, portText) ← splitAuthority text
    if !isValidHost host then throw (ascii "invalid host '" ++ host ++ ascii "' in proxy_pass")
    if portText = [] then return ⟨host, 80⟩
    let port ← parsePort portText
    return ⟨host, port⟩

/-- The port text of a target: none for port 80, or the digits. -/
def PortRead (portText : Bytes) (port : UInt16) : Prop :=
  portText = [] ∧ port = 80 ∨ portText ≠ [] ∧ parsePort portText = .ok port

theorem of_parse {value : Bytes} {target : ProxyTarget} (h : parseProxyTarget value = .ok target) :
    ∃ text portText, authorityText (trimWhitespace value) = .ok text ∧
      splitAuthority text = .ok (target.host, portText) ∧ isValidHost target.host = true ∧
      PortRead portText target.port := by
  unfold parseProxyTarget at h
  simp only at h
  split at h
  · cases h
  cases hauthority : authorityText (trimWhitespace value) with
  | error e =>
    rw [hauthority] at h
    cases h
  | ok text =>
    rw [hauthority] at h
    change (if text = [] then throw _ else _) = _ at h
    split at h
    · cases h
    change (splitAuthority text >>= _) = _ at h
    cases hsplit : splitAuthority text with
    | error e =>
      rw [hsplit] at h
      cases h
    | ok x =>
      obtain ⟨host, portText⟩ := x
      rw [hsplit] at h
      change (if !isValidHost host then throw _ else _) = _ at h
      split at h
      · cases h
      rename_i hhost
      rw [Bool.not_eq_true, Bool.not_eq_false'] at hhost
      change (if portText = [] then _ else _) = _ at h
      split at h
      · rename_i hnone
        rw [← Except.ok.inj h]
        exact ⟨text, portText, rfl, hsplit, hhost, Or.inl ⟨hnone, rfl⟩⟩
      rename_i hsome
      change (parsePort portText >>= _) = _ at h
      cases hport : parsePort portText with
      | error e =>
        rw [hport] at h
        cases h
      | ok port =>
        rw [hport] at h
        rw [← Except.ok.inj h]
        exact ⟨text, portText, rfl, hsplit, hhost, Or.inr ⟨hsome, hport⟩⟩

theorem isValidHost_of_parse {value : Bytes} {target : ProxyTarget}
    (h : parseProxyTarget value = .ok target) : isValidHost target.host = true := by
  obtain ⟨-, -, -, -, hhost, -⟩ := of_parse h
  exact hhost

theorem trimmed_authority {target : ProxyTarget} (h : isValidHost target.host = true) :
    trimWhitespace target.authority = target.authority := by
  refine trimBy_of_none fun c hc => ?_
  simp only [isValidHost, Bool.and_eq_true, List.all_eq_true] at h
  rw [ProxyTarget.authority, List.mem_append, List.mem_cons] at hc
  have hlow : ∀ d : Byte, 32 < d → isTrimmable d = false := by
    intro d hd
    unfold isTrimmable
    grind
  rcases hc with hc | rfl | hc
  · have hbyte := (h.2 c hc).1
    rw [Bool.not_eq_true', Bool.or_eq_false_iff, decide_eq_false_iff_not] at hbyte
    exact hlow c (UInt8.not_le.mp hbyte.1)
  · decide
  · have hdigit := (isDecimal_decimalText _).2.1 c hc
    unfold isDigit at hdigit
    unfold isTrimmable
    grind

example : (parseProxyTarget (ascii " HTTP://[::1]:8080/api ")).toOption =
    some ⟨ascii "::1", 8080⟩ := by decide

/-! ### The request target -/

structure ProxyRequestOptions where
  pathPrefix : Bytes := []
  stripPrefix : Bool := true
  forwardedProto : Bytes := []
  clientIp : Bytes := []

/-- `split_target`: the path, and the query with its question mark. -/
def splitTarget (target : Bytes) : Bytes × Bytes :=
  (target.takeWhile (· != 63), target.dropWhile (· != 63))

/-- `proxy_target_matches` (`proxy_request_builder.cpp:48-76`). -/
def proxyTargetMatches (clientTarget pathPrefix : Bytes) : Bool :=
  if pathPrefix = [] then false
  else if pathPrefix = ascii "/" then clientTarget.head? == some 47
  else
    let (path, _) := splitTarget clientTarget
    if !pathPrefix.isPrefixOf path then false
    else if path.length = pathPrefix.length then true
    else if pathPrefix.getLast? = some 47 then true
    else path[pathPrefix.length]? == some 47

/-- `proxy_upstream_path` (`proxy_request_builder.cpp:78-102`). -/
def proxyUpstreamPath (clientTarget pathPrefix : Bytes) (stripPrefix : Bool) : Bytes :=
  let (path, query) := splitTarget clientTarget
  let path := if path = [] then ascii "/" else path
  let path :=
    if stripPrefix ∧ pathPrefix ≠ [] ∧ pathPrefix ≠ ascii "/" ∧ pathPrefix.isPrefixOf path then
      path.drop pathPrefix.length
    else path
  let path := if path.head? = some 47 then path else 47 :: path
  path ++ query

theorem mem_of_mem_ite {P : Prop} [Decidable P] {c : Byte} {a b : Bytes}
    (h : c ∈ if P then a else b) : c ∈ a ∨ c ∈ b := by
  split at h
  · exact Or.inl h
  · exact Or.inr h

theorem mem_upstreamPath {clientTarget pathPrefix : Bytes} {stripPrefix : Bool} {c : Byte}
    (h : c ∈ proxyUpstreamPath clientTarget pathPrefix stripPrefix) :
    c = 47 ∨ c ∈ clientTarget := by
  simp only [proxyUpstreamPath, splitTarget, List.mem_append] at h
  rcases h with h | h
  · have hslash : ∀ {p : Bytes}, c ∈ p ∨ c ∈ 47 :: p → c = 47 ∨ c ∈ p := by
      rintro p (hp | hp)
      · exact Or.inr hp
      · exact List.mem_cons.mp hp
    rcases hslash (mem_of_mem_ite h) with h | h
    · exact Or.inl h
    have hpath := (mem_of_mem_ite h).elim List.mem_of_mem_drop id
    rcases mem_of_mem_ite hpath with h | h
    · exact Or.inl (List.mem_singleton.mp h)
    · exact Or.inr ((List.takeWhile_prefix _).subset h)
  · exact Or.inr ((List.dropWhile_suffix _).subset h)

theorem upstreamPath_head (clientTarget pathPrefix : Bytes) (stripPrefix : Bool) :
    (proxyUpstreamPath clientTarget pathPrefix stripPrefix).head? = some 47 := by
  have hslash : ∀ p : Bytes, (if p.head? = some 47 then p else 47 :: p).head? = some 47 := by
    intro p
    split
    · assumption
    · rfl
  simp only [proxyUpstreamPath]
  rw [List.head?_append, hslash]
  rfl

/-- `is_hop_by_hop_header` (`proxy_request_builder.cpp:17-26, 104-111`). -/
def isHopByHopHeader (normalizedName : Bytes) : Bool :=
  normalizedName ∈ [ascii "connection", ascii "keep-alive", ascii "proxy-authenticate",
    ascii "proxy-authorization", ascii "te", ascii "trailer", ascii "transfer-encoding",
    ascii "upgrade"]

/-- The fields written anew, or made part of a new one. -/
def isRegenerated (normalizedName : Bytes) : Bool :=
  normalizedName ∈ [ascii "host", ascii "content-length", ascii "x-forwarded-for",
    ascii "x-forwarded-proto", ascii "x-forwarded-host"]

/-- The value of `X-Forwarded-For`: what the client sent, then the client's address. -/
def forwardedFor (request : HttpRequest) (options : ProxyRequestOptions) : Bytes :=
  let forwarded := request.headers.get (ascii "X-Forwarded-For")
  if options.clientIp = [] then forwarded
  else if forwarded = [] then options.clientIp
  else forwarded ++ ascii ", " ++ options.clientIp

/-- One field of the client, as it is written on. -/
def forwardHeader (header : HttpHeader) : Bytes :=
  if isRegenerated header.normalizedName then []
  else if isHopByHopHeader header.normalizedName then []
  else if !header.isValid then []
  else header.name ++ ascii ": " ++ header.value ++ crlf

/-- `build_upstream_request` (`proxy_request_builder.cpp:117-221`). -/
def buildUpstreamRequest (request : HttpRequest) (target : ProxyTarget)
    (options : ProxyRequestOptions) : Bytes :=
  let forwardedFor := forwardedFor request options
  let inboundHost := request.headers.get (ascii "Host")
  httpMethodToString request.method ++ ascii " " ++
    proxyUpstreamPath request.target options.pathPrefix options.stripPrefix ++
    ascii " HTTP/1.1" ++ crlf ++
  (ascii "Host: " ++ target.authority ++ crlf) ++
  (if forwardedFor = [] then [] else ascii "X-Forwarded-For: " ++ forwardedFor ++ crlf) ++
  (if options.forwardedProto = [] then []
    else ascii "X-Forwarded-Proto: " ++ options.forwardedProto ++ crlf) ++
  (if inboundHost = [] then [] else ascii "X-Forwarded-Host: " ++ inboundHost ++ crlf) ++
  request.headers.flatMap forwardHeader ++
  (if request.body ≠ [] ∨ request.headers.has (ascii "Content-Length") then
    ascii "Content-Length: " ++ decimalText request.body.length ++ crlf else []) ++
  (ascii "Connection: keep-alive" ++ crlf) ++ crlf ++ request.body

/-! The lines of the head, each of which the builder ends with a CRLF. -/

/-- A field the builder writes unless its value is empty. -/
def optionalField (name value : Bytes) : List (Bytes × Bytes) :=
  if value = [] then [] else [(name, value)]

/-- The client's fields that are written on. -/
def forwardedHeaders (headers : HttpHeaders) : HttpHeaders := headers.filter fun h =>
  !isRegenerated h.normalizedName && !isHopByHopHeader h.normalizedName && h.isValid

/-- Names and values of the field lines, in the order written. -/
def upstreamFields (request : HttpRequest) (target : ProxyTarget) (options : ProxyRequestOptions) :
    List (Bytes × Bytes) :=
  [(ascii "Host", target.authority)] ++
  optionalField (ascii "X-Forwarded-For") (forwardedFor request options) ++
  optionalField (ascii "X-Forwarded-Proto") options.forwardedProto ++
  optionalField (ascii "X-Forwarded-Host") (request.headers.get (ascii "Host")) ++
  (forwardedHeaders request.headers).map (fun h => (h.name, h.value)) ++
  (if request.body ≠ [] ∨ request.headers.has (ascii "Content-Length") then
    [(ascii "Content-Length", decimalText request.body.length)] else []) ++
  [(ascii "Connection", ascii "keep-alive")]

def fieldText (field : Bytes × Bytes) : Bytes := field.1 ++ ascii ": " ++ field.2

def upstreamLine (request : HttpRequest) (options : ProxyRequestOptions) : Bytes :=
  httpMethodToString request.method ++ ascii " " ++
    proxyUpstreamPath request.target options.pathPrefix options.stripPrefix ++ ascii " HTTP/1.1"

/-- Every line the builder writes. -/
def upstreamLines (request : HttpRequest) (target : ProxyTarget) (options : ProxyRequestOptions) :
    List Bytes :=
  upstreamLine request options :: (upstreamFields request target options).map fieldText

theorem flatMap_optionalField (name value : Bytes) :
    ((optionalField name value).map fieldText).flatMap (· ++ crlf) =
      if value = [] then [] else name ++ ascii ": " ++ value ++ crlf := by
  unfold optionalField
  split
  · rfl
  · simp only [List.map_cons, List.map_nil, List.flatMap_cons, List.flatMap_nil, fieldText,
      List.append_nil]

theorem flatMap_forwardHeader (headers : HttpHeaders) :
    headers.flatMap forwardHeader =
      (((forwardedHeaders headers).map fun h => (h.name, h.value)).map fieldText).flatMap
        (· ++ crlf) := by
  induction headers with
  | nil => rfl
  | cons h hs ih =>
    have hfilter : forwardedHeaders (h :: hs) = if (!isRegenerated h.normalizedName &&
        !isHopByHopHeader h.normalizedName && h.isValid) = true then h :: forwardedHeaders hs
        else forwardedHeaders hs := List.filter_cons
    rw [List.flatMap_cons, ih, hfilter]
    unfold forwardHeader
    cases isRegenerated h.normalizedName with
    | true => rfl
    | false =>
      cases isHopByHopHeader h.normalizedName with
      | true => rfl
      | false =>
        cases h.isValid with
        | true => rfl
        | false => rfl

/-- The output is its lines, each with its CRLF, the empty line and the body. -/
theorem buildUpstreamRequest_eq (request : HttpRequest) (target : ProxyTarget)
    (options : ProxyRequestOptions) : buildUpstreamRequest request target options =
      (upstreamLines request target options).flatMap (· ++ crlf) ++ crlf ++ request.body := by
  have hhost : ascii "Host: " = ascii "Host" ++ ascii ": " := by decide
  have hfor : ascii "X-Forwarded-For: " = ascii "X-Forwarded-For" ++ ascii ": " := by decide
  have hproto : ascii "X-Forwarded-Proto: " = ascii "X-Forwarded-Proto" ++ ascii ": " := by decide
  have hfwd : ascii "X-Forwarded-Host: " = ascii "X-Forwarded-Host" ++ ascii ": " := by decide
  have hlen : ascii "Content-Length: " = ascii "Content-Length" ++ ascii ": " := by decide
  have hconn : ascii "Connection: keep-alive" =
      ascii "Connection" ++ ascii ": " ++ ascii "keep-alive" := by decide
  have hlength : ((if request.body ≠ [] ∨ request.headers.has (ascii "Content-Length") = true then
      [(ascii "Content-Length", decimalText request.body.length)] else []).map fieldText).flatMap
        (· ++ crlf) = if request.body ≠ [] ∨ request.headers.has (ascii "Content-Length") = true then
      ascii "Content-Length" ++ ascii ": " ++ decimalText request.body.length ++ crlf else [] := by
    split
    · simp only [List.map_cons, List.map_nil, List.flatMap_cons, List.flatMap_nil, fieldText,
        List.append_nil]
    · rfl
  simp only [buildUpstreamRequest, hhost, hfor, hproto, hfwd, hlen, hconn, upstreamLines,
    upstreamFields, List.flatMap_cons, List.map_append, List.flatMap_append, flatMap_optionalField,
    hlength, ← flatMap_forwardHeader, List.map_cons, List.map_nil, List.flatMap_nil,
    List.append_nil, upstreamLine, fieldText, List.append_assoc]

end Aevrix.Proxy
