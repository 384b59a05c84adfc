import Aevrix.Server.CloseTokens
import Aevrix.Server.Program
import Aevrix.Ws.Base64

/-!
# Both sides of the WebSocket handshake

`clientAccepts` is what a client makes of the answer to its key. The connection is upgraded on the
side of the server just when the request is an opening one (`Opening`), and then the client accepts
the answer too; an answer that refuses is accepted by no client (`upgrade_agreed`).
-/

namespace Aevrix.Server
open Aevrix.Http Aevrix.Ws
open Aevrix.Config (ServerConfig)
open Aevrix.Http.HttpResponseSerializer (serialize buildStatusLine)

/-! ### The client -/

/-- A line at its colon. -/
def splitField (line : Bytes) : Bytes × Bytes :=
  (line.takeWhile (· != 58), (line.dropWhile (· != 58)).drop 1)

/-- The value of the first field with this name, trimmed; empty when there is none. -/
def fieldOf (name : Bytes) (lines : List Bytes) : Bytes :=
  match (lines.map splitField).find? fun field => field.1.map toLower == name.map toLower with
  | some field => trimOws field.2
  | none => []

/-- What the client holds the answer against. -/
def expectedAccept (key : Bytes) : Bytes := base64Encode (sha1 (key ++ kWebSocketGuid))

/-- The check of a client that sent `key`: status 101, the two tokens, and the answer to the key. -/
def clientAccepts (key answer : Bytes) : Bool := match readHead answer with
  | some (status :: lines, _) =>
    (ascii "HTTP/1.1 101 ").isPrefixOf status &&
      (fieldOf (ascii "Upgrade") lines).map toLower == ascii "websocket" &&
      headerHasToken (fieldOf (ascii "Connection") lines) (ascii "upgrade") &&
      fieldOf (ascii "Sec-WebSocket-Accept") lines == expectedAccept key
  | _ => false

theorem clientAccepts_head {key answer status body : Bytes} {lines : List Bytes}
    (h : readHead answer = some (status :: lines, body)) : clientAccepts key answer =
      ((ascii "HTTP/1.1 101 ").isPrefixOf status &&
        (fieldOf (ascii "Upgrade") lines).map toLower == ascii "websocket" &&
        headerHasToken (fieldOf (ascii "Connection") lines) (ascii "upgrade") &&
        fieldOf (ascii "Sec-WebSocket-Accept") lines == expectedAccept key) := by
  rw [clientAccepts, h]

/-! ### The server -/

/-- The key of a request. -/
def websocketKey (request : HttpRequest) : Bytes :=
  trimOws (request.headers.get (ascii "Sec-WebSocket-Key"))

/-- An opening request of a client, under a configuration. -/
structure Opening (request : HttpRequest) (config : ServerConfig) : Prop where
  enabled : config.websocketEnabled = true
  path : targetPath request.target ∈ config.websocketAllowedPaths
  upgrade : HasElement (request.headers.get (ascii "Upgrade")) (ascii "websocket")
  method : request.method = .get
  version : request.version = ascii "HTTP/1.1"
  connection : HasElement (request.headers.get (ascii "Connection")) (ascii "upgrade")
  websocketVersion : trimOws (request.headers.get (ascii "Sec-WebSocket-Version")) = ascii "13"
  nonce : ∃ nonce, base64Decode (websocketKey request) = some nonce ∧ nonce.length = 16
  origin : config.websocketAllowedOrigins = [] ∨
    ∃ candidate ∈ config.websocketAllowedOrigins, candidate ≠ [] ∧ candidate.map toLower =
      (trimOws (request.headers.get (ascii "Origin"))).map toLower

section evaluate
variable (request : HttpRequest) (config : ServerConfig)

theorem originAllowed_iff : originAllowed request config = true ↔
    config.websocketAllowedOrigins = [] ∨
      ∃ candidate ∈ config.websocketAllowedOrigins, candidate ≠ [] ∧ candidate.map toLower =
        (trimOws (request.headers.get (ascii "Origin"))).map toLower := by
  rw [originAllowed, Bool.or_eq_true, List.isEmpty_iff, List.any_eq_true]
  apply or_congr Iff.rfl
  constructor
  · rintro ⟨candidate, hmem, hboth⟩
    obtain ⟨hsame, hne⟩ := (Bool.and_eq_true _ _).mp hboth
    refine ⟨candidate, hmem, ?_, beq_iff_eq.mp hsame⟩
    rintro rfl
    rw [← beq_iff_eq.mp hsame] at hne
    cases hne
  · rintro ⟨candidate, hmem, hne, hsame⟩
    refine ⟨candidate, hmem, (Bool.and_eq_true _ _).mpr ⟨beq_iff_eq.mpr hsame, ?_⟩⟩
    rw [← hsame, Bool.not_eq_true', List.isEmpty_eq_false_iff]
    exact fun hnil => hne (List.map_eq_nil_iff.mp hnil)

theorem computeAccept_expected (key : Bytes) (hne : computeAccept key ≠ []) :
    computeAccept key = expectedAccept key := by
  unfold computeAccept at hne ⊢
  cases hdecoded : base64Decode key with
  | none =>
    rw [hdecoded] at hne
    exact absurd rfl hne
  | some decoded =>
    rw [hdecoded] at hne
    dsimp only at hne ⊢
    split at hne
    · exact absurd rfl hne
    · rename_i hlength
      rw [if_neg hlength]
      rfl

/-- The verdict on a request, and the answer to an opening one. -/
theorem evaluateUpgrade_accepted :
    ((evaluateUpgrade computeAccept request config).verdict = .accepted ↔ Opening request config) ∧
    ((evaluateUpgrade computeAccept request config).verdict = .accepted →
      (evaluateUpgrade computeAccept request config).response =
        buildSwitchingProtocols (expectedAccept (websocketKey request))) := by
  unfold evaluateUpgrade
  split
  · rename_i hdisabled
    refine ⟨⟨(fun h => by cases h), fun h => ?_⟩, (fun h => by cases h)⟩
    rw [h.enabled] at hdisabled
    cases hdisabled
  rename_i henabled
  split
  · rename_i hpath
    exact ⟨⟨(fun h => by cases h), fun h => absurd h.path hpath⟩, (fun h => by cases h)⟩
  rename_i hpath
  split
  · rename_i hintent
    refine ⟨⟨(fun h => by cases h), fun h => ?_⟩, (fun h => by cases h)⟩
    rw [isWebsocketIntent, (headerHasToken_iff _ _).mpr h.upgrade] at hintent
    cases hintent
  rename_i hintent
  split
  · rename_i hline
    refine ⟨⟨(fun h => by cases h), fun h => ?_⟩, (fun h => by cases h)⟩
    exact (hline.resolve_left (not_not.mpr h.method) h.version).elim
  rename_i hline
  split
  · rename_i hconnection
    refine ⟨⟨(fun h => by cases h), fun h => ?_⟩, (fun h => by cases h)⟩
    rw [(headerHasToken_iff _ _).mpr h.connection] at hconnection
    cases hconnection
  rename_i hconnection
  dsimp only
  split
  · rename_i hversion
    refine ⟨⟨(fun h => by cases h), fun h => ?_⟩, (fun h => by cases h)⟩
    rw [h.websocketVersion] at hversion
    cases hversion
  split
  · rename_i hversion
    exact ⟨⟨(fun h => by cases h), fun h => absurd h.websocketVersion hversion⟩, (fun h => by cases h)⟩
  rename_i hversion
  split
  · rename_i hkey
    refine ⟨⟨(fun h => by cases h), fun h => ?_⟩, (fun h => by cases h)⟩
    obtain ⟨nonce, hnonce, hlength⟩ := h.nonce
    rw [show websocketKey request = [] from hkey] at hnonce
    cases hnonce
    cases hlength
  split
  · rename_i haccept
    refine ⟨⟨(fun h => by cases h), fun h => ?_⟩, (fun h => by cases h)⟩
    exact absurd haccept (computeAccept_ne_nil.mpr h.nonce)
  rename_i haccept
  split
  · rename_i horigin
    refine ⟨⟨(fun h => by cases h), fun h => ?_⟩, (fun h => by cases h)⟩
    rw [(originAllowed_iff request config).mpr h.origin] at horigin
    cases horigin
  rename_i horigin
  have hopening : Opening request config := by
    refine ⟨by simpa using henabled, not_not.mp hpath, ?_, ?_, ?_, ?_, not_not.mp hversion,
      computeAccept_ne_nil.mp haccept, (originAllowed_iff request config).mp (by simpa using horigin)⟩
    · exact (headerHasToken_iff _ _).mp (by simpa [isWebsocketIntent] using hintent)
    · exact not_not.mp fun h => hline (Or.inl h)
    · exact not_not.mp fun h => hline (Or.inr h)
    · exact (headerHasToken_iff _ _).mp (by simpa using hconnection)
  refine ⟨⟨fun _ => hopening, fun _ => rfl⟩, fun _ => ?_⟩
  exact congrArg buildSwitchingProtocols (computeAccept_expected _ haccept)

end evaluate

/-! ### The answer on the wire -/

theorem expectedAccept_clean (key : Bytes) : ∀ c ∈ expectedAccept key, 32 < c := by
  obtain ⟨body, pad, hsplit, -, hbody⟩ := (exists_decodeQuanta (base64Encode_length _)).mp
    ⟨_, decodeQuanta_encode (sha1 (key ++ kWebSocketGuid))⟩
  intro c hc
  rw [expectedAccept, hsplit, List.mem_append] at hc
  rcases hc with hc | hc
  · have halphabet : ∀ c ∈ kBase64Alphabet, 32 < c := by decide
    exact halphabet c (hbody c hc)
  · rw [List.eq_of_mem_replicate hc]
    decide

/-- The lines of the answer to a key. -/
def switchingLines (accept : Bytes) : List Bytes :=
  [ascii "HTTP/1.1 101 Switching Protocols", ascii "Upgrade: websocket",
    ascii "Connection: Upgrade", ascii "Sec-WebSocket-Accept: " ++ accept]

theorem buildSwitchingProtocols_lines (accept : Bytes) :
    buildSwitchingProtocols accept = lineBlock (switchingLines accept) := by
  have h₁ : ascii "HTTP/1.1 101 Switching Protocols\r\n" =
      ascii "HTTP/1.1 101 Switching Protocols" ++ crlf := by decide
  have h₂ : ascii "Upgrade: websocket\r\n" = ascii "Upgrade: websocket" ++ crlf := by decide
  have h₃ : ascii "Connection: Upgrade\r\n" = ascii "Connection: Upgrade" ++ crlf := by decide
  simp only [buildSwitchingProtocols, switchingLines, lineBlock, List.flatMap_cons,
    List.flatMap_nil, List.append_nil, List.append_assoc, h₁, h₂, h₃]

theorem readHead_switching {accept : Bytes} (hclean : ∀ c ∈ accept, 32 < c) :
    readHead (buildSwitchingProtocols accept) = some
      (ascii "HTTP/1.1 101 Switching Protocols" :: (switchingLines accept).tail, []) := by
  have hLF : LF ∉ accept := fun h => absurd (hclean LF h) (by decide)
  rw [buildSwitchingProtocols_lines, ← List.append_nil (lineBlock _)]
  have hclear (l : Bytes) (hl : l ∈ switchingLines accept) : l ≠ [] ∧ LF ∉ l := by
    simp only [switchingLines, List.mem_cons, List.not_mem_nil, or_false] at hl
    rcases hl with rfl | rfl | rfl | rfl
    · decide
    · decide
    · decide
    · refine ⟨List.append_ne_nil_of_left_ne_nil (by decide) _, fun h => ?_⟩
      rcases List.mem_append.mp h with h | h
      · exact absurd h (by decide)
      · exact hLF h
  exact readHead_lineBlock hclear []

theorem trimOws_accept {accept : Bytes} (hclean : ∀ c ∈ accept, 32 < c) :
    trimOws (32 :: accept) = accept := by
  have hows : ∀ c ∈ accept, isOws c = false := by
    intro c hc
    have hlt := hclean c hc
    rw [isOws, Bool.or_eq_false_iff, beq_eq_false_iff_ne, beq_eq_false_iff_ne]
    refine ⟨?_, ?_⟩
    · rintro rfl
      exact absurd hlt (by decide)
    · rintro rfl
      exact absurd hlt (by decide)
  have hpad : trimBy isOws ([32] ++ accept ++ []) = trimBy isOws accept :=
    trimBy_pad (by decide) (by decide)
  rw [List.append_nil] at hpad
  exact hpad.trans (trimBy_of_none hows)

theorem splitField_line {name : Bytes} (hname : 58 ∉ name) (value : Bytes) :
    splitField (name ++ 58 :: value) = (name, value) := by
  have hbefore : ∀ c ∈ name, (c != 58) = true := by
    rintro c hc
    rw [bne_iff_ne]
    rintro rfl
    exact hname hc
  rw [splitField, List.takeWhile_append_of_pos hbefore, List.dropWhile_append_of_pos hbefore]
  simp

theorem fieldOf_line {name other : Bytes} (hother : 58 ∉ other) (value : Bytes)
    (lines : List Bytes) : fieldOf name ((other ++ 58 :: value) :: lines) =
      if other.map toLower = name.map toLower then trimOws value else fieldOf name lines := by
  simp only [fieldOf, List.map_cons, splitField_line hother, List.find?_cons]
  by_cases h : other.map toLower = name.map toLower
  · rw [if_pos h, beq_iff_eq.mpr h]
  · rw [if_neg h, beq_eq_false_iff_ne.mpr h]

theorem switchingLines_fields (accept : Bytes) :
    switchingLines accept = ascii "HTTP/1.1 101 Switching Protocols" ::
      [ascii "Upgrade" ++ 58 :: ascii " websocket", ascii "Connection" ++ 58 :: ascii " Upgrade",
        ascii "Sec-WebSocket-Accept" ++ 58 :: 32 :: accept] := by
  have h₁ : ascii "Upgrade: websocket" = ascii "Upgrade" ++ 58 :: ascii " websocket" := by decide
  have h₂ : ascii "Connection: Upgrade" = ascii "Connection" ++ 58 :: ascii " Upgrade" := by decide
  have h₃ : ascii "Sec-WebSocket-Accept: " = ascii "Sec-WebSocket-Accept" ++ [58, 32] := by decide
  simp only [switchingLines, h₁, h₂, h₃, List.append_assoc, List.cons_append, List.nil_append]

theorem fieldOf_switching (accept : Bytes) :
    fieldOf (ascii "Upgrade") (switchingLines accept).tail = ascii "websocket" ∧
    fieldOf (ascii "Connection") (switchingLines accept).tail = ascii "Upgrade" ∧
    fieldOf (ascii "Sec-WebSocket-Accept") (switchingLines accept).tail =
      trimOws (32 :: accept) := by
  have hcolon₁ : 58 ∉ ascii "Upgrade" := by decide
  have hcolon₂ : 58 ∉ ascii "Connection" := by decide
  have hcolon₃ : 58 ∉ ascii "Sec-WebSocket-Accept" := by decide
  have h₁₂ : (ascii "Upgrade").map toLower ≠ (ascii "Connection").map toLower := by decide
  have h₁₃ : (ascii "Upgrade").map toLower ≠ (ascii "Sec-WebSocket-Accept").map toLower := by
    decide
  have h₂₃ : (ascii "Connection").map toLower ≠ (ascii "Sec-WebSocket-Accept").map toLower := by
    decide
  rw [switchingLines_fields, List.tail_cons]
  simp only [fieldOf_line hcolon₁, fieldOf_line hcolon₂, fieldOf_line hcolon₃, if_true,
    if_neg h₁₂, if_neg h₁₃, if_neg h₂₃]
  exact ⟨by decide, by decide, trivial⟩

/-- A client takes the answer to a key for one to its own just when the two digests are equal. -/
theorem clientAccepts_switching (k key : Bytes) :
    clientAccepts k (buildSwitchingProtocols (expectedAccept key)) = true ↔
      expectedAccept key = expectedAccept k := by
  have hclean := expectedAccept_clean key
  generalize expectedAccept key = accept at hclean ⊢
  obtain ⟨hupgrade, hconnection, haccept⟩ := fieldOf_switching accept
  have hstatus : (ascii "HTTP/1.1 101 ").isPrefixOf (ascii "HTTP/1.1 101 Switching Protocols") =
      true := by decide
  have hwebsocket : ((ascii "websocket").map toLower == ascii "websocket") = true := by decide
  have htoken : headerHasToken (ascii "Upgrade") (ascii "upgrade") = true := by decide
  rw [trimOws_accept hclean] at haccept
  rw [clientAccepts_head (readHead_switching hclean), hupgrade, hconnection, haccept, hstatus,
    hwebsocket, htoken, Bool.true_and, Bool.true_and, Bool.true_and, beq_iff_eq]

/-! ### A refusal on the wire -/

theorem clientAccepts_rejection (k : Bytes) (verdict : UpgradeVerdict) :
    clientAccepts k (serialize (buildRejectionResponse verdict)) = false := by
  obtain ⟨body, hcarries, -⟩ := buildRejectionResponse_carries verdict
  cases hvalid : (buildRejectionResponse verdict).isValid with
  | false =>
    rw [serialize_eq_nil.mpr hvalid]
    rfl
  | true =>
    have hstatus : (ascii "HTTP/1.1 101 ").isPrefixOf
        (buildStatusLine (buildRejectionResponse verdict)) = false := by
      cases verdict <;> decide +kernel
    rw [clientAccepts_head (readHead_serialize hcarries.version hvalid), hstatus,
      Bool.false_and, Bool.false_and, Bool.false_and]

/-! ### The route of a request -/

section dispatch
variable {services : Services} {request : HttpRequest}

/-- No handler stands under the method and the target of a request. -/
def Unrouted (services : Services) (request : HttpRequest) : Prop :=
  services.routes.lookup (makeRouteKey (httpMethodToString request.method) request.target) = none

theorem dispatch_upgraded_iff {response : Bytes} : services.dispatch request = .upgraded response ↔
    Unrouted services request ∧ services.websocketEnabled = true ∧
      (services.evaluateUpgrade request).verdict = .accepted ∧
      (services.evaluateUpgrade request).response = response := by
  simp only [Services.dispatch, Unrouted]
  generalize makeRouteKey (httpMethodToString request.method) request.target = key
  cases services.routes.lookup key with
  | some handler => simp
  | none =>
    cases services.websocketEnabled with
    | false =>
      cases services.proxyHandles request with
      | false => cases services.workerAccepts <;> simp
      | true => simp
    | true =>
      cases (services.evaluateUpgrade request).verdict with
      | accepted => simp
      | notAnUpgrade =>
        cases services.proxyHandles request with
        | false => cases services.workerAccepts <;> simp
        | true => simp
      | badRequest => simp
      | forbiddenOrigin => simp
      | unsupportedVersion => simp

theorem dispatchRequest_websocket {e : Endpoint WebSocketConnection}
    (hweb : e.conn.websocket = none) :
    (dispatchRequest services e request).conn.websocket.isSome = true ↔
      ∃ response, services.dispatch request = .upgraded response := by
  unfold dispatchRequest
  cases services.dispatch request with
  | routed response =>
    simp only
    split <;> simp [hweb, Endpoint.close, Endpoint.respond, Connection.startWriting,
      Connection.setOutputBuffer, Connection.incrementRequestId]
  | upgraded response => simp [Endpoint.respond, Connection.setOutputBuffer]
  | refused verdict =>
    simp [hweb, Endpoint.respond, Connection.startWriting, Connection.setOutputBuffer,
      Connection.incrementRequestId]
  | proxied outcome =>
    cases outcome with
    | none => simp [hweb, Endpoint.stay, Connection.incrementRequestId]
    | some outcome =>
      simp only [applyProxyOutcome]
      split <;> simp [hweb, Endpoint.close, Endpoint.respond, Connection.setOutputBuffer,
        Connection.incrementRequestId]
  | worker => simp [hweb, Endpoint.stay, Connection.incrementRequestId]
  | overloaded =>
    simp [hweb, Endpoint.respond, Connection.setOutputBuffer, Connection.incrementRequestId]

theorem dispatchRequest_answer (services : Services) (request : HttpRequest)
    (e : Endpoint WebSocketConnection) :
    (∀ response, services.dispatch request = .upgraded response →
      (dispatchRequest services e request).answer = some response) ∧
    ∀ verdict, services.dispatch request = .refused verdict →
      (dispatchRequest services e request).answer =
        some (serialize (buildRejectionResponse verdict)) := by
  refine ⟨fun response h => ?_, fun verdict h => ?_⟩
  · unfold dispatchRequest
    rw [h]
    rfl
  · unfold dispatchRequest
    rw [h]
    rfl

end dispatch

/-! ### Both sides -/

/-- A request makes its connection a WebSocket just when no handler stands under it and it is an
opening one under the live configuration; the answer is then taken by every client with the digest
of that key and by no other, and the answer that refuses is taken by no client. -/
theorem upgrade_agreed (p : Program) (m : Meets) (e : Endpoint WebSocketConnection)
    (request : HttpRequest) (key : Bytes) (hweb : e.conn.websocket = none) :
    let services := p.services computeAccept m
    let h := dispatchRequest services e request
    (h.conn.websocket.isSome = true ↔ Unrouted services request ∧ Opening request p.live) ∧
    (h.conn.websocket.isSome = true → ∃ answer, h.answer = some answer ∧
      (clientAccepts key answer = true ↔
        expectedAccept (websocketKey request) = expectedAccept key)) ∧
    ∀ verdict, services.dispatch request = .refused verdict →
      ∃ answer, h.answer = some answer ∧ clientAccepts key answer = false := by
  intro services h
  obtain ⟨hverdict, hresponse⟩ := evaluateUpgrade_accepted request p.live
  obtain ⟨hupgraded, hrefused⟩ := dispatchRequest_answer services request e
  refine ⟨?_, fun hsome => ?_, fun verdict hd => ?_⟩
  · rw [dispatchRequest_websocket hweb]
    constructor
    · rintro ⟨response, hd⟩
      obtain ⟨hroute, -, haccepted, -⟩ := dispatch_upgraded_iff.mp hd
      exact ⟨hroute, hverdict.mp haccepted⟩
    · rintro ⟨hroute, hopening⟩
      exact ⟨_, dispatch_upgraded_iff.mpr ⟨hroute, hopening.enabled, hverdict.mpr hopening, rfl⟩⟩
  · obtain ⟨response, hd⟩ := (dispatchRequest_websocket hweb).mp hsome
    obtain ⟨-, -, haccepted, hbytes⟩ := dispatch_upgraded_iff.mp hd
    refine ⟨response, hupgraded response hd, ?_⟩
    rw [← hbytes, show (services.evaluateUpgrade request).response = _ from hresponse haccepted]
    exact clientAccepts_switching key (websocketKey request)
  · exact ⟨_, hrefused verdict hd, clientAccepts_rejection key verdict⟩

/-- `GET /ws` with what a client has to send. -/
def openChat : HttpRequest where
  target := ascii "/ws"
  headers := ((((HttpHeaders.set [] (ascii "Upgrade") (ascii "websocket")).set
    (ascii "Connection") (ascii "keep-alive, Upgrade")).set
    (ascii "Sec-WebSocket-Version") (ascii "13")).set
    (ascii "Sec-WebSocket-Key") (ascii "dGhlIHNhbXBsZSBub25jZQ=="))

theorem opening_openChat : Opening openChat { websocketEnabled := true } := by
  have hupgrade : headerHasToken (openChat.headers.get (ascii "Upgrade")) (ascii "websocket") =
      true := by decide +kernel
  have hconnection : headerHasToken (openChat.headers.get (ascii "Connection"))
      (ascii "upgrade") = true := by decide +kernel
  have hnonce : (base64Decode (websocketKey openChat)).map List.length = some 16 := by
    decide +kernel
  obtain ⟨nonce, hdecoded, hlength⟩ := Option.map_eq_some_iff.mp hnonce
  exact ⟨rfl, by decide, (headerHasToken_iff _ _).mp hupgrade, rfl, rfl,
    (headerHasToken_iff _ _).mp hconnection, by decide +kernel, ⟨nonce, hdecoded, hlength⟩,
    Or.inl rfl⟩

/-- A server with WebSockets on, and what the request meets there. -/
def chatServer : Program :=
  .start { websocketEnabled := true } (ascii "/etc/aevrix.conf") fun _ => none

def atChat : Meets where
  status := ⟨1, [], 0, 0, []⟩
  performReload := none
  workerAccepts := true
  clientConnectionId := 1
  clientIp := ascii "192.0.2.1"
  connect := .started 5
  acquired := .acquired false 5
  addFd := true
  now := 0

def beforeChat : Endpoint WebSocketConnection := ⟨{ id := 1 }, false⟩

theorem upgrade_agreed_openChat :
    ∃ answer, (dispatchRequest (chatServer.services computeAccept atChat) beforeChat
      openChat).answer = some answer ∧ clientAccepts (websocketKey openChat) answer = true := by
  obtain ⟨hupgraded, haccepted, -⟩ := upgrade_agreed chatServer atChat beforeChat openChat
    (websocketKey openChat) rfl
  have hroute : Unrouted (chatServer.services computeAccept atChat) openChat := by
    unfold Unrouted
    decide +kernel
  obtain ⟨answer, hanswer, htaken⟩ := haccepted (hupgraded.mpr ⟨hroute, opening_openChat⟩)
  exact ⟨answer, hanswer, htaken.mpr rfl⟩

end Aevrix.Server
