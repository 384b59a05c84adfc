import Aevrix.Server.Connection
import Aevrix.Server.Responses

/-!
# The handlers of the event loop (`main.cpp`, `connection_manager.cpp`)

A handler works on one connection and its epoll interest (EPOLLIN is always in it,
EPOLLOUT is not). `Handled` is what the handler leaves and what it did: the bytes that
left, the frames queued, the request it took and the response it put in the output
buffer.
-/

namespace Aevrix.Server
open Aevrix.Http
open Aevrix.Proxy (Recv ProxyOutcome)
open Aevrix.Http.HttpResponseSerializer (serialize)

/-- What a read event asks: the routes registered, the live configuration, the WebSocket
handshake, the proxy handler and the worker pool. `proxyStart` is the outcome that
`ProxyHandler::start` reports before it returns, if it does. -/
structure Services where
  routes : List (Bytes × (HttpRequest → HttpResponse))
  websocketEnabled : Bool
  websocketMaxMessageBytes : ℕ
  evaluateUpgrade : HttpRequest → UpgradeResult
  proxyHandles : HttpRequest → Bool
  proxyStart : HttpRequest → Option ProxyOutcome
  documentRoot : Bytes
  workerAccepts : Bool

/-- `make_route_key` (`router.cpp:49-55`). -/
def makeRouteKey (method path : Bytes) : Bytes := method.map toUpper ++ ascii ":" ++ path

/-- Who answers a request. -/
inductive Route where
  | routed (response : HttpResponse)
  | upgraded (response : Bytes)
  | refused (verdict : UpgradeVerdict)
  | proxied (outcome : Option ProxyOutcome)
  | worker
  | overloaded

/-- The order of `handle_read_event`: router, WebSocket, proxy, worker. -/
def Services.dispatch (services : Services) (request : HttpRequest) : Route :=
  match services.routes.lookup (makeRouteKey (httpMethodToString request.method) request.target) with
  | some handler => .routed (handler request)
  | none =>
    let upgrade := services.evaluateUpgrade request
    if services.websocketEnabled && upgrade.verdict == .accepted then .upgraded upgrade.response
    else if services.websocketEnabled && upgrade.verdict != .notAnUpgrade then
      .refused upgrade.verdict
    else if services.proxyHandles request then .proxied (services.proxyStart request)
    else if services.workerAccepts then .worker
    else .overloaded

/-- The response is queued before the handler returns, on a connection that stays open. -/
def Route.inPlace : Route → Bool
  | .routed _ | .upgraded _ | .refused _ | .proxied (some _) => true
  | .proxied none | .worker | .overloaded => false

/-- A connection and whether EPOLLOUT is in its interest. -/
structure Endpoint (σ : Type) where
  conn : Connection σ
  epollOut : Bool

/-- Where a request waits for its response. -/
inductive Place where
  | worker (task : WorkerTask)
  | upstream
  deriving DecidableEq

structure Handled (σ : Type) extends Endpoint σ where
  keepOpen : Bool
  sent : Bytes := []
  frames : Bytes := []
  accepted : Option HttpRequest := none
  place : Option Place := none
  answer : Option Bytes := none

variable {σ : Type}

namespace Endpoint

def stay (e : Endpoint σ) : Handled σ := { e with keepOpen := true }
def close (e : Endpoint σ) : Handled σ := { e with keepOpen := false }

/-- The response in the output buffer and EPOLLOUT armed. -/
def respond (e : Endpoint σ) (response : Bytes) : Handled σ where
  conn := e.conn.setOutputBuffer response
  epollOut := true
  keepOpen := true
  answer := some response

end Endpoint

/-- `conn->set_state(Writing)` and `conn->set_write_state(Body)`. -/
def Connection.startWriting (c : Connection σ) : Connection σ :=
  { c with state := .writing, writeState := .body }

/-- The proxy's completion callback (`main.cpp:1636-1675`). -/
def applyProxyOutcome (e : Endpoint σ) (outcome : ProxyOutcome) : Handled σ :=
  let e := { e with conn := { e.conn with workerActive := false } }
  let serialized := serialize (buildProxyResponse outcome e.conn.keepAlive)
  if serialized = [] then e.close else e.respond serialized

/-- One worker result (`main.cpp:1715-1757`). -/
def applyWorkerResult (e : Endpoint σ) (result : WorkerResult) : Handled σ :=
  let e := { e with conn := { e.conn with workerActive := false } }
  e.respond (serialize (workerResponse result e.conn.keepAlive))

section
variable [WebSocketSession σ]
open WebSocketSession

/-- What a read event does with the request it completed (`main.cpp:913-1072`). -/
def dispatchRequest (services : Services) (e : Endpoint σ) (request : HttpRequest) : Handled σ :=
  let e := { e with conn := (e.conn.evaluateKeepAlive request).incrementRequestId }
  match services.dispatch request with
  | .routed response =>
    let serialized := serialize response
    if serialized = [] then { e.close with accepted := request }
    else { ({ e with conn := e.conn.startWriting }).respond serialized with accepted := request }
  | .upgraded response =>
    let conn := { e.conn.startWriting with
      websocket := some (start services.websocketMaxMessageBytes), keepAlive := false }
    { ({ e with conn }).respond response with accepted := request }
  | .refused verdict =>
    let conn := { e.conn.startWriting with keepAlive := false }
    { ({ e with conn }).respond (serialize (buildRejectionResponse verdict)) with
      accepted := request }
  | .proxied outcome =>
    let e := { e with conn := { e.conn with workerActive := true } }
    match outcome with
    | none => { e.stay with accepted := request, place := some .upstream }
    | some outcome => { applyProxyOutcome e outcome with accepted := request }
  | .worker =>
    let e := { e with conn := { e.conn with workerActive := true } }
    let task := ⟨e.conn.id, request.target, services.documentRoot, request.method == .head⟩
    { e.stay with accepted := request, place := some (.worker task) }
  | .overloaded =>
    let e := { e with conn := { e.conn with workerActive := true } }
    { e.respond (serialize overloadedResponse) with keepOpen := false, accepted := request }

/-- Frames of the session move to the output buffer, and EPOLLOUT is armed. -/
def queueFrames (e : Endpoint σ) (session : σ) : Handled σ where
  conn := { e.conn.appendOutputBuffer (output session) with
    websocket := some (clearOutput session), writeState := .body }
  epollOut := true
  keepOpen := true
  frames := output session

/-- Bytes of the peer go to the session (`main.cpp:866-884`). -/
def readFrames (e : Endpoint σ) (session : σ) : Handled σ :=
  let session := feed session e.conn.inputBuffer
  let e := { e with conn := { e.conn with inputBuffer := [], websocket := some session } }
  if (output session).isEmpty then e.stay else queueFrames e session

/-- `handle_read_event` (`main.cpp:827-1095`). -/
def handleReadEvent (services : Services) (e : Endpoint σ) (recv : Recv) : Handled σ :=
  let (result, conn) := e.conn.readNonblocking recv
  let e := { e with conn }
  match result with
  | .inProgress => e.stay
  | .closed => e.close
  | .error => e.close
  | .success => match conn.websocket with
    | some session => readFrames e session
    | none =>
      let (fed, conn) := conn.feedParser
      let e := { e with conn }
      if !fed then e.close
      else if conn.parser.hasError then e.close
      else if conn.parser.isComplete then dispatchRequest services e conn.parser.request
      else e.stay

/-- What a write event does once the output has left (`main.cpp:741-786`). -/
def outputFlushed (e : Endpoint σ) : Handled σ := match e.conn.websocket with
  | some session =>
    if (output session).isEmpty then
      let e := { e with conn := { e.conn with writeState := .complete } }
      if readyToClose session then e.close else ({ e with epollOut := false }).stay
    else queueFrames e session
  | none =>
    if e.conn.keepAlive then
      ({ conn := e.conn.clearOutputBuffer.resetParser, epollOut := false : Endpoint σ }).stay
    else e.close

/-- `handle_write_event` (`main.cpp:711-796`). -/
def handleWriteEvent (e : Endpoint σ) (send : Send) : Handled σ :=
  let (result, conn, sent) := e.conn.writeNonblocking send
  let e := { e with conn }
  { (match result with
    | .inProgress => e.stay
    | .error => e.close
    | .success | .closed => if conn.isOutputComplete then outputFlushed e else e.stay)
    with sent }

/-- The ping pass over one connection (`connection_manager.cpp:246-264`). -/
def maintainWebsocket (e : Endpoint σ) (pingIntervalMs now : ℕ) : Handled σ :=
  match e.conn.websocket with
  | none => e.stay
  | some session =>
    let (queued, session) := maybeQueuePing session pingIntervalMs now
    if queued then queueFrames e session
    else ({ e with conn := { e.conn with websocket := some session } }).stay

/-- Writes until nothing is left or one does not succeed. -/
def drainOutput (c : Connection σ) : List Send → Connection σ × Bytes
  | [] => (c, [])
  | send :: sends =>
    if c.hasPendingOutput then
      let (result, c, sent) := c.writeNonblocking send
      if result = .success then
        let (c, rest) := drainOutput c sends
        (c, sent ++ rest)
      else (c, sent)
    else (c, [])

/-- `initiate_websocket_shutdown` on one connection (`connection_manager.cpp:266-294`); the
event loop has stopped, so EPOLLOUT is not armed. -/
def initiateWebsocketShutdown (e : Endpoint σ) (code : ℕ) (sends : List Send) : Handled σ :=
  match e.conn.websocket with
  | none => e.stay
  | some session =>
    let session := initiateClose session code
    let conn := { e.conn.appendOutputBuffer (output session) with
      websocket := some (clearOutput session) }
    let (conn, sent) := drainOutput conn sends
    { ({ e with conn }).stay with frames := output session, sent }

end
end Aevrix.Server
