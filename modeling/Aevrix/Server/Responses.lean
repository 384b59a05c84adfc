import Aevrix.Http.Response
import Aevrix.Proxy.Handler
import Aevrix.Proxy.RequestBuilder

/-!
# The responses of the event loop (`main.cpp`, `worker_task.h`, `websocket_handshake.cpp`)

What the server makes of a worker result, of a proxy outcome, of a refused upgrade and
of a full worker pool, and the routes it registers that read no configuration.
-/

namespace Aevrix.Server
open Aevrix.Http
open Aevrix.Proxy (ProxyOutcome ProxyOutcomeStatus isHopByHopHeader)

/-- `Content-Type: text/plain` and the `Server` field, as the server's own texts carry them. -/
def plainText (r : HttpResponse) : HttpResponse :=
  (r.setHeader (ascii "Content-Type") (ascii "text/plain")).setHeader
    (ascii "Server") (ascii "Aevrix/1.0.0")

def keepAlivePolicy (keepAlive : Bool) : ConnectionPolicy := if keepAlive then .keepAlive else .close

/-! ### Routes -/

/-- `GET /` (`main.cpp:1470-1477`). -/
def rootRoute (_ : HttpRequest) : HttpResponse :=
  (plainText (.ofBody .ok (ascii "Aevrix HTTP Server v1.0.0\n"))).setConnectionPolicy .keepAlive

/-- `GET /health` (`main.cpp:1480-1487`). -/
def healthRoute (_ : HttpRequest) : HttpResponse :=
  (plainText (.ofBody .ok (ascii "OK\n"))).setConnectionPolicy .keepAlive

/-! ### Worker results -/

structure WorkerTask where
  connectionId : ℕ
  requestTarget : Bytes
  documentRoot : Bytes
  isHeadRequest : Bool
  deriving DecidableEq

structure WorkerResult where
  connectionId : ℕ
  content : Bytes
  mimeType : Bytes
  statusCode : ℤ
  errorMessage : Bytes
  success : Bool
  deriving DecidableEq

/-- The response to a worker result (`main.cpp:1730-1746`). -/
def workerResponse (result : WorkerResult) (keepAlive : Bool) : HttpResponse :=
  if result.statusCode = 200 then
    (((HttpResponse.ofBody .ok result.content).setHeader (ascii "Content-Type") result.mimeType).setHeader
      (ascii "Server") (ascii "Aevrix/1.0.0")).setConnectionPolicy (keepAlivePolicy keepAlive)
  else
    (plainText (.ofBody (UInt16.ofInt result.statusCode) result.errorMessage)).setConnectionPolicy .close

/-- The answer when the worker pool takes no task (`main.cpp:1061-1065`). -/
def overloadedResponse : HttpResponse :=
  (plainText (.ofBody .serviceUnavailable
    (ascii "Service Unavailable: Worker pool overloaded"))).setConnectionPolicy .close

/-! ### Proxy outcomes -/

/-- One upstream field; the hop-by-hop fields and Content-Length are not relayed. -/
def relayHeader (r : HttpResponse) (header : HttpHeader) : HttpResponse :=
  if isHopByHopHeader header.normalizedName || header.normalizedName == ascii "content-length" then r
  else r.setHeader header.name header.value

/-- The framing of a response to HEAD (`main.cpp:626-637`). -/
def headFraming (r : HttpResponse) (outcome : ProxyOutcome) : HttpResponse :=
  if outcome.headRequest then
    let r := r.setHeadOnly true
    let upstreamLength := outcome.headers.get (ascii "Content-Length")
    if upstreamLength = [] then r.removeHeader (ascii "Content-Length")
    else r.setHeader (ascii "Content-Length") upstreamLength
  else r

/-- Status and text for a failed exchange (`main.cpp:649-674`). -/
def gatewayError (outcome : ProxyOutcome) : StatusCode × Bytes := match outcome.status with
  | .gatewayTimeout =>
    (.gatewayTimeout, ascii "Gateway Timeout: the upstream server did not respond in time")
  | .unavailable =>
    (.serviceUnavailable, ascii "Service Unavailable: no upstream capacity available")
  | .upstreamTooLarge =>
    (.badGateway, ascii "Bad Gateway: the upstream response exceeded the configured limit")
  | .notConfigured =>
    (.badGateway, ascii "Bad Gateway: the reverse proxy is not configured correctly")
  | .badGateway | .success =>
    (.badGateway, if outcome.errorMessage = [] then
      ascii "Bad Gateway: the upstream server could not be reached"
    else ascii "Bad Gateway: " ++ outcome.errorMessage)

/-- `build_proxy_response` (`main.cpp:606-689`). -/
def buildProxyResponse (outcome : ProxyOutcome) (clientKeepAlive : Bool) : HttpResponse :=
  if outcome.status = .success then
    let result := outcome.headers.foldl relayHeader
      (.ofBody (UInt16.ofNat outcome.upstreamStatus) outcome.body)
    (((headFraming result outcome).setHeader (ascii "Server") (ascii "Aevrix/1.0.0")).setHeader
      (ascii "Via") (ascii "1.1 aevrix")).setConnectionPolicy (keepAlivePolicy clientKeepAlive)
  else
    let (status, message) := gatewayError outcome
    let response := (plainText (.ofBody status (message ++ ascii "\n"))).setHeader
      (ascii "Via") (ascii "1.1 aevrix")
    (if outcome.headRequest then response.setHeadOnly true else response).setConnectionPolicy .close

/-! ### WebSocket upgrades -/

inductive UpgradeVerdict where
  | notAnUpgrade | accepted | badRequest | forbiddenOrigin | unsupportedVersion
  deriving DecidableEq, Repr

structure UpgradeResult where
  verdict : UpgradeVerdict := .notAnUpgrade
  accept : Bytes := []
  response : Bytes := []

/-- `build_rejection_response` (`websocket_handshake.cpp:409-432`). -/
def buildRejectionResponse (verdict : UpgradeVerdict) : HttpResponse :=
  let response : HttpResponse := match verdict with
    | .forbiddenOrigin => .ofBody .forbidden (ascii "Origin not allowed for WebSocket upgrade")
    | .unsupportedVersion =>
      (HttpResponse.ofBody .upgradeRequired
        (ascii "Unsupported WebSocket version; this server requires version 13")).setHeader
        (ascii "Sec-WebSocket-Version") (ascii "13")
    | _ => .ofBody .badRequest (ascii "Bad WebSocket upgrade request")
  (plainText response).setConnectionPolicy .close

end Aevrix.Server
