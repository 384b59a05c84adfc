import Aevrix.Proxy.ResponseSegmentation
import Aevrix.Proxy.UpstreamPool

/-!
# The upstream half of the reverse proxy (`proxy_handler.h`, `proxy_handler.cpp`)

Reading an upstream response and finishing the exchange. `pending_` is the list of
exchanges in flight, under their descriptors; what the operating system returns from
`recv` is an argument.
-/

namespace Aevrix.Proxy
open Aevrix.Http

/-- How a proxied exchange ended. -/
inductive ProxyOutcomeStatus where
  | success | badGateway | gatewayTimeout | upstreamTooLarge | notConfigured | unavailable
  deriving DecidableEq, Repr

structure ProxyOutcome where
  status : ProxyOutcomeStatus := .badGateway
  upstreamStatus : ℕ := 0
  headers : HttpHeaders := []
  body : Bytes := []
  errorMessage : Bytes := []
  headRequest : Bool := false

/-- `outcome_from_parser` (`proxy_handler.cpp:108-115`). -/
def outcomeFromParser (parser : ProxyResponseParser) : ProxyOutcome where
  status := .success
  upstreamStatus := parser.statusCode
  headers := parser.headers
  body := parser.body

/-- An exchange in flight, as far as its response is concerned. -/
structure PendingRequest where
  clientConnectionId : ℕ
  connection : ℤ
  target : ProxyTarget
  parser : ProxyResponseParser
  headRequest : Bool

structure ProxyHandler where
  pending : List (ℤ × PendingRequest)
  pool : UpstreamPool
  completedRequests : ℕ
  failedRequests : ℕ
  /-- Descriptors closed so far. -/
  closed : List ℤ
  /-- Calls of `on_complete_`, the last one last. -/
  delivered : List (ℕ × ProxyOutcome)

/-- What `recv` may return: data (none at the end of the stream), or an error. -/
inductive Recv where
  | data (bytes : Bytes)
  | again
  | interrupted
  | failed (reason : Bytes)
  deriving DecidableEq

/-- `kReadChunkSize`. -/
def readChunkSize : ℕ := 16 * 1024

namespace ProxyHandler

/-- `pending_.find(fd)`. -/
def find (h : ProxyHandler) (fd : ℤ) : Option PendingRequest := h.pending.lookup fd

/-- `pending_.erase(fd)`. -/
def erase (h : ProxyHandler) (fd : ℤ) : ProxyHandler :=
  { h with pending := h.pending.filter fun e => e.1 != fd }

/-- The request of `fd` with another parser. -/
def setParser (h : ProxyHandler) (fd : ℤ) (parser : ProxyResponseParser) : ProxyHandler :=
  { h with pending := h.pending.map fun e => if e.1 = fd then (fd, { e.2 with parser }) else e }

/-- `complete` (`proxy_handler.cpp:536-577`): the connection goes back to the pool when
the exchange succeeded and the parser says so, and closes otherwise. -/
def complete (h : ProxyHandler) (fd : ℤ) (outcome : ProxyOutcome) (now : ℕ) : ProxyHandler :=
  match h.find fd with
  | none => h
  | some request =>
    let reusable := outcome.status == .success && request.parser.upstreamKeepAlive
    let outcome := { outcome with headRequest := request.headRequest }
    let h := h.erase fd
    let (pool, closing) :=
      if reusable then h.pool.release request.target request.connection now
      else (h.pool, some request.connection)
    { h with
      pool
      closed := h.closed ++ closing.toList
      completedRequests := h.completedRequests + 1
      delivered := h.delivered ++ [(request.clientConnectionId, outcome)] }

/-- `fail` (`proxy_handler.cpp:579-606`). -/
def fail (h : ProxyHandler) (fd : ℤ) (status : ProxyOutcomeStatus) (message : Bytes) :
    ProxyHandler :=
  match h.find fd with
  | none => h
  | some request =>
    let outcome : ProxyOutcome :=
      { status, errorMessage := message, headRequest := request.headRequest }
    let h := h.erase fd
    { h with
      closed := h.closed ++ [request.connection]
      failedRequests := h.failedRequests + 1
      delivered := h.delivered ++ [(request.clientConnectionId, outcome)] }

/-- The end of the stream: what the parser makes of it decides. -/
def atEof (h : ProxyHandler) (fd : ℤ) (request : PendingRequest) (now : ℕ) : ProxyHandler :=
  let (ok, parser) := request.parser.finishOnEof
  let h := h.setParser fd parser
  if ok then h.complete fd (outcomeFromParser parser) now
  else h.fail fd .badGateway (ascii "truncated upstream response: " ++ parser.errorMessage)

/-- `read_available` (`proxy_handler.cpp:476-530`), one `recv` after the other. -/
def readAvailable (h : ProxyHandler) (fd : ℤ) (now : ℕ) : List Recv → ProxyHandler
  | [] => h
  | result :: results => match h.find fd with
    | none => h
    | some request => match result with
      | .data [] => h.atEof fd request now
      | .data bytes =>
        let parser := request.parser.feed bytes
        let h := h.setParser fd parser
        if parser.hasError then
          h.fail fd .badGateway (ascii "invalid upstream response: " ++ parser.errorMessage)
        else if parser.isComplete then h.complete fd (outcomeFromParser parser) now
        else if bytes.length < readChunkSize then h
        else h.readAvailable fd now results
      | .again => h
      | .interrupted => h.readAvailable fd now results
      | .failed reason => h.fail fd .badGateway (ascii "upstream read failed: " ++ reason)

end ProxyHandler
end Aevrix.Proxy
