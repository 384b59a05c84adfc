import Aevrix.Proxy.Handler
import Aevrix.Proxy.RequestBuilder

/-!
# The whole lifecycle of a proxied request (`proxy_handler.h`, `proxy_handler.cpp`)

`ProxyHandler` with all it keeps of a request, from `start` over the upstream events to the
completion callback or the sweep. `ProxyHandler.view` forgets what has to do with sending;
reading and completing are then what `Aevrix.Proxy.ProxyHandler` does (`view_readAvailable`).

What the operating system and the event loop return is an argument of each call, and so are
the clock (in nanoseconds) and the budgets of the live configuration. Every `start` gets a
number, its ticket, which the request carries to its callback; the code has no such number,
and no list of the clients that started.
-/

namespace Aevrix.Proxy.Lifecycle
open Aevrix.Http

inductive Phase where
  | connecting | writing | reading
  deriving DecidableEq, Repr

inductive EventType where
  | readable | writable | error | hangup
  deriving DecidableEq, Repr

/-- What the handler reads from `cfg()`. -/
structure Budget where
  connectTimeoutMs : ℕ
  readTimeoutMs : ℕ
  maxResponseBytes : ℕ
  deriving DecidableEq

structure PendingRequest extends Proxy.PendingRequest where
  phase : Phase
  requestBytes : Bytes
  bytesWritten : ℕ
  deadline : Option ℕ
  generation : ℕ
  ticket : ℕ

/-- One call of `on_complete_`. -/
structure Delivery where
  ticket : ℕ
  clientConnectionId : ℕ
  outcome : ProxyOutcome

structure ProxyHandler where
  configured : Bool
  configurationError : Bytes
  target : ProxyTarget
  pending : List (ℤ × PendingRequest)
  pool : UpstreamPool
  completedRequests : ℕ
  failedRequests : ℕ
  connectionsCreated : ℕ
  connectionsReused : ℕ
  nextGeneration : ℕ
  /-- Descriptors closed so far. -/
  closed : List ℤ
  /-- Calls of `on_complete_`, the last one last. -/
  delivered : List Delivery
  /-- The clients of the calls of `start`. -/
  started : List ℕ

/-- What `getsockopt(SO_ERROR)` may return. -/
inductive SocketError where
  | unknown (reason : Bytes)
  | error (reason : Bytes)
  | none
  deriving DecidableEq

/-- What `send` may return. -/
inductive SendResult where
  | sent (count : ℕ)
  | again
  | interrupted
  | failed (reason : Bytes)
  deriving DecidableEq

/-- What a call of the handler meets. -/
structure Io where
  now : ℕ
  budget : Budget
  socketError : SocketError := .none
  sends : List SendResult := []
  modifyFd : Bool := true
  recvs : List Recv := []

/-- The arguments of `start`, and what it meets. -/
structure Start where
  clientConnectionId : ℕ
  request : HttpRequest
  options : ProxyRequestOptions
  budget : Budget
  now : ℕ
  connect : UpstreamPool.Connect
  addFd : Bool

/-- `deadline_after` (`proxy_handler.cpp:196-201`). The deadline is a signed number of nanoseconds
there, which is the same for those that fit into 64 bits (292 years). -/
def deadlineAfter (timeoutMs now : ℕ) : Option ℕ :=
  if timeoutMs = 0 then none else some (now + timeoutMs * 1000000)

/-- How the sending loop stops. -/
inductive Flush where
  | flushed
  | blocked
  | failed (reason : Bytes)
  deriving DecidableEq

/-- The loop of `flush_request` (`proxy_handler.cpp:425-452`): the bytes written of `size`,
and how it stops. -/
def sendLoop (size : ℕ) : ℕ → List SendResult → ℕ × Flush
  | written, [] => (written, if size ≤ written then .flushed else .blocked)
  | written, result :: results =>
    if size ≤ written then (written, .flushed)
    else match result with
      | .sent count => if count = 0 then (written, .blocked) else sendLoop size (written + count) results
      | .again => (written, .blocked)
      | .interrupted => sendLoop size written results
      | .failed reason => (written, .failed reason)

namespace ProxyHandler

/-- `pending_.find(fd)`. -/
def find (h : ProxyHandler) (fd : ℤ) : Option PendingRequest := h.pending.lookup fd

/-- `pending_.erase(fd)`. -/
def erase (h : ProxyHandler) (fd : ℤ) : ProxyHandler :=
  { h with pending := h.pending.filter fun e => e.1 != fd }

/-- The request of `fd`, changed in place. -/
def update (h : ProxyHandler) (fd : ℤ) (f : PendingRequest → PendingRequest) : ProxyHandler :=
  { h with pending := h.pending.map fun e => if e.1 = fd then (fd, f e.2) else e }

/-- The request of `fd` with another parser. -/
def setParser (h : ProxyHandler) (fd : ℤ) (parser : ProxyResponseParser) : ProxyHandler :=
  h.update fd fun request => { request with parser }

/-- `pending_.emplace`: an entry that is there stays, and the new one is dropped. -/
def emplace (h : ProxyHandler) (fd : ℤ) (request : PendingRequest) : ProxyHandler :=
  match h.find fd with
  | some _ => { h with closed := h.closed ++ [request.connection] }
  | none => { h with pending := h.pending ++ [(fd, request)] }

/-- A request that ends inside `start`. -/
def reject (h : ProxyHandler) (ticket clientConnectionId : ℕ) (status : ProxyOutcomeStatus)
    (message : Bytes) : ProxyHandler :=
  { h with
    failedRequests := h.failedRequests + 1
    delivered := h.delivered ++ [⟨ticket, clientConnectionId, { status, errorMessage := message }⟩] }

/-! ### Completion -/

/-- `complete` (`proxy_handler.cpp:536-577`). -/
def complete (h : ProxyHandler) (fd : ℤ) (outcome : ProxyOutcome) (now : ℕ) : ProxyHandler :=
  match h.find fd with
  | none => h
  | some request =>
    let reusable := outcome.status == .success && request.parser.upstreamKeepAlive
    let outcome := { outcome with headRequest := request.headRequest }
    let h := h.erase fd
    let (pool, closing) :=
      if reusable then h.pool.release request.target request.connection now
      else (h.pool, some request.connection)
    { h with
      pool
      closed := h.closed ++ closing.toList
      completedRequests := h.completedRequests + 1
      delivered := h.delivered ++ [⟨request.ticket, request.clientConnectionId, outcome⟩] }

/-- `fail` (`proxy_handler.cpp:579-606`). -/
def fail (h : ProxyHandler) (fd : ℤ) (status : ProxyOutcomeStatus) (message : Bytes) :
    ProxyHandler :=
  match h.find fd with
  | none => h
  | some request =>
    let outcome : ProxyOutcome :=
      { status, errorMessage := message, headRequest := request.headRequest }
    let h := h.erase fd
    { h with
      closed := h.closed ++ [request.connection]
      failedRequests := h.failedRequests + 1
      delivered := h.delivered ++ [⟨request.ticket, request.clientConnectionId, outcome⟩] }

/-! ### Phases -/

/-- `finish_connect` (`proxy_handler.cpp:402-422`). -/
def finishConnect (h : ProxyHandler) (fd : ℤ) (io : Io) : ProxyHandler := match io.socketError with
  | .unknown reason => h.fail fd .badGateway (ascii "getsockopt(SO_ERROR) failed: " ++ reason)
  | .error reason => h.fail fd .badGateway (ascii "upstream connect failed: " ++ reason)
  | .none => h.update fd fun request => { request with
      phase := .writing, deadline := deadlineAfter io.budget.readTimeoutMs io.now }

/-- `flush_request` (`proxy_handler.cpp:424-470`). -/
def flushRequest (h : ProxyHandler) (fd : ℤ) (request : PendingRequest) (io : Io) : ProxyHandler :=
  let (bytesWritten, result) := sendLoop request.requestBytes.length request.bytesWritten io.sends
  let h := h.update fd fun request => { request with bytesWritten }
  match result with
  | .blocked => h
  | .failed reason => h.fail fd .badGateway (ascii "upstream write failed: " ++ reason)
  | .flushed =>
    let h := h.update fd fun request => { request with
      requestBytes := [], phase := .reading
      deadline := deadlineAfter io.budget.readTimeoutMs io.now }
    if io.modifyFd then h
    else h.fail fd .badGateway (ascii "failed to change upstream event interest")

/-- `on_writable`: a connect that fails has reported it. -/
def onWritable (h : ProxyHandler) (fd : ℤ) (request : PendingRequest) (io : Io) : ProxyHandler :=
  let h := if request.phase = .connecting then h.finishConnect fd io else h
  match h.find fd with
  | none => h
  | some request => if request.phase = .writing then h.flushRequest fd request io else h

/-- The end of the stream: what the parser makes of it decides. -/
def atEof (h : ProxyHandler) (fd : ℤ) (request : PendingRequest) (now : ℕ) : ProxyHandler :=
  let (ok, parser) := request.parser.finishOnEof
  let h := h.setParser fd parser
  if ok then h.complete fd (outcomeFromParser parser) now
  else h.fail fd .badGateway (ascii "truncated upstream response: " ++ parser.errorMessage)

/-- `read_available` (`proxy_handler.cpp:476-530`), one `recv` after the other. -/
def readAvailable (h : ProxyHandler) (fd : ℤ) (now : ℕ) : List Recv → ProxyHandler
  | [] => h
  | result :: results => match h.find fd with
    | none => h
    | some request => match result with
      | .data [] => h.atEof fd request now
      | .data bytes =>
        let parser := request.parser.feed bytes
        let h := h.setParser fd parser
        if parser.hasError then
          h.fail fd .badGateway (ascii "invalid upstream response: " ++ parser.errorMessage)
        else if parser.isComplete then h.complete fd (outcomeFromParser parser) now
        else if bytes.length < readChunkSize then h
        else h.readAvailable fd now results
      | .again => h
      | .interrupted => h.readAvailable fd now results
      | .failed reason => h.fail fd .badGateway (ascii "upstream read failed: " ++ reason)

/-- `on_upstream_event` (`proxy_handler.cpp:322-373`). -/
def onUpstreamEvent (h : ProxyHandler) (fd : ℤ) (generation : ℕ) (event : EventType) (io : Io) :
    ProxyHandler := match h.find fd with
  | none => h
  | some request =>
    if request.generation ≠ generation then h
    else match event with
      | .writable => h.onWritable fd request io
      | .readable => if request.phase ≠ .reading then h else h.readAvailable fd io.now io.recvs
      | .hangup =>
        let h := h.readAvailable fd io.now io.recvs
        match h.find fd with
        | none => h
        | some request => h.atEof fd request io.now
      | .error => h.fail fd .badGateway (ascii "upstream socket error")

/-! ### Starting and sweeping -/

/-- The request that `start` registers. -/
def pendingRequest (h : ProxyHandler) (c : Start) (ticket : ℕ) (reused : Bool) (fd : ℤ) :
    PendingRequest where
  clientConnectionId := c.clientConnectionId
  connection := fd
  target := h.target
  parser := .fresh { maxBodyBytes := c.budget.maxResponseBytes
                     requestWasHead := c.request.method == .head }
  headRequest := c.request.method == .head
  phase := if reused then .writing else .connecting
  requestBytes := buildUpstreamRequest c.request h.target c.options
  bytesWritten := 0
  deadline := deadlineAfter
    (if reused then c.budget.readTimeoutMs else c.budget.connectTimeoutMs) c.now
  generation := h.nextGeneration
  ticket := ticket

/-- `start` behind `acquire` (`proxy_handler.cpp:238-316`). -/
def register (h : ProxyHandler) (c : Start) (ticket : ℕ) (reused : Bool) (fd : ℤ) : ProxyHandler :=
  let h := if reused then { h with connectionsReused := h.connectionsReused + 1 }
    else { h with connectionsCreated := h.connectionsCreated + 1 }
  let request := h.pendingRequest c ticket reused fd
  let h := { h with nextGeneration := h.nextGeneration + 1 }
  if c.addFd then h.emplace fd request
  else
    let h := h.reject ticket c.clientConnectionId .unavailable
      (ascii "failed to register upstream descriptor with the event loop")
    { h with closed := h.closed ++ [fd] }

/-- `start` (`proxy_handler.cpp:203-316`). -/
def start (h : ProxyHandler) (c : Start) : ProxyHandler :=
  let ticket := h.started.length
  let h := { h with started := h.started ++ [c.clientConnectionId] }
  if h.configured = false then
    h.reject ticket c.clientConnectionId .notConfigured h.configurationError
  else
    let (result, pool, closing) := h.pool.acquire h.target c.connect
    let h := { h with pool, closed := h.closed ++ closing.toList }
    match result with
    | .failed error => h.reject ticket c.clientConnectionId .badGateway error
    | .acquired reused fd => h.register c ticket reused fd

def isExpired (now : ℕ) (request : PendingRequest) : Bool := match request.deadline with
  | none => false
  | some deadline => decide (deadline ≤ now)

/-- The timeout of one descriptor of the sweep. -/
def expire (h : ProxyHandler) (fd : ℤ) : ProxyHandler := match h.find fd with
  | none => h
  | some request => h.fail fd .gatewayTimeout
      (if request.phase = .connecting then ascii "upstream connect timeout"
        else ascii "upstream response timeout")

/-- `sweep_timeouts` (`proxy_handler.cpp:611-635`). -/
def sweepTimeouts (h : ProxyHandler) (now : ℕ) : ProxyHandler :=
  let expired := (h.pending.filter fun e => isExpired now e.2).map Prod.fst
  let h := expired.foldl expire h
  let (pool, closing, _) := h.pool.sweepIdle now
  { h with pool, closed := h.closed ++ closing }

/-- `refresh_runtime_limits` (`proxy_handler.cpp:173-183`). -/
def refreshRuntimeLimits (h : ProxyHandler) (maxIdle idleTimeoutMs : ℕ) : ProxyHandler :=
  { h with pool := { h.pool with maxIdlePerTarget := maxIdle, idleTimeoutMs } }

/-! ### The half that reads -/

/-- The handler as far as responses are concerned. -/
def view (h : ProxyHandler) : Proxy.ProxyHandler where
  pending := h.pending.map fun e => (e.1, e.2.toPendingRequest)
  pool := h.pool
  completedRequests := h.completedRequests
  failedRequests := h.failedRequests
  closed := h.closed
  delivered := h.delivered.map fun d => (d.clientConnectionId, d.outcome)

section view
variable {h : ProxyHandler} {fd : ℤ}

theorem view_find (h : ProxyHandler) (fd : ℤ) :
    h.view.find fd = (h.find fd).map PendingRequest.toPendingRequest := by
  show List.lookup fd (h.pending.map fun e => (e.1, e.2.toPendingRequest)) = _
  unfold find
  induction h.pending with
  | nil => rfl
  | cons e rest ih =>
    rw [List.map_cons, List.lookup_cons, List.lookup_cons]
    split
    · rfl
    · exact ih

theorem view_erase (h : ProxyHandler) (fd : ℤ) : (h.erase fd).view = h.view.erase fd := by
  simp only [view, erase, Proxy.ProxyHandler.erase, List.filter_map]
  rfl

theorem view_setParser (h : ProxyHandler) (fd : ℤ) (parser : ProxyResponseParser) :
    (h.setParser fd parser).view = h.view.setParser fd parser := by
  simp only [view, setParser, update, Proxy.ProxyHandler.setParser, List.map_map]
  congr 1
  refine List.map_congr_left fun e _ => ?_
  simp only [Function.comp_apply]
  split <;> rfl

theorem view_complete (h : ProxyHandler) (fd : ℤ) (outcome : ProxyOutcome) (now : ℕ) :
    (h.complete fd outcome now).view = h.view.complete fd outcome now := by
  unfold complete Proxy.ProxyHandler.complete
  rw [view_find]
  cases hfind : h.find fd with
  | none => rfl
  | some request =>
    simp only [Option.map_some, ← view_erase]
    simp only [view, List.map_append, List.map_cons, List.map_nil]

theorem view_fail (h : ProxyHandler) (fd : ℤ) (status : ProxyOutcomeStatus) (message : Bytes) :
    (h.fail fd status message).view = h.view.fail fd status message := by
  unfold fail Proxy.ProxyHandler.fail
  rw [view_find]
  cases hfind : h.find fd with
  | none => rfl
  | some request =>
    simp only [Option.map_some, ← view_erase]
    simp only [view, List.map_append, List.map_cons, List.map_nil]

theorem view_atEof (h : ProxyHandler) (fd : ℤ) (request : PendingRequest) (now : ℕ) :
    (h.atEof fd request now).view = h.view.atEof fd request.toPendingRequest now := by
  simp only [atEof, Proxy.ProxyHandler.atEof]
  split
  · rw [view_complete, view_setParser]
  · rw [view_fail, view_setParser]

theorem view_readAvailable (h : ProxyHandler) (fd : ℤ) (now : ℕ) (results : List Recv) :
    (h.readAvailable fd now results).view = h.view.readAvailable fd now results := by
  induction results generalizing h with
  | nil => rfl
  | cons result results ih =>
    unfold readAvailable Proxy.ProxyHandler.readAvailable
    rw [view_find]
    cases hfind : h.find fd with
    | none => rfl
    | some request =>
      simp only [Option.map_some]
      cases result with
      | data bytes =>
        cases bytes with
        | nil => exact view_atEof h fd request now
        | cons b rest =>
          simp only [← view_setParser]
          split
          · exact view_fail _ fd _ _
          · split
            · exact view_complete _ fd _ now
            · split
              · rfl
              · exact ih _
      | again => rfl
      | interrupted => exact ih h
      | failed reason => exact view_fail h fd _ _

end view
end ProxyHandler
end Aevrix.Proxy.Lifecycle
