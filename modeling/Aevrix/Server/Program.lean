import Aevrix.Config.Store
import Aevrix.Proxy.Steps
import Aevrix.Proxy.Completion
import Aevrix.Server.HeadRequests
import Aevrix.Server.Handshake
import Aevrix.Server.Websocket

/-!
# The running program (`main.cpp`, `proxy_handler.cpp`, `connection_manager.cpp`)

`main` keeps two configurations: the one it started with, which the proxy handler and the
connection manager also hold, and the store, whose snapshot is the live one. Each place that
reads a configuration is here, with the copy it reads.

The pool of the proxy handler has limits of its own; in every state that the program reaches,
they are those of the snapshot (`setUp_run`).
-/

namespace Aevrix.Server
open Aevrix.Http Aevrix.Proxy Aevrix.Ws
open Aevrix.Config (ServerConfig ServerConfigStore Files)
open Aevrix.Proxy.UpstreamPool (Connect AcquireResult)
open Aevrix.Proxy.Lifecycle (Budget Start Io EventType Phase deadlineAfter)

/-! ### Timeouts -/

inductive ReadState where
  | idle | headers | body | complete | error
  deriving DecidableEq, Repr

/-- What `set_deadline` looks at. -/
structure Timing where
  workerActive : Bool
  state : ConnectionState
  readState : ReadState
  writeState : WriteState
  websocket : Option WebSocketState

/-- The timeout `set_deadline` counts from now (`connection.cpp:414-459`), if it sets one. -/
def timeoutMs (config : ServerConfig) (t : Timing) : Option UInt64 :=
  if t.workerActive then none
  else if t.state = .tlsHandshake then some config.headerTimeoutMs
  else match t.websocket with
    | some session =>
      if t.writeState = .body ∨ t.writeState = .headers then some config.writeTimeoutMs
      else if session = .closing then some config.websocketCloseTimeoutMs
      else some config.keepAliveTimeoutMs
    | none =>
      if t.readState = .headers then some config.headerTimeoutMs
      else if t.readState = .body then some config.bodyTimeoutMs
      else if t.writeState = .body ∨ t.writeState = .headers then some config.writeTimeoutMs
      else if t.state = .waiting then some config.keepAliveTimeoutMs
      else none

def timing (c : Connection WebSocketConnection) (readState : ReadState) : Timing where
  workerActive := c.workerActive
  state := c.state
  readState := readState
  writeState := c.writeState
  websocket := c.websocket.map fun session => session.session.state

/-! ### The program -/

structure Program where
  /-- `config`, and what `config_` of the two classes refers to. -/
  config : ServerConfig
  store : ServerConfigStore
  proxy : Lifecycle.ProxyHandler

/-- What a dispatched request meets: the counters of the store and the reload behind the admin
routes, the worker pool, the peer, what the pool of upstream connections and `add_fd` return. -/
structure Meets where
  status : StoreStatus
  performReload : Option (Bytes → ConfigReloadOutcome × StoreStatus)
  workerAccepts : Bool
  clientConnectionId : ℕ
  clientIp : Bytes
  connect : Connect
  acquired : AcquireResult
  addFd : Bool
  now : ℕ

/-- An exchange with the upstream, as it is registered. -/
structure UpstreamExchange where
  target : ProxyTarget
  requestBytes : Bytes
  parser : ProxyResponseParser
  headRequest : Bool
  phase : Phase
  deadline : Option ℕ

def UpstreamExchange.ofPending (r : Lifecycle.PendingRequest) : UpstreamExchange where
  target := r.target
  requestBytes := r.requestBytes
  parser := r.parser
  headRequest := r.headRequest
  phase := r.phase
  deadline := r.deadline

/-- The target of `ProxyHandler::ProxyHandler` (`proxy_handler.cpp:134-154`); `resolve` is the
error of `resolve_target`, if it fails. -/
def upstreamTarget (config : ServerConfig) (resolve : ProxyTarget → Option Bytes) :
    Except Bytes ProxyTarget :=
  if !config.proxyEnabled then .error (ascii "proxy is disabled")
  else match parseProxyTarget config.proxyPass with
    | .error error => .error error
    | .ok target => match resolve target with
      | some error => .error error
      | none => .ok target

/-- The handler with the pool limits of a configuration. -/
def proxyHandler (target : Except Bytes ProxyTarget) (limits : ServerConfig) :
    Lifecycle.ProxyHandler :=
  .new target limits.proxyMaxIdleConnections.toNat limits.proxyIdleTimeoutMs.toNat

namespace Program

/-- The start (`main.cpp:1362-1391, 1631-1679`). -/
def start (config : ServerConfig) (configFile : Bytes) (resolve : ProxyTarget → Option Bytes) :
    Program where
  config := config
  store := .new config configFile
  proxy := proxyHandler (upstreamTarget config resolve) config

/-- `*config_store.snapshot()`, and `cfg()` and `config_view()` of the two classes. -/
def live (p : Program) : ServerConfig := p.store.snapshot

/-- `perform_reload` (`main.cpp:1683-1699`). -/
def performReload (p : Program) (path : Bytes) (files : Files) : Program :=
  let (store, outcome) := p.store.tryReload path files
  let p := { p with store }
  if outcome.success && outcome.snapshot.isSome then
    { p with
      proxy := p.proxy.refreshRuntimeLimits p.live.proxyMaxIdleConnections.toNat
        p.live.proxyIdleTimeoutMs.toNat }
  else p

/-! What is read from the startup copy. -/

/-- `ProxyHandler::handles` (`proxy_handler.cpp:189-194`). -/
def proxyHandles (p : Program) (request : HttpRequest) : Bool :=
  p.config.proxyEnabled && proxyTargetMatches request.target p.config.proxyPrefix

/-- The options of `start` (`proxy_handler.cpp:256-260`). -/
def proxyOptions (p : Program) (clientIp : Bytes) : ProxyRequestOptions where
  pathPrefix := p.config.proxyPrefix
  stripPrefix := p.config.proxyStripPrefix
  forwardedProto := ascii (if p.config.tlsEnabled then "https" else "http")
  clientIp := clientIp

/-! What is read from the snapshot. -/

/-- The budgets that the proxy handler reads from `cfg()`. -/
def budget (p : Program) : Budget where
  connectTimeoutMs := p.live.proxyConnectTimeoutMs.toNat
  readTimeoutMs := p.live.proxyReadTimeoutMs.toNat
  maxResponseBytes := p.live.proxyMaxResponseBytes.toNat

def admin (p : Program) (m : Meets) : Admin where
  live := ⟨p.live.adminApiEnabled, p.live.adminToken, p.live.summary⟩
  store := m.status
  performReload := m.performReload

/-- The test of `register_connection` and `at_capacity` (`connection_manager.cpp:51, 162`). -/
def atCapacity (p : Program) (count : ℕ) : Bool := decide (p.live.maxConnections.toNat ≤ count)

/-! ### A request -/

def startArgs (p : Program) (request : HttpRequest) (m : Meets) : Start where
  clientConnectionId := m.clientConnectionId
  request := request
  options := p.proxyOptions m.clientIp
  budget := p.budget
  now := m.now
  connect := m.connect
  addFd := m.addFd

/-- What `ProxyHandler::start` makes of a request: the exchange it registers, or the outcome it
reports at once. -/
def exchange (p : Program) (request : HttpRequest) (m : Meets) :
    Except ProxyOutcome UpstreamExchange :=
  if p.proxy.configured = false then
    .error { status := .notConfigured, errorMessage := p.proxy.configurationError }
  else match m.acquired with
    | .failed error => .error { status := .badGateway, errorMessage := error }
    | .acquired reused fd =>
      if m.addFd then
        .ok (.ofPending (p.proxy.pendingRequest (p.startArgs request m) p.proxy.started.length
          reused fd))
      else .error { status := .unavailable
                    errorMessage :=
                      ascii "failed to register upstream descriptor with the event loop" }

/-- The outcome `start` reports before it returns, if it does. -/
def proxyStart (p : Program) (request : HttpRequest) (m : Meets) : Option ProxyOutcome :=
  match p.exchange request m with
  | .error outcome => some outcome
  | .ok _ => none

/-- What `handle_read_event` is given. -/
def services (p : Program) (computeAccept : Bytes → Bytes) (m : Meets) : Services where
  routes := routeTable (p.admin m)
  websocketEnabled := p.live.websocketEnabled
  websocketMaxMessageBytes := p.live.websocketMaxMessageBytes.toNat
  evaluateUpgrade request := Server.evaluateUpgrade computeAccept request p.live
  proxyHandles := p.proxyHandles
  proxyStart request := p.proxyStart request m
  documentRoot := p.live.documentRoot
  workerAccepts := m.workerAccepts

/-- The exchange with the upstream that a dispatched request begins, if it begins one. -/
def forwarded (p : Program) (computeAccept : Bytes → Bytes) (request : HttpRequest) (m : Meets) :
    Option UpstreamExchange :=
  match (p.services computeAccept m).dispatch request with
  | .proxied _ => (p.exchange request m).toOption
  | _ => none

theorem start_exchange (p : Program) (request : HttpRequest) (m : Meets)
    (hacquired : (p.proxy.pool.acquire p.proxy.target m.connect).1 = m.acquired)
    (hfresh : ∀ reused fd, m.acquired = .acquired reused fd → p.proxy.find fd = none) :
    let h := p.proxy.start (p.startArgs request m)
    match p.exchange request m with
    | .ok exchange => ∃ fd r, h.pending = p.proxy.pending ++ [(fd, r)] ∧
        UpstreamExchange.ofPending r = exchange ∧ h.delivered = p.proxy.delivered
    | .error outcome => h.pending = p.proxy.pending ∧
        h.delivered = p.proxy.delivered ++
          [⟨p.proxy.started.length, m.clientConnectionId, outcome⟩] := by
  intro h
  simp only [exchange]
  cases hconfigured : p.proxy.configured with
  | false =>
    have hh : h = _ := Lifecycle.ProxyHandler.start_unconfigured hconfigured
    rw [if_pos rfl, hh]
    exact ⟨rfl, rfl⟩
  | true =>
    rw [if_neg Bool.true_eq_false.mp]
    rcases hresult : p.proxy.pool.acquire p.proxy.target m.connect with ⟨result, pool, closing⟩
    rw [hresult] at hacquired
    cases hcase : m.acquired with
    | failed error =>
      have hh : h = _ := Lifecycle.ProxyHandler.start_failed hconfigured
        (hresult.trans (by rw [show result = .failed error from hacquired.trans hcase]))
      rw [hh]
      exact ⟨rfl, rfl⟩
    | acquired reused fd =>
      have hh : h = _ := Lifecycle.ProxyHandler.start_acquired hconfigured
        (hresult.trans (by rw [show result = .acquired reused fd from hacquired.trans hcase]))
      rw [hh]
      cases haddFd : m.addFd with
      | false =>
        exact Lifecycle.ProxyHandler.register_refused (show (p.startArgs request m).addFd = false
          from haddFd) _ reused fd
      | true =>
        obtain ⟨hpending, hdelivered⟩ := Lifecycle.ProxyHandler.register_added
          (show (p.startArgs request m).addFd = true from haddFd) p.proxy.started.length reused
          (show (p.proxy.afterAcquire (p.startArgs request m) pool closing).find fd = none
            from hfresh reused fd hcase)
        exact ⟨fd, _, hpending, rfl, hdelivered⟩

/-! ### The ping pass -/

/-- Whether `maybe_queue_ping` queues one. -/
def pingDue (e : Endpoint WebSocketConnection) (intervalMs now : ℕ) : Bool :=
  match e.conn.websocket with
  | none => false
  | some session => (session.maybeQueuePing intervalMs now).1

/-- The ping pass over one connection (`main.cpp:2063-2071`, `connection_manager.cpp:246-264`),
and what it sets the deadline to, if it does. The interval is the live one, the deadline goes
by the startup copy. -/
def maintain (p : Program) (e : Endpoint WebSocketConnection) (readState : ReadState) (now : ℕ) :
    Handled WebSocketConnection × Option (Option UInt64) :=
  let intervalMs := p.live.websocketPingIntervalMs.toNat
  if intervalMs = 0 then (e.stay, none)
  else
    let handled := maintainWebsocket e intervalMs now
    (handled,
      if pingDue e intervalMs now then some (timeoutMs p.config (timing handled.conn readState))
      else none)

/-! ### Runs -/

/-- What changes the program: a reload, and the calls of the proxy handler. -/
inductive Step where
  | reload (path : Bytes) (files : Files)
  | start (request : HttpRequest) (m : Meets)
  | upstreamEvent (fd : ℤ) (generation : ℕ) (event : EventType) (io : Io)
  | sweep (now : ℕ)

/-- The handler reads its budget from the snapshot. -/
def step (p : Program) : Step → Program
  | .reload path files => p.performReload path files
  | .start request m => { p with proxy := p.proxy.start (p.startArgs request m) }
  | .upstreamEvent fd generation event io =>
    { p with proxy := p.proxy.onUpstreamEvent fd generation event { io with budget := p.budget } }
  | .sweep now => { p with proxy := p.proxy.sweepTimeouts now }

def run (p : Program) (steps : List Step) : Program := steps.foldl step p

/-- The program holds the configuration it started with; its handler is set up for the target
of that one and with the limits of the snapshot. -/
structure SetUp (config : ServerConfig) (target : Except Bytes ProxyTarget) (p : Program) :
    Prop where
  config : p.config = config
  proxy : Lifecycle.ProxyHandler.SetUp (proxyHandler target p.live) p.proxy

section SetUp
variable {config : ServerConfig} {target : Except Bytes ProxyTarget} {p : Program}

/-- A reload that fails leaves the snapshot; one that succeeds pushes its limits. -/
theorem SetUp.performReload (hs : SetUp config target p) (path : Bytes) (files : Files) :
    SetUp config target (p.performReload path files) := by
  have hsome := p.store.snapshot_isSome_reload (.file path files)
  have hkept := ServerConfigStore.snapshot_of_rejected (s := p.store) (a := .file path files)
  unfold Program.performReload
  rcases hreload : p.store.tryReload path files with ⟨store, outcome⟩
  simp only [ServerConfigStore.reload, hreload] at hsome hkept
  dsimp only
  cases hsuccess : outcome.success with
  | true =>
    rw [hsuccess] at hsome
    simp only [hsome, Bool.and_self, if_true]
    exact ⟨hs.config, hs.proxy.configured, hs.proxy.configurationError, hs.proxy.target, rfl⟩
  | false =>
    have hlive : store.snapshot = p.live := hkept hsuccess
    simp only [Bool.false_and, Bool.false_eq_true, if_false]
    refine ⟨hs.config, ?_⟩
    show Lifecycle.ProxyHandler.SetUp (proxyHandler target store.snapshot) p.proxy
    rw [hlive]
    exact hs.proxy

theorem SetUp.step (hs : SetUp config target p) (s : Step) : SetUp config target (p.step s) := by
  cases s with
  | reload path files => exact hs.performReload path files
  | start request m => exact ⟨hs.config, hs.proxy.start _⟩
  | upstreamEvent fd generation event io =>
    exact ⟨hs.config,
      (Lifecycle.ProxyHandler.stepInvariant_setUp _).onUpstreamEvent fd generation event _ hs.proxy⟩
  | sweep now => exact ⟨hs.config, hs.proxy.sweepTimeouts now⟩

theorem SetUp.run (hs : SetUp config target p) (steps : List Step) :
    SetUp config target (p.run steps) := by
  induction steps generalizing p with
  | nil => exact hs
  | cons s steps ih => exact ih (hs.step s)

end SetUp

end Program
end Aevrix.Server
