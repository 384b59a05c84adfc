import Aevrix.Server.Program
import Aevrix.Server.AnnouncedClose

/-!
# The event loop over all connections (`connection_manager.cpp`, `main.cpp`)

The connection manager owns the client connections, each behind the number of its descriptor. An
event of the loop finds its connection there, runs a handler on it and removes it when the
handler says so; a connection that is removed closes its descriptor. The numbers come from the
kernel, which hands out one that is not in use.
-/

namespace Aevrix.Server
open Aevrix.Http Aevrix.Ws
open Aevrix.Proxy (Recv ProxyOutcome)

/-! ### Deadlines -/

/-- The timeouts of the configuration that `set_deadline` chooses from. -/
inductive Timeout where
  | header | body | write | keepAlive | websocketClose
  deriving DecidableEq, Repr

def Timeout.ms (config : Config.ServerConfig) : Timeout → UInt64
  | header => config.headerTimeoutMs
  | body => config.bodyTimeoutMs
  | write => config.writeTimeoutMs
  | keepAlive => config.keepAliveTimeoutMs
  | websocketClose => config.websocketCloseTimeoutMs

/-- The choice of `set_deadline` (`connection.cpp:414-459`). -/
def Timing.timeout (t : Timing) : Option Timeout :=
  if t.workerActive then none
  else if t.state = .tlsHandshake then some .header
  else match t.websocket with
    | some session =>
      if t.writeState = .body ∨ t.writeState = .headers then some .write
      else if session = .closing then some .websocketClose
      else some .keepAlive
    | none =>
      if t.readState = .headers then some .header
      else if t.readState = .body then some .body
      else if t.writeState = .body ∨ t.writeState = .headers then some .write
      else if t.state = .waiting then some .keepAlive
      else none

theorem timeoutMs_eq (config : Config.ServerConfig) (t : Timing) :
    timeoutMs config t = t.timeout.map (Timeout.ms config) := by
  simp only [timeoutMs, Timing.timeout]
  cases t.websocket with
  | some session =>
    dsimp only
    split_ifs <;> rfl
  | none =>
    dsimp only
    split_ifs <;> rfl

/-! ### Connections -/

/-- A `Connection` with its descriptor, its read state and the timeout of its deadline. -/
structure ManagedConnection where
  fd : ℤ
  endpoint : Endpoint WebSocketConnection
  readState : ReadState := .idle
  timeout : Option Timeout := none

namespace ManagedConnection

def id (c : ManagedConnection) : ℕ := c.endpoint.conn.id

/-- What `set_deadline` sees. -/
def timing (c : ManagedConnection) : Timing := Server.timing c.endpoint.conn c.readState

def setDeadline (c : ManagedConnection) : ManagedConnection := { c with timeout := c.timing.timeout }

/-- `has_deadline_exceeded` (`connection.cpp:461-477`); `passed` is the test of the clock. -/
def hasDeadlineExceeded (c : ManagedConnection) (passed : Bool) : Bool :=
  !c.endpoint.conn.workerActive && c.timeout.isSome && passed

end ManagedConnection

/-- What a handler leaves of a connection, and where it took a request. -/
structure Reacted where
  conn : ManagedConnection
  keepOpen : Bool
  place : Option Place := none

namespace ManagedConnection
variable (c : ManagedConnection)

def reacted (h : Handled WebSocketConnection) : Reacted where
  conn := { c with endpoint := h.toEndpoint }
  keepOpen := h.keepOpen
  place := h.place

/-- Whether `handle_read_event` sets the deadline once more behind its read: for an upgraded
connection, and when it queues a response itself (`main.cpp:882, 946, 969, 986, 1648`). -/
def setsDeadlineAgain (services : Services) (recv : Recv) : Bool :=
  let (result, conn) := c.endpoint.conn.readNonblocking recv
  match result, conn.websocket with
  | .success, some _ => true
  | .success, none =>
    let (fed, conn) := conn.feedParser
    fed && !conn.parser.hasError && conn.parser.isComplete &&
      (services.dispatch conn.parser.request).inPlace
  | _, _ => false

/-- `handle_read_event` with its deadlines. -/
def handleRead (services : Services) (recv : Recv) : Reacted :=
  let first := c.setDeadline
  let r := first.reacted (handleReadEvent services c.endpoint recv)
  if c.setsDeadlineAgain services recv then { r with conn := r.conn.setDeadline } else r

/-- `handle_write_event` with its deadlines (`main.cpp:717, 752, 757`). -/
def handleWrite (send : Send) : Reacted :=
  let first := c.setDeadline
  let r := first.reacted (handleWriteEvent c.endpoint send)
  let conn := (c.endpoint.conn.writeNonblocking send).2.1
  if conn.isWebsocket && conn.isOutputComplete then { r with conn := r.conn.setDeadline } else r

/-- The completion callbacks set the deadline before they queue the response. -/
def handleCompletion (completion : Completion) : Reacted :=
  let idle := { c.endpoint with conn := { c.endpoint.conn with workerActive := false } }
  let first := { c with endpoint := idle }.setDeadline
  match completion with
  | .worker result => first.reacted (applyWorkerResult c.endpoint result)
  | .upstream outcome => first.reacted (applyProxyOutcome c.endpoint outcome)

/-- The ping pass over one connection (`connection_manager.cpp:246-264`). -/
def handlePing (intervalMs now : ℕ) : Reacted :=
  let r := c.reacted (maintainWebsocket c.endpoint intervalMs now)
  if Program.pingDue c.endpoint intervalMs now then { r with conn := r.conn.setDeadline } else r

end ManagedConnection

/-! ### The connection manager -/

structure ConnectionManager where
  connections : List (ℤ × ManagedConnection) := []
  nextConnectionId : ℕ := 1
  totalConnections : ℕ := 0

namespace ConnectionManager

/-- `get_connection` -/
def find (m : ConnectionManager) (fd : ℤ) : Option ManagedConnection := m.connections.lookup fd

/-- `get_connection_by_id` -/
def findById (m : ConnectionManager) (connectionId : ℕ) : Option ManagedConnection :=
  (m.connections.find? fun x => x.2.id == connectionId).map Prod.snd

/-- `register_connection` (`connection_manager.cpp:47-81`). -/
def register (m : ConnectionManager) (maxConnections : ℕ) (fd : ℤ) :
    Option ManagedConnection × ConnectionManager :=
  if maxConnections ≤ m.connections.length then (none, m)
  else if (m.find fd).isSome then (none, m)
  else
    let conn : ManagedConnection := { fd, endpoint := ⟨{ id := m.nextConnectionId }, false⟩ }
    (some conn,
      { connections := m.connections ++ [(fd, conn)]
        nextConnectionId := m.nextConnectionId + 1
        totalConnections := m.totalConnections + 1 })

/-- What is behind a number is changed. -/
def put (m : ConnectionManager) (fd : ℤ) (c : ManagedConnection) : ConnectionManager :=
  { m with connections := m.connections.map fun x => if x.1 = fd then (fd, c) else x }

def erase (m : ConnectionManager) (fd : ℤ) : ConnectionManager :=
  { m with connections := m.connections.filter fun x => x.1 != fd }

end ConnectionManager

/-! ### Descriptors -/

/-- The descriptors that `accept` has returned: the ones in use by their numbers, and the ones
that have been closed. Each is named by its place in `accepted`. -/
structure Descriptors where
  accepted : List ℤ := []
  opened : List (ℤ × ℕ) := []
  closed : List ℕ := []

namespace Descriptors

def inUse (d : Descriptors) (fd : ℤ) : Bool := (d.opened.lookup fd).isSome

def accept (d : Descriptors) (fd : ℤ) : Descriptors where
  accepted := d.accepted ++ [fd]
  opened := d.opened ++ [(fd, d.accepted.length)]
  closed := d.closed

/-- `close`; a number that is not in use names nothing. -/
def close (d : Descriptors) (fd : ℤ) : Descriptors := match d.opened.lookup fd with
  | none => d
  | some n => { d with
    opened := d.opened.filter fun x => x.1 != fd
    closed := d.closed ++ [n] }

end Descriptors

/-! ### The event loop -/

/-- What a handshake in progress comes to. -/
inductive Handshake where
  | complete | failed
  | inProgress (epollOut : Bool)

structure Loop where
  manager : ConnectionManager := {}
  descriptors : Descriptors := {}
  /-- The connections of the requests that workers and upstreams have. -/
  inFlight : List ℕ := []

/-- `nonBlocking`: the accepted socket could be set so. `initialized`: the TLS of the connection
was set up. -/
inductive LoopEvent where
  | accept (fd : ℤ) (nonBlocking : Bool) (maxConnections : ℕ)
  | acceptTls (fd : ℤ) (nonBlocking initialized : Bool) (maxConnections : ℕ)
  | readable (fd : ℤ) (handshake : Handshake) (services : Services) (recv : Recv)
  | writable (fd : ℤ) (handshake : Handshake) (send : Send)
  | hangup (fd : ℤ)
  | completed (connectionId : ℕ) (completion : Completion)
  | sweep (passed : ℤ → Bool)
  | pingPass (intervalMs now : ℕ)
  | shutdown

namespace Loop

/-- The connection is removed; its destructor closes the descriptor. -/
def drop (s : Loop) (fd : ℤ) : Loop := match s.manager.find fd with
  | none => s
  | some c => { s with
    manager := s.manager.erase fd
    descriptors := s.descriptors.close c.fd }

/-- What a handler leaves, and the removal when it says so. -/
def settle (s : Loop) (r : Reacted) : Loop :=
  let s := { s with
    manager := s.manager.put r.conn.fd r.conn
    inFlight := if r.place.isSome then s.inFlight ++ [r.conn.id] else s.inFlight }
  if r.keepOpen then s else s.drop r.conn.fd

/-- `TcpListener::accept` (`tcp_listener.cpp:363-433`) and the registration, with what the accept
handler does to a connection that is registered (`main.cpp:1814-1834, 1932-1951`). -/
def accept (s : Loop) (fd : ℤ) (nonBlocking : Bool) (maxConnections : ℕ)
    (welcome : ManagedConnection → Reacted) : Loop :=
  if s.descriptors.inUse fd then s
  else
    let s := { s with descriptors := s.descriptors.accept fd }
    if !nonBlocking then { s with descriptors := s.descriptors.close fd }
    else match s.manager.register maxConnections fd with
      | (none, manager) => { s with manager }
      | (some c, manager) => ({ s with manager }).settle (welcome c)

/-- A plain connection starts to read its first request. -/
def admitPlain (c : ManagedConnection) : Reacted where
  conn := { c with
    endpoint := { c.endpoint with conn := { c.endpoint.conn with state := .reading } }
    readState := .headers }.setDeadline
  keepOpen := true

def admitTls (initialized : Bool) (c : ManagedConnection) : Reacted where
  conn := if initialized then
      { c with
        endpoint := { c.endpoint with
          conn := { c.endpoint.conn with state := .tlsHandshake } } }.setDeadline
    else c
  keepOpen := initialized

/-- The callback of a connection (`main.cpp:1838-1906, 1957-2020`): the handshake goes first. -/
def onClientEvent (s : Loop) (fd : ℤ) (handshake : Handshake)
    (handle : ManagedConnection → Reacted) : Loop :=
  match s.manager.find fd with
  | none => s
  | some c =>
    if c.endpoint.conn.state = .tlsHandshake then match handshake with
      | .failed => s.drop fd
      | .inProgress epollOut =>
        s.settle { conn := { c with endpoint := { c.endpoint with epollOut } }, keepOpen := true }
      | .complete => s.settle <| handle { c with
        endpoint := ⟨{ c.endpoint.conn with state := .reading }, false⟩
        readState := .headers }
    else s.settle (handle c)

/-- A writable socket is reported while EPOLLOUT is armed. -/
def writable (s : Loop) (fd : ℤ) : Bool := (s.manager.find fd).any fun c => c.endpoint.epollOut

def step (s : Loop) : LoopEvent → Loop
  | .accept fd nonBlocking maxConnections => s.accept fd nonBlocking maxConnections admitPlain
  | .acceptTls fd nonBlocking initialized maxConnections =>
    s.accept fd nonBlocking maxConnections (admitTls initialized)
  | .readable fd handshake services recv =>
    s.onClientEvent fd handshake fun c => c.handleRead services recv
  | .writable fd handshake send =>
    if s.writable fd then s.onClientEvent fd handshake fun c => c.handleWrite send else s
  | .hangup fd => s.drop fd
  | .completed connectionId completion =>
    if connectionId ∈ s.inFlight then
      let s := { s with inFlight := s.inFlight.erase connectionId }
      match s.manager.findById connectionId with
      | none => s
      | some c => s.settle (c.handleCompletion completion)
    else s
  | .sweep passed =>
    let timedOut := s.manager.connections.filter fun x => x.2.hasDeadlineExceeded (passed x.1)
    (timedOut.map Prod.fst).foldl drop s
  | .pingPass intervalMs now =>
    s.manager.connections.foldl (fun s x => s.settle (x.2.handlePing intervalMs now)) s
  | .shutdown => (s.manager.connections.map Prod.fst).foldl drop s

def run (s : Loop) (events : List LoopEvent) : Loop := events.foldl step s

end Loop
end Aevrix.Server
