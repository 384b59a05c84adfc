import Aevrix.Server.DescriptorOwners

/-!
# The deadline of a connection

`set_deadline` goes by the read state, and the event loop sets that to `Headers` once, when the
connection starts to read, and never again. So while no request is with a worker or an upstream,
the deadline of a connection that is not upgraded is the header timeout (`Entry.deadline`), in
whatever phase the connection is.
-/

namespace Aevrix.Server
open Aevrix.Http Aevrix.Ws
open Aevrix.Proxy (Recv ProxyOutcome)

/-! ### Handlers -/

theorem Timing.timeout_headers {t : Timing} (hactive : t.workerActive = false)
    (hweb : t.websocket = none) (hread : t.readState = .headers) : t.timeout = some .header := by
  rw [Timing.timeout, hactive, hweb, hread, if_neg Bool.false_ne_true]
  dsimp only
  rw [if_pos rfl, ite_self]

theorem Timing.timeout_handshake {t : Timing} (hactive : t.workerActive = false)
    (hstate : t.state = .tlsHandshake) : t.timeout = some .header := by
  rw [Timing.timeout, hactive, if_neg Bool.false_ne_true, if_pos hstate]

/-- What a handler leaves of a connection: an upgrade is for good, and a request is handed on
where the handler says so. It does not set the deadline again unless `again`. -/
structure Continues {σ : Type} (c : Connection σ) (again : Bool) (h : Handled σ) : Prop where
  id : h.conn.id = c.id
  websocket : h.conn.websocket = none → c.websocket = none
  place : h.conn.workerActive = true → h.keepOpen = true →
    h.place.isSome = true ∨ c.workerActive = true
  active : again = false → h.conn.workerActive = false → c.workerActive = false

section handlers
variable {σ : Type} {c : Connection σ} {e : Endpoint σ}

theorem Continues.of_same {h : Handled σ} (again : Bool) (hid : h.conn.id = c.id)
    (hweb : h.conn.websocket = none → c.websocket = none)
    (hactive : h.conn.workerActive = c.workerActive) : Continues c again h where
  id := hid
  websocket := hweb
  place := fun h _ => Or.inr (hactive ▸ h)
  active := fun _ h => hactive ▸ h

theorem readNonblocking_same (c : Connection σ) (recv : Recv) :
    (c.readNonblocking recv).2.id = c.id ∧
      (c.readNonblocking recv).2.websocket = c.websocket ∧
      (c.readNonblocking recv).2.workerActive = c.workerActive := by
  unfold Connection.readNonblocking
  split <;> exact ⟨rfl, rfl, rfl⟩

theorem writeNonblocking_same (c : Connection σ) (send : Send) :
    (c.writeNonblocking send).2.1.id = c.id ∧
      (c.writeNonblocking send).2.1.websocket = c.websocket ∧
      (c.writeNonblocking send).2.1.workerActive = c.workerActive := by
  unfold Connection.writeNonblocking
  split
  · exact ⟨rfl, rfl, rfl⟩
  split
  · exact ⟨rfl, rfl, rfl⟩
  cases send with
  | sent count =>
    dsimp only
    split <;> exact ⟨rfl, rfl, rfl⟩
  | again => exact ⟨rfl, rfl, rfl⟩
  | interrupted => exact ⟨rfl, rfl, rfl⟩
  | failed reason => exact ⟨rfl, rfl, rfl⟩

theorem feedParser_same (c : Connection σ) : c.feedParser.2.id = c.id ∧
    c.feedParser.2.websocket = c.websocket ∧ c.feedParser.2.workerActive = c.workerActive := by
  unfold Connection.feedParser
  split <;> exact ⟨rfl, rfl, rfl⟩

theorem applyProxyOutcome_same (e : Endpoint σ) (outcome : ProxyOutcome) :
    (applyProxyOutcome e outcome).conn.id = e.conn.id ∧
      (applyProxyOutcome e outcome).conn.websocket = e.conn.websocket ∧
      (applyProxyOutcome e outcome).conn.workerActive = false ∧
      (applyProxyOutcome e outcome).conn.state = e.conn.state ∧
      (applyProxyOutcome e outcome).place = none := by
  unfold applyProxyOutcome
  dsimp only
  split <;> exact ⟨rfl, rfl, rfl, rfl, rfl⟩

variable [WebSocketSession σ]

theorem dispatchRequest_continues (services : Services) (e : Endpoint σ) (request : HttpRequest)
    (hweb : e.conn.websocket = none) :
    Continues e.conn (services.dispatch request).inPlace (dispatchRequest services e request) := by
  unfold dispatchRequest
  cases hroute : services.dispatch request with
  | routed response =>
    dsimp only
    split <;> exact .of_same _ rfl id rfl
  | upgraded response => exact .of_same _ rfl (fun h => by cases h) rfl
  | refused verdict => exact .of_same _ rfl id rfl
  | proxied outcome =>
    cases outcome with
    | none => exact ⟨rfl, id, fun _ _ => Or.inl rfl, fun _ h => by cases h⟩
    | some outcome =>
      dsimp only
      obtain ⟨hid, hsame, hactive, -, -⟩ := applyProxyOutcome_same
        (⟨{ (e.conn.evaluateKeepAlive request).incrementRequestId with workerActive := true },
          e.epollOut⟩ : Endpoint σ) outcome
      refine ⟨hid, fun _ => hweb, ?_, fun h => by cases h⟩
      intro h
      rw [hactive] at h
      cases h
  | worker => exact ⟨rfl, id, fun _ _ => Or.inl rfl, fun _ h => by cases h⟩
  | overloaded => exact ⟨rfl, id, fun _ h => (by cases h), fun _ h => by cases h⟩

/-- The ping pass leaves a connection as it is, but for the session and its output. -/
theorem maintainWebsocket_same (e : Endpoint σ) (intervalMs now : ℕ) :
    let h := maintainWebsocket e intervalMs now
    h.conn.id = e.conn.id ∧ h.conn.state = e.conn.state ∧
      h.conn.workerActive = e.conn.workerActive ∧ h.place = none ∧ h.keepOpen = true ∧
      (h.conn.websocket = none ↔ e.conn.websocket = none) := by
  intro h
  unfold h maintainWebsocket
  cases hweb : e.conn.websocket with
  | none => exact ⟨rfl, rfl, rfl, rfl, rfl, iff_of_true hweb rfl⟩
  | some session =>
    dsimp only
    split <;> exact ⟨rfl, rfl, rfl, rfl, rfl, iff_of_false (Option.some_ne_none _) (Option.some_ne_none _)⟩

theorem handleWriteEvent_continues (e : Endpoint σ) (send : Send) (again : Bool) :
    Continues e.conn again (handleWriteEvent e send) := by
  obtain ⟨hid, hweb, hactive⟩ := writeNonblocking_same e.conn send
  unfold handleWriteEvent
  generalize e.conn.writeNonblocking send = write at hid hweb hactive ⊢
  obtain ⟨result, conn, sent⟩ := write
  have hstay (keepOpen : Bool) : Continues e.conn again
      { conn := conn, epollOut := e.epollOut, keepOpen, sent } :=
    .of_same _ hid (fun h => hweb ▸ h) hactive
  have hflushed : Continues e.conn again { outputFlushed ⟨conn, e.epollOut⟩ with sent } := by
    unfold outputFlushed
    dsimp only at hweb ⊢
    cases hsession : conn.websocket with
    | none =>
      dsimp only
      split <;> exact .of_same _ hid (fun h => hweb ▸ hsession) hactive
    | some session =>
      dsimp only
      split
      · split <;> exact .of_same _ hid (fun h => by cases h) hactive
      · exact .of_same _ hid (fun h => by cases h) hactive
  cases result with
  | inProgress => exact hstay true
  | error => exact hstay false
  | success =>
    dsimp only
    split
    · exact hflushed
    · exact hstay true
  | closed =>
    dsimp only
    split
    · exact hflushed
    · exact hstay true

end handlers

namespace ManagedConnection
variable (c : ManagedConnection)

theorem handleReadEvent_continues (services : Services) (recv : Recv) :
    Continues c.endpoint.conn (c.setsDeadlineAgain services recv)
      (handleReadEvent services c.endpoint recv) := by
  obtain ⟨hid, hweb, hactive⟩ := readNonblocking_same c.endpoint.conn recv
  unfold setsDeadlineAgain handleReadEvent
  generalize c.endpoint.conn.readNonblocking recv = read at hid hweb hactive ⊢
  obtain ⟨result, conn⟩ := read
  dsimp only at hid hweb hactive ⊢
  have hstay (keepOpen again : Bool) : Continues c.endpoint.conn again
      { conn := conn, epollOut := c.endpoint.epollOut, keepOpen } :=
    .of_same _ hid (fun h => hweb ▸ h) hactive
  cases result with
  | inProgress => exact hstay true _
  | closed => exact hstay false _
  | error => exact hstay false _
  | success =>
    cases hsession : conn.websocket with
    | some session =>
      dsimp only
      unfold readFrames
      dsimp only
      split <;> exact .of_same _ hid (fun h => by cases h) hactive
    | none =>
      dsimp only
      obtain ⟨hid', hweb', hactive'⟩ := feedParser_same conn
      generalize conn.feedParser = fed at hid' hweb' hactive' ⊢
      obtain ⟨ok, conn'⟩ := fed
      dsimp only at hid' hweb' hactive' ⊢
      have hnone : c.endpoint.conn.websocket = none := hweb ▸ hsession
      have hstay' (keepOpen again : Bool) : Continues c.endpoint.conn again
          { conn := conn', epollOut := c.endpoint.epollOut, keepOpen } :=
        .of_same _ (hid'.trans hid) (fun _ => hnone) (hactive'.trans hactive)
      cases ok with
      | false => exact hstay' false _
      | true =>
        cases herror : conn'.parser.hasError with
        | true => exact hstay' false _
        | false =>
          cases hcomplete : conn'.parser.isComplete with
          | false => exact hstay' true _
          | true =>
            have hdispatch := dispatchRequest_continues services ⟨conn', c.endpoint.epollOut⟩
              conn'.parser.request (hweb'.trans hsession)
            exact ⟨hdispatch.id.trans (hid'.trans hid), fun _ => hnone,
              fun h hopen => (hdispatch.place h hopen).imp_right fun h => hactive ▸ hactive' ▸ h,
              fun h h' => hactive ▸ hactive' ▸ hdispatch.active h h'⟩

end ManagedConnection

/-! ### Connections of the loop -/

/-- What holds of a registered connection; `inFlight` are the connections of the requests that
workers and upstreams have. -/
structure Entry (inFlight : List ℕ) (c : ManagedConnection) : Prop where
  reads : c.readState = .headers ∨ c.endpoint.conn.state = .tlsHandshake
  waits : c.endpoint.conn.workerActive = true → c.id ∈ inFlight
  deadline : c.endpoint.conn.websocket = none → c.endpoint.conn.workerActive = false →
    c.timeout = some .header

/-- The connections of the requests in flight once a handler has handed on another one. -/
def Reacted.inFlight (r : Reacted) (inFlight : List ℕ) : List ℕ :=
  if r.place.isSome then inFlight ++ [r.conn.id] else inFlight

theorem Reacted.mem_inFlight {r : Reacted} {inFlight : List ℕ} {n : ℕ} (h : n ∈ inFlight) :
    n ∈ r.inFlight inFlight := by
  unfold Reacted.inFlight
  split
  · exact List.mem_append_left _ h
  · exact h

theorem Entry.mono {xs ys : List ℕ} {c : ManagedConnection} (h : Entry xs c)
    (hsub : ∀ n ∈ xs, n ∈ ys) : Entry ys c :=
  ⟨h.reads, fun hactive => hsub _ (h.waits hactive), h.deadline⟩

/-- A handler keeps to its connection, and leaves it as every registered connection is. -/
structure Reacts (inFlight : List ℕ) (c : ManagedConnection) (r : Reacted) : Prop where
  fd : r.conn.fd = c.fd
  id : r.conn.id = c.id
  entry : r.keepOpen = true → Entry (r.inFlight inFlight) r.conn

namespace ManagedConnection
variable {c : ManagedConnection} {inFlight : List ℕ}

theorem timeout_timing (hread : c.readState = .headers)
    (hweb : c.endpoint.conn.websocket = none) (hactive : c.endpoint.conn.workerActive = false) :
    c.timing.timeout = some .header :=
  Timing.timeout_headers hactive (by rw [timing, Server.timing, hweb, Option.map_none]) hread

theorem reacts_of_continues {again : Bool} {h : Handled WebSocketConnection}
    (hread : c.readState = .headers)
    (hwaits : c.endpoint.conn.workerActive = true → c.id ∈ inFlight)
    (hcontinues : Continues c.endpoint.conn again h) :
    Reacts inFlight c
      (if again then { c.setDeadline.reacted h with conn := (c.setDeadline.reacted h).conn.setDeadline }
        else c.setDeadline.reacted h) := by
  have hwaiting {r : Reacted} (hplace : r.place = h.place) (hid : r.conn.id = h.conn.id)
      (hactive : h.conn.workerActive = true) (hopen : h.keepOpen = true) :
      r.conn.id ∈ r.inFlight inFlight := by
    rw [Reacted.inFlight, hplace]
    rcases hcontinues.place hactive hopen with hsome | hbefore
    · rw [if_pos hsome]
      exact List.mem_append_right _ List.mem_cons_self
    · have hin : r.conn.id ∈ inFlight := (hid.trans hcontinues.id) ▸ hwaits hbefore
      split
      · exact List.mem_append_left _ hin
      · exact hin
  cases again with
  | true =>
    refine ⟨rfl, hcontinues.id, fun hopen => ⟨Or.inl hread, ?_, ?_⟩⟩
    · intro hactive
      exact hwaiting rfl rfl hactive hopen
    · intro hweb hactive
      exact timeout_timing hread hweb hactive
  | false =>
    refine ⟨rfl, hcontinues.id, fun hopen => ⟨Or.inl hread, ?_, ?_⟩⟩
    · intro hactive
      exact hwaiting rfl rfl hactive hopen
    · intro hweb hactive
      exact timeout_timing hread (hcontinues.websocket hweb) (hcontinues.active rfl hactive)

theorem handleRead_reacts (hread : c.readState = .headers)
    (hwaits : c.endpoint.conn.workerActive = true → c.id ∈ inFlight) (services : Services)
    (recv : Recv) : Reacts inFlight c (c.handleRead services recv) :=
  reacts_of_continues hread hwaits (c.handleReadEvent_continues services recv)

theorem handleWrite_reacts (hread : c.readState = .headers)
    (hwaits : c.endpoint.conn.workerActive = true → c.id ∈ inFlight) (send : Send) :
    Reacts inFlight c (c.handleWrite send) :=
  reacts_of_continues hread hwaits (handleWriteEvent_continues c.endpoint send _)

/-- Once the answer of a worker or an upstream is there, the connection waits for no other. -/
theorem handleCompletion_reacts
    (hreads : c.readState = .headers ∨ c.endpoint.conn.state = .tlsHandshake)
    (completion : Completion) : Reacts inFlight c (c.handleCompletion completion) := by
  have htimeout (hweb : c.endpoint.conn.websocket = none) :
      (Server.timing { c.endpoint.conn with workerActive := false } c.readState).timeout =
        some .header := by
    rcases hreads with hread | hstate
    · exact timeout_timing (c := { c with
        endpoint := { c.endpoint with conn := { c.endpoint.conn with workerActive := false } } })
        hread hweb rfl
    · exact Timing.timeout_handshake rfl hstate
  cases completion with
  | worker result =>
    exact ⟨rfl, rfl, fun _ => ⟨hreads, (fun h => by cases h), fun hweb _ => htimeout hweb⟩⟩
  | upstream outcome =>
    obtain ⟨hid, hweb, hactive, hstate, hplace⟩ := applyProxyOutcome_same c.endpoint outcome
    refine ⟨rfl, hid, fun _ => ⟨hreads.imp_right hstate.trans, ?_, ?_⟩⟩
    · intro h
      exact absurd (hactive.symm.trans h) Bool.false_ne_true
    · intro hnone _
      exact htimeout (hweb.symm.trans hnone)

theorem handlePing_keepOpen (c : ManagedConnection) (intervalMs now : ℕ) :
    (c.handlePing intervalMs now).keepOpen = true := by
  obtain ⟨-, -, -, -, hopen, -⟩ := maintainWebsocket_same c.endpoint intervalMs now
  unfold handlePing
  dsimp only
  split <;> exact hopen

theorem handlePing_reacts (h : Entry inFlight c) (intervalMs now : ℕ) :
    Reacts inFlight c (c.handlePing intervalMs now) := by
  obtain ⟨hid, hstate, hactive, hplace, -, hweb⟩ :=
    maintainWebsocket_same c.endpoint intervalMs now
  have hpinged (timeout : Option Timeout)
      (hdeadline : c.endpoint.conn.websocket = none → timeout = c.timeout) :
      Entry inFlight { c with
        endpoint := (maintainWebsocket c.endpoint intervalMs now).toEndpoint
        timeout } := by
    refine ⟨h.reads.imp_right hstate.trans, ?_, ?_⟩
    · intro hon
      exact (congrArg (· ∈ inFlight) hid).mpr (h.waits (hactive ▸ hon))
    · intro hnone hoff
      exact (hdeadline (hweb.mp hnone)).trans (h.deadline (hweb.mp hnone) (hactive ▸ hoff))
  unfold handlePing
  dsimp only
  split
  · rename_i hdue
    refine ⟨rfl, hid, fun _ => ?_⟩
    rw [Reacted.inFlight, show (Reacted.place _) = none from hplace]
    apply hpinged
    intro hnone
    rw [Program.pingDue, hnone] at hdue
    cases hdue
  · refine ⟨rfl, hid, fun _ => ?_⟩
    rw [Reacted.inFlight, show (Reacted.place _) = none from hplace]
    exact hpinged c.timeout fun _ => rfl

end ManagedConnection

/-! ### The loop -/

namespace Loop
variable {s : Loop} {fd : ℤ}

/-- Connections have numbers of their own and identifiers of their own. -/
structure Registered (s : Loop) : Prop where
  sound : s.Sound
  ids : (s.manager.connections.map fun x => x.2.id).Nodup
  fresh : ∀ x ∈ s.manager.connections, x.2.id < s.manager.nextConnectionId

/-- The loop between two events. -/
structure Phased (s : Loop) : Prop where
  registered : s.Registered
  entries : ∀ x ∈ s.manager.connections, Entry s.inFlight x.2

theorem drop_subset (s : Loop) (fd : ℤ) :
    (s.drop fd).manager.connections.Sublist s.manager.connections ∧
      (s.drop fd).manager.nextConnectionId = s.manager.nextConnectionId ∧
      (s.drop fd).inFlight = s.inFlight := by
  unfold drop
  split
  · exact ⟨List.Sublist.refl _, rfl, rfl⟩
  · exact ⟨List.filter_sublist, rfl, rfl⟩

theorem mem_drop {x : ℤ × ManagedConnection} (h : x ∈ (s.drop fd).manager.connections) :
    x ∈ s.manager.connections ∧ x.1 ≠ fd := by
  unfold Loop.drop at h
  split at h
  · rename_i hnone
    refine ⟨h, ?_⟩
    intro heq
    exact Keyed.lookup_eq_none.mp hnone (heq ▸ List.mem_map_of_mem (f := Prod.fst) h)
  · exact Keyed.mem_erase.mp h

/-- The connections that are left once what a handler leaves is settled. -/
theorem mem_settle {r : Reacted} {x : ℤ × ManagedConnection}
    (h : x ∈ (s.settle r).manager.connections) :
    x = (r.conn.fd, r.conn) ∧ r.keepOpen = true ∨
      x ∈ s.manager.connections ∧ x.1 ≠ r.conn.fd := by
  unfold Loop.settle at h
  cases hopen : r.keepOpen with
  | true =>
    rw [hopen, if_pos rfl] at h
    exact (Keyed.mem_put h).imp_left fun heq => ⟨heq, rfl⟩
  | false =>
    rw [hopen, if_neg Bool.false_ne_true] at h
    obtain ⟨hput, hne⟩ := mem_drop h
    rcases Keyed.mem_put hput with rfl | hrest
    · exact absurd rfl hne
    · exact Or.inr hrest

theorem Registered.drop (h : s.Registered) (fd : ℤ) : (s.drop fd).Registered := by
  obtain ⟨hsub, hnext, -⟩ := drop_subset s fd
  refine ⟨(tidy_drop s fd h.sound).1, h.ids.sublist (hsub.map _), ?_⟩
  intro x hx
  rw [hnext]
  exact h.fresh x (hsub.subset hx)

theorem Phased.drop (h : s.Phased) (fd : ℤ) : (s.drop fd).Phased := by
  obtain ⟨hsub, -, hin⟩ := drop_subset s fd
  refine ⟨h.registered.drop fd, ?_⟩
  intro x hx
  rw [hin]
  exact h.entries x (hsub.subset hx)

/-- What a handler leaves of a registered connection is settled, and the others are as before. -/
theorem Registered.settle (h : s.Registered) {c : ManagedConnection} {r : Reacted}
    (hmem : (c.fd, c) ∈ s.manager.connections) (hr : Reacts s.inFlight c r)
    (hothers : ∀ x ∈ s.manager.connections, x.1 ≠ c.fd → Entry s.inFlight x.2) :
    (s.settle r).Phased := by
  have hput : Registered { s with
      manager := s.manager.put r.conn.fd r.conn
      inFlight := r.inFlight s.inFlight } := by
    have hids := Keyed.map_put ManagedConnection.id h.sound.registered hmem hr.id
    refine ⟨(tidy_put s r.conn _ h.sound).1, ?_, ?_⟩
    · rw [← hr.fd] at hids
      exact hids.symm ▸ h.ids
    · intro x hx
      rcases Keyed.mem_put hx with rfl | ⟨hx, _⟩
      · exact (congrArg (· < s.manager.nextConnectionId) hr.id).mpr (h.fresh _ hmem)
      · exact h.fresh x hx
  have hother {x : ℤ × ManagedConnection} (hx : x ∈ s.manager.connections)
      (hne : x.1 ≠ r.conn.fd) : Entry (r.inFlight s.inFlight) x.2 :=
    (hothers x hx (hr.fd ▸ hne)).mono fun n hn => Reacted.mem_inFlight hn
  unfold Loop.settle
  cases hopen : r.keepOpen with
  | true =>
    rw [if_pos rfl]
    refine ⟨hput, ?_⟩
    intro x hx
    rcases Keyed.mem_put hx with rfl | ⟨hx, hne⟩
    · exact hr.entry hopen
    · exact hother hx hne
  | false =>
    rw [if_neg Bool.false_ne_true]
    refine ⟨hput.drop _, ?_⟩
    intro x hx
    obtain ⟨hx, hne⟩ := mem_drop hx
    rw [(drop_subset _ _).2.2]
    rcases Keyed.mem_put hx with rfl | ⟨hx, _⟩
    · exact absurd rfl hne
    · exact hother hx hne

theorem Phased.settle (h : s.Phased) {c : ManagedConnection} {r : Reacted}
    (hmem : (c.fd, c) ∈ s.manager.connections) (hr : Reacts s.inFlight c r) :
    (s.settle r).Phased :=
  h.registered.settle hmem hr fun x hx _ => h.entries x hx

theorem Registered.mem_of_find (h : s.Registered) {c : ManagedConnection}
    (hfind : s.manager.find fd = some c) : (c.fd, c) ∈ s.manager.connections := by
  have hmem : (fd, c) ∈ s.manager.connections := Keyed.mem_of_lookup hfind
  have hfd : c.fd = fd := h.sound.own _ hmem
  rw [hfd]
  exact hmem

theorem Phased.onClientEvent (h : s.Phased) (fd : ℤ) (handshake : Handshake)
    {handle : ManagedConnection → Reacted}
    (hhandle : ∀ c : ManagedConnection, c.readState = .headers →
      (c.endpoint.conn.workerActive = true → c.id ∈ s.inFlight) →
        Reacts s.inFlight c (handle c)) : (s.onClientEvent fd handshake handle).Phased := by
  unfold Loop.onClientEvent
  split
  · exact h
  · rename_i c hfind
    have hmem := h.registered.mem_of_find hfind
    have hentry := h.entries _ hmem
    split
    · cases handshake with
      | failed => exact h.drop fd
      | inProgress epollOut =>
        apply h.settle hmem
        exact ⟨rfl, rfl, fun _ => ⟨hentry.reads, hentry.waits, hentry.deadline⟩⟩
      | complete =>
        have hreacts := hhandle { c with
          endpoint := ⟨{ c.endpoint.conn with state := .reading }, false⟩
          readState := .headers } rfl hentry.waits
        exact h.settle hmem ⟨hreacts.fd, hreacts.id, hreacts.entry⟩
    · rename_i hstate
      exact h.settle hmem (hhandle c (hentry.reads.resolve_right hstate) hentry.waits)

theorem admitPlain_reacts {inFlight : List ℕ} {c : ManagedConnection}
    (hactive : c.endpoint.conn.workerActive = false) : Reacts inFlight c (admitPlain c) := by
  refine ⟨rfl, rfl, fun _ => ⟨Or.inl rfl, ?_, ?_⟩⟩
  · intro h
    exact absurd (hactive.symm.trans h) Bool.false_ne_true
  · intro hweb _
    exact ManagedConnection.timeout_timing (c := { c with
      endpoint := { c.endpoint with conn := { c.endpoint.conn with state := .reading } }
      readState := .headers }) rfl hweb hactive

theorem admitTls_reacts {inFlight : List ℕ} {c : ManagedConnection}
    (hactive : c.endpoint.conn.workerActive = false) (initialized : Bool) :
    Reacts inFlight c (admitTls initialized c) := by
  cases initialized with
  | false => exact ⟨rfl, rfl, fun h => by cases h⟩
  | true =>
    refine ⟨rfl, rfl, fun _ => ⟨Or.inr rfl, ?_, ?_⟩⟩
    · intro h
      exact absurd (hactive.symm.trans h) Bool.false_ne_true
    · intro _ _
      exact Timing.timeout_handshake hactive rfl

theorem Phased.accept (h : s.Phased) (fd : ℤ) (nonBlocking : Bool) (maxConnections : ℕ)
    {welcome : ManagedConnection → Reacted}
    (hwelcome : ∀ c : ManagedConnection, c.endpoint.conn.workerActive = false →
      Reacts s.inFlight c (welcome c)) :
    (s.accept fd nonBlocking maxConnections welcome).Phased := by
  rcases accept_cases h.registered.sound fd nonBlocking maxConnections welcome with
    ⟨d, ht, _, hsound, _⟩ | ⟨c, hactive, _, hfree, hmem, ht⟩
  · rw [ht] at hsound ⊢
    exact ⟨⟨hsound, h.registered.ids, h.registered.fresh⟩, h.entries⟩
  · obtain ⟨hsound, _⟩ := h.registered.sound.register hfree
    have hregistered : (s.registered fd).Registered := by
      refine ⟨hsound, ?_, ?_⟩
      · rw [Loop.registered, List.map_append, List.map_cons, List.map_nil, ← List.concat_eq_append]
        apply h.registered.ids.concat
        intro hin
        obtain ⟨x, hx, hid⟩ := List.mem_map.mp hin
        exact absurd (hid ▸ h.registered.fresh x hx) (lt_irrefl _)
      · intro x hx
        rcases List.mem_append.mp hx with hx | hx
        · exact Nat.lt_succ_of_lt (h.registered.fresh x hx)
        · rw [List.mem_singleton.mp hx]
          exact Nat.lt_succ_self _
    have hfd : c.fd = fd := hsound.own _ hmem
    rw [ht]
    apply hregistered.settle (hfd.symm ▸ hmem) (hwelcome c hactive)
    intro x hx hne
    rcases List.mem_append.mp hx with hx | hx
    · exact h.entries x hx
    · rw [List.mem_singleton.mp hx] at hne
      exact absurd hfd.symm hne

theorem Phased.completed (h : s.Phased) (connectionId : ℕ) (completion : Completion) :
    (s.step (.completed connectionId completion)).Phased := by
  dsimp only [step]
  split
  · have hids : Registered { s with inFlight := s.inFlight.erase connectionId } :=
      ⟨⟨h.registered.sound.descriptors, h.registered.sound.registered, h.registered.sound.own,
        h.registered.sound.inUse⟩, h.registered.ids, h.registered.fresh⟩
    have hother {x : ℤ × ManagedConnection} (hx : x ∈ s.manager.connections)
        (hne : x.2.id ≠ connectionId) : Entry (s.inFlight.erase connectionId) x.2 := by
      have hentry := h.entries x hx
      refine ⟨hentry.reads, ?_, hentry.deadline⟩
      intro hactive
      exact (List.mem_erase_of_ne hne).mpr (hentry.waits hactive)
    split
    · rename_i hnone
      refine ⟨hids, ?_⟩
      intro x hx
      apply hother hx
      intro heq
      rw [ConnectionManager.findById, Option.map_eq_none_iff, List.find?_eq_none] at hnone
      exact hnone x hx (beq_iff_eq.mpr heq)
    · rename_i c hfound
      obtain ⟨⟨k, c⟩, hfind, rfl⟩ := Option.map_eq_some_iff.mp hfound
      have hmem := List.mem_of_find?_eq_some hfind
      have hmatches := List.find?_some hfind
      have hid : c.id = connectionId := beq_iff_eq.mp hmatches
      have hfd : c.fd = k := h.registered.sound.own _ hmem
      have hentry := h.entries _ hmem
      apply hids.settle (hfd.symm ▸ hmem)
        (ManagedConnection.handleCompletion_reacts hentry.reads completion)
      intro x hx hne
      apply hother hx
      intro heq
      apply hne
      have hsame : x = (k, c) :=
        List.inj_on_of_nodup_map h.registered.ids hx hmem (heq.trans hid.symm)
      rw [hsame]
      exact hfd.symm
  · exact h

theorem Phased.pingPass (xs : List (ℤ × ManagedConnection)) (intervalMs now : ℕ) (h : s.Phased)
    (hmem : ∀ x ∈ xs, x ∈ s.manager.connections) (hnodup : (Keyed.keys xs).Nodup) :
    (xs.foldl (fun s x => s.settle (x.2.handlePing intervalMs now)) s).Phased := by
  induction xs generalizing s with
  | nil => exact h
  | cons x xs ih =>
    obtain ⟨hnew, hrest⟩ := List.nodup_cons.mp hnodup
    have hx := hmem x List.mem_cons_self
    have hfd : x.2.fd = x.1 := h.registered.sound.own x hx
    have hreacts := ManagedConnection.handlePing_reacts (h.entries x hx) intervalMs now
    apply ih (h.settle (hfd.symm ▸ hx) hreacts) _ hrest
    intro y hy
    have hne : y.1 ≠ x.1 := by
      intro heq
      exact hnew (heq ▸ List.mem_map_of_mem (f := Prod.fst) hy)
    rw [Loop.settle, ManagedConnection.handlePing_keepOpen, if_pos rfl, hreacts.fd, hfd]
    exact Keyed.mem_put_of_ne (hmem y (List.mem_cons_of_mem x hy)) hne

theorem Phased.drops (h : s.Phased) (fds : List ℤ) : (fds.foldl Loop.drop s).Phased := by
  induction fds generalizing s with
  | nil => exact h
  | cons fd fds ih => exact ih (h.drop fd)

theorem Phased.step (h : s.Phased) (e : LoopEvent) : (s.step e).Phased := by
  cases e with
  | accept fd nonBlocking maxConnections =>
    exact h.accept fd nonBlocking maxConnections fun _ => admitPlain_reacts
  | acceptTls fd nonBlocking initialized maxConnections =>
    exact h.accept fd nonBlocking maxConnections fun _ hactive =>
      admitTls_reacts hactive initialized
  | readable fd handshake services recv =>
    exact h.onClientEvent fd handshake fun c hread hwaits =>
      ManagedConnection.handleRead_reacts hread hwaits services recv
  | writable fd handshake send =>
    dsimp only [Loop.step]
    split
    · exact h.onClientEvent fd handshake fun c hread hwaits =>
        ManagedConnection.handleWrite_reacts hread hwaits send
    · exact h
  | hangup fd => exact h.drop fd
  | completed connectionId completion => exact h.completed connectionId completion
  | sweep passed => exact h.drops _
  | pingPass intervalMs now =>
    exact h.pingPass _ intervalMs now (fun _ hx => hx) h.registered.sound.registered
  | shutdown => exact h.drops _

theorem phased_initial : ({} : Loop).Phased where
  registered := ⟨sound_initial, List.nodup_nil, fun _ hx => absurd hx List.not_mem_nil⟩
  entries := fun _ hx => absurd hx List.not_mem_nil

theorem Phased.run (h : s.Phased) (events : List LoopEvent) : (s.run events).Phased := by
  induction events generalizing s with
  | nil => exact h
  | cons e events ih => exact ih (h.step e)

theorem phased_run (events : List LoopEvent) : (({} : Loop).run events).Phased :=
  phased_initial.run events

end Loop

/-! ### Phases -/

namespace ManagedConnection
variable (c : ManagedConnection)

def inBody : Prop := c.endpoint.conn.parser.state = .body

def hasOutput : Prop := c.endpoint.conn.hasPendingOutput = true

/-- Between two requests: one was taken, its response has left, and no byte of the next is there. -/
def isIdle : Prop :=
  0 < c.endpoint.conn.requestId ∧ c.endpoint.conn.parser.state = .requestLine ∧
    c.endpoint.conn.parser.buffer = [] ∧ c.endpoint.conn.hasPendingOutput = false

def inHead : Prop :=
  (c.endpoint.conn.parser.state = .requestLine ∨ c.endpoint.conn.parser.state = .headers) ∧
    ¬c.isIdle

/-- The timeout of the deadline is the one of the phase. -/
structure DeadlineMatches : Prop where
  head : c.inHead → c.timeout = some .header
  body : c.inBody → c.timeout = some .body
  output : c.hasOutput → c.timeout = some .write
  idle : c.isIdle → c.timeout = some .keepAlive

end ManagedConnection

/-- In every state of the loop, a connection that is not upgraded and has no request with a worker
or an upstream has the deadline of its phase exactly when it is in none of the phases behind the
head of a request. -/
theorem deadlineMatches_iff (events : List LoopEvent) (x : ℤ × ManagedConnection)
    (hmem : x ∈ (({} : Loop).run events).manager.connections)
    (hweb : x.2.endpoint.conn.websocket = none)
    (hidle : x.2.id ∉ (({} : Loop).run events).inFlight) :
    x.2.DeadlineMatches ↔ ¬x.2.inBody ∧ ¬x.2.hasOutput ∧ ¬x.2.isIdle := by
  have hentry := (Loop.phased_run events).entries x hmem
  have hactive : x.2.endpoint.conn.workerActive = false := by
    cases hactive : x.2.endpoint.conn.workerActive with
    | false => rfl
    | true => exact absurd (hentry.waits hactive) hidle
  have htimeout := hentry.deadline hweb hactive
  constructor
  · intro h
    refine ⟨?_, ?_, ?_⟩
    · intro hbody
      cases htimeout.symm.trans (h.body hbody)
    · intro houtput
      cases htimeout.symm.trans (h.output houtput)
    · intro hbetween
      cases htimeout.symm.trans (h.idle hbetween)
  · rintro ⟨hbody, houtput, hbetween⟩
    exact ⟨fun _ => htimeout, fun h => absurd h hbody, fun h => absurd h houtput,
      fun h => absurd h hbetween⟩

/-- A client that has connected. -/
def connected : ManagedConnection where
  fd := 5
  endpoint := ⟨{ id := 1, state := .reading }, false⟩
  readState := .headers
  timeout := some .header

theorem connected_deadlineMatches :
    connected.DeadlineMatches ↔ ¬connected.inBody ∧ ¬connected.hasOutput ∧ ¬connected.isIdle :=
  deadlineMatches_iff [.accept 5 true 1] (5, connected) List.mem_cons_self rfl List.not_mem_nil

def fileServices : Services where
  routes := []
  websocketEnabled := false
  websocketMaxMessageBytes := 0
  evaluateUpgrade _ := {}
  proxyHandles _ := false
  proxyStart _ := none
  documentRoot := []
  workerAccepts := true

/-- A client that has sent the head of its request and owes the body. -/
def upload : List LoopEvent :=
  [.accept 5 true 1, .readable 5 .complete fileServices
    (.data (ascii "POST / HTTP/1.1\r\nContent-Length: 5\r\n\r\n"))]

/-- The body is waited for with the deadline of the head. -/
theorem body_with_header_deadline :
    ¬∀ events x, x ∈ (({} : Loop).run events).manager.connections →
      x.2.endpoint.conn.websocket = none → x.2.id ∉ (({} : Loop).run events).inFlight →
        x.2.DeadlineMatches := by
  intro h
  have hall : (({} : Loop).run upload).inFlight = [] ∧
      (({} : Loop).run upload).manager.connections.length = 1 ∧
      ∀ x ∈ (({} : Loop).run upload).manager.connections,
        x.2.endpoint.conn.websocket.isNone = true ∧ x.2.endpoint.conn.parser.state = .body ∧
          x.2.timeout = some .header := by decide
  obtain ⟨hnone, hone, hall⟩ := hall
  obtain ⟨x, hx⟩ := List.exists_mem_of_length_pos (hone ▸ Nat.one_pos)
  obtain ⟨hweb, hbody, htimeout⟩ := hall x hx
  have hmatches := h upload x hx (Option.isNone_iff_eq_none.mp hweb)
    (hnone ▸ List.not_mem_nil)
  cases htimeout.symm.trans (hmatches.body hbody)

end Aevrix.Server
