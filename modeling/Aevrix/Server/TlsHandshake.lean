import Aevrix.Server.Attribution

/-!
# Connections in their TLS handshake (`tls_connection.cpp`, `main.cpp`)

A connection that the TLS listener accepted is registered at once, before its handshake. Until
SSL_accept has reported success nothing of it is read as HTTP, nothing is queued on it and no
worker or upstream has a request of it; and there is no other way out of the handshake than that
success (`handshake_first`).
-/

namespace Aevrix.Server
open Aevrix.Http Aevrix.Ws
open Aevrix.Proxy (Recv ProxyOutcome)

/-! ### One handshake call -/

inductive TlsIoRequirement where
  | none | wantRead | wantWrite | both | closed
  deriving DecidableEq, Repr

inductive TlsHandshakeState where
  | notStarted | inProgress | complete | failed
  deriving DecidableEq, Repr

/-- What SSL_get_error tells. -/
inductive SslError where
  | wantRead | wantWrite | zeroReturn | syscall | ssl | other
  deriving DecidableEq, Repr

/-- `valid`: there is an SSL object. -/
structure TlsConnection where
  valid : Bool
  handshakeState : TlsHandshakeState := .notStarted

namespace TlsConnection

/-- `handle_ssl_error` (`tls_connection.cpp:187-220`). -/
def handleSslError : SslError → TlsIoRequirement
  | .wantRead => .wantRead
  | .wantWrite => .wantWrite
  | .zeroReturn | .syscall | .ssl | .other => .closed

/-- `do_handshake` (`tls_connection.cpp:74-104`); `accepted` is what SSL_accept comes to, `none`
where it has succeeded. -/
def doHandshake (t : TlsConnection) (accepted : Option SslError) :
    TlsIoRequirement × TlsConnection :=
  if !t.valid then (.closed, { t with handshakeState := .failed })
  else match accepted with
    | none => (.none, { t with handshakeState := .complete })
    | some error =>
      let required := handleSslError error
      (required, { t with
        handshakeState := if required = .closed then .failed else .inProgress })

/-- What the callback of a connection makes of it (`main.cpp:1970-1999`). -/
def handshake (t : TlsConnection) (accepted : Option SslError) : Handshake × TlsConnection :=
  let (required, t) := t.doHandshake accepted
  (if t.handshakeState = .complete then .complete
    else if t.handshakeState = .failed then .failed
    else .inProgress (required = .wantWrite ∨ required = .both), t)

theorem handshake_complete_iff (t : TlsConnection) (accepted : Option SslError) :
    (t.handshake accepted).1 = .complete ↔ t.valid = true ∧ accepted = none := by
  unfold handshake doHandshake
  cases t.valid with
  | false =>
    refine ⟨fun h => ?_, fun h => ?_⟩
    · cases h
    · cases h.1
  | true =>
    cases accepted with
    | none => exact ⟨fun _ => ⟨rfl, rfl⟩, fun _ => rfl⟩
    | some error =>
      refine ⟨fun h => ?_, fun h => by cases h.2⟩
      cases error <;> cases h

end TlsConnection

/-! ### The state of a connection under the handlers -/

section states
variable {σ : Type} [WebSocketSession σ]

omit [WebSocketSession σ] in
theorem readNonblocking_state (c : Connection σ) (recv : Recv) :
    (c.readNonblocking recv).2.state = c.state := by
  unfold Connection.readNonblocking
  split <;> rfl

omit [WebSocketSession σ] in
theorem feedParser_state (c : Connection σ) : c.feedParser.2.state = c.state := by
  unfold Connection.feedParser
  split <;> rfl

omit [WebSocketSession σ] in
theorem writeNonblocking_state (c : Connection σ) (send : Send) :
    (c.writeNonblocking send).2.1.state = c.state := by
  unfold Connection.writeNonblocking
  split
  · rfl
  split
  · rfl
  cases send with
  | sent count =>
    dsimp only
    split <;> rfl
  | again => rfl
  | interrupted => rfl
  | failed reason => rfl

theorem dispatchRequest_state (services : Services) (e : Endpoint σ) (request : HttpRequest) :
    (dispatchRequest services e request).conn.state = e.conn.state ∨
      (dispatchRequest services e request).conn.state = .writing := by
  unfold dispatchRequest
  cases services.dispatch request with
  | routed response =>
    dsimp only
    split
    · exact Or.inl rfl
    · exact Or.inr rfl
  | upgraded response => exact Or.inr rfl
  | refused verdict => exact Or.inr rfl
  | proxied outcome =>
    cases outcome with
    | none => exact Or.inl rfl
    | some outcome => exact Or.inl (applyProxyOutcome_same _ outcome).2.2.2.1
  | worker => exact Or.inl rfl
  | overloaded => exact Or.inl rfl

theorem handleReadEvent_state (services : Services) (e : Endpoint σ) (recv : Recv) :
    (handleReadEvent services e recv).conn.state = e.conn.state ∨
      (handleReadEvent services e recv).conn.state = .writing := by
  have hread := readNonblocking_state e.conn recv
  unfold handleReadEvent
  generalize e.conn.readNonblocking recv = read at hread ⊢
  obtain ⟨result, conn⟩ := read
  dsimp only at hread ⊢
  cases result with
  | inProgress => exact Or.inl hread
  | closed => exact Or.inl hread
  | error => exact Or.inl hread
  | success =>
    cases conn.websocket with
    | some session =>
      dsimp only
      unfold readFrames
      dsimp only
      split
      · exact Or.inl hread
      · exact Or.inl hread
    | none =>
      dsimp only
      have hfed := feedParser_state conn
      generalize conn.feedParser = fed at hfed ⊢
      obtain ⟨ok, conn'⟩ := fed
      dsimp only at hfed ⊢
      split
      · exact Or.inl (hfed.trans hread)
      split
      · exact Or.inl (hfed.trans hread)
      split
      · rcases dispatchRequest_state services ⟨conn', e.epollOut⟩ conn'.parser.request with
          hsame | hwriting
        · exact Or.inl (hsame.trans (hfed.trans hread))
        · exact Or.inr hwriting
      · exact Or.inl (hfed.trans hread)

theorem handleWriteEvent_state (e : Endpoint σ) (send : Send) :
    (handleWriteEvent e send).conn.state = e.conn.state := by
  have hwrite := writeNonblocking_state e.conn send
  unfold handleWriteEvent
  generalize e.conn.writeNonblocking send = write at hwrite ⊢
  obtain ⟨result, conn, sent⟩ := write
  dsimp only at hwrite ⊢
  have hflushed : (outputFlushed (⟨conn, e.epollOut⟩ : Endpoint σ)).conn.state = conn.state := by
    unfold outputFlushed
    dsimp only
    cases conn.websocket with
    | none =>
      dsimp only
      split <;> rfl
    | some session =>
      dsimp only
      split
      · split <;> rfl
      · rfl
  cases result with
  | inProgress => exact hwrite
  | error => exact hwrite
  | success =>
    dsimp only
    split
    · exact hflushed.trans hwrite
    · exact hwrite
  | closed =>
    dsimp only
    split
    · exact hflushed.trans hwrite
    · exact hwrite

end states

namespace ManagedConnection
variable {c : ManagedConnection}

/-- The connection is in its handshake. -/
def Shaking (c : ManagedConnection) : Prop := c.endpoint.conn.state = .tlsHandshake

/-- The connection is as it was registered, but that its handshake has begun. -/
def Untouched (c : ManagedConnection) : Prop :=
  c.endpoint.conn = { id := c.id, state := .tlsHandshake }

theorem handleRead_shaking (h : ¬c.Shaking) (services : Services) (recv : Recv) :
    ¬(c.handleRead services recv).conn.Shaking := by
  have hstate := handleReadEvent_state services c.endpoint recv
  have hsame : (c.handleRead services recv).conn.endpoint.conn.state =
      (handleReadEvent services c.endpoint recv).conn.state := by
    unfold handleRead
    dsimp only
    split <;> rfl
  unfold Shaking at h ⊢
  rw [hsame]
  rcases hstate with hkept | hwriting
  · rwa [hkept]
  · rw [hwriting]
    exact ConnectionState.noConfusion

theorem handleWrite_shaking (h : ¬c.Shaking) (send : Send) :
    ¬(c.handleWrite send).conn.Shaking := by
  have hsame : (c.handleWrite send).conn.endpoint.conn.state =
      (handleWriteEvent c.endpoint send).conn.state := by
    unfold handleWrite
    dsimp only
    split <;> rfl
  unfold Shaking at h ⊢
  rwa [hsame, handleWriteEvent_state]

theorem handleCompletion_shaking (h : ¬c.Shaking) (completion : Completion) :
    ¬(c.handleCompletion completion).conn.Shaking := by
  cases completion with
  | worker result => exact h
  | upstream outcome =>
    have hstate := (applyProxyOutcome_same c.endpoint outcome).2.2.2.1
    unfold Shaking at h ⊢
    rwa [show (c.handleCompletion (.upstream outcome)).conn.endpoint.conn.state = _ from hstate]

theorem handlePing_state (c : ManagedConnection) (intervalMs now : ℕ) :
    (c.handlePing intervalMs now).conn.endpoint.conn =
        (maintainWebsocket c.endpoint intervalMs now).conn ∧
      (c.handlePing intervalMs now).place = none := by
  obtain ⟨-, -, -, hplace, -⟩ := maintainWebsocket_same c.endpoint intervalMs now
  unfold handlePing
  dsimp only
  split
  · exact ⟨rfl, hplace⟩
  · exact ⟨rfl, hplace⟩

end ManagedConnection

/-! ### The loop -/

namespace Loop
variable {s t u : Loop} {fd : ℤ}

/-- The loop between two events: identifiers of requests in flight were issued, and a connection
in its handshake is untouched and has no request in flight. -/
structure Gated (s : Loop) : Prop where
  phased : s.Phased
  issued : ∀ k ∈ s.inFlight, k < s.manager.nextConnectionId
  shaking : ∀ x ∈ s.manager.connections, x.2.Shaking → x.2.Untouched ∧ x.2.id ∉ s.inFlight

/-- The connections of `t` are connections of `s`, or new; of those of `s` only the ones with
identifiers in `leaving` are no longer in their handshake. -/
structure Onward (leaving : ℕ → Prop) (s t : Loop) : Prop where
  next : s.manager.nextConnectionId ≤ t.manager.nextConnectionId
  kept : ∀ y ∈ t.manager.connections, y.2.id < s.manager.nextConnectionId →
    ∃ x ∈ s.manager.connections, x.2.id = y.2.id ∧
      (x.2.Shaking → ¬leaving x.2.id → y.2.Shaking)

theorem Onward.refl (leaving : ℕ → Prop) (s : Loop) : Onward leaving s s :=
  ⟨Nat.le_refl _, fun y hy _ => ⟨y, hy, rfl, fun h _ => h⟩⟩

theorem Onward.trans {leaving : ℕ → Prop} (hst : Onward leaving s t) (htu : Onward leaving t u) :
    Onward leaving s u := by
  refine ⟨Nat.le_trans hst.next htu.next, fun z hz hlt => ?_⟩
  obtain ⟨y, hy, hyz, hshakes⟩ := htu.kept z hz (Nat.lt_of_lt_of_le hlt hst.next)
  obtain ⟨x, hx, hxy, hshakes'⟩ := hst.kept y hy (by rwa [hyz])
  refine ⟨x, hx, hxy.trans hyz, fun h hstays => ?_⟩
  exact hshakes (hshakes' h hstays) (by rwa [← hxy])

theorem gated_drop (h : s.Gated) (fd : ℤ) (leaving : ℕ → Prop) :
    (s.drop fd).Gated ∧ Onward leaving s (s.drop fd) := by
  obtain ⟨hsub, hnext, hin⟩ := drop_subset s fd
  refine ⟨⟨h.phased.drop fd, ?_, ?_⟩, Nat.le_of_eq hnext.symm, fun y hy _ => ?_⟩
  · rw [hin, hnext]
    exact h.issued
  · rw [hin]
    exact fun x hx => h.shaking x (hsub.subset hx)
  · exact ⟨y, hsub.subset hy, rfl, fun hy _ => hy⟩

theorem gated_drops (h : s.Gated) (fds : List ℤ) (leaving : ℕ → Prop) :
    (fds.foldl drop s).Gated ∧ Onward leaving s (fds.foldl drop s) := by
  induction fds generalizing s with
  | nil => exact ⟨h, .refl _ s⟩
  | cons fd fds ih =>
    obtain ⟨hdropped, honward⟩ := gated_drop h fd leaving
    obtain ⟨hrest, honward'⟩ := ih hdropped
    exact ⟨hrest, honward.trans honward'⟩

/-- What a handler leaves of a connection: when it is in its handshake, it was before, and it is
untouched and hands nothing on. -/
structure Gates (c : ManagedConnection) (r : Reacted) : Prop where
  before : r.keepOpen = true → r.conn.Shaking → c.Shaking
  untouched : r.keepOpen = true → r.conn.Shaking → r.conn.Untouched ∧ r.place = none

theorem put_inFlight {r : Reacted} {k : ℕ} (hk : k ∈ r.inFlight s.inFlight) :
    k ∈ s.inFlight ∨ r.place.isSome = true ∧ k = r.conn.id := by
  unfold Reacted.inFlight at hk
  split at hk
  · rename_i hplace
    rcases List.mem_append.mp hk with hk | hk
    · exact Or.inl hk
    · exact Or.inr ⟨hplace, List.mem_singleton.mp hk⟩
  · exact Or.inl hk

theorem settle_counts (s : Loop) (r : Reacted) :
    (s.settle r).manager.nextConnectionId = s.manager.nextConnectionId := by
  unfold Loop.settle
  cases r.keepOpen with
  | true =>
    rw [if_pos rfl]
    rfl
  | false =>
    rw [if_neg Bool.false_ne_true]
    exact (drop_subset _ _).2.1

/-- The request of the connection is not in flight when it is put back in its handshake. -/
theorem gated_settle {r : Reacted} (hphased : (s.settle r).Phased) (hregistered : s.Registered)
    (hissued : ∀ k ∈ s.inFlight, k < s.manager.nextConnectionId)
    (hshaking : ∀ x ∈ s.manager.connections, x.2.Shaking → x.2.Untouched ∧ x.2.id ∉ s.inFlight)
    {c : ManagedConnection} (hmem : (c.fd, c) ∈ s.manager.connections)
    (hfd : r.conn.fd = c.fd) (hid : r.conn.id = c.id) (hgates : Gates c r)
    (leaving : ℕ → Prop)
    (hleaving : c.Shaking → ¬leaving c.id → r.keepOpen = true → r.conn.Shaking) :
    (s.settle r).Gated ∧ Onward leaving s (s.settle r) := by
  refine ⟨⟨hphased, fun k hk => ?_, fun y hy hshakes => ?_⟩,
    Nat.le_of_eq (settle_counts s r).symm, fun y hy _ => ?_⟩
  · rw [inFlight_settle] at hk
    rw [settle_counts]
    rcases put_inFlight hk with hk | ⟨-, rfl⟩
    · exact hissued k hk
    · rw [hid]
      exact hregistered.fresh _ hmem
  · rw [inFlight_settle]
    rcases mem_settle hy with ⟨rfl, hopen⟩ | ⟨hy, hne⟩
    · obtain ⟨huntouched, hplace⟩ := hgates.untouched hopen hshakes
      refine ⟨huntouched, fun hin => ?_⟩
      rcases put_inFlight hin with hin | ⟨hsome, -⟩
      · rw [hid] at hin
        exact (hshaking _ hmem (hgates.before hopen hshakes)).2 hin
      · rw [hplace] at hsome
        cases hsome
    · obtain ⟨huntouched, hout⟩ := hshaking y hy hshakes
      refine ⟨huntouched, fun hin => ?_⟩
      rcases put_inFlight hin with hin | ⟨-, heq⟩
      · exact hout hin
      · have hsame : y = (c.fd, c) :=
          List.inj_on_of_nodup_map hregistered.ids hy hmem (heq.trans hid)
        rw [hsame] at hne
        exact hne hfd.symm
  · rcases mem_settle hy with ⟨rfl, hopen⟩ | ⟨hy, -⟩
    · exact ⟨(c.fd, c), hmem, hid.symm, fun hshakes hstays => hleaving hshakes hstays hopen⟩
    · exact ⟨y, hy, rfl, fun hshakes _ => hshakes⟩

theorem Gated.settle (h : s.Gated) {c : ManagedConnection} {r : Reacted}
    (hmem : (c.fd, c) ∈ s.manager.connections) (hreacts : Reacts s.inFlight c r)
    (hgates : Gates c r) (leaving : ℕ → Prop)
    (hleaving : c.Shaking → ¬leaving c.id → r.keepOpen = true → r.conn.Shaking) :
    (s.settle r).Gated ∧ Onward leaving s (s.settle r) :=
  gated_settle (h.phased.settle hmem hreacts) h.phased.registered h.issued h.shaking hmem
    hreacts.fd hreacts.id hgates leaving hleaving

/-- A handler that is called past the handshake. -/
theorem gates_of_not {c : ManagedConnection} {r : Reacted} (h : ¬r.conn.Shaking) : Gates c r :=
  ⟨fun _ hshakes => absurd hshakes h, fun _ hshakes => absurd hshakes h⟩

/-- The callback of a connection: it leaves its handshake where that is complete. -/
theorem gated_onClientEvent (h : s.Gated) (fd : ℤ) (handshake : Handshake)
    {handle : ManagedConnection → Reacted}
    (hhandle : ∀ c : ManagedConnection, c.readState = .headers →
      (c.endpoint.conn.workerActive = true → c.id ∈ s.inFlight) → Reacts s.inFlight c (handle c))
    (hstate : ∀ c : ManagedConnection, ¬c.Shaking → ¬(handle c).conn.Shaking) :
    (s.onClientEvent fd handshake handle).Gated ∧
    Onward (fun k => handshake = .complete ∧ ∃ c, s.manager.find fd = some c ∧ c.id = k) s
      (s.onClientEvent fd handshake handle) := by
  unfold Loop.onClientEvent
  split
  · exact ⟨h, .refl _ s⟩
  · rename_i c hfind
    have hmem := h.phased.registered.mem_of_find hfind
    have hentry := h.phased.entries _ hmem
    split
    · rename_i hshaking
      have huntouched := (h.shaking _ hmem hshaking).1
      cases handshake with
      | failed => exact gated_drop h fd _
      | inProgress epollOut =>
        exact h.settle hmem
          ⟨rfl, rfl, fun _ => ⟨hentry.reads, hentry.waits, hentry.deadline⟩⟩
          ⟨fun _ _ => hshaking, fun _ _ => ⟨huntouched, rfl⟩⟩ _ fun hshakes _ _ => hshakes
      | complete =>
        have hreacts := hhandle { c with
          endpoint := ⟨{ c.endpoint.conn with state := .reading }, false⟩
          readState := .headers } rfl hentry.waits
        refine h.settle hmem ⟨hreacts.fd, hreacts.id, hreacts.entry⟩
          (gates_of_not (hstate _ ConnectionState.noConfusion)) _ fun _ hstays => ?_
        exact absurd ⟨rfl, c, hfind, rfl⟩ hstays
    · rename_i hstate'
      exact h.settle hmem (hhandle c (hentry.reads.resolve_right hstate') hentry.waits)
        (gates_of_not (hstate c hstate')) _ fun hshakes => absurd hshakes hstate'

/-- The connection that is registered for a number. -/
theorem registered_eq {c : ManagedConnection} (h : s.Sound)
    (hfree : fd ∉ Keyed.keys s.descriptors.opened)
    (hmem : (fd, c) ∈ (s.registered fd).manager.connections) :
    c = { fd, endpoint := ⟨{ id := s.manager.nextConnectionId }, false⟩ } := by
  rcases List.mem_append.mp hmem with hbefore | hnew
  · exact absurd (h.inUse fd (List.mem_map_of_mem (f := Prod.fst) hbefore)) hfree
  · exact (Prod.mk.inj (List.mem_singleton.mp hnew)).2

theorem gated_accept (h : s.Gated) (fd : ℤ) (nonBlocking : Bool) (maxConnections : ℕ)
    {welcome : ManagedConnection → Reacted}
    (hwelcome : ∀ c : ManagedConnection, c.endpoint.conn.workerActive = false →
      Reacts s.inFlight c (welcome c))
    (huntouched : ∀ c : ManagedConnection, c.endpoint.conn = { id := c.id } →
      (welcome c).keepOpen = true → (welcome c).conn.Shaking →
        (welcome c).conn.Untouched ∧ (welcome c).place = none) (leaving : ℕ → Prop) :
    (s.accept fd nonBlocking maxConnections welcome).Gated ∧
    Onward leaving s (s.accept fd nonBlocking maxConnections welcome) := by
  have hphased := h.phased.accept fd nonBlocking maxConnections hwelcome
  rcases accept_cases h.phased.registered.sound fd nonBlocking maxConnections welcome with
    ⟨d, ht, -⟩ | ⟨c, hactive, -, hfree, hmem, ht⟩
  · rw [ht] at hphased ⊢
    exact ⟨⟨hphased, h.issued, h.shaking⟩,
      Nat.le_refl _, fun y hy _ => ⟨y, hy, rfl, fun hshakes _ => hshakes⟩⟩
  · have hc := registered_eq h.phased.registered.sound hfree hmem
    have hr := hwelcome c hactive
    have hid : (welcome c).conn.id = s.manager.nextConnectionId := by rw [hr.id, hc]; rfl
    have hfd : (welcome c).conn.fd = fd := by rw [hr.fd, hc]
    rw [ht] at hphased ⊢
    refine ⟨⟨hphased, fun k hk => ?_, fun y hy hshakes => ?_⟩, ?_, fun y hy hlt => ?_⟩
    · rw [inFlight_settle] at hk
      rw [settle_counts]
      rcases put_inFlight hk with hk | ⟨-, rfl⟩
      · exact Nat.lt_succ_of_lt (h.issued k hk)
      · rw [hid]
        exact Nat.lt_succ_self _
    · rw [inFlight_settle]
      rcases mem_settle hy with ⟨rfl, hopen⟩ | ⟨hy, hne⟩
      · obtain ⟨hfresh, hplace⟩ := huntouched c (by rw [hc]; rfl) hopen hshakes
        refine ⟨hfresh, fun hin => ?_⟩
        rcases put_inFlight hin with hin | ⟨hsome, -⟩
        · exact absurd (hid ▸ h.issued _ hin) (lt_irrefl _)
        · rw [hplace] at hsome
          cases hsome
      · rcases List.mem_append.mp hy with hy | hy
        · obtain ⟨hfresh, hout⟩ := h.shaking y hy hshakes
          refine ⟨hfresh, fun hin => ?_⟩
          rcases put_inFlight hin with hin | ⟨-, heq⟩
          · exact hout hin
          · have hbefore := h.phased.registered.fresh y hy
            rw [heq, hid] at hbefore
            exact absurd hbefore (lt_irrefl _)
        · rw [List.mem_singleton.mp hy, hfd] at hne
          exact absurd rfl hne
    · rw [settle_counts]
      exact Nat.le_succ _
    · rcases mem_settle hy with ⟨rfl, -⟩ | ⟨hy, hne⟩
      · rw [hid] at hlt
        exact absurd hlt (lt_irrefl _)
      · rcases List.mem_append.mp hy with hy | hy
        · exact ⟨y, hy, rfl, fun hshakes _ => hshakes⟩
        · rw [List.mem_singleton.mp hy, hfd] at hne
          exact absurd rfl hne

/-- A result is for a connection past its handshake. -/
theorem gated_completed (h : s.Gated) (connectionId : ℕ) (completion : Completion)
    (leaving : ℕ → Prop) :
    (s.step (.completed connectionId completion)).Gated ∧
    Onward leaving s (s.step (.completed connectionId completion)) := by
  have hphased := h.phased.completed connectionId completion
  dsimp only [step] at hphased ⊢
  by_cases hin : connectionId ∈ s.inFlight
  · rw [if_pos hin] at hphased ⊢
    have hregistered : Registered { s with inFlight := s.inFlight.erase connectionId } :=
      ⟨⟨h.phased.registered.sound.descriptors, h.phased.registered.sound.registered,
        h.phased.registered.sound.own, h.phased.registered.sound.inUse⟩,
        h.phased.registered.ids, h.phased.registered.fresh⟩
    have hissued : ∀ k ∈ s.inFlight.erase connectionId, k < s.manager.nextConnectionId :=
      fun k hk => h.issued k (List.mem_of_mem_erase hk)
    have hshaking : ∀ x ∈ s.manager.connections, x.2.Shaking →
        x.2.Untouched ∧ x.2.id ∉ s.inFlight.erase connectionId := by
      intro x hx hshakes
      obtain ⟨hfresh, hout⟩ := h.shaking x hx hshakes
      exact ⟨hfresh, fun hk => hout (List.mem_of_mem_erase hk)⟩
    cases hfound : s.manager.findById connectionId with
    | none =>
      simp only [hfound] at hphased ⊢
      exact ⟨⟨hphased, hissued, hshaking⟩,
        Nat.le_refl _, fun y hy _ => ⟨y, hy, rfl, fun hshakes _ => hshakes⟩⟩
    | some c =>
      simp only [hfound] at hphased ⊢
      obtain ⟨⟨k, c'⟩, hfind, hsame⟩ := Option.map_eq_some_iff.mp hfound
      dsimp only at hsame
      subst hsame
      have hmem := List.mem_of_find?_eq_some hfind
      have hmatches := List.find?_some hfind
      have hid : c'.id = connectionId := eq_of_beq hmatches
      have hfd : c'.fd = k := h.phased.registered.sound.own _ hmem
      have hpast : ¬c'.Shaking := by
        intro hshakes
        have hout := (h.shaking _ hmem hshakes).2
        rw [hid] at hout
        exact hout hin
      have hreacts : Reacts s.inFlight c' (c'.handleCompletion completion) :=
        ManagedConnection.handleCompletion_reacts (h.phased.entries _ hmem).reads completion
      obtain ⟨hgated, hnext, hkept⟩ := gated_settle hphased hregistered hissued hshaking
        (hfd.symm ▸ hmem) hreacts.fd hreacts.id
        (gates_of_not (ManagedConnection.handleCompletion_shaking hpast completion)) leaving
        fun hshakes => absurd hshakes hpast
      exact ⟨hgated, hnext, hkept⟩
  · rw [if_neg hin]
    exact ⟨h, .refl _ s⟩

theorem handlePing_gates {c : ManagedConnection} (huntouched : c.Shaking → c.Untouched)
    (intervalMs now : ℕ) : Gates c (c.handlePing intervalMs now) ∧
      (c.Shaking → (c.handlePing intervalMs now).conn.Shaking) := by
  obtain ⟨hconn, hplace⟩ := c.handlePing_state intervalMs now
  obtain ⟨hid, hstate, -⟩ := maintainWebsocket_same c.endpoint intervalMs now
  have hsame : (c.handlePing intervalMs now).conn.Shaking ↔ c.Shaking := by
    unfold ManagedConnection.Shaking
    rw [hconn, hstate]
  refine ⟨⟨fun _ hshakes => hsame.mp hshakes, fun _ hshakes => ⟨?_, hplace⟩⟩, hsame.mpr⟩
  have hfresh := huntouched (hsame.mp hshakes)
  have hweb : c.endpoint.conn.websocket = none := by
    rw [show c.endpoint.conn = _ from hfresh]
  unfold ManagedConnection.Untouched
  rw [hconn, show (c.handlePing intervalMs now).conn.id = c.id by
    rw [ManagedConnection.id, hconn, hid]; rfl]
  unfold maintainWebsocket
  rw [hweb]
  exact hfresh

theorem gated_pingPass (xs : List (ℤ × ManagedConnection)) (intervalMs now : ℕ) (h : s.Gated)
    (hmem : ∀ x ∈ xs, x ∈ s.manager.connections) (hnodup : (Keyed.keys xs).Nodup)
    (leaving : ℕ → Prop) :
    (xs.foldl (fun s x => s.settle (x.2.handlePing intervalMs now)) s).Gated ∧
    Onward leaving s (xs.foldl (fun s x => s.settle (x.2.handlePing intervalMs now)) s) := by
  induction xs generalizing s with
  | nil => exact ⟨h, .refl _ s⟩
  | cons x xs ih =>
    obtain ⟨hnew, hrest⟩ := List.nodup_cons.mp hnodup
    have hx := hmem x List.mem_cons_self
    have hfd : x.2.fd = x.1 := h.phased.registered.sound.own x hx
    have hreacts := ManagedConnection.handlePing_reacts (h.phased.entries x hx) intervalMs now
    obtain ⟨hgates, hkept⟩ := handlePing_gates (fun hshakes => (h.shaking x hx hshakes).1)
      intervalMs now
    obtain ⟨hsettled, honward⟩ := h.settle (hfd.symm ▸ hx) hreacts hgates leaving
      fun hshakes _ _ => hkept hshakes
    have hothers : ∀ y ∈ xs,
        y ∈ (s.settle (x.2.handlePing intervalMs now)).manager.connections := by
      intro y hy
      have hne : y.1 ≠ x.1 := by
        intro heq
        exact hnew (heq ▸ List.mem_map_of_mem (f := Prod.fst) hy)
      rw [Loop.settle, ManagedConnection.handlePing_keepOpen, if_pos rfl, hreacts.fd, hfd]
      exact Keyed.mem_put_of_ne (hmem y (List.mem_cons_of_mem x hy)) hne
    obtain ⟨hgated, honward'⟩ := ih hsettled hothers hrest
    exact ⟨hgated, honward.trans honward'⟩

/-- The connections that an event may take out of their handshake. -/
def Completes (s : Loop) (e : LoopEvent) (k : ℕ) : Prop :=
  ∃ fd c, s.manager.find fd = some c ∧ c.id = k ∧
    ((∃ services recv, e = .readable fd .complete services recv) ∨
      ∃ send, e = .writable fd .complete send)

theorem admitPlain_past (c : ManagedConnection) : ¬(admitPlain c).conn.Shaking :=
  ConnectionState.noConfusion

theorem admitTls_untouched {c : ManagedConnection} (hfresh : c.endpoint.conn = { id := c.id })
    (initialized : Bool) (hopen : (admitTls initialized c).keepOpen = true) :
    (admitTls initialized c).conn.Untouched ∧ (admitTls initialized c).place = none := by
  cases initialized with
  | false => cases hopen
  | true =>
    have hshaking := congrArg
      (fun conn : Connection WebSocketConnection => { conn with state := .tlsHandshake }) hfresh
    exact ⟨hshaking, rfl⟩

theorem gated_step (h : s.Gated) (e : LoopEvent) :
    (s.step e).Gated ∧ Onward (s.Completes e) s (s.step e) := by
  cases e with
  | accept fd nonBlocking maxConnections =>
    exact gated_accept h fd nonBlocking maxConnections (fun _ => admitPlain_reacts)
      (fun c _ _ hshakes => absurd hshakes (admitPlain_past c)) _
  | acceptTls fd nonBlocking initialized maxConnections =>
    exact gated_accept h fd nonBlocking maxConnections
      (fun _ hactive => admitTls_reacts hactive initialized)
      (fun c hfresh hopen _ => admitTls_untouched hfresh initialized hopen) _
  | readable fd handshake services recv =>
    obtain ⟨hgated, honward⟩ := gated_onClientEvent h fd handshake
      (fun c hread hwaits => ManagedConnection.handleRead_reacts hread hwaits services recv)
      (fun c hpast => ManagedConnection.handleRead_shaking hpast services recv)
    refine ⟨hgated, honward.next, fun y hy hlt => ?_⟩
    obtain ⟨x, hx, hid, hkept⟩ := honward.kept y hy hlt
    refine ⟨x, hx, hid, fun hshakes hstays => hkept hshakes fun ⟨hcomplete, c, hfind, hc⟩ => ?_⟩
    exact hstays ⟨fd, c, hfind, hc, Or.inl ⟨services, recv, by rw [hcomplete]⟩⟩
  | writable fd handshake send =>
    dsimp only [Loop.step]
    split
    · obtain ⟨hgated, honward⟩ := gated_onClientEvent h fd handshake
        (fun c hread hwaits => ManagedConnection.handleWrite_reacts hread hwaits send)
        (fun c hpast => ManagedConnection.handleWrite_shaking hpast send)
      refine ⟨hgated, honward.next, fun y hy hlt => ?_⟩
      obtain ⟨x, hx, hid, hkept⟩ := honward.kept y hy hlt
      refine ⟨x, hx, hid, fun hshakes hstays => hkept hshakes fun ⟨hcomplete, c, hfind, hc⟩ => ?_⟩
      exact hstays ⟨fd, c, hfind, hc, Or.inr ⟨send, by rw [hcomplete]⟩⟩
    · exact ⟨h, .refl _ s⟩
  | hangup fd => exact gated_drop h fd _
  | completed connectionId completion => exact gated_completed h connectionId completion _
  | sweep passed => exact gated_drops h _ _
  | pingPass intervalMs now =>
    exact gated_pingPass _ intervalMs now h (fun _ hx => hx) h.phased.registered.sound.registered _
  | shutdown => exact gated_drops h _ _

theorem gated_initial : ({} : Loop).Gated where
  phased := phased_initial
  issued := fun _ hk => absurd hk List.not_mem_nil
  shaking := fun _ hx => absurd hx List.not_mem_nil

theorem gated_run (events : List LoopEvent) : (({} : Loop).run events).Gated := by
  have hrun : ∀ s : Loop, s.Gated → (s.run events).Gated := by
    induction events with
    | nil => exact fun s h => h
    | cons e events ih => exact fun s h => ih (s.step e) (gated_step h e).1
  exact hrun _ gated_initial

/-- What takes a connection out of its handshake without closing it. -/
theorem completes_of_past (h : s.Gated) {x : ℤ × ManagedConnection}
    (hx : x ∈ s.manager.connections) (hstate : x.2.endpoint.conn.state = .tlsHandshake)
    {e : LoopEvent} {y : ℤ × ManagedConnection} (hy : y ∈ (s.step e).manager.connections)
    (hid : y.2.id = x.2.id) (hpast : y.2.endpoint.conn.state ≠ .tlsHandshake) :
    (∃ services recv, e = .readable x.1 .complete services recv) ∨
      ∃ send, e = .writable x.1 .complete send := by
  have hregistered := h.phased.registered
  obtain ⟨x', hx', hid', hkept⟩ := (gated_step h e).2.kept y hy (hid ▸ hregistered.fresh x hx)
  have hsame : x' = x :=
    List.inj_on_of_nodup_map hregistered.ids hx' hx (hid'.trans hid)
  rw [hsame] at hkept
  have hcompletes : s.Completes e x.2.id := by
    by_contra hstays
    exact hpast (hkept hstate hstays)
  obtain ⟨fd, c, hfind, hc, hevent⟩ := hcompletes
  have hmem : (fd, c) ∈ s.manager.connections := Keyed.mem_of_lookup hfind
  have hx_eq : (fd, c) = x := List.inj_on_of_nodup_map hregistered.ids hmem hx hc
  rw [← hx_eq]
  exact hevent

/-- What the handshake of a connection comes to on an event of its descriptor. -/
def outcome : LoopEvent → Option (ℤ × Handshake)
  | .readable fd handshake _ _ => some (fd, handshake)
  | .writable fd handshake _ => some (fd, handshake)
  | _ => none

/-- In every run, when the callback of a connection takes it out of its handshake, then SSL_accept
has succeeded there. -/
theorem accepted_first (events : List LoopEvent) {x y : ℤ × ManagedConnection} {e : LoopEvent}
    (hx : x ∈ (({} : Loop).run events).manager.connections)
    (hstate : x.2.endpoint.conn.state = .tlsHandshake) {tls : TlsConnection}
    {accepted : Option SslError} (he : outcome e = some (x.1, (tls.handshake accepted).1))
    (hy : y ∈ ((({} : Loop).run events).step e).manager.connections) (hid : y.2.id = x.2.id)
    (hpast : y.2.endpoint.conn.state ≠ .tlsHandshake) : tls.valid = true ∧ accepted = none := by
  rw [← tls.handshake_complete_iff]
  rcases completes_of_past (gated_run events) hx hstate hy hid hpast with
    ⟨services, recv, rfl⟩ | ⟨send, rfl⟩
  · exact (Prod.mk.inj (Option.some.inj he)).2.symm
  · exact (Prod.mk.inj (Option.some.inj he)).2.symm

/-- In every state of every run, a connection in its handshake is as it was registered: nothing
read, nothing queued, no session, and no request of it in flight. And when an event takes it out
of its handshake without closing it, then the event is one of its own descriptor and its handshake
is complete. -/
theorem handshake_first (events : List LoopEvent) :
    let s := ({} : Loop).run events
    ∀ x ∈ s.manager.connections, x.2.endpoint.conn.state = .tlsHandshake →
      (x.2.endpoint.conn = { id := x.2.id, state := .tlsHandshake } ∧ x.2.id ∉ s.inFlight) ∧
      ∀ e, ∀ y ∈ (s.step e).manager.connections, y.2.id = x.2.id →
        y.2.endpoint.conn.state ≠ .tlsHandshake →
          (∃ services recv, e = .readable x.1 .complete services recv) ∨
            ∃ send, e = .writable x.1 .complete send := by
  intro s x hx hstate
  have hgated : s.Gated := gated_run events
  exact ⟨hgated.shaking x hx hstate, fun e y hy hid hpast =>
    completes_of_past hgated hx hstate hy hid hpast⟩

theorem handshake_first_accepted :
    let s := ({} : Loop).run [.acceptTls 5 true true 10]
    ∃ x ∈ s.manager.connections, x.2.endpoint.conn = { id := 1, state := .tlsHandshake } ∧
      1 ∉ s.inFlight :=
  ⟨_, List.mem_cons_self,
    (handshake_first [.acceptTls 5 true true 10] _ List.mem_cons_self rfl).1⟩

end Loop
end Aevrix.Server
