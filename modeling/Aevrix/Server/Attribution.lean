import Aevrix.Server.ConnectionIds

/-!
# Whose results are applied

An event of the loop drops connections, lets them react and registers new ones. For the manager
these are operations (`Act.operations`), and for the descriptors a connection keeps the one that
it was accepted with. So the result of a worker or an upstream reaches the connection that asked
for it, or none (`main.cpp:1634-1645, 1716-1722, 1759-1763`).
-/

namespace Aevrix.Server
open Aevrix.Http Aevrix.Ws
open Aevrix.Proxy (Recv ProxyOutcome)

/-- The handler that leaves `c`. -/
def Handler.leave (c : ManagedConnection) : Handler where
  run d := { c with
    fd := d.fd
    endpoint := { c.endpoint with conn := { c.endpoint.conn with id := d.id } } }
  fd _ := rfl
  id _ := rfl

theorem Handler.leave_run {c d : ManagedConnection} (hfd : c.fd = d.fd) (hid : c.id = d.id) :
    (Handler.leave c).run d = c := by
  obtain ⟨fd, ⟨conn, epollOut⟩, readState, timeout⟩ := c
  simp only [Handler.leave, ← hfd, ← hid]
  rfl

theorem ManagedConnection.handleRead_keeps (c : ManagedConnection) (services : Services)
    (recv : Recv) :
    (c.handleRead services recv).conn.fd = c.fd ∧ (c.handleRead services recv).conn.id = c.id := by
  have hid := (c.handleReadEvent_continues services recv).id
  unfold handleRead
  dsimp only
  split <;> exact ⟨rfl, hid⟩

theorem ManagedConnection.handleWrite_keeps (c : ManagedConnection) (send : Send) :
    (c.handleWrite send).conn.fd = c.fd ∧ (c.handleWrite send).conn.id = c.id := by
  have hid := (handleWriteEvent_continues c.endpoint send true).id
  unfold handleWrite
  dsimp only
  split <;> exact ⟨rfl, hid⟩

/-- The configured number of connections does not change. -/
def LoopEvent.Configured (maxConnections : ℕ) : LoopEvent → Prop
  | .accept _ _ limit | .acceptTls _ _ _ limit => limit = maxConnections
  | _ => True

namespace Loop
variable {maxConnections : ℕ} {s t : Loop} {fd : ℤ}

/-! ### Acts -/

/-- What an event does to one connection at a time. -/
inductive Act (maxConnections : ℕ) (s : Loop) : Loop → Prop where
  | drop (fd : ℤ) : Act maxConnections s (s.drop fd)
  | settle {c : ManagedConnection} {r : Reacted} (hmem : (c.fd, c) ∈ s.manager.connections)
    (hfd : r.conn.fd = c.fd) (hid : r.conn.id = c.id) : Act maxConnections s (s.settle r)
  | register {fd : ℤ} (hfree : fd ∉ Keyed.keys s.descriptors.opened)
    (hroom : s.manager.connections.length < maxConnections) :
    Act maxConnections s (s.registered fd)
  | descriptors {d : Descriptors} (hsame : s.SameOwners d)
    (hsound : Loop.Sound { s with descriptors := d }) :
    Act maxConnections s { s with descriptors := d }
  | take (inFlight : List ℕ) : Act maxConnections s { s with inFlight }

abbrev Acts (maxConnections : ℕ) : Loop → Loop → Prop :=
  Relation.ReflTransGen (Act maxConnections)

theorem Act.sound (hact : Act maxConnections s t) (h : s.Sound) : t.Sound := by
  cases hact with
  | drop fd => exact (tidy_drop s fd h).1
  | settle => exact (tidy_settle s _ h).1
  | register hfree _ => exact (h.register hfree).1
  | descriptors _ hsound => exact hsound
  | take inFlight => exact ⟨h.descriptors, h.registered, h.own, h.inUse⟩

theorem Acts.sound (hacts : Acts maxConnections s t) (h : s.Sound) : t.Sound := by
  induction hacts with
  | refl => exact h
  | tail _ hact ih => exact hact.sound ih

theorem acts_drops (s : Loop) (fds : List ℤ) : Acts maxConnections s (fds.foldl drop s) := by
  induction fds generalizing s with
  | nil => exact .refl
  | cons fd fds ih => exact .head (.drop fd) (ih _)

theorem acts_onClientEvent (h : s.Registered) (fd : ℤ) (handshake : Handshake)
    {handle : ManagedConnection → Reacted}
    (hkept : ∀ c, (handle c).conn.fd = c.fd ∧ (handle c).conn.id = c.id) :
    Acts maxConnections s (s.onClientEvent fd handshake handle) := by
  unfold onClientEvent
  split
  · exact .refl
  · rename_i c hfind
    have hmem := h.mem_of_find hfind
    split
    · cases handshake with
      | failed => exact .single (.drop fd)
      | inProgress epollOut => exact .single (.settle hmem rfl rfl)
      | complete => exact .single (.settle hmem (hkept _).1 (hkept _).2)
    · exact .single (.settle hmem (hkept c).1 (hkept c).2)

theorem acts_accept (h : s.Sound) (fd : ℤ) (nonBlocking : Bool)
    {welcome : ManagedConnection → Reacted}
    (hkept : ∀ c, (welcome c).conn.fd = c.fd ∧ (welcome c).conn.id = c.id) :
    Acts maxConnections s (s.accept fd nonBlocking maxConnections welcome) := by
  rcases accept_cases h fd nonBlocking maxConnections welcome with
    ⟨d, ht, hsame, hsound, _⟩ | ⟨c, _, hroom, hfree, hmem, ht⟩
  · rw [ht] at hsound ⊢
    exact .single (.descriptors hsame hsound)
  · have hfd : c.fd = fd := (h.register hfree).1.own _ hmem
    rw [ht]
    exact .head (.register hfree hroom)
      (.single (.settle (hfd.symm ▸ hmem) (hkept c).1 (hkept c).2))

theorem acts_pingPass (xs : List (ℤ × ManagedConnection)) (intervalMs now : ℕ) (h : s.Phased)
    (hmem : ∀ x ∈ xs, x ∈ s.manager.connections) (hnodup : (Keyed.keys xs).Nodup) :
    Acts maxConnections s
      (xs.foldl (fun s x => s.settle (x.2.handlePing intervalMs now)) s) := by
  induction xs generalizing s with
  | nil => exact .refl
  | cons x xs ih =>
    obtain ⟨hnew, hrest⟩ := List.nodup_cons.mp hnodup
    have hx : (x.2.fd, x.2) ∈ s.manager.connections := by
      rw [h.registered.sound.own x (hmem x List.mem_cons_self)]
      exact hmem x List.mem_cons_self
    have hreacts :=
      ManagedConnection.handlePing_reacts (h.entries _ hx) intervalMs now
    refine .head (.settle hx hreacts.fd hreacts.id) (ih (h.settle hx hreacts) ?_ hrest)
    intro y hy
    have hne : y.1 ≠ x.2.fd := by
      rw [h.registered.sound.own x (hmem x List.mem_cons_self)]
      intro heq
      exact hnew (heq ▸ List.mem_map_of_mem (f := Prod.fst) hy)
    rw [Loop.settle, ManagedConnection.handlePing_keepOpen, if_pos rfl, hreacts.fd]
    exact Keyed.mem_put_of_ne (hmem y (List.mem_cons_of_mem x hy)) hne

theorem acts_step (h : s.Phased) {e : LoopEvent} (hlimit : e.Configured maxConnections) :
    Acts maxConnections s (s.step e) := by
  cases e with
  | accept fd nonBlocking limit =>
    cases hlimit
    exact acts_accept h.registered.sound fd nonBlocking fun c => ⟨rfl, rfl⟩
  | acceptTls fd nonBlocking initialized limit =>
    cases hlimit
    refine acts_accept h.registered.sound fd nonBlocking fun c => ?_
    cases initialized <;> exact ⟨rfl, rfl⟩
  | readable fd handshake services recv =>
    exact acts_onClientEvent h.registered fd handshake fun c => c.handleRead_keeps services recv
  | writable fd handshake send =>
    dsimp only [Loop.step]
    split
    · exact acts_onClientEvent h.registered fd handshake fun c => c.handleWrite_keeps send
    · exact .refl
  | hangup fd => exact .single (.drop fd)
  | completed connectionId completion =>
    dsimp only [Loop.step]
    split
    · refine .head (.take (s.inFlight.erase connectionId)) ?_
      split
      · exact .refl
      · rename_i c hfound
        obtain ⟨-, k, hmem⟩ := ConnectionManager.mem_of_findById hfound
        have hfd : c.fd = k := h.registered.sound.own _ hmem
        have hreacts : Reacts s.inFlight c (c.handleCompletion completion) :=
          ManagedConnection.handleCompletion_reacts (h.entries _ hmem).reads completion
        exact .single (.settle (hfd.symm ▸ hmem) hreacts.fd hreacts.id)
    · exact .refl
  | sweep passed => exact acts_drops s _
  | pingPass intervalMs now =>
    exact acts_pingPass _ intervalMs now h (fun _ hx => hx) h.registered.sound.registered
  | shutdown => exact acts_drops s _

/-! ### The manager under an act -/

theorem manager_drop (s : Loop) (fd : ℤ) : (s.drop fd).manager = s.manager.erase fd := by
  unfold drop
  split
  · rename_i hnone
    have hgone : Keyed.erase s.manager.connections fd = s.manager.connections :=
      Keyed.erase_of_notMem (Keyed.lookup_eq_none.mp hnone)
    show s.manager = { s.manager with connections := Keyed.erase s.manager.connections fd }
    rw [hgone]
  · rfl

theorem Act.operations (hact : Act maxConnections s t) (h : s.Sound) :
    ∃ operations, t.manager = s.manager.run maxConnections operations := by
  cases hact with
  | drop fd => exact ⟨[.remove fd], manager_drop s fd⟩
  | @settle c r hmem hfd hid =>
    have hfind : s.manager.find c.fd = some c := Keyed.lookup_of_mem h.registered hmem
    have hvisit : s.manager.apply maxConnections (.visit c.fd (.leave r.conn)) =
        s.manager.put r.conn.fd r.conn := by
      simp only [ConnectionManager.apply, hfind]
      rw [Handler.leave_run hfd hid, hfd]
    unfold Loop.settle
    dsimp only
    split
    · exact ⟨[.visit c.fd (.leave r.conn)], hvisit.symm⟩
    · refine ⟨[.visit c.fd (.leave r.conn), .remove r.conn.fd], ?_⟩
      rw [manager_drop]
      exact congrArg (ConnectionManager.erase · r.conn.fd) hvisit.symm
  | @register fd hfree hroom =>
    refine ⟨[.register fd], ?_⟩
    have hnew : s.manager.find fd = none :=
      Keyed.lookup_eq_none.mpr fun hin => hfree (h.inUse fd hin)
    have hregister : (s.manager.register maxConnections fd).2 = (s.registered fd).manager := by
      rw [ConnectionManager.register, if_neg (Nat.not_le_of_lt hroom), hnew]
      rfl
    exact hregister.symm
  | descriptors => exact ⟨[], rfl⟩
  | take => exact ⟨[], rfl⟩

theorem Acts.operations (hacts : Acts maxConnections s t) (h : s.Sound) :
    ∃ operations, t.manager = s.manager.run maxConnections operations := by
  induction hacts with
  | refl => exact ⟨[], rfl⟩
  | tail hacts hact ih =>
    obtain ⟨operations, hmanager⟩ := ih
    obtain ⟨more, hmore⟩ := hact.operations (Acts.sound hacts h)
    refine ⟨operations ++ more, ?_⟩
    rw [hmore, hmanager, ConnectionManager.run, ConnectionManager.run, ConnectionManager.run,
      List.foldl_append]

/-! ### Descriptors under an act -/

/-- The names of a connection: the number of its descriptor, its identifier, and the place of the
descriptor among those that were accepted. -/
def names (s : Loop) (c : ManagedConnection) : ℤ × ℕ × Option ℕ :=
  (c.fd, c.id, s.descriptors.opened.lookup c.fd)

def ledger (s : Loop) : Keyed.Register (ℤ × ℕ × Option ℕ) where
  rows := s.manager.connections.map fun x => s.names x.2
  next := s.manager.nextConnectionId

abbrev Renames (maxConnections : ℕ) (s t : Loop) : Prop :=
  Keyed.Moves (fun row : ℤ × ℕ × Option ℕ => row.2.1) maxConnections s.ledger t.ledger

theorem lookup_close {d : Descriptors} {k : ℤ} (hne : k ≠ fd) :
    (d.close fd).opened.lookup k = d.opened.lookup k := by
  unfold Descriptors.close
  split
  · rfl
  · exact Keyed.lookup_erase_of_ne hne

theorem renames_drop (h : s.Sound) (fd : ℤ) : Renames maxConnections s (s.drop fd) := by
  unfold drop
  split
  · exact .refl
  · rename_i c hfind
    have hfd : c.fd = fd := h.own (fd, c) (Keyed.mem_of_lookup hfind)
    have hrows : (s.manager.erase fd).connections.map
          (fun x => names { s with descriptors := s.descriptors.close c.fd } x.2) =
        (s.manager.erase fd).connections.map fun x => s.names x.2 := by
      apply List.map_congr_left
      intro x hx
      obtain ⟨hin, hne⟩ := Keyed.mem_erase.mp hx
      rw [hfd]
      unfold names
      rw [lookup_close (by rwa [h.own x hin])]
    have hstrike : Keyed.Move (fun row : ℤ × ℕ × Option ℕ => row.2.1) maxConnections s.ledger
        ⟨(s.manager.erase fd).connections.map fun x => s.names x.2,
          s.manager.nextConnectionId⟩ := .strike (List.filter_sublist.map _)
    rw [← hrows] at hstrike
    exact .single hstrike

theorem renames_settle (h : s.Sound) {c : ManagedConnection} {r : Reacted}
    (hmem : (c.fd, c) ∈ s.manager.connections) (hfd : r.conn.fd = c.fd)
    (hid : r.conn.id = c.id) : Renames maxConnections s (s.settle r) := by
  have hput (inFlight : List ℕ) : ledger { s with
      manager := s.manager.put r.conn.fd r.conn
      inFlight } = s.ledger := by
    have hrows : (s.manager.put r.conn.fd r.conn).connections.map (fun x => s.names x.2) =
        s.manager.connections.map fun x => s.names x.2 := by
      apply Keyed.map_put s.names h.registered (hfd ▸ hmem)
      rw [names, names, hfd, hid]
    exact congrArg (Keyed.Register.mk · _) hrows
  unfold settle
  dsimp only
  split
  · rw [Renames, hput]
  · have hdrop : Renames maxConnections { s with
        manager := s.manager.put r.conn.fd r.conn
        inFlight := r.inFlight s.inFlight } _ :=
      renames_drop (tidy_put s r.conn _ h).1 r.conn.fd
    rw [Renames, hput] at hdrop
    exact hdrop

theorem names_same {d : Descriptors} (h : s.Sound) (hsame : s.SameOwners d)
    {x : ℤ × ManagedConnection} (hx : x ∈ s.manager.connections) :
    names { s with descriptors := d } x.2 = s.names x.2 := by
  unfold names
  rw [hsame x.2.fd]
  rw [h.own x hx]
  exact List.mem_map_of_mem (f := Prod.fst) hx

theorem Act.renames (hact : Act maxConnections s t) (h : s.Sound) :
    Renames maxConnections s t := by
  cases hact with
  | drop fd => exact renames_drop h fd
  | settle hmem hfd hid => exact renames_settle h hmem hfd hid
  | @register fd hfree hroom =>
    have hnew : fd ∉ Keyed.keys s.manager.connections := fun hin => hfree (h.inUse fd hin)
    have hrows : ∀ x ∈ s.manager.connections,
        (s.registered fd).names x.2 = s.names x.2 :=
      fun x hx => names_same h (sameOwners_accept hnew) hx
    apply Relation.ReflTransGen.single
    unfold ledger
    rw [show (s.registered fd).manager.connections = s.manager.connections ++ [_] from rfl,
      List.map_append, List.map_congr_left hrows]
    exact .issue _ rfl (by rwa [List.length_map])
  | @descriptors d hsame _ =>
    have hrows : List.map (fun x => names { s with descriptors := d } x.2) s.manager.connections =
        s.manager.connections.map fun x => s.names x.2 :=
      List.map_congr_left fun x hx => names_same h hsame hx
    unfold Renames ledger
    rw [hrows]
  | take => exact .refl

theorem Acts.renames (hacts : Acts maxConnections s t) (h : s.Sound) :
    Renames maxConnections s t := by
  induction hacts with
  | refl => exact .refl
  | tail hacts hact ih => exact ih.trans (hact.renames (Acts.sound hacts h))

/-! ### Requests in flight -/

theorem inFlight_settle (s : Loop) (r : Reacted) :
    (s.settle r).inFlight = r.inFlight s.inFlight := by
  unfold settle
  dsimp only
  split
  · rfl
  · exact (drop_subset _ _).2.2

theorem inFlight_settle_none (s : Loop) {r : Reacted} (h : r.place = none) :
    (s.settle r).inFlight = s.inFlight := by
  rw [inFlight_settle, Reacted.inFlight, h]
  rfl

theorem inFlight_drops (s : Loop) (fds : List ℤ) :
    (fds.foldl drop s).inFlight = s.inFlight := by
  induction fds generalizing s with
  | nil => rfl
  | cons fd fds ih => exact (ih _).trans (drop_subset s fd).2.2

theorem inFlight_pingPass (s : Loop) (xs : List (ℤ × ManagedConnection)) (intervalMs now : ℕ) :
    (xs.foldl (fun s x => s.settle (x.2.handlePing intervalMs now)) s).inFlight =
      s.inFlight := by
  induction xs generalizing s with
  | nil => rfl
  | cons x xs ih =>
    have hplace : (x.2.handlePing intervalMs now).place = none := by
      obtain ⟨-, -, -, hplace, -, -⟩ := maintainWebsocket_same x.2.endpoint intervalMs now
      unfold ManagedConnection.handlePing
      dsimp only
      split <;> exact hplace
    exact (ih _).trans (inFlight_settle_none s hplace)

theorem inFlight_onClientEvent (h : s.Registered) (fd : ℤ) (handshake : Handshake)
    {handle : ManagedConnection → Reacted}
    (hkept : ∀ c, (handle c).conn.fd = c.fd ∧ (handle c).conn.id = c.id) :
    (s.onClientEvent fd handshake handle).inFlight = s.inFlight ∨
      ∃ x ∈ s.manager.connections,
        (s.onClientEvent fd handshake handle).inFlight = s.inFlight ++ [x.2.id] := by
  have hsettle {c : ManagedConnection} {r : Reacted} (hmem : (c.fd, c) ∈ s.manager.connections)
      (hid : r.conn.id = c.id) : (s.settle r).inFlight = s.inFlight ∨
        ∃ x ∈ s.manager.connections, (s.settle r).inFlight = s.inFlight ++ [x.2.id] := by
    rw [inFlight_settle]
    unfold Reacted.inFlight
    split
    · exact Or.inr ⟨_, hmem, by rw [hid]⟩
    · exact Or.inl rfl
  unfold onClientEvent
  split
  · exact Or.inl rfl
  · rename_i c hfind
    have hmem := h.mem_of_find hfind
    split
    · cases handshake with
      | failed => exact Or.inl (drop_subset s fd).2.2
      | inProgress epollOut => exact hsettle hmem rfl
      | complete => exact hsettle hmem (hkept _).2
    · exact hsettle hmem (hkept c).2

/-- The event makes a registered connection hand its request on. -/
def Issues (s : Loop) (e : LoopEvent) (x : ℤ × ManagedConnection) : Prop :=
  x ∈ s.manager.connections ∧ (s.step e).inFlight = s.inFlight ++ [x.2.id]

theorem issued_step (h : s.Registered) {e : LoopEvent} {k : ℕ}
    (hk : k ∈ (s.step e).inFlight) : k ∈ s.inFlight ∨ ∃ x, s.Issues e x ∧ x.2.id = k := by
  have hsame (heq : (s.step e).inFlight = s.inFlight) :
      k ∈ s.inFlight ∨ ∃ x, s.Issues e x ∧ x.2.id = k := Or.inl (heq ▸ hk)
  have hissued (heq : (s.step e).inFlight = s.inFlight ∨
      ∃ x ∈ s.manager.connections, (s.step e).inFlight = s.inFlight ++ [x.2.id]) :
      k ∈ s.inFlight ∨ ∃ x, s.Issues e x ∧ x.2.id = k := by
    rcases heq with heq | ⟨x, hx, heq⟩
    · exact hsame heq
    · rw [heq] at hk
      rcases List.mem_append.mp hk with hold | hnew
      · exact Or.inl hold
      · exact Or.inr ⟨x, ⟨hx, heq⟩, (List.mem_singleton.mp hnew).symm⟩
  have haccept (fd : ℤ) (nonBlocking : Bool) (limit : ℕ) {welcome : ManagedConnection → Reacted}
      (hplace : ∀ c, (welcome c).place = none) :
      (s.accept fd nonBlocking limit welcome).inFlight = s.inFlight := by
    rcases accept_cases h.sound fd nonBlocking limit welcome with
      ⟨d, ht, _⟩ | ⟨c, _, _, _, _, ht⟩
    · rw [ht]
    · rw [ht]
      exact inFlight_settle_none _ (hplace c)
  cases e with
  | accept fd nonBlocking limit => exact hsame (haccept fd nonBlocking limit fun _ => rfl)
  | acceptTls fd nonBlocking initialized limit =>
    exact hsame (haccept fd nonBlocking limit fun _ => rfl)
  | readable fd handshake services recv =>
    exact hissued
      (inFlight_onClientEvent h fd handshake fun c => c.handleRead_keeps services recv)
  | writable fd handshake send =>
    apply hissued
    dsimp only [Loop.step]
    split
    · exact inFlight_onClientEvent h fd handshake fun c => c.handleWrite_keeps send
    · exact Or.inl rfl
  | hangup fd => exact hsame (drop_subset s fd).2.2
  | completed connectionId completion =>
    left
    dsimp only [Loop.step] at hk
    split at hk
    · apply List.mem_of_mem_erase
      split at hk
      · exact hk
      · rename_i c _
        have hplace : (c.handleCompletion completion).place = none := by
          cases completion with
          | worker => rfl
          | upstream outcome => exact (applyProxyOutcome_same c.endpoint outcome).2.2.2.2
        rwa [inFlight_settle_none _ hplace] at hk
    · exact hk
  | sweep passed => exact hsame (inFlight_drops s _)
  | pingPass intervalMs now => exact hsame (inFlight_pingPass s _ intervalMs now)
  | shutdown => exact hsame (inFlight_drops s _)

/-! ### Runs -/

theorem acts_run (h : s.Phased) {events : List LoopEvent}
    (hlimit : ∀ e ∈ events, e.Configured maxConnections) :
    Acts maxConnections s (s.run events) := by
  induction events generalizing s with
  | nil => exact .refl
  | cons e events ih =>
    obtain ⟨hfirst, hrest⟩ := List.forall_mem_cons.mp hlimit
    exact (acts_step h hfirst).trans (ih (h.step e) hrest)

theorem issued_run (h : s.Phased) {events : List LoopEvent} {k : ℕ}
    (hk : k ∈ (s.run events).inFlight) :
    k ∈ s.inFlight ∨ ∃ before e later x, events = before ++ e :: later ∧
      (s.run before).Issues e x ∧ x.2.id = k := by
  induction events generalizing s with
  | nil => exact Or.inl hk
  | cons e events ih =>
    rcases ih (h.step e) hk with hstep | ⟨before, e', later, x, rfl, hissues, hid⟩
    · rcases issued_step h.registered hstep with hold | ⟨x, hissues, hid⟩
      · exact Or.inl hold
      · exact Or.inr ⟨[], e, events, x, rfl, hissues, hid⟩
    · exact Or.inr ⟨e :: before, e', later, x, rfl, hissues, hid⟩

/-- A connection that is found later by the identifier of a registered one has the descriptor
that this one was accepted with. -/
theorem Acts.found (hacts : Acts maxConnections s t) (h : s.Registered)
    (hroom : s.manager.connections.length ≤ maxConnections) {x : ℤ × ManagedConnection}
    (hx : x ∈ s.manager.connections) {c : ManagedConnection}
    (hfound : t.manager.findById x.2.id = some c) :
    ∃ n, s.descriptors.opened.lookup x.1 = some n ∧ c.fd = x.1 ∧
      t.descriptors.opened.lookup c.fd = some n := by
  obtain ⟨hid, k, hmem⟩ := ConnectionManager.mem_of_findById hfound
  have hsound : s.ledger.Sound (fun row => row.2.1) maxConnections := by
    refine ⟨?_, ?_, ?_⟩
    · rw [ledger, List.map_map]
      exact h.ids
    · rw [ledger, List.forall_mem_map]
      exact h.fresh
    · rw [ledger, List.length_map]
      exact hroom
  have hnames : t.names c = s.names x.2 :=
    (hacts.renames h.sound).eq_of_number hsound
      (List.mem_map_of_mem (f := fun x : ℤ × ManagedConnection => s.names x.2) hx)
      (List.mem_map_of_mem (f := fun x : ℤ × ManagedConnection => t.names x.2) hmem) hid
  obtain ⟨hfd, hrest⟩ := Prod.mk.inj hnames
  obtain ⟨-, hlookup⟩ := Prod.mk.inj hrest
  have hown := h.sound.own x hx
  obtain ⟨⟨_, n⟩, hopen, rfl⟩ :=
    List.mem_map.mp (h.sound.inUse x.1 (List.mem_map_of_mem (f := Prod.fst) hx))
  have hlooked := Keyed.lookup_of_mem h.sound.descriptors.numbers hopen
  rw [hown, hlooked] at hlookup
  exact ⟨n, hlooked, hfd.trans hown, hlookup⟩

/-- A completion leaves the connections with other identifiers as they are. -/
theorem others_completed (h : s.Phased) (connectionId : ℕ) (completion : Completion)
    {x : ℤ × ManagedConnection}
    (hx : x ∈ (s.step (.completed connectionId completion)).manager.connections)
    (hne : x.2.id ≠ connectionId) : x ∈ s.manager.connections := by
  dsimp only [step] at hx
  split at hx
  · split at hx
    · exact hx
    · rename_i c hfound
      obtain ⟨hid, k, hmem⟩ := ConnectionManager.mem_of_findById hfound
      have hreacts : Reacts s.inFlight c (c.handleCompletion completion) :=
        ManagedConnection.handleCompletion_reacts (h.entries _ hmem).reads completion
      have hput : x ∈ (s.manager.put (c.handleCompletion completion).conn.fd
          (c.handleCompletion completion).conn).connections := by
        unfold settle at hx
        dsimp only at hx
        split at hx
        · exact hx
        · exact (mem_drop hx).1
      rcases Keyed.mem_put hput with rfl | ⟨hin, -⟩
      · exact absurd (hreacts.id.trans hid) hne
      · exact hin
  · exact hx

/-- The identifier in a result is the one of a registered connection that handed its request on.
A connection that is found by it has the descriptor which that one was accepted with, and no
other is touched when the result comes. -/
structure Attributed (events : List LoopEvent) : Prop where
  issued : ∀ k ∈ (({} : Loop).run events).inFlight, ∃ before e later x,
    events = before ++ e :: later ∧ (({} : Loop).run before).Issues e x ∧ x.2.id = k
  found : ∀ before later, events = before ++ later →
    ∀ x ∈ (({} : Loop).run before).manager.connections, ∀ c,
      (({} : Loop).run events).manager.findById x.2.id = some c →
        ∃ n, (({} : Loop).run before).descriptors.opened.lookup x.1 = some n ∧ c.fd = x.1 ∧
          (({} : Loop).run events).descriptors.opened.lookup c.fd = some n
  others : ∀ k completion,
    ∀ x ∈ ((({} : Loop).run events).step (.completed k completion)).manager.connections,
      x.2.id ≠ k → x ∈ (({} : Loop).run events).manager.connections

theorem operations_run {events : List LoopEvent}
    (hlimit : ∀ e ∈ events, e.Configured maxConnections) : ∃ operations,
      (({} : Loop).run events).manager =
        ({} : ConnectionManager).run maxConnections operations :=
  (acts_run phased_initial hlimit).operations sound_initial

theorem attributed {events : List LoopEvent}
    (hlimit : ∀ e ∈ events, e.Configured maxConnections) : Attributed events := by
  refine ⟨?_, ?_, fun k completion x => others_completed (phased_run events) k completion⟩
  · intro k hk
    exact (issued_run phased_initial hk).resolve_left List.not_mem_nil
  · rintro before later rfl x hx c hfound
    have hbefore := phased_run before
    obtain ⟨operations, hmanager⟩ :=
      operations_run fun e he => hlimit e (List.mem_append_left _ he)
    have hkept : (({} : ConnectionManager).run maxConnections operations).Kept maxConnections :=
      ConnectionManager.kept_initial.run operations
    have hlater : Acts maxConnections (({} : Loop).run before)
        ((({} : Loop).run before).run later) :=
      acts_run hbefore fun e he => hlimit e (List.mem_append_right _ he)
    have hrun : ({} : Loop).run (before ++ later) = (({} : Loop).run before).run later :=
      List.foldl_append
    rw [hrun] at hfound ⊢
    exact hlater.found hbefore.registered (hmanager ▸ hkept.room) hx hfound

end Loop

/-- Under a fixed configuration, the books are kept through all operations on the manager: each
registration is counted, and a connection that is found by an identifier has been registered
under its number since. The event loop runs such operations, and the result of a worker or an
upstream is applied to the connection that asked for it, or to none. -/
theorem connections_identified (maxConnections : ℕ) :
    (∀ operations : List ConnectionManager.Operation,
      let m := ({} : ConnectionManager).run maxConnections operations
      m.Kept maxConnections ∧
        m.totalConnections = ({} : ConnectionManager).registrations maxConnections operations ∧
        ∀ x ∈ m.connections, ∀ later c,
          (m.run maxConnections later).findById x.2.id = some c →
            (m.run maxConnections later).find x.1 = some c ∧
            ∀ part, part <+: later →
              ∃ d, (m.run maxConnections part).find x.1 = some d ∧ d.id = x.2.id) ∧
    ∀ events : List LoopEvent, (∀ e ∈ events, e.Configured maxConnections) →
      (∃ operations, (({} : Loop).run events).manager =
        ({} : ConnectionManager).run maxConnections operations) ∧ Loop.Attributed events := by
  constructor
  · intro operations m
    have hkept : m.Kept maxConnections := ConnectionManager.kept_initial.run operations
    obtain ⟨htotal, -⟩ :=
      ConnectionManager.counters_run ConnectionManager.filed_initial maxConnections operations
    refine ⟨hkept, htotal.trans (Nat.zero_add _), ?_⟩
    intro x hx later c hfound
    refine ⟨?_, fun part hpart => hkept.found hx hfound hpart⟩
    have hlater := hkept.run later
    obtain ⟨d, hfind, hid⟩ := hkept.found hx hfound (List.prefix_refl later)
    obtain ⟨hid', k, hmem⟩ := ConnectionManager.mem_of_findById hfound
    have hdmem := Keyed.mem_of_lookup hfind
    have hsame : (x.1, d) = (k, c) :=
      List.inj_on_of_nodup_map hlater.ids hdmem hmem (hid.trans hid'.symm)
    rw [hfind, (Prod.mk.inj hsame).2]
  · intro events hlimit
    exact ⟨Loop.operations_run hlimit, Loop.attributed hlimit⟩

end Aevrix.Server
