import Aevrix.Server.Attribution

/-!
# Which connections outlive a sweep (`connection_manager.cpp`, `connection.cpp`)

The loop with a clock: an event that sets the deadline of a connection sets it to that time and the
timeout of the configuration at hand, and a sweep removes what is due. Behind a sweep every
connection either has a request with a worker or an upstream, or the deadline of the last event that
set one is still to come (`swept_iff`): who stays silent, or never finishes the TLS handshake, is
removed. The timeout is cast to a signed number: one that fits is added to the time
(`deadlineAt_exact`), and a configured -1 leaves a deadline that has passed already
(`deadlineAt_negative`).
-/

namespace Aevrix.Server
open Aevrix.Http Aevrix.Ws
open Aevrix.Config (ServerConfig)

namespace Loop

/-- The callback of the descriptor comes to the handlers of the connection `id`. -/
def handles (s : Loop) (fd : ℤ) (handshake : Handshake) (id : ℕ) : Bool :=
  match s.manager.find fd with
  | none => false
  | some c => c.id == id && (decide (c.endpoint.conn.state ≠ .tlsHandshake) ||
      match handshake with
      | .complete => true
      | .failed => false
      | .inProgress _ => false)

/-- Whether an event calls `set_deadline` on the connection `id`. -/
def setsDeadline (s : Loop) (id : ℕ) : LoopEvent → Bool
  | .accept _ _ _ => s.manager.nextConnectionId == id
  | .acceptTls _ _ _ _ => s.manager.nextConnectionId == id
  | .readable fd handshake _ _ => s.handles fd handshake id
  | .writable fd handshake _ => s.writable fd && s.handles fd handshake id
  | .completed connectionId _ => decide (connectionId ∈ s.inFlight) && connectionId == id
  | .pingPass intervalMs now => s.manager.connections.any fun x =>
      x.2.id == id && Program.pingDue x.2.endpoint intervalMs now
  | .hangup _ => false
  | .sweep _ => false
  | .shutdown => false

end Loop

/-- An event at a time in nanoseconds, and the configuration that `set_deadline` is given there. -/
structure Tick where
  now : ℕ
  config : ServerConfig
  event : LoopEvent

/-- The loop, and `deadline_` in nanoseconds by the identifiers of the connections. -/
structure TimedLoop where
  loop : Loop
  deadline : ℕ → ℤ

namespace TimedLoop

/-- `time_point::max()`. -/
def noDeadline : ℤ := 2 ^ 63 - 1

def fresh : TimedLoop := ⟨{}, fun _ => noDeadline⟩

/-- The tests of the clock in `has_deadline_exceeded` (`connection.cpp:467-475`). -/
def passed (t : TimedLoop) (now : ℕ) (fd : ℤ) : Bool :=
  (t.loop.manager.find fd).any fun c =>
    decide (t.deadline c.id ≠ noDeadline ∧ t.deadline c.id ≤ now)

/-- `now + std::chrono::milliseconds(timeout_ms)` (`connection.cpp:458`): the timeout is cast to a
signed number, and milliseconds become nanoseconds, in 64 bits. -/
def deadlineAt (now timeoutMs : ℕ) : ℤ :=
  Int.bmod (now + Int.bmod (Int.bmod timeoutMs (2 ^ 64) * 1000000) (2 ^ 64)) (2 ^ 64)

/-- `set_deadline` of the connection `id` (`connection.cpp:414-459`). -/
def newDeadline (loop : Loop) (tick : Tick) (id : ℕ) : ℤ :=
  match (loop.manager.findById id).bind ManagedConnection.timeout with
  | some timeout => deadlineAt tick.now (timeout.ms tick.config).toNat
  | none => noDeadline

/-- The event of a tick; a sweep goes by the clock. -/
def happening (t : TimedLoop) (tick : Tick) : LoopEvent := match tick.event with
  | .sweep _ => .sweep (t.passed tick.now)
  | event => event

def step (t : TimedLoop) (tick : Tick) : TimedLoop :=
  let loop := t.loop.step (t.happening tick)
  { loop
    deadline := fun id =>
      if t.loop.setsDeadline id tick.event then newDeadline loop tick id else t.deadline id }

def run (t : TimedLoop) (ticks : List Tick) : TimedLoop := ticks.foldl step t

/-- The last event that set the deadline of the connection `id`. -/
def lastSet (t : TimedLoop) (id : ℕ) : List Tick → Option Tick
  | [] => none
  | tick :: ticks => ((t.step tick).lastSet id ticks).or
    (if t.loop.setsDeadline id tick.event then some tick else none)

end TimedLoop

/-! ### What an event leaves of a connection -/

namespace Loop
variable {s : Loop}

theorem settle_manager (inFlight : List ℕ) (r : Reacted) :
    ({ s with inFlight }.settle r).manager = (s.settle r).manager := by
  unfold settle
  cases r.keepOpen with
  | true => rfl
  | false =>
    rw [if_neg Bool.false_ne_true, if_neg Bool.false_ne_true]
    unfold drop
    dsimp only
    cases (s.manager.put r.conn.fd r.conn).find r.conn.fd <;> rfl

/-- The connection was there before, with its deadline. -/
def Before (s : Loop) (c : ManagedConnection) : Prop :=
  ∃ y ∈ s.manager.connections, y.2.id = c.id ∧ y.2.timeout = c.timeout ∧
    (c.endpoint.conn.workerActive = false → y.2.endpoint.conn.workerActive = false)

/-- A deadline is set, unless a worker or an upstream has the request. -/
def Timed (c : ManagedConnection) : Prop :=
  c.endpoint.conn.workerActive = false → c.timeout.isSome = true

/-- What an event makes of a connection: it sets its deadline, or it does not touch it. -/
def Follows (s : Loop) (sets : Bool) (c : ManagedConnection) : Prop :=
  sets = true ∧ Timed c ∨ sets = false ∧ s.Before c

theorem before_self {x : ℤ × ManagedConnection} (h : x ∈ s.manager.connections) : s.Before x.2 :=
  ⟨x, h, rfl, rfl, id⟩

theorem timeout_isSome {c : ManagedConnection}
    (h : c.readState = .headers ∨ c.endpoint.conn.state = .tlsHandshake ∨
      c.endpoint.conn.websocket ≠ none) : Timed c.setDeadline := by
  intro hactive
  replace hactive : c.timing.workerActive = false := hactive
  show c.timing.timeout.isSome = true
  unfold Timing.timeout
  rw [hactive, if_neg Bool.false_ne_true]
  split
  · rfl
  · rename_i hstate
    cases hweb : c.timing.websocket with
    | some session =>
      dsimp only
      split
      · rfl
      split <;> rfl
    | none =>
      rcases h with hread | htls | hsome
      · rw [show c.timing.readState = .headers from hread]
        rfl
      · exact absurd htls hstate
      · exact absurd (Option.map_eq_none_iff.mp hweb) hsome

/-! ### The handlers -/

theorem timed_of_continues {c : ManagedConnection} {again : Bool} {h : Handled WebSocketConnection}
    (hread : c.readState = .headers) (hcontinues : Continues c.endpoint.conn again h) :
    Timed (if again then
      { c.setDeadline.reacted h with conn := (c.setDeadline.reacted h).conn.setDeadline }
      else c.setDeadline.reacted h).conn := by
  cases again with
  | true =>
    exact timeout_isSome (c := (c.setDeadline.reacted h).conn) (Or.inl hread)
  | false =>
    intro hactive
    exact timeout_isSome (Or.inl hread) (hcontinues.active rfl hactive)

theorem timed_completion {c : ManagedConnection}
    (hreads : c.readState = .headers ∨ c.endpoint.conn.state = .tlsHandshake)
    (completion : Completion) : Timed (c.handleCompletion completion).conn := by
  have hidle : Timed ({ c with endpoint := { c.endpoint with
      conn := { c.endpoint.conn with workerActive := false } } } : ManagedConnection).setDeadline :=
    timeout_isSome (hreads.imp_right Or.inl)
  intro _
  cases completion with
  | worker result => exact hidle rfl
  | upstream outcome => exact hidle rfl

theorem timed_handlePing {c : ManagedConnection} {intervalMs now : ℕ}
    (hdue : Program.pingDue c.endpoint intervalMs now = true) :
    Timed (c.handlePing intervalMs now).conn := by
  obtain ⟨-, -, -, -, -, hweb⟩ := maintainWebsocket_same c.endpoint intervalMs now
  have hsome : c.endpoint.conn.websocket ≠ none := by
    intro hnone
    rw [Program.pingDue, hnone] at hdue
    cases hdue
  unfold ManagedConnection.handlePing
  dsimp only
  rw [if_pos hdue]
  exact timeout_isSome (c := (c.reacted (maintainWebsocket c.endpoint intervalMs now)).conn)
    (Or.inr (Or.inr fun hnone => hsome (hweb.mp hnone)))

theorem handlePing_same (c : ManagedConnection) (intervalMs now : ℕ) :
    (c.handlePing intervalMs now).conn.fd = c.fd ∧ (c.handlePing intervalMs now).conn.id = c.id ∧
      (c.handlePing intervalMs now).conn.endpoint.conn.workerActive =
        c.endpoint.conn.workerActive ∧
      (Program.pingDue c.endpoint intervalMs now ≠ true →
        (c.handlePing intervalMs now).conn.timeout = c.timeout) := by
  obtain ⟨hid, -, hactive, -, -, -⟩ := maintainWebsocket_same c.endpoint intervalMs now
  unfold ManagedConnection.handlePing
  dsimp only
  by_cases hdue : Program.pingDue c.endpoint intervalMs now = true
  · rw [if_pos hdue]
    exact ⟨rfl, hid, hactive, fun hnot => absurd hdue hnot⟩
  · rw [if_neg hdue]
    exact ⟨rfl, hid, hactive, fun _ => rfl⟩

theorem timed_admitPlain (c : ManagedConnection) : Timed (admitPlain c).conn :=
  timeout_isSome (c := { c with
    endpoint := { c.endpoint with conn := { c.endpoint.conn with state := .reading } }
    readState := .headers }) (Or.inl rfl)

theorem timed_admitTls {c : ManagedConnection} {initialized : Bool}
    (hopen : (admitTls initialized c).keepOpen = true) : Timed (admitTls initialized c).conn := by
  cases initialized with
  | false => cases hopen
  | true =>
    exact timeout_isSome (c := { c with
      endpoint := { c.endpoint with
        conn := { c.endpoint.conn with state := .tlsHandshake } } }) (Or.inr (Or.inl rfl))

/-! ### The events -/

section events
variable {x : ℤ × ManagedConnection}

/-- A handler on one connection: the others are as before. -/
theorem follows_settle (h : s.Registered) {c : ManagedConnection} {r : Reacted} {sets : ℕ → Bool}
    (hmem : (c.fd, c) ∈ s.manager.connections) (hfd : r.conn.fd = c.fd) (hid : r.conn.id = c.id)
    (hothers : ∀ id, id ≠ c.id → sets id = false)
    (hone : r.keepOpen = true → s.Follows (sets c.id) r.conn)
    (hx : x ∈ (s.settle r).manager.connections) : s.Follows (sets x.2.id) x.2 := by
  rcases mem_settle hx with ⟨rfl, hopen⟩ | ⟨hold, hne⟩
  · show s.Follows (sets r.conn.id) r.conn
    rw [hid]
    exact hone hopen
  · refine Or.inr ⟨hothers _ fun heq => hne ?_, before_self hold⟩
    have hsame : x = (c.fd, c) := List.inj_on_of_nodup_map h.ids hold hmem heq
    rw [hsame, hfd]

theorem follows_onClientEvent (h : s.Phased) (fd : ℤ) (handshake : Handshake)
    {handle : ManagedConnection → Reacted}
    (hhandle : ∀ c : ManagedConnection, c.readState = .headers →
      (handle c).conn.fd = c.fd ∧ (handle c).conn.id = c.id ∧ Timed (handle c).conn)
    (hx : x ∈ (s.onClientEvent fd handshake handle).manager.connections) :
    s.Follows (s.handles fd handshake x.2.id) x.2 := by
  unfold onClientEvent at hx
  cases hfind : s.manager.find fd with
  | none =>
    simp only [hfind] at hx
    refine Or.inr ⟨?_, before_self hx⟩
    simp only [handles, hfind]
  | some c =>
    simp only [hfind] at hx
    have hmem := h.registered.mem_of_find hfind
    have hother (id : ℕ) (hne : id ≠ c.id) : s.handles fd handshake id = false := by
      have hfalse : (c.id == id) = false := beq_eq_false_iff_ne.mpr hne.symm
      simp only [handles, hfind, hfalse, Bool.false_and]
    by_cases hstate : c.endpoint.conn.state = .tlsHandshake
    · rw [if_pos hstate] at hx
      cases handshake with
      | failed =>
        refine Or.inr ⟨?_, before_self (mem_drop hx).1⟩
        simp [handles, hfind, hstate]
      | inProgress epollOut =>
        refine follows_settle h.registered hmem rfl rfl hother (fun _ => Or.inr ⟨?_, ?_⟩) hx
        · simp [handles, hfind, hstate]
        · exact ⟨_, hmem, rfl, rfl, id⟩
      | complete =>
        obtain ⟨hfd, hid, htimed⟩ := hhandle { c with
          endpoint := ⟨{ c.endpoint.conn with state := .reading }, false⟩
          readState := .headers } rfl
        refine follows_settle h.registered hmem hfd hid hother (fun _ => Or.inl ⟨?_, htimed⟩) hx
        simp [handles, hfind]
    · rw [if_neg hstate] at hx
      obtain ⟨hfd, hid, htimed⟩ := hhandle c ((h.entries _ hmem).reads.resolve_right hstate)
      refine follows_settle h.registered hmem hfd hid hother (fun _ => Or.inl ⟨?_, htimed⟩) hx
      simp [handles, hfind, hstate]

theorem follows_drops (sets : Bool) (hsets : sets = false) (fds : List ℤ)
    (hx : x ∈ (fds.foldl Loop.drop s).manager.connections) : s.Follows sets x.2 := by
  have hold : x ∈ s.manager.connections := by
    induction fds generalizing s with
    | nil => exact hx
    | cons fd fds ih => exact (mem_drop (ih hx)).1
  exact Or.inr ⟨hsets, before_self hold⟩

theorem not_next (h : s.Registered) (hx : x ∈ s.manager.connections) :
    (s.manager.nextConnectionId == x.2.id) = false :=
  beq_eq_false_iff_ne.mpr (Nat.ne_of_gt (h.fresh x hx))

theorem follows_accept (h : s.Phased) (fd : ℤ) (nonBlocking : Bool) (maxConnections : ℕ)
    {welcome : ManagedConnection → Reacted}
    (hwelcome : ∀ c : ManagedConnection, (welcome c).conn.fd = c.fd ∧ (welcome c).conn.id = c.id ∧
      ((welcome c).keepOpen = true → Timed (welcome c).conn))
    (hx : x ∈ (s.accept fd nonBlocking maxConnections welcome).manager.connections) :
    s.Follows (s.manager.nextConnectionId == x.2.id) x.2 := by
  rcases accept_cases h.registered.sound fd nonBlocking maxConnections welcome with
    ⟨d, ht, -⟩ | ⟨c, -, -, hfree, hmem, ht⟩
  · rw [ht] at hx
    exact Or.inr ⟨not_next h.registered hx, before_self hx⟩
  · have hnew : c = { fd, endpoint := ⟨{ id := s.manager.nextConnectionId }, false⟩ } := by
      rcases List.mem_append.mp hmem with hold | hlast
      · have hkey : fd ∈ Keyed.keys s.manager.connections := List.mem_map_of_mem (f := Prod.fst) hold
        exact absurd (h.registered.sound.inUse fd hkey) hfree
      · exact (Prod.mk.inj (List.mem_singleton.mp hlast)).2
    obtain ⟨hfd, hid, htimed⟩ := hwelcome c
    rw [ht] at hx
    rcases mem_settle hx with ⟨rfl, hopen⟩ | ⟨hold, hne⟩
    · refine Or.inl ⟨beq_iff_eq.mpr ?_, htimed hopen⟩
      show s.manager.nextConnectionId = (welcome c).conn.id
      rw [hid, hnew]
      rfl
    · rcases List.mem_append.mp hold with hbefore | hlast
      · exact Or.inr ⟨not_next h.registered hbefore, before_self hbefore⟩
      · refine absurd ?_ hne
        rw [List.mem_singleton.mp hlast, hfd, hnew]

theorem follows_completed (h : s.Phased) (connectionId : ℕ) (completion : Completion)
    (hx : x ∈ (s.step (.completed connectionId completion)).manager.connections) :
    s.Follows (s.setsDeadline x.2.id (.completed connectionId completion)) x.2 := by
  by_cases hin : connectionId ∈ s.inFlight
  · have hother (id : ℕ) (hne : id ≠ connectionId) :
        s.setsDeadline id (.completed connectionId completion) = false := by
      have hfalse : (connectionId == id) = false := beq_eq_false_iff_ne.mpr hne.symm
      simp only [setsDeadline, hfalse, Bool.and_false]
    simp only [step, if_pos hin] at hx
    cases hfound : s.manager.findById connectionId with
    | none =>
      rw [hfound] at hx
      refine Or.inr ⟨hother _ fun heq => ?_, before_self hx⟩
      rw [ConnectionManager.findById, Option.map_eq_none_iff, List.find?_eq_none] at hfound
      exact hfound x hx (beq_iff_eq.mpr heq)
    | some c =>
      rw [hfound] at hx
      obtain ⟨⟨k, c⟩, hfind, rfl⟩ := Option.map_eq_some_iff.mp hfound
      have hmem := List.mem_of_find?_eq_some hfind
      have hmatches := List.find?_some hfind
      have hid : c.id = connectionId := beq_iff_eq.mp hmatches
      have hfd : c.fd = k := h.registered.sound.own _ hmem
      have hreacts : Reacts s.inFlight c (c.handleCompletion completion) :=
        ManagedConnection.handleCompletion_reacts (h.entries _ hmem).reads completion
      dsimp only at hx
      rw [settle_manager] at hx
      refine follows_settle h.registered (hfd.symm ▸ hmem) hreacts.fd hreacts.id
        (fun id hne => hother id (hid ▸ hne)) (fun _ => Or.inl ⟨?_, ?_⟩) hx
      · simp only [setsDeadline, hin, hid, decide_true, BEq.rfl, Bool.and_self]
      · exact timed_completion (h.entries _ hmem).reads completion
  · simp only [step, if_neg hin] at hx
    refine Or.inr ⟨?_, before_self hx⟩
    simp only [setsDeadline, hin, decide_false, Bool.false_and]

theorem mem_pingPass {intervalMs now : ℕ} (xs : List (ℤ × ManagedConnection))
    (hfds : ∀ y ∈ xs, y.2.fd = y.1)
    (hx : x ∈ (xs.foldl (fun s y => s.settle (y.2.handlePing intervalMs now)) s).manager.connections) :
    x ∈ s.manager.connections ∧ x.1 ∉ Keyed.keys xs ∨
      ∃ y ∈ xs, x.2 = (y.2.handlePing intervalMs now).conn := by
  induction xs generalizing s with
  | nil => exact Or.inl ⟨hx, List.not_mem_nil⟩
  | cons y xs ih =>
    rcases ih (fun z hz => hfds z (List.mem_cons_of_mem y hz)) hx with ⟨hold, hnot⟩ | ⟨z, hz, heq⟩
    · rcases mem_settle hold with ⟨rfl, -⟩ | ⟨hbefore, hne⟩
      · exact Or.inr ⟨y, List.mem_cons_self, rfl⟩
      · refine Or.inl ⟨hbefore, fun hin => ?_⟩
        rcases List.mem_cons.mp hin with hhead | htail
        · refine hne (hhead.trans ?_)
          rw [(handlePing_same y.2 intervalMs now).1]
          exact (hfds y List.mem_cons_self).symm
        · exact hnot htail
    · exact Or.inr ⟨z, List.mem_cons_of_mem y hz, heq⟩

theorem follows_pingPass (h : s.Phased) (intervalMs now : ℕ)
    (hx : x ∈ (s.step (.pingPass intervalMs now)).manager.connections) :
    s.Follows (s.setsDeadline x.2.id (.pingPass intervalMs now)) x.2 := by
  rcases mem_pingPass _ h.registered.sound.own hx with ⟨hold, hnot⟩ | ⟨y, hy, heq⟩
  · exact absurd (List.mem_map_of_mem (f := Prod.fst) hold) hnot
  obtain ⟨-, hid, hactive, hnotDue⟩ := handlePing_same y.2 intervalMs now
  rw [heq]
  by_cases hdue : Program.pingDue y.2.endpoint intervalMs now = true
  · refine Or.inl ⟨List.any_eq_true.mpr ⟨y, hy, ?_⟩, timed_handlePing hdue⟩
    simp only [hid, hdue, BEq.rfl, Bool.and_self]
  · refine Or.inr ⟨?_, y, hy, hid.symm, (hnotDue hdue).symm, fun hoff => hactive ▸ hoff⟩
    rw [setsDeadline, List.any_eq_false]
    intro z hz
    rw [Bool.and_eq_true, not_and]
    intro hsame
    have hone : z = y :=
      List.inj_on_of_nodup_map h.registered.ids hz hy ((beq_iff_eq.mp hsame).trans hid)
    rwa [hone]

/-- One event: of every connection that is there behind it, it has set the deadline or has left
it as it was. -/
theorem step_follows (h : s.Phased) (e : LoopEvent)
    (hx : x ∈ (s.step e).manager.connections) : s.Follows (s.setsDeadline x.2.id e) x.2 := by
  cases e with
  | accept fd nonBlocking maxConnections =>
    exact follows_accept h fd nonBlocking maxConnections
      (fun c => ⟨rfl, rfl, fun _ => timed_admitPlain c⟩) hx
  | acceptTls fd nonBlocking initialized maxConnections =>
    have hsame (c : ManagedConnection) :
        (admitTls initialized c).conn.fd = c.fd ∧ (admitTls initialized c).conn.id = c.id := by
      cases initialized <;> exact ⟨rfl, rfl⟩
    exact follows_accept h fd nonBlocking maxConnections
      (fun c => ⟨(hsame c).1, (hsame c).2, timed_admitTls⟩) hx
  | readable fd handshake services recv =>
    refine follows_onClientEvent h fd handshake (fun c hread => ?_) hx
    have hcontinues := c.handleReadEvent_continues services recv
    exact ⟨(c.handleRead_keeps services recv).1, (c.handleRead_keeps services recv).2,
      timed_of_continues hread hcontinues⟩
  | writable fd handshake send =>
    have hsplit : s.setsDeadline x.2.id (.writable fd handshake send) =
      (s.writable fd && s.handles fd handshake x.2.id) := rfl
    rw [hsplit]
    dsimp only [step] at hx
    by_cases hready : s.writable fd = true
    · rw [if_pos hready] at hx
      rw [hready, Bool.true_and]
      refine follows_onClientEvent h fd handshake (fun c hread => ?_) hx
      have hcontinues := handleWriteEvent_continues c.endpoint send
      exact ⟨(c.handleWrite_keeps send).1, (c.handleWrite_keeps send).2,
        timed_of_continues hread (hcontinues _)⟩
    · rw [if_neg hready] at hx
      rw [Bool.eq_false_iff.mpr hready, Bool.false_and]
      exact Or.inr ⟨rfl, before_self hx⟩
  | hangup fd => exact Or.inr ⟨rfl, before_self (mem_drop hx).1⟩
  | completed connectionId completion => exact follows_completed h connectionId completion hx
  | sweep passed => exact follows_drops _ rfl _ hx
  | pingPass intervalMs now => exact follows_pingPass h intervalMs now hx
  | shutdown => exact follows_drops _ rfl _ hx

end events

theorem findById_of_mem (h : s.Registered) {x : ℤ × ManagedConnection}
    (hx : x ∈ s.manager.connections) : s.manager.findById x.2.id = some x.2 := by
  rw [ConnectionManager.findById, Option.map_eq_some_iff]
  cases hfind : s.manager.connections.find? fun y => y.2.id == x.2.id with
  | none =>
    rw [List.find?_eq_none] at hfind
    exact absurd BEq.rfl (hfind x hx)
  | some y =>
    have hmatches := List.find?_some hfind
    have hsame : y = x :=
      List.inj_on_of_nodup_map h.ids (List.mem_of_find?_eq_some hfind) hx (beq_iff_eq.mp hmatches)
    exact ⟨y, rfl, hsame ▸ rfl⟩

end Loop

/-! ### Runs -/

namespace TimedLoop
variable {t : TimedLoop} {ticks : List Tick}

theorem run_concat (t : TimedLoop) (ticks : List Tick) (tick : Tick) :
    t.run (ticks ++ [tick]) = (t.run ticks).step tick := by
  rw [run, List.foldl_append]
  rfl

theorem lastSet_concat (id : ℕ) (tick : Tick) : t.lastSet id (ticks ++ [tick]) =
    if (t.run ticks).loop.setsDeadline id tick.event then some tick else t.lastSet id ticks := by
  induction ticks generalizing t with
  | nil => rfl
  | cons first ticks ih =>
    rw [List.cons_append, lastSet, ih]
    show _ = if ((t.step first).run ticks).loop.setsDeadline id tick.event then _ else _
    split
    · rfl
    · rfl

theorem bmod_signed {x : ℤ} (hlow : -2 ^ 63 ≤ x) (hhigh : x < 2 ^ 63) :
    Int.bmod x (2 ^ 64) = x := by
  rw [Int.bmod_eq_of_le] <;> omega

/-- While nothing overflows, the deadline is the sum. -/
theorem deadlineAt_exact {now timeoutMs : ℕ} (h : now + timeoutMs * 1000000 < 2 ^ 63) :
    deadlineAt now timeoutMs = now + timeoutMs * 1000000 := by
  have hcast : Int.bmod timeoutMs (2 ^ 64) = timeoutMs := bmod_signed (by omega) (by omega)
  have hproduct : Int.bmod (timeoutMs * 1000000) (2 ^ 64) = timeoutMs * 1000000 :=
    bmod_signed (by omega) (by omega)
  unfold deadlineAt
  rw [hcast, hproduct, bmod_signed (by omega) (by omega)]

/-- A timeout just below `2^64`, which is what a configured negative number becomes. -/
theorem deadlineAt_negative {now missing : ℕ} (hsome : 0 < missing)
    (hmissing : missing * 1000000 ≤ 2 ^ 63) (hnow : now < 2 ^ 63) :
    deadlineAt now (2 ^ 64 - missing) = now - missing * 1000000 := by
  have hsub : ((2 ^ 64 - missing : ℕ) : ℤ) = -missing + (2 ^ 64 : ℕ) := by
    rw [Int.natCast_sub (by omega)]
    omega
  have hcast : Int.bmod ((2 ^ 64 - missing : ℕ) : ℤ) (2 ^ 64) = -missing := by
    rw [hsub, Int.add_bmod_right]
    exact bmod_signed (by omega) (by omega)
  have hproduct : Int.bmod (-missing * 1000000) (2 ^ 64) = -missing * 1000000 :=
    bmod_signed (by omega) (by omega)
  unfold deadlineAt
  rw [hcast, hproduct, bmod_signed (by omega) (by omega)]
  omega

theorem happening_sets (t : TimedLoop) (tick : Tick) (id : ℕ) :
    t.loop.setsDeadline id (t.happening tick) = t.loop.setsDeadline id tick.event := by
  unfold happening
  cases tick.event <;> rfl

/-- The deadline of a connection is the one that the last event which set it gave it. -/
structure Clocked (ticks : List Tick) (t : TimedLoop) : Prop where
  phased : t.loop.Phased
  timed : ∀ x ∈ t.loop.manager.connections, x.2.endpoint.conn.workerActive = false →
    ∃ tick timeout, fresh.lastSet x.2.id ticks = some tick ∧ x.2.timeout = some timeout ∧
      t.deadline x.2.id = deadlineAt tick.now (timeout.ms tick.config).toNat

theorem Clocked.step (h : Clocked ticks (fresh.run ticks)) (tick : Tick) :
    Clocked (ticks ++ [tick]) ((fresh.run ticks).step tick) := by
  generalize hbefore : fresh.run ticks = t at h
  have hphased : (t.step tick).loop.Phased := h.phased.step _
  refine ⟨hphased, ?_⟩
  intro x hx hactive
  have hfollows : t.loop.Follows (t.loop.setsDeadline x.2.id tick.event) x.2 := by
    rw [← happening_sets]
    exact Loop.step_follows h.phased _ hx
  rw [lastSet_concat, hbefore]
  rcases hfollows with ⟨hsets, htimed⟩ | ⟨hkeeps, y, hy, hid, htimeout, hidle⟩
  · obtain ⟨timeout, hsome⟩ := Option.isSome_iff_exists.mp (htimed hactive)
    refine ⟨tick, timeout, if_pos hsets, hsome, ?_⟩
    show (if t.loop.setsDeadline x.2.id tick.event then _ else _) = _
    rw [if_pos hsets]
    show newDeadline (t.step tick).loop tick x.2.id = _
    rw [newDeadline, Loop.findById_of_mem hphased.registered hx, Option.bind_some, hsome]
  · obtain ⟨last, timeout, hlast, hsome, hdeadline⟩ := h.timed y hy (hidle hactive)
    rw [hid] at hlast hdeadline
    have hnot : ¬t.loop.setsDeadline x.2.id tick.event = true := Bool.eq_false_iff.mp hkeeps
    refine ⟨last, timeout, (if_neg hnot).trans hlast, htimeout ▸ hsome, ?_⟩
    show (if t.loop.setsDeadline x.2.id tick.event then _ else _) = _
    rw [if_neg hnot, hdeadline]

/-- Who connects and stays silent is there until the header timeout has passed. -/
example : ([9999999999, 10000000000].map fun now => (fresh.run [⟨0, {}, .accept 5 true 1⟩,
    ⟨now, {}, .sweep fun _ => false⟩]).loop.manager.connections.map Prod.fst) = [[5], []] := by
  decide +kernel

/-- With a header timeout of -1 it is gone at the next sweep. -/
example : (fresh.run [⟨2000000, { headerTimeoutMs := 2 ^ 64 - 1 }, .accept 5 true 1⟩,
    ⟨2000000, {}, .sweep fun _ => false⟩]).loop.manager.connections = [] := by
  decide +kernel

end TimedLoop
end Aevrix.Server
