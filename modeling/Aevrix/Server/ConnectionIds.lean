import Aevrix.Keyed.Issue
import Aevrix.Server.Deadlines

/-!
# The books of the connection manager (`connection_manager.cpp:47-240`)

A number of the kernel is behind one client after the other, while the results of workers and
upstreams are still on their way. So a result carries the identifier of the connection that asked
for it, and identifiers are issued once; the counters are of 64 bits, which no run exhausts.
-/

namespace Aevrix.Server

/-- What is done to a connection that was looked up. Its descriptor and its identifier are set
when it is made and never again. -/
structure Handler where
  run : ManagedConnection → ManagedConnection
  fd : ∀ c, (run c).fd = c.fd
  id : ∀ c, (run c).id = c.id

namespace ConnectionManager

/-- `visit` is `get_connection`, and `visitId` is `get_connection_by_id`, with what the caller
does to the connection found. -/
inductive Operation where
  | register (fd : ℤ)
  | remove (fd : ℤ)
  | timeOut (fd : ℤ)
  | sweep (passed : ℤ → Bool)
  | removeAll
  | visit (fd : ℤ) (handler : Handler)
  | visitId (connectionId : ℕ) (handler : Handler)

section operations
variable (maxConnections : ℕ) (m : ConnectionManager)

/-- `sweep_timeouts` (`connection_manager.cpp:169-207`). -/
def sweepTimeouts (passed : ℤ → Bool) : ConnectionManager :=
  let timedOut := m.connections.filter fun x => x.2.hasDeadlineExceeded (passed x.1)
  (timedOut.map Prod.fst).foldl erase m

def apply : Operation → ConnectionManager
  | .register fd => (m.register maxConnections fd).2
  | .remove fd => m.erase fd
  | .timeOut fd => m.erase fd
  | .sweep passed => m.sweepTimeouts passed
  | .removeAll => { m with connections := [] }
  | .visit fd handler => match m.find fd with
    | none => m
    | some c => m.put fd (handler.run c)
  | .visitId connectionId handler => match m.findById connectionId with
    | none => m
    | some c => m.put c.fd (handler.run c)

def run (operations : List Operation) : ConnectionManager :=
  operations.foldl (apply maxConnections) m

/-- Whether a connection is registered. -/
def registers : Operation → Bool
  | .register fd => (m.register maxConnections fd).1.isSome
  | _ => false

def registrations (m : ConnectionManager) : List Operation → ℕ
  | [] => 0
  | operation :: operations => (m.registers maxConnections operation).toNat +
    registrations (m.apply maxConnections operation) operations

end operations

/-- The connections as the manager names them. -/
def ledger (m : ConnectionManager) : Keyed.Register (ℤ × ℕ) where
  rows := m.connections.map fun x => (x.2.fd, x.2.id)
  next := m.nextConnectionId

/-- A connection is filed under its descriptor. -/
structure Filed (m : ConnectionManager) : Prop where
  keys : (Keyed.keys m.connections).Nodup
  own : ∀ x ∈ m.connections, x.2.fd = x.1

variable {maxConnections : ℕ} {m : ConnectionManager} {fd : ℤ}

theorem mem_of_findById {connectionId : ℕ} {c : ManagedConnection}
    (h : m.findById connectionId = some c) : c.id = connectionId ∧ ∃ k, (k, c) ∈ m.connections := by
  obtain ⟨⟨k, c⟩, hfind, rfl⟩ := Option.map_eq_some_iff.mp h
  have hmatches := List.find?_some hfind
  exact ⟨beq_iff_eq.mp hmatches, k, List.mem_of_find?_eq_some hfind⟩

theorem register_cases (maxConnections : ℕ) (m : ConnectionManager) (fd : ℤ) :
    m.register maxConnections fd = (none, m) ∨
      m.connections.length < maxConnections ∧ fd ∉ Keyed.keys m.connections ∧
        ∃ c : ManagedConnection, c.fd = fd ∧ c.id = m.nextConnectionId ∧
          m.register maxConnections fd = (some c,
            { connections := m.connections ++ [(fd, c)]
              nextConnectionId := m.nextConnectionId + 1
              totalConnections := m.totalConnections + 1 }) := by
  unfold register
  split
  · exact Or.inl rfl
  split
  · exact Or.inl rfl
  · rename_i hroom hnew
    refine Or.inr ⟨Nat.lt_of_not_le hroom, ?_, _, rfl, rfl, rfl⟩
    rw [← Keyed.lookup_eq_none]
    exact Option.not_isSome_iff_eq_none.mp hnew

/-- What is left when connections are removed. -/
structure Fewer (m m' : ConnectionManager) : Prop where
  connections : m'.connections.Sublist m.connections
  next : m'.nextConnectionId = m.nextConnectionId
  total : m'.totalConnections = m.totalConnections

theorem fewer_erase (m : ConnectionManager) (fd : ℤ) : m.Fewer (m.erase fd) :=
  ⟨List.filter_sublist, rfl, rfl⟩

theorem fewer_erases (m : ConnectionManager) (fds : List ℤ) : m.Fewer (fds.foldl erase m) := by
  induction fds generalizing m with
  | nil => exact ⟨List.Sublist.refl _, rfl, rfl⟩
  | cons fd fds ih =>
    obtain ⟨hsub, hnext, htotal⟩ := ih (m.erase fd)
    exact ⟨hsub.trans List.filter_sublist, hnext, htotal⟩

/-- A connection that was looked up is handled where it is filed. -/
def Visited (m m' : ConnectionManager) : Prop :=
  ∃ x ∈ m.connections, ∃ c : ManagedConnection, c.fd = x.2.fd ∧ c.id = x.2.id ∧
    m' = m.put x.2.fd c

theorem apply_cases (h : m.Filed) (maxConnections : ℕ) (operation : Operation) :
    let m' := m.apply maxConnections operation
    m.registers maxConnections operation = false ∧ (m.Fewer m' ∨ m.Visited m') ∨
      m.registers maxConnections operation = true ∧ m.connections.length < maxConnections ∧
        ∃ c : ManagedConnection, c.fd ∉ Keyed.keys m.connections ∧ c.id = m.nextConnectionId ∧
          m' = { connections := m.connections ++ [(c.fd, c)]
                 nextConnectionId := m.nextConnectionId + 1
                 totalConnections := m.totalConnections + 1 } := by
  have hsame : m.Fewer m := ⟨List.Sublist.refl _, rfl, rfl⟩
  cases operation with
  | register fd =>
    simp only [registers, apply]
    rcases register_cases maxConnections m fd with hnone | ⟨hroom, hnew, c, rfl, hid, hsome⟩
    · rw [hnone]
      exact Or.inl ⟨rfl, Or.inl hsame⟩
    · rw [hsome]
      exact Or.inr ⟨rfl, hroom, c, hnew, hid, rfl⟩
  | remove fd => exact Or.inl ⟨rfl, Or.inl (fewer_erase m fd)⟩
  | timeOut fd => exact Or.inl ⟨rfl, Or.inl (fewer_erase m fd)⟩
  | sweep passed => exact Or.inl ⟨rfl, Or.inl (fewer_erases m _)⟩
  | removeAll => exact Or.inl ⟨rfl, Or.inl ⟨List.nil_sublist _, rfl, rfl⟩⟩
  | visit fd handler =>
    refine Or.inl ⟨rfl, ?_⟩
    dsimp only [apply]
    split
    · exact Or.inl hsame
    · rename_i c hfind
      have hmem : (fd, c) ∈ m.connections := Keyed.mem_of_lookup hfind
      have hfd : c.fd = fd := h.own _ hmem
      refine Or.inr ⟨_, hmem, handler.run c, handler.fd c, handler.id c, ?_⟩
      rw [hfd]
  | visitId connectionId handler =>
    refine Or.inl ⟨rfl, ?_⟩
    dsimp only [apply]
    split
    · exact Or.inl hsame
    · rename_i c hfind
      obtain ⟨-, k, hmem⟩ := mem_of_findById hfind
      exact Or.inr ⟨_, hmem, handler.run c, handler.fd c, handler.id c, rfl⟩

theorem Filed.apply (h : m.Filed) (maxConnections : ℕ) (operation : Operation) :
    (m.apply maxConnections operation).Filed := by
  rcases apply_cases h maxConnections operation with
    ⟨-, hfewer | hvisited⟩ | ⟨-, -, c, hnew, -, happly⟩
  · exact ⟨h.keys.sublist (hfewer.connections.map _),
      fun x hx => h.own x (hfewer.connections.subset hx)⟩
  · obtain ⟨x, -, c, hfd, -, happly⟩ := hvisited
    rw [happly]
    refine ⟨?_, ?_⟩
    · rw [put, ← Keyed.put, Keyed.keys_put]
      exact h.keys
    · intro y hy
      rcases Keyed.mem_put hy with rfl | ⟨hin, -⟩
      · exact hfd
      · exact h.own y hin
  · rw [happly]
    refine ⟨Keyed.nodup_concat h.keys hnew _, ?_⟩
    intro x hx
    rcases List.mem_append.mp hx with hin | hlast
    · exact h.own x hin
    · rw [List.mem_singleton.mp hlast]

theorem Filed.move (h : m.Filed) (maxConnections : ℕ) (operation : Operation) :
    Keyed.Move Prod.snd maxConnections m.ledger (m.apply maxConnections operation).ledger := by
  rcases apply_cases h maxConnections operation with
    ⟨-, hfewer | hvisited⟩ | ⟨-, hroom, c, -, hid, happly⟩
  · unfold ledger
    rw [hfewer.next]
    exact .strike (hfewer.connections.map _)
  · obtain ⟨x, hx, c, hfd, hid, happly⟩ := hvisited
    have hmem : (x.2.fd, x.2) ∈ m.connections := by
      rw [h.own x hx]
      exact hx
    have hrows : (m.put x.2.fd c).connections.map (fun x => (x.2.fd, x.2.id)) =
        m.connections.map fun x => (x.2.fd, x.2.id) :=
      Keyed.map_put (fun c : ManagedConnection => (c.fd, c.id)) h.keys hmem (by rw [hfd, hid])
    rw [happly]
    unfold ledger
    rw [hrows]
    exact .strike (List.Sublist.refl _)
  · rw [happly]
    unfold ledger
    rw [List.map_append]
    exact .issue (c.fd, c.id) hid (by rwa [List.length_map])

theorem counters_apply (h : m.Filed) (maxConnections : ℕ) (operation : Operation) :
    let m' := m.apply maxConnections operation
    m'.totalConnections = m.totalConnections + (m.registers maxConnections operation).toNat ∧
      m'.nextConnectionId =
        m.nextConnectionId + (m.registers maxConnections operation).toNat := by
  rcases apply_cases h maxConnections operation with
    ⟨hnone, hfewer | hvisited⟩ | ⟨hsome, -, c, -, -, happly⟩
  · rw [hnone]
    exact ⟨hfewer.total, hfewer.next⟩
  · obtain ⟨x, -, c, -, -, happly⟩ := hvisited
    rw [hnone, happly]
    exact ⟨rfl, rfl⟩
  · rw [hsome, happly]
    exact ⟨rfl, rfl⟩

/-! ### Runs of the manager -/

theorem Filed.run (h : m.Filed) (maxConnections : ℕ) (operations : List Operation) :
    (m.run maxConnections operations).Filed := by
  induction operations generalizing m with
  | nil => exact h
  | cons operation operations ih => exact ih (h.apply maxConnections operation)

theorem Filed.moves (h : m.Filed) (maxConnections : ℕ) (operations : List Operation) :
    Keyed.Moves Prod.snd maxConnections m.ledger (m.run maxConnections operations).ledger := by
  induction operations generalizing m with
  | nil => exact .refl
  | cons operation operations ih =>
    exact .head (h.move maxConnections operation) (ih (h.apply maxConnections operation))

theorem counters_run (h : m.Filed) (maxConnections : ℕ) (operations : List Operation) :
    let registrations := m.registrations maxConnections operations
    let m' := m.run maxConnections operations
    m'.totalConnections = m.totalConnections + registrations ∧
      m'.nextConnectionId = m.nextConnectionId + registrations := by
  induction operations generalizing m with
  | nil => exact ⟨rfl, rfl⟩
  | cons operation operations ih =>
    obtain ⟨htotal, hnext⟩ := counters_apply h maxConnections operation
    obtain ⟨htotal', hnext'⟩ := ih (h.apply maxConnections operation)
    rw [htotal, Nat.add_assoc] at htotal'
    rw [hnext, Nat.add_assoc] at hnext'
    exact ⟨htotal', hnext'⟩

/-- The books: the connections are filed under their descriptors, their identifiers are distinct
and were issued, and there is room for them. -/
structure Kept (maxConnections : ℕ) (m : ConnectionManager) : Prop extends Filed m where
  ids : (m.connections.map fun x => x.2.id).Nodup
  issued : ∀ x ∈ m.connections, x.2.id < m.nextConnectionId
  room : m.connections.length ≤ maxConnections

theorem kept_iff : m.Kept maxConnections ↔
    m.Filed ∧ m.ledger.Sound Prod.snd maxConnections := by
  constructor
  · intro h
    refine ⟨h.toFiled, ?_, ?_, ?_⟩
    · rw [ledger, List.map_map]
      exact h.ids
    · rw [ledger, List.forall_mem_map]
      exact h.issued
    · rw [ledger, List.length_map]
      exact h.room
  · rintro ⟨hfiled, hdistinct, hissued, hroom⟩
    rw [ledger, List.map_map] at hdistinct
    rw [ledger, List.forall_mem_map] at hissued
    rw [ledger, List.length_map] at hroom
    exact ⟨hfiled, hdistinct, hissued, hroom⟩

theorem Kept.run (h : m.Kept maxConnections) (operations : List Operation) :
    (m.run maxConnections operations).Kept maxConnections := by
  obtain ⟨hfiled, hsound⟩ := kept_iff.mp h
  exact kept_iff.mpr ⟨hfiled.run _ _, hsound.moves (hfiled.moves _ operations)⟩

theorem filed_initial : ({} : ConnectionManager).Filed :=
  ⟨List.nodup_nil, fun _ hx => absurd hx List.not_mem_nil⟩

theorem kept_initial : ({} : ConnectionManager).Kept maxConnections where
  toFiled := filed_initial
  ids := List.nodup_nil
  issued := fun _ hx => absurd hx List.not_mem_nil
  room := Nat.zero_le _

/-- A connection that is found later by the identifier of a registered one was registered under
the same number all the time. -/
theorem Kept.found (h : m.Kept maxConnections) {operations : List Operation}
    {x : ℤ × ManagedConnection} (hx : x ∈ m.connections) {c : ManagedConnection}
    (hfound : (m.run maxConnections operations).findById x.2.id = some c)
    {part : List Operation} (hpart : part <+: operations) :
    ∃ d, (m.run maxConnections part).find x.1 = some d ∧ d.id = x.2.id := by
  obtain ⟨hfiled, hsound⟩ := kept_iff.mp h
  obtain ⟨rest, rfl⟩ := hpart
  obtain ⟨hid, k, hmem⟩ := mem_of_findById hfound
  have hpartFiled := hfiled.run maxConnections part
  have hmoves := hfiled.moves maxConnections part
  have hrest := hpartFiled.moves maxConnections rest
  have hissued : x.2.id < (m.run maxConnections part).nextConnectionId :=
    Nat.lt_of_lt_of_le (h.issued x hx) hmoves.next_le
  have hrow : (c.fd, c.id) ∈ (m.run maxConnections part).ledger.rows := by
    apply hrest.mem_of_issued _ (hid ▸ hissued)
    rw [ConnectionManager.run, List.foldl_append] at hmem
    exact List.mem_map_of_mem (f := fun x : ℤ × ManagedConnection => (x.2.fd, x.2.id)) hmem
  have hsame : (c.fd, c.id) = (x.2.fd, x.2.id) :=
    hmoves.eq_of_number hsound (List.mem_map_of_mem (f := fun x => (x.2.fd, x.2.id)) hx) hrow hid
  obtain ⟨y, hy, hyrow⟩ := List.mem_map.mp (hsame ▸ hrow)
  obtain ⟨hyfd, hyid⟩ := Prod.mk.inj hyrow
  have hkey : y.1 = x.1 := by rw [← hpartFiled.own y hy, hyfd, hfiled.own x hx]
  exact ⟨y.2, Keyed.lookup_of_mem hpartFiled.keys (hkey ▸ hy), hyid⟩

end ConnectionManager
end Aevrix.Server
