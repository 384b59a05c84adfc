import Aevrix.Keyed.Pairs
import Aevrix.Server.ConnectionManager

/-!
# Who owns an accepted descriptor

A descriptor that `accept` returned belongs to a registered connection until it is closed, with
one exception: when the manager refuses the registration, the accept handler only logs it
(`main.cpp:1907-1909, 2028`), where `TcpListener::accept` closes the descriptor that it cannot
use. So all descriptors are accounted for exactly when no registration was refused.
-/

namespace Aevrix.Server

namespace Descriptors
variable {d : Descriptors} {fd : ℤ}

/-- The numbers in use are distinct, and each accepted descriptor is in use or was closed, once. -/
structure Sound (d : Descriptors) : Prop where
  numbers : (Keyed.keys d.opened).Nodup
  once : (d.opened.map Prod.snd ++ d.closed).Perm (List.range d.accepted.length)

theorem inUse_eq_false : d.inUse fd = false ↔ fd ∉ Keyed.keys d.opened := by
  rw [inUse, Option.isSome_eq_false_iff, Option.isNone_iff_eq_none]
  exact Keyed.lookup_eq_none

theorem close_of_lookup {n : ℕ} (h : d.opened.lookup fd = some n) : d.close fd = { d with
    opened := Keyed.erase d.opened fd
    closed := d.closed ++ [n] } := by
  simp only [close, h]
  rfl

theorem Sound.accept (h : d.Sound) (hfree : fd ∉ Keyed.keys d.opened) :
    (d.accept fd).Sound := by
  constructor
  · exact Keyed.nodup_concat h.numbers hfree _
  · simp only [Descriptors.accept, List.map_append, List.map_cons, List.map_nil, List.length_append,
      List.length_singleton, List.range_succ]
    have hlast : (d.opened.map Prod.snd ++ [d.accepted.length] ++ d.closed).Perm
        (d.opened.map Prod.snd ++ d.closed ++ [d.accepted.length]) := by
      rw [List.append_assoc, List.append_assoc]
      exact List.perm_append_comm.append_left _
    exact hlast.trans (h.once.append_right _)

/-- An accepted descriptor that is closed at once leaves the others as they are. -/
theorem Sound.close_accept (h : d.Sound) (hfree : fd ∉ Keyed.keys d.opened) :
    ((d.accept fd).close fd).opened = d.opened := by
  have hlookup : (d.accept fd).opened.lookup fd = some d.accepted.length :=
    Keyed.lookup_of_mem (h.accept hfree).numbers (List.mem_append_right _ List.mem_cons_self)
  rw [close_of_lookup hlookup]
  exact Keyed.erase_concat hfree _

theorem Sound.close (h : d.Sound) : (d.close fd).Sound := by
  cases hlookup : d.opened.lookup fd with
  | none =>
    have hsame : d.close fd = d := by simp only [Descriptors.close, hlookup]
    rw [hsame]
    exact h
  | some n =>
    rw [close_of_lookup hlookup]
    constructor
    · exact Keyed.nodup_erase h.numbers
    · have hout : (d.opened.map Prod.snd).Perm (n :: (Keyed.erase d.opened fd).map Prod.snd) :=
        (Keyed.perm_cons_erase h.numbers hlookup).map Prod.snd
      have hmoved : ((Keyed.erase d.opened fd).map Prod.snd ++ (d.closed ++ [n])).Perm
          (n :: (Keyed.erase d.opened fd).map Prod.snd ++ d.closed) := by
        rw [← List.append_assoc]
        exact List.perm_append_singleton n _
      exact hmoved.trans ((hout.symm.append_right _).trans h.once)

/-- A descriptor is counted once, among the ones in use or among the ones closed. -/
theorem Sound.count (h : d.Sound) {n : ℕ} (hn : n < d.accepted.length) :
    (d.opened.map Prod.snd).count n + d.closed.count n = 1 := by
  rw [← List.count_append, h.once.count_eq]
  exact List.count_eq_one_of_mem List.nodup_range (List.mem_range.mpr hn)

theorem Sound.lt_of_mem (h : d.Sound) {n : ℕ} (hmem : (fd, n) ∈ d.opened) :
    n < d.accepted.length := by
  have hopen : n ∈ d.opened.map Prod.snd := List.mem_map_of_mem (f := Prod.snd) hmem
  exact List.mem_range.mp (h.once.mem_iff.mp (List.mem_append_left _ hopen))

end Descriptors

namespace Loop
variable {s : Loop} {fd : ℤ}

/-! ### Owners -/

/-- The number of registered connections that hold descriptor `n`. -/
def owners (s : Loop) (n : ℕ) : ℕ :=
  s.manager.connections.countP fun x => s.descriptors.opened.lookup x.2.fd == some n

/-- One registered connection owns descriptor `n`, or it was closed once. -/
def Kept (s : Loop) (n : ℕ) : Prop :=
  s.owners n = 1 ∧ s.descriptors.closed.count n = 0 ∨
    s.owners n = 0 ∧ s.descriptors.closed.count n = 1

def AllKept (s : Loop) : Prop := ∀ n < s.descriptors.accepted.length, s.Kept n

instance (s : Loop) : Decidable s.AllKept :=
  inferInstanceAs (Decidable (∀ n < s.descriptors.accepted.length,
    s.owners n = 1 ∧ s.descriptors.closed.count n = 0 ∨
      s.owners n = 0 ∧ s.descriptors.closed.count n = 1))

/-- The registration of an accepted descriptor is refused. -/
def Refused (s : Loop) : LoopEvent → Prop
  | .accept fd nonBlocking maxConnections | .acceptTls fd nonBlocking _ maxConnections =>
    s.descriptors.inUse fd = false ∧ nonBlocking = true ∧
      maxConnections ≤ s.manager.connections.length
  | _ => False

/-- A connection is registered behind the number that it holds, and that number is in use. -/
structure Sound (s : Loop) : Prop where
  descriptors : s.descriptors.Sound
  registered : (Keyed.keys s.manager.connections).Nodup
  own : ∀ x ∈ s.manager.connections, x.2.fd = x.1
  inUse : ∀ k ∈ Keyed.keys s.manager.connections, k ∈ Keyed.keys s.descriptors.opened

/-- Every number in use has a connection registered behind it. -/
def NoLeak (s : Loop) : Prop :=
  ∀ k ∈ Keyed.keys s.descriptors.opened, k ∈ Keyed.keys s.manager.connections

theorem Sound.owners_of_mem (h : s.Sound) {n : ℕ} (hmem : (fd, n) ∈ s.descriptors.opened) :
    s.owners n = (Keyed.keys s.manager.connections).count fd := by
  have hlookup : s.descriptors.opened.lookup fd = some n :=
    Keyed.lookup_of_mem h.descriptors.numbers hmem
  have honce : (s.descriptors.opened.map Prod.snd).Nodup :=
    (h.descriptors.once.nodup_iff.mpr List.nodup_range).of_append_left
  rw [owners, Keyed.keys, List.count, List.countP_map]
  apply List.countP_congr
  intro x hx
  have hown := h.own x hx
  simp only [beq_iff_eq, Function.comp_apply, hown]
  constructor
  · intro hfound
    have hother : (x.1, n) ∈ s.descriptors.opened := Keyed.mem_of_lookup hfound
    exact congrArg Prod.fst (List.inj_on_of_nodup_map honce hother hmem rfl)
  · intro heq
    rw [heq, hlookup]

theorem owners_of_notMem {n : ℕ}
    (hmem : n ∉ s.descriptors.opened.map Prod.snd) : s.owners n = 0 := by
  rw [owners, List.countP_eq_zero]
  intro x _ hfound
  have hopen := Keyed.mem_of_lookup (beq_iff_eq.mp hfound)
  exact hmem (List.mem_map_of_mem (f := Prod.snd) hopen)

/-- All descriptors are kept exactly when none in use is left without a connection. -/
theorem Sound.allKept_iff (h : s.Sound) : s.AllKept ↔ s.NoLeak := by
  constructor
  · intro hkept k hk
    obtain ⟨⟨k, n⟩, hmem, rfl⟩ := List.mem_map.mp hk
    have hlt := h.descriptors.lt_of_mem hmem
    have hcount := h.descriptors.count hlt
    have hopen : 0 < (s.descriptors.opened.map Prod.snd).count n :=
      List.count_pos_iff.mpr (List.mem_map_of_mem (f := Prod.snd) hmem)
    have howners := h.owners_of_mem hmem
    have hpos : 0 < (Keyed.keys s.manager.connections).count k := by
      rcases hkept n hlt with ⟨hone, _⟩ | ⟨_, hclosed⟩ <;> omega
    exact List.count_pos_iff.mp hpos
  · intro hleak n hn
    have hcount := h.descriptors.count hn
    by_cases hopen : n ∈ s.descriptors.opened.map Prod.snd
    · obtain ⟨⟨k, n⟩, hmem, rfl⟩ := List.mem_map.mp hopen
      have hregistered : k ∈ Keyed.keys s.manager.connections :=
        hleak k (List.mem_map_of_mem (f := Prod.fst) hmem)
      have hone := List.count_eq_one_of_mem h.registered hregistered
      have hpos := List.count_pos_iff.mpr hopen
      refine Or.inl ⟨(h.owners_of_mem hmem).trans hone, ?_⟩
      omega
    · have hzero := List.count_eq_zero_of_not_mem hopen
      refine Or.inr ⟨owners_of_notMem hopen, ?_⟩
      omega

/-! ### Steps -/

/-- A change under which nothing is leaked and nothing leaked is found again. -/
def Tidy (s t : Loop) : Prop := s.Sound → t.Sound ∧ (t.NoLeak ↔ s.NoLeak)

theorem tidy_self (s : Loop) : s.Tidy s := fun h => ⟨h, Iff.rfl⟩

theorem Tidy.trans {t u : Loop} (hst : s.Tidy t) (htu : t.Tidy u) : s.Tidy u := by
  intro h
  obtain ⟨ht, hleak⟩ := hst h
  obtain ⟨hu, hleak'⟩ := htu ht
  exact ⟨hu, hleak'.trans hleak⟩

theorem tidy_foldl {α : Type*} {f : Loop → α → Loop} (hf : ∀ t x, Tidy t (f t x)) (xs : List α) :
    s.Tidy (xs.foldl f s) := by
  induction xs generalizing s with
  | nil => exact tidy_self _
  | cons x xs ih => exact (hf s x).trans ih

theorem tidy_drop (s : Loop) (fd : ℤ) : s.Tidy (s.drop fd) := by
  intro h
  unfold drop
  split
  · exact ⟨h, Iff.rfl⟩
  · rename_i c hfind
    have hmem : (fd, c) ∈ s.manager.connections := Keyed.mem_of_lookup hfind
    have hfd : c.fd = fd := h.own _ hmem
    have hregistered : fd ∈ Keyed.keys s.manager.connections := Keyed.mem_keys_of_lookup hfind
    obtain ⟨x, hx, hxfd⟩ := List.mem_map.mp (h.inUse fd hregistered)
    have hopen : s.descriptors.opened.lookup fd = some x.2 :=
      Keyed.lookup_of_mem h.descriptors.numbers (hxfd ▸ hx)
    rw [hfd, Descriptors.close_of_lookup hopen]
    refine ⟨⟨?_, Keyed.nodup_erase h.registered, ?_, ?_⟩, ?_⟩
    · exact Descriptors.close_of_lookup hopen ▸ h.descriptors.close
    · intro y hy
      exact h.own y (Keyed.mem_erase.mp hy).1
    · intro k hk
      obtain ⟨hin, hne⟩ := Keyed.mem_keys_erase.mp hk
      exact Keyed.mem_keys_erase.mpr ⟨h.inUse k hin, hne⟩
    · constructor
      · intro hleak k hk
        by_cases heq : k = fd
        · rw [heq]
          exact hregistered
        · exact (Keyed.mem_keys_erase.mp (hleak k (Keyed.mem_keys_erase.mpr ⟨hk, heq⟩))).1
      · intro hleak k hk
        obtain ⟨hin, hne⟩ := Keyed.mem_keys_erase.mp hk
        exact Keyed.mem_keys_erase.mpr ⟨hleak k hin, hne⟩

theorem tidy_put (s : Loop) (c : ManagedConnection) (inFlight : List ℕ) :
    s.Tidy { s with
      manager := s.manager.put c.fd c
      inFlight } := by
  intro h
  have hkeys : Keyed.keys (s.manager.put c.fd c).connections =
      Keyed.keys s.manager.connections := Keyed.keys_put
  refine ⟨⟨h.descriptors, hkeys ▸ h.registered, ?_, hkeys ▸ h.inUse⟩, ?_⟩
  · intro x hx
    rcases Keyed.mem_put hx with rfl | ⟨hin, _⟩
    · rfl
    · exact h.own x hin
  · simp only [NoLeak, hkeys]

theorem tidy_settle (s : Loop) (r : Reacted) : s.Tidy (s.settle r) := by
  unfold settle
  dsimp only
  split
  · exact tidy_put s _ _
  · exact (tidy_put s _ _).trans (tidy_drop _ _)

theorem tidy_onClientEvent (s : Loop) (fd : ℤ) (handshake : Handshake)
    (handle : ManagedConnection → Reacted) : s.Tidy (s.onClientEvent fd handshake handle) := by
  unfold onClientEvent
  split
  · exact tidy_self _
  · split
    · cases handshake with
      | failed => exact tidy_drop s fd
      | inProgress epollOut => exact tidy_settle s _
      | complete => exact tidy_settle s _
    · exact tidy_settle s _

/-- The loop with a connection registered for the descriptor accepted last. -/
def registered (s : Loop) (fd : ℤ) : Loop := { s with
  descriptors := s.descriptors.accept fd
  manager := {
    connections := s.manager.connections ++
      [(fd, { fd, endpoint := ⟨{ id := s.manager.nextConnectionId }, false⟩ })]
    nextConnectionId := s.manager.nextConnectionId + 1
    totalConnections := s.manager.totalConnections + 1 } }

theorem Sound.accepted (h : s.Sound) (hfree : fd ∉ Keyed.keys s.descriptors.opened) :
    Loop.Sound { s with descriptors := s.descriptors.accept fd } where
  descriptors := h.descriptors.accept hfree
  registered := h.registered
  own := h.own
  inUse := fun k hk => by
    rw [show Keyed.keys (s.descriptors.accept fd).opened = _ from Keyed.keys_concat _ _ _]
    exact List.mem_append_left _ (h.inUse k hk)

theorem Sound.register (h : s.Sound) (hfree : fd ∉ Keyed.keys s.descriptors.opened) :
    (s.registered fd).Sound ∧ ((s.registered fd).NoLeak ↔ s.NoLeak) := by
  have hnew : fd ∉ Keyed.keys s.manager.connections := fun hin => hfree (h.inUse fd hin)
  have hkeys : Keyed.keys (s.registered fd).manager.connections =
      Keyed.keys s.manager.connections ++ [fd] := Keyed.keys_concat _ _ _
  have hopened : Keyed.keys (s.registered fd).descriptors.opened =
      Keyed.keys s.descriptors.opened ++ [fd] := Keyed.keys_concat _ _ _
  refine ⟨⟨h.descriptors.accept hfree, Keyed.nodup_concat h.registered hnew _, ?_, ?_⟩, ?_⟩
  · intro x hx
    rcases List.mem_append.mp hx with hx | hx
    · exact h.own x hx
    · rw [List.mem_singleton.mp hx]
  · intro k hk
    rw [hkeys] at hk
    rw [hopened]
    exact List.mem_append.mpr ((List.mem_append.mp hk).imp_left (h.inUse k))
  · simp only [NoLeak, hkeys, hopened, List.mem_append, List.mem_singleton]
    constructor
    · intro hleak k hk
      rcases hleak k (Or.inl hk) with hin | rfl
      · exact hin
      · exact absurd hk hfree
    · intro hleak k hk
      exact hk.imp_left (hleak k)

/-- The registered numbers name the same descriptors. -/
def SameOwners (s : Loop) (d : Descriptors) : Prop :=
  ∀ k ∈ Keyed.keys s.manager.connections, d.opened.lookup k = s.descriptors.opened.lookup k

theorem sameOwners_accept (hnew : fd ∉ Keyed.keys s.manager.connections) :
    s.SameOwners (s.descriptors.accept fd) := by
  intro k hk
  have hother : (k == fd) = false := beq_false_of_ne fun heq => hnew (heq ▸ hk)
  rw [Descriptors.accept, List.lookup_append, List.lookup_cons, hother]
  exact Option.or_none

/-- What an accept comes to: no connection, and then a descriptor is leaked when its registration
was refused, or a connection registered for it. -/
theorem accept_cases (h : s.Sound) (fd : ℤ) (nonBlocking : Bool) (maxConnections : ℕ)
    (welcome : ManagedConnection → Reacted) :
    let refused := s.descriptors.inUse fd = false ∧ nonBlocking = true ∧
      maxConnections ≤ s.manager.connections.length
    let t := s.accept fd nonBlocking maxConnections welcome
    (∃ d, t = { s with descriptors := d } ∧ s.SameOwners d ∧ t.Sound ∧
        (t.NoLeak ↔ s.NoLeak ∧ ¬refused)) ∨
      ∃ c : ManagedConnection, c.endpoint.conn.workerActive = false ∧
        s.manager.connections.length < maxConnections ∧
        fd ∉ Keyed.keys s.descriptors.opened ∧
        (fd, c) ∈ (s.registered fd).manager.connections ∧ t = (s.registered fd).settle (welcome c) := by
  intro refused t
  cases hused : s.descriptors.inUse fd with
  | true =>
    have hsame : t = s := if_pos hused
    have hmet : ¬refused := fun hrefused => by cases hused.symm.trans hrefused.1
    rw [hsame]
    exact Or.inl ⟨s.descriptors, rfl, fun _ _ => rfl, h, (and_iff_left hmet).symm⟩
  | false =>
  have hfree : fd ∉ Keyed.keys s.descriptors.opened := Descriptors.inUse_eq_false.mp hused
  have haccepted := h.accepted hfree
  have hnew : fd ∉ Keyed.keys s.manager.connections := fun hin => hfree (h.inUse fd hin)
  cases nonBlocking with
  | false =>
    have ht : t = { s with descriptors := (s.descriptors.accept fd).close fd } := by
      simp only [t, accept, hused, Bool.false_eq_true, if_false, Bool.not_false, if_true]
    have hopen := h.descriptors.close_accept hfree
    have hmet : ¬refused := fun hrefused => by cases hrefused.2.1
    refine Or.inl ⟨_, ht, fun _ _ => by rw [hopen], ?_, ?_⟩
    · rw [ht]
      refine ⟨haccepted.descriptors.close, h.registered, h.own, ?_⟩
      simp only [hopen]
      exact h.inUse
    · rw [and_iff_left hmet, ht]
      simp only [NoLeak, hopen]
  | true =>
    have hfind : (s.manager.find fd).isSome = false := by
      rw [ConnectionManager.find, Keyed.lookup_eq_none.mpr hnew, Option.isSome_none]
    by_cases hfull : maxConnections ≤ s.manager.connections.length
    · have ht : t = { s with descriptors := s.descriptors.accept fd } := by
        simp only [t, accept, hused, Bool.false_eq_true, if_false, Bool.not_true,
          ConnectionManager.register, hfull, if_true]
      have hrefused : refused := ⟨hused, rfl, hfull⟩
      refine Or.inl ⟨_, ht, sameOwners_accept hnew, ht ▸ haccepted, ?_⟩
      rw [ht]
      refine iff_of_false ?_ fun hleak => hleak.2 hrefused
      intro hleak
      apply hnew
      apply hleak fd
      rw [show Keyed.keys (s.descriptors.accept fd).opened = _ from Keyed.keys_concat _ _ _]
      exact List.mem_append_right _ List.mem_cons_self
    · refine Or.inr ⟨_, rfl, Nat.lt_of_not_le hfull, hfree, List.mem_append_right _ List.mem_cons_self, ?_⟩
      simp only [t, accept, hused, Bool.false_eq_true, if_false, Bool.not_true,
        ConnectionManager.register, hfull, hfind, registered]

theorem accept_noLeak (h : s.Sound) (fd : ℤ) (nonBlocking : Bool) (maxConnections : ℕ)
    (welcome : ManagedConnection → Reacted) :
    (s.accept fd nonBlocking maxConnections welcome).Sound ∧
      ((s.accept fd nonBlocking maxConnections welcome).NoLeak ↔ s.NoLeak ∧
        ¬(s.descriptors.inUse fd = false ∧ nonBlocking = true ∧
          maxConnections ≤ s.manager.connections.length)) := by
  rcases accept_cases h fd nonBlocking maxConnections welcome with
    ⟨_, _, _, hsound, hleak⟩ | ⟨c, _, hroom, hfree, _, ht⟩
  · exact ⟨hsound, hleak⟩
  · obtain ⟨hregistered, hleak⟩ := h.register hfree
    obtain ⟨hsound, hsettled⟩ := tidy_settle _ (welcome c) hregistered
    have hmet : ¬(s.descriptors.inUse fd = false ∧ nonBlocking = true ∧
        maxConnections ≤ s.manager.connections.length) :=
      fun hrefused => absurd hrefused.2.2 (Nat.not_le_of_lt hroom)
    rw [ht]
    exact ⟨hsound, (hsettled.trans hleak).trans (and_iff_left hmet).symm⟩

theorem step_noLeak (h : s.Sound) (e : LoopEvent) :
    (s.step e).Sound ∧ ((s.step e).NoLeak ↔ s.NoLeak ∧ ¬s.Refused e) := by
  have htidy {t : Loop} (ht : s.Tidy t) (hmet : ¬s.Refused e) :
      t.Sound ∧ (t.NoLeak ↔ s.NoLeak ∧ ¬s.Refused e) :=
    ⟨(ht h).1, (ht h).2.trans (and_iff_left hmet).symm⟩
  cases e with
  | accept fd nonBlocking maxConnections => exact accept_noLeak h fd nonBlocking maxConnections _
  | acceptTls fd nonBlocking initialized maxConnections =>
    exact accept_noLeak h fd nonBlocking maxConnections _
  | readable fd handshake services recv =>
    exact htidy (tidy_onClientEvent s fd handshake _) id
  | writable fd handshake send =>
    apply htidy _ id
    dsimp only [step]
    split
    · exact tidy_onClientEvent s fd handshake _
    · exact tidy_self _
  | hangup fd => exact htidy (tidy_drop s fd) id
  | completed connectionId completion =>
    apply htidy _ id
    have htaken : s.Tidy { s with inFlight := s.inFlight.erase connectionId } := fun hs =>
      ⟨⟨hs.descriptors, hs.registered, hs.own, hs.inUse⟩, Iff.rfl⟩
    dsimp only [step]
    split
    · split
      · exact htaken
      · exact htaken.trans (tidy_settle _ _)
    · exact tidy_self _
  | sweep passed => exact htidy (tidy_foldl tidy_drop _) id
  | pingPass intervalMs now =>
    exact htidy (tidy_foldl (fun t (x : ℤ × ManagedConnection) =>
      tidy_settle t (x.2.handlePing intervalMs now)) _) id
  | shutdown => exact htidy (tidy_foldl tidy_drop _) id

/-! ### Runs -/

/-- No accept of a run is refused. -/
def NeverRefused (s : Loop) : List LoopEvent → Prop
  | [] => True
  | e :: events => ¬s.Refused e ∧ (s.step e).NeverRefused events

theorem run_noLeak (h : s.Sound) (events : List LoopEvent) :
    (s.run events).Sound ∧ ((s.run events).NoLeak ↔ s.NoLeak ∧ s.NeverRefused events) := by
  induction events generalizing s with
  | nil => exact ⟨h, (and_iff_left trivial).symm⟩
  | cons e events ih =>
    obtain ⟨hsound, hleak⟩ := step_noLeak h e
    obtain ⟨hsound', hleak'⟩ := ih hsound
    refine ⟨hsound', ?_⟩
    rw [NeverRefused, ← and_assoc, ← hleak]
    exact hleak'

theorem sound_initial : ({} : Loop).Sound where
  descriptors := ⟨List.nodup_nil, List.Perm.refl _⟩
  registered := List.nodup_nil
  own := fun _ hx => absurd hx List.not_mem_nil
  inUse := fun _ hk => hk

/-- In a run from the start, each accepted descriptor is owned by one registered connection or
was closed once, exactly when no accept of the run was refused. -/
theorem allKept_iff_neverRefused (events : List LoopEvent) :
    (({} : Loop).run events).AllKept ↔ ({} : Loop).NeverRefused events := by
  obtain ⟨hsound, hleak⟩ := run_noLeak sound_initial events
  rw [hsound.allKept_iff, hleak]
  exact and_iff_right fun k hk => absurd hk List.not_mem_nil

/-- The second client of a server for one is refused, and its descriptor stays open. -/
theorem refused_descriptor_leaks :
    ¬∀ events : List LoopEvent, (({} : Loop).run events).AllKept := by
  intro hkept
  have hrefused := hkept [.accept 5 true 1, .accept 6 true 1]
  revert hrefused
  decide

end Loop
end Aevrix.Server
