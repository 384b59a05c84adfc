import Aevrix.Custody.Ledger
import Aevrix.Proxy.Completion

/-!
# The upstream descriptors of the proxy handler

A descriptor that `socket` returns belongs to a request in flight, to the pool, or is closed; and
it is closed once. `shutdown` closes the rest (`descriptors_conserved`).
-/

namespace Aevrix.Proxy.Lifecycle
open Custody

/-- The descriptor that `socket` returned, if it did. -/
def socketOf : UpstreamPool.Connect → List ℤ
  | .noSocket _ => []
  | .refused fd _ => [fd]
  | .started fd => [fd]

namespace ProxyHandler

/-- `shutdown` (`proxy_handler.cpp:637-648`). -/
def shutdown (h : ProxyHandler) : ProxyHandler :=
  let (pool, closing) := h.pool.closeAll
  { h with
    pending := [], pool
    closed := h.closed ++ (h.pending.map (fun e => e.2.connection) ++ closing) }

/-- A call of the handler, or its shutdown. -/
inductive Turn where
  | call (c : Call)
  | shutdown

def turn (h : ProxyHandler) : Turn → ProxyHandler
  | .call c => h.call c
  | .shutdown => h.shutdown

/-- The descriptors that a turn opens: `start` calls `socket` unless the pool has a connection. -/
def opens (h : ProxyHandler) : Turn → List ℤ
  | .call (.start c) =>
    if h.configured = false then []
    else match (h.pool.acquire h.target c.connect).1 with
      | .acquired true _ => []
      | _ => socketOf c.connect
  | _ => []

/-- The descriptors that a turn closes. -/
def closes (h : ProxyHandler) (t : Turn) : List ℤ := (h.turn t).closed.drop h.closed.length

/-- The handler as a keeper of descriptors. -/
def keeper : Keeper ProxyHandler Turn ℤ where
  step := turn
  held := openDescriptors
  taken := opens
  given := closes

/-- The kernel returns a descriptor that is not open. -/
def FreshTurn (h : ProxyHandler) : Turn → Prop
  | .call (.start c) => ∀ fd ∈ socketOf c.connect, 0 ≤ fd ∧ fd ∉ h.openDescriptors
  | _ => True

/-! ### Custody -/

/-- Every request is kept under its descriptor. -/
structure Keeps (h : ProxyHandler) : Prop where
  keys : (h.pending.map Prod.fst).Nodup
  connection : ∀ e ∈ h.pending, e.2.connection = e.1
  real : ∀ fd ∈ h.openDescriptors, 0 ≤ fd

/-- From `h₀` to `h`: what was open or was opened is open or closed. -/
structure Kept (h₀ : ProxyHandler) (opened : List ℤ) (h : ProxyHandler) : Prop extends Keeps h where
  moved : ∃ gone, h.closed = h₀.closed ++ gone ∧
    Transfers h₀.openDescriptors opened gone h.openDescriptors

section Kept
variable {h₀ h h' : ProxyHandler} {opened : List ℤ} {fd : ℤ} {request : PendingRequest}

theorem Keeps.kept (hk : Keeps h) : Kept h [] h :=
  ⟨hk, [], (List.append_nil _).symm, Transfers.refl _⟩

theorem Kept.trans {opened' : List ℤ} (hk : Kept h₀ opened h) (hk' : Kept h opened' h') :
    Kept h₀ (opened ++ opened') h' := by
  obtain ⟨gone, hclosed, hmoves⟩ := hk.moved
  obtain ⟨gone', hclosed', hmoves'⟩ := hk'.moved
  refine ⟨hk'.toKeeps, gone ++ gone', ?_, hmoves.trans hmoves'⟩
  rw [hclosed', hclosed, List.append_assoc]

/-- Nothing is opened, and what goes goes to `closed`. -/
theorem Keeps.moves (hk : Keeps h) (gone : List ℤ) (hkeys : (h'.pending.map Prod.fst).Nodup)
    (hconnection : ∀ e ∈ h'.pending, e.2.connection = e.1) (hclosed : h'.closed = h.closed ++ gone)
    (hopen : h.openDescriptors.Perm (gone ++ h'.openDescriptors)) : Kept h [] h' := by
  refine ⟨⟨hkeys, hconnection, fun fd hfd => ?_⟩, gone, hclosed, ?_⟩
  · exact hk.real fd (hopen.mem_iff.mpr (List.mem_append_right _ hfd))
  · rw [Transfers, List.append_nil]
    exact hopen

theorem Keeps.update (hk : Keeps h) (fd : ℤ) (f : PendingRequest → PendingRequest)
    (hf : ∀ r, (f r).connection = r.connection) : Kept h [] (h.update fd f) := by
  have hentry : (h.update fd f).pending.map (fun e => (e.1, e.2.connection)) =
      h.pending.map fun e => (e.1, e.2.connection) := by
    simp only [ProxyHandler.update, List.map_map]
    refine List.map_congr_left fun e _ => ?_
    simp only [Function.comp_apply]
    split
    · rename_i hfd
      rw [hf, hfd]
    · rfl
  have hkeys := congrArg (List.map Prod.fst) hentry
  have hconnections := congrArg (List.map Prod.snd) hentry
  simp only [List.map_map, Function.comp_def] at hkeys hconnections
  refine hk.moves [] ?_ (fun e he => ?_) (List.append_nil _).symm ?_
  · rw [hkeys]
    exact hk.keys
  · have hmem : (e.1, e.2.connection) ∈ h.pending.map fun e => (e.1, e.2.connection) := by
      rw [← hentry]
      exact List.mem_map_of_mem he
    obtain ⟨e', he', heq⟩ := List.mem_map.mp hmem
    rw [← (Prod.mk.inj heq).1, ← (Prod.mk.inj heq).2]
    exact hk.connection e' he'
  · rw [List.nil_append, openDescriptors, openDescriptors, hconnections]
    exact List.Perm.refl _

/-- A request is over: its descriptor is in the pool or closed. -/
theorem Keeps.finish (hk : Keeps h) (hfind : h.find fd = some request)
    (hpending : h'.pending = (h.erase fd).pending)
    (hwhere : h'.pool.descriptors.Perm (fd :: h.pool.descriptors) ∧ h'.closed = h.closed ∨
      h'.pool = h.pool ∧ h'.closed = h.closed ++ [fd]) : Kept h [] h' := by
  have hmem : (fd, request) ∈ h.pending := mem_of_lookup hfind
  have hperm := (perm_filter_ne hk.keys hmem).map fun e : ℤ × PendingRequest => e.2.connection
  rw [List.map_cons, show request.connection = fd from hk.connection _ hmem] at hperm
  have hsub : h'.pending.Sublist h.pending := by
    rw [hpending]
    exact List.filter_sublist
  have hopen : h.openDescriptors.Perm
      (fd :: (h'.pending.map (fun e => e.2.connection) ++ h.pool.descriptors)) := by
    rw [hpending]
    exact hperm.append_right _
  have hkeys := hk.keys.sublist (hsub.map Prod.fst)
  have hconnection : ∀ e ∈ h'.pending, e.2.connection = e.1 := fun e he =>
    hk.connection e (hsub.subset he)
  rcases hwhere with ⟨hpool, hclosed⟩ | ⟨hpool, hclosed⟩
  · refine hk.moves [] hkeys hconnection (hclosed.trans (List.append_nil _).symm) ?_
    have hidle := (List.Perm.append_left (h'.pending.map fun e => e.2.connection) hpool).symm
    exact hopen.trans (List.perm_middle.symm.trans hidle)
  · refine hk.moves [fd] hkeys hconnection hclosed ?_
    have hopen' : h'.openDescriptors =
        h'.pending.map (fun e => e.2.connection) ++ h.pool.descriptors := by
      rw [openDescriptors, hpool]
    rw [hopen']
    exact hopen

theorem Keeps.complete (hk : Keeps h) (fd : ℤ) (outcome : ProxyOutcome) (now : ℕ) :
    Kept h [] (h.complete fd outcome now) := by
  unfold ProxyHandler.complete
  cases hfind : h.find fd with
  | none => exact hk.kept
  | some request =>
    have hmem : (fd, request) ∈ h.pending := mem_of_lookup hfind
    have hconnection : request.connection = fd := hk.connection _ hmem
    have hreal : 0 ≤ fd := by
      refine hk.real fd (List.mem_append_left _ (List.mem_map.mpr ⟨_, hmem, hconnection⟩))
    refine hk.finish hfind rfl ?_
    dsimp only
    split
    · rw [hconnection]
      rcases h.pool.parked_release request.target fd now with ⟨-, hclosing, hparked⟩ | ⟨hsame, hclosing⟩
      · refine Or.inl ⟨?_, ?_⟩
        · have hperm := hparked.map fun e : Bytes × IdleConnection => e.2.fd
          rwa [← UpstreamPool.descriptors_eq, List.map_cons, ← UpstreamPool.descriptors_eq] at hperm
        · show h.closed ++ (h.pool.release request.target fd now).2.toList = h.closed
          rw [hclosing]
          exact List.append_nil _
      · refine Or.inr ⟨hsame, ?_⟩
        show h.closed ++ (h.pool.release request.target fd now).2.toList = h.closed ++ [fd]
        rw [hclosing hreal]
        rfl
    · refine Or.inr ⟨rfl, ?_⟩
      rw [hconnection]
      rfl

theorem Keeps.fail (hk : Keeps h) (fd : ℤ) (status : ProxyOutcomeStatus) (message : Bytes) :
    Kept h [] (h.fail fd status message) := by
  unfold ProxyHandler.fail
  cases hfind : h.find fd with
  | none => exact hk.kept
  | some request =>
    have hconnection : request.connection = fd := hk.connection _ (mem_of_lookup hfind)
    refine hk.finish hfind rfl (Or.inr ⟨rfl, ?_⟩)
    dsimp only
    rw [hconnection]
    rfl

theorem stepInvariant_kept (h₀ : ProxyHandler) (opened : List ℤ) :
    StepInvariant (Kept h₀ opened) where
  update fd f hf hk := by
    have hnext := hk.trans (hk.toKeeps.update fd f fun r => (hf r).connection)
    rwa [List.append_nil] at hnext
  complete fd outcome now hk := by
    have hnext := hk.trans (hk.toKeeps.complete fd outcome now)
    rwa [List.append_nil] at hnext
  fail fd status message hk := by
    have hnext := hk.trans (hk.toKeeps.fail fd status message)
    rwa [List.append_nil] at hnext

/-! ### Starting -/

theorem Keeps.add (hk : Keeps h) (hfd : 0 ≤ fd) (hfind : h.find fd = none)
    (hconnection : request.connection = fd) (hpending : h'.pending = h.pending ++ [(fd, request)])
    (hpool : h'.pool = h.pool) (hclosed : h'.closed = h.closed) : Kept h [fd] h' := by
  have hopen : (h.openDescriptors ++ [fd]).Perm h'.openDescriptors := by
    rw [openDescriptors, openDescriptors, hpending, hpool, List.map_append, List.map_singleton,
      hconnection, List.append_assoc, List.append_assoc]
    exact List.Perm.append_left _ List.perm_append_comm
  refine ⟨⟨?_, fun e he => ?_, fun d hd => ?_⟩, [], ?_, hopen⟩
  · rw [hpending, List.map_append, List.map_singleton]
    refine List.Nodup.append hk.keys (List.nodup_singleton _) ?_
    rw [List.disjoint_singleton]
    intro hmem
    obtain ⟨e, he, rfl⟩ := List.mem_map.mp hmem
    have hne := List.lookup_eq_none_iff.mp hfind e he
    simp at hne
  · rw [hpending, List.mem_append, List.mem_singleton] at he
    rcases he with he | rfl
    · exact hk.connection e he
    · exact hconnection
  · rcases List.mem_append.mp (hopen.mem_iff.mpr hd) with hd | hd
    · exact hk.real d hd
    · rw [List.mem_singleton.mp hd]
      exact hfd
  · rw [hclosed, List.append_nil]

/-- What `start` does where it does not register anything. -/
theorem Keeps.reject (hk : Keeps h) {gone : List ℤ} (hpending : h'.pending = h.pending)
    (hpool : h'.pool = h.pool) (hclosed : h'.closed = h.closed ++ gone) : Kept h gone h' := by
  have hopen : h'.openDescriptors = h.openDescriptors := by
    rw [openDescriptors, openDescriptors, hpending, hpool]
  refine ⟨⟨by rw [hpending]; exact hk.keys, by rw [hpending]; exact hk.connection,
    by rw [hopen]; exact hk.real⟩, gone, hclosed, ?_⟩
  rw [hopen]
  exact List.perm_append_comm

/-- A descriptor in hand is registered or closed. -/
theorem Keeps.register (hk : Keeps h) (hfd : 0 ≤ fd) (c : Start) (ticket : ℕ) (reused : Bool) :
    Kept h [fd] (h.register c ticket reused fd) := by
  unfold ProxyHandler.register
  cases c.addFd with
  | false => cases reused <;> exact hk.reject rfl rfl rfl
  | true =>
    unfold emplace
    cases hfind : h.find fd with
    | none =>
      have hlookup : h.pending.lookup fd = none := hfind
      cases reused
      all_goals
        simp only [Bool.false_eq_true, if_false, if_true, ProxyHandler.find, hlookup]
        exact hk.add hfd hfind rfl rfl rfl rfl
    | some old =>
      have hlookup : h.pending.lookup fd = some old := hfind
      cases reused
      all_goals
        simp only [Bool.false_eq_true, if_false, if_true, ProxyHandler.find, hlookup]
        exact hk.reject rfl rfl rfl

theorem acquire_cases (pool : UpstreamPool) (target : ProxyTarget) (connect : UpstreamPool.Connect) :
    (∃ fd pool', pool.acquire target connect = (.acquired true fd, pool', none) ∧
      pool.descriptors.Perm (fd :: pool'.descriptors)) ∨
    pool.acquire target connect =
      ((UpstreamPool.create connect).1, pool, (UpstreamPool.create connect).2) := by
  unfold UpstreamPool.acquire
  cases htake : UpstreamPool.takeBack target.authority pool.idle with
  | none => exact Or.inr rfl
  | some taken =>
    obtain ⟨fd, idle⟩ := taken
    obtain ⟨since, hperm⟩ := UpstreamPool.entries_takeBack htake
    refine Or.inl ⟨fd, _, rfl, ?_⟩
    rw [UpstreamPool.descriptors_eq, UpstreamPool.descriptors_eq]
    exact hperm.map _

theorem Keeps.start (hk : Keeps h) {c : Start} (hreal : ∀ fd ∈ socketOf c.connect, 0 ≤ fd) :
    Kept h (h.opens (.call (.start c))) (h.start c) := by
  cases hconfigured : h.configured with
  | false =>
    rw [start_unconfigured hconfigured, opens, if_pos hconfigured]
    exact hk.reject rfl rfl (List.append_nil _).symm
  | true =>
    simp only [opens, hconfigured, Bool.true_eq_false, if_false]
    rcases acquire_cases h.pool h.target c.connect with ⟨fd, pool, hacquire, hperm⟩ | hacquire
    · have hhand : h.openDescriptors.Perm
          ((h.afterAcquire c pool none).openDescriptors ++ [fd]) := by
        have hpool := List.Perm.append_left (h.pending.map fun e => e.2.connection) hperm
        rw [openDescriptors, openDescriptors]
        refine hpool.trans (List.perm_middle.trans ?_)
        exact (List.perm_append_singleton fd _).symm
      have hafter : Keeps (h.afterAcquire c pool none) := by
        refine ⟨hk.keys, hk.connection, fun d hd => hk.real d ?_⟩
        exact hhand.mem_iff.mpr (List.mem_append_left _ hd)
      have hfd : 0 ≤ fd :=
        hk.real fd (hhand.mem_iff.mpr (List.mem_append_right _ (List.mem_singleton.mpr rfl)))
      rw [start_acquired hconfigured hacquire, hacquire]
      obtain ⟨hkeeps, gone, hclosed, hmoves⟩ := hafter.register hfd c h.started.length true
      refine ⟨hkeeps, gone, ?_, ?_⟩
      · rw [hclosed]
        exact congrArg (fun l => l ++ gone) (List.append_nil _)
      · rw [Transfers, List.append_nil]
        exact hhand.trans hmoves
    · rw [hacquire]
      cases hconnect : c.connect with
      | noSocket reason =>
        rw [hconnect] at hacquire
        rw [start_failed hconfigured (by rw [hconnect]; exact hacquire)]
        exact hk.reject rfl rfl rfl
      | refused fd reason =>
        rw [hconnect] at hacquire
        rw [start_failed hconfigured (by rw [hconnect]; exact hacquire)]
        exact hk.reject rfl rfl rfl
      | started fd =>
        rw [hconnect] at hacquire
        rw [start_acquired hconfigured (by rw [hconnect]; exact hacquire)]
        have hafter : Kept h [] (h.afterAcquire c h.pool none) := hk.reject rfl rfl rfl
        have hfd : 0 ≤ fd := hreal fd (by rw [hconnect]; exact List.mem_singleton.mpr rfl)
        exact hafter.trans (hafter.toKeeps.register hfd c h.started.length false)

/-! ### Sweeping and stopping -/

theorem Keeps.sweepTimeouts (hk : Keeps h) (now : ℕ) : Kept h [] (h.sweepTimeouts now) := by
  have hexpired := (stepInvariant_kept h []).expireAll
    ((h.pending.filter fun e => isExpired now e.2).map Prod.fst) hk.kept
  simp only [ProxyHandler.sweepTimeouts]
  generalize ((h.pending.filter fun e => isExpired now e.2).map Prod.fst).foldl ProxyHandler.expire h = h₁
    at hexpired
  have hsplit : h₁.pool.descriptors.Perm
      ((h₁.pool.sweepIdle now).2.1 ++ (h₁.pool.sweepIdle now).1.descriptors) := by
    rw [UpstreamPool.closing_sweepIdle, UpstreamPool.descriptors_eq, UpstreamPool.descriptors_eq,
      UpstreamPool.parked_sweepIdle, ← List.map_append]
    exact ((List.filter_append_perm _ _).symm).map _
  refine hexpired.trans (hexpired.toKeeps.moves _ hexpired.keys hexpired.connection rfl ?_)
  rw [openDescriptors, openDescriptors, ← List.append_assoc]
  have hleft := List.Perm.append_left (h₁.pending.map fun e => e.2.connection) hsplit
  rw [← List.append_assoc] at hleft
  exact hleft.trans (List.perm_append_comm.append_right _)

theorem Keeps.shutdown (hk : Keeps h) : Kept h [] h.shutdown := by
  refine hk.moves h.openDescriptors List.nodup_nil (fun e he => ?_) rfl ?_
  · cases he
  · rw [show h.shutdown.openDescriptors = [] from rfl, List.append_nil]

theorem Keeps.turn (hk : Keeps h) {t : Turn} (ht : h.FreshTurn t) : Kept h (h.opens t) (h.turn t) := by
  cases t with
  | shutdown => exact hk.shutdown
  | call c =>
    cases c with
    | start c => exact hk.start fun fd hfd => (ht fd hfd).1
    | event fd generation event io =>
      exact (stepInvariant_kept h []).onUpstreamEvent fd generation event io hk.kept
    | sweep now => exact hk.sweepTimeouts now
    | refresh maxIdle idleTimeoutMs =>
      exact hk.moves [] hk.keys hk.connection (List.append_nil _).symm (List.Perm.refl _)

end Kept

theorem Kept.closes_eq {h : ProxyHandler} {opened : List ℤ} {t : Turn}
    (hk : Kept h opened (h.turn t)) :
    Transfers h.openDescriptors opened (h.closes t) (h.turn t).openDescriptors ∧
      (h.turn t).closed = h.closed ++ h.closes t := by
  obtain ⟨gone, hclosed, hmoves⟩ := hk.moved
  have hcloses : h.closes t = gone := by
    rw [closes, hclosed, List.drop_left]
  rw [hcloses]
  exact ⟨hmoves, hclosed⟩

theorem nodup_opens {h : ProxyHandler} {t : Turn} (ht : h.FreshTurn t)
    (hnodup : h.openDescriptors.Nodup) : (h.openDescriptors ++ h.opens t).Nodup := by
  have hsocket : ∀ connect : UpstreamPool.Connect,
      (∀ fd ∈ socketOf connect, fd ∉ h.openDescriptors) →
      (h.openDescriptors ++ socketOf connect).Nodup := by
    intro connect hfresh
    refine List.Nodup.append hnodup ?_ fun fd hopen hfd => hfresh fd hfd hopen
    cases connect with
    | noSocket reason => exact List.nodup_nil
    | refused fd reason => exact List.nodup_singleton fd
    | started fd => exact List.nodup_singleton fd
  have hnone : (h.openDescriptors ++ []).Nodup := by
    rw [List.append_nil]
    exact hnodup
  cases t with
  | shutdown => exact hnone
  | call c =>
    cases c with
    | start c =>
      simp only [opens]
      split
      · exact hnone
      split
      · exact hnone
      · exact hsocket c.connect fun fd hfd => (ht fd hfd).2
    | event fd generation event io => exact hnone
    | sweep now => exact hnone
    | refresh maxIdle idleTimeoutMs => exact hnone

theorem keeper_honest : keeper.Honest Keeps FreshTurn where
  step _ _ hk ht := (hk.turn ht).toKeeps
  moves _ _ hk ht := (hk.turn ht).closes_eq.1
  fresh _ _ _ ht hnodup := nodup_opens ht hnodup

theorem keeps_new (target : Except Bytes ProxyTarget) (maxIdle idleTimeoutMs : ℕ) :
    Keeps (new target maxIdle idleTimeoutMs) := by
  refine ⟨List.nodup_nil, fun e he => ?_, fun fd hfd => ?_⟩
  · cases he
  · cases hfd

theorem closed_run {h : ProxyHandler} (hk : Keeps h) {turns : List Turn}
    (hfresh : keeper.AllowedRun FreshTurn h turns) :
    (keeper.run h turns).closed = h.closed ++ keeper.givenIn h turns := by
  induction turns generalizing h with
  | nil => exact (List.append_nil _).symm
  | cons t turns ih =>
    have hturn := hk.turn hfresh.1
    have hrest := ih hturn.toKeeps hfresh.2
    show (keeper.run (h.turn t) turns).closed = h.closed ++ (h.closes t ++ keeper.givenIn (h.turn t) turns)
    rw [← List.append_assoc, ← hturn.closes_eq.2]
    exact hrest

/-- In every run, with shutdowns anywhere, the descriptors that were opened are those that were
closed and those that are open; no two requests and pool entries share one; and a turn closes only
what is open, each descriptor once, and does not keep it. Shutdown leaves none open. -/
theorem descriptors_conserved (target : Except Bytes ProxyTarget) (maxIdle idleTimeoutMs : ℕ)
    (turns : List Turn)
    (hfresh : keeper.AllowedRun FreshTurn (new target maxIdle idleTimeoutMs) turns) :
    let h := keeper.run (new target maxIdle idleTimeoutMs) turns
    let opened := keeper.takenIn (new target maxIdle idleTimeoutMs) turns
    opened.Perm (h.closed ++ h.openDescriptors) ∧ h.openDescriptors.Nodup ∧
    (∀ t, h.FreshTurn t → (h.turn t).closed = h.closed ++ h.closes t ∧ (h.closes t).Nodup ∧
      ∀ fd ∈ h.closes t, (fd ∈ h.openDescriptors ∨ fd ∈ h.opens t) ∧
        fd ∉ (h.turn t).openDescriptors) ∧
    opened.Perm h.shutdown.closed ∧ h.shutdown.openDescriptors = [] := by
  intro h opened
  have hk := keeps_new target maxIdle idleTimeoutMs
  have hnone : (new target maxIdle idleTimeoutMs).openDescriptors.Nodup := List.nodup_nil
  have hmoves := keeper_honest.moves_run hk hfresh
  have hclosed := closed_run hk hfresh
  have hperm : opened.Perm (h.closed ++ h.openDescriptors) := by
    rw [show h.closed = [] ++ keeper.givenIn _ turns from hclosed, List.nil_append]
    exact hmoves
  refine ⟨hperm, keeper_honest.nodup_run hk hfresh hnone, fun t ht => ?_, hperm, rfl⟩
  have hturn := (keeper_honest.inv_run hk hfresh).turn ht
  obtain ⟨hnodup, hgone⟩ := keeper_honest.once hk hfresh hnone ht
  exact ⟨hturn.closes_eq.2, hnodup, hgone⟩

/-- A request fails, and the kernel returns its descriptor again. -/
def socketTwice : List Turn :=
  let budget : Budget := ⟨0, 0, 0⟩
  [.call (.start ⟨1, {}, {}, budget, 0, .started 5, true⟩),
    .call (.event 5 1 .error { now := 0, budget }),
    .call (.start ⟨2, {}, {}, budget, 0, .started 5, true⟩)]

theorem descriptors_conserved_twice :
    let h := keeper.run (new (.ok ⟨[], 80⟩) 4 60000) socketTwice
    h.closed = [5] ∧ (keeper.takenIn (new (.ok ⟨[], 80⟩) 4 60000) socketTwice).Perm
      (h.closed ++ h.openDescriptors) ∧ h.openDescriptors.Nodup := by
  have hfresh : keeper.AllowedRun FreshTurn (new (.ok ⟨[], 80⟩) 4 60000) socketTwice := by
    refine ⟨fun fd hfd => ?_, trivial, fun fd hfd => ?_, trivial⟩
    · rw [List.mem_singleton.mp hfd]
      decide
    · rw [List.mem_singleton.mp hfd]
      decide
  have hconserved := descriptors_conserved (.ok ⟨[], 80⟩) 4 60000 socketTwice hfresh
  exact ⟨by decide, hconserved.1, hconserved.2.1⟩

end ProxyHandler
end Aevrix.Proxy.Lifecycle
