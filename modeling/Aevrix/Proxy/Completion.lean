import Mathlib.Data.List.Nodup
import Aevrix.Proxy.Steps

/-!
# Every proxied request is answered once

`Sound` ties the requests in flight, the callbacks that ran and the counters together; every
call of the handler preserves it (`Sound.call`), as long as the kernel hands out no
descriptor that is still open.
-/

namespace Aevrix.Proxy.Lifecycle

/-! ### Association lists -/

section lookup
variable {κ : Type*} [DecidableEq κ] {β : Type*}

theorem mem_of_lookup {l : List (κ × β)} {k : κ} {b : β} (h : l.lookup k = some b) : (k, b) ∈ l := by
  induction l with
  | nil => cases h
  | cons e rest ih =>
    rw [List.lookup_cons] at h
    split at h
    · rename_i hk
      rw [Option.some.injEq] at h
      rw [eq_of_beq hk, ← h]
      exact List.mem_cons_self
    · exact List.mem_cons_of_mem _ (ih h)

theorem perm_filter_ne {l : List (κ × β)} {k : κ} {b : β} (hkeys : (l.map Prod.fst).Nodup)
    (h : (k, b) ∈ l) : l.Perm ((k, b) :: l.filter fun e => e.1 != k) := by
  induction l with
  | nil => cases h
  | cons e rest ih =>
    rw [List.map_cons, List.nodup_cons] at hkeys
    rcases List.mem_cons.mp h with rfl | hrest
    · have hall : rest.filter (fun e => e.1 != k) = rest := by
        rw [List.filter_eq_self]
        intro e he
        simp only [bne_iff_ne, ne_eq]
        intro hk
        exact hkeys.1 (List.mem_map.mpr ⟨e, he, hk⟩)
      rw [List.filter_cons_of_neg (by simp), hall]
    · have hne : e.1 ≠ k := by
        intro hk
        exact hkeys.1 (List.mem_map.mpr ⟨(k, b), hrest, hk.symm⟩)
      rw [List.filter_cons_of_pos (by simpa using hne)]
      exact ((ih hkeys.2 hrest).cons e).trans (List.Perm.swap ..)

end lookup

/-! ### The invariant -/

namespace ProxyHandler

/-- Client and ticket of the callbacks that ran, and of the requests in flight. -/
def tickets (h : ProxyHandler) : List (ℕ × ℕ) :=
  h.delivered.map (fun d => (d.clientConnectionId, d.ticket)) ++
    h.pending.map fun e => (e.2.clientConnectionId, e.2.ticket)

/-- The descriptors the handler has open. -/
def openDescriptors (h : ProxyHandler) : List ℤ :=
  h.pending.map (fun e => e.2.connection) ++ h.pool.descriptors

/-- `clients` have called `start`, in this order. -/
structure Sound (clients : List ℕ) (h : ProxyHandler) : Prop where
  keys : (h.pending.map Prod.fst).Nodup
  connection : ∀ e ∈ h.pending, e.2.connection = e.1
  apart : ∀ e ∈ h.pending, e.1 ∉ h.pool.descriptors
  idle : h.pool.descriptors.Nodup
  tickets : h.tickets.Perm clients.zipIdx
  started : h.started = clients
  counters : h.completedRequests + h.failedRequests = h.delivered.length

section Sound
variable {clients : List ℕ} {h h' : ProxyHandler} {fd : ℤ} {request : PendingRequest}

theorem Sound.update (hs : Sound clients h) (fd : ℤ) (f : PendingRequest → PendingRequest)
    (hconnection : ∀ r, (f r).connection = r.connection)
    (hticket : ∀ r, ((f r).clientConnectionId, (f r).ticket) = (r.clientConnectionId, r.ticket)) :
    Sound clients (h.update fd f) := by
  have hkeys : (h.update fd f).pending.map Prod.fst = h.pending.map Prod.fst := by
    simp only [ProxyHandler.update, List.map_map]
    refine List.map_congr_left fun e _ => ?_
    simp only [Function.comp_apply]
    split
    · rename_i he
      exact he.symm
    · rfl
  have htickets : (h.update fd f).tickets = h.tickets := by
    simp only [ProxyHandler.tickets, ProxyHandler.update, List.map_map]
    congr 1
    refine List.map_congr_left fun e _ => ?_
    simp only [Function.comp_apply]
    split
    · exact hticket _
    · rfl
  have hentry : ∀ e ∈ (h.update fd f).pending, ∃ e' ∈ h.pending, e.1 = e'.1 ∧
      e.2.connection = e'.2.connection := by
    intro e he
    obtain ⟨e', he', rfl⟩ := List.mem_map.mp he
    refine ⟨e', he', ?_⟩
    split
    · rename_i hfd
      exact ⟨hfd.symm, hconnection _⟩
    · exact ⟨rfl, rfl⟩
  refine ⟨by rw [hkeys]; exact hs.keys, fun e he => ?_, fun e he => ?_, hs.idle,
    by rw [htickets]; exact hs.tickets, hs.started, hs.counters⟩
  · obtain ⟨e', he', hkey, hconn⟩ := hentry e he
    rw [hkey, hconn]
    exact hs.connection e' he'
  · obtain ⟨e', he', hkey, -⟩ := hentry e he
    rw [hkey]
    exact hs.apart e' he'

theorem Sound.answer (hs : Sound clients h) (hfind : h.find fd = some request)
    (hpending : h'.pending = (h.erase fd).pending)
    (hpool : h'.pool.descriptors.Perm (fd :: h.pool.descriptors) ∨ h'.pool = h.pool)
    (hdelivered : ∃ outcome,
      h'.delivered = h.delivered ++ [⟨request.ticket, request.clientConnectionId, outcome⟩])
    (hcounters : h'.completedRequests + h'.failedRequests =
      h.completedRequests + h.failedRequests + 1)
    (hstarted : h'.started = h.started) : Sound clients h' := by
  have hmem : (fd, request) ∈ h.pending := mem_of_lookup hfind
  have hperm := perm_filter_ne hs.keys hmem
  obtain ⟨outcome, hdelivered⟩ := hdelivered
  have hlen : h'.delivered.length = h.delivered.length + 1 := by
    rw [hdelivered, List.length_append, List.length_singleton]
  have hsub : h'.pending.Sublist h.pending := by
    rw [hpending]
    exact List.filter_sublist
  have hne : ∀ e ∈ h'.pending, e.1 ≠ fd := by
    intro e he
    rw [hpending] at he
    simpa using (List.mem_filter.mp he).2
  refine ⟨hs.keys.sublist (hsub.map _), fun e he => hs.connection e (hsub.subset he),
    fun e he => ?_, ?_, ?_, hstarted.trans hs.started, by rw [hcounters, hs.counters, hlen]⟩
  · have hold := hs.apart e (hsub.subset he)
    rcases hpool with hpool | hpool
    · rw [hpool.mem_iff, List.mem_cons, not_or]
      exact ⟨hne e he, hold⟩
    · rw [hpool]
      exact hold
  · rcases hpool with hpool | hpool
    · rw [hpool.nodup_iff, List.nodup_cons]
      exact ⟨hs.apart (fd, request) hmem, hs.idle⟩
    · rw [hpool]
      exact hs.idle
  · refine List.Perm.trans ?_ hs.tickets
    have htickets := (hperm.map fun e : ℤ × PendingRequest =>
      (e.2.clientConnectionId, e.2.ticket)).symm
    rw [List.map_cons] at htickets
    rw [ProxyHandler.tickets, hdelivered, hpending, List.map_append, List.map_singleton,
      List.append_assoc, List.singleton_append]
    exact List.Perm.append_left _ htickets

theorem Sound.complete (hs : Sound clients h) (fd : ℤ) (outcome : ProxyOutcome) (now : ℕ) :
    Sound clients (h.complete fd outcome now) := by
  unfold ProxyHandler.complete
  cases hfind : h.find fd with
  | none => exact hs
  | some request =>
    have hconnection : request.connection = fd := hs.connection _ (mem_of_lookup hfind)
    refine hs.answer hfind rfl ?_ ⟨_, rfl⟩ (Nat.add_right_comm ..) rfl
    dsimp only
    split
    · rw [hconnection]
      exact UpstreamPool.descriptors_release _ _ _ _
    · exact Or.inr rfl

theorem Sound.fail (hs : Sound clients h) (fd : ℤ) (status : ProxyOutcomeStatus) (message : Bytes) :
    Sound clients (h.fail fd status message) := by
  unfold ProxyHandler.fail
  cases hfind : h.find fd with
  | none => exact hs
  | some request =>
    exact hs.answer hfind rfl (Or.inr rfl) ⟨_, rfl⟩ (Nat.add_assoc ..).symm rfl

theorem stepInvariant_sound (clients : List ℕ) : StepInvariant (Sound clients) where
  update fd f hf hs := hs.update fd f (fun r => (hf r).connection) fun r => by
    rw [(hf r).client, (hf r).ticket]
  complete fd outcome now hs := hs.complete fd outcome now
  fail fd status message hs := hs.fail fd status message

/-! ### Starting -/

theorem Sound.rejected {client : ℕ} (hs : Sound clients h) (hpending : h'.pending = h.pending)
    (hidle : h'.pool.descriptors.Nodup) (hsub : h'.pool.descriptors ⊆ h.pool.descriptors)
    (hdelivered : ∃ outcome, h'.delivered = h.delivered ++ [⟨h.started.length, client, outcome⟩])
    (hcounters : h'.completedRequests + h'.failedRequests =
      h.completedRequests + h.failedRequests + 1)
    (hstarted : h'.started = h.started ++ [client]) : Sound (clients ++ [client]) h' := by
  obtain ⟨outcome, hdelivered⟩ := hdelivered
  refine ⟨by rw [hpending]; exact hs.keys, by rw [hpending]; exact hs.connection, ?_, hidle, ?_,
    by rw [hstarted, hs.started], ?_⟩
  · intro e he hmem
    rw [hpending] at he
    exact hs.apart e he (hsub hmem)
  · have hadd : h'.tickets.Perm ((client, h.started.length) :: h.tickets) := by
      rw [ProxyHandler.tickets, hdelivered, hpending, List.map_append, List.append_assoc]
      exact List.perm_middle
    rw [hs.started] at hadd
    refine hadd.trans ?_
    rw [List.zipIdx_append, List.zipIdx_singleton, Nat.zero_add]
    exact (hs.tickets.cons _).trans (List.perm_append_singleton _ _).symm
  · rw [hcounters, hs.counters, hdelivered, List.length_append, List.length_singleton]

theorem Sound.registered {client : ℕ} (hs : Sound clients h) (hpending : h'.pending = h.pending ++ [(fd, request)])
    (hconnection : request.connection = fd)
    (hticket : (request.clientConnectionId, request.ticket) = (client, h.started.length))
    (hkey : fd ∉ h.pending.map Prod.fst) (hfd : fd ∉ h'.pool.descriptors)
    (hidle : h'.pool.descriptors.Nodup) (hsub : h'.pool.descriptors ⊆ h.pool.descriptors)
    (hdelivered : h'.delivered = h.delivered)
    (hcounters : h'.completedRequests + h'.failedRequests = h.completedRequests + h.failedRequests)
    (hstarted : h'.started = h.started ++ [client]) : Sound (clients ++ [client]) h' := by
  refine ⟨?_, ?_, ?_, hidle, ?_, by rw [hstarted, hs.started], by rw [hcounters, hs.counters, hdelivered]⟩
  · rw [hpending, List.map_append, List.map_singleton]
    exact List.Nodup.append hs.keys (List.nodup_singleton _) (by simpa using hkey)
  · intro e he
    rw [hpending, List.mem_append, List.mem_singleton] at he
    rcases he with he | rfl
    · exact hs.connection e he
    · exact hconnection
  · intro e he hmem
    rw [hpending, List.mem_append, List.mem_singleton] at he
    rcases he with he | rfl
    · exact hs.apart e he (hsub hmem)
    · exact hfd hmem
  · rw [ProxyHandler.tickets, hdelivered, hpending, List.map_append, List.zipIdx_append,
      ← List.append_assoc, List.map_singleton, List.zipIdx_singleton, Nat.zero_add, hticket,
      hs.started]
    exact hs.tickets.append_right _

/-- A call that a fresh descriptor may meet: the kernel hands out none that is open. -/
def FreshStart (h : ProxyHandler) (c : Start) : Prop :=
  ∀ fd, c.connect = .started fd → fd ∉ h.openDescriptors

theorem emplace_new (h : ProxyHandler) (request : PendingRequest)
    (hfd : fd ∉ h.pending.map Prod.fst) :
    h.emplace fd request = { h with pending := h.pending ++ [(fd, request)] } := by
  unfold emplace
  cases hfind : h.find fd with
  | none => rfl
  | some old => exact absurd (List.mem_map.mpr ⟨_, mem_of_lookup hfind, rfl⟩) hfd

theorem Sound.register {pool : UpstreamPool} {closed : List ℤ} {c : Start} {reused : Bool}
    (hs : Sound clients h) (hkey : fd ∉ h.pending.map Prod.fst) (hfd : fd ∉ pool.descriptors)
    (hidle : pool.descriptors.Nodup) (hsub : pool.descriptors ⊆ h.pool.descriptors) :
    Sound (clients ++ [c.clientConnectionId]) (ProxyHandler.register { h with
      started := h.started ++ [c.clientConnectionId], pool, closed } c h.started.length reused fd) := by
  unfold ProxyHandler.register
  cases reused <;> cases c.addFd
  all_goals
    simp only [Bool.false_eq_true, if_false, if_true]
  · exact hs.rejected rfl hidle hsub ⟨_, rfl⟩ (Nat.add_assoc ..).symm rfl
  · rw [emplace_new]
    · exact hs.registered rfl rfl rfl hkey hfd hidle hsub rfl rfl rfl
    · exact hkey
  · exact hs.rejected rfl hidle hsub ⟨_, rfl⟩ (Nat.add_assoc ..).symm rfl
  · rw [emplace_new]
    · exact hs.registered rfl rfl rfl hkey hfd hidle hsub rfl rfl rfl
    · exact hkey

theorem Sound.start (hs : Sound clients h) {c : Start} (hfresh : h.FreshStart c) :
    Sound (clients ++ [c.clientConnectionId]) (h.start c) := by
  have hrejected : ∀ h' : ProxyHandler, h'.pending = h.pending → h'.pool = h.pool →
      (∃ outcome, h'.delivered =
        h.delivered ++ [⟨h.started.length, c.clientConnectionId, outcome⟩]) →
      h'.completedRequests + h'.failedRequests = h.completedRequests + h.failedRequests + 1 →
      h'.started = h.started ++ [c.clientConnectionId] → Sound (clients ++ [c.clientConnectionId]) h' := by
    intro h' hpending hpool hdelivered hcounters hstarted
    refine hs.rejected hpending ?_ ?_ hdelivered hcounters hstarted
    · rw [hpool]
      exact hs.idle
    · rw [hpool]
      exact List.Subset.refl _
  unfold ProxyHandler.start
  dsimp only
  split
  · exact hrejected _ rfl rfl ⟨_, rfl⟩ (Nat.add_assoc ..).symm rfl
  by_cases hreused : ∃ fd, (h.pool.acquire h.target c.connect).1 = .acquired true fd
  · obtain ⟨fd, hacquired⟩ := hreused
    have hperm := UpstreamPool.descriptors_acquire_reused hacquired
    have hnodup := hperm.nodup_iff.mp hs.idle
    rw [List.nodup_cons] at hnodup
    have hmem : fd ∈ h.pool.descriptors := hperm.mem_iff.mpr List.mem_cons_self
    have hkey : fd ∉ h.pending.map Prod.fst := by
      intro hpending
      obtain ⟨e, he, rfl⟩ := List.mem_map.mp hpending
      exact hs.apart e he hmem
    rw [hacquired]
    exact hs.register hkey hnodup.1 hnodup.2 fun d hd => hperm.mem_iff.mpr (List.mem_cons_of_mem _ hd)
  · have hacquire := UpstreamPool.acquire_created fun fd hfd => hreused ⟨fd, hfd⟩
    rw [hacquire]
    cases hconnect : c.connect with
    | noSocket reason => exact hrejected _ rfl rfl ⟨_, rfl⟩ (Nat.add_assoc ..).symm rfl
    | refused fd reason => exact hrejected _ rfl rfl ⟨_, rfl⟩ (Nat.add_assoc ..).symm rfl
    | started fd =>
      have hopen := hfresh fd hconnect
      rw [ProxyHandler.openDescriptors, List.mem_append, not_or] at hopen
      refine hs.register ?_ hopen.2 hs.idle (List.Subset.refl _)
      intro hpending
      obtain ⟨e, he, rfl⟩ := List.mem_map.mp hpending
      exact hopen.1 (List.mem_map.mpr ⟨e, he, hs.connection e he⟩)

/-! ### Sweeping -/

theorem Sound.sweepTimeouts (hs : Sound clients h) (now : ℕ) : Sound clients (h.sweepTimeouts now) := by
  have hexpired := (stepInvariant_sound clients).expireAll
    ((h.pending.filter fun e => isExpired now e.2).map Prod.fst) hs
  simp only [ProxyHandler.sweepTimeouts]
  generalize ((h.pending.filter fun e => isExpired now e.2).map Prod.fst).foldl ProxyHandler.expire h = h₁
    at hexpired
  have hsub := UpstreamPool.descriptors_sweepIdle h₁.pool now
  exact ⟨hexpired.keys, hexpired.connection, fun e he hmem => hexpired.apart e he (hsub.subset hmem),
    hexpired.idle.sublist hsub, hexpired.tickets, hexpired.started, hexpired.counters⟩

end Sound

/-! ### Runs -/

inductive Call where
  | start (c : Start)
  | event (fd : ℤ) (generation : ℕ) (event : EventType) (io : Io)
  | sweep (now : ℕ)
  | refresh (maxIdle idleTimeoutMs : ℕ)

def call (h : ProxyHandler) : Call → ProxyHandler
  | .start c => h.start c
  | .event fd generation event io => h.onUpstreamEvent fd generation event io
  | .sweep now => h.sweepTimeouts now
  | .refresh maxIdle idleTimeoutMs => h.refreshRuntimeLimits maxIdle idleTimeoutMs

def run (h : ProxyHandler) (calls : List Call) : ProxyHandler := calls.foldl call h

/-- The kernel never hands out a descriptor that is still open. -/
def FreshRun (h : ProxyHandler) : List Call → Prop
  | [] => True
  | .start c :: calls => h.FreshStart c ∧ FreshRun (h.start c) calls
  | c :: calls => FreshRun (h.call c) calls

/-- The clients of the calls of `start`. -/
def starts : List Call → List ℕ
  | [] => []
  | .start c :: calls => c.clientConnectionId :: starts calls
  | _ :: calls => starts calls

/-- `ProxyHandler::ProxyHandler` (`proxy_handler.cpp:122-159`); the target is what the
configured upstream resolves to. -/
def new (target : Except Bytes ProxyTarget) (maxIdle idleTimeoutMs : ℕ) : ProxyHandler where
  configured := target.isOk
  configurationError := match target with
    | .error error => error
    | .ok _ => []
  target := target.toOption.getD ⟨[], 0⟩
  pending := []
  pool := { maxIdlePerTarget := maxIdle, idleTimeoutMs }
  completedRequests := 0
  failedRequests := 0
  connectionsCreated := 0
  connectionsReused := 0
  nextGeneration := 1
  closed := []
  delivered := []
  started := []

theorem sound_new (target : Except Bytes ProxyTarget) (maxIdle idleTimeoutMs : ℕ) :
    Sound [] (new target maxIdle idleTimeoutMs) := by
  refine ⟨List.nodup_nil, ?_, ?_, List.nodup_nil, List.Perm.nil, rfl, rfl⟩
  · intro e he
    cases he
  · intro e he
    cases he

theorem Sound.run {clients : List ℕ} {h : ProxyHandler} (hs : Sound clients h) {calls : List Call}
    (hfresh : h.FreshRun calls) : Sound (clients ++ starts calls) (h.run calls) := by
  induction calls generalizing h clients with
  | nil =>
    rw [starts, List.append_nil]
    exact hs
  | cons c calls ih =>
    cases c with
    | start c =>
      have hrest := ih (hs.start hfresh.1) hfresh.2
      rwa [List.append_assoc] at hrest
    | event fd generation event io => exact ih ((stepInvariant_sound clients).onUpstreamEvent fd generation event io hs) hfresh
    | sweep now => exact ih (hs.sweepTimeouts now) hfresh
    | refresh maxIdle idleTimeoutMs =>
      exact ih ⟨hs.keys, hs.connection, hs.apart, hs.idle, hs.tickets, hs.started, hs.counters⟩ hfresh

/-- An event for a request that is gone, or for one that came later with its descriptor. -/
theorem onUpstreamEvent_stale {h : ProxyHandler} {fd : ℤ} {generation : ℕ}
    (hstale : ∀ request, h.find fd = some request → request.generation ≠ generation)
    (event : EventType) (io : Io) : h.onUpstreamEvent fd generation event io = h := by
  unfold onUpstreamEvent
  cases hfind : h.find fd with
  | none => rfl
  | some request =>
    dsimp only
    rw [if_pos (hstale request hfind)]

/-- Every request that starts is answered once or is still in flight; the counters count the
answers, and an event of another generation changes nothing. -/
theorem answered_once (target : Except Bytes ProxyTarget) (maxIdle idleTimeoutMs : ℕ)
    (calls : List Call) (hfresh : (new target maxIdle idleTimeoutMs).FreshRun calls) :
    let h := (new target maxIdle idleTimeoutMs).run calls
    (h.delivered.map Delivery.ticket).Nodup ∧
    (∀ d ∈ h.delivered, (starts calls)[d.ticket]? = some d.clientConnectionId) ∧
    (starts calls).length = h.delivered.length + h.pending.length ∧
    h.completedRequests + h.failedRequests = h.delivered.length ∧
    ∀ fd generation event io,
      (∀ request, h.find fd = some request → request.generation ≠ generation) →
      h.onUpstreamEvent fd generation event io = h := by
  intro h
  have hs : Sound (starts calls) h := by
    simpa using (sound_new target maxIdle idleTimeoutMs).run hfresh
  refine ⟨?_, ?_, ?_, hs.counters, fun fd generation event io hstale =>
    onUpstreamEvent_stale hstale event io⟩
  · have hindices : (h.tickets.map Prod.snd).Nodup := by
      rw [(hs.tickets.map Prod.snd).nodup_iff, List.zipIdx_map_snd]
      exact List.nodup_range'
    rw [tickets, List.map_append, List.map_map] at hindices
    exact hindices.of_append_left
  · intro d hd
    have hmem : (d.clientConnectionId, d.ticket) ∈ h.tickets :=
      List.mem_append_left _ (List.mem_map.mpr ⟨d, hd, rfl⟩)
    rw [hs.tickets.mem_iff, List.mem_zipIdx_iff_getElem?] at hmem
    exact hmem
  · have hlength := hs.tickets.length_eq
    rw [List.length_zipIdx, tickets, List.length_append, List.length_map, List.length_map] at hlength
    exact hlength.symm

/-- A request fails, the next one gets its descriptor, and an event of the first comes late. -/
def descriptorReused : List Call :=
  let budget : Budget := ⟨0, 0, 0⟩
  [.start ⟨1, {}, {}, budget, 0, .started 5, true⟩, .event 5 1 .error { now := 0, budget },
    .start ⟨2, {}, {}, budget, 0, .started 5, true⟩, .event 5 1 .error { now := 0, budget }]

theorem answered_once_reused :
    let h := (new (.ok ⟨[], 80⟩) 4 60000).run descriptorReused
    h.delivered.map Delivery.ticket = [0] ∧ h.pending.length = 1 ∧
      h.completedRequests + h.failedRequests = h.delivered.length := by
  have hfresh : (new (.ok ⟨[], 80⟩) 4 60000).FreshRun descriptorReused := by
    refine ⟨fun fd hfd => ?_, fun fd hfd => ?_, trivial⟩
    · cases hfd
      decide
    · cases hfd
      decide
  have honce := answered_once (.ok ⟨[], 80⟩) 4 60000 descriptorReused hfresh
  exact ⟨by decide, by decide, honce.2.2.2.1⟩

end ProxyHandler
end Aevrix.Proxy.Lifecycle
