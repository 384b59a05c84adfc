import Aevrix.Proxy.Completion

/-!
# What an outcome remembers of its request

`PendingRequest` keeps whether the client asked with HEAD, and `complete` and `fail` hand that
on. A request that `start` refuses never becomes a pending request (`Remembers.run`).
-/

namespace Aevrix.Proxy.Lifecycle
namespace ProxyHandler
open Aevrix.Http

/-- `start` registers the request: the handler is configured, a connection is found or made,
and the event loop takes its descriptor. -/
def admits (h : ProxyHandler) (c : Start) : Bool :=
  h.configured && match (h.pool.acquire h.target c.connect).1 with
    | .acquired _ _ => c.addFd
    | .failed _ => false

/-- The calls of `start`, and whether they were admitted. -/
def admissions (h : ProxyHandler) : List Call → List (Start × Bool)
  | [] => []
  | .start c :: calls => (c, h.admits c) :: admissions (h.start c) calls
  | c :: calls => admissions (h.call c) calls

def isHead (c : Start) : Bool := c.request.method == .head

/-- The requests in flight were admitted and know whether they are to HEAD; so do the answers
to the requests that were admitted. -/
structure Remembers (cs : List (Start × Bool)) (h : ProxyHandler) : Prop where
  started : h.started.length = cs.length
  pending : ∀ e ∈ h.pending, ∃ c, cs[e.2.ticket]? = some (c, true) ∧ e.2.headRequest = isHead c
  delivered : ∀ d ∈ h.delivered, ∃ c admitted, cs[d.ticket]? = some (c, admitted) ∧
    d.outcome.headRequest = (admitted && isHead c) ∧
    (admitted = false → d.outcome.status ≠ .success)

section Remembers
variable {cs : List (Start × Bool)} {h : ProxyHandler} {fd : ℤ}

theorem Remembers.find (hr : Remembers cs h) {request : PendingRequest}
    (hfind : h.find fd = some request) :
    ∃ c, cs[request.ticket]? = some (c, true) ∧ request.headRequest = isHead c :=
  hr.pending _ (mem_of_lookup hfind)

theorem Remembers.update (hr : Remembers cs h) (fd : ℤ) (f : PendingRequest → PendingRequest)
    (hticket : ∀ r, (f r).ticket = r.ticket) (hhead : ∀ r, (f r).headRequest = r.headRequest) :
    Remembers cs (h.update fd f) := by
  refine ⟨hr.started, fun e he => ?_, hr.delivered⟩
  obtain ⟨e', he', rfl⟩ := List.mem_map.mp he
  have hpending := hr.pending e' he'
  split
  · rw [hticket, hhead]
    exact hpending
  · exact hpending

theorem Remembers.answer (hr : Remembers cs h) {request : PendingRequest}
    (hfind : h.find fd = some request) {h' : ProxyHandler}
    (hpending : ∀ e ∈ h'.pending, e ∈ h.pending) (hstarted : h'.started = h.started)
    {client : ℕ} {outcome : ProxyOutcome} (hhead : outcome.headRequest = request.headRequest)
    (hdelivered : h'.delivered = h.delivered ++ [⟨request.ticket, client, outcome⟩]) :
    Remembers cs h' := by
  obtain ⟨c, hc, hrequest⟩ := hr.find hfind
  refine ⟨hstarted ▸ hr.started, fun e he => hr.pending e (hpending e he), fun d hd => ?_⟩
  rw [hdelivered, List.mem_append, List.mem_singleton] at hd
  rcases hd with hd | rfl
  · exact hr.delivered d hd
  · exact ⟨c, true, hc, by rw [hhead, hrequest, Bool.true_and], fun h => by cases h⟩

theorem mem_of_mem_erase {e : ℤ × PendingRequest} (h' : e ∈ (h.erase fd).pending) :
    e ∈ h.pending := (List.mem_filter.mp h').1

theorem Remembers.complete (hr : Remembers cs h) (fd : ℤ) (outcome : ProxyOutcome) (now : ℕ) :
    Remembers cs (h.complete fd outcome now) := by
  unfold ProxyHandler.complete
  cases hfind : h.find fd with
  | none => exact hr
  | some request =>
    exact hr.answer hfind (fun e he => mem_of_mem_erase he) rfl rfl rfl

theorem Remembers.fail (hr : Remembers cs h) (fd : ℤ) (status : ProxyOutcomeStatus)
    (message : Bytes) : Remembers cs (h.fail fd status message) := by
  unfold ProxyHandler.fail
  cases hfind : h.find fd with
  | none => exact hr
  | some request =>
    exact hr.answer hfind (fun e he => mem_of_mem_erase he) rfl rfl rfl

theorem stepInvariant_remembers (cs : List (Start × Bool)) : StepInvariant (Remembers cs) where
  update fd f hf hr := hr.update fd f (fun r => (hf r).ticket) fun r => (hf r).headRequest
  complete fd outcome now hr := hr.complete fd outcome now
  fail fd status message hr := hr.fail fd status message

theorem Remembers.sweepTimeouts (hr : Remembers cs h) (now : ℕ) :
    Remembers cs (h.sweepTimeouts now) := by
  have hexpired := (stepInvariant_remembers cs).expireAll
    ((h.pending.filter fun e => isExpired now e.2).map Prod.fst) hr
  exact ⟨hexpired.started, hexpired.pending, hexpired.delivered⟩

/-! ### Starting -/

theorem Remembers.more (hr : Remembers cs h) (x : Start × Bool) :
    (∀ e ∈ h.pending, ∃ c, (cs ++ [x])[e.2.ticket]? = some (c, true) ∧
      e.2.headRequest = isHead c) ∧
    (∀ d ∈ h.delivered, ∃ c admitted, (cs ++ [x])[d.ticket]? = some (c, admitted) ∧
      d.outcome.headRequest = (admitted && isHead c) ∧
      (admitted = false → d.outcome.status ≠ .success)) ∧
    (cs ++ [x])[h.started.length]? = some x := by
  refine ⟨fun e he => ?_, fun d hd => ?_, ?_⟩
  · obtain ⟨c, hc, hhead⟩ := hr.pending e he
    exact ⟨c, (List.getElem?_append_left (List.getElem?_eq_some_iff.mp hc).1).trans hc, hhead⟩
  · obtain ⟨c, admitted, hc, hhead⟩ := hr.delivered d hd
    exact ⟨c, admitted, (List.getElem?_append_left (List.getElem?_eq_some_iff.mp hc).1).trans hc,
      hhead⟩
  · rw [hr.started, List.getElem?_concat_length]

theorem Remembers.rejected (hr : Remembers cs h) {h' : ProxyHandler} (c : Start)
    {client : ℕ} {outcome : ProxyOutcome} (hhead : outcome.headRequest = false)
    (hstatus : outcome.status ≠ .success) (hpending : h'.pending = h.pending)
    (hstarted : h'.started = h.started ++ [client])
    (hdelivered : h'.delivered = h.delivered ++ [⟨h.started.length, client, outcome⟩]) :
    Remembers (cs ++ [(c, false)]) h' := by
  obtain ⟨hp, hd, hlast⟩ := hr.more (c, false)
  refine ⟨?_, ?_, fun d hmem => ?_⟩
  · rw [hstarted, List.length_append, List.length_append, hr.started]
    rfl
  · rw [hpending]
    exact hp
  · rw [hdelivered, List.mem_append, List.mem_singleton] at hmem
    rcases hmem with hmem | rfl
    · exact hd d hmem
    · exact ⟨c, false, hlast, hhead, fun _ => hstatus⟩

theorem Remembers.registered (hr : Remembers cs h) {h' : ProxyHandler} (c : Start) {client : ℕ}
    {request : PendingRequest} (hticket : request.ticket = h.started.length)
    (hhead : request.headRequest = isHead c)
    (hpending : ∀ e ∈ h'.pending, e ∈ h.pending ∨ e.2 = request)
    (hstarted : h'.started = h.started ++ [client]) (hdelivered : h'.delivered = h.delivered) :
    Remembers (cs ++ [(c, true)]) h' := by
  obtain ⟨hp, hd, hlast⟩ := hr.more (c, true)
  refine ⟨?_, fun e he => ?_, ?_⟩
  · rw [hstarted, List.length_append, List.length_append, hr.started]
    rfl
  · rcases hpending e he with hmem | hrequest
    · exact hp e hmem
    · rw [hrequest, hticket]
      exact ⟨c, hlast, hhead⟩
  · rw [hdelivered]
    exact hd

theorem emplace_frame (h : ProxyHandler) (fd : ℤ) (request : PendingRequest) :
    (∀ e ∈ (h.emplace fd request).pending, e ∈ h.pending ∨ e.2 = request) ∧
      (h.emplace fd request).started = h.started ∧
      (h.emplace fd request).delivered = h.delivered := by
  unfold ProxyHandler.emplace
  cases h.find fd with
  | some old => exact ⟨fun e he => Or.inl he, rfl, rfl⟩
  | none =>
    refine ⟨fun e he => ?_, rfl, rfl⟩
    rw [List.mem_append, List.mem_singleton] at he
    exact he.imp_right fun he => by rw [he]

theorem Remembers.start (hr : Remembers cs h) (c : Start) :
    Remembers (cs ++ [(c, h.admits c)]) (h.start c) := by
  unfold ProxyHandler.start admits
  cases hconfigured : h.configured with
  | false => exact hr.rejected c rfl (fun hs => by cases hs) rfl rfl rfl
  | true =>
    simp only [Bool.true_eq_false, if_false, Bool.true_and]
    cases (h.pool.acquire h.target c.connect).1 with
    | failed error => exact hr.rejected c rfl (fun hs => by cases hs) rfl rfl rfl
    | acquired reused fd =>
      unfold ProxyHandler.register
      cases c.addFd with
      | false =>
        cases reused with
        | false => exact hr.rejected c rfl (fun hs => by cases hs) rfl rfl rfl
        | true => exact hr.rejected c rfl (fun hs => by cases hs) rfl rfl rfl
      | true =>
        cases reused with
        | false =>
          exact hr.registered c rfl rfl (emplace_frame _ fd _).1 (emplace_frame _ fd _).2.1
            (emplace_frame _ fd _).2.2
        | true =>
          exact hr.registered c rfl rfl (emplace_frame _ fd _).1 (emplace_frame _ fd _).2.1
            (emplace_frame _ fd _).2.2

end Remembers

theorem Remembers.run {cs : List (Start × Bool)} {h : ProxyHandler} (hr : Remembers cs h)
    (calls : List Call) : Remembers (cs ++ h.admissions calls) (h.run calls) := by
  induction calls generalizing h cs with
  | nil =>
    rw [admissions, List.append_nil]
    exact hr
  | cons c calls ih =>
    cases c with
    | start c =>
      have hrest := ih (hr.start c)
      rwa [List.append_assoc] at hrest
    | event fd generation event io =>
      exact ih ((stepInvariant_remembers cs).onUpstreamEvent fd generation event io hr)
    | sweep now => exact ih (hr.sweepTimeouts now)
    | refresh maxIdle idleTimeoutMs => exact ih ⟨hr.started, hr.pending, hr.delivered⟩

theorem remembers_new (target : Except Bytes ProxyTarget) (maxIdle idleTimeoutMs : ℕ) :
    Remembers [] (new target maxIdle idleTimeoutMs) := by
  refine ⟨rfl, fun e he => ?_, fun d hd => ?_⟩
  · cases he
  · cases hd

end ProxyHandler
end Aevrix.Proxy.Lifecycle
