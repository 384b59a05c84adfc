import Aevrix.Proxy.Lifecycle

/-!
# What the steps of an exchange preserve

Every upstream event and every sweep is made of three moves: a request in flight changes in
place, it completes, it fails. A property these preserve is preserved by all of them
(`StepInvariant.onUpstreamEvent`, `StepInvariant.expireAll`); that the handler stays as it was
set up is one (`SetUp`).
-/

namespace Aevrix.Proxy.Lifecycle
open Aevrix.Http

namespace ProxyHandler

section start
variable {h : ProxyHandler} {c : Start} {pool : UpstreamPool} {closing : Option ℤ}

/-- The handler behind `acquire`. -/
def afterAcquire (h : ProxyHandler) (c : Start) (pool : UpstreamPool) (closing : Option ℤ) :
    ProxyHandler :=
  { h with
    started := h.started ++ [c.clientConnectionId], pool, closed := h.closed ++ closing.toList }

theorem start_unconfigured (hconfigured : h.configured = false) :
    h.start c = { h with started := h.started ++ [c.clientConnectionId] }.reject h.started.length
      c.clientConnectionId .notConfigured h.configurationError := by
  simp only [start, hconfigured, if_true]

theorem start_failed (hconfigured : h.configured = true) {error : Bytes}
    (hacquire : h.pool.acquire h.target c.connect = (.failed error, pool, closing)) :
    h.start c = (h.afterAcquire c pool closing).reject h.started.length c.clientConnectionId
      .badGateway error := by
  simp only [start, hconfigured, Bool.true_eq_false, if_false, hacquire, afterAcquire]

theorem start_acquired (hconfigured : h.configured = true) {reused : Bool} {fd : ℤ}
    (hacquire : h.pool.acquire h.target c.connect = (.acquired reused fd, pool, closing)) :
    h.start c = (h.afterAcquire c pool closing).register c h.started.length reused fd := by
  simp only [start, hconfigured, Bool.true_eq_false, if_false, hacquire, afterAcquire]

theorem register_refused (haddFd : c.addFd = false) (ticket : ℕ) (reused : Bool) (fd : ℤ) :
    (h.register c ticket reused fd).pending = h.pending ∧
    (h.register c ticket reused fd).delivered = h.delivered ++
      [⟨ticket, c.clientConnectionId,
        { status := .unavailable
          errorMessage := ascii "failed to register upstream descriptor with the event loop" }⟩] := by
  unfold register
  rw [haddFd]
  cases reused with
  | false => exact ⟨rfl, rfl⟩
  | true => exact ⟨rfl, rfl⟩

theorem register_added (haddFd : c.addFd = true) (ticket : ℕ) (reused : Bool) {fd : ℤ}
    (hfresh : h.find fd = none) :
    (h.register c ticket reused fd).pending =
      h.pending ++ [(fd, h.pendingRequest c ticket reused fd)] ∧
    (h.register c ticket reused fd).delivered = h.delivered := by
  have hlookup : h.pending.lookup fd = none := hfresh
  unfold register emplace find
  rw [haddFd]
  cases reused with
  | false =>
    simp only [Bool.false_eq_true, if_false, if_true, hlookup, and_true]
    rfl
  | true =>
    simp only [if_true, hlookup, and_true]
    rfl

end start

/-- Who asked for what, and over which connection. -/
structure SameRequest (r r' : PendingRequest) : Prop where
  connection : r'.connection = r.connection
  client : r'.clientConnectionId = r.clientConnectionId
  ticket : r'.ticket = r.ticket
  headRequest : r'.headRequest = r.headRequest

structure StepInvariant (P : ProxyHandler → Prop) : Prop where
  update : ∀ {h : ProxyHandler} (fd : ℤ) (f : PendingRequest → PendingRequest),
    (∀ r, SameRequest r (f r)) → P h → P (h.update fd f)
  complete : ∀ {h : ProxyHandler} (fd : ℤ) (outcome : ProxyOutcome) (now : ℕ), P h →
    P (h.complete fd outcome now)
  fail : ∀ {h : ProxyHandler} (fd : ℤ) (status : ProxyOutcomeStatus) (message : Bytes), P h →
    P (h.fail fd status message)

namespace StepInvariant
variable {P : ProxyHandler → Prop} {h : ProxyHandler}

theorem setParser (hP : StepInvariant P) (fd : ℤ) (parser : ProxyResponseParser) (hh : P h) :
    P (h.setParser fd parser) := hP.update fd _ (fun _ => ⟨rfl, rfl, rfl, rfl⟩) hh

theorem atEof (hP : StepInvariant P) (fd : ℤ) (request : PendingRequest) (now : ℕ) (hh : P h) :
    P (h.atEof fd request now) := by
  simp only [ProxyHandler.atEof]
  split
  · exact hP.complete fd _ now (hP.setParser fd _ hh)
  · exact hP.fail fd _ _ (hP.setParser fd _ hh)

theorem readAvailable (hP : StepInvariant P) (fd : ℤ) (now : ℕ) (results : List Recv) (hh : P h) :
    P (h.readAvailable fd now results) := by
  induction results generalizing h with
  | nil => exact hh
  | cons result results ih =>
    unfold ProxyHandler.readAvailable
    cases h.find fd with
    | none => exact hh
    | some request =>
      cases result with
      | data bytes =>
        cases bytes with
        | nil => exact hP.atEof fd request now hh
        | cons b rest =>
          have hfed := hP.setParser fd (request.parser.feed (b :: rest)) hh
          simp only
          split
          · exact hP.fail fd _ _ hfed
          split
          · exact hP.complete fd _ now hfed
          split
          · exact hfed
          · exact ih hfed
      | again => exact hh
      | interrupted => exact ih hh
      | failed reason => exact hP.fail fd _ _ hh

theorem finishConnect (hP : StepInvariant P) (fd : ℤ) (io : Io) (hh : P h) :
    P (h.finishConnect fd io) := by
  unfold ProxyHandler.finishConnect
  cases io.socketError with
  | unknown reason => exact hP.fail fd _ _ hh
  | error reason => exact hP.fail fd _ _ hh
  | none => exact hP.update fd _ (fun _ => ⟨rfl, rfl, rfl, rfl⟩) hh

theorem flushRequest (hP : StepInvariant P) (fd : ℤ) (request : PendingRequest) (io : Io) (hh : P h) :
    P (h.flushRequest fd request io) := by
  unfold ProxyHandler.flushRequest
  obtain ⟨bytesWritten, result⟩ := sendLoop request.requestBytes.length request.bytesWritten io.sends
  have hwritten : P (h.update fd fun request => { request with bytesWritten }) :=
    hP.update fd _ (fun _ => ⟨rfl, rfl, rfl, rfl⟩) hh
  cases result with
  | blocked => exact hwritten
  | failed reason => exact hP.fail fd _ _ hwritten
  | flushed =>
    have hreading := hP.update fd (fun request => { request with
      requestBytes := [], phase := .reading
      deadline := deadlineAfter io.budget.readTimeoutMs io.now })
      (fun _ => ⟨rfl, rfl, rfl, rfl⟩) hwritten
    dsimp only
    split
    · exact hreading
    · exact hP.fail fd _ _ hreading

theorem onWritable (hP : StepInvariant P) (fd : ℤ) (request : PendingRequest) (io : Io) (hh : P h) :
    P (h.onWritable fd request io) := by
  simp only [ProxyHandler.onWritable]
  have hconnected : P (if request.phase = .connecting then h.finishConnect fd io else h) := by
    split
    · exact hP.finishConnect fd io hh
    · exact hh
  split
  · exact hconnected
  split
  · exact hP.flushRequest fd _ io hconnected
  · exact hconnected

theorem onUpstreamEvent (hP : StepInvariant P) (fd : ℤ) (generation : ℕ) (event : EventType)
    (io : Io) (hh : P h) : P (h.onUpstreamEvent fd generation event io) := by
  unfold ProxyHandler.onUpstreamEvent
  cases h.find fd with
  | none => exact hh
  | some request =>
    dsimp only
    split
    · exact hh
    cases event with
    | writable => exact hP.onWritable fd request io hh
    | readable =>
      dsimp only
      split
      · exact hh
      · exact hP.readAvailable fd io.now io.recvs hh
    | hangup =>
      have hread := hP.readAvailable fd io.now io.recvs hh
      dsimp only
      split
      · exact hread
      · exact hP.atEof fd _ io.now hread
    | error => exact hP.fail fd _ _ hh

theorem expireAll (hP : StepInvariant P) (fds : List ℤ) (hh : P h) :
    P (fds.foldl ProxyHandler.expire h) := by
  induction fds generalizing h with
  | nil => exact hh
  | cons fd fds ih =>
    refine ih ?_
    unfold ProxyHandler.expire
    cases h.find fd with
    | none => exact hh
    | some request => exact hP.fail fd _ _ hh

end StepInvariant

/-! ### The setup of the handler -/

end ProxyHandler

/-- The limits of the pool. -/
def poolLimits (pool : UpstreamPool) : ℕ × ℕ := (pool.maxIdlePerTarget, pool.idleTimeoutMs)

theorem poolLimits_release (pool : UpstreamPool) (target : ProxyTarget) (fd : ℤ) (now : ℕ) :
    poolLimits (pool.release target fd now).1 = poolLimits pool := by
  unfold UpstreamPool.release
  split
  · rfl
  split
  · rfl
  split
  · split
    · rfl
    · rfl
  · rfl

theorem poolLimits_acquire (pool : UpstreamPool) (target : ProxyTarget)
    (connect : UpstreamPool.Connect) :
    poolLimits (pool.acquire target connect).2.1 = poolLimits pool := by
  unfold UpstreamPool.acquire
  split
  · rfl
  · rfl

namespace ProxyHandler

/-- `h'` is set up as `h`: what the constructor decides, and the limits of the pool. -/
structure SetUp (h h' : ProxyHandler) : Prop where
  configured : h'.configured = h.configured
  configurationError : h'.configurationError = h.configurationError
  target : h'.target = h.target
  limits : poolLimits h'.pool = poolLimits h.pool

theorem SetUp.refl (h : ProxyHandler) : SetUp h h := ⟨rfl, rfl, rfl, rfl⟩

theorem stepInvariant_setUp (h₀ : ProxyHandler) : StepInvariant (SetUp h₀) where
  update := by
    intro h fd f _ hs
    exact ⟨hs.configured, hs.configurationError, hs.target, hs.limits⟩
  complete := by
    intro h fd outcome now hs
    unfold complete
    cases h.find fd with
    | none => exact hs
    | some request =>
      refine ⟨hs.configured, hs.configurationError, hs.target, ?_⟩
      dsimp only
      split
      · exact (poolLimits_release ..).trans hs.limits
      · exact hs.limits
  fail := by
    intro h fd status message hs
    unfold fail
    cases h.find fd with
    | none => exact hs
    | some request => exact ⟨hs.configured, hs.configurationError, hs.target, hs.limits⟩

namespace SetUp
variable {h₀ h : ProxyHandler}

theorem register (hs : SetUp h₀ h) (c : Start) (ticket : ℕ) (reused : Bool) (fd : ℤ) :
    SetUp h₀ (h.register c ticket reused fd) := by
  have hcount : SetUp h₀ (if reused then { h with connectionsReused := h.connectionsReused + 1 }
      else { h with connectionsCreated := h.connectionsCreated + 1 }) := by
    split
    · exact ⟨hs.configured, hs.configurationError, hs.target, hs.limits⟩
    · exact ⟨hs.configured, hs.configurationError, hs.target, hs.limits⟩
  unfold ProxyHandler.register
  dsimp only
  split
  · unfold emplace
    dsimp only
    split
    · exact ⟨hcount.configured, hcount.configurationError, hcount.target, hcount.limits⟩
    · exact ⟨hcount.configured, hcount.configurationError, hcount.target, hcount.limits⟩
  · exact ⟨hcount.configured, hcount.configurationError, hcount.target, hcount.limits⟩

theorem start (hs : SetUp h₀ h) (c : Start) : SetUp h₀ (h.start c) := by
  cases hconfigured : h.configured with
  | false =>
    rw [start_unconfigured hconfigured]
    exact ⟨hs.configured, hs.configurationError, hs.target, hs.limits⟩
  | true =>
    rcases hacquire : h.pool.acquire h.target c.connect with ⟨result, pool, closing⟩
    have hpool : poolLimits pool = poolLimits h.pool := by
      have hlimits := poolLimits_acquire h.pool h.target c.connect
      rwa [hacquire] at hlimits
    have hafter : SetUp h₀ (h.afterAcquire c pool closing) :=
      ⟨hs.configured, hs.configurationError, hs.target, hpool.trans hs.limits⟩
    cases result with
    | failed error =>
      rw [start_failed hconfigured hacquire]
      exact ⟨hafter.configured, hafter.configurationError, hafter.target, hafter.limits⟩
    | acquired reused fd =>
      rw [start_acquired hconfigured hacquire]
      exact hafter.register c _ reused fd

theorem sweepTimeouts (hs : SetUp h₀ h) (now : ℕ) : SetUp h₀ (h.sweepTimeouts now) := by
  have hexpired := (stepInvariant_setUp h₀).expireAll
    ((h.pending.filter fun e => isExpired now e.2).map Prod.fst) hs
  exact ⟨hexpired.configured, hexpired.configurationError, hexpired.target, hexpired.limits⟩

end SetUp
end ProxyHandler
end Aevrix.Proxy.Lifecycle
