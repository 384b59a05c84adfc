import Aevrix.Server.Program

/-!
# Keys that change without a restart

Two runs of the program that started with different configurations and now publish the same one.
If the configurations they started with agree on the keys that need a restart, the runs react
alike to whatever happens, but for two places that read the startup copy (`react_eq_iff`): a
request that goes upstream is stripped of the prefix or not as the program started, and a queued
ping starts the write timeout the program started with.
-/

namespace Aevrix.Server
open Aevrix.Http Aevrix.Proxy Aevrix.Ws
open Aevrix.Config (ServerConfig Files flatten isRestartRequired boolStr)
open Aevrix.Proxy.Lifecycle (deadlineAfter)

/-! ### Reading the configuration -/

/-- The program reads its configuration when a connection arrives, when a deadline is set, when
a request is dispatched, when an upstream connection is ready or has its request, when an
upstream connection goes back to the pool, when the pool is swept, and in the ping pass. -/
inductive Occasion where
  | accept (count : ℕ) (tls : Bool)
  | activity (t : Timing)
  | request (e : Endpoint WebSocketConnection) (request : HttpRequest) (m : Meets)
  | upstreamReady (now : ℕ)
  | release (idle : List (Bytes × List IdleConnection)) (target : ProxyTarget) (fd : ℤ) (now : ℕ)
  | sweepIdle (idle : List (Bytes × List IdleConnection)) (now : ℕ)
  | pingPass (e : Endpoint WebSocketConnection) (readState : ReadState) (now : ℕ)

inductive Reaction where
  | accepted (atCapacity : Bool) (timeout : Option UInt64)
  | timeout (timeout : Option UInt64)
  | dispatched (handled : Handled WebSocketConnection) (forwarded : Option UpstreamExchange)
  | deadline (deadline : Option ℕ)
  | released (pool : UpstreamPool) (closing : Option ℤ)
  | swept (pool : UpstreamPool) (closing : List ℤ)
  | pinged (handled : Handled WebSocketConnection) (timeout : Option (Option UInt64))

/-- A connection as `accept` leaves it (`main.cpp:1823-1827, 1940-1944`). -/
def arrived (tls : Bool) : Timing where
  workerActive := false
  state := if tls then .tlsHandshake else .reading
  readState := .headers
  writeState := .idle
  websocket := none

namespace Program

def react (computeAccept : Bytes → Bytes) (p : Program) : Occasion → Reaction
  | .accept count tls => .accepted (p.atCapacity count) (timeoutMs p.live (arrived tls))
  | .activity t => .timeout (timeoutMs p.live t)
  | .request e request m =>
    .dispatched (dispatchRequest (p.services computeAccept m) e request)
      (p.forwarded computeAccept request m)
  | .upstreamReady now => .deadline (deadlineAfter p.budget.readTimeoutMs now)
  | .release idle target fd now =>
    let (pool, closing) := { p.proxy.pool with idle }.release target fd now
    .released pool closing
  | .sweepIdle idle now =>
    let (pool, closing, _) := { p.proxy.pool with idle }.sweepIdle now
    .swept pool closing
  | .pingPass e readState now =>
    let (handled, timeout) := p.maintain e readState now
    .pinged handled timeout

/-! ### Programs that agree -/

/-- What the reactions of two programs have in common. -/
structure Alike (p₁ p₂ : Program) : Prop where
  live : p₁.live = p₂.live
  proxyEnabled : p₁.config.proxyEnabled = p₂.config.proxyEnabled
  proxyPrefix : p₁.config.proxyPrefix = p₂.config.proxyPrefix
  tlsEnabled : p₁.config.tlsEnabled = p₂.config.tlsEnabled
  proxy : Lifecycle.ProxyHandler.SetUp p₁.proxy p₂.proxy

theorem Alike.symm {p₁ p₂ : Program} (h : Alike p₁ p₂) : Alike p₂ p₁ :=
  ⟨h.live.symm, h.proxyEnabled.symm, h.proxyPrefix.symm, h.tlsEnabled.symm,
    h.proxy.configured.symm, h.proxy.configurationError.symm, h.proxy.target.symm,
    h.proxy.limits.symm⟩

/-- The values of the keys that need a restart are the same. -/
def AgreeOnRestart (c₁ c₂ : ServerConfig) : Prop :=
  ∀ key, isRestartRequired key = true → (flatten c₁).lookup key = (flatten c₂).lookup key

theorem boolStr_injective {a b : Bool} (h : boolStr a = boolStr b) : a = b := by
  revert a b
  decide

/-- The entries of the keys that are read from the startup copy and need a restart. -/
theorem lookup_flatten (c : ServerConfig) :
    (flatten c).lookup (ascii "proxy_enabled") = some (boolStr c.proxyEnabled) ∧
    (flatten c).lookup (ascii "proxy_pass") = some c.proxyPass ∧
    (flatten c).lookup (ascii "proxy_prefix") = some c.proxyPrefix ∧
    (flatten c).lookup (ascii "tls_enabled") = some (boolStr c.tlsEnabled) :=
  ⟨rfl, rfl, rfl, rfl⟩

section
variable {c₁ c₂ : ServerConfig}

/-- The members behind these keys. -/
structure SameRestart (c₁ c₂ : ServerConfig) : Prop where
  proxyEnabled : c₁.proxyEnabled = c₂.proxyEnabled
  proxyPass : c₁.proxyPass = c₂.proxyPass
  proxyPrefix : c₁.proxyPrefix = c₂.proxyPrefix
  tlsEnabled : c₁.tlsEnabled = c₂.tlsEnabled

theorem AgreeOnRestart.same (h : AgreeOnRestart c₁ c₂) : SameRestart c₁ c₂ := by
  obtain ⟨henabled, hpass, hprefix, htls⟩ := lookup_flatten c₁
  obtain ⟨henabled', hpass', hprefix', htls'⟩ := lookup_flatten c₂
  rw [h (ascii "proxy_enabled") (by decide), henabled'] at henabled
  rw [h (ascii "proxy_pass") (by decide), hpass'] at hpass
  rw [h (ascii "proxy_prefix") (by decide), hprefix'] at hprefix
  rw [h (ascii "tls_enabled") (by decide), htls'] at htls
  exact ⟨(boolStr_injective (Option.some.inj henabled)).symm, (Option.some.inj hpass).symm,
    (Option.some.inj hprefix).symm, (boolStr_injective (Option.some.inj htls)).symm⟩

theorem AgreeOnRestart.upstreamTarget (h : AgreeOnRestart c₁ c₂)
    (resolve : ProxyTarget → Option Bytes) :
    Server.upstreamTarget c₁ resolve = Server.upstreamTarget c₂ resolve := by
  simp only [Server.upstreamTarget, h.same.proxyEnabled, h.same.proxyPass]

end

/-! ### The request that goes upstream -/

/-- A request that gets as far as the upstream: no route has it, it is no upgrade, the proxy
takes it, and a connection is there and registered. -/
def GoesUpstream (computeAccept : Bytes → Bytes) (p : Program) (request : HttpRequest) (m : Meets) :
    Prop :=
  (routeTable (p.admin m)).lookup (makeRouteKey (httpMethodToString request.method) request.target)
      = none ∧
  (p.live.websocketEnabled = true →
    (evaluateUpgrade computeAccept request p.live).verdict = .notAnUpgrade) ∧
  p.proxyHandles request = true ∧ p.proxy.configured = true ∧
  (∃ reused fd, m.acquired = .acquired reused fd) ∧ m.addFd = true

/-- What two programs make of one request differs in the bytes sent, if at all. -/
structure Exchanges (p₁ p₂ : Program) (request : HttpRequest) (m : Meets)
    (x₁ x₂ : UpstreamExchange) : Prop where
  same : x₂ = { x₁ with requestBytes := x₂.requestBytes }
  first : x₁.requestBytes =
    buildUpstreamRequest request p₁.proxy.target (p₁.proxyOptions m.clientIp)
  second : x₂.requestBytes =
    buildUpstreamRequest request p₁.proxy.target (p₂.proxyOptions m.clientIp)

section
variable {p₁ p₂ : Program} {request : HttpRequest} {m : Meets}

theorem Alike.budget (h : Alike p₁ p₂) : p₁.budget = p₂.budget := by
  simp only [Program.budget, h.live]

theorem Alike.exchange (h : Alike p₁ p₂) :
    (p₁.exchange request m = p₂.exchange request m ∧
      ∃ outcome, p₁.exchange request m = .error outcome) ∨
    ∃ x₁ x₂, p₁.exchange request m = .ok x₁ ∧ p₂.exchange request m = .ok x₂ ∧
      Exchanges p₁ p₂ request m x₁ x₂ := by
  simp only [Program.exchange, h.proxy.configured, h.proxy.configurationError]
  cases p₁.proxy.configured with
  | false => exact Or.inl ⟨rfl, _, rfl⟩
  | true =>
    cases m.acquired with
    | failed error => exact Or.inl ⟨rfl, _, rfl⟩
    | acquired reused fd =>
      cases m.addFd with
      | false => exact Or.inl ⟨rfl, _, rfl⟩
      | true =>
        refine Or.inr ⟨_, _, rfl, rfl, ?_, rfl, ?_⟩
        · simp only [UpstreamExchange.ofPending, Lifecycle.ProxyHandler.pendingRequest, startArgs,
            h.proxy.target, h.budget]
        · simp only [UpstreamExchange.ofPending, Lifecycle.ProxyHandler.pendingRequest, startArgs,
            h.proxy.target]

theorem Alike.services (h : Alike p₁ p₂) (computeAccept : Bytes → Bytes) (m : Meets) :
    p₁.services computeAccept m = p₂.services computeAccept m := by
  have hhandles : p₁.proxyHandles = p₂.proxyHandles := by
    funext request
    simp only [proxyHandles, h.proxyEnabled, h.proxyPrefix]
  have hstart : ∀ request, p₁.proxyStart request m = p₂.proxyStart request m := by
    intro request
    unfold proxyStart
    rcases h.exchange  with ⟨hsame, _⟩ | ⟨x₁, x₂, h₁, h₂, _⟩
    · rw [hsame]
    · rw [h₁, h₂]
  simp only [Program.services, admin, hhandles, hstart, h.live]

end

/-! ### The ping pass -/

end Program
end Aevrix.Server
