import Aevrix.Pipeline.Slots
import Aevrix.Server.EventLoop

/-!
# What leaves on a connection, over whole runs

A run of the event loop as one connection sees it: read and write events, the results
of workers and upstreams in any order, the ping pass, the shutdown notice and the end of
the connection. `accepted` records every request dispatched, with its response once one
is put in the output buffer.
-/

namespace Aevrix.Server
open Aevrix.Http Aevrix.Pipeline
open Aevrix.Proxy (Recv ProxyOutcome)

/-- A request dispatched, and its serialized response. -/
structure Exchange where
  request : HttpRequest
  response : Option Bytes

structure State (σ : Type) where
  endpoint : Endpoint σ
  /-- Still registered with the event loop and the connection manager. -/
  isOpen : Bool
  sent : Bytes
  /-- WebSocket frames queued so far. -/
  frames : Bytes
  accepted : List Exchange
  /-- Positions in `accepted` of the requests a worker has. -/
  workers : List ℕ
  /-- Positions in `accepted` of the requests the upstream has. -/
  upstream : List ℕ

inductive Event where
  | readable (services : Services) (recv : Recv)
  | writable (send : Send)
  | workerCompletion (slot : ℕ) (result : WorkerResult)
  | proxyCompletion (slot : ℕ) (outcome : ProxyOutcome)
  | pingPass (intervalMs now : ℕ)
  | shutdownNotice (code : ℕ) (sends : List Send)
  | disconnected

namespace State
variable {σ : Type}

/-- A connection just accepted. -/
def initial (id : ℕ) : State σ where
  endpoint := ⟨{ id, state := .reading }, false⟩
  isOpen := true
  sent := []
  frames := []
  accepted := []
  workers := []
  upstream := []

def answers (s : State σ) : List (Option Bytes) := s.accepted.map Exchange.response
def unsent (s : State σ) : Bytes := s.endpoint.conn.unsent

/-- What a handler did: the connection as it leaves it, and the records. -/
def record (s : State σ) (h : Handled σ) : State σ where
  endpoint := h.toEndpoint
  isOpen := h.keepOpen
  sent := s.sent ++ h.sent
  frames := s.frames ++ h.frames
  accepted := s.accepted ++ (h.accepted.map fun request => ⟨request, h.answer⟩).toList
  workers := match h.place with
    | some (.worker _) => s.workers ++ [s.accepted.length]
    | _ => s.workers
  upstream := match h.place with
    | some .upstream => s.upstream ++ [s.accepted.length]
    | _ => s.upstream

/-- The same for the response to the request at `slot`. -/
def recordAnswer (s : State σ) (slot : ℕ) (h : Handled σ) : State σ :=
  { s with
    endpoint := h.toEndpoint
    isOpen := h.keepOpen
    accepted := match h.answer with
      | some response => s.accepted.modify slot fun x => { x with response := some response }
      | none => s.accepted }

variable [WebSocketSession σ]

/-- One event. A connection that is gone sees none, and what its workers and upstreams
find is discarded; epoll reports a writable socket only while EPOLLOUT is armed. -/
def step (s : State σ) : Event → State σ
  | .readable services recv =>
    if s.isOpen then s.record (handleReadEvent services s.endpoint recv) else s
  | .writable send =>
    if s.isOpen && s.endpoint.epollOut then s.record (handleWriteEvent s.endpoint send) else s
  | .workerCompletion slot result =>
    if slot ∈ s.workers then
      let s := { s with workers := s.workers.erase slot }
      if s.isOpen then s.recordAnswer slot (applyWorkerResult s.endpoint result) else s
    else s
  | .proxyCompletion slot outcome =>
    if slot ∈ s.upstream then
      let s := { s with upstream := s.upstream.erase slot }
      if s.isOpen then s.recordAnswer slot (applyProxyOutcome s.endpoint outcome) else s
    else s
  | .pingPass intervalMs now =>
    if s.isOpen then s.record (maintainWebsocket s.endpoint intervalMs now) else s
  | .shutdownNotice code sends =>
    if s.isOpen then
      { s.record (initiateWebsocketShutdown s.endpoint code sends) with isOpen := false }
    else s
  | .disconnected => { s with isOpen := false }

/-- The state after a sequence of events. -/
def run (s : State σ) (events : List Event) : State σ := events.foldl step s

/-- Responses leave in request order and whole: what was sent is a front of the
responses in request order, up to the first request without one (and of the frames
behind them, once the connection is upgraded); and what was queued was sent or is
still to be sent. -/
structure InOrder (s : State σ) : Prop where
  sent_prefix : s.sent <+: delivered s.answers ++ s.frames
  nothing_lost : s.isOpen = true → s.sent ++ s.unsent = delivered s.answers ++ s.frames
  no_frames : s.endpoint.conn.websocket = none → s.frames = []

/-- It is the turn of the request at `slot`: everything queued has left, and no request
accepted before it is without its response. -/
def Turn (s : State σ) (slot : ℕ) : Prop :=
  s.unsent = [] ∧ ∀ answer ∈ s.answers.take slot, answer.isSome = true

/-- A response is queued only at its turn: by a read event that completes a request
answered in place, and by the completion of a worker or an upstream exchange. -/
def InTurn (s : State σ) : Event → Prop
  | .readable services (.data bytes) =>
    let parser := s.endpoint.conn.parser.feed (s.endpoint.conn.inputBuffer ++ bytes)
    s.isOpen = true → s.endpoint.conn.websocket.isNone = true → parser.isComplete = true →
      (services.dispatch parser.request).inPlace = true → s.Turn s.accepted.length
  | .workerCompletion slot _ => s.isOpen = true → slot ∈ s.workers → s.Turn slot
  | .proxyCompletion slot _ => s.isOpen = true → slot ∈ s.upstream → s.Turn slot
  | _ => True

/-- Every event of a run finds it so. -/
def RunInTurn (s : State σ) : List Event → Prop
  | [] => True
  | event :: events => s.InTurn event ∧ RunInTurn (s.step event) events

end State

/-! ### One handler call -/

/-- What a handler may do to the output: bytes leave from its front and frames join at
its end, or a response takes its place. -/
structure Conserves {σ : Type} (c : Connection σ) (h : Handled σ) : Prop where
  inside : h.conn.OffsetInside
  sent_prefix : h.sent <+: c.unsent ++ h.frames
  kept : h.answer = none → h.sent ++ h.conn.unsent = c.unsent ++ h.frames
  replaced : ∀ response, h.answer = some response → h.sent = [] ∧ h.conn.unsent = response
  no_frames : c.websocket = none → h.frames = []

/-- An upgraded connection stays so and takes no request; a connection is upgraded only
by the response to a request. -/
structure Upgrades {σ : Type} (c : Connection σ) (h : Handled σ) : Prop where
  stays : c.websocket.isSome = true → h.conn.websocket.isSome = true ∧ h.accepted = none
  answered : c.websocket = none → h.conn.websocket.isSome = true → h.answer.isSome = true
  asked : h.accepted = none → h.answer = none ∧ h.place = none
  place_open : h.place.isSome = true → h.answer = none

section handlers
variable {σ : Type} {c : Connection σ}

theorem Conserves.congr {c' : Connection σ} {h : Handled σ} (hd : Conserves c h)
    (hunsent : c.unsent = c'.unsent) (hweb : c'.websocket = none → c.websocket = none) :
    Conserves c' h :=
  ⟨hd.inside, hunsent ▸ hd.sent_prefix, hunsent ▸ hd.kept, hd.replaced,
    fun hn => hd.no_frames (hweb hn)⟩

theorem conserves_same (hc : c.OffsetInside) {h : Handled σ} (hbuf : h.conn.outputBuffer = c.outputBuffer)
    (hoff : h.conn.writeOffset = c.writeOffset) (hsent : h.sent = []) (hframes : h.frames = [])
    (hanswer : h.answer = none) : Conserves c h := by
  have hunsent : h.conn.unsent = c.unsent := by rw [Connection.unsent, hbuf, hoff, Connection.unsent]
  refine ⟨?_, hsent ▸ List.nil_prefix, fun _ => ?_, fun r hr => ?_, fun _ => hframes⟩
  · rw [Connection.OffsetInside, hbuf, hoff]
    exact hc
  · rw [hsent, hframes, hunsent, List.nil_append, List.append_nil]
  · rw [hanswer] at hr
    cases hr

theorem conserves_respond {h : Handled σ} {response : Bytes}
    (hconn : ∃ c', h.conn = Connection.setOutputBuffer c' response) (hsent : h.sent = [])
    (hframes : h.frames = []) (hanswer : h.answer = some response) : Conserves c h := by
  obtain ⟨c', hconn⟩ := hconn
  refine ⟨?_, hsent ▸ List.nil_prefix, fun hn => ?_, fun r hr => ?_, fun _ => hframes⟩
  · rw [hconn]
    exact Nat.zero_le _
  · rw [hanswer] at hn
    cases hn
  · rw [hanswer] at hr
    cases hr
    exact ⟨hsent, by rw [hconn, Connection.setOutputBuffer_unsent]⟩

theorem applyProxyOutcome_conserves (e : Endpoint σ) (hc : e.conn.OffsetInside)
    (outcome : ProxyOutcome) : Conserves e.conn (applyProxyOutcome e outcome) := by
  unfold applyProxyOutcome
  simp only
  split
  · exact conserves_same hc rfl rfl rfl rfl rfl
  · exact conserves_respond ⟨_, rfl⟩ rfl rfl rfl

theorem applyWorkerResult_conserves (e : Endpoint σ) (result : WorkerResult) :
    Conserves e.conn (applyWorkerResult e result) :=
  conserves_respond ⟨_, rfl⟩ rfl rfl rfl

variable [WebSocketSession σ]

theorem dispatchRequest_conserves (services : Services) (e : Endpoint σ) (request : HttpRequest)
    (hc : e.conn.OffsetInside) : Conserves e.conn (dispatchRequest services e request) := by
  unfold dispatchRequest
  cases services.dispatch request with
  | routed response =>
    simp only
    split
    · exact conserves_same hc rfl rfl rfl rfl rfl
    · exact conserves_respond ⟨_, rfl⟩ rfl rfl rfl
  | upgraded response => exact conserves_respond ⟨_, rfl⟩ rfl rfl rfl
  | refused verdict => exact conserves_respond ⟨_, rfl⟩ rfl rfl rfl
  | proxied outcome =>
    cases outcome with
    | none => exact conserves_same hc rfl rfl rfl rfl rfl
    | some outcome =>
      simp only [applyProxyOutcome]
      split
      · exact conserves_same hc rfl rfl rfl rfl rfl
      · exact conserves_respond ⟨_, rfl⟩ rfl rfl rfl
  | worker => exact conserves_same hc rfl rfl rfl rfl rfl
  | overloaded => exact conserves_respond ⟨_, rfl⟩ rfl rfl rfl

theorem queueFrames_conserves (e : Endpoint σ) (session : σ) (hc : e.conn.OffsetInside)
    (hweb : e.conn.websocket ≠ none) : Conserves e.conn (queueFrames e session) := by
  have hunsent : (queueFrames e session).conn.unsent =
      e.conn.unsent ++ WebSocketSession.output session :=
    e.conn.appendOutputBuffer_unsent _ hc
  refine ⟨?_, List.nil_prefix, fun _ => ?_, fun r hr => (by cases hr), fun hn => (hweb hn).elim⟩
  · change e.conn.writeOffset ≤ (e.conn.outputBuffer ++ _).length
    rw [List.length_append]
    exact Nat.le_add_right_of_le hc
  · rw [hunsent]
    rfl

theorem readFrames_conserves (e : Endpoint σ) (session : σ) (hc : e.conn.OffsetInside)
    (hweb : e.conn.websocket ≠ none) : Conserves e.conn (readFrames e session) := by
  unfold readFrames
  simp only
  split
  · exact conserves_same hc rfl rfl rfl rfl rfl
  · have hq := queueFrames_conserves
      ⟨{ e.conn with inputBuffer := [], websocket := some (WebSocketSession.feed session
        e.conn.inputBuffer) }, e.epollOut⟩ (WebSocketSession.feed session e.conn.inputBuffer) hc
      (Option.some_ne_none _)
    exact hq.congr rfl fun hn => (hweb hn).elim

theorem handleReadEvent_conserves (services : Services) (e : Endpoint σ) (recv : Recv)
    (hc : e.conn.OffsetInside) : Conserves e.conn (handleReadEvent services e recv) := by
  obtain ⟨hbuf, hoff, hweb⟩ := e.conn.readNonblocking_output recv
  unfold handleReadEvent
  generalize e.conn.readNonblocking recv = read at hbuf hoff hweb ⊢
  obtain ⟨result, conn⟩ := read
  simp only at hbuf hoff hweb
  have hunsent : conn.unsent = e.conn.unsent := by rw [Connection.unsent, hbuf, hoff, Connection.unsent]
  have hinside : conn.OffsetInside := by
    rw [Connection.OffsetInside, hbuf, hoff]
    exact hc
  cases result with
  | inProgress => exact conserves_same hc hbuf hoff rfl rfl rfl
  | closed => exact conserves_same hc hbuf hoff rfl rfl rfl
  | error => exact conserves_same hc hbuf hoff rfl rfl rfl
  | success =>
    simp only
    split
    · next session hsession =>
      have hsome : conn.websocket ≠ none := by simp [hsession]
      exact (readFrames_conserves ⟨conn, e.epollOut⟩ session hinside hsome).congr hunsent
        hweb.trans
    · obtain ⟨hbuf', hoff', hweb'⟩ := conn.feedParser_output
      generalize conn.feedParser = fed at hbuf' hoff' hweb' ⊢
      obtain ⟨ok, conn'⟩ := fed
      simp only at hbuf' hoff' hweb' ⊢
      split
      · exact conserves_same hc (hbuf'.trans hbuf) (hoff'.trans hoff) rfl rfl rfl
      split
      · exact conserves_same hc (hbuf'.trans hbuf) (hoff'.trans hoff) rfl rfl rfl
      split
      · have hd := dispatchRequest_conserves services ⟨conn', e.epollOut⟩ conn'.parser.request
          (by rw [Connection.OffsetInside, hbuf', hoff']; exact hinside)
        exact hd.congr (by rw [Connection.unsent, hbuf', hoff', ← hunsent, Connection.unsent])
          (hweb'.trans hweb).trans
      · exact conserves_same hc (hbuf'.trans hbuf) (hoff'.trans hoff) rfl rfl rfl

theorem outputFlushed_conserves (e : Endpoint σ) (hc : e.conn.OffsetInside)
    (hdone : e.conn.isOutputComplete = true) : Conserves e.conn (outputFlushed e) := by
  unfold outputFlushed
  split
  · next session hsession =>
    have hweb : e.conn.websocket ≠ none := by simp [hsession]
    split
    · simp only
      split
      · exact conserves_same hc rfl rfl rfl rfl rfl
      · exact conserves_same hc rfl rfl rfl rfl rfl
    · exact queueFrames_conserves e session hc hweb
  · split
    · have hbuf : e.conn.outputBuffer = [] ∧ e.conn.writeOffset = 0 := by
        simpa [Connection.isOutputComplete] using hdone
      exact conserves_same hc hbuf.1.symm hbuf.2.symm rfl rfl rfl
    · exact conserves_same hc rfl rfl rfl rfl rfl

omit [WebSocketSession σ] in
theorem Conserves.after_write {c : Connection σ} {h : Handled σ} (send : Send)
    (hd : Conserves (c.writeNonblocking send).2.1 h) (hnone : h.answer = none)
    (hsent : h.sent = []) :
    Conserves c { h with sent := (c.writeNonblocking send).2.2 } := by
  have hw := c.writeNonblocking_unsent send
  have hkept := hd.kept hnone
  rw [hsent, List.nil_append] at hkept
  refine ⟨hd.inside, ?_, fun _ => ?_, fun r hr => ?_, fun hn => hd.no_frames ?_⟩
  · rw [← hw, List.append_assoc]
    exact List.prefix_append _ _
  · rw [hkept, ← hw, List.append_assoc]
  · rw [hnone] at hr
    cases hr
  · rw [c.writeNonblocking_websocket send]
    exact hn

theorem outputFlushed_quiet (e : Endpoint σ) :
    (outputFlushed e).answer = none ∧ (outputFlushed e).sent = [] := by
  unfold outputFlushed
  split
  · split
    · simp only
      split <;> exact ⟨rfl, rfl⟩
    · exact ⟨rfl, rfl⟩
  · split <;> exact ⟨rfl, rfl⟩

theorem handleWriteEvent_conserves (e : Endpoint σ) (send : Send) (hc : e.conn.OffsetInside) :
    Conserves e.conn (handleWriteEvent e send) := by
  have hinside := e.conn.writeNonblocking_inside send hc
  unfold handleWriteEvent
  simp only
  refine Conserves.after_write send ?_ ?_ ?_
  · split
    · exact conserves_same hinside rfl rfl rfl rfl rfl
    · exact conserves_same hinside rfl rfl rfl rfl rfl
    all_goals
      split
      · next hdone => exact outputFlushed_conserves ⟨_, e.epollOut⟩ hinside hdone
      · exact conserves_same hinside rfl rfl rfl rfl rfl
  · split
    · rfl
    · rfl
    all_goals
      split
      · exact (outputFlushed_quiet _).1
      · rfl
  · split
    · rfl
    · rfl
    all_goals
      split
      · exact (outputFlushed_quiet _).2
      · rfl

theorem maintainWebsocket_conserves (e : Endpoint σ) (pingIntervalMs now : ℕ)
    (hc : e.conn.OffsetInside) : Conserves e.conn (maintainWebsocket e pingIntervalMs now) := by
  unfold maintainWebsocket
  split
  · exact conserves_same hc rfl rfl rfl rfl rfl
  · next session hsession =>
    simp only
    split
    · exact queueFrames_conserves e _ hc (by simp [hsession])
    · exact conserves_same hc rfl rfl rfl rfl rfl

omit [WebSocketSession σ] in
theorem drainOutput_unsent (sends : List Send) (c : Connection σ) (hc : c.OffsetInside) :
    (drainOutput c sends).2 ++ (drainOutput c sends).1.unsent = c.unsent ∧
      (drainOutput c sends).1.OffsetInside := by
  induction sends generalizing c with
  | nil => exact ⟨rfl, hc⟩
  | cons send sends ih =>
    have hw := c.writeNonblocking_unsent send
    have hin := c.writeNonblocking_inside send hc
    unfold drainOutput
    split
    · simp only
      split
      · obtain ⟨hrest, hinside⟩ := ih _ hin
        exact ⟨by rw [List.append_assoc, hrest, hw], hinside⟩
      · exact ⟨hw, hin⟩
    · exact ⟨rfl, hc⟩

theorem initiateWebsocketShutdown_conserves (e : Endpoint σ) (code : ℕ) (sends : List Send)
    (hc : e.conn.OffsetInside) : Conserves e.conn (initiateWebsocketShutdown e code sends) := by
  unfold initiateWebsocketShutdown
  split
  · exact conserves_same hc rfl rfl rfl rfl rfl
  · next session hsession =>
    have hq := queueFrames_conserves e (WebSocketSession.initiateClose session code) hc
      (by simp [hsession])
    have hkept := hq.kept rfl
    obtain ⟨hsent, hinside⟩ := drainOutput_unsent sends
      { e.conn.appendOutputBuffer (WebSocketSession.output (WebSocketSession.initiateClose session code)) with
        websocket := some (WebSocketSession.clearOutput (WebSocketSession.initiateClose session code)) }
      hq.inside
    have hall : _ = e.conn.unsent ++ _ := hsent.trans hkept
    refine ⟨hinside, ?_, fun _ => hall, fun r hr => (by cases hr), fun hn => ?_⟩
    · exact ⟨_, hall⟩
    · rw [hsession] at hn
      cases hn

omit [WebSocketSession σ] in
theorem upgrades_quiet {h : Handled σ} (hweb : h.conn.websocket.isSome = c.websocket.isSome)
    (haccepted : h.accepted = none) (hplace : h.place = none) (hanswer : h.answer = none) :
    Upgrades c h := by
  refine ⟨fun hc => ⟨hweb.trans hc, haccepted⟩, fun hc hh => ?_, fun _ => ⟨hanswer, hplace⟩,
    fun _ => hanswer⟩
  rw [hweb, hc] at hh
  cases hh

omit [WebSocketSession σ] in
theorem upgrades_taken {h : Handled σ} (hweb : c.websocket = none)
    (hupgrade : h.conn.websocket.isSome = true → h.answer.isSome = true)
    (haccepted : h.accepted.isSome = true) (hplace : h.place = none ∨ h.answer = none) :
    Upgrades c h := by
  refine ⟨fun hc => ?_, fun _ => hupgrade, fun hn => ?_, fun hp => ?_⟩
  · rw [hweb] at hc
    cases hc
  · rw [hn] at haccepted
    cases haccepted
  · rcases hplace with hplace | hplace
    · rw [hplace] at hp
      cases hp
    · exact hplace

theorem dispatchRequest_upgrades (services : Services) (e : Endpoint σ) (request : HttpRequest)
    (hweb : e.conn.websocket = none) : Upgrades e.conn (dispatchRequest services e request) := by
  have hhttp {x : Prop} (h : e.conn.websocket.isSome = true) : x := by
    rw [hweb] at h
    cases h
  unfold dispatchRequest
  cases services.dispatch request with
  | routed response =>
    simp only
    split
    · exact upgrades_taken hweb hhttp rfl (Or.inl rfl)
    · exact upgrades_taken hweb (fun _ => rfl) rfl (Or.inl rfl)
  | upgraded response => exact upgrades_taken hweb (fun _ => rfl) rfl (Or.inl rfl)
  | refused verdict => exact upgrades_taken hweb (fun _ => rfl) rfl (Or.inl rfl)
  | proxied outcome =>
    cases outcome with
    | none => exact upgrades_taken hweb hhttp rfl (Or.inr rfl)
    | some outcome =>
      simp only [applyProxyOutcome]
      split
      · exact upgrades_taken hweb hhttp rfl (Or.inl rfl)
      · exact upgrades_taken hweb (fun _ => rfl) rfl (Or.inl rfl)
  | worker => exact upgrades_taken hweb hhttp rfl (Or.inr rfl)
  | overloaded => exact upgrades_taken hweb (fun _ => rfl) rfl (Or.inl rfl)

theorem dispatchRequest_accepted (services : Services) (e : Endpoint σ) (request : HttpRequest) :
    (dispatchRequest services e request).accepted = some request := by
  unfold dispatchRequest
  cases services.dispatch request with
  | routed response =>
    simp only
    split <;> rfl
  | upgraded response => rfl
  | refused verdict => rfl
  | proxied outcome => cases outcome <;> rfl
  | worker => rfl
  | overloaded => rfl

/-- A request whose response is queued on a connection that stays was answered in place. -/
theorem dispatchRequest_inPlace (services : Services) (e : Endpoint σ) (request : HttpRequest)
    (hans : (dispatchRequest services e request).answer.isSome = true)
    (hopen : (dispatchRequest services e request).keepOpen = true) :
    (services.dispatch request).inPlace = true := by
  unfold dispatchRequest at hans hopen
  cases hd : services.dispatch request with
  | routed response => rfl
  | upgraded response => rfl
  | refused verdict => rfl
  | proxied outcome =>
    cases outcome with
    | none =>
      rw [hd] at hans
      cases hans
    | some outcome => rfl
  | worker =>
    rw [hd] at hans
    cases hans
  | overloaded =>
    rw [hd] at hopen
    cases hopen

/-- What a read event comes to: nothing taken, or the request that its bytes complete. -/
theorem handleReadEvent_cases (services : Services) (e : Endpoint σ) (recv : Recv) :
    (∃ h : Handled σ, handleReadEvent services e recv = h ∧ h.accepted = none ∧ h.place = none ∧
      h.answer = none ∧ h.conn.websocket.isSome = e.conn.websocket.isSome) ∨
    ∃ bytes conn, recv = .data bytes ∧ e.conn.websocket = none ∧ conn.websocket = none ∧
      conn.parser = e.conn.parser.feed (e.conn.inputBuffer ++ bytes) ∧
      conn.parser.isComplete = true ∧
      handleReadEvent services e recv =
        dispatchRequest services ⟨conn, e.epollOut⟩ conn.parser.request := by
  obtain ⟨-, -, hweb⟩ := e.conn.readNonblocking_output recv
  have hsuccess := e.conn.readNonblocking_success recv
  unfold handleReadEvent
  generalize e.conn.readNonblocking recv = read at hweb hsuccess ⊢
  obtain ⟨result, conn⟩ := read
  simp only at hweb hsuccess
  have hsome := congrArg Option.isSome hweb
  cases result with
  | inProgress => exact Or.inl ⟨_, rfl, rfl, rfl, rfl, hsome⟩
  | closed => exact Or.inl ⟨_, rfl, rfl, rfl, rfl, hsome⟩
  | error => exact Or.inl ⟨_, rfl, rfl, rfl, rfl, hsome⟩
  | success =>
    obtain ⟨bytes, hne, rfl, hconn⟩ := hsuccess rfl
    simp only
    split
    · next session hsession =>
      have hsome' : e.conn.websocket.isSome = true := by rw [← hsome, hsession, Option.isSome_some]
      refine Or.inl ⟨_, rfl, ?_⟩
      simp only [readFrames]
      split <;> exact ⟨rfl, rfl, rfl, hsome'.symm⟩
    · next hnone =>
      have hnone' : e.conn.websocket = none := hweb.symm.trans hnone
      have hfed := conn.feedParser_input (by simp [hconn, hne])
      generalize conn.feedParser = fed at hfed ⊢
      obtain ⟨ok, conn'⟩ := fed
      simp only at hfed
      have hweb' : conn'.websocket = none := by rw [hfed]; exact hnone
      have hsome' : conn'.websocket.isSome = e.conn.websocket.isSome := by rw [hweb', hnone']
      simp only
      split
      · exact Or.inl ⟨_, rfl, rfl, rfl, rfl, hsome'⟩
      split
      · exact Or.inl ⟨_, rfl, rfl, rfl, rfl, hsome'⟩
      split
      · next hcomplete =>
        exact Or.inr ⟨bytes, conn', rfl, hnone', hweb', by rw [hfed, hconn], hcomplete, rfl⟩
      · exact Or.inl ⟨_, rfl, rfl, rfl, rfl, hsome'⟩

end handlers

/-! ### One event -/

namespace State
variable {σ : Type} {s : State σ} {h : Handled σ}

/-- What else holds while the connection is open: slots fill from the front, every
request with a worker or an upstream has an empty slot of its own, and none has one
once the connection is upgraded. -/
structure Live (s : State σ) : Prop where
  filled : FrontFilled s.answers
  inside : s.endpoint.conn.OffsetInside
  upgraded : s.endpoint.conn.websocket.isSome = true → ∀ answer ∈ s.answers, answer.isSome = true
  waiting : ∀ slot ∈ s.workers ++ s.upstream, s.answers[slot]? = some none
  apart : (s.workers ++ s.upstream).Nodup

structure Inv (s : State σ) : Prop where
  inOrder : s.InOrder
  live : s.isOpen = true → s.Live

theorem record_answers : (s.record h).answers =
    s.answers ++ (h.accepted.map fun _ => h.answer).toList := by
  cases haccepted : h.accepted <;> simp [answers, record, haccepted]

theorem record_quiet (hinv : s.Inv) (hopen : s.isOpen = true)
    (hc : Conserves s.endpoint.conn h) (hu : Upgrades s.endpoint.conn h) (hq : h.accepted = none) :
    (s.record h).Inv := by
  obtain ⟨hanswer, hplace⟩ := hu.asked hq
  have hlive := hinv.live hopen
  have hlost := hinv.inOrder.nothing_lost hopen
  have hans : (s.record h).answers = s.answers := by rw [record_answers, hq]; exact List.append_nil _
  have hwork : (s.record h).workers = s.workers ∧ (s.record h).upstream = s.upstream := by
    simp [record, hplace]
  have hall : s.sent ++ (s.unsent ++ h.frames) = delivered s.answers ++ (s.frames ++ h.frames) := by
    rw [← List.append_assoc, hlost, List.append_assoc]
  have hstays (hn : h.conn.websocket = none) : s.endpoint.conn.websocket = none := by
    cases hweb : s.endpoint.conn.websocket with
    | none => rfl
    | some session =>
      have hs := (hu.stays (by rw [hweb]; rfl)).1
      rw [hn] at hs
      cases hs
  refine ⟨⟨?_, fun _ => ?_, fun hn => ?_⟩, fun _ => ⟨?_, hc.inside, fun hweb => ?_, ?_, ?_⟩⟩
  · rw [hans]
    change s.sent ++ h.sent <+: delivered s.answers ++ (s.frames ++ h.frames)
    rw [← hall]
    exact (List.prefix_append_right_inj s.sent).mpr hc.sent_prefix
  · rw [hans]
    change s.sent ++ h.sent ++ h.conn.unsent = delivered s.answers ++ (s.frames ++ h.frames)
    rw [List.append_assoc, hc.kept hanswer]
    exact hall
  · change s.frames ++ h.frames = []
    rw [hinv.inOrder.no_frames (hstays hn), hc.no_frames (hstays hn), List.append_nil]
  · rw [hans]
    exact hlive.filled
  · rw [hans]
    cases hold : s.endpoint.conn.websocket with
    | none =>
      have hsome := hu.answered hold hweb
      rw [hanswer] at hsome
      cases hsome
    | some session => exact hlive.upgraded (by rw [hold]; rfl)
  · rw [hans, hwork.1, hwork.2]
    exact hlive.waiting
  · rw [hwork.1, hwork.2]
    exact hlive.apart

/-- A connection on which a request is taken is not upgraded and has queued no frame. -/
theorem taken_http (hinv : s.Inv) (hu : Upgrades s.endpoint.conn h) {request : HttpRequest}
    (htaken : h.accepted = some request) : s.endpoint.conn.websocket = none ∧ s.frames = [] := by
  have hweb : s.endpoint.conn.websocket = none := by
    cases hweb : s.endpoint.conn.websocket with
    | none => rfl
    | some session =>
      have hs := (hu.stays (by rw [hweb]; rfl)).2
      rw [htaken] at hs
      cases hs
  exact ⟨hweb, hinv.inOrder.no_frames hweb⟩

theorem record_waiting (hinv : s.Inv) (hopen : s.isOpen = true)
    (hc : Conserves s.endpoint.conn h) (hu : Upgrades s.endpoint.conn h) {request : HttpRequest}
    (htaken : h.accepted = some request) (hanswer : h.answer = none) : (s.record h).Inv := by
  obtain ⟨hweb, hframes⟩ := taken_http hinv hu htaken
  have hlive := hinv.live hopen
  have hlost := hinv.inOrder.nothing_lost hopen
  have hans : (s.record h).answers = s.answers ++ [none] := by
    rw [record_answers, htaken, hanswer]
    rfl
  have hnew : (s.record h).endpoint.conn.websocket.isSome ≠ true := fun hh => by
    have hsome := hu.answered hweb hh
    rw [hanswer] at hsome
    cases hsome
  have hlen : s.answers.length = s.accepted.length := List.length_map ..
  have hold : ∀ slot ∈ s.workers ++ s.upstream, (s.record h).answers[slot]? = some none := by
    intro slot hslot
    have hw := hlive.waiting slot hslot
    rw [hans, List.getElem?_append_left (List.getElem?_eq_some_iff.mp hw).1]
    exact hw
  have hfresh : s.accepted.length ∉ s.workers ++ s.upstream := fun hm => by
    have hw := hlive.waiting _ hm
    rw [← hlen, List.getElem?_length] at hw
    cases hw
  have hlast : (s.record h).answers[s.accepted.length]? = some none := by
    rw [hans, ← hlen, List.getElem?_append_right le_rfl, Nat.sub_self]
    rfl
  have hframes' := hc.no_frames hweb
  refine ⟨⟨?_, fun _ => ?_, fun _ => ?_⟩, fun _ => ⟨?_, hc.inside, fun hh => (hnew hh).elim, ?_, ?_⟩⟩
  · rw [hans, delivered_accept]
    change s.sent ++ h.sent <+: delivered s.answers ++ (s.frames ++ h.frames)
    rw [← List.append_assoc, ← hlost, List.append_assoc]
    exact (List.prefix_append_right_inj s.sent).mpr hc.sent_prefix
  · rw [hans, delivered_accept]
    change s.sent ++ h.sent ++ h.conn.unsent = delivered s.answers ++ (s.frames ++ h.frames)
    rw [List.append_assoc, hc.kept hanswer, ← List.append_assoc, ← List.append_assoc, ← hlost]
    rfl
  · change s.frames ++ h.frames = []
    rw [hframes, hframes', List.append_nil]
  · rw [hans]
    exact hlive.filled.accept
  · intro slot hslot
    cases hplace : h.place with
    | none => exact hold slot (by simpa [record, hplace] using hslot)
    | some place =>
      cases place with
      | worker task =>
        simp only [record, hplace, List.append_assoc, List.mem_append, List.mem_singleton] at hslot
        rcases hslot with hslot | rfl | hslot
        · exact hold slot (List.mem_append_left _ hslot)
        · exact hlast
        · exact hold slot (List.mem_append_right _ hslot)
      | upstream =>
        simp only [record, hplace, List.mem_append, List.mem_singleton] at hslot
        rcases hslot with hslot | hslot | rfl
        · exact hold slot (List.mem_append_left _ hslot)
        · exact hold slot (List.mem_append_right _ hslot)
        · exact hlast
  · cases hplace : h.place with
    | none => simpa [record, hplace] using hlive.apart
    | some place =>
      cases place with
      | worker task =>
        have hperm : (s.workers ++ [s.accepted.length] ++ s.upstream).Perm
            (s.accepted.length :: (s.workers ++ s.upstream)) := by
          rw [List.append_assoc]
          exact List.perm_middle
        simp only [record, hplace]
        exact hperm.nodup_iff.mpr (List.nodup_cons.mpr ⟨hfresh, hlive.apart⟩)
      | upstream =>
        simp only [record, hplace]
        rw [← List.append_assoc]
        exact (List.perm_append_singleton _ _).nodup_iff.mpr
          (List.nodup_cons.mpr ⟨hfresh, hlive.apart⟩)

theorem record_answered (hinv : s.Inv) (hopen : s.isOpen = true)
    (hc : Conserves s.endpoint.conn h) (hu : Upgrades s.endpoint.conn h) {request : HttpRequest}
    {response : Bytes} (htaken : h.accepted = some request) (hanswer : h.answer = some response)
    (hturn : h.keepOpen = true → s.Turn s.accepted.length) : (s.record h).Inv := by
  obtain ⟨hweb, hframes⟩ := taken_http hinv hu htaken
  have hlive := hinv.live hopen
  have hlost := hinv.inOrder.nothing_lost hopen
  obtain ⟨hsent, hunsent⟩ := hc.replaced response hanswer
  have hframes' := hc.no_frames hweb
  have hans : (s.record h).answers = s.answers ++ [some response] := by
    rw [record_answers, htaken, hanswer]
    rfl
  have hsent' : (s.record h).sent = s.sent := by
    change s.sent ++ h.sent = s.sent
    rw [hsent, List.append_nil]
  have hnone : (s.record h).frames = [] := by
    change s.frames ++ h.frames = []
    rw [hframes, hframes', List.append_nil]
  have hplace : h.place = none := by
    cases hplace : h.place with
    | none => rfl
    | some place =>
      have hn := hu.place_open (by rw [hplace]; rfl)
      rw [hanswer] at hn
      cases hn
  have hall (hkeep : h.keepOpen = true) : s.unsent = [] ∧ ∀ answer ∈ s.answers, answer.isSome = true := by
    obtain ⟨hempty, hfront⟩ := hturn hkeep
    refine ⟨hempty, fun answer hm => hfront answer ?_⟩
    rwa [List.take_of_length_le (by rw [answers, List.length_map])]
  refine ⟨⟨?_, fun hkeep => ?_, fun _ => hnone⟩, fun hkeep => ⟨?_, hc.inside, fun _ => ?_, ?_, ?_⟩⟩
  · rw [hans, hsent', hnone, List.append_nil]
    have hpre := hinv.inOrder.sent_prefix
    rw [hframes, List.append_nil] at hpre
    exact hpre.trans (delivered_append _ _)
  · obtain ⟨hempty, hsome⟩ := hall hkeep
    rw [hempty, List.append_nil, hframes, List.append_nil] at hlost
    rw [hans, hsent', hnone, List.append_nil, (hlive.filled.acceptFilled response hsome).2, hlost]
    exact congrArg (delivered s.answers ++ ·) hunsent
  · rw [hans]
    exact (hlive.filled.acceptFilled response (hall hkeep).2).1
  · intro answer hm
    rw [hans, List.mem_append, List.mem_singleton] at hm
    rcases hm with hm | rfl
    · exact (hall hkeep).2 answer hm
    · rfl
  · intro slot hslot
    have hw := hlive.waiting slot (by simpa [record, hplace] using hslot)
    have hsome := (hall hkeep).2 none (List.mem_of_getElem? hw)
    cases hsome
  · simpa [record, hplace] using hlive.apart

theorem recordAnswer_answers {slot : ℕ} {response : Bytes} (hanswer : h.answer = some response) :
    (s.recordAnswer slot h).answers = s.answers.set slot (some response) := by
  simp only [recordAnswer, answers, hanswer]
  apply List.ext_getElem?
  intro i
  rw [List.getElem?_map, List.getElem?_modify, List.getElem?_set, List.length_map]
  split
  · next hi =>
    subst hi
    split
    · next hlt =>
      rw [List.getElem?_eq_getElem hlt]
      rfl
    · next hge =>
      rw [List.getElem?_eq_none (Nat.le_of_not_lt hge)]
      rfl
  · rw [List.getElem?_map]
    cases s.accepted[i]? <;> rfl

theorem recordAnswer_inv (hinv : s.Inv) (hopen : s.isOpen = true)
    (hc : Conserves s.endpoint.conn h) (hweb : h.conn.websocket = s.endpoint.conn.websocket)
    {slot : ℕ} (hslot : s.answers[slot]? = some none) (hkeep : h.keepOpen = h.answer.isSome)
    (hother : slot ∉ s.workers ++ s.upstream) (hturn : s.Turn slot) :
    (s.recordAnswer slot h).Inv := by
  have hlive := hinv.live hopen
  have hlost := hinv.inOrder.nothing_lost hopen
  have hhttp : s.endpoint.conn.websocket = none := by
    cases hw : s.endpoint.conn.websocket with
    | none => rfl
    | some session =>
      have hsome := hlive.upgraded (by rw [hw]; rfl) none (List.mem_of_getElem? hslot)
      cases hsome
  have hframes := hinv.inOrder.no_frames hhttp
  obtain ⟨hempty, hfront⟩ := hturn
  have hpre := hinv.inOrder.sent_prefix
  cases hanswer : h.answer with
  | none =>
    have hclosed : (s.recordAnswer slot h).isOpen ≠ true := by
      change h.keepOpen ≠ true
      rw [hkeep, hanswer]
      exact Bool.false_ne_true
    have hans : (s.recordAnswer slot h).answers = s.answers := by
      simp [recordAnswer, answers, hanswer]
    refine ⟨⟨?_, fun ho => (hclosed ho).elim, fun _ => hframes⟩, fun ho => (hclosed ho).elim⟩
    rw [hans]
    exact hpre
  | some response =>
    obtain ⟨-, hunsent⟩ := hc.replaced response hanswer
    have hans : (s.recordAnswer slot h).answers = s.answers.set slot (some response) :=
      recordAnswer_answers hanswer
    obtain ⟨hfilled, hdel⟩ := hlive.filled.fill response hslot hfront
    refine ⟨⟨?_, fun _ => ?_, fun _ => hframes⟩,
      fun _ => ⟨?_, hc.inside, fun hh => ?_, fun other hm => ?_, hlive.apart⟩⟩
    · rw [hans, hdel]
      change s.sent <+: delivered s.answers ++ response ++ s.frames
      rw [hframes, List.append_nil] at hpre ⊢
      exact hpre.trans (List.prefix_append _ _)
    · rw [hempty, List.append_nil] at hlost
      rw [hans, hdel]
      change s.sent ++ h.conn.unsent = delivered s.answers ++ response ++ s.frames
      rw [hunsent, hlost, hframes, List.append_nil, List.append_nil]
    · rw [hans]
      exact hfilled
    · change h.conn.websocket.isSome = true at hh
      rw [hweb, hhttp] at hh
      cases hh
    · have hne : slot ≠ other := fun he => hother (he ▸ hm)
      rw [hans, List.getElem?_set_ne hne]
      exact hlive.waiting other hm

theorem applyProxyOutcome_keepOpen (e : Endpoint σ) (outcome : ProxyOutcome) :
    (applyProxyOutcome e outcome).keepOpen = (applyProxyOutcome e outcome).answer.isSome ∧
      (applyProxyOutcome e outcome).conn.websocket = e.conn.websocket := by
  unfold applyProxyOutcome
  simp only
  split <;> exact ⟨rfl, rfl⟩

theorem Inv.forget (hinv : s.Inv) {workers upstream : List ℕ} (hw : workers.Sublist s.workers)
    (hu : upstream.Sublist s.upstream) : Inv { s with workers, upstream } := by
  refine ⟨⟨hinv.inOrder.sent_prefix, hinv.inOrder.nothing_lost, hinv.inOrder.no_frames⟩,
    fun hopen => ?_⟩
  have hlive := hinv.live hopen
  have hsub : (workers ++ upstream).Sublist (s.workers ++ s.upstream) := hw.append hu
  exact ⟨hlive.filled, hlive.inside, hlive.upgraded,
    fun slot hslot => hlive.waiting slot (hsub.subset hslot), hlive.apart.sublist hsub⟩

theorem Inv.close (hinv : s.Inv) : Inv { s with isOpen := false } :=
  ⟨⟨hinv.inOrder.sent_prefix, fun ho => (by cases ho), hinv.inOrder.no_frames⟩,
    fun ho => (by cases ho)⟩

theorem initial_inv (id : ℕ) : (initial id : State σ).Inv :=
  ⟨⟨List.prefix_rfl, fun _ => rfl, fun _ => rfl⟩,
    fun _ => ⟨FrontFilled.nil, Nat.zero_le _, fun ho => (by cases ho), fun _ hm => (by cases hm),
      List.nodup_nil⟩⟩

variable [WebSocketSession σ]

theorem handleWriteEvent_upgrades (e : Endpoint σ) (send : Send) :
    Upgrades e.conn (handleWriteEvent e send) ∧ (handleWriteEvent e send).accepted = none := by
  have hweb := e.conn.writeNonblocking_websocket send
  have hflush (e' : Endpoint σ) (he : e'.conn.websocket = e.conn.websocket) :
      (outputFlushed e').conn.websocket.isSome = e.conn.websocket.isSome ∧
        (outputFlushed e').accepted = none ∧ (outputFlushed e').place = none ∧
        (outputFlushed e').answer = none := by
    rw [← he]
    unfold outputFlushed
    split
    · next session hsession =>
      split
      · simp only
        split <;> exact ⟨rfl, rfl, rfl, rfl⟩
      · exact ⟨by rw [hsession]; rfl, rfl, rfl, rfl⟩
    · split <;> exact ⟨rfl, rfl, rfl, rfl⟩
  have hquiet : (handleWriteEvent e send).conn.websocket.isSome = e.conn.websocket.isSome ∧
      (handleWriteEvent e send).accepted = none ∧ (handleWriteEvent e send).place = none ∧
      (handleWriteEvent e send).answer = none := by
    unfold handleWriteEvent
    simp only
    split
    · exact ⟨congrArg Option.isSome hweb, rfl, rfl, rfl⟩
    · exact ⟨congrArg Option.isSome hweb, rfl, rfl, rfl⟩
    all_goals
      split
      · exact hflush _ hweb
      · exact ⟨congrArg Option.isSome hweb, rfl, rfl, rfl⟩
  obtain ⟨hsome, haccepted, hplace, hanswer⟩ := hquiet
  exact ⟨upgrades_quiet hsome haccepted hplace hanswer, haccepted⟩

theorem maintainWebsocket_upgrades (e : Endpoint σ) (pingIntervalMs now : ℕ) :
    Upgrades e.conn (maintainWebsocket e pingIntervalMs now) ∧
      (maintainWebsocket e pingIntervalMs now).accepted = none := by
  unfold maintainWebsocket
  split
  · exact ⟨upgrades_quiet rfl rfl rfl rfl, rfl⟩
  · next session hsession =>
    have hsome : e.conn.websocket.isSome = true := by rw [hsession]; rfl
    simp only
    split <;> exact ⟨upgrades_quiet hsome.symm rfl rfl rfl, rfl⟩

omit [WebSocketSession σ] in
theorem drainOutput_websocket (sends : List Send) (c : Connection σ) :
    (drainOutput c sends).1.websocket = c.websocket := by
  induction sends generalizing c with
  | nil => rfl
  | cons send sends ih =>
    have hw := c.writeNonblocking_websocket send
    unfold drainOutput
    split
    · simp only
      split
      · exact (ih _).trans hw
      · exact hw
    · rfl

theorem initiateWebsocketShutdown_upgrades (e : Endpoint σ) (code : ℕ) (sends : List Send) :
    Upgrades e.conn (initiateWebsocketShutdown e code sends) ∧
      (initiateWebsocketShutdown e code sends).accepted = none := by
  unfold initiateWebsocketShutdown
  split
  · exact ⟨upgrades_quiet rfl rfl rfl rfl, rfl⟩
  · next session hsession =>
    have hsome : e.conn.websocket.isSome = true := by rw [hsession]; rfl
    refine ⟨upgrades_quiet ?_ rfl rfl rfl, rfl⟩
    rw [hsome]
    exact congrArg Option.isSome (drainOutput_websocket sends _)

theorem readable_inv (hinv : s.Inv) (hopen : s.isOpen = true) (services : Services) (recv : Recv)
    (hturn : s.InTurn (.readable services recv)) :
    (s.record (handleReadEvent services s.endpoint recv)).Inv := by
  have hinside := (hinv.live hopen).inside
  have hc := handleReadEvent_conserves services s.endpoint recv hinside
  rcases handleReadEvent_cases services s.endpoint recv with
    ⟨h, heq, haccepted, hplace, hanswer, hweb⟩ |
    ⟨bytes, conn, rfl, hweb, hweb', hparser, hcomplete, heq⟩
  · rw [heq] at hc ⊢
    exact record_quiet hinv hopen hc (upgrades_quiet hweb haccepted hplace hanswer) haccepted
  · rw [heq] at hc ⊢
    have hu := dispatchRequest_upgrades services ⟨conn, s.endpoint.epollOut⟩ conn.parser.request hweb'
    have hu' : Upgrades s.endpoint.conn
        (dispatchRequest services ⟨conn, s.endpoint.epollOut⟩ conn.parser.request) :=
      ⟨fun hs => hu.stays (by rwa [hweb'.trans hweb.symm]), fun _ => hu.answered hweb', hu.asked,
        hu.place_open⟩
    generalize hd : dispatchRequest services ⟨conn, s.endpoint.epollOut⟩ conn.parser.request = h at hc hu' ⊢
    cases htaken : h.accepted with
    | none => exact record_quiet hinv hopen hc hu' htaken
    | some request =>
      cases hanswer : h.answer with
      | none => exact record_waiting hinv hopen hc hu' htaken hanswer
      | some response =>
        refine record_answered hinv hopen hc hu' htaken hanswer fun hkeep => ?_
        have hplace := dispatchRequest_inPlace services ⟨conn, s.endpoint.epollOut⟩ conn.parser.request
          (by rw [hd, hanswer]; rfl) (by rw [hd]; exact hkeep)
        rw [hparser] at hcomplete hplace
        exact hturn hopen (by rw [hweb]; rfl) hcomplete hplace

theorem step_inv (hinv : s.Inv) (event : Event) (hturn : s.InTurn event) : (s.step event).Inv := by
  cases event with
  | readable services recv =>
    rw [step]
    split
    · next hopen => exact readable_inv hinv hopen services recv hturn
    · exact hinv
  | writable send =>
    rw [step]
    split
    · next harmed =>
      have hopen := (Bool.and_eq_true_iff.mp harmed).1
      obtain ⟨hu, hq⟩ := handleWriteEvent_upgrades s.endpoint send
      exact record_quiet hinv hopen
        (handleWriteEvent_conserves s.endpoint send (hinv.live hopen).inside) hu hq
    · exact hinv
  | workerCompletion slot result =>
    rw [step]
    split
    · next hslot =>
      have hforget := hinv.forget (List.erase_sublist (a := slot)) (List.Sublist.refl s.upstream)
      simp only
      split
      · next hopen =>
        have hlive := hinv.live hopen
        refine recordAnswer_inv hforget hopen (applyWorkerResult_conserves s.endpoint result) rfl
          (hlive.waiting slot (List.mem_append_left _ hslot)) rfl ?_ (hturn hopen hslot)
        rw [← List.erase_append_left _ hslot]
        exact hlive.apart.not_mem_erase
      · exact hforget
    · exact hinv
  | proxyCompletion slot outcome =>
    rw [step]
    split
    · next hslot =>
      have hforget := hinv.forget (List.Sublist.refl s.workers) (List.erase_sublist (a := slot))
      simp only
      split
      · next hopen =>
        have hlive := hinv.live hopen
        obtain ⟨hkeep, hweb⟩ := applyProxyOutcome_keepOpen s.endpoint outcome
        refine recordAnswer_inv hforget hopen
          (applyProxyOutcome_conserves s.endpoint hlive.inside outcome) hweb
          (hlive.waiting slot (List.mem_append_right _ hslot)) hkeep ?_ (hturn hopen hslot)
        have hnot : slot ∉ s.workers := fun hw =>
          (List.nodup_append.mp hlive.apart).2.2 slot hw slot hslot rfl
        rw [← List.erase_append_right _ hnot]
        exact hlive.apart.not_mem_erase
      · exact hforget
    · exact hinv
  | pingPass intervalMs now =>
    rw [step]
    split
    · next hopen =>
      obtain ⟨hu, hq⟩ := maintainWebsocket_upgrades s.endpoint intervalMs now
      exact record_quiet hinv hopen
        (maintainWebsocket_conserves s.endpoint intervalMs now (hinv.live hopen).inside) hu hq
    · exact hinv
  | shutdownNotice code sends =>
    rw [step]
    split
    · next hopen =>
      obtain ⟨hu, hq⟩ := initiateWebsocketShutdown_upgrades s.endpoint code sends
      exact (record_quiet hinv hopen
        (initiateWebsocketShutdown_conserves s.endpoint code sends (hinv.live hopen).inside)
        hu hq).close
    · exact hinv
  | disconnected => exact hinv.close

theorem run_inv (events : List Event) (hinv : s.Inv) (hturn : s.RunInTurn events) :
    (s.run events).Inv := by
  induction events generalizing s with
  | nil => exact hinv
  | cons event events ih => exact ih (step_inv hinv event hturn.1) hturn.2

theorem RunInTurn.take (events : List Event) (n : ℕ) (hturn : s.RunInTurn events) :
    s.RunInTurn (events.take n) := by
  induction events generalizing s n with
  | nil => simpa using hturn
  | cons event events ih =>
    cases n with
    | zero => trivial
    | succ n => exact ⟨hturn.1, ih n hturn.2⟩

/-- **Responses leave in request order and whole**, at every moment of a run in which
each of them is queued in its turn. -/
theorem responses_in_order (id : ℕ) (events : List Event)
    (hturn : (initial id : State σ).RunInTurn events) (n : ℕ) :
    ((initial id : State σ).run (events.take n)).InOrder :=
  (run_inv (events.take n) (initial_inv id) (hturn.take events n)).inOrder

end State
/-! ### Sequential clients -/

namespace State
variable {σ : Type} {s : State σ} {h : Handled σ}

/-- A request is completed only when every earlier one has its response and the client
was sent all of it. -/
def Sequential (s : State σ) : Event → Prop
  | .readable _ (.data bytes) =>
    s.isOpen = true → s.endpoint.conn.websocket.isNone = true →
      (s.endpoint.conn.parser.feed (s.endpoint.conn.inputBuffer ++ bytes)).isComplete = true →
        s.Turn s.accepted.length
  | _ => True

/-- Only the last request may be without its response, and then nothing is to be sent. -/
def OneWaits (s : State σ) : Prop :=
  (∀ answer ∈ s.answers, answer.isSome = true) ∨
    (s.unsent = [] ∧ ∀ answer ∈ s.answers.dropLast, answer.isSome = true)

theorem OneWaits.turn (hone : s.OneWaits) {slot : ℕ} (hslot : s.answers[slot]? = some none) :
    s.Turn slot ∧ slot + 1 = s.answers.length := by
  obtain ⟨hlt, hget⟩ := List.getElem?_eq_some_iff.mp hslot
  rcases hone with hall | ⟨hempty, hfront⟩
  · cases hall none (List.mem_of_getElem? hslot)
  · have hlast : slot + 1 = s.answers.length := by
      by_contra hne
      have hm : none ∈ s.answers.dropLast := by
        refine List.mem_of_getElem? (i := slot) ?_
        rw [List.getElem?_dropLast, if_pos (by omega), hslot]
      cases hfront none hm
    refine ⟨⟨hempty, fun answer hm => hfront answer ?_⟩, hlast⟩
    rwa [List.dropLast_eq_take, ← hlast, Nat.add_sub_cancel]

/-- A handler that takes no request leaves nothing to be sent where nothing was. -/
theorem OneWaits.quiet (hone : s.OneWaits) (hinv : s.Inv) (hopen : s.isOpen = true)
    (hc : Conserves s.endpoint.conn h) (hu : Upgrades s.endpoint.conn h) (hq : h.accepted = none) :
    (s.record h).OneWaits := by
  have hans : (s.record h).answers = s.answers := by rw [record_answers, hq]; exact List.append_nil _
  rw [OneWaits, hans]
  cases hweb : s.endpoint.conn.websocket with
  | some session => exact Or.inl ((hinv.live hopen).upgraded (by rw [hweb]; rfl))
  | none =>
    refine hone.imp_right fun ⟨hempty, hfront⟩ => ⟨?_, hfront⟩
    have hkept := hc.kept (hu.asked hq).1
    rw [hc.no_frames hweb, List.append_nil] at hkept
    exact (List.append_eq_nil_iff.mp (hkept.trans hempty)).2

theorem OneWaits.taken (hc : Conserves s.endpoint.conn h) {request : HttpRequest}
    (htaken : h.accepted = some request) (hhttp : s.endpoint.conn.websocket = none)
    (hturn : s.Turn s.accepted.length) : (s.record h).OneWaits := by
  obtain ⟨hempty, hfront⟩ := hturn
  have hall : ∀ answer ∈ s.answers, answer.isSome = true := fun answer hm => hfront answer (by
    rwa [List.take_of_length_le (by rw [answers, List.length_map])])
  have hans : (s.record h).answers = s.answers ++ [h.answer] := by
    rw [record_answers, htaken]
    rfl
  rw [OneWaits, hans]
  cases hanswer : h.answer with
  | some response =>
    refine Or.inl fun answer hm => ?_
    rcases List.mem_append.mp hm with hm | hm
    · exact hall answer hm
    · rw [List.mem_singleton.mp hm]
      rfl
  | none =>
    have hkept := hc.kept hanswer
    rw [hc.no_frames hhttp, List.append_nil] at hkept
    refine Or.inr ⟨(List.append_eq_nil_iff.mp (hkept.trans hempty)).2, ?_⟩
    rwa [List.dropLast_concat]

theorem OneWaits.answered (hone : s.OneWaits) {slot : ℕ} (hslot : s.answers[slot]? = some none)
    (hopen : (s.recordAnswer slot h).isOpen = h.answer.isSome)
    (hkeep : (s.recordAnswer slot h).isOpen = true) : (s.recordAnswer slot h).OneWaits := by
  obtain ⟨⟨-, hfront⟩, hlast⟩ := hone.turn hslot
  rw [hkeep] at hopen
  obtain ⟨response, hanswer⟩ := Option.isSome_iff_exists.mp hopen.symm
  refine Or.inl fun answer hm => ?_
  rw [recordAnswer_answers hanswer] at hm
  obtain ⟨i, hi⟩ := List.mem_iff_getElem?.mp hm
  rw [List.getElem?_set] at hi
  split at hi
  · split at hi
    · cases hi
      rfl
    · cases hi
  · next hne =>
    have hlt := (List.getElem?_eq_some_iff.mp hi).1
    refine hfront answer (List.mem_of_getElem? (i := i) ?_)
    rw [List.getElem?_take_of_lt (by omega), hi]

section
variable [WebSocketSession σ]

/-- Under a sequential client every response is queued in its turn, and again only the
last request may wait. -/
theorem OneWaits.step (hinv : s.Inv) (hone : s.isOpen = true → s.OneWaits) (event : Event)
    (hseq : s.Sequential event) :
    s.InTurn event ∧ ((s.step event).isOpen = true → (s.step event).OneWaits) := by
  cases event with
  | readable services recv =>
    have hturn : s.InTurn (.readable services recv) := by
      cases recv with
      | data bytes => exact fun hopen hweb hcomplete _ => hseq hopen hweb hcomplete
      | again => trivial
      | interrupted => trivial
      | failed reason => trivial
    refine ⟨hturn, ?_⟩
    rw [State.step]
    split
    · next hopen =>
      intro _
      have hc := handleReadEvent_conserves services s.endpoint recv (hinv.live hopen).inside
      rcases handleReadEvent_cases services s.endpoint recv with
        ⟨h, heq, haccepted, hplace, hanswer, hweb⟩ |
        ⟨bytes, conn, rfl, hweb, hweb', hparser, hcomplete, heq⟩
      · rw [heq] at hc ⊢
        exact (hone hopen).quiet hinv hopen hc (upgrades_quiet hweb haccepted hplace hanswer) haccepted
      · rw [hparser] at hcomplete
        have htaken := dispatchRequest_accepted services ⟨conn, s.endpoint.epollOut⟩ conn.parser.request
        rw [← heq] at htaken
        exact OneWaits.taken hc htaken hweb (hseq hopen (by rw [hweb]; rfl) hcomplete)
    · exact hone
  | writable send =>
    refine ⟨trivial, ?_⟩
    rw [State.step]
    split
    · next harmed =>
      intro _
      have hopen := (Bool.and_eq_true_iff.mp harmed).1
      obtain ⟨hu, hq⟩ := handleWriteEvent_upgrades s.endpoint send
      exact (hone hopen).quiet hinv hopen
        (handleWriteEvent_conserves s.endpoint send (hinv.live hopen).inside) hu hq
    · exact hone
  | workerCompletion slot result =>
    have hturn : s.InTurn (.workerCompletion slot result) := fun hopen hslot =>
      ((hone hopen).turn ((hinv.live hopen).waiting slot (List.mem_append_left _ hslot))).1
    refine ⟨hturn, ?_⟩
    rw [State.step]
    split
    · next hslot =>
      simp only
      split
      · next hopen =>
        have hone' : State.OneWaits { s with workers := s.workers.erase slot } := hone hopen
        exact hone'.answered ((hinv.live hopen).waiting slot (List.mem_append_left _ hslot)) rfl
      · exact hone
    · exact hone
  | proxyCompletion slot outcome =>
    have hturn : s.InTurn (.proxyCompletion slot outcome) := fun hopen hslot =>
      ((hone hopen).turn ((hinv.live hopen).waiting slot (List.mem_append_right _ hslot))).1
    refine ⟨hturn, ?_⟩
    rw [State.step]
    split
    · next hslot =>
      simp only
      split
      · next hopen =>
        have hone' : State.OneWaits { s with upstream := s.upstream.erase slot } := hone hopen
        exact hone'.answered ((hinv.live hopen).waiting slot (List.mem_append_right _ hslot))
          (applyProxyOutcome_keepOpen s.endpoint outcome).1
      · exact hone
    · exact hone
  | pingPass intervalMs now =>
    refine ⟨trivial, ?_⟩
    rw [State.step]
    split
    · next hopen =>
      intro _
      obtain ⟨hu, hq⟩ := maintainWebsocket_upgrades s.endpoint intervalMs now
      exact (hone hopen).quiet hinv hopen
        (maintainWebsocket_conserves s.endpoint intervalMs now (hinv.live hopen).inside) hu hq
    · exact hone
  | shutdownNotice code sends =>
    refine ⟨trivial, ?_⟩
    rw [State.step]
    split
    · intro hclosed
      cases hclosed
    · exact hone
  | disconnected => exact ⟨trivial, fun hclosed => (by cases hclosed)⟩

/-- Every event of a run finds it so. -/
def RunSequential (s : State σ) : List Event → Prop
  | [] => True
  | event :: events => s.Sequential event ∧ RunSequential (s.step event) events

theorem RunSequential.inTurn (events : List Event) (hinv : s.Inv)
    (hone : s.isOpen = true → s.OneWaits) (hseq : s.RunSequential events) : s.RunInTurn events := by
  induction events generalizing s with
  | nil => trivial
  | cons event events ih =>
    obtain ⟨hturn, hone'⟩ := OneWaits.step hinv hone event hseq.1
    exact ⟨hturn, ih (step_inv hinv event hturn) hone' hseq.2⟩

/-- A client that waits for each response before it completes the next request gets
them in order and whole. -/
theorem sequential_in_order (id : ℕ) (events : List Event)
    (hseq : (initial id : State σ).RunSequential events) :
    ((initial id : State σ).run events).InOrder :=
  (run_inv events (initial_inv id) (RunSequential.inTurn events (initial_inv id)
    (fun _ => Or.inl fun _ hm => (by cases hm)) hseq)).inOrder

end

/-! ### Two requests behind each other -/

/-- The session of a connection that is never upgraded. -/
inductive NoSession where
  | none

instance : WebSocketSession NoSession where
  start _ := .none
  feed session _ := session
  output _ := []
  clearOutput session := session
  readyToClose _ := false
  initiateClose session _ := session
  maybeQueuePing session _ _ := (false, session)

/-- The two fixed routes; neither WebSocket nor proxy is configured. -/
def fixedRoutes : Services where
  routes := [(ascii "GET:/", rootRoute), (ascii "GET:/health", healthRoute)]
  websocketEnabled := false
  websocketMaxMessageBytes := 0
  evaluateUpgrade _ := {}
  proxyHandles _ := false
  proxyStart _ := none
  documentRoot := ascii "/srv"
  workerAccepts := true

def getRoot : Event := .readable fixedRoutes (.data (ascii "GET / HTTP/1.1\r\n\r\n"))
def getHealth : Event := .readable fixedRoutes (.data (ascii "GET /health HTTP/1.1\r\n\r\n"))

/-- The second request comes when the first response was written, in two pieces. -/
theorem responses_in_order_sequential :
    ((initial 1 : State NoSession).run
      ([getRoot, .writable (.sent 20), .writable (.sent 200), getHealth, .writable (.sent 200)].take 5)).InOrder :=
  responses_in_order 1 [getRoot, .writable (.sent 20), .writable (.sent 200), getHealth,
    .writable (.sent 200)]
    ⟨fun _ _ _ _ => ⟨rfl, by decide⟩, trivial, trivial,
      fun _ _ _ _ => ⟨by decide +kernel, by decide +kernel⟩, trivial, trivial⟩ 5

/-- The second request is read before the write event of the first response, whose
place the second response takes. -/
theorem responses_out_of_order :
    ¬((initial 1 : State NoSession).run [getRoot, getHealth, .writable (.sent 200)]).InOrder := by
  intro h
  have hpre := h.sent_prefix
  revert hpre
  decide

end State

end Aevrix.Server
