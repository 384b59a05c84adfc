import Aevrix.Server.Delivery

/-!
# The keep-alive flag over a run (`connection.h`, `main.cpp`)

A connection has one keep-alive flag. Every request read sets it (`State.run_flagged`), whatever
is still to be sent for the request before it; nothing else changes it. Between two responses
the output only leaves (`State.run_undisturbed`).
-/

namespace Aevrix.Server
open Aevrix.Http Aevrix.Proxy

/-- `evaluate_keep_alive` looks at the request only. -/
def requestKeeps (request : HttpRequest) : Bool :=
  (({ id := 0 } : Connection Empty).evaluateKeepAlive request).keepAlive

/-- The flag a request leaves: an upgrade and its refusal clear it. -/
def Services.keeps (services : Services) (request : HttpRequest) : Bool :=
  match services.dispatch request with
  | .upgraded _ | .refused _ => false
  | .routed _ | .proxied _ | .worker | .overloaded => requestKeeps request

/-- The flag after the last request read, with the services that answered it. -/
def keeps : Option (Services × HttpRequest) → Bool
  | none => false
  | some (services, request) => services.keeps request

variable {σ : Type} [WebSocketSession σ]

/-! ### One event -/

namespace State

/-- Whether an event comes to a handler call. -/
def sees (s : State σ) : Event → Bool
  | .readable _ _ => s.isOpen
  | .writable _ => s.isOpen && s.endpoint.epollOut
  | .workerCompletion slot _ => decide (slot ∈ s.workers) && s.isOpen
  | .proxyCompletion slot _ => decide (slot ∈ s.upstream) && s.isOpen
  | .pingPass _ _ => s.isOpen
  | .shutdownNotice _ _ => s.isOpen
  | .disconnected => false

/-- The handler call. -/
def call (s : State σ) : Event → Handled σ
  | .readable services recv => handleReadEvent services s.endpoint recv
  | .writable send => handleWriteEvent s.endpoint send
  | .workerCompletion _ result => applyWorkerResult s.endpoint result
  | .proxyCompletion _ outcome => applyProxyOutcome s.endpoint outcome
  | .pingPass intervalMs now => maintainWebsocket s.endpoint intervalMs now
  | .shutdownNotice code sends => initiateWebsocketShutdown s.endpoint code sends
  | .disconnected => s.endpoint.close

/-- The response that an event puts in the output buffer. -/
def queued (s : State σ) (event : Event) : Option Bytes :=
  if s.sees event = true then (s.call event).answer else none

/-- The request that an event completes. -/
def taken (s : State σ) : Event → Option (Services × HttpRequest)
  | .readable services recv =>
    if s.isOpen = true then (handleReadEvent services s.endpoint recv).accepted.map (services, ·)
    else none
  | _ => none

/-- The last request that a run reads. -/
def lastTaken (s : State σ) : List Event → Option (Services × HttpRequest)
  | [] => none
  | event :: events => ((s.step event).lastTaken events).or (s.taken event)

/-- No event of a run puts a response in the output buffer, in the place of what is there. -/
def Undisturbed (s : State σ) : List Event → Prop
  | [] => True
  | event :: events => s.queued event = none ∧ (s.step event).Undisturbed events

end State

/-! ### The flag over a run -/

section flag
variable {services : Services} {e : Endpoint σ} {request : HttpRequest}

theorem dispatchRequest_flag (hweb : e.conn.websocket = none) :
    (dispatchRequest services e request).conn.keepAlive = services.keeps request ∧
      ((dispatchRequest services e request).conn.websocket.isSome = true →
        services.keeps request = false) := by
  have hhttp {x : Prop} (h : e.conn.websocket.isSome = true) : x := by
    rw [hweb] at h
    cases h
  unfold dispatchRequest Services.keeps
  cases services.dispatch request with
  | routed response =>
    simp only
    split <;> exact ⟨rfl, hhttp⟩
  | upgraded response => exact ⟨rfl, fun _ => rfl⟩
  | refused verdict => exact ⟨rfl, hhttp⟩
  | proxied outcome =>
    cases outcome with
    | none => exact ⟨rfl, hhttp⟩
    | some outcome =>
      simp only [applyProxyOutcome]
      split <;> exact ⟨rfl, hhttp⟩
  | worker => exact ⟨rfl, hhttp⟩
  | overloaded => exact ⟨rfl, hhttp⟩

theorem handleReadEvent_keepAlive (recv : Recv)
    (hquiet : (handleReadEvent services e recv).accepted = none) :
    (handleReadEvent services e recv).conn.keepAlive = e.conn.keepAlive := by
  have hread : (e.conn.readNonblocking recv).2.keepAlive = e.conn.keepAlive := by
    unfold Connection.readNonblocking
    split <;> rfl
  revert hquiet
  unfold handleReadEvent
  generalize e.conn.readNonblocking recv = read at hread ⊢
  obtain ⟨result, conn⟩ := read
  simp only at hread
  cases result with
  | inProgress => exact fun _ => hread
  | closed => exact fun _ => hread
  | error => exact fun _ => hread
  | success =>
    simp only
    split
    · intro _
      simp only [readFrames]
      split <;> exact hread
    · have hfed : conn.feedParser.2.keepAlive = e.conn.keepAlive := by
        unfold Connection.feedParser
        split <;> exact hread
      generalize conn.feedParser = fed at hfed ⊢
      obtain ⟨ok, conn'⟩ := fed
      simp only at hfed ⊢
      split
      · exact fun _ => hfed
      split
      · exact fun _ => hfed
      split
      · intro hquiet
        rw [dispatchRequest_accepted] at hquiet
        cases hquiet
      · exact fun _ => hfed

theorem outputFlushed_keepAlive (e : Endpoint σ) :
    (outputFlushed e).conn.keepAlive = e.conn.keepAlive := by
  unfold outputFlushed
  split
  · split
    · simp only
      split <;> rfl
    · rfl
  · split <;> rfl

theorem handleWriteEvent_keepAlive (send : Send) :
    (handleWriteEvent e send).conn.keepAlive = e.conn.keepAlive := by
  have hkeep := e.conn.writeNonblocking_keepAlive send
  unfold handleWriteEvent
  simp only
  split
  · exact hkeep
  · exact hkeep
  all_goals
    split
    · exact (outputFlushed_keepAlive _).trans hkeep
    · exact hkeep

theorem maintainWebsocket_keepAlive (intervalMs now : ℕ) :
    (maintainWebsocket e intervalMs now).conn.keepAlive = e.conn.keepAlive := by
  unfold maintainWebsocket
  split
  · rfl
  · simp only
    split <;> rfl

omit [WebSocketSession σ] in
theorem drainOutput_keepAlive (sends : List Send) (c : Connection σ) :
    (drainOutput c sends).1.keepAlive = c.keepAlive := by
  induction sends generalizing c with
  | nil => rfl
  | cons send sends ih =>
    have hkeep := c.writeNonblocking_keepAlive send
    unfold drainOutput
    split
    · simp only
      split
      · exact (ih _).trans hkeep
      · exact hkeep
    · rfl

theorem initiateWebsocketShutdown_keepAlive (code : ℕ) (sends : List Send) :
    (initiateWebsocketShutdown e code sends).conn.keepAlive = e.conn.keepAlive := by
  unfold initiateWebsocketShutdown
  split
  · rfl
  · exact drainOutput_keepAlive sends _

omit [WebSocketSession σ] in
theorem applyProxyOutcome_keepAlive (outcome : ProxyOutcome) :
    (applyProxyOutcome e outcome).conn.keepAlive = e.conn.keepAlive := by
  unfold applyProxyOutcome
  simp only
  split <;> rfl

omit [WebSocketSession σ] in
theorem applyProxyOutcome_sent (outcome : ProxyOutcome) :
    (applyProxyOutcome e outcome).sent = [] := by
  unfold applyProxyOutcome
  simp only
  split <;> rfl

end flag

namespace State
variable {s : State σ} {event : Event} {x : Services × HttpRequest}

theorem call_conserves (event : Event) (hinside : s.endpoint.conn.OffsetInside) :
    Conserves s.endpoint.conn (s.call event) := by
  cases event with
  | readable services recv => exact handleReadEvent_conserves services s.endpoint recv hinside
  | writable send => exact handleWriteEvent_conserves s.endpoint send hinside
  | workerCompletion slot result => exact applyWorkerResult_conserves s.endpoint result
  | proxyCompletion slot outcome => exact applyProxyOutcome_conserves s.endpoint hinside outcome
  | pingPass intervalMs now => exact maintainWebsocket_conserves s.endpoint intervalMs now hinside
  | shutdownNotice code sends =>
    exact initiateWebsocketShutdown_conserves s.endpoint code sends hinside
  | disconnected => exact conserves_same hinside rfl rfl rfl rfl rfl

theorem step_seen (hsees : s.sees event = true) :
    (s.step event).endpoint = (s.call event).toEndpoint ∧
      (s.step event).sent = s.sent ++ (s.call event).sent := by
  cases event with
  | readable services recv =>
    rw [sees] at hsees
    rw [step, if_pos hsees]
    exact ⟨rfl, rfl⟩
  | writable send =>
    rw [sees] at hsees
    rw [step, if_pos hsees]
    exact ⟨rfl, rfl⟩
  | workerCompletion slot result =>
    rw [sees, Bool.and_eq_true, decide_eq_true_eq] at hsees
    rw [step, if_pos hsees.1]
    simp only [hsees.2, if_true]
    exact ⟨rfl, (List.append_nil _).symm⟩
  | proxyCompletion slot outcome =>
    rw [sees, Bool.and_eq_true, decide_eq_true_eq] at hsees
    rw [step, if_pos hsees.1]
    simp only [hsees.2, if_true]
    refine ⟨rfl, ?_⟩
    rw [call, applyProxyOutcome_sent, List.append_nil]
    rfl
  | pingPass intervalMs now =>
    rw [sees] at hsees
    rw [step, if_pos hsees]
    exact ⟨rfl, rfl⟩
  | shutdownNotice code sends =>
    rw [sees] at hsees
    rw [step, if_pos hsees]
    exact ⟨rfl, rfl⟩
  | disconnected => cases hsees

theorem step_unseen (hsees : s.sees event = false) :
    (s.step event).endpoint = s.endpoint ∧ (s.step event).sent = s.sent := by
  have hnot : ¬s.sees event = true := by simp [hsees]
  cases event with
  | readable services recv =>
    rw [sees] at hnot
    rw [step, if_neg hnot]
    exact ⟨rfl, rfl⟩
  | writable send =>
    rw [sees] at hnot
    rw [step, if_neg hnot]
    exact ⟨rfl, rfl⟩
  | workerCompletion slot result =>
    rw [sees, Bool.and_eq_true, decide_eq_true_eq] at hnot
    rw [step]
    split
    · next hslot =>
      simp only [show ¬s.isOpen = true from fun ho => hnot ⟨hslot, ho⟩, Bool.false_eq_true, if_false]
      exact ⟨trivial, trivial⟩
    · exact ⟨rfl, rfl⟩
  | proxyCompletion slot outcome =>
    rw [sees, Bool.and_eq_true, decide_eq_true_eq] at hnot
    rw [step]
    split
    · next hslot =>
      simp only [show ¬s.isOpen = true from fun ho => hnot ⟨hslot, ho⟩, Bool.false_eq_true, if_false]
      exact ⟨trivial, trivial⟩
    · exact ⟨rfl, rfl⟩
  | pingPass intervalMs now =>
    rw [sees] at hnot
    rw [step, if_neg hnot]
    exact ⟨rfl, rfl⟩
  | shutdownNotice code sends =>
    rw [sees] at hnot
    rw [step, if_neg hnot]
    exact ⟨rfl, rfl⟩
  | disconnected => exact ⟨rfl, rfl⟩

/-- Only a request that is read changes the flag. -/
theorem call_untaken (hsees : s.sees event = true) (htaken : s.taken event = none) :
    (s.call event).conn.keepAlive = s.endpoint.conn.keepAlive ∧
      (s.call event).conn.websocket.isSome = s.endpoint.conn.websocket.isSome := by
  have hquiet {h : Handled σ} (hu : Upgrades s.endpoint.conn h) (hq : h.accepted = none) :
      h.conn.websocket.isSome = s.endpoint.conn.websocket.isSome := by
    cases hweb : s.endpoint.conn.websocket with
    | some session => exact (hu.stays (by rw [hweb]; rfl)).1
    | none =>
      cases hsome : h.conn.websocket with
      | none => rfl
      | some session =>
        have hanswer := hu.answered hweb (by rw [hsome]; rfl)
        rw [(hu.asked hq).1] at hanswer
        cases hanswer
  cases event with
  | readable services recv =>
    rw [sees] at hsees
    rw [taken, if_pos hsees, Option.map_eq_none_iff] at htaken
    refine ⟨handleReadEvent_keepAlive recv htaken, ?_⟩
    rcases handleReadEvent_cases services s.endpoint recv with
      ⟨h, heq, -, -, -, hweb⟩ | ⟨bytes, conn, -, -, -, -, -, heq⟩
    · rw [call, heq, hweb]
    · rw [heq, dispatchRequest_accepted] at htaken
      cases htaken
  | writable send =>
    obtain ⟨hu, hq⟩ := handleWriteEvent_upgrades s.endpoint send
    exact ⟨handleWriteEvent_keepAlive send, hquiet hu hq⟩
  | workerCompletion slot result => exact ⟨rfl, rfl⟩
  | proxyCompletion slot outcome =>
    exact ⟨applyProxyOutcome_keepAlive outcome,
      congrArg Option.isSome (applyProxyOutcome_keepOpen s.endpoint outcome).2⟩
  | pingPass intervalMs now =>
    obtain ⟨hu, hq⟩ := maintainWebsocket_upgrades s.endpoint intervalMs now
    exact ⟨maintainWebsocket_keepAlive intervalMs now, hquiet hu hq⟩
  | shutdownNotice code sends =>
    obtain ⟨hu, hq⟩ := initiateWebsocketShutdown_upgrades s.endpoint code sends
    exact ⟨initiateWebsocketShutdown_keepAlive code sends, hquiet hu hq⟩
  | disconnected => cases hsees

/-- A request that is read is dispatched on an HTTP connection. -/
theorem taken_dispatched (htaken : s.taken event = some x) :
    s.sees event = true ∧ s.endpoint.conn.websocket = none ∧
      ∃ conn : Connection σ, conn.websocket = none ∧
        s.call event = dispatchRequest x.1 ⟨conn, s.endpoint.epollOut⟩ x.2 := by
  cases event with
  | readable services recv =>
    rw [taken, Option.ite_none_right_eq_some] at htaken
    obtain ⟨hopen, htaken⟩ := htaken
    obtain ⟨request, haccepted, rfl⟩ := Option.map_eq_some_iff.mp htaken
    rcases handleReadEvent_cases services s.endpoint recv with
      ⟨h, heq, hnone, -, -, -⟩ | ⟨bytes, conn, -, hhttp, hweb, -, -, heq⟩
    · rw [heq, hnone] at haccepted
      cases haccepted
    · rw [heq, dispatchRequest_accepted] at haccepted
      obtain rfl := Option.some.inj haccepted
      exact ⟨hopen, hhttp, conn, hweb, heq⟩
  | writable send => cases htaken
  | workerCompletion slot result => cases htaken
  | proxyCompletion slot outcome => cases htaken
  | pingPass intervalMs now => cases htaken
  | shutdownNotice code sends => cases htaken
  | disconnected => cases htaken

/-- A request that is read sets the flag. -/
theorem call_taken (htaken : s.taken event = some x) :
    s.sees event = true ∧ (s.call event).conn.keepAlive = keeps (some x) ∧
      ((s.call event).conn.websocket.isSome = true → keeps (some x) = false) := by
  obtain ⟨hsees, -, conn, hweb, hcall⟩ := taken_dispatched htaken
  rw [hcall]
  exact ⟨hsees, dispatchRequest_flag hweb⟩

/-- The flag is what the last request read makes of it, and an upgraded connection is not kept. -/
structure Flagged (s : State σ) (last : Option (Services × HttpRequest)) : Prop where
  inside : s.endpoint.conn.OffsetInside
  flag : s.endpoint.conn.keepAlive = keeps last
  upgraded : s.endpoint.conn.websocket.isSome = true → s.endpoint.conn.keepAlive = false

omit [WebSocketSession σ] in
theorem initial_flagged (id : ℕ) : (initial id : State σ).Flagged none :=
  ⟨Nat.zero_le _, rfl, fun h => by cases h⟩

variable {last : Option (Services × HttpRequest)}

theorem Flagged.step (hs : s.Flagged last) (event : Event) :
    (s.step event).Flagged ((s.taken event).or last) := by
  cases hsees : s.sees event with
  | false =>
    have hnone : s.taken event = none := by
      cases htaken : s.taken event with
      | none => rfl
      | some x =>
        rw [(call_taken htaken).1] at hsees
        cases hsees
    have hsame := (step_unseen hsees).1
    rw [hnone, Option.none_or]
    exact ⟨by rw [hsame]; exact hs.inside, by rw [hsame]; exact hs.flag, by
      rw [hsame]
      exact hs.upgraded⟩
  | true =>
    have hcall := (step_seen hsees).1
    have hinside := (call_conserves event hs.inside).inside
    cases htaken : s.taken event with
    | none =>
      obtain ⟨hkeep, hweb⟩ := call_untaken hsees htaken
      refine ⟨by rw [hcall]; exact hinside, ?_, fun hup => ?_⟩
      · rw [hcall, hkeep, hs.flag, Option.none_or]
      · rw [hcall, hweb] at hup
        rw [hcall, hkeep]
        exact hs.upgraded hup
    | some x =>
      obtain ⟨-, hkeep, hweb⟩ := call_taken htaken
      refine ⟨by rw [hcall]; exact hinside, ?_, fun hup => ?_⟩
      · rw [hcall, hkeep, Option.some_or]
      · rw [hcall] at hup
        rw [hcall, hkeep]
        exact hweb hup

theorem Flagged.run (hs : s.Flagged last) (events : List Event) :
    (s.run events).Flagged ((s.lastTaken events).or last) := by
  induction events generalizing s last with
  | nil => exact hs
  | cons event events ih =>
    have hrest := ih (hs.step event)
    rwa [← Option.or_assoc] at hrest

theorem run_flagged (id : ℕ) (events : List Event) :
    ((initial id : State σ).run events).Flagged ((initial id : State σ).lastTaken events) := by
  have hrun := (initial_flagged id : (initial id : State σ).Flagged none).run events
  rwa [Option.or_none] at hrun

/-! ### The output between two responses -/

theorem call_undisturbed (hsees : s.sees event = true) (hanswer : (s.call event).answer = none) :
    (s.call event).conn.websocket.isSome = s.endpoint.conn.websocket.isSome := by
  cases htaken : s.taken event with
  | none => exact (call_untaken hsees htaken).2
  | some x =>
    obtain ⟨-, hhttp, conn, hweb, hcall⟩ := taken_dispatched htaken
    rw [hcall] at hanswer ⊢
    have hup := (dispatchRequest_upgrades x.1 ⟨conn, s.endpoint.epollOut⟩ x.2 hweb).answered hweb
    rw [hanswer] at hup
    rw [hhttp]
    exact Bool.eq_false_iff.mpr fun hsome => by cases hup hsome

theorem step_undisturbed (hinside : s.endpoint.conn.OffsetInside) (hquiet : s.queued event = none) :
    (s.step event).endpoint.conn.websocket.isSome = s.endpoint.conn.websocket.isSome ∧
      (s.endpoint.conn.websocket = none →
        (s.step event).sent ++ (s.step event).unsent = s.sent ++ s.unsent) := by
  cases hsees : s.sees event with
  | false =>
    obtain ⟨hsame, hsent⟩ := step_unseen hsees
    exact ⟨by rw [hsame], fun _ => by rw [hsent, unsent, hsame, unsent]⟩
  | true =>
    obtain ⟨hcall, hsent⟩ := step_seen hsees
    have hanswer : (s.call event).answer = none := by rwa [queued, if_pos hsees] at hquiet
    have hc := call_conserves event hinside
    refine ⟨by rw [hcall, call_undisturbed hsees hanswer], fun hhttp => ?_⟩
    have hkept := hc.kept hanswer
    rw [hc.no_frames hhttp, List.append_nil] at hkept
    rw [hsent, unsent, hcall, List.append_assoc, hkept, unsent]

theorem run_undisturbed (events : List Event) (hs : s.Flagged last)
    (hquiet : s.Undisturbed events) :
    (s.run events).endpoint.conn.websocket.isSome = s.endpoint.conn.websocket.isSome ∧
      (s.endpoint.conn.websocket = none →
        (s.run events).sent ++ (s.run events).unsent = s.sent ++ s.unsent) := by
  induction events generalizing s last with
  | nil => exact ⟨rfl, fun _ => rfl⟩
  | cons event events ih =>
    obtain ⟨hweb, hstep⟩ := step_undisturbed hs.inside hquiet.1
    obtain ⟨hrest, hrun⟩ := ih (hs.step event) hquiet.2
    refine ⟨hrest.trans hweb, fun hhttp => ?_⟩
    rw [hhttp, Option.isSome_none, Option.isSome_eq_false_iff, Option.isNone_iff_eq_none] at hweb
    exact (hrun hweb).trans (hstep hhttp)

theorem run_append (s : State σ) (events more : List Event) :
    s.run (events ++ more) = (s.run events).run more := List.foldl_append

theorem lastTaken_append (s : State σ) (events more : List Event) :
    s.lastTaken (events ++ more) = ((s.run events).lastTaken more).or (s.lastTaken events) := by
  induction events generalizing s with
  | nil => exact (Option.or_none).symm
  | cons event events ih =>
    rw [List.cons_append, lastTaken, ih, Option.or_assoc]
    rfl

theorem sent_mono (s : State σ) (events : List Event) :
    s.sent.length ≤ (s.run events).sent.length := by
  induction events generalizing s with
  | nil => exact le_rfl
  | cons event events ih =>
    refine le_trans ?_ (ih (s.step event))
    cases hsees : s.sees event with
    | false => rw [(step_unseen hsees).2]
    | true =>
      rw [(step_seen hsees).2, List.length_append]
      exact Nat.le_add_right _ _

end State

end Aevrix.Server
