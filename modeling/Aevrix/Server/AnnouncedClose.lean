import Aevrix.Server.KeepAlive
import Aevrix.Server.ResponseText

/-!
# The announced close

The header line `Connection` is chosen where a response is built; whether the connection
closes is decided by its keep-alive flag when the output has left. Every request read in
between sets that flag again, and an error response leaves it as it is. `carriedOut_iff` says,
for the responses that come back from a worker or an upstream, when what the line announces
is what happens.
-/

namespace Aevrix.Server
open Aevrix.Http Aevrix.Proxy
open Aevrix.Http.HttpResponseSerializer (serialize)

/-! ### Requests that were handed on -/

/-- The outcome that the proxy reports before `handle_read_event` returns. -/
def Route.reported : Route → Option ProxyOutcome
  | .proxied outcome => outcome
  | .routed _ | .upgraded _ | .refused _ | .worker | .overloaded => none

theorem Route.reported_eq {route : Route} {outcome : ProxyOutcome}
    (h : route.reported = some outcome) : route = .proxied (some outcome) := by
  cases route with
  | proxied reported => exact congrArg Route.proxied h
  | routed response => cases h
  | upgraded response => cases h
  | refused verdict => cases h
  | worker => cases h
  | overloaded => cases h

/-- What comes back for a request that was handed on. -/
inductive Completion where
  | worker (result : WorkerResult)
  | upstream (outcome : ProxyOutcome)

namespace Completion

/-- The file was read, or the exchange succeeded. -/
def succeeded : Completion → Bool
  | worker result => result.statusCode == 200
  | upstream outcome => outcome.status == .success

end Completion

variable {σ : Type} [WebSocketSession σ]

/-- What an event brings back for a request handed on. -/
def State.completion (s : State σ) : Event → Option Completion
  | .workerCompletion _ result => some (.worker result)
  | .proxyCompletion _ outcome => some (.upstream outcome)
  | .readable services recv =>
    (s.taken (.readable services recv)).bind fun x =>
      (x.1.dispatch x.2).reported.map .upstream
  | _ => none

/-! ### The responses -/

section responses
variable {e : Endpoint σ}

/-- A response of this server, with no field twice. -/
structure WellFormed (r : HttpResponse) : Prop where
  version : r.version = ascii "HTTP/1.1"
  distinct : r.headers.Distinct

omit [WebSocketSession σ] in
theorem wellFormed_ofBody (status : StatusCode) (body : Bytes) :
    WellFormed (.ofBody status body) := by
  refine ⟨?_, ofBody_distinct status body⟩
  unfold HttpResponse.ofBody HttpResponse.setBody HttpResponse.updateContentLength
  split <;> rfl

theorem WellFormed.setHeader {r : HttpResponse} (h : WellFormed r) (name value : Bytes) :
    WellFormed (r.setHeader name value) := ⟨h.version, h.distinct.set name value⟩

theorem WellFormed.setHeadOnly {r : HttpResponse} (h : WellFormed r) (headOnly : Bool) :
    WellFormed (r.setHeadOnly headOnly) := ⟨h.version, h.distinct⟩

theorem WellFormed.plainText {r : HttpResponse} (h : WellFormed r) : WellFormed (plainText r) :=
  (h.setHeader _ _).setHeader _ _

/-- The response announces what the connection wants after a success, and a close after a
failure. -/
def announcedPolicy (succeeded keepAlive : Bool) : ConnectionPolicy :=
  if succeeded then keepAlivePolicy keepAlive else .close

/-- A response on which `policy` is set last. -/
def Answers (response : Bytes) (policy : ConnectionPolicy) : Prop := ∃ r : HttpResponse,
  WellFormed r ∧ response = serialize (r.setConnectionPolicy policy)

theorem WellFormed.answers {r : HttpResponse} (h : WellFormed r) (policy : ConnectionPolicy) :
    Answers (serialize (r.setConnectionPolicy policy)) policy := ⟨r, h, rfl⟩

theorem workerResponse_answers (result : WorkerResult) (keepAlive : Bool) :
    Answers (serialize (workerResponse result keepAlive))
      (announcedPolicy (result.statusCode == 200) keepAlive) := by
  by_cases hcode : result.statusCode = 200
  · rw [workerResponse, if_pos hcode, announcedPolicy, if_pos (beq_iff_eq.mpr hcode)]
    exact (((wellFormed_ofBody _ _).setHeader _ _).setHeader _ _).answers _
  · rw [workerResponse, if_neg hcode, announcedPolicy, if_neg (by simpa using hcode)]
    exact (wellFormed_ofBody _ _).plainText.answers _

theorem buildProxyResponse_answers (outcome : ProxyOutcome) (keepAlive : Bool) :
    Answers (serialize (buildProxyResponse outcome keepAlive))
      (announcedPolicy (outcome.status == .success) keepAlive) := by
  by_cases hs : outcome.status = .success
  · have hversion := (proxyResponse_frame hs keepAlive).2.2.1
    rw [buildProxyResponse_success hs] at hversion ⊢
    rw [announcedPolicy, if_pos (beq_iff_eq.mpr hs)]
    have hframed : WellFormed (headFraming (outcome.headers.foldl relayHeader
        (.ofBody (UInt16.ofNat outcome.upstreamStatus) outcome.body)) outcome) :=
      ⟨hversion, headFraming_distinct (relay_distinct _ (ofBody_distinct _ _)) outcome⟩
    exact ((hframed.setHeader _ _).setHeader _ _).answers _
  · rw [buildProxyResponse, if_neg hs, announcedPolicy, if_neg (by simpa using hs)]
    have herror := ((wellFormed_ofBody (gatewayError outcome).1
      ((gatewayError outcome).2 ++ ascii "\n")).plainText).setHeader (ascii "Via") (ascii "1.1 aevrix")
    simp only
    split
    · exact (herror.setHeadOnly true).answers _
    · exact herror.answers _

theorem Answers.announces {response : Bytes} {policy : ConnectionPolicy}
    (h : Answers response policy) (hsent : response ≠ []) :
    announces (ascii "close") response = (policy == .close) ∧
      announces (ascii "keep-alive") response = (policy == .keepAlive) := by
  obtain ⟨r, hr, rfl⟩ := h
  exact announces_serialize policy hr.version hr.distinct hsent

omit [WebSocketSession σ] in
theorem applyWorkerResult_queues (e : Endpoint σ) (result : WorkerResult) {response : Bytes}
    (hanswer : (applyWorkerResult e result).answer = some response) :
    (applyWorkerResult e result).conn.unsent = response ∧
      Answers response (announcedPolicy (result.statusCode == 200)
        (applyWorkerResult e result).conn.keepAlive) := by
  obtain rfl := Option.some.inj hanswer
  exact ⟨rfl, workerResponse_answers result e.conn.keepAlive⟩

omit [WebSocketSession σ] in
theorem applyProxyOutcome_queues (e : Endpoint σ) (outcome : ProxyOutcome) {response : Bytes}
    (hanswer : (applyProxyOutcome e outcome).answer = some response) :
    (applyProxyOutcome e outcome).conn.unsent = response ∧
      Answers response (announcedPolicy (outcome.status == .success)
        (applyProxyOutcome e outcome).conn.keepAlive) := by
  revert hanswer
  unfold applyProxyOutcome
  simp only
  split
  · exact fun hanswer => by cases hanswer
  · intro hanswer
    obtain rfl := Option.some.inj hanswer
    exact ⟨rfl, buildProxyResponse_answers outcome e.conn.keepAlive⟩

theorem dispatchRequest_proxied {services : Services} {request : HttpRequest} {outcome : ProxyOutcome}
    (hd : services.dispatch request = .proxied (some outcome)) {response : Bytes}
    (hanswer : (dispatchRequest services e request).answer = some response) :
    (dispatchRequest services e request).conn.unsent = response ∧
      Answers response (announcedPolicy (outcome.status == .success)
        (dispatchRequest services e request).conn.keepAlive) := by
  rw [dispatchRequest, hd] at hanswer ⊢
  exact applyProxyOutcome_queues _ outcome hanswer

/-- What a completion queues is all there is to send, and announces what the flag says after a
success, and a close after a failure. -/
theorem State.completion_queues {s : State σ} {event : Event} {completion : Completion}
    (hc : s.completion event = some completion) {response : Bytes}
    (hq : s.queued event = some response) :
    (s.step event).unsent = response ∧ Answers response
      (announcedPolicy completion.succeeded (s.step event).endpoint.conn.keepAlive) := by
  rw [queued, Option.ite_none_right_eq_some] at hq
  obtain ⟨hsees, hanswer⟩ := hq
  rw [unsent, (step_seen hsees).1]
  cases event with
  | readable services recv =>
    obtain ⟨x, htaken, hmapped⟩ := Option.bind_eq_some_iff.mp hc
    obtain ⟨outcome, hreported, rfl⟩ := Option.map_eq_some_iff.mp hmapped
    obtain ⟨-, -, conn, -, hcall⟩ := taken_dispatched htaken
    rw [hcall] at hanswer ⊢
    exact dispatchRequest_proxied (Route.reported_eq hreported) hanswer
  | workerCompletion slot result =>
    obtain rfl := Option.some.inj hc
    exact applyWorkerResult_queues s.endpoint result hanswer
  | proxyCompletion slot outcome =>
    obtain rfl := Option.some.inj hc
    exact applyProxyOutcome_queues s.endpoint outcome hanswer
  | writable send => cases hc
  | pingPass intervalMs now => cases hc
  | shutdownNotice code sends => cases hc
  | disconnected => cases hc

end responses

/-! ### The end of the output -/

/-- What `send` may take. -/
def Send.count : Send → ℕ
  | .sent count => count
  | .again | .interrupted | .failed _ => 0

omit [WebSocketSession σ] in
theorem Connection.writeNonblocking_sends (c : Connection σ) (send : Send)
    (hsent : (c.writeNonblocking send).2.2 ≠ []) :
    (c.writeNonblocking send).1 = .success ∧
      ((c.writeNonblocking send).2.1.isOutputComplete = true ↔ c.unsent.length ≤ send.count) := by
  revert hsent
  unfold Connection.writeNonblocking
  split
  · exact fun hsent => (hsent rfl).elim
  split
  · exact fun hsent => (hsent rfl).elim
  next hbuffer hleft =>
  cases send with
  | sent count =>
    have hunsent : c.unsent.length = c.outputBuffer.length - c.writeOffset := List.length_drop
    have hwritten : (c.unsent.take count).length = min count c.unsent.length := List.length_take
    simp only [hwritten]
    split
    · next hall => exact fun _ => ⟨rfl, fun _ => by rw [Send.count]; omega, fun _ => rfl⟩
    · next hall =>
      refine fun _ => ⟨rfl, fun hdone => ?_, fun htaken => ?_⟩
      · rw [Connection.isOutputComplete, Bool.and_eq_true] at hdone
        exact (hbuffer hdone.1).elim
      · rw [Send.count] at htaken
        omega
  | again => exact fun hsent => (hsent rfl).elim
  | interrupted => exact fun hsent => (hsent rfl).elim
  | failed reason => exact fun hsent => (hsent rfl).elim

/-- A write event that sends bytes: the last of them is taken and `outputFlushed` decides, or
the connection stays with the rest. -/
theorem handleWriteEvent_sends {e : Endpoint σ} {send : Send}
    (hsent : (handleWriteEvent e send).sent ≠ []) :
    (e.conn.unsent.length ≤ send.count ∧ ∃ conn : Connection σ,
      conn.keepAlive = e.conn.keepAlive ∧ conn.websocket = e.conn.websocket ∧
        handleWriteEvent e send = { outputFlushed ⟨conn, e.epollOut⟩ with sent := e.conn.unsent }) ∨
    (send.count < e.conn.unsent.length ∧ (handleWriteEvent e send).keepOpen = true ∧
      (handleWriteEvent e send).sent.length < e.conn.unsent.length) := by
  obtain ⟨hsuccess, hdone⟩ := e.conn.writeNonblocking_sends send hsent
  have hsplit := e.conn.writeNonblocking_unsent send
  have hkeep := e.conn.writeNonblocking_keepAlive send
  have hweb := e.conn.writeNonblocking_websocket send
  have hrest := e.conn.writeNonblocking_rest send hsuccess
  have hbuffer : e.conn.outputBuffer ≠ [] := by
    refine fun hempty => hsent ?_
    change (e.conn.writeNonblocking send).2.2 = []
    unfold Connection.writeNonblocking
    rw [if_pos (by rw [hempty]; rfl)]
  unfold handleWriteEvent
  generalize e.conn.writeNonblocking send = write at hsuccess hdone hsplit hkeep hweb hrest ⊢
  obtain ⟨result, conn, sent⟩ := write
  simp only at hsuccess hdone hsplit hkeep hweb hrest ⊢
  subst hsuccess
  simp only
  split
  · next hcomplete =>
    rw [Connection.unsent_eq_nil conn hcomplete, List.append_nil] at hsplit
    exact Or.inl ⟨hdone.mp hcomplete, conn, hkeep, hweb, by rw [hsplit]⟩
  · next hcomplete =>
    refine Or.inr ⟨Nat.lt_of_not_le fun hall => hcomplete (hdone.mpr hall), rfl, ?_⟩
    have hleft : conn.unsent ≠ [] := fun hnil => (hrest hnil).elim hcomplete hbuffer
    rw [← hsplit, List.length_append]
    exact Nat.lt_add_of_pos_right (List.length_pos_iff.mpr hleft)

/-- The output of an HTTP connection has left: the flag decides. -/
theorem outputFlushed_http {e : Endpoint σ} (hweb : e.conn.websocket = none) :
    (outputFlushed e).keepOpen = e.conn.keepAlive ∧
      (e.conn.keepAlive = true → (outputFlushed e).conn.parser = .fresh .default) := by
  unfold outputFlushed
  rw [hweb]
  simp only
  split
  · next hkeep => exact ⟨hkeep.symm, fun _ => rfl⟩
  · next hkeep => exact ⟨(Bool.not_eq_true _ ▸ hkeep).symm, fun h => (hkeep h).elim⟩

/-- The output of an upgraded connection has left: the session decides. -/
theorem outputFlushed_upgraded {e : Endpoint σ} {session : σ} (hweb : e.conn.websocket = some session) :
    (outputFlushed e).keepOpen = false ↔
      WebSocketSession.output session = [] ∧ WebSocketSession.readyToClose session = true := by
  unfold outputFlushed
  rw [hweb]
  simp only
  split
  · next hempty =>
    rw [List.isEmpty_iff] at hempty
    split
    · next hready => exact ⟨fun _ => ⟨hempty, hready⟩, fun _ => rfl⟩
    · next hready => exact ⟨fun h => (by cases h), fun h => (hready h.2).elim⟩
  · next hempty =>
    rw [List.isEmpty_iff] at hempty
    exact ⟨fun h => (by cases h), fun h => (hempty h.1).elim⟩

/-! ### The last byte -/

/-- Two moments of a run of an accepted connection: an event, and a write event after it. -/
structure Passage (σ : Type) where
  id : ℕ
  before : List Event
  event : Event
  between : List Event
  send : Send

namespace Passage
variable (x : Passage σ)

def asked : State σ := (State.initial x.id).run x.before
def queuedAt : State σ := x.asked.step x.event
def atWrite : State σ := x.queuedAt.run x.between
def after : State σ := x.atWrite.step (.writable x.send)

/-- What the last request read before the event, or with it, makes of the flag. -/
def keepsQueued : Bool :=
  keeps ((State.initial x.id : State σ).lastTaken (x.before ++ [x.event]))

/-- What the last request read before the write event makes of the flag. -/
def keepsWritten : Bool :=
  keeps ((State.initial x.id : State σ).lastTaken (x.before ++ x.event :: x.between))

theorem queuedAt_flagged :
    x.queuedAt.Flagged ((State.initial x.id : State σ).lastTaken (x.before ++ [x.event])) := by
  have h : (State.initial x.id : State σ).run (x.before ++ [x.event]) = x.queuedAt :=
    State.run_append _ x.before [x.event]
  rw [← h]
  exact State.run_flagged x.id _

theorem atWrite_flagged :
    x.atWrite.Flagged ((State.initial x.id : State σ).lastTaken (x.before ++ x.event :: x.between)) := by
  have h : (State.initial x.id : State σ).run (x.before ++ x.event :: x.between) = x.atWrite :=
    State.run_append _ x.before (x.event :: x.between)
  rw [← h]
  exact State.run_flagged x.id _

/-- Nothing read in between, nothing changed. -/
theorem keepsWritten_eq (h : x.queuedAt.lastTaken x.between = none) :
    x.keepsWritten = x.keepsQueued := by
  have hq : (State.initial x.id : State σ).run (x.before ++ [x.event]) = x.queuedAt :=
    State.run_append _ x.before [x.event]
  rw [keepsWritten, keepsQueued, show x.before ++ x.event :: x.between =
    (x.before ++ [x.event]) ++ x.between by simp, State.lastTaken_append, hq, h, Option.none_or]

end Passage

/-- The write event with which the last byte of a response leaves. The response is queued for
a request handed on; whatever is read, written or pinged in between, no other response takes
its place (of one that is replaced the last byte never leaves). -/
structure LastByte (σ : Type) [WebSocketSession σ] extends Passage σ where
  completion : Completion
  response : Bytes
  completes : toPassage.asked.completion event = some completion
  queues : toPassage.asked.queued event = some response
  undisturbed : toPassage.queuedAt.Undisturbed between
  notYet : toPassage.atWrite.sent.length < toPassage.queuedAt.sent.length + response.length
  leaves : toPassage.queuedAt.sent.length + response.length ≤ toPassage.after.sent.length

/-- The response leaves whole with one write. -/
def LastByte.atOnce (x : Passage σ) (completion : Completion) (response : Bytes)
    (completes : x.asked.completion x.event = some completion)
    (queues : x.asked.queued x.event = some response) (undisturbed : x.queuedAt.Undisturbed x.between)
    (hunsent : x.atWrite.sent = x.queuedAt.sent) (hsent : x.after.sent = x.queuedAt.sent ++ response)
    (hnonempty : response ≠ []) : LastByte σ where
  toPassage := x
  completion := completion
  response := response
  completes := completes
  queues := queues
  undisturbed := undisturbed
  notYet := by
    rw [hunsent]
    exact Nat.lt_add_of_pos_right (List.length_pos_iff.mpr hnonempty)
  leaves := by rw [hsent, List.length_append]

namespace LastByte
variable (x : LastByte σ)

/-- The connection is to be closed if that was announced, and is kept and ready for the next
request if the other was. -/
def CarriedOut : Prop :=
  (announces (ascii "close") x.response = true → x.after.isOpen = false) ∧
  (announces (ascii "keep-alive") x.response = true →
    x.after.isOpen = true ∧ x.after.endpoint.conn.parser = .fresh .default)

/-- On an HTTP connection, the request read last keeps it exactly if the exchange succeeded
and the request read last when the response was queued keeps it. An upgraded connection is
never kept: this write event takes all there is to send, and the session is done. -/
def Condition : Prop := match x.atWrite.endpoint.conn.websocket with
  | none => x.keepsWritten = (x.completion.succeeded && x.keepsQueued)
  | some session => x.atWrite.unsent.length ≤ x.send.count ∧
      WebSocketSession.output session = [] ∧ WebSocketSession.readyToClose session = true

/-- With one exchange at a time: it succeeded, or its request does not keep the connection. -/
theorem condition_alone (hhttp : x.atWrite.endpoint.conn.websocket = none)
    (halone : x.queuedAt.lastTaken x.between = none) :
    x.Condition ↔ x.completion.succeeded = true ∨ x.keepsQueued = false := by
  rw [Condition, hhttp, x.keepsWritten_eq halone]
  cases x.completion.succeeded <;> cases x.keepsQueued <;> simp

/-- The write event takes bytes, and what is left open is what the handler leaves open. -/
theorem after_sends : (handleWriteEvent x.atWrite.endpoint x.send).sent ≠ [] ∧
    x.after.sent = x.atWrite.sent ++ (handleWriteEvent x.atWrite.endpoint x.send).sent ∧
    x.after.endpoint = (handleWriteEvent x.atWrite.endpoint x.send).toEndpoint ∧
    x.after.isOpen = (handleWriteEvent x.atWrite.endpoint x.send).keepOpen := by
  have hmore := x.notYet.trans_le x.leaves
  cases hsees : x.atWrite.sees (.writable x.send) with
  | false =>
    rw [Passage.after, (State.step_unseen hsees).2] at hmore
    exact (lt_irrefl _ hmore).elim
  | true =>
    obtain ⟨hcall, hsent⟩ := State.step_seen hsees
    refine ⟨fun hnil => ?_, hsent, hcall, ?_⟩
    · rw [Passage.after, hsent, State.call, hnil, List.append_nil] at hmore
      exact lt_irrefl _ hmore
    · rw [State.sees] at hsees
      rw [Passage.after, State.step, if_pos hsees]
      rfl

/-- A close is announced unless the exchange succeeded and the flag was up when it did. -/
theorem policy : announces (ascii "close") x.response = !(x.completion.succeeded && x.keepsQueued) ∧
    announces (ascii "keep-alive") x.response = (x.completion.succeeded && x.keepsQueued) := by
  have hanswers := (State.completion_queues x.completes x.queues).2
  rw [show (x.asked.step x.event).endpoint.conn.keepAlive = x.keepsQueued from
    x.queuedAt_flagged.flag] at hanswers
  have hnonempty : x.response ≠ [] := by
    intro hnil
    have hmono := State.sent_mono x.queuedAt x.between
    have hnot := x.notYet
    rw [hnil, List.length_nil, Nat.add_zero] at hnot
    exact absurd hmono (Nat.not_le_of_lt hnot)
  obtain ⟨hclose, hkeep⟩ := hanswers.announces hnonempty
  rw [hclose, hkeep]
  cases x.completion.succeeded <;> cases x.keepsQueued <;> exact ⟨rfl, rfl⟩

/-- On an HTTP connection the flag decides. -/
theorem after_http (hhttp : x.atWrite.endpoint.conn.websocket = none) :
    x.after.isOpen = x.keepsWritten ∧
      (x.keepsWritten = true → x.after.endpoint.conn.parser = .fresh .default) := by
  obtain ⟨hsome, hsent, hendpoint, hopen⟩ := x.after_sends
  obtain ⟨hweb, hkept⟩ := State.run_undisturbed x.between x.queuedAt_flagged x.undisturbed
  have hqueued : x.queuedAt.endpoint.conn.websocket = none := by
    rw [show (x.queuedAt.run x.between).endpoint.conn.websocket = none from hhttp] at hweb
    simpa using hweb.symm
  have hunsent : x.queuedAt.unsent = x.response := (State.completion_queues x.completes x.queues).1
  -- Nothing but the response was left to send, so its last byte is the last of the output.
  have hall : x.atWrite.sent.length + x.atWrite.unsent.length =
      x.queuedAt.sent.length + x.response.length := by
    have hlength := congrArg List.length (hkept hqueued)
    rwa [List.length_append, List.length_append, hunsent] at hlength
  have hleaves := x.leaves
  rw [hsent, List.length_append] at hleaves
  rcases handleWriteEvent_sends hsome with ⟨-, conn, hkeep, hweb', hflushed⟩ | ⟨-, -, hless⟩
  · obtain ⟨hends, hparser⟩ := outputFlushed_http (e := ⟨conn, x.atWrite.endpoint.epollOut⟩)
      (hweb'.trans hhttp)
    rw [hopen, hendpoint, hflushed]
    rw [hkeep.trans x.atWrite_flagged.flag] at hends hparser
    exact ⟨hends, hparser⟩
  · rw [State.unsent] at hall
    omega

/-- On an upgraded connection the session decides. -/
theorem after_upgraded {session : σ} (hweb : x.atWrite.endpoint.conn.websocket = some session) :
    x.keepsQueued = false ∧ (x.after.isOpen = false ↔ x.Condition) := by
  obtain ⟨hsome, -, -, hopen⟩ := x.after_sends
  constructor
  · have hsame := (State.run_undisturbed x.between x.queuedAt_flagged x.undisturbed).1
    have hup : x.queuedAt.endpoint.conn.websocket.isSome = true := by
      rw [← hsame, show (x.queuedAt.run x.between).endpoint.conn.websocket = some session from hweb]
      rfl
    exact x.queuedAt_flagged.flag.symm.trans (x.queuedAt_flagged.upgraded hup)
  · rw [hopen, Condition, hweb]
    simp only
    rcases handleWriteEvent_sends hsome with ⟨hcount, conn, -, hweb', hflushed⟩ | ⟨hcount, hkeep, -⟩
    · rw [hflushed, State.unsent, and_iff_right hcount]
      exact outputFlushed_upgraded (e := ⟨conn, x.atWrite.endpoint.epollOut⟩) (hweb'.trans hweb)
    · rw [hkeep]
      exact ⟨fun h => (by cases h), fun h => absurd h.1 (Nat.not_le_of_lt hcount)⟩

end LastByte

/-- **When an announced close is carried out.** Whenever the last byte of a response to a
request handed on leaves, what the response announces is what happens, if and only if the
flag is still what the header line was chosen by (`LastByte.Condition`): not after an error
reported to a request that keeps its connection, and not when a request read in between asks
for the other. -/
theorem carriedOut_iff (x : LastByte σ) : x.CarriedOut ↔ x.Condition := by
  obtain ⟨hclose, hkeep⟩ := x.policy
  rw [LastByte.CarriedOut, hclose, hkeep]
  cases hweb : x.atWrite.endpoint.conn.websocket with
  | none =>
    obtain ⟨hopen, hparser⟩ := x.after_http hweb
    rw [LastByte.Condition, hweb, hopen]
    simp only
    cases hk : x.completion.succeeded && x.keepsQueued with
    | true => exact ⟨fun h => (h.2 rfl).1, fun h => ⟨fun hp => (by cases hp), fun _ => ⟨h, hparser h⟩⟩⟩
    | false => exact ⟨fun h => h.1 rfl, fun h => ⟨fun _ => h, fun hp => (by cases hp)⟩⟩
  | some session =>
    obtain ⟨hnot, hends⟩ := x.after_upgraded hweb
    -- The upgrade cleared the flag before the response was built: a close was announced.
    rw [hnot, Bool.and_false, ← hends]
    exact ⟨fun h => h.1 rfl, fun h => ⟨fun _ => h, fun hp => (by cases hp)⟩⟩

/-! ### An error, and a request read in between -/

/-- The worker's answer to a file that is not there, and to one that is. -/
def missingFile : WorkerResult := ⟨1, [], [], 404, ascii "File not found", false⟩
def foundFile : WorkerResult := ⟨1, ascii "a", ascii "text/plain", 200, [], true⟩

/-- `GET /missing`, which keeps its connection, and its 404. -/
def notFound : Passage State.NoSession where
  id := 1
  before := [.readable State.fixedRoutes (.data (ascii "GET /missing HTTP/1.1\r\n\r\n"))]
  event := .workerCompletion 0 missingFile
  between := []
  send := .sent 1000

/-- The response to `GET /a.txt` has not left when `GET /b.txt` is read, which asks for the close. -/
def overtaken : Passage State.NoSession where
  id := 1
  before := [.readable State.fixedRoutes (.data (ascii "GET /a.txt HTTP/1.1\r\n\r\n"))]
  event := .workerCompletion 0 foundFile
  between := [.readable State.fixedRoutes
    (.data (ascii "GET /b.txt HTTP/1.1\r\nConnection: close\r\n\r\n"))]
  send := .sent 1000

theorem notFound_queues : notFound.asked.queued notFound.event =
    some (serialize (workerResponse missingFile true)) := by decide +kernel

theorem notFound_sent : notFound.atWrite.sent = notFound.queuedAt.sent ∧ notFound.after.sent =
    notFound.queuedAt.sent ++ serialize (workerResponse missingFile true) := by decide +kernel

theorem overtaken_queues : overtaken.asked.queued overtaken.event =
    some (serialize (workerResponse foundFile true)) := by decide +kernel

theorem overtaken_undisturbed : overtaken.queuedAt.Undisturbed overtaken.between :=
  ⟨by decide +kernel, trivial⟩

theorem overtaken_sent : overtaken.atWrite.sent = overtaken.queuedAt.sent ∧ overtaken.after.sent =
    overtaken.queuedAt.sent ++ serialize (workerResponse foundFile true) := by decide +kernel

def notFoundLast : LastByte State.NoSession :=
  .atOnce notFound (.worker missingFile) _ rfl notFound_queues trivial notFound_sent.1
    notFound_sent.2 (by decide +kernel)

def overtakenLast : LastByte State.NoSession :=
  .atOnce overtaken (.worker foundFile) _ rfl overtaken_queues overtaken_undisturbed
    overtaken_sent.1 overtaken_sent.2 (by decide +kernel)

/-- The 404 announces a close and the connection is kept; a 200 that announces keep-alive is
followed by the close that a later request asks for. -/
theorem announced_close_kept :
    announces (ascii "close") notFoundLast.response = true ∧ notFoundLast.after.isOpen = true ∧
    announces (ascii "keep-alive") overtakenLast.response = true ∧
    overtakenLast.after.isOpen = false ∧
    ¬∀ x : LastByte State.NoSession, x.CarriedOut := by
  refine ⟨by decide +kernel, by decide +kernel, by decide +kernel, by decide +kernel, fun hall => ?_⟩
  have hclosed := (hall notFoundLast).1 (by decide +kernel)
  exact absurd hclosed (by decide +kernel)

end Aevrix.Server
