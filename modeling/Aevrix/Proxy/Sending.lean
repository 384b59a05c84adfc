import Aevrix.Proxy.Completion

/-!
# What the upstream is sent

`Half` is what a request in flight knows but for its response; `call_halves` says what a call does
to the halves. The bytes that a request has written are, in every state of every run, a front of
what `build_upstream_request` made of it, and the whole once its response is awaited
(`request_sent`).
-/

namespace Aevrix.Proxy.Lifecycle

/-- A request in flight, as far as its sending and its deadline are concerned. -/
structure Half where
  ticket : ℕ
  phase : Phase
  requestBytes : Bytes
  bytesWritten : ℕ
  deadline : Option ℕ

def half (r : PendingRequest) : Half where
  ticket := r.ticket
  phase := r.phase
  requestBytes := r.requestBytes
  bytesWritten := r.bytesWritten
  deadline := r.deadline

/-! ### One writable event -/

/-- `finish_connect`, where the connect succeeds (`proxy_handler.cpp:418-421`). -/
def connected (io : Io) (r : PendingRequest) : PendingRequest :=
  if r.phase = .connecting then
    { r with phase := .writing, deadline := deadlineAfter io.budget.readTimeoutMs io.now }
  else r

/-- `flush_request` on the request itself. -/
def flushed (io : Io) (r : PendingRequest) : PendingRequest :=
  if r.phase = .writing then
    let (bytesWritten, result) := sendLoop r.requestBytes.length r.bytesWritten io.sends
    match result with
    | .flushed => { r with
        bytesWritten, requestBytes := [], phase := .reading
        deadline := deadlineAfter io.budget.readTimeoutMs io.now }
    | _ => { r with bytesWritten }
  else r

def advanced (io : Io) (r : PendingRequest) : PendingRequest := flushed io (connected io r)

theorem connected_ticket (io : Io) (r : PendingRequest) : (connected io r).ticket = r.ticket := by
  unfold connected
  split <;> rfl

theorem flushed_ticket (io : Io) (r : PendingRequest) : (flushed io r).ticket = r.ticket := by
  unfold flushed
  split
  · rcases sendLoop r.requestBytes.length r.bytesWritten io.sends with ⟨written, result⟩
    cases result <;> rfl
  · rfl

theorem advanced_ticket (io : Io) (r : PendingRequest) : (advanced io r).ticket = r.ticket :=
  (flushed_ticket io _).trans (connected_ticket io r)

/-- The bytes that `send` takes during a writable event. -/
def sentBy (io : Io) (r : PendingRequest) : Bytes :=
  if r.phase = .connecting ∧ io.socketError ≠ .none then []
  else if (connected io r).phase = .writing then
    (r.requestBytes.drop r.bytesWritten).take
      ((sendLoop r.requestBytes.length r.bytesWritten io.sends).1 - r.bytesWritten)
  else []

/-- `send` takes at most what it is given. -/
def SendsFit (size : ℕ) : ℕ → List SendResult → Prop
  | _, [] => True
  | written, .sent count :: results => written + count ≤ size ∧ SendsFit size (written + count) results
  | written, _ :: results => SendsFit size written results

theorem sendLoop_fits {size written : ℕ} {results : List SendResult} (hwritten : written ≤ size)
    (hfit : SendsFit size written results) :
    written ≤ (sendLoop size written results).1 ∧ (sendLoop size written results).1 ≤ size ∧
      ((sendLoop size written results).2 = .flushed → (sendLoop size written results).1 = size) := by
  induction results generalizing written with
  | nil =>
    unfold sendLoop
    refine ⟨Nat.le_refl _, hwritten, ?_⟩
    dsimp only
    split
    · intro _
      omega
    · intro h
      cases h
  | cons result results ih =>
    unfold sendLoop
    split
    · rename_i hdone
      exact ⟨Nat.le_refl _, hwritten, fun _ => by omega⟩
    cases result with
    | sent count =>
      dsimp only
      split
      · refine ⟨Nat.le_refl _, hwritten, fun h => ?_⟩
        cases h
      · obtain ⟨hle, hsize, hflushed⟩ := ih hfit.1 hfit.2
        exact ⟨by omega, hsize, hflushed⟩
    | again =>
      refine ⟨Nat.le_refl _, hwritten, fun h => ?_⟩
      cases h
    | interrupted => exact ih hwritten hfit
    | failed reason =>
      refine ⟨Nat.le_refl _, hwritten, fun h => ?_⟩
      cases h

namespace ProxyHandler

def halves (h : ProxyHandler) : List (ℤ × Half) := h.pending.map fun e => (e.1, half e.2)

/-- Requests may end, and their responses may go on. -/
def Shrinks (h h' : ProxyHandler) : Prop := h'.halves.Sublist h.halves

section Shrinks
variable {h h' h'' : ProxyHandler} {fd : ℤ} {request : PendingRequest}

theorem Shrinks.refl (h : ProxyHandler) : Shrinks h h := List.Sublist.refl _

theorem Shrinks.trans (hs : Shrinks h h') (hs' : Shrinks h' h'') : Shrinks h h'' :=
  List.Sublist.trans hs' hs

theorem shrinks_of_pending (hpending : h'.pending.Sublist h.pending) : Shrinks h h' :=
  hpending.map _

theorem shrinks_complete (h : ProxyHandler) (fd : ℤ) (outcome : ProxyOutcome) (now : ℕ) :
    Shrinks h (h.complete fd outcome now) := by
  unfold complete
  cases h.find fd with
  | none => exact Shrinks.refl h
  | some request => exact shrinks_of_pending List.filter_sublist

theorem shrinks_fail (h : ProxyHandler) (fd : ℤ) (status : ProxyOutcomeStatus) (message : Bytes) :
    Shrinks h (h.fail fd status message) := by
  unfold fail
  cases h.find fd with
  | none => exact Shrinks.refl h
  | some request => exact shrinks_of_pending List.filter_sublist

theorem halves_setParser (h : ProxyHandler) (fd : ℤ) (parser : ProxyResponseParser) :
    (h.setParser fd parser).halves = h.halves := by
  simp only [halves, setParser, update, List.map_map]
  refine List.map_congr_left fun e _ => ?_
  simp only [Function.comp_apply]
  split
  · rename_i hfd
    rw [← hfd]
    rfl
  · rfl

theorem shrinks_setParser (h : ProxyHandler) (fd : ℤ) (parser : ProxyResponseParser) :
    Shrinks h (h.setParser fd parser) := by
  rw [Shrinks, halves_setParser]

theorem shrinks_atEof (h : ProxyHandler) (fd : ℤ) (request : PendingRequest) (now : ℕ) :
    Shrinks h (h.atEof fd request now) := by
  simp only [atEof]
  split
  · exact (shrinks_setParser h fd _).trans (shrinks_complete _ fd _ now)
  · exact (shrinks_setParser h fd _).trans (shrinks_fail _ fd _ _)

theorem shrinks_readAvailable (h : ProxyHandler) (fd : ℤ) (now : ℕ) (results : List Recv) :
    Shrinks h (h.readAvailable fd now results) := by
  induction results generalizing h with
  | nil => exact Shrinks.refl h
  | cons result results ih =>
    unfold readAvailable
    cases h.find fd with
    | none => exact Shrinks.refl h
    | some request =>
      cases result with
      | data bytes =>
        cases bytes with
        | nil => exact shrinks_atEof h fd request now
        | cons b rest =>
          have hfed := shrinks_setParser h fd (request.parser.feed (b :: rest))
          simp only
          split
          · exact hfed.trans (shrinks_fail _ fd _ _)
          split
          · exact hfed.trans (shrinks_complete _ fd _ now)
          split
          · exact hfed
          · exact hfed.trans (ih _)
      | again => exact Shrinks.refl h
      | interrupted => exact ih h
      | failed reason => exact shrinks_fail h fd _ _

theorem shrinks_sweepTimeouts (h : ProxyHandler) (now : ℕ) : Shrinks h (h.sweepTimeouts now) := by
  have hexpire : ∀ fds : List ℤ, ∀ h : ProxyHandler, Shrinks h (fds.foldl expire h) := by
    intro fds
    induction fds with
    | nil => exact Shrinks.refl
    | cons fd fds ih =>
      intro h
      refine Shrinks.trans ?_ (ih (h.expire fd))
      unfold expire
      cases h.find fd with
      | none => exact Shrinks.refl h
      | some request => exact shrinks_fail h fd _ _
  exact hexpire _ h

/-! ### Writing -/

theorem update_found (hkeys : (h.pending.map Prod.fst).Nodup) (hfind : h.find fd = some request)
    (f : PendingRequest → PendingRequest) : h.update fd f = h.update fd fun _ => f request := by
  have hentry : ∀ e ∈ h.pending, e.1 = fd → e.2 = request := by
    intro e he hfd
    have hpair := List.inj_on_of_nodup_map hkeys he (mem_of_lookup hfind) hfd
    rw [hpair]
  unfold update
  congr 1
  refine List.map_congr_left fun e he => ?_
  split
  · rename_i hfd
    rw [hentry e he hfd]
  · rfl

theorem update_update (h : ProxyHandler) (fd : ℤ) (f g : PendingRequest → PendingRequest) :
    (h.update fd f).update fd g = h.update fd (g ∘ f) := by
  unfold update
  simp only [List.map_map]
  congr 1
  refine List.map_congr_left fun e _ => ?_
  simp only [Function.comp_apply]
  by_cases hfd : e.1 = fd
  · simp only [if_pos hfd, if_true]
  · simp only [if_neg hfd]

theorem update_id (h : ProxyHandler) (fd : ℤ) : h.update fd id = h := by
  have hpending : (h.pending.map fun e => if e.1 = fd then (fd, id e.2) else e) = h.pending := by
    refine (List.map_congr_left fun e _ => ?_).trans (List.map_id _)
    split
    · rename_i hfd
      rw [← hfd]
      rfl
    · rfl
  unfold update
  rw [hpending]

theorem find_update (hfind : h.find fd = some request) (f : PendingRequest → PendingRequest) :
    (h.update fd f).find fd = some (f request) := by
  unfold find at hfind ⊢
  simp only [update]
  generalize h.pending = pending at hfind ⊢
  induction pending with
  | nil => cases hfind
  | cons e rest ih =>
    rw [List.lookup_cons] at hfind
    rw [List.map_cons, List.lookup_cons]
    by_cases hfd : fd = e.1
    · rw [hfd, beq_self_eq_true] at hfind
      rw [if_pos hfd.symm, Option.some.inj hfind]
      simp
    · rw [beq_false_of_ne hfd] at hfind
      rw [if_neg (Ne.symm hfd), beq_false_of_ne hfd]
      exact ih hfind

theorem shrinks_flushRequest (hkeys : (h.pending.map Prod.fst).Nodup)
    (hfind : h.find fd = some request) (hphase : request.phase = .writing) (io : Io) :
    Shrinks (h.update fd fun _ => flushed io request) (h.flushRequest fd request io) := by
  unfold flushRequest flushed
  rw [if_pos hphase]
  rcases sendLoop request.requestBytes.length request.bytesWritten io.sends with ⟨written, result⟩
  have hwritten := update_found hkeys hfind fun r => { r with bytesWritten := written }
  cases result with
  | blocked =>
    dsimp only
    rw [hwritten]
    exact Shrinks.refl _
  | failed reason =>
    dsimp only
    rw [hwritten]
    exact shrinks_fail _ fd _ _
  | flushed =>
    dsimp only
    rw [hwritten, update_update]
    split
    · exact Shrinks.refl _
    · exact shrinks_fail _ fd _ _

theorem keys_update (h : ProxyHandler) (fd : ℤ) (f : PendingRequest → PendingRequest) :
    (h.update fd f).pending.map Prod.fst = h.pending.map Prod.fst := by
  simp only [update, List.map_map]
  refine List.map_congr_left fun e _ => ?_
  simp only [Function.comp_apply]
  split
  · rename_i hfd
    exact hfd.symm
  · rfl

/-- A connect that fails ends the request. -/
theorem onWritable_refused (hphase : request.phase = .connecting) {io : Io}
    (hsocket : io.socketError ≠ .none) : Shrinks h (h.onWritable fd request io) := by
  have hgone : ∀ status message, (h.fail fd status message).find fd = none := by
    intro status message
    cases hfind : (h.fail fd status message).find fd with
    | none => rfl
    | some request =>
      exfalso
      unfold fail at hfind
      cases hold : h.find fd with
      | none =>
        rw [hold] at hfind
        cases hold.symm.trans hfind
      | some old =>
        rw [hold] at hfind
        have hmem := (List.mem_filter.mp (mem_of_lookup hfind)).2
        rw [bne_self_eq_false] at hmem
        cases hmem
  unfold onWritable finishConnect
  rw [if_pos hphase]
  cases herror : io.socketError with
  | unknown reason =>
    simp only [hgone]
    exact shrinks_fail h fd _ _
  | error reason =>
    simp only [hgone]
    exact shrinks_fail h fd _ _
  | none => exact absurd herror hsocket

/-- A writable event advances the request, or ends it. -/
theorem shrinks_onWritable (hkeys : (h.pending.map Prod.fst).Nodup)
    (hfind : h.find fd = some request) {io : Io}
    (hsocket : request.phase = .connecting → io.socketError = .none) :
    Shrinks (h.update fd fun _ => advanced io request) (h.onWritable fd request io) := by
  have hconnected : (if request.phase = .connecting then h.finishConnect fd io else h) =
      h.update fd fun _ => connected io request := by
    split
    · rename_i hphase
      unfold finishConnect
      rw [hsocket hphase, connected, if_pos hphase]
      exact update_found hkeys hfind _
    · rename_i hphase
      rw [connected, if_neg hphase]
      exact (update_id h fd).symm.trans (update_found hkeys hfind id)
  have hkeys₁ : ((h.update fd fun _ => connected io request).pending.map Prod.fst).Nodup := by
    rw [keys_update]
    exact hkeys
  have hfind₁ := find_update hfind fun _ => connected io request
  unfold onWritable
  rw [hconnected]
  dsimp only
  rw [hfind₁]
  dsimp only
  split
  · rename_i hphase
    have hflush := shrinks_flushRequest hkeys₁ hfind₁ hphase io
    rwa [update_update] at hflush
  · rename_i hphase
    rw [advanced, flushed, if_neg hphase]
    exact Shrinks.refl _

/-! ### Calls -/

theorem halves_start (h : ProxyHandler) (c : Start) : Shrinks h (h.start c) ∨
    ∃ fd reused, (h.start c).halves = h.halves ++
      [(fd, half (h.pendingRequest c h.started.length reused fd))] := by
  have hregister : ∀ h₁ : ProxyHandler, h₁.pending = h.pending → h₁.target = h.target →
      ∀ reused fd, Shrinks h (h₁.register c h.started.length reused fd) ∨
        (h₁.register c h.started.length reused fd).halves = h.halves ++
          [(fd, half (h.pendingRequest c h.started.length reused fd))] := by
    intro h₁ hpending htarget reused fd
    have hhalf : half (h₁.pendingRequest c h.started.length reused fd) =
        half (h.pendingRequest c h.started.length reused fd) := by
      simp only [half, pendingRequest, htarget]
    cases haddFd : c.addFd with
    | false =>
      refine Or.inl (shrinks_of_pending ?_)
      rw [(register_refused haddFd h.started.length reused fd).1, hpending]
    | true =>
      cases hfind : h₁.find fd with
      | none =>
        refine Or.inr ?_
        rw [halves, (register_added haddFd h.started.length reused hfind).1, hpending,
          List.map_append, List.map_singleton, hhalf]
        rfl
      | some old =>
        have hlookup : h₁.pending.lookup fd = some old := hfind
        refine Or.inl (shrinks_of_pending ?_)
        unfold register emplace find
        rw [haddFd, ← hpending]
        cases reused
        all_goals
          simp only [Bool.false_eq_true, if_false, if_true, hlookup]
          exact List.Sublist.refl _
  cases hconfigured : h.configured with
  | false =>
    rw [start_unconfigured hconfigured]
    exact Or.inl (shrinks_of_pending (List.Sublist.refl _))
  | true =>
    rcases hacquire : h.pool.acquire h.target c.connect with ⟨result, pool, closing⟩
    cases result with
    | failed error =>
      rw [start_failed hconfigured hacquire]
      exact Or.inl (shrinks_of_pending (List.Sublist.refl _))
    | acquired reused fd =>
      rw [start_acquired hconfigured hacquire]
      rcases hregister (h.afterAcquire c pool closing) rfl rfl reused fd with hshrinks | hadded
      · exact Or.inl hshrinks
      · exact Or.inr ⟨fd, reused, hadded⟩

/-- The bytes of request `ticket` that `send` takes during a call. -/
def sentOn (h : ProxyHandler) (ticket : ℕ) : Call → Bytes
  | .event fd generation .writable io => match h.find fd with
    | none => []
    | some request =>
      if request.generation = generation ∧ request.ticket = ticket then sentBy io request else []
  | _ => []

/-- A call sends nothing and ends requests, adds one, or advances the one whose descriptor became
writable. -/
inductive CallHalves (h : ProxyHandler) : Call → Prop where
  | shrinks {c : Call} : (∀ ticket, h.sentOn ticket c = []) → Shrinks h (h.call c) →
    CallHalves h c
  | added {c : Start} (fd : ℤ) (reused : Bool) :
    (h.start c).halves =
      h.halves ++ [(fd, half (h.pendingRequest c h.started.length reused fd))] →
    CallHalves h (.start c)
  | advanced {fd : ℤ} {generation : ℕ} {io : Io} (request : PendingRequest) :
    h.find fd = some request → request.generation = generation →
    (request.phase = .connecting → io.socketError = .none) →
    Shrinks (h.update fd fun _ => Lifecycle.advanced io request)
      (h.onUpstreamEvent fd generation .writable io) →
    CallHalves h (.event fd generation .writable io)

theorem onUpstreamEvent_current {generation : ℕ} (hfind : h.find fd = some request)
    (hgeneration : request.generation = generation) (event : EventType) (io : Io) :
    h.onUpstreamEvent fd generation event io = match event with
      | .writable => h.onWritable fd request io
      | .readable => if request.phase ≠ .reading then h else h.readAvailable fd io.now io.recvs
      | .hangup =>
        let h := h.readAvailable fd io.now io.recvs
        match h.find fd with
        | none => h
        | some request => h.atEof fd request io.now
      | .error => h.fail fd .badGateway (ascii "upstream socket error") := by
  unfold onUpstreamEvent
  rw [hfind]
  dsimp only
  refine (if_neg (not_not.mpr hgeneration)).trans ?_
  cases event <;> rfl

theorem call_halves (hkeys : (h.pending.map Prod.fst).Nodup) (c : Call) : CallHalves h c := by
  cases c with
  | start c =>
    rcases halves_start h c with hshrinks | ⟨fd, reused, hadded⟩
    · exact .shrinks (fun _ => rfl) hshrinks
    · exact .added fd reused hadded
  | sweep now => exact .shrinks (fun _ => rfl) (shrinks_sweepTimeouts h now)
  | refresh maxIdle idleTimeoutMs => exact .shrinks (fun _ => rfl) (Shrinks.refl h)
  | event fd generation event io =>
    have hstale : (∀ request, h.find fd = some request → request.generation ≠ generation) →
        CallHalves h (.event fd generation event io) := by
      intro hstale
      refine .shrinks (fun ticket => ?_) ?_
      · cases event with
        | writable =>
          cases hfind : h.find fd with
          | none => simp only [sentOn, hfind]
          | some request =>
            have hne : ¬(request.generation = generation ∧ request.ticket = ticket) := fun hsame =>
              hstale request hfind hsame.1
            simp only [sentOn, hfind, if_neg hne]
        | readable => rfl
        | hangup => rfl
        | error => rfl
      · show Shrinks h (h.onUpstreamEvent fd generation event io)
        rw [onUpstreamEvent_stale hstale]
        exact Shrinks.refl h
    cases hfind : h.find fd with
    | none =>
      refine hstale fun request hrequest => ?_
      rw [hfind] at hrequest
      cases hrequest
    | some request =>
      by_cases hgeneration : request.generation = generation
      · have hcall := onUpstreamEvent_current hfind hgeneration event io
        cases event with
        | writable =>
          by_cases hsocket : request.phase = .connecting ∧ io.socketError ≠ .none
          · refine .shrinks (fun ticket => ?_) ?_
            · simp only [sentOn, hfind, sentBy, if_pos hsocket, ite_self]
            · show Shrinks h (h.onUpstreamEvent fd generation .writable io)
              rw [hcall]
              exact onWritable_refused hsocket.1 hsocket.2
          · have hnone : request.phase = .connecting → io.socketError = .none := by
              intro hphase
              by_contra hne
              exact hsocket ⟨hphase, hne⟩
            refine .advanced request hfind hgeneration hnone ?_
            rw [hcall]
            exact shrinks_onWritable hkeys hfind hnone
        | readable =>
          refine .shrinks (fun _ => rfl) ?_
          show Shrinks h (h.onUpstreamEvent fd generation .readable io)
          rw [hcall]
          dsimp only
          split
          · exact Shrinks.refl h
          · exact shrinks_readAvailable h fd io.now io.recvs
        | hangup =>
          refine .shrinks (fun _ => rfl) ?_
          show Shrinks h (h.onUpstreamEvent fd generation .hangup io)
          rw [hcall]
          have hread := shrinks_readAvailable h fd io.now io.recvs
          dsimp only
          split
          · exact hread
          · exact hread.trans (shrinks_atEof _ fd _ io.now)
        | error =>
          refine .shrinks (fun _ => rfl) ?_
          show Shrinks h (h.onUpstreamEvent fd generation .error io)
          rw [hcall]
          exact shrinks_fail h fd _ _
      · refine hstale fun request' hrequest => ?_
        rw [hfind] at hrequest
        rw [← Option.some.inj hrequest]
        exact hgeneration

/-- The requests of an update. -/
theorem mem_halves_update {x : ℤ × Half} {r : PendingRequest}
    (hx : x ∈ (h.update fd fun _ => r).halves) : x = (fd, half r) ∨ x ∈ h.halves ∧ x.1 ≠ fd := by
  simp only [halves, update, List.map_map] at hx
  obtain ⟨e, he, rfl⟩ := List.mem_map.mp hx
  simp only [Function.comp_apply]
  split
  · exact Or.inl rfl
  · rename_i hne
    exact Or.inr ⟨List.mem_map.mpr ⟨e, he, rfl⟩, hne⟩

theorem mem_halves_find (hfind : h.find fd = some request) : (fd, half request) ∈ h.halves :=
  List.mem_map.mpr ⟨_, mem_of_lookup hfind, rfl⟩

end Shrinks

/-! ### Progress -/

/-- How far a request has come, where `request` is what it sends and `sent` what it has sent. -/
structure Progress (request : Bytes) (x : Half) (sent : Bytes) : Prop where
  connecting : x.phase = .connecting → x.requestBytes = request ∧ x.bytesWritten = 0 ∧ sent = []
  writing : x.phase = .writing → x.requestBytes = request ∧ x.bytesWritten ≤ request.length ∧
    sent = request.take x.bytesWritten
  reading : x.phase = .reading → sent = request

theorem Progress.front {request sent : Bytes} {x : Half} (hp : Progress request x sent) :
    sent <+: request := by
  cases hphase : x.phase with
  | connecting =>
    rw [(hp.connecting hphase).2.2]
    exact List.nil_prefix
  | writing =>
    rw [(hp.writing hphase).2.2]
    exact List.take_prefix _ _
  | reading => rw [hp.reading hphase]

/-- A flush goes on where the last one stopped. -/
theorem Progress.flushed {request sent : Bytes} {r : PendingRequest} {io : Io}
    (hp : Progress request (half r) sent) (hphase : r.phase = .writing)
    (hfit : SendsFit r.requestBytes.length r.bytesWritten io.sends) :
    Progress request (half (Lifecycle.flushed io r)) (sent ++ (r.requestBytes.drop r.bytesWritten).take
      ((sendLoop r.requestBytes.length r.bytesWritten io.sends).1 - r.bytesWritten)) := by
  obtain ⟨hrequest, hle, hsent⟩ := hp.writing hphase
  replace hrequest : r.requestBytes = request := hrequest
  replace hle : r.bytesWritten ≤ request.length := hle
  replace hsent : sent = request.take r.bytesWritten := hsent
  unfold Lifecycle.flushed
  rw [hrequest] at hfit ⊢
  obtain ⟨hfrom, hto, hdone⟩ := sendLoop_fits hle hfit
  rw [if_pos hphase]
  rcases hloop : sendLoop request.length r.bytesWritten io.sends with ⟨written, result⟩
  rw [hloop] at hfrom hto hdone
  dsimp only at hfrom hto hdone
  have hadd : sent ++ (request.drop r.bytesWritten).take (written - r.bytesWritten) =
      request.take written := by
    rw [hsent, ← List.take_add, Nat.add_sub_cancel' hfrom]
  cases result with
  | flushed =>
    refine ⟨fun h => ?_, fun h => ?_, fun _ => ?_⟩
    · cases h
    · cases h
    · dsimp only
      rw [hadd, show written = request.length from hdone rfl, List.take_length]
  | blocked =>
    refine ⟨fun h => ?_, fun _ => ⟨rfl, hto, hadd⟩, fun h => ?_⟩
    · cases hphase.symm.trans h
    · cases hphase.symm.trans h
  | failed reason =>
    refine ⟨fun h => ?_, fun _ => ⟨rfl, hto, hadd⟩, fun h => ?_⟩
    · cases hphase.symm.trans h
    · cases hphase.symm.trans h

theorem Progress.advanced {request sent : Bytes} {r : PendingRequest} {io : Io}
    (hp : Progress request (half r) sent) (hsocket : r.phase = .connecting → io.socketError = .none)
    (hfit : SendsFit r.requestBytes.length r.bytesWritten io.sends) :
    Progress request (half (Lifecycle.advanced io r)) (sent ++ sentBy io r) := by
  have hrefused : ¬(r.phase = .connecting ∧ io.socketError ≠ .none) := fun h => h.2 (hsocket h.1)
  unfold Lifecycle.advanced sentBy
  rw [if_neg hrefused]
  cases hphase : r.phase with
  | connecting =>
    obtain ⟨hrequest, hzero, hsent⟩ := hp.connecting hphase
    have hconnected : connected io r =
        { r with phase := .writing, deadline := deadlineAfter io.budget.readTimeoutMs io.now } :=
      if_pos hphase
    rw [hconnected, if_pos rfl]
    refine Progress.flushed ⟨fun h => ?_, fun _ => ⟨hrequest, ?_, ?_⟩, fun h => ?_⟩ rfl hfit
    · cases h
    · show r.bytesWritten ≤ request.length
      rw [show r.bytesWritten = 0 from hzero]
      exact Nat.zero_le _
    · show sent = request.take r.bytesWritten
      rw [show r.bytesWritten = 0 from hzero, hsent]
      rfl
    · cases h
  | writing =>
    have hconnected : connected io r = r := if_neg (by rw [hphase]; decide)
    rw [hconnected, if_pos hphase]
    exact hp.flushed hphase hfit
  | reading =>
    have hconnected : connected io r = r := if_neg (by rw [hphase]; decide)
    have hreading : ¬r.phase = .writing := by
      rw [hphase]
      decide
    rw [hconnected, if_neg hreading, Lifecycle.flushed, if_neg hreading, List.append_nil]
    exact hp

/-! ### Runs -/

/-- The calls of `start`. -/
def startCalls : List Call → List Start
  | [] => []
  | .start c :: calls => c :: startCalls calls
  | _ :: calls => startCalls calls

/-- The bytes of request `ticket` that `send` takes during a run. -/
def sentIn (h : ProxyHandler) (ticket : ℕ) : List Call → Bytes
  | [] => []
  | c :: calls => h.sentOn ticket c ++ sentIn (h.call c) ticket calls

/-- What `send` returns during a call is in order. -/
def SendsFitCall (h : ProxyHandler) : Call → Prop
  | .event fd _ .writable io => ∀ r, h.find fd = some r →
    SendsFit r.requestBytes.length r.bytesWritten io.sends
  | _ => True

def SendsFitRun (h : ProxyHandler) : List Call → Prop
  | [] => True
  | c :: calls => h.SendsFitCall c ∧ SendsFitRun (h.call c) calls

/-- `sent` is what has been sent for each ticket, `cs` are the calls of `start` so far. -/
structure Wired (target : ProxyTarget) (cs : List Start) (sent : ℕ → Bytes) (h : ProxyHandler) :
    Prop where
  upstream : h.target = target
  pending : ∀ x ∈ h.halves, ∃ c, cs[x.2.ticket]? = some c ∧
    Progress (buildUpstreamRequest c.request target c.options) x.2 (sent x.2.ticket)
  fronts : ∀ ticket c, cs[ticket]? = some c →
    sent ticket <+: buildUpstreamRequest c.request target c.options
  silent : ∀ ticket, cs.length ≤ ticket → sent ticket = []

section Wired
variable {target : ProxyTarget} {cs : List Start} {sent : ℕ → Bytes} {h : ProxyHandler}

theorem tickets_nodup {clients : List ℕ} (hs : Sound clients h) :
    (h.halves.map fun x => x.2.ticket).Nodup := by
  have hindices : (h.tickets.map Prod.snd).Nodup := by
    rw [(hs.tickets.map Prod.snd).nodup_iff, List.zipIdx_map_snd]
    exact List.nodup_range'
  rw [tickets, List.map_append, List.map_map, List.map_map] at hindices
  have hpending := hindices.of_append_right
  rw [halves, List.map_map]
  exact hpending

theorem getElem?_started {cs added : List Start} {ticket : ℕ} {c : Start}
    (h : cs[ticket]? = some c) : (cs ++ added)[ticket]? = some c := by
  rw [List.getElem?_append_left (List.getElem?_eq_some_iff.mp h).1]
  exact h

theorem Wired.extend (hw : Wired target cs sent h) (added : List Start) {h' : ProxyHandler}
    (htarget : h'.target = target)
    (hpending : ∀ x ∈ h'.halves, ∃ c, (cs ++ added)[x.2.ticket]? = some c ∧
      Progress (buildUpstreamRequest c.request target c.options) x.2 (sent x.2.ticket)) :
    Wired target (cs ++ added) sent h' := by
  refine ⟨htarget, hpending, fun ticket c hc => ?_, fun ticket hticket => ?_⟩
  · by_cases hold : ticket < cs.length
    · rw [List.getElem?_append_left hold] at hc
      exact hw.fronts ticket c hc
    · rw [hw.silent ticket (Nat.le_of_not_lt hold)]
      exact List.nil_prefix
  · rw [List.length_append] at hticket
    exact hw.silent ticket (by omega)

theorem progress_new (request : Bytes) {x : Half} (hphase : x.phase ≠ .reading)
    (hrequest : x.requestBytes = request) (hwritten : x.bytesWritten = 0) :
    Progress request x [] := by
  refine ⟨fun _ => ⟨hrequest, hwritten, rfl⟩, fun _ => ⟨hrequest, ?_, ?_⟩, fun h => ?_⟩
  · rw [hwritten]
    exact Nat.zero_le _
  · rw [hwritten]
    rfl
  · exact absurd h hphase

theorem Wired.started (hw : Wired target cs sent h) (hlength : h.started.length = cs.length)
    {c : Start} {fd : ℤ} {reused : Bool} (htarget : (h.start c).target = target)
    (hadded : (h.start c).halves =
      h.halves ++ [(fd, half (h.pendingRequest c h.started.length reused fd))]) :
    Wired target (cs ++ [c]) sent (h.start c) := by
  refine hw.extend [c] htarget fun x hx => ?_
  rw [hadded, List.mem_append, List.mem_singleton] at hx
  rcases hx with hx | hx
  · obtain ⟨c', hc', hprogress⟩ := hw.pending x hx
    exact ⟨c', getElem?_started hc', hprogress⟩
  · have hticket : x.2.ticket = cs.length := by
      rw [hx, ← hlength]
      rfl
    refine ⟨c, by rw [hticket, List.getElem?_concat_length], ?_⟩
    rw [hticket, hw.silent _ (Nat.le_refl _), hx, ← hw.upstream]
    refine progress_new _ ?_ rfl rfl
    show (if reused then Phase.writing else Phase.connecting) ≠ .reading
    cases reused <;> decide

/-- The request that advances has sent more; no other request has its ticket. -/
theorem Wired.advanced (hw : Wired target cs sent h)
    (hs : Sound (cs.map Start.clientConnectionId) h) {fd : ℤ} {request : PendingRequest} {io : Io}
    {h' : ProxyHandler} (hfind : h.find fd = some request)
    (hsocket : request.phase = .connecting → io.socketError = .none)
    (hfit : SendsFit request.requestBytes.length request.bytesWritten io.sends)
    (htarget : h'.target = target)
    (hshrinks : Shrinks (h.update fd fun _ => Lifecycle.advanced io request) h') :
    Wired target cs (fun ticket => sent ticket ++
      if request.ticket = ticket then sentBy io request else []) h' := by
  have hmem := mem_halves_find hfind
  obtain ⟨c, hc, hprogress⟩ := hw.pending _ hmem
  have hadvanced : Progress (buildUpstreamRequest c.request target c.options)
      (half (Lifecycle.advanced io request)) (sent request.ticket ++ sentBy io request) :=
    hprogress.advanced hsocket hfit
  have hticket := advanced_ticket io request
  rw [show (Lifecycle.advanced io request).ticket = (half (Lifecycle.advanced io request)).ticket
    from rfl] at hticket
  have hother : ∀ x ∈ h.halves, x.1 ≠ fd → request.ticket ≠ x.2.ticket := by
    intro x hx hne hsame
    have heq := List.inj_on_of_nodup_map (tickets_nodup hs) hx hmem hsame.symm
    exact hne (congrArg Prod.fst heq)
  refine ⟨htarget, fun x hx => ?_, fun ticket c' hc' => ?_, fun ticket hlarge => ?_⟩
  · rcases mem_halves_update (hshrinks.subset hx) with rfl | ⟨hold, hne⟩
    · refine ⟨c, ?_, ?_⟩
      · rw [hticket]
        exact hc
      · dsimp only
        rw [hticket, if_pos rfl]
        exact hadvanced
    · obtain ⟨c', hc', hprogress'⟩ := hw.pending x hold
      refine ⟨c', hc', ?_⟩
      rw [if_neg (hother x hold hne), List.append_nil]
      exact hprogress'
  · split
    · rename_i hsame
      rw [← hsame] at hc' ⊢
      obtain rfl : c = c' := Option.some.inj (hc.symm.trans hc')
      exact hadvanced.front
    · rw [List.append_nil]
      exact hw.fronts ticket c' hc'
  · have hne : request.ticket ≠ ticket := by
      intro hsame
      have hlt := (List.getElem?_eq_some_iff.mp hc).1
      replace hlt : request.ticket < cs.length := hlt
      omega
    rw [if_neg hne, List.append_nil]
    exact hw.silent ticket hlarge

theorem Wired.call (hw : Wired target cs sent h) (hs : Sound (cs.map Start.clientConnectionId) h)
    {c : Call} (hfit : h.SendsFitCall c) (htarget : (h.call c).target = target) :
    Wired target (cs ++ startCalls [c]) (fun ticket => sent ticket ++ h.sentOn ticket c)
      (h.call c) := by
  have hquiet : (∀ ticket, h.sentOn ticket c = []) →
      (fun ticket => sent ticket ++ h.sentOn ticket c) = sent := by
    intro hnone
    funext ticket
    rw [hnone ticket, List.append_nil]
  cases call_halves hs.keys c with
  | shrinks hnone hshrinks =>
    rw [hquiet hnone]
    refine hw.extend _ htarget fun x hx => ?_
    obtain ⟨c', hc', hprogress⟩ := hw.pending x (hshrinks.subset hx)
    exact ⟨c', getElem?_started hc', hprogress⟩
  | added fd reused hadded =>
    have hlength : h.started.length = cs.length := by
      rw [hs.started, List.length_map]
    rw [hquiet fun _ => rfl]
    exact hw.started hlength htarget hadded
  | advanced request hfind hgeneration hsocket hshrinks =>
    have hnext := hw.advanced hs hfind hsocket (hfit request hfind) htarget hshrinks
    simpa only [sentOn, hfind, hgeneration, true_and, startCalls, List.append_nil] using hnext

theorem Sound.call {clients : List ℕ} (hs : Sound clients h) {c : Call} {calls : List Call}
    (hfresh : h.FreshRun (c :: calls)) :
    Sound (clients ++ (startCalls [c]).map Start.clientConnectionId) (h.call c) ∧
      (h.call c).FreshRun calls := by
  cases c with
  | start c => exact ⟨hs.start hfresh.1, hfresh.2⟩
  | event fd generation event io =>
    simp only [startCalls, List.map_nil, List.append_nil]
    exact ⟨(stepInvariant_sound clients).onUpstreamEvent fd generation event io hs, hfresh⟩
  | sweep now =>
    simp only [startCalls, List.map_nil, List.append_nil]
    exact ⟨hs.sweepTimeouts now, hfresh⟩
  | refresh maxIdle idleTimeoutMs =>
    simp only [startCalls, List.map_nil, List.append_nil]
    exact ⟨⟨hs.keys, hs.connection, hs.apart, hs.idle, hs.tickets, hs.started, hs.counters⟩, hfresh⟩

theorem target_call (h : ProxyHandler) (c : Call) : (h.call c).target = h.target := by
  cases c with
  | start c => exact ((SetUp.refl h).start c).target
  | event fd generation event io =>
    exact ((stepInvariant_setUp h).onUpstreamEvent fd generation event io (SetUp.refl h)).target
  | sweep now => exact ((SetUp.refl h).sweepTimeouts now).target
  | refresh maxIdle idleTimeoutMs => rfl

theorem Wired.run (hw : Wired target cs sent h) (hs : Sound (cs.map Start.clientConnectionId) h)
    {calls : List Call} (hfresh : h.FreshRun calls) (hfit : h.SendsFitRun calls) :
    Wired target (cs ++ startCalls calls) (fun ticket => sent ticket ++ h.sentIn ticket calls)
      (h.run calls) := by
  induction calls generalizing h cs sent with
  | nil =>
    simp only [startCalls, sentIn, List.append_nil]
    exact hw
  | cons c calls ih =>
    have htarget := (target_call h c).trans hw.upstream
    obtain ⟨hsound, hrest⟩ := hs.call hfresh
    rw [← List.map_append] at hsound
    have hnext := ih (hw.call hs hfit.1 htarget) hsound hrest hfit.2
    have hstarts : startCalls (c :: calls) = startCalls [c] ++ startCalls calls := by
      cases c <;> rfl
    simp only [List.append_assoc, ← hstarts] at hnext
    exact hnext

end Wired

/-- In every run, what the upstream has been sent for a request is a front of the request that was
built for it: nothing before it is connected, the bytes that count as written while it is written,
and all of it once its response is awaited. -/
theorem request_sent (target : Except Bytes ProxyTarget) (maxIdle idleTimeoutMs : ℕ)
    (calls : List Call) (hfresh : (new target maxIdle idleTimeoutMs).FreshRun calls)
    (hfit : (new target maxIdle idleTimeoutMs).SendsFitRun calls) :
    let h₀ := new target maxIdle idleTimeoutMs
    ∀ ticket c, (startCalls calls)[ticket]? = some c →
      let request := buildUpstreamRequest c.request h₀.target c.options
      let sent := h₀.sentIn ticket calls
      sent <+: request ∧ ∀ e ∈ (h₀.run calls).pending, e.2.ticket = ticket →
        (e.2.phase = .connecting → sent = []) ∧
        (e.2.phase = .writing → sent = request.take e.2.bytesWritten) ∧
        (e.2.phase = .reading → sent = request) := by
  intro h₀ ticket c hc request sent
  have hnew : Wired h₀.target [] (fun _ => []) h₀ := by
    refine ⟨rfl, fun x hx => ?_, fun ticket c hc => ?_, fun _ _ => rfl⟩
    · cases hx
    · cases hc
  have hwired := hnew.run (sound_new target maxIdle idleTimeoutMs) hfresh hfit
  refine ⟨hwired.fronts ticket c hc, fun e he hticket => ?_⟩
  obtain ⟨c', hc', hprogress⟩ := hwired.pending _ (List.mem_map.mpr ⟨e, he, rfl⟩)
  replace hc' : (startCalls calls)[e.2.ticket]? = some c' := hc'
  rw [hticket] at hc'
  obtain rfl : c = c' := Option.some.inj (hc.symm.trans hc')
  replace hprogress : Progress request (half e.2) (h₀.sentIn e.2.ticket calls) := hprogress
  rw [hticket] at hprogress
  exact ⟨fun h => (hprogress.connecting h).2.2, fun h => (hprogress.writing h).2.2,
    hprogress.reading⟩

/-- The connect is over and the socket takes three bytes of the request. -/
def threeBytes : List Call :=
  let budget : Budget := ⟨0, 0, 0⟩
  [.start ⟨1, {}, {}, budget, 0, .started 5, true⟩,
    .event 5 1 .writable { now := 0, budget, sends := [.sent 3, .again] }]

theorem request_sent_three :
    (new (.ok ⟨[], 80⟩) 4 60000).sentIn 0 threeBytes <+:
      buildUpstreamRequest {} ⟨[], 80⟩ {} := by
  have hfresh : (new (.ok ⟨[], 80⟩) 4 60000).FreshRun threeBytes := by
    refine ⟨fun fd hfd => ?_, trivial⟩
    cases hfd
    decide
  have hfit : (new (.ok ⟨[], 80⟩) 4 60000).SendsFitRun threeBytes := by
    refine ⟨trivial, fun r hr => ?_, trivial⟩
    cases hr
    exact ⟨by decide, trivial⟩
  exact (request_sent (.ok ⟨[], 80⟩) 4 60000 threeBytes hfresh hfit 0 _ rfl).1

end ProxyHandler
end Aevrix.Proxy.Lifecycle
