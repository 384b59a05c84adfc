import Aevrix.Proxy.Handler

/-!
# Reuse of upstream connections

`upstream_keep_alive` looks at the framing and at `close` only. What has been received
behind the message is dropped by `finish_message` and does not count, nor does the
version of the response: `reuse_clean_iff` says when a connection that goes back to the
pool is at a clean message boundary all the same.
-/

namespace Aevrix.Proxy
open Aevrix.Http Incremental ProxyResponseParser ProxyResponseParser.Core

/-! ### Where a message ends -/

theorem responseMachine_exact : responseMachine.Exact := by
  intro c u c' u' h
  change c.step u = some (c', u') at h
  change ∃ w, u = w ++ u' ∧ c.step w = some (c', [])
  rcases c.reads_cases with hl | hs | hs | hs | hh
  · rw [step_line hl] at h
    obtain ⟨⟨line, r⟩, hline, hx⟩ := Option.map_eq_some_iff.mp h
    simp only [Prod.mk.injEq] at hx
    obtain ⟨rfl, rfl⟩ := hx
    obtain ⟨hu, hcrlf⟩ := Lines.splitPair_some hline
    refine ⟨line ++ crlf ++ [], by rw [hu]; simp, ?_⟩
    rw [step_line hl, splitLine_append_crlf hcrlf, Option.map_some]
  · simp only [step, hs, stepBody] at h ⊢
    split at h
    · rename_i hz
      simp only [Option.some.injEq, Prod.mk.injEq] at h
      exact ⟨[], by rw [h.2]; rfl, by rw [if_pos hz, h.1]⟩
    · rename_i hz
      cases u with
      | nil => cases h
      | cons b t =>
        simp only [Option.some.injEq, Prod.mk.injEq] at h
        exact ⟨[b], by rw [← h.2]; rfl, by rw [if_neg hz, ← h.1]⟩
  · simp only [step, hs, stepChunkData] at h ⊢
    split at h
    · rename_i hz
      simp only [Option.some.injEq, Prod.mk.injEq] at h
      exact ⟨[], by rw [h.2]; rfl, by rw [if_pos hz, h.1]⟩
    · rename_i hz
      cases u with
      | nil => cases h
      | cons b t =>
        simp only [Option.some.injEq, Prod.mk.injEq] at h
        exact ⟨[b], by rw [← h.2]; rfl, by rw [if_neg hz, ← h.1]⟩
  · simp only [step, hs] at h ⊢
    obtain ⟨a, b, rfl, rfl⟩ := stepChunkCrlf_cases h
    exact ⟨[a, b], rfl, rfl⟩
  · rw [step_halted hh] at h
    cases h

/-- No proper front of `s` is a complete response. -/
def EndsHere (config : Config) (s : Bytes) : Prop := ∀ t, t <+: s → t ≠ s →
  (responseMachine.drain (Core.fresh config) t).1.state ≠ .complete

/-- What is left of the feeds behind the response: the receive buffer `finish_message`
empties, and what is fed later. -/
def surplus (config : Config) (ds : List Bytes) : Bytes :=
  (responseMachine.drain (Core.fresh config) ds.flatten).2

theorem drain_of_complete {config : Config} {ds : List Bytes}
    (h : (run config ds).state = .complete) : (run config ds).outcome =
      (responseMachine.drain (Core.fresh config) ds.flatten).1.outcome :=
  (run_drain_or_error config ds).resolve_right fun he => absurd (h.symm.trans he) (by decide)

theorem endsHere_iff {config : Config} {ds : List Bytes}
    (h : (responseMachine.drain (Core.fresh config) ds.flatten).1.state = .complete) :
    EndsHere config ds.flatten ↔ surplus config ds = [] := by
  constructor
  · intro he
    obtain ⟨w, hw, hdrain⟩ := responseMachine_exact.drain_front (Core.fresh config) ds.flatten
    rw [drain_halted (Or.inl h)] at hdrain
    by_contra hs
    refine he w ⟨_, hw.symm⟩ (fun heq => hs ?_) (by rw [hdrain]; exact h)
    rw [heq] at hw
    exact List.append_right_eq_self.mp hw.symm
  · rintro hs t ⟨x, hx⟩ hne hdone
    have hx0 : x ≠ [] := fun h0 => hne (by rw [← hx, h0, List.append_nil])
    have hrest := Machine.drain_append_dead (M := responseMachine) (s := Core.fresh config) (u := t) x
      (fun w => step_halted (Or.inl hdone) w)
    rw [surplus, ← hx, hrest] at hs
    exact hx0 (List.append_eq_nil_iff.mp hs).2

/-! ### The head of the final response -/

/-- The last status line read and the field lines behind it. -/
structure HeadLines where
  statusLine : Bytes
  fields : List Bytes

namespace HeadLines

/-- The lines after the parser has read on from `u`. -/
def note (log : HeadLines) (c : Core) (u : Bytes) : HeadLines := match splitLine u with
  | none => log
  | some (line, _) => match c.state with
    | .statusLine => ⟨line, []⟩
    | .headers => if line = [] then log else ⟨log.statusLine, log.fields ++ [line]⟩
    | _ => log

theorem note_eq_self (log : HeadLines) {c : Core} (u : Bytes) (h1 : c.state ≠ .statusLine)
    (h2 : c.state ≠ .headers) : log.note c u = log := by
  unfold note
  split
  · rfl
  · split
    · exact (h1 ‹_›).elim
    · exact (h2 ‹_›).elim
    · rfl

def version (log : HeadLines) : Bytes := log.statusLine.takeWhile (· != 32)

/-- A `Connection` field line with the token in its list. -/
def lineNames (token line : Bytes) : Bool :=
  HttpHeader.normalizeName (line.takeWhile (· != 58)) == ascii "connection" &&
    containsToken (trimOws ((line.dropWhile (· != 58)).drop 1)) token

/-- A `Connection` field of the head has the token. -/
def names (log : HeadLines) (token : Bytes) : Bool := log.fields.any (lineNames token)

end HeadLines

/-- The head lines of the last response in `s`, as the parser comes to read them. -/
def headRead (config : Config) (s : Bytes) : HeadLines :=
  (responseMachine.visited (Core.fresh config) s).foldl (fun log y => log.note y.1 y.2) ⟨[], []⟩

/-- Behind a status line its version is one of the two known, and a `close` in the head is
remembered. -/
def Logged (c : Core) (log : HeadLines) : Prop := c.state = .error ∨
  (c.state ≠ .statusLine → log.version = ascii "HTTP/1.1" ∨ log.version = ascii "HTTP/1.0") ∧
    (log.names (ascii "close") = true → c.closeRequested = true)

theorem statusLineText_logged (c : Core) (line : Bytes) :
    Logged (c.statusLineText line) ⟨line, []⟩ := by
  unfold Logged HeadLines.version HeadLines.names statusLineText Core.fail
  simp only [List.any_nil, Bool.false_eq_true, false_imp_iff, and_true]
  grind

/-- A field is refused, or only a `close` in `Connection` asks for the end of the connection. -/
theorem storeField_close (c : Core) (name value : Bytes) :
    (c.storeField name value).state = .error ∨
    (c.storeField name value).state = c.state ∧ (c.storeField name value).closeRequested =
      (c.closeRequested || (HttpHeader.normalizeName name == ascii "connection" &&
        containsToken value (ascii "close"))) := by
  simp only [storeField]
  split
  · rename_i hk
    have hne : (HttpHeader.normalizeName name == ascii "connection") = false :=
      beq_false_of_ne (by rw [hk]; decide)
    rw [hne, Bool.false_and, Bool.or_false]
    unfold contentLengthField Core.fail
    grind
  split
  · rename_i hk
    have hne : (HttpHeader.normalizeName name == ascii "connection") = false :=
      beq_false_of_ne (by rw [hk]; decide)
    rw [hne, Bool.false_and, Bool.or_false]
    unfold transferEncodingField Core.fail
    grind
  split
  · rename_i hk
    rw [hk, beq_self_eq_true, Bool.true_and]
    exact Or.inr ⟨rfl, rfl⟩
  · rename_i hk
    rw [beq_false_of_ne hk, Bool.false_and, Bool.or_false]
    exact Or.inr ⟨rfl, rfl⟩

theorem headerLineText_close (c : Core) (line : Bytes) : (c.headerLineText line).state = .error ∨
    (c.headerLineText line).state = c.state ∧ (c.headerLineText line).closeRequested =
      (c.closeRequested || HeadLines.lineNames (ascii "close") line) := by
  simp only [headerLineText]
  split
  · exact Or.inl rfl
  split
  · exact Or.inl rfl
  split
  · exact Or.inl rfl
  split
  · exact Or.inl rfl
  · exact storeField_close ..

theorem headerLineText_logged {c : Core} {log : HeadLines} (hs : c.state = .headers)
    (h : Logged c log) (line : Bytes) :
    Logged (c.headerLineText line) ⟨log.statusLine, log.fields ++ [line]⟩ := by
  rcases headerLineText_close c line with he | ⟨hstate, hclose⟩
  · exact Or.inl he
  rcases h with he | ⟨hversion, hnames⟩
  · exact absurd (hs.symm.trans he) (by decide)
  refine Or.inr ⟨fun _ => hversion (by rw [hs]; decide), fun h => ?_⟩
  rw [hclose, Bool.or_eq_true]
  rw [HeadLines.names, List.any_append, List.any_cons, List.any_nil, Bool.or_false,
    Bool.or_eq_true] at h
  exact h.imp hnames id

theorem Logged.keep {c c' : Core} {log : HeadLines} (h : Logged c log) (hs : c.state ≠ .statusLine)
    (hne : c.state ≠ .error) (hclose : c'.closeRequested = c.closeRequested) : Logged c' log := by
  rcases h with he | ⟨hversion, hnames⟩
  · exact (hne he).elim
  · exact Or.inr ⟨fun _ => hversion hs, fun h => hclose.trans (hnames h)⟩

theorem step_logged {c c' : Core} {u u' : Bytes} {log : HeadLines} (h : Logged c log)
    (hstep : c.step u = some (c', u')) : Logged c' (log.note c u) := by
  rcases c.reads_cases with hl | hs | hs | hs | hh
  · rw [step_line hl] at hstep
    obtain ⟨⟨line, r⟩, hline, hx⟩ := Option.map_eq_some_iff.mp hstep
    simp only [Prod.mk.injEq] at hx
    rw [← hx.1, HeadLines.note, hline]
    rcases hl with hs | hs | hs | hs
    · simp only [onLine, hs]
      exact statusLineText_logged c line
    · simp only [onLine, hs]
      split
      · refine h.keep (by rw [hs]; decide) (by rw [hs]; decide) ?_
        unfold endOfHeaders decideFraming Core.fail Core.finishMessage
        grind
      · exact headerLineText_logged hs h line
    · simp only [onLine, hs]
      refine h.keep (by rw [hs]; decide) (by rw [hs]; decide) ?_
      unfold chunkSizeText Core.fail
      grind
    · simp only [onLine, hs]
      refine h.keep (by rw [hs]; decide) (by rw [hs]; decide) ?_
      split
      · rfl
      · unfold trailerLineText Core.fail
        grind
  · rw [log.note_eq_self u (by rw [hs]; decide) (by rw [hs]; decide)]
    refine h.keep (by rw [hs]; decide) (by rw [hs]; decide) ?_
    simp only [step, hs] at hstep
    rcases stepBody_cases hstep with ⟨rfl, -⟩ | ⟨b, -, rfl⟩
    · rfl
    · unfold bodyByte bodyLimit Core.fail Core.finishMessage
      grind
  · rw [log.note_eq_self u (by rw [hs]; decide) (by rw [hs]; decide)]
    refine h.keep (by rw [hs]; decide) (by rw [hs]; decide) ?_
    simp only [step, hs] at hstep
    rcases stepChunkData_cases hstep with ⟨rfl, -⟩ | ⟨b, -, rfl⟩
    · rfl
    · unfold chunkByte bodyLimit Core.fail
      grind
  · rw [log.note_eq_self u (by rw [hs]; decide) (by rw [hs]; decide)]
    refine h.keep (by rw [hs]; decide) (by rw [hs]; decide) ?_
    simp only [step, hs] at hstep
    obtain ⟨a, b, -, rfl⟩ := stepChunkCrlf_cases hstep
    unfold chunkCrlf
    split <;> rfl
  · rw [step_halted hh] at hstep
    cases hstep

theorem drain_logged (c : Core) (u : Bytes) (log : HeadLines) (h : Logged c log) :
    Logged (responseMachine.drain c u).1
      ((responseMachine.visited c u).foldl (fun log y => log.note y.1 y.2) log) := by
  induction c, u using Machine.run_induction (M := responseMachine) generalizing log with
  | blocked c u hb =>
    rw [drain_blocked hb, Machine.visited_none hb, List.foldl_cons, List.foldl_nil]
    have hlog : log.note c u = log := by
      by_cases hl : c.ReadsLine
      · change c.step u = none at hb
        rw [step_line hl, Option.map_eq_none_iff] at hb
        rw [HeadLines.note, hb]
      · exact log.note_eq_self u (fun hs => hl (Or.inl hs)) fun hs => hl (Or.inr (Or.inl hs))
    rw [hlog]
    exact h
  | progress c u c' u' hs ih =>
    rw [drain_step hs, Machine.visited_some hs, List.foldl_cons]
    exact ih _ (step_logged h hs)

/-! ### Clean message boundaries -/

/-- Nothing behind the response was fed, the response is self-delimited, and its sender
keeps the connection: HTTP/1.1 without `close`, or HTTP/1.0 with `keep-alive`. -/
structure CleanBoundary (config : Config) (ds : List Bytes) : Prop where
  ends : EndsHere config ds.flatten
  delimited : (run config ds).framing ≠ .untilClose
  persistent :
    (headRead config ds.flatten).version = ascii "HTTP/1.1" ∧
        (headRead config ds.flatten).names (ascii "close") = false ∨
      (headRead config ds.flatten).version = ascii "HTTP/1.0" ∧
        (headRead config ds.flatten).names (ascii "keep-alive") = true

/-- The response may be reused, and a descriptor on which it was received may go to the
pool, at a clean boundary only. -/
def ReuseIsClean (config : Config) (ds : List Bytes) : Prop :=
  ((run config ds).isComplete = true → (run config ds).upstreamKeepAlive = true →
    CleanBoundary config ds) ∧
  ∀ (h : ProxyHandler) (fd : ℤ) (request : PendingRequest) (now : ℕ), h.find fd = some request →
    request.parser = run config ds → request.connection ∉ h.pool.descriptors →
    request.connection ∈
      (h.complete fd (outcomeFromParser request.parser) now).pool.descriptors →
    CleanBoundary config ds

/-! ### The handler -/

namespace ProxyHandler
variable {h : ProxyHandler} {fd : ℤ} {request : PendingRequest}

theorem find_setParser (hfind : h.find fd = some request) (parser : ProxyResponseParser) :
    (h.setParser fd parser).find fd = some { request with parser } := by
  unfold find setParser at *
  generalize h.pending = pending at hfind ⊢
  induction pending with
  | nil => cases hfind
  | cons e rest ih =>
    obtain ⟨k, r⟩ := e
    by_cases hk : k = fd
    · subst hk
      simp only [List.lookup_cons_self, Option.some.injEq] at hfind
      simp [hfind]
    · have hne : (fd == k) = false := beq_false_of_ne (Ne.symm hk)
      simp only [List.lookup_cons, hne] at hfind
      simpa [hk, List.lookup_cons, hne] using ih hfind

theorem fail_pool (status : ProxyOutcomeStatus) (message : Bytes) :
    (h.fail fd status message).pool = h.pool := by
  unfold fail
  split <;> rfl

end ProxyHandler

/-- `complete` gives a descriptor to the pool only where the parser allows its reuse. -/
theorem pooled_keepAlive {h : ProxyHandler} {fd : ℤ} {request : PendingRequest}
    {outcome : ProxyOutcome} {now : ℕ} (hfind : h.find fd = some request)
    (hnot : request.connection ∉ h.pool.descriptors)
    (hpool : request.connection ∈ (h.complete fd outcome now).pool.descriptors) :
    request.parser.upstreamKeepAlive = true := by
  by_contra hk
  refine hnot ?_
  simpa [ProxyHandler.complete, hfind, hk, ProxyHandler.erase] using hpool

theorem upstreamKeepAlive_spec {c : Core} (h : c.upstreamKeepAlive = true) :
    c.state = .complete ∧ c.closeRequested = false ∧ c.framing ≠ .untilClose := by
  unfold upstreamKeepAlive at h
  grind

/-- At the end of the stream only a response that was complete already is reusable. -/
theorem finishOnEof_keepAlive {p : ProxyResponseParser}
    (h : p.finishOnEof.2.upstreamKeepAlive = true) : p.upstreamKeepAlive = true := by
  rw [(finishOnEof_outcome p).1] at h
  obtain ⟨hs, -, hf⟩ := upstreamKeepAlive_spec h
  unfold Core.eof at h hs hf
  split at h
  · exact h
  · split at h
    · rename_i hopen
      simp only [hopen, and_self, if_true] at hf
      split at hf
      · rename_i hhalted
        exact absurd hhalted ‹_›
      · exact absurd hopen.2 hf
    · cases h

/-- While a response is read its descriptor goes to the pool only once the parser is
Complete on the bytes received and allows the reuse. -/
theorem readAvailable_pools (config : Config) (now : ℕ) (fd : ℤ) (results : List Recv)
    (h : ProxyHandler) (request : PendingRequest) (ds : List Bytes)
    (hfind : h.find fd = some request) (hp : request.parser = run config ds)
    (hnot : request.connection ∉ h.pool.descriptors)
    (hpool : request.connection ∈ (h.readAvailable fd now results).pool.descriptors) :
    ∃ es, (run config (ds ++ es)).upstreamKeepAlive = true := by
  induction results generalizing h request ds with
  | nil => exact (hnot hpool).elim
  | cons result results ih =>
    simp only [ProxyHandler.readAvailable, hfind] at hpool
    cases result with
    | again => exact (hnot hpool).elim
    | interrupted => exact ih h request ds hfind hp hnot hpool
    | failed reason =>
      simp only [ProxyHandler.fail_pool] at hpool
      exact (hnot hpool).elim
    | data bytes =>
      have hset := ProxyHandler.find_setParser hfind
      cases bytes with
      | nil =>
        simp only [ProxyHandler.atEof] at hpool
        split at hpool
        · refine ⟨[], ?_⟩
          have hkeep := pooled_keepAlive (hset request.parser.finishOnEof.2) hnot hpool
          rw [List.append_nil, ← hp]
          exact finishOnEof_keepAlive hkeep
        · rw [ProxyHandler.fail_pool] at hpool
          exact (hnot hpool).elim
      | cons b t =>
        have hfeed : request.parser.feed (b :: t) = run config (ds ++ [b :: t]) := by
          rw [hp, run, run, List.foldl_append, List.foldl_cons, List.foldl_nil]
        simp only at hpool
        split at hpool
        · rw [ProxyHandler.fail_pool] at hpool
          exact (hnot hpool).elim
        split at hpool
        · have hkeep := pooled_keepAlive (hset (request.parser.feed (b :: t))) hnot hpool
          rw [hfeed] at hkeep
          exact ⟨[b :: t], hkeep⟩
        split at hpool
        · exact (hnot hpool).elim
        · obtain ⟨es, hes⟩ := ih _ _ (ds ++ [b :: t]) (hset _) hfeed hnot hpool
          exact ⟨(b :: t) :: es, by rwa [List.append_assoc] at hes⟩

/-- **When reuse is clean.** Of a response that may be reused the parser has seen neither
`close` nor an open end. It is at a clean boundary exactly where nothing is left of the
feeds behind it and it is HTTP/1.1 or says `keep-alive`. -/
theorem reuse_clean_iff (config : Config) (ds : List Bytes)
    (hdone : (run config ds).isComplete = true) (hkeep : (run config ds).upstreamKeepAlive = true) :
    ReuseIsClean config ds ↔ surplus config ds = [] ∧
      ((headRead config ds.flatten).version = ascii "HTTP/1.1" ∨
        (headRead config ds.flatten).names (ascii "keep-alive") = true) := by
  obtain ⟨hstate, -, hframing⟩ := upstreamKeepAlive_spec hkeep
  have hout := drain_of_complete hstate
  have hdrain : (responseMachine.drain (Core.fresh config) ds.flatten).1.state = .complete :=
    (congrArg Outcome.state hout).symm.trans hstate
  have hreuse : (responseMachine.drain (Core.fresh config) ds.flatten).1.upstreamKeepAlive = true :=
    (congrArg Outcome.upstreamKeepAlive hout).symm.trans hkeep
  have hclosed := (upstreamKeepAlive_spec hreuse).2.1
  have hends := endsHere_iff hdrain
  have hlogged : Logged (responseMachine.drain (Core.fresh config) ds.flatten).1
      (headRead config ds.flatten) := drain_logged (Core.fresh config) ds.flatten ⟨[], []⟩
    (Or.inr ⟨fun h => (h rfl).elim, fun h => by cases h⟩)
  constructor
  · rintro ⟨hparser, -⟩
    obtain ⟨he, -, hp⟩ := hparser hdone hkeep
    exact ⟨hends.mp he, hp.imp And.left And.right⟩
  · rintro ⟨hsurplus, hpersistent⟩
    have hclean : CleanBoundary config ds := by
      refine ⟨hends.mpr hsurplus, hframing, ?_⟩
      rcases hlogged with herr | ⟨hversion, hnames⟩
      · exact absurd (hdrain.symm.trans herr) (by decide)
      have hnoclose : (headRead config ds.flatten).names (ascii "close") = false := by
        by_contra h
        rw [hnames (Bool.not_eq_false _ ▸ h)] at hclosed
        cases hclosed
      rcases hversion (by rw [hdrain]; decide) with hv | hv
      · exact Or.inl ⟨hv, hnoclose⟩
      · refine Or.inr ⟨hv, hpersistent.resolve_left fun h => ?_⟩
        rw [hv] at h
        exact absurd h (by decide)
    exact ⟨fun _ _ => hclean, fun _ _ _ _ _ _ _ _ => hclean⟩

/-- A response that ends with its feed is at a clean boundary. -/
theorem reuse_clean_iff_exact :
    ReuseIsClean {} [ascii "HTTP/1.1 200 OK\r\nContent-Length: 2\r\n\r\nhi"] :=
  (reuse_clean_iff {} _ (by decide) (by decide)).mpr
    ⟨by decide, by decide⟩

/-- The response and the beginning of another one in one feed. -/
def surplusFeed : Bytes := ascii "HTTP/1.1 200 OK\r\nContent-Length: 2\r\n\r\nhiHTTP/1.1 200 OK\r\n"

/-- With bytes behind it the response is reusable all the same, and a descriptor on which
they were received goes to the pool. -/
theorem surplus_reused : (run {} [surplusFeed]).isComplete = true ∧
    (run {} [surplusFeed]).upstreamKeepAlive = true ∧ ¬ReuseIsClean {} [surplusFeed] ∧
    ∃ h : ProxyHandler, ∃ request, h.find 7 = some request ∧
      request.parser = run {} [] ∧ 7 ∉ h.pool.descriptors ∧
      7 ∈ (h.readAvailable 7 0 [.data surplusFeed]).pool.descriptors := by
  refine ⟨by decide, by decide, fun h => ?_, ?_⟩
  · have hclean := h.1 (by decide) (by decide)
    exact hclean.ends (surplusFeed.take 40) (by decide) (by decide)
      (by decide)
  · refine ⟨⟨[(7, ⟨1, 7, ⟨ascii "up", 80⟩, run {} [], false⟩)], { maxIdlePerTarget := 8 }, 0, 0, [], []⟩, _, rfl, rfl,
      by decide, ?_⟩
    decide

end Aevrix.Proxy
