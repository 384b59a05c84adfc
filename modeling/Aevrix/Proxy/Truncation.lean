import Aevrix.Proxy.ResponseMessage

/-!
# Truncated responses

A response with a declared end is complete with its last byte and not before.
Whatever the limits, a run through such a response ends in an error or, with nothing
left, in Complete (`whole_response`); so a proper front of it is never Complete, and
the end of the connection turns it into an error.
-/

namespace Aevrix.Proxy
open Aevrix.Http Incremental ProxyResponseParser ProxyResponseParser.Core

namespace ProxyResponseParser

/-! ### An error leaves no body -/

theorem onLine_error (c : Core) (hs : c.state ≠ .error) (line : Bytes)
    (h : (c.onLine line).state = .error) : (c.onLine line).body = [] := by
  unfold onLine at h ⊢
  split at h
  · unfold statusLineText Core.fail at *
    grind
  · split at h
    · unfold endOfHeaders decideFraming Core.fail Core.finishMessage at *
      grind
    · unfold headerLineText storeField contentLengthField transferEncodingField connectionField
        Core.fail at *
      grind
  · unfold chunkSizeText Core.fail at *
    grind
  · split at h
    · cases h
    · unfold trailerLineText Core.fail at *
      grind
  · exact (hs h).elim

theorem bodyByte_error (c : Core) (hs : c.state ≠ .error) (b : Byte)
    (h : (c.bodyByte b).state = .error) : (c.bodyByte b).body = [] := by
  unfold bodyByte bodyLimit Core.fail Core.finishMessage at *
  grind

theorem chunkByte_error (c : Core) (hs : c.state ≠ .error) (b : Byte)
    (h : (c.chunkByte b).state = .error) : (c.chunkByte b).body = [] := by
  unfold chunkByte bodyLimit Core.fail at *
  grind

theorem step_error {c c' : Core} {u u' : Bytes} (h : c.step u = some (c', u'))
    (he : c'.state = .error) : c'.body = [] := by
  have hs : c.state ≠ .error := fun hs => by
    rw [step_halted (Or.inr hs)] at h
    cases h
  rcases c.reads_cases with hl | hst | hst | hst | hh
  · rw [step_line hl] at h
    obtain ⟨⟨line, r⟩, -, hx⟩ := Option.map_eq_some_iff.mp h
    simp only [Prod.mk.injEq] at hx
    rw [← hx.1] at he ⊢
    exact onLine_error c hs line he
  · simp only [step, hst] at h
    rcases stepBody_cases h with ⟨rfl, -⟩ | ⟨b, -, rfl⟩
    · cases he
    · exact bodyByte_error c hs b he
  · simp only [step, hst] at h
    rcases stepChunkData_cases h with ⟨rfl, -⟩ | ⟨b, -, rfl⟩
    · cases he
    · exact chunkByte_error c hs b he
  · simp only [step, hst] at h
    obtain ⟨a, b, -, rfl⟩ := stepChunkCrlf_cases h
    unfold chunkCrlf at he ⊢
    split at he
    · rw [if_pos ‹_›]
      rfl
    · cases he
  · rw [step_halted hh] at h
    cases h

theorem run_error (config : Config) (ds : List Bytes) (h : (run config ds).state = .error) :
    (run config ds).body = [] := by
  have hsame := (run_refines config ds).1
  have hinv : (responseGuard.run (Core.fresh config, []) ds).1.state = .error →
      (responseGuard.run (Core.fresh config, []) ds).1.body = [] := by
    refine responseGuard.run_preserves (P := fun c => c.state = .error → c.body = [])
      (fun _ _ _ _ _ hstep he => step_error hstep he) (fun _ _ _ => rfl) ?_ (fun he => by cases he) ds
    intro c _ _
    change c.tooLong.body = []
    unfold tooLong
    split <;> rfl
  have hstate : (run config ds).state = _ := congrArg Outcome.state hsame
  exact (congrArg Outcome.body hsame).trans (hinv (hstate.symm.trans h))

end ProxyResponseParser

/-! ### Runs through a whole response -/

/-- The body runs up to the end of the connection. -/
def UntilClose (c : Core) : Prop := c.state = .body ∧ c.framing = .untilClose

/-- The run through `u` ends in an error or, with nothing left, in Complete; it meets no
body that runs up to the end of the connection. -/
def Whole (c : Core) (u : Bytes) : Prop :=
  ((responseMachine.drain c u).1.state = .error ∨
    (responseMachine.drain c u).1.state = .complete ∧ (responseMachine.drain c u).2 = []) ∧
  ∀ y ∈ responseMachine.visited c u, ¬UntilClose y.1

theorem whole_halted {c : Core} {u : Bytes} (h : c.state = .error ∨ c.state = .complete ∧ u = []) :
    Whole c u := by
  have hhalted : c.Halted := h.elim Or.inr fun h => Or.inl h.1
  have hstep : responseMachine.step c u = none := step_halted hhalted u
  refine ⟨by rwa [drain_halted hhalted], fun y hy hbody => ?_⟩
  rw [Machine.visited_none hstep, List.mem_singleton] at hy
  rw [hy] at hbody
  rcases hhalted with hs | hs
  · exact absurd (hs.symm.trans hbody.1) (by decide)
  · exact absurd (hs.symm.trans hbody.1) (by decide)

theorem whole_step {c c' : Core} {u u' : Bytes} (h : c.step u = some (c', u'))
    (hc : ¬UntilClose c) (hw : Whole c' u') : Whole c u := by
  refine ⟨by rw [drain_step h]; exact hw.1, ?_⟩
  rw [Machine.visited_some (M := responseMachine) h]
  exact List.forall_mem_cons.mpr ⟨hc, hw.2⟩

theorem not_untilClose {c : Core} (h : c.state ≠ .body) : ¬UntilClose c := fun hu => h hu.1

theorem whole_line {c : Core} (hl : c.ReadsLine) {line : Bytes} (hcrlf : findCrlf line = none)
    (x : Bytes) (hw : (c.onLine line).state = .error ∨ Whole (c.onLine line) x) :
    Whole c (line ++ crlf ++ x) := by
  have hstep : c.step (line ++ crlf ++ x) = some (c.onLine line, x) := by
    rw [step_line hl, splitLine_append_crlf hcrlf, Option.map_some]
  refine whole_step hstep (not_untilClose fun hs => ?_) (hw.elim (fun h => whole_halted (Or.inl h)) id)
  rcases hl with h | h | h | h <;> rw [h] at hs <;> cases hs

/-! ### Bodies -/

theorem whole_body (v : Bytes) (c : Core) (hs : c.state = .body) (hf : c.framing = .contentLength)
    (hlen : c.body.length + v.length = c.contentLength) : Whole c v := by
  have hnot : ¬UntilClose c := fun h => absurd (hf.symm.trans h.2) (by decide)
  induction v generalizing c with
  | nil =>
    have hend : c.framing = .contentLength ∧ c.contentLength - c.body.length = 0 :=
      ⟨hf, by rw [List.length_nil] at hlen; omega⟩
    have hstep : c.step [] = some (c.finishMessage, []) := by
      simp only [step, hs, stepBody, if_pos hend]
    exact whole_step hstep hnot (whole_halted (Or.inr ⟨rfl, rfl⟩))
  | cons b t ih =>
    rw [List.length_cons] at hlen
    have hstep : c.step (b :: t) = some (c.bodyByte b, t) := by
      have hz : ¬(c.framing = .contentLength ∧ c.contentLength - c.body.length = 0) := by omega
      simp only [step, hs, stepBody, if_neg hz]
    refine whole_step hstep hnot ?_
    simp only [bodyByte, if_pos hf, List.length_append, List.length_singleton]
    split
    · rename_i hdone
      exact whole_halted (Or.inr ⟨rfl, List.eq_nil_of_length_eq_zero (by omega)⟩)
    · exact ih { c with body := c.body ++ [b] } hs hf (by simp; omega)
        fun h => absurd (hf.symm.trans h.2) (by decide)

theorem whole_chunkData (v : Bytes) (x : Bytes) (hx : ∀ d : Core, d.state = .chunkSize → Whole d x)
    (c : Core) (hs : c.state = .chunkData) (hlen : c.chunkRemaining = v.length) :
    Whole c (v ++ (crlf ++ x)) := by
  have hnot : ¬UntilClose c := not_untilClose (by rw [hs]; decide)
  have hcrlf : ∀ d : Core, d.state = .chunkDataCrlf → Whole d (crlf ++ x) := fun d hd => by
    have hstep : d.step (crlf ++ x) = some ({ d with state := .chunkSize }, x) := by
      simp [step, hd, stepChunkCrlf, chunkCrlf]
    exact whole_step hstep (not_untilClose (by rw [hd]; decide)) (hx _ rfl)
  induction v generalizing c with
  | nil =>
    have hstep : c.step (crlf ++ x) = some ({ c with state := .chunkDataCrlf }, crlf ++ x) := by
      have hz : c.chunkRemaining = 0 := hlen
      simp only [step, hs, stepChunkData, if_pos hz]
    exact whole_step hstep hnot (hcrlf _ rfl)
  | cons b t ih =>
    rw [List.length_cons] at hlen
    have hstep : c.step (b :: (t ++ (crlf ++ x))) = some (c.chunkByte b, t ++ (crlf ++ x)) := by
      have hz : ¬c.chunkRemaining = 0 := by omega
      simp only [step, hs, stepChunkData, if_neg hz]
    refine whole_step hstep hnot ?_
    unfold chunkByte
    split
    · exact whole_halted (Or.inl rfl)
    · by_cases ht : c.chunkRemaining - 1 = 0
      · have hnil : t = [] := List.eq_nil_of_length_eq_zero (by omega)
        rw [hnil, List.nil_append]
        exact hcrlf _ (if_pos ht)
      · exact ih _ ((if_neg ht).trans hs) (by simp only; omega)
          (not_untilClose (by simp [if_neg ht, hs]))

theorem whole_trailers (ts : List TrailerLine) (c : Core) (hs : c.state = .trailer) :
    Whole c (lineBlock (ts.map TrailerLine.text)) := by
  have hreads : c.ReadsLine := Or.inr (Or.inr (Or.inr hs))
  rw [← List.append_nil (lineBlock _)]
  induction ts generalizing c with
  | nil =>
    refine whole_line hreads (show findCrlf [] = none from rfl) [] (Or.inr (whole_halted (Or.inr ⟨?_, rfl⟩)))
    simp only [onLine, hs, if_true, Core.finishMessage]
  | cons t ts ih =>
    rw [List.map_cons, lineBlock_cons]
    refine whole_line hreads t.clean _ ?_
    have hon : c.onLine t.text = c.trailerLineText t.text := by
      simp only [onLine, hs, if_neg t.text_ne_nil]
    have hcolon : ¬58 ∉ t.text := not_not.mpr t.colon
    rw [hon]
    simp only [trailerLineText, t.unfolded, Bool.false_eq_true, if_false, if_neg hcolon]
    split
    · exact Or.inl rfl
    · exact Or.inr (ih _ hs (Or.inr (Or.inr (Or.inr hs))))

theorem whole_chunks (b : ChunkedBody) (ks : List Chunk) (c : Core) (hs : c.state = .chunkSize) :
    Whole c (ks.flatMap Chunk.bytes ++ (b.last.bytes ++ crlf ++ b.trailerSection)) := by
  have hreads : ∀ d : Core, d.state = .chunkSize → d.ReadsLine := fun d hd =>
    Or.inr (Or.inr (Or.inl hd))
  have hon : ∀ (d : Core) (l : SizeLine), d.state = .chunkSize →
      d.onLine l.bytes = d.chunkSizeText l.bytes := fun d l hd => by simp only [onLine, hd]
  induction ks generalizing c with
  | nil =>
    rw [List.flatMap_nil, List.nil_append]
    refine whole_line (hreads c hs) b.last.findCrlf_bytes _ ?_
    rw [hon c _ hs]
    refine (chunkSizeText_cases c b.last).imp id fun h => ?_
    rw [h, b.last_size, sized, if_pos rfl]
    exact whole_trailers b.trailers _ rfl
  | cons k ks ih =>
    have hpos : ¬k.data.length = 0 := fun h => k.data_some (List.eq_nil_of_length_eq_zero h)
    have hbytes : (k :: ks).flatMap Chunk.bytes ++ (b.last.bytes ++ crlf ++ b.trailerSection) =
        k.sizeLine.bytes ++ crlf ++ (k.data ++ (crlf ++ (ks.flatMap Chunk.bytes ++
          (b.last.bytes ++ crlf ++ b.trailerSection)))) := by
      simp only [List.flatMap_cons, Chunk.bytes, List.append_assoc]
    rw [hbytes]
    refine whole_line (hreads c hs) k.sizeLine.findCrlf_bytes _ ?_
    rw [hon c _ hs]
    refine (chunkSizeText_cases c k.sizeLine).imp id fun h => ?_
    rw [h, k.data_size, sized, if_neg hpos]
    exact whole_chunkData k.data _ ih _ rfl rfl

/-! ### Heads -/

theorem whole_fields (fs : List ResponseField) (c : Core) (x : Bytes) (hs : c.state = .headers)
    (hw : (c.storedAll fs).endOfHeaders.state = .error ∨ Whole (c.storedAll fs).endOfHeaders x) :
    Whole c (fieldSection fs ++ x) := by
  have hreads : c.ReadsLine := Or.inr (Or.inl hs)
  induction fs generalizing c with
  | nil =>
    refine whole_line hreads (show findCrlf [] = none from rfl) x ?_
    simp only [onLine, hs, if_true]
    exact hw
  | cons f fs ih =>
    rw [fieldSection_cons]
    refine whole_line hreads f.findCrlf_bytes _ ?_
    refine (onLine_field_cases c f hs).imp id fun h => ?_
    rw [h.1]
    exact ih (c.stored f) hs hw (Or.inr (Or.inl hs))

theorem whole_head (h : Head) (c : Core) (x : Bytes) (hs : c.state = .statusLine)
    (hcode : 100 ≤ h.line.status ∧ h.line.status ≤ 599) (hw : Whole (h.core c).endOfHeaders x) :
    Whole c (h.bytes ++ x) := by
  have hon : c.onLine h.line.bytes = c.statusLineText h.line.bytes := by simp only [onLine, hs]
  rw [h.bytes_append]
  refine whole_line (Or.inl hs) h.line.findCrlf_bytes _ ?_
  rw [hon]
  refine (statusLineText_cases c h.line hcode).imp id fun he => ?_
  rw [he]
  refine whole_fields h.fields _ x ?_ (Or.inr hw)
  simp only [started]
  split <;> rfl

/-! ### Responses -/

/-- The end of the response is declared: it is chunked, or of a positive length. -/
def Coding.DeclaresEnd : Coding → Prop
  | .contentLength body => body ≠ []
  | .chunked _ => True
  | .untilClose _ => False

/-- **Whatever the limits, a response with a declared end ends in an error or complete
with its last byte.** -/
theorem whole_response (m : Response) (c : Core) (hc : Clean c)
    (hhead : c.config.requestWasHead = false) (hs : m.head.line.HasBody)
    (hf : m.coding.FramedBy m.head.fields) (hend : m.coding.DeclaresEnd) : Whole c m.bytes := by
  refine whole_head m.head c m.coding.bytes hc.state ⟨(by have h := hs.1; omega), hs.2.1⟩ ?_
  rw [m.head.endOfHeaders_core c hc hs hhead m.coding hf]
  cases hm : m.coding with
  | contentLength body =>
    rw [hm] at hf hend
    have hpos : ¬body.length = 0 := fun h => hend (List.eq_nil_of_length_eq_zero h)
    refine whole_body body _ (if_neg hpos) rfl ?_
    simp only [Head.opened, m.head.core_eq c hs.1, hc.body, List.length_nil, Nat.zero_add]
    exact (declared_length m.head.fields hf.2.2 (Or.inl hf.1)).symm
  | chunked content => exact whole_chunks content content.chunks _ rfl
  | untilClose body =>
    rw [hm] at hend
    exact hend.elim

/-- Interim responses without header fields. -/
def interimBytes (ls : List StatusLine) : Bytes := ls.flatMap fun l => Head.bytes ⟨l, []⟩

theorem whole_interims (ls : List StatusLine) (hls : ∀ l ∈ ls, 100 ≤ l.status ∧ l.status < 200)
    (m : Response) (c : Core) (hc : Clean c) (hhead : c.config.requestWasHead = false)
    (hs : m.head.line.HasBody) (hf : m.coding.FramedBy m.head.fields)
    (hend : m.coding.DeclaresEnd) : Whole c (interimBytes ls ++ m.bytes) := by
  induction ls generalizing c with
  | nil => exact whole_response m c hc hhead hs hf hend
  | cons l ls ih =>
    have hl := hls l (List.mem_cons_self ..)
    have hbytes : interimBytes (l :: ls) ++ m.bytes =
        Head.bytes ⟨l, []⟩ ++ (interimBytes ls ++ m.bytes) := by
      simp only [interimBytes, List.flatMap_cons, List.append_assoc]
    rw [hbytes]
    refine whole_head ⟨l, []⟩ c _ hc.state ⟨hl.1, by have h := hl.2; simp only; omega⟩ ?_
    have hcore : (Head.core ⟨l, []⟩ c).endOfHeaders = { c with
        headerBytes := c.headerBytes + (l.bytes.length + 2) + 2
        statusCode := l.status
        reasonPhrase := l.reasonPhrase
        headers := []
        sawContentLength := false
        sawTransferEncoding := false
        closeRequested := false
        isInterim := false
        state := .statusLine } := by
      simp only [Head.core, storedAll, List.foldl_nil, started, if_pos hl.2, endOfHeaders, if_true]
    rw [hcore]
    exact ih (fun k hk => hls k (List.mem_cons_of_mem _ hk)) _ ⟨rfl, rfl, rfl, hc.body, hc.chunk⟩
      hhead

/-! ### Fronts -/

theorem Whole.front {c : Core} {p q : Bytes} (hw : Whole c (p ++ q)) (hq : q ≠ []) :
    (responseMachine.drain c p).1.state ≠ .complete ∧ ¬UntilClose (responseMachine.drain c p).1 := by
  constructor
  · intro hdone
    have hrest := Machine.drain_append_dead (M := responseMachine) (s := c) (u := p) q
      (fun w => step_halted (Or.inl hdone) w)
    rcases hw.1 with h | h
    · rw [hrest] at h
      exact absurd (hdone.symm.trans h) (by decide)
    · rw [hrest] at h
      exact hq (List.append_eq_nil_iff.mp h.2).2
  · exact hw.2 ((responseMachine.drain c p).1, (responseMachine.drain c p).2 ++ q)
      (Machine.visited_append c p q _ (Machine.drain_mem_visited c p))

/-- A response with a declared end to a request other than HEAD. -/
structure Response.SelfDelimited (m : Response) : Prop where
  status : m.head.line.HasBody
  framed : m.coding.FramedBy m.head.fields
  declares : m.coding.DeclaresEnd

/-- **A truncated response is never delivered.** After a proper front of a response with a
declared end, interim responses before it included, the parser is not Complete, and
`finish_on_eof` leaves it in Error without a body. -/
theorem truncated_not_delivered (config : Config) (hhead : config.requestWasHead = false)
    (interims : List StatusLine) (hi : ∀ l ∈ interims, 100 ≤ l.status ∧ l.status < 200)
    (m : Response) (hm : m.SelfDelimited) (ds : List Bytes) (q : Bytes) (hq : q ≠ [])
    (hds : ds.flatten ++ q = interimBytes interims ++ m.bytes) :
    (run config ds).isComplete = false ∧ (run config ds).finishOnEof.1 = false ∧
      (run config ds).finishOnEof.2.hasError = true ∧ (run config ds).finishOnEof.2.body = [] := by
  have hw := whole_interims interims hi m (Core.fresh config) (fresh_clean config) hhead hm.status
    hm.framed hm.declares
  rw [← hds] at hw
  obtain ⟨hfront, hopen⟩ := hw.front hq
  have hend : (run config ds).state ≠ .complete ∧ ¬UntilClose (run config ds).toCore := by
    rcases run_drain_or_error config ds with h | h
    · have hstate : (run config ds).state = _ := congrArg Outcome.state h
      have hframing : (run config ds).framing = _ := congrArg Outcome.framing h
      rw [UntilClose, hstate, hframing]
      exact ⟨hfront, hopen⟩
    · exact ⟨fun hc => absurd (h.symm.trans hc) (by decide),
        fun hc => absurd (h.symm.trans hc.1) (by decide)⟩
  obtain ⟨hcore, hresult⟩ := finishOnEof_outcome (run config ds)
  have heof : (run config ds).toCore.eof.state = .error ∧ (run config ds).toCore.eof.body = [] := by
    unfold Core.eof
    by_cases hh : (run config ds).toCore.Halted
    · rw [if_pos hh]
      have herr : (run config ds).state = .error := hh.resolve_left hend.1
      exact ⟨herr, run_error config ds herr⟩
    · have hopen : ¬((run config ds).state = .body ∧ (run config ds).framing = .untilClose) := hend.2
      rw [if_neg hh, if_neg hopen]
      exact ⟨rfl, rfl⟩
  refine ⟨beq_eq_false_iff_ne.mpr hend.1, ?_, ?_, ?_⟩
  · rw [hresult, heof.1]
    rfl
  · rw [hasError, hcore, heof.1]
    rfl
  · rw [hcore]
    exact heof.2

/-- The chunked sample after an interim response, without its last byte. -/
theorem truncated_not_delivered_chunked :
    let ds := [interimBytes [⟨ascii "HTTP/1.1", ascii "100", none, http11_known, code100_digits, by decide⟩] ++
      chunkedSample.bytes.dropLast]
    (run {} ds).isComplete = false ∧ (run {} ds).finishOnEof.1 = false ∧
      (run {} ds).finishOnEof.2.hasError = true ∧ (run {} ds).finishOnEof.2.body = [] :=
  truncated_not_delivered {} rfl
    [⟨ascii "HTTP/1.1", ascii "100", none, http11_known, code100_digits, by decide⟩] (by decide)
    chunkedSample ⟨chunkedSample_wellFormed.status, chunkedSample_wellFormed.framedBy, trivial⟩
    _ [LF] (by decide) (by decide)

end Aevrix.Proxy
