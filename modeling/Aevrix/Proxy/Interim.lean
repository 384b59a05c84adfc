import Aevrix.Proxy.ResponseMessage

/-!
# Interim responses

The headers of an interim response are dropped at its empty line
(`proxy_response_parser.cpp:300-309`). The flags `saw_content_length_`,
`saw_transfer_encoding_` and `close_requested_` are cleared by the status line of an
interim response only, so those of the last one are still set when the final response
is read. `transparent_iff` says which sequences of interim responses leave no trace.
-/

namespace Aevrix.Proxy
open Aevrix.Http Incremental ProxyResponseParser ProxyResponseParser.Core

/-! ### Cores that differ in what is counted -/

namespace ProxyResponseParser.Core

/-- The core with `k` more header bytes and, where none was declared yet, another length. -/
def shift (k n : ℕ) (d : Core) : Core := { d with
  headerBytes := d.headerBytes + k
  contentLength := if d.sawContentLength then d.contentLength else n }

/-- Behind the final status line; a length in use was declared. -/
structure PastStatus (d : Core) : Prop where
  state : d.state ≠ .statusLine
  interim : d.isInterim = false
  length : d.framing = .contentLength → d.sawContentLength = true

end ProxyResponseParser.Core

section shift
variable (k n : ℕ) (d : Core)

theorem shift_finishMessage : (d.shift k n).finishMessage = d.finishMessage.shift k n := rfl

theorem shift_decideFraming : (d.shift k n).decideFraming = d.decideFraming.shift k n := by
  unfold decideFraming shift Core.fail Core.finishMessage bodyless
  grind

theorem shift_storeField (name value : Bytes) :
    (d.shift k n).storeField name value = (d.storeField name value).shift k n := by
  unfold storeField contentLengthField transferEncodingField connectionField shift Core.fail bodyless
  grind

theorem shift_endOfHeaders (h : d.isInterim = false) :
    (d.shift k n).endOfHeaders = d.endOfHeaders.shift k n := by
  have hframing := shift_decideFraming k n { d with headerBytes := d.headerBytes + 2 }
  have hadd : d.headerBytes + k + 2 = d.headerBytes + 2 + k := by omega
  simp only [endOfHeaders, shift, h, Bool.false_eq_true, if_false, hadd] at hframing ⊢
  exact hframing

theorem shift_headerLineText (line : Bytes)
    (hlim : ((d.shift k n).headerLineText line).headerBytes ≤ d.config.maxHeaderBytes) :
    (d.shift k n).headerLineText line = (d.headerLineText line).shift k n := by
  have hadd : d.headerBytes + k + (line.length + 2) = d.headerBytes + (line.length + 2) + k := by
    omega
  have hstore := shift_storeField k n { d with headerBytes := d.headerBytes + (line.length + 2) }
  simp only [headerLineText, shift, hadd] at hlim hstore ⊢
  split
  · rfl
  · rename_i hfold
    rw [if_neg hfold] at hlim
    by_cases hmax : d.config.maxHeaderBytes < d.headerBytes + (line.length + 2) + k
    · rw [if_pos hmax] at hlim
      exact absurd hlim (Nat.not_le.mpr hmax)
    · have hmax' : ¬d.config.maxHeaderBytes < d.headerBytes + (line.length + 2) := by omega
      rw [if_neg hmax, if_neg hmax']
      split
      · rfl
      split
      · rfl
      · exact hstore ..

theorem shift_chunkSizeText (line : Bytes) :
    (d.shift k n).chunkSizeText line = (d.chunkSizeText line).shift k n := by
  have hconf : (d.shift k n).config = d.config := rfl
  simp only [chunkSizeText, hconf]
  generalize trimOws (line.takeWhile (· != 59)) = v
  split
  · rfl
  · cases chunkSizeOf d.config.maxBodyBytes v 0 v with
    | error message => rfl
    | ok value =>
      simp only
      split <;> rfl

theorem shift_trailerLineText (line : Bytes)
    (hlim : ((d.shift k n).trailerLineText line).headerBytes ≤ d.config.maxHeaderBytes) :
    (d.shift k n).trailerLineText line = (d.trailerLineText line).shift k n := by
  unfold trailerLineText shift Core.fail at *
  grind

theorem shift_bodyByte (b : Byte) (h : d.PastStatus) :
    (d.shift k n).bodyByte b = (d.bodyByte b).shift k n := by
  have hlen := h.length
  unfold bodyByte bodyLimit shift Core.fail Core.finishMessage
  grind

theorem shift_chunkByte (b : Byte) : (d.shift k n).chunkByte b = (d.chunkByte b).shift k n := by
  unfold chunkByte bodyLimit shift Core.fail
  grind

theorem shift_chunkCrlf (a b : Byte) :
    (d.shift k n).chunkCrlf a b = (d.chunkCrlf a b).shift k n := by
  unfold chunkCrlf
  split <;> rfl

theorem shift_onLine (line : Bytes) (h : d.PastStatus)
    (hlim : ((d.shift k n).onLine line).headerBytes ≤ d.config.maxHeaderBytes) :
    (d.shift k n).onLine line = (d.onLine line).shift k n := by
  have hstate : (d.shift k n).state = d.state := rfl
  unfold onLine at hlim ⊢
  rw [hstate] at hlim ⊢
  cases hs : d.state with
  | statusLine => exact (h.state hs).elim
  | headers =>
    simp only [hs] at hlim ⊢
    by_cases hl : line = []
    · rw [if_pos hl, if_pos hl, shift_endOfHeaders k n d h.interim]
    · rw [if_neg hl] at hlim
      rw [if_neg hl, if_neg hl, shift_headerLineText k n d line hlim]
  | chunkSize => exact shift_chunkSizeText ..
  | trailer =>
    simp only [hs] at hlim ⊢
    by_cases hl : line = []
    · rw [if_pos hl, if_pos hl, shift_finishMessage]
    · rw [if_neg hl] at hlim
      rw [if_neg hl, if_neg hl, shift_trailerLineText k n d line hlim]
  | body => rfl
  | chunkData => rfl
  | chunkDataCrlf => rfl
  | complete => rfl
  | error => rfl

theorem stepBody_shift (u : Bytes) (h : d.PastStatus) :
    (d.shift k n).stepBody u = (d.stepBody u).map fun x => (x.1.shift k n, x.2) := by
  have hend : ((d.shift k n).framing = .contentLength ∧
      (d.shift k n).contentLength - (d.shift k n).body.length = 0) ↔
      (d.framing = .contentLength ∧ d.contentLength - d.body.length = 0) := by
    constructor
    · rintro ⟨hf, hl⟩
      refine ⟨hf, ?_⟩
      rwa [shift, if_pos (h.length hf)] at hl
    · rintro ⟨hf, hl⟩
      refine ⟨hf, ?_⟩
      rwa [shift, if_pos (h.length hf)]
  unfold stepBody
  by_cases hz : d.framing = .contentLength ∧ d.contentLength - d.body.length = 0
  · rw [if_pos hz, if_pos (hend.mpr hz)]
    rfl
  · rw [if_neg hz, if_neg (mt hend.mp hz)]
    cases u with
    | nil => rfl
    | cons b t => simp only [shift_bodyByte k n d b h, Option.map_some]

theorem stepChunkData_shift (u : Bytes) :
    (d.shift k n).stepChunkData u = (d.stepChunkData u).map fun x => (x.1.shift k n, x.2) := by
  have hrem : (d.shift k n).chunkRemaining = d.chunkRemaining := rfl
  unfold stepChunkData
  rw [hrem]
  split
  · rfl
  · cases u with
    | nil => rfl
    | cons b t => simp only [shift_chunkByte k n d b, Option.map_some]

theorem step_shift (u : Bytes) (h : d.PastStatus)
    (hlim : ∀ x ∈ (d.shift k n).step u, x.1.headerBytes ≤ d.config.maxHeaderBytes) :
    (d.shift k n).step u = (d.step u).map fun x => (x.1.shift k n, x.2) := by
  have hstate : (d.shift k n).state = d.state := rfl
  rcases d.reads_cases with hl | hs | hs | hs | hh
  · have hl' : (d.shift k n).ReadsLine := hl
    rw [step_line hl'] at hlim ⊢
    rw [step_line hl]
    cases hu : splitLine u with
    | none => rfl
    | some x =>
      have hline := hlim _ (by rw [hu]; rfl)
      simp only [Option.map_some, shift_onLine k n d x.1 h hline]
  · simp only [step, hstate, hs, stepBody_shift k n d u h]
  · simp only [step, hstate, hs, stepChunkData_shift k n d u]
  · simp only [step, hstate, hs]
    unfold stepChunkCrlf
    split <;> simp [shift_chunkCrlf]
  · have hh' : (d.shift k n).Halted := hh
    rw [step_halted hh', step_halted hh]
    rfl

end shift

theorem onLine_pastStatus {d : Core} (h : d.PastStatus) (line : Bytes) :
    (d.onLine line).PastStatus := by
  obtain ⟨hs, hi, hf⟩ := h
  unfold onLine
  split
  · exact (hs ‹_›).elim
  · split
    · unfold endOfHeaders decideFraming Core.fail Core.finishMessage
      constructor <;> grind
    · unfold headerLineText storeField contentLengthField transferEncodingField connectionField
        Core.fail
      constructor <;> grind
  · unfold chunkSizeText Core.fail
    constructor <;> grind
  · split
    · exact ⟨by simp [Core.finishMessage], hi, hf⟩
    · unfold trailerLineText Core.fail
      constructor <;> grind
  · exact ⟨hs, hi, hf⟩

theorem step_pastStatus {d d' : Core} {u u' : Bytes} (h : d.PastStatus)
    (hstep : d.step u = some (d', u')) : d'.PastStatus := by
  rcases d.reads_cases with hl | hs | hs | hs | hh
  · rw [step_line hl] at hstep
    obtain ⟨⟨line, r⟩, -, hx⟩ := Option.map_eq_some_iff.mp hstep
    simp only [Prod.mk.injEq] at hx
    rw [← hx.1]
    exact onLine_pastStatus h line
  · simp only [step, hs] at hstep
    obtain ⟨hst, hi, hf⟩ := h
    rcases stepBody_cases hstep with ⟨rfl, -⟩ | ⟨b, -, rfl⟩
    · exact ⟨by simp [Core.finishMessage], hi, hf⟩
    · unfold bodyByte bodyLimit Core.fail Core.finishMessage
      constructor <;> grind
  · simp only [step, hs] at hstep
    obtain ⟨hst, hi, hf⟩ := h
    rcases stepChunkData_cases hstep with ⟨rfl, -⟩ | ⟨b, -, rfl⟩
    · exact ⟨by simp, hi, hf⟩
    · unfold chunkByte bodyLimit Core.fail
      constructor <;> grind
  · simp only [step, hs] at hstep
    obtain ⟨hst, hi, hf⟩ := h
    obtain ⟨a, b, -, rfl⟩ := stepChunkCrlf_cases hstep
    unfold chunkCrlf
    split
    · exact ⟨by simp [Core.fail], hi, hf⟩
    · exact ⟨by simp, hi, hf⟩
  · rw [step_halted hh] at hstep
    cases hstep

/-- Along a run through `u` the header limit is not passed. -/
def HeadersWithin (c : Core) (u : Bytes) : Prop :=
  ∀ y ∈ responseMachine.visited c u, y.1.headerBytes ≤ c.config.maxHeaderBytes

theorem drain_shift (k n : ℕ) (d : Core) (u : Bytes) (h : d.PastStatus)
    (hlim : HeadersWithin (d.shift k n) u) : responseMachine.drain (d.shift k n) u =
      ((responseMachine.drain d u).1.shift k n, (responseMachine.drain d u).2) := by
  have hnext : ∀ (d : Core) (u : Bytes), HeadersWithin (d.shift k n) u →
      ∀ x ∈ (d.shift k n).step u, x.1.headerBytes ≤ d.config.maxHeaderBytes := by
    intro d u hlim x hx
    refine hlim x ?_
    rw [Machine.visited_some (M := responseMachine) hx]
    exact List.mem_cons_of_mem _ (Machine.mem_visited_self ..)
  induction d, u using Machine.run_induction (M := responseMachine) with
  | blocked d u hb =>
    change d.step u = none at hb
    have hb' := step_shift k n d u h (hnext d u hlim)
    rw [hb, Option.map_none] at hb'
    rw [drain_blocked hb, drain_blocked hb']
  | progress d u d' u' hs ih =>
    change d.step u = some (d', u') at hs
    have hs' := step_shift k n d u h (hnext d u hlim)
    rw [hs, Option.map_some] at hs'
    rw [drain_step hs, drain_step hs']
    refine ih (step_pastStatus h hs) fun y hy => ?_
    have hconf : (d'.shift k n).config = (d.shift k n).config := step_config hs'
    rw [hconf]
    refine hlim y ?_
    rw [Machine.visited_some (M := responseMachine) hs']
    exact List.mem_cons_of_mem _ hy

/-! ### Interim responses -/

/-- An interim response the parser does not refuse for its status: 1xx without 101. -/
structure Interim where
  head : Head
  status : 100 ≤ head.line.status ∧ head.line.status < 200
  notUpgrade : head.line.status ≠ 101
  valid : ∀ f ∈ head.fields, f.Valid

namespace Interim

def bytes (i : Interim) : Bytes := i.head.bytes

/-- The core after an interim response: the flags its fields set stay. -/
def passed (i : Interim) (c : Core) : Core := { c with
  headerBytes := c.headerBytes + i.bytes.length
  headers := []
  statusCode := i.head.line.status
  reasonPhrase := i.head.line.reasonPhrase
  contentLength := i.head.fields.foldl
    (fun n f => if f.isContentLength then decimalValue f.value else n) c.contentLength
  sawContentLength := i.head.fields.any ResponseField.isContentLength
  sawTransferEncoding := i.head.fields.any ResponseField.isTransferEncoding
  closeRequested := i.head.fields.any ResponseField.closes
  isInterim := false
  state := .statusLine }

theorem endOfHeaders_core (i : Interim) (c : Core) :
    (i.head.core c).endOfHeaders = i.passed c := by
  simp only [Head.core, storedAll_eq, started, if_pos i.status.2, endOfHeaders, if_true,
    Bool.false_or, passed, bytes, i.head.bytes_length, fieldSection_length]
  congr 1
  omega

theorem status_range (i : Interim) : 100 ≤ i.head.line.status ∧ i.head.line.status ≤ 599 := by
  have h := i.status
  omega

end Interim

/-- Where the run through a head does not end in an error, its fields are accepted. -/
theorem follows_fields (fs : List ResponseField) (c : Core) (x : Bytes) (hs : c.state = .headers)
    (hne : (responseMachine.drain c (fieldSection fs ++ x)).1.state ≠ .error) : c.AcceptsAll fs ∧
    responseMachine.drain c (fieldSection fs ++ x) =
      responseMachine.drain (c.storedAll fs).endOfHeaders x := by
  induction fs generalizing c with
  | nil =>
    exact ⟨trivial, drain_step (step_emptyLine hs x)⟩
  | cons f fs ih =>
    have hstep := step_field hs f fs x
    rw [drain_step hstep] at hne ⊢
    rcases onLine_field_cases c f hs with h | ⟨h, ha⟩
    · rw [drain_halted (Or.inr h)] at hne
      exact (hne h).elim
    · rw [h] at hne ⊢
      obtain ⟨hall, hdrain⟩ := ih (c.stored f) hs hne
      exact ⟨⟨ha, hall⟩, hdrain⟩

theorem follows_head (h : Head) (c : Core) (x : Bytes) (hs : c.state = .statusLine)
    (hcode : 100 ≤ h.line.status ∧ h.line.status ≤ 599)
    (hne : (responseMachine.drain c (h.bytes ++ x)).1.state ≠ .error) :
    (c.started h.line).AcceptsAll h.fields ∧ responseMachine.drain c (h.bytes ++ x) =
      responseMachine.drain (h.core c).endOfHeaders x := by
  rw [drain_step (h.step_bytes hs x)] at hne ⊢
  rcases statusLineText_cases c h.line hcode with he | he
  · rw [drain_halted (Or.inr he)] at hne
    exact (hne he).elim
  · rw [he] at hne ⊢
    refine follows_fields h.fields _ x ?_ hne
    simp only [started]
    split <;> rfl

/-! ### Interim responses within the limits -/

theorem HeadersWithin.step {c c' : Core} {u u' : Bytes} (h : HeadersWithin c u)
    (hs : c.step u = some (c', u')) :
    c'.headerBytes ≤ c.config.maxHeaderBytes ∧ HeadersWithin c' u' := by
  rw [HeadersWithin, Machine.visited_some (M := responseMachine) hs] at h
  obtain ⟨-, hrest⟩ := List.forall_mem_cons.mp h
  refine ⟨hrest _ (Machine.mem_visited_self ..), fun y hy => ?_⟩
  rw [step_config hs]
  exact hrest y hy

theorem onLine_field_within {c : Core} {f : ResponseField} (hs : c.state = .headers)
    (hlim : (c.onLine f.bytes).headerBytes ≤ c.config.maxHeaderBytes) :
    c.headerBytes + (f.bytes.length + 2) ≤ c.config.maxHeaderBytes := by
  by_contra hlt
  simp only [onLine, hs, if_neg f.bytes_ne_nil, headerLineText, f.head_bytes.1, Bool.false_eq_true,
    if_false, if_pos (Nat.not_le.mp hlt)] at hlim
  exact hlt hlim

theorem passes_fields (fs : List ResponseField) (c : Core) (x : Bytes) (hs : c.state = .headers)
    (hv : ∀ f ∈ fs, f.Valid) (ha : c.AcceptsAll fs) (hl : ∀ f ∈ fs, c.LengthWithin f)
    (hlim : HeadersWithin c (fieldSection fs ++ x)) :
    responseMachine.drain c (fieldSection fs ++ x) =
      responseMachine.drain (c.storedAll fs).endOfHeaders x ∧
    HeadersWithin (c.storedAll fs).endOfHeaders x := by
  induction fs generalizing c with
  | nil =>
    exact ⟨drain_step (step_emptyLine hs x), (hlim.step (step_emptyLine hs x)).2⟩
  | cons f fs ih =>
    have hstep := step_field hs f fs x
    obtain ⟨hbytes, hrest⟩ := hlim.step hstep
    have hon : c.onLine f.bytes = c.stored f := onLine_field c f hs (hv f (List.mem_cons_self ..))
      ha.1 (hl f (List.mem_cons_self ..)) (onLine_field_within hs hbytes)
    rw [hon] at hstep hrest
    rw [drain_step hstep]
    exact ih (c.stored f) hs (fun g hg => hv g (List.mem_cons_of_mem _ hg)) ha.2
      (fun g hg => hl g (List.mem_cons_of_mem _ hg)) hrest

/-- A limit on the lengths interim responses declare. -/
def LengthsWithin (config : Config) (is : List Interim) : Prop :=
  ∀ i ∈ is, ∀ f ∈ i.head.fields, f.isContentLength = true →
    config.requestWasHead = true ∨ decimalValue f.value ≤ config.maxBodyBytes

theorem passes_interim (i : Interim) (c : Core) (x : Bytes) (hs : c.state = .statusLine)
    (ha : FieldsAgree i.head.fields) (hl : LengthsWithin c.config [i])
    (hlim : HeadersWithin c (i.bytes ++ x)) :
    responseMachine.drain c (i.bytes ++ x) = responseMachine.drain (i.passed c) x ∧
    HeadersWithin (i.passed c) x := by
  have hstep := i.head.step_bytes hs x
  rw [statusLineText_bytes c i.head.line i.status_range i.notUpgrade] at hstep
  rw [← i.endOfHeaders_core, Interim.bytes, drain_step hstep]
  have hstart : (c.started i.head.line).state = .headers ∧
      (c.started i.head.line).sawContentLength = false ∧
      (c.started i.head.line).config = c.config := by
    simp only [started, if_pos i.status.2, and_self]
  refine passes_fields i.head.fields _ x hstart.1 i.valid
    ((acceptsAll_iff _ _).mpr ⟨ha, fun h => ?_⟩) (fun f hf hcl => ?_) (hlim.step hstep).2
  · rw [hstart.2.1] at h
    cases h
  · rw [hstart.2.2]
    refine (hl i (List.mem_singleton_self _) f hf hcl).imp (fun h => ?_) id
    simp only [bodyless, hstart.2.2, h, Bool.true_or]

/-- Bytes of a sequence of interim responses. -/
def interimBlock (is : List Interim) : Bytes := is.flatMap Interim.bytes

/-- The core after a sequence of interim responses. -/
def passedAll (is : List Interim) (c : Core) : Core := is.foldl (fun c i => i.passed c) c

theorem passes_interims (is : List Interim) (c : Core) (x : Bytes) (hs : c.state = .statusLine)
    (ha : ∀ i ∈ is, FieldsAgree i.head.fields) (hl : LengthsWithin c.config is)
    (hlim : HeadersWithin c (interimBlock is ++ x)) :
    responseMachine.drain c (interimBlock is ++ x) = responseMachine.drain (passedAll is c) x ∧
    HeadersWithin (passedAll is c) x := by
  induction is generalizing c with
  | nil => exact ⟨rfl, hlim⟩
  | cons i is ih =>
    rw [interimBlock, List.flatMap_cons, List.append_assoc] at hlim ⊢
    obtain ⟨hdrain, hrest⟩ := passes_interim i c _ hs (ha i (List.mem_cons_self ..))
      (fun j hj => hl j (List.mem_cons.mpr (Or.inl (List.mem_singleton.mp hj)))) hlim
    rw [hdrain]
    exact ih (i.passed c) rfl (fun j hj => ha j (List.mem_cons_of_mem _ hj))
      (fun j hj => hl j (List.mem_cons_of_mem _ hj)) hrest

theorem follows_interims (is : List Interim) (c : Core) (x : Bytes) (hs : c.state = .statusLine)
    (hne : (responseMachine.drain c (interimBlock is ++ x)).1.state ≠ .error) :
    (∀ i ∈ is, FieldsAgree i.head.fields) ∧
    responseMachine.drain c (interimBlock is ++ x) = responseMachine.drain (passedAll is c) x := by
  induction is generalizing c with
  | nil => exact ⟨by simp, rfl⟩
  | cons i is ih =>
    rw [interimBlock, List.flatMap_cons, List.append_assoc] at hne ⊢
    obtain ⟨ha, hdrain⟩ := follows_head i.head c _ hs i.status_range hne
    have hblock : responseMachine.drain c (i.bytes ++ (interimBlock is ++ x)) =
        responseMachine.drain (i.passed c) (interimBlock is ++ x) := by
      rw [← i.endOfHeaders_core]
      exact hdrain
    change (responseMachine.drain c (i.bytes ++ (interimBlock is ++ x))).1.state ≠ .error at hne
    rw [hblock] at hne
    obtain ⟨hall, hrest⟩ := ih (i.passed c) rfl hne
    exact ⟨List.forall_mem_cons.mpr ⟨((acceptsAll_iff _ _).mp ha).1, hall⟩, hblock.trans hrest⟩

/-- What is left of interim responses: counts, a status, a length, and the flags of the last. -/
theorem passedAll_fresh (is : List Interim) (config : Config) : ∃ k n status reason,
    passedAll is (Core.fresh config) = { Core.fresh config with
      headerBytes := k
      contentLength := n
      statusCode := status
      reasonPhrase := reason
      sawContentLength := is.getLast?.any fun i => i.head.fields.any ResponseField.isContentLength
      sawTransferEncoding :=
        is.getLast?.any fun i => i.head.fields.any ResponseField.isTransferEncoding
      closeRequested := is.getLast?.any fun i => i.head.fields.any ResponseField.closes } := by
  induction is using List.reverseRecOn with
  | nil => exact ⟨0, 0, 0, [], rfl⟩
  | append_singleton is i ih =>
    obtain ⟨k, n, status, reason, ih⟩ := ih
    have hlast : passedAll (is ++ [i]) (Core.fresh config) =
        i.passed (passedAll is (Core.fresh config)) := by
      simp only [passedAll, List.foldl_append, List.foldl_cons, List.foldl_nil]
    rw [hlast, ih, List.getLast?_concat]
    exact ⟨_, _, _, _, rfl⟩

/-! ### Transparency -/

/-- What a parser reports of a response. -/
structure Report where
  state : State
  statusCode : ℕ
  reasonPhrase : Bytes
  headers : HttpHeaders
  body : Bytes
  framing : Framing
  upstreamKeepAlive : Bool
  deriving DecidableEq

def ProxyResponseParser.Outcome.report (o : Outcome) : Report where
  state := o.state
  statusCode := o.statusCode
  reasonPhrase := o.reasonPhrase
  headers := o.headers
  body := o.body
  framing := o.framing
  upstreamKeepAlive := o.upstreamKeepAlive

/-- No limit is reached: the feeds find room, no unfinished line and no head is too long. -/
structure WithinLimits (config : Config) (ds : List Bytes) : Prop where
  fits : Fits config ds
  lines : ∀ y ∈ responseMachine.visited (Core.fresh config) ds.flatten, LineFits y.1 y.2
  headers : HeadersWithin (Core.fresh config) ds.flatten

/-- The status line of a final response, and anything after it. -/
def FinalResponse (s : Bytes) : Prop := ∃ l : StatusLine, ∃ rest,
  200 ≤ l.status ∧ l.status ≤ 599 ∧ s = l.bytes ++ crlf ++ rest

/-- Whatever final response follows and however it is fed, the interim responses in front of
it make no difference. -/
def Transparent (is : List Interim) : Prop :=
  ∀ (config : Config) (s : Bytes) (ds es : List Bytes), FinalResponse s →
    ds.flatten = interimBlock is ++ s → es.flatten = s → WithinLimits config ds →
    WithinLimits config es → LengthsWithin config is →
    (run config ds).outcome.report = (run config es).outcome.report

/-- Every interim response is accepted, and the last has no `Content-Length`, no
`Transfer-Encoding` and no `close` in `Connection`. -/
structure LeavesNoTrace (is : List Interim) : Prop where
  accepted : ∀ i ∈ is, FieldsAgree i.head.fields
  last : ∀ i ∈ is.getLast?, ∀ f ∈ i.head.fields, f.isFraming = false ∧ f.closes = false

theorem report_shift (k n : ℕ) (d : Core) : (d.shift k n).outcome.report = d.outcome.report := rfl

theorem LeavesNoTrace.passes {is : List Interim} (h : LeavesNoTrace is) (config : Config) :
    ∃ k n status reason, passedAll is (Core.fresh config) = { Core.fresh config with
      headerBytes := k, contentLength := n, statusCode := status, reasonPhrase := reason } := by
  obtain ⟨k, n, status, reason, heq⟩ := passedAll_fresh is config
  have hnone : ∀ p : ResponseField → Bool, (∀ f, f.isFraming = false ∧ f.closes = false → p f = false) →
      (is.getLast?.any fun i => i.head.fields.any p) = false := by
    intro p hp
    cases hlast : is.getLast? with
    | none => rfl
    | some i =>
      rw [Option.any_some, List.any_eq_false]
      intro f hf
      rw [hp f (h.last i hlast f hf)]
      decide
  refine ⟨k, n, status, reason, ?_⟩
  rw [heq, hnone ResponseField.isContentLength fun f hf => (Bool.or_eq_false_iff.mp hf.1).1,
    hnone ResponseField.isTransferEncoding fun f hf => (Bool.or_eq_false_iff.mp hf.1).2,
    hnone ResponseField.closes fun f hf => hf.2]
  rfl

theorem started_shift (config : Config) (l : StatusLine) (hl : 200 ≤ l.status)
    (k n status : ℕ) (reason : Bytes) :
    Core.started { Core.fresh config with
      headerBytes := k, contentLength := n, statusCode := status, reasonPhrase := reason } l =
    ((Core.fresh config).started l).shift k n := by
  have hnot : ¬l.status < 200 := Nat.not_lt.mpr hl
  simp only [started, if_neg hnot, Core.shift, Core.fresh, Bool.false_eq_true, if_false,
    Nat.zero_add, Nat.add_comm k]

theorem LeavesNoTrace.transparent {is : List Interim} (h : LeavesNoTrace is) : Transparent is := by
  rintro config s ds es ⟨l, rest, h200, h599, rfl⟩ hds hes hdl hel hlen
  have hds' := run_same_drain (admitted_of_fits hdl.fits) (calm_of_lineFits hdl.lines)
  have hes' := run_same_drain (admitted_of_fits hel.fits) (calm_of_lineFits hel.lines)
  have hheaders := hdl.headers
  rw [hds] at hds' hheaders
  rw [hes] at hes'
  obtain ⟨hdrain, hrest⟩ := passes_interims is (Core.fresh config) _ rfl h.accepted hlen hheaders
  obtain ⟨k, n, status, reason, hpass⟩ := h.passes config
  have hstep : ∀ c : Core, c.state = .statusLine →
      c.step (l.bytes ++ crlf ++ rest) = some (c.started l, rest) := by
    intro c hc
    rw [step_line (Or.inl hc), splitLine_append_crlf l.findCrlf_bytes, Option.map_some]
    simp only [onLine, hc, statusLineText_bytes c l ⟨by omega, h599⟩ (by omega)]
  have hpast : ((Core.fresh config).started l).PastStatus := by
    have hnot : ¬l.status < 200 := Nat.not_lt.mpr h200
    constructor <;> simp [started, hnot, Core.fresh]
  have hshift := started_shift config l h200 k n status reason
  have hfirst := hstep (passedAll is (Core.fresh config)) (by rw [hpass]; rfl)
  have hwithin := (hrest.step hfirst).2
  rw [hpass, hshift] at hwithin
  have hall : responseMachine.drain (Core.fresh config) (interimBlock is ++ (l.bytes ++ crlf ++ rest)) =
      responseMachine.drain (((Core.fresh config).started l).shift k n) rest := by
    rw [hdrain, drain_step hfirst, hpass, hshift]
  rw [hall, drain_shift k n _ rest hpast hwithin] at hds'
  rw [drain_step (hstep (Core.fresh config) rfl)] at hes'
  have hl : (run config ds).outcome = _ := hds'.1
  have hr : (run config es).outcome = _ := hes'.1
  rw [hl, hr]
  exact report_shift ..

/-! ### Traces -/

/-- A parser that expects no body reads lines only up to the end of the head. -/
def HeadOnly (c : Core) : Prop := c.config.requestWasHead = true ∧
  (c.state = .statusLine ∨ c.state = .headers ∨ c.Halted)

theorem onLine_headOnly {c : Core} (h : HeadOnly c) (line : Bytes) : HeadOnly (c.onLine line) := by
  obtain ⟨hr, hs⟩ := h
  refine ⟨by rw [onLine_config]; exact hr, ?_⟩
  rcases hs with hs | hs | hs
  · simp only [onLine, hs]
    unfold statusLineText Halted Core.fail
    grind
  · simp only [onLine, hs]
    split
    · unfold endOfHeaders decideFraming Halted bodyless Core.fail Core.finishMessage
      grind
    · unfold headerLineText storeField contentLengthField transferEncodingField connectionField
        Halted Core.fail
      grind
  · have hon : c.onLine line = c := by
      rcases hs with hs | hs <;> simp only [onLine, hs]
    rw [hon]
    exact Or.inr (Or.inr hs)

theorem onLine_headerBytes {c : Core} (h : HeadOnly c) (line : Bytes) :
    (c.onLine line).headerBytes ≤ c.headerBytes + (line.length + 2) := by
  rcases h.2 with hs | hs | hs
  · simp only [onLine, hs]
    unfold statusLineText Core.fail
    grind
  · simp only [onLine, hs]
    split
    · unfold endOfHeaders decideFraming Core.fail Core.finishMessage
      grind
    · unfold headerLineText storeField contentLengthField transferEncodingField connectionField
        Core.fail
      grind
  · have hon : c.onLine line = c := by
      rcases hs with hs | hs <;> simp only [onLine, hs]
    rw [hon]
    exact Nat.le_add_right ..

theorem visited_headOnly (c : Core) (u : Bytes) (h : HeadOnly c) :
    ∀ y ∈ responseMachine.visited c u,
      HeadOnly y.1 ∧ y.1.headerBytes + y.2.length ≤ c.headerBytes + u.length := by
  induction c, u using Machine.run_induction (M := responseMachine) with
  | blocked c u hb =>
    intro y hy
    rw [Machine.visited_none hb, List.mem_singleton] at hy
    rw [hy]
    exact ⟨h, le_rfl⟩
  | progress c u c' u' hs ih =>
    rw [Machine.visited_some hs]
    refine List.forall_mem_cons.mpr ⟨⟨h, le_rfl⟩, ?_⟩
    change c.step u = some (c', u') at hs
    have hread : c.ReadsLine := by
      rcases h.2 with hl | hl | hl
      · exact Or.inl hl
      · exact Or.inr (Or.inl hl)
      · rw [step_halted hl] at hs
        cases hs
    rw [step_line hread] at hs
    obtain ⟨⟨line, r⟩, hline, hx⟩ := Option.map_eq_some_iff.mp hs
    simp only [Prod.mk.injEq] at hx
    obtain ⟨rfl, rfl⟩ := hx
    have hlen := Lines.splitPair_length hline
    have hbytes := onLine_headerBytes h line
    intro y hy
    obtain ⟨hy1, hy2⟩ := ih (onLine_headOnly h line) y hy
    exact ⟨hy1, by omega⟩

/-- For a response to HEAD the header limit is the only one a single feed meets. -/
theorem withinLimits_single (config : Config) (hr : config.requestWasHead = true) {s : Bytes}
    (hh : s.length ≤ config.maxHeaderBytes) (hb : s.length ≤ config.bufferLimit) :
    WithinLimits config [s] := by
  have hall := visited_headOnly (Core.fresh config) [s].flatten ⟨hr, Or.inl rfl⟩
  have hflat : [s].flatten = s := List.append_nil s
  refine ⟨fits_iff.mpr fun i hi => ?_, fun y hy hl => ?_, fun y hy => ?_⟩
  · have hi0 : i = 0 := by simpa using hi
    subst hi0
    simpa [run, ProxyResponseParser.fresh, ofCore, available] using hb
  · obtain ⟨hy1, hy2⟩ := hall y hy
    have hconf := visited_config _ _ y hy
    have hlimit : y.1.lineLimit = config.maxHeaderBytes := by
      have hnot : y.1.state ≠ .chunkSize := fun hs => by
        rcases hy1.2 with h | h | h | h <;> rw [h] at hs <;> cases hs
      rw [lineLimit, if_neg hnot, hconf]
      rfl
    rw [hflat] at hy2
    have hfront := Lines.front_length_le (a := CR) (b := LF) y.2
    change (frontLine y.2).length ≤ y.2.length at hfront
    simp only [Core.fresh] at hy2
    omega
  · obtain ⟨-, hy2⟩ := hall y hy
    rw [hflat] at hy2
    simp only [Core.fresh] at hy2 ⊢
    omega

/-- A final response that shows every flag set before it. -/
def probe : Head where
  line := okLine
  fields := [⟨ascii "Content-Length", ascii " ", ascii "0", [], contentLength_token, ows_space, ows_nil,
    by decide, by decide⟩]

theorem probe_hasBody : probe.line.HasBody := by
  unfold StatusLine.HasBody
  decide

theorem endOfHeaders_probe (c : Core) (hr : c.config.requestWasHead = true) :
    (probe.core c).endOfHeaders.state = (if c.sawTransferEncoding then .error else .complete) ∧
    (probe.core c).endOfHeaders.upstreamKeepAlive =
      (!c.sawTransferEncoding && !c.closeRequested) := by
  have hcl : probe.fields.any ResponseField.isContentLength = true := by decide
  have hte : probe.fields.any ResponseField.isTransferEncoding = false := by decide
  have hclose : probe.fields.any ResponseField.closes = false := by decide
  rw [probe.core_eq c probe_hasBody.1, hcl, hte, hclose, Bool.or_true, Bool.or_false, Bool.or_false]
  cases ht : c.sawTransferEncoding
  · cases hc : c.closeRequested <;>
      simp [endOfHeaders, decideFraming, bodyless, hr, Core.finishMessage, upstreamKeepAlive]
  · simp [endOfHeaders, decideFraming, Core.fail, upstreamKeepAlive]

theorem drain_probe {c : Core} (hs : c.state = .statusLine) (hr : c.config.requestWasHead = true)
    (hh : c.headers = [])
    (hdone : (responseMachine.drain c probe.bytes).1.state = .complete) :
    c.sawContentLength = false ∧ c.sawTransferEncoding = false ∧
    (responseMachine.drain c probe.bytes).1.upstreamKeepAlive = !c.closeRequested := by
  have hnil : probe.bytes ++ [] = probe.bytes := List.append_nil _
  have hne : (responseMachine.drain c (probe.bytes ++ [])).1.state ≠ .error := by
    rw [hnil, hdone]
    decide
  obtain ⟨ha, hdrain⟩ := follows_head probe c [] hs (by decide) hne
  obtain ⟨hstate, hkeep⟩ := endOfHeaders_probe c hr
  have hsaw : c.sawContentLength = false := by
    by_contra hsaw
    have hsaw' : (c.started probe.line).sawContentLength = true := by
      simpa [started, show ¬probe.line.status < 200 by decide] using hsaw
    have hget := ((acceptsAll_iff _ _).mp ha).2 hsaw' _ (List.mem_singleton_self _) (by decide)
    have hheaders : (c.started probe.line).headers = [] := by
      simpa [started, show ¬probe.line.status < 200 by decide] using hh
    rw [hheaders] at hget
    exact absurd hget (by decide)
  rw [hnil] at hdrain
  have hhalted : (probe.core c).endOfHeaders.Halted := by
    unfold Halted
    rw [hstate]
    split <;> simp
  rw [drain_halted hhalted] at hdrain
  rw [hdrain] at hdone ⊢
  have hte : c.sawTransferEncoding = false := by
    by_contra hte
    rw [hstate, if_pos (Bool.not_eq_false _ ▸ hte)] at hdone
    cases hdone
  exact ⟨hsaw, hte, by rw [hkeep, hte]; rfl⟩

theorem drain_probe_fresh (config : Config) (hr : config.requestWasHead = true)
    (hlim : probe.bytes.length ≤ config.maxHeaderBytes) :
    (responseMachine.drain (Core.fresh config) probe.bytes).1.state = .complete ∧
    (responseMachine.drain (Core.fresh config) probe.bytes).1.upstreamKeepAlive = true := by
  have hread := reads_head probe (Core.fresh config) [] rfl (by decide) (by decide) (by decide)
    ((acceptsAll_iff _ _).mpr ⟨⟨by decide, by decide, by decide⟩, fun h => by
      simp [started, show ¬probe.line.status < 200 by decide, Core.fresh] at h⟩)
    (fun f hf hcl => Or.inl (by
      simp [bodyless, started, show ¬probe.line.status < 200 by decide, Core.fresh, hr]))
    (by simpa [Core.fresh] using hlim)
  rw [List.append_nil] at hread
  obtain ⟨hstate, hkeep⟩ := endOfHeaders_probe (Core.fresh config) hr
  rw [hread.drain_eq, drain_halted (Or.inl hstate)]
  exact ⟨hstate, hkeep⟩

/-- **Which interim responses are transparent.** -/
theorem transparent_iff (is : List Interim) (hsize : (interimBlock is).length < 2 ^ 63) :
    Transparent is ↔ LeavesNoTrace is := by
  refine ⟨fun h => ?_, LeavesNoTrace.transparent⟩
  let size := (interimBlock is ++ probe.bytes).length
  let config : Config := { maxHeaderBytes := size, maxBodyBytes := 0, requestWasHead := true }
  have hprobe : probe.bytes.length = 38 := by decide
  have hlen : size = (interimBlock is).length + 38 := by
    rw [← hprobe, ← List.length_append]
  have hbuffer : config.bufferLimit = size := by
    have hmod : size % 2 ^ 64 = size := Nat.mod_eq_of_lt (by omega)
    exact hmod
  have hall := withinLimits_single config rfl (s := interimBlock is ++ probe.bytes)
    le_rfl hbuffer.ge
  have halone := withinLimits_single config rfl (s := probe.bytes)
    (show probe.bytes.length ≤ size by omega) (by rw [hbuffer]; omega)
  have hfinal : FinalResponse probe.bytes := ⟨probe.line, fieldSection probe.fields, by decide,
    by decide, by rw [← List.append_nil probe.bytes, probe.bytes_append, List.append_nil]⟩
  have hreport := h config probe.bytes _ _ hfinal (List.append_nil _) (List.append_nil _) hall halone
    (fun _ _ _ _ _ => Or.inl rfl)
  have hrun := (run_same_drain (admitted_of_fits hall.fits) (calm_of_lineFits hall.lines)).1
  have hrun' := (run_same_drain (admitted_of_fits halone.fits) (calm_of_lineFits halone.lines)).1
  rw [List.flatten_singleton] at hrun hrun'
  change (run config _).outcome = _ at hrun hrun'
  rw [hrun, hrun'] at hreport
  obtain ⟨hdone, hkeep⟩ := drain_probe_fresh config rfl (show probe.bytes.length ≤ size by omega)
  have hstate := (congrArg Report.state hreport).trans hdone
  have hreuse := (congrArg Report.upstreamKeepAlive hreport).trans hkeep
  change (responseMachine.drain (Core.fresh config) _).1.state = _ at hstate
  change (responseMachine.drain (Core.fresh config) _).1.upstreamKeepAlive = _ at hreuse
  obtain ⟨haccept, hdrain⟩ := follows_interims is (Core.fresh config) probe.bytes rfl
    (by rw [hstate]; decide)
  obtain ⟨k, n, status, reason, hpass⟩ := passedAll_fresh is config
  rw [hdrain] at hstate hreuse
  obtain ⟨hcl, hte, hkept⟩ := drain_probe (by rw [hpass]; rfl) (by rw [hpass]; rfl)
    (by rw [hpass]; rfl) hstate
  rw [hreuse] at hkept
  rw [hpass] at hcl hte hkept
  refine ⟨haccept, fun i hi f hf => ?_⟩
  rw [Option.mem_def] at hi
  simp only [hi, Option.any_some, List.any_eq_false, Bool.not_eq_true] at hcl hte
  simp only [hi, Option.any_some, Bool.true_eq, Bool.not_eq_true', List.any_eq_false,
    Bool.not_eq_true] at hkept
  exact ⟨by rw [ResponseField.isFraming, hcl f hf, hte f hf]; rfl, hkept f hf⟩

/-- An interim response without fields is transparent. -/
theorem transparent_iff_continue :
    let continued : Interim := ⟨⟨⟨ascii "HTTP/1.1", ascii "100", some (ascii "Continue"), http11_known,
      code100_digits, by decide⟩, []⟩, by decide, by decide, by decide⟩
    Transparent [continued] :=
  (transparent_iff _ (by decide)).mpr ⟨fun i hi => by
    rw [List.mem_singleton.mp hi]
    exact ⟨fun _ hf => (by cases hf), fun _ hf => (by cases hf), fun _ hf => (by cases hf)⟩,
    fun i hi f hf => by
    rw [Option.mem_def, List.getLast?_singleton, Option.some.injEq] at hi
    rw [← hi] at hf
    cases hf⟩

/-- `103 Early Hints` with `Connection: close`. -/
def earlyHints : Interim where
  head :=
    { line := ⟨ascii "HTTP/1.1", ascii "103", some (ascii "Early Hints"), http11_known, by decide,
        by decide⟩
      fields := [⟨ascii "Connection", ascii " ", ascii "close", [], by decide, ows_space, ows_nil,
        by decide, by decide⟩] }
  status := by decide
  notUpgrade := by decide
  valid := by decide

instance (c : Core) (u : Bytes) : Decidable (LineFits c u) := by
  unfold LineFits
  infer_instance

instance (c : Core) (u : Bytes) : Decidable (HeadersWithin c u) := by
  unfold HeadersWithin
  infer_instance

/-- After these early hints the connection of a final response is not kept. -/
theorem not_transparent_earlyHints : ¬Transparent [earlyHints] := fun h =>
  absurd (h {} (ascii "HTTP/1.1 204 No Content\r\n\r\n")
    [interimBlock [earlyHints] ++ ascii "HTTP/1.1 204 No Content\r\n\r\n"]
    [ascii "HTTP/1.1 204 No Content\r\n\r\n"]
    ⟨⟨ascii "HTTP/1.1", ascii "204", some (ascii "No Content"), by decide, by decide, by decide⟩,
      crlf, by decide, by decide, by decide⟩
    (by decide) (by decide)
    ⟨by decide, by decide, by decide⟩
    ⟨by decide, by decide, by decide⟩
    (by unfold LengthsWithin; decide)) (by decide +kernel)

end Aevrix.Proxy
