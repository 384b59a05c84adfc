import Aevrix.Proxy.ParserMemory
import Aevrix.Proxy.ResponseSegmentation

/-!
# The budget for response heads

`header_bytes_` counts every line of a head, but it is held against the limit only where a field
line is read. A run stays within the budget as long as the status lines and the empty lines, which
are taken unseen, fit into what is left of it (`head_within_budget`).
-/

namespace Aevrix.Proxy
open Aevrix.Http Incremental ProxyResponseParser ProxyResponseParser.Core

/-! ### Runs -/

/-- Lines of a head are read, or lines of a trailer section. -/
abbrev ProxyResponseParser.Core.ReadsHead (c : Core) : Prop :=
  c.state = .statusLine ∨ c.state = .headers ∨ c.state = .trailer

/-- The head is behind, or the message is. -/
abbrev ProxyResponseParser.Core.PastHead (c : Core) : Prop :=
  c.state ≠ .statusLine ∧ c.state ≠ .headers ∧ c.state ≠ .error

/-- The head bytes that the next turn takes. -/
def lineTaken (p : ProxyResponseParser) : ℕ :=
  if p.ReadsHead then match p.findCrlf with
    | some crlf => crlf + 2
    | none => 0
  else 0

/-- A status line or an empty line, if the next turn takes one, fits into the budget left. -/
def FitsBudget (p : ProxyResponseParser) : Prop := p.ReadsHead → ∀ crlf ∈ p.findCrlf,
  p.state = .statusLine ∨ crlf = 0 → p.headerBytes + (crlf + 2) ≤ p.config.maxHeaderBytes

instance (p : ProxyResponseParser) : Decidable (FitsBudget p) := by
  unfold FitsBudget
  infer_instance

/-- The parser is `p` after `taken` bytes of head lines, inside the loop of `process` or between
two calls, in a run whose turns are all taken where `ok` holds. -/
inductive Passes (config : Config) (ok : ProxyResponseParser → Prop) :
    Bool → ProxyResponseParser → ℕ → Prop
  | start : Passes config ok false (ProxyResponseParser.fresh config) 0
  | append {p : ProxyResponseParser} {taken : ℕ} {data : Bytes} :
      Passes config ok false p taken → Admits p data → Passes config ok true (p.append data) taken
  | turn {p : ProxyResponseParser} {taken : ℕ} : Passes config ok true p taken →
      ¬p.toCore.Halted → ok p → Passes config ok p.turn.1 p.turn.2 (taken + lineTaken p)
  | leave {p : ProxyResponseParser} {taken : ℕ} :
      Passes config ok true p taken → p.toCore.Halted → Passes config ok false p taken
  | refuse {p : ProxyResponseParser} {taken : ℕ} {data : Bytes} : Passes config ok false p taken →
      ¬Admits p data → Passes config ok false (p.feed data) taken
  | finishOnEof {p : ProxyResponseParser} {taken : ℕ} : Passes config ok false p taken →
      Passes config ok false p.finishOnEof.2 taken

section passes
variable {config : Config} {ok : ProxyResponseParser → Prop}

theorem halted_iff {p : ProxyResponseParser} :
    (p.isComplete || p.hasError) = true ↔ p.toCore.Halted := by
  simp only [isComplete, hasError, Bool.or_eq_true, beq_iff_eq, Halted]

theorem passes_process (hok : ∀ p, ok p) (turns : ℕ) {p : ProxyResponseParser} {taken : ℕ}
    (h : Passes config ok true p taken) (hm : measure p.toCore p.data < turns) :
    ∃ taken', Passes config ok false (process turns p) taken' := by
  induction turns generalizing p taken with
  | zero => omega
  | succ turns ih =>
    rw [process]
    split
    · rename_i hhalted
      exact ⟨taken, h.leave (halted_iff.mp hhalted)⟩
    · rename_i hgoes
      have hh : ¬p.toCore.Halted := fun hh => hgoes (halted_iff.mpr hh)
      have hturn := h.turn hh (hok p)
      have hspec := turn_spec p hh
      rcases ht : p.turn with ⟨again, q⟩
      rw [TurnSpec, ht] at hspec
      rw [ht] at hturn
      cases again with
      | false => exact ⟨_, hturn⟩
      | true =>
        have hless := (hspec.1 rfl).2
        simp only [cfg] at hless
        exact ih hturn (by omega)

theorem passes_feed (hok : ∀ p, ok p) {p : ProxyResponseParser} {taken : ℕ}
    (h : Passes config ok false p taken) (data : Bytes) :
    ∃ taken', Passes config ok false (p.feed data) taken' := by
  by_cases hadmits : Admits p data
  · obtain ⟨herror, hcomplete, hdata, hfits⟩ := hadmits
    have hrun := h.append ⟨herror, hcomplete, hdata, hfits⟩
    have hle := measure_le (p.append data).toCore (p.append data).data
    have hfeed : p.feed data = process (2 * (p.append data).available + 2) (p.append data) := by
      simp only [feed, herror, hcomplete, hdata, Bool.false_eq_true, if_false, or_self,
        if_neg (Nat.not_lt.mpr hfits)]
    rw [hfeed]
    refine passes_process hok _ hrun ?_
    rw [available_eq]
    omega
  · exact ⟨taken, h.refuse hadmits⟩

theorem passes_reached (hok : ∀ p, ok p) (inputs : List Input) :
    ∃ taken, Passes config ok false (reached config inputs) taken := by
  have hstart : ∃ taken, Passes config ok false (ProxyResponseParser.fresh config) taken :=
    ⟨0, .start⟩
  unfold reached
  generalize ProxyResponseParser.fresh config = p at hstart
  induction inputs generalizing p with
  | nil => exact hstart
  | cons input inputs ih =>
    obtain ⟨taken, h⟩ := hstart
    refine ih _ ?_
    cases input with
    | feed data => exact passes_feed hok h data
    | finishOnEof => exact ⟨taken, h.finishOnEof⟩
end passes

/-! ### The count -/

/-- What has been taken of heads is what is counted, and it is within the budget. -/
structure Tallied (config : Config) (p : ProxyResponseParser) (taken : ℕ) : Prop where
  sameLimits : p.config = config
  counted : ¬p.toCore.Halted → taken = p.headerBytes
  within : p.state ≠ .error → taken ≤ config.maxHeaderBytes

section tallied
variable {config : Config} {p : ProxyResponseParser} {taken : ℕ}

theorem Tallied.update {q : ProxyResponseParser} {c : Core} (hconfig : c.config = config)
    (hcounted : ¬c.Halted → taken = c.headerBytes)
    (hwithin : c.state ≠ .error → taken ≤ config.maxHeaderBytes) :
    Tallied config (q.update c) taken := by
  refine ⟨?_, ?_, ?_⟩
  · rw [update_toCore]
    exact hconfig
  · rw [update_toCore]
    exact hcounted
  · rw [update_toCore]
    exact hwithin

theorem Tallied.fail {q : ProxyResponseParser} (h : Tallied config p taken)
    (hq : q.toCore = p.toCore) (n : ℕ) (message : Bytes) : Tallied config (q.fail message) n := by
  refine .update ?_ (fun hh => (hh (Or.inr rfl)).elim) (fun he => (he rfl).elim)
  rw [hq]
  exact h.sameLimits

theorem Tallied.finish {q : ProxyResponseParser} (hconfig : q.config = config)
    (hwithin : taken ≤ config.maxHeaderBytes) : Tallied config q.finishMessage taken :=
  .update hconfig (fun hn => (hn (Or.inl rfl)).elim) fun _ => hwithin

theorem statusLineText_counts (c : Core) (line : Bytes) :
    (c.statusLineText line).headerBytes = c.headerBytes + (line.length + 2) := by
  unfold statusLineText Core.fail
  grind

theorem decideFraming_counts (c : Core) : c.decideFraming.headerBytes = c.headerBytes := by
  unfold decideFraming Core.fail Core.finishMessage
  grind

theorem endOfHeaders_counts (c : Core) : c.endOfHeaders.headerBytes = c.headerBytes + 2 := by
  simp only [endOfHeaders]
  split
  · rfl
  · rw [decideFraming_counts]

theorem storeField_counts (c : Core) (name value : Bytes) :
    (c.storeField name value).headerBytes = c.headerBytes := by
  unfold storeField contentLengthField transferEncodingField connectionField Core.fail
  grind

theorem headerLineText_counts (c : Core) (line : Bytes) : (c.headerLineText line).state = .error ∨
    (c.headerLineText line).headerBytes = c.headerBytes + (line.length + 2) ∧
      c.headerBytes + (line.length + 2) ≤ c.config.maxHeaderBytes := by
  simp only [headerLineText]
  split
  · exact Or.inl rfl
  split
  · exact Or.inl rfl
  rename_i hmax
  split
  · exact Or.inl rfl
  split
  · exact Or.inl rfl
  · exact Or.inr ⟨storeField_counts _ _ _, Nat.not_lt.mp hmax⟩

theorem trailerLineText_counts (c : Core) (line : Bytes) : (c.trailerLineText line).state = .error ∨
    (c.trailerLineText line).headerBytes = c.headerBytes + (line.length + 2) ∧
      c.headerBytes + (line.length + 2) ≤ c.config.maxHeaderBytes := by
  simp only [trailerLineText]
  split
  · exact Or.inl rfl
  split
  · exact Or.inl rfl
  split
  · exact Or.inl rfl
  · rename_i hmax
    exact Or.inr ⟨rfl, Nat.not_lt.mp hmax⟩

theorem chunkSizeText_counts (c : Core) (line : Bytes) :
    (c.chunkSizeText line).headerBytes = c.headerBytes := by
  unfold chunkSizeText Core.fail
  grind

theorem length_take_line {crlf : ℕ} (hcrlf : p.findCrlf = some crlf) :
    (p.data.take crlf).length = crlf := by
  have hbound := Lines.findPair_bound (a := CR) (b := LF) hcrlf
  exact length_take_data p (by omega)

/-- A turn that takes the line in front of the CRLF, and what becomes of it. -/
theorem tallied_line (h : Tallied config p taken) (hh : ¬p.toCore.Halted) {crlf : ℕ} {next : Core}
    (hconfig : next.config = config)
    (hnext : next.state = .error ∨ next.headerBytes = p.headerBytes + (crlf + 2) ∧
      p.headerBytes + (crlf + 2) ≤ config.maxHeaderBytes) :
    Tallied config ((p.consume (crlf + 2)).update next) (taken + (crlf + 2)) := by
  have hcount := h.counted hh
  refine .update hconfig (fun hn => ?_) fun he => ?_
  · rcases hnext with he | ⟨hbytes, -⟩
    · exact (hn (Or.inr he)).elim
    · rw [hbytes, hcount]
  · rcases hnext with he' | ⟨-, hmax⟩
    · exact (he he').elim
    · omega

theorem tallied_statusLine (h : Tallied config p taken) (hs : p.state = .statusLine)
    (hfits : FitsBudget p) : Tallied config p.turn.2 (taken + lineTaken p) := by
  have hh : ¬p.toCore.Halted := by simp [Halted, hs]
  have hreads : p.ReadsHead := Or.inl hs
  simp only [turn, hs, parseStatusLine, lineTaken, if_pos hreads]
  cases hcrlf : p.findCrlf with
  | none =>
    simp only
    split
    · exact h.fail rfl _ _
    · exact h
  | some crlf =>
    have hmax := hfits hreads crlf hcrlf (Or.inl hs)
    rw [h.sameLimits] at hmax
    simp only [takeLine, consume_toCore]
    refine tallied_line h hh ?_ (Or.inr ⟨?_, hmax⟩)
    · rw [statusLineText_config]
      exact h.sameLimits
    · rw [statusLineText_counts, length_take_line hcrlf]

theorem tallied_headers (h : Tallied config p taken) (hs : p.state = .headers)
    (hfits : FitsBudget p) : Tallied config p.turn.2 (taken + lineTaken p) := by
  have hh : ¬p.toCore.Halted := by simp [Halted, hs]
  have hreads : p.ReadsHead := Or.inr (Or.inl hs)
  simp only [turn, hs, parseHeaderLine, lineTaken, if_pos hreads]
  cases hcrlf : p.findCrlf with
  | none =>
    simp only
    split
    · exact h.fail rfl _ _
    · exact h
  | some crlf =>
    cases crlf with
    | zero =>
      have hmax := hfits hreads 0 hcrlf (Or.inr rfl)
      rw [h.sameLimits] at hmax
      simp only [consume_toCore]
      refine tallied_line h hh ?_ (Or.inr ⟨?_, hmax⟩)
      · rw [ProxyResponseParser.endOfHeaders_config]
        exact h.sameLimits
      · rw [endOfHeaders_counts]
    | succ crlf =>
      have hcounts := headerLineText_counts p.toCore (p.data.take (crlf + 1))
      rw [length_take_line hcrlf, h.sameLimits] at hcounts
      simp only [takeLine, consume_toCore]
      refine tallied_line h hh ?_ hcounts
      rw [headerLineText_config]
      exact h.sameLimits

theorem tallied_trailer (h : Tallied config p taken) (hs : p.state = .trailer)
    (hfits : FitsBudget p) : Tallied config p.turn.2 (taken + lineTaken p) := by
  have hh : ¬p.toCore.Halted := by simp [Halted, hs]
  have hreads : p.ReadsHead := Or.inr (Or.inr hs)
  simp only [turn, hs, parseTrailerLine, lineTaken, if_pos hreads]
  cases hcrlf : p.findCrlf with
  | none =>
    simp only
    split
    · exact h.fail rfl _ _
    · exact h
  | some crlf =>
    cases crlf with
    | zero =>
      -- the last line is not counted, but the message is complete
      have hmax := hfits hreads 0 hcrlf (Or.inr rfl)
      have hcount := h.counted hh
      rw [h.sameLimits] at hmax
      have hwithin : taken + (0 + 2) ≤ config.maxHeaderBytes := by omega
      refine .finish ?_ hwithin
      rw [consume_toCore]
      exact h.sameLimits
    | succ crlf =>
      have hcounts := trailerLineText_counts p.toCore (p.data.take (crlf + 1))
      rw [length_take_line hcrlf, h.sameLimits] at hcounts
      simp only [takeLine, consume_toCore]
      refine tallied_line h hh ?_ hcounts
      rw [trailerLineText_config]
      exact h.sameLimits

/-- A turn that takes no head line leaves the count as it is. -/
structure KeepsCount (p q : ProxyResponseParser) : Prop where
  config : q.config = p.config
  headerBytes : q.headerBytes = p.headerBytes

theorem keepsCount_update {q : ProxyResponseParser} {c : Core} (hconfig : c.config = p.config)
    (hbytes : c.headerBytes = p.headerBytes) : KeepsCount p (q.update c) := by
  refine ⟨?_, ?_⟩
  · rw [update_toCore]
    exact hconfig
  · rw [update_toCore]
    exact hbytes

theorem keepsCount_fail (message : Bytes) : KeepsCount p (p.fail message) :=
  keepsCount_update rfl rfl

theorem keepsCount_finishMessage {q : ProxyResponseParser} (h : KeepsCount p q) :
    KeepsCount p q.finishMessage := keepsCount_update h.config h.headerBytes

theorem keepsCount_takeBody (n : ℕ) : KeepsCount p (p.takeBody n) := by
  refine ⟨?_, ?_⟩
  · rw [takeBody_toCore]
  · rw [takeBody_toCore]

theorem keepsCount_parseBody : KeepsCount p p.parseBody.2 := by
  unfold parseBody
  split
  · simp only
    split
    · exact keepsCount_finishMessage ⟨rfl, rfl⟩
    split
    · exact ⟨rfl, rfl⟩
    have htake := keepsCount_takeBody (p := p) (min (p.contentLength - p.body.length) p.available)
    split
    · exact keepsCount_finishMessage htake
    · exact htake
  · simp only
    split
    · exact ⟨rfl, rfl⟩
    split
    · exact keepsCount_fail _
    · exact keepsCount_takeBody _

theorem keepsCount_parseChunkData : KeepsCount p p.parseChunkData.2 := by
  unfold parseChunkData
  split
  · exact ⟨rfl, rfl⟩
  simp only
  split
  · exact ⟨rfl, rfl⟩
  split
  · exact keepsCount_fail _
  have htake := keepsCount_takeBody (p := p) (min p.chunkRemaining p.available)
  split
  · exact ⟨htake.config, htake.headerBytes⟩
  · exact ⟨htake.config, htake.headerBytes⟩

theorem turn_keepsCount (hs : ¬p.ReadsHead) : KeepsCount p p.turn.2 := by
  simp only [not_or] at hs
  cases hstate : p.state with
  | statusLine => exact (hs.1 hstate).elim
  | headers => exact (hs.2.1 hstate).elim
  | trailer => exact (hs.2.2 hstate).elim
  | complete =>
    simp only [turn, hstate]
    exact ⟨rfl, rfl⟩
  | error =>
    simp only [turn, hstate]
    exact ⟨rfl, rfl⟩
  | body =>
    simp only [turn, hstate]
    exact keepsCount_parseBody
  | chunkSize =>
    simp only [turn, hstate, parseChunkSize]
    split
    · split
      · exact keepsCount_fail _
      · exact ⟨rfl, rfl⟩
    · simp only [takeLine, consume_toCore]
      exact keepsCount_update (chunkSizeText_config ..) (chunkSizeText_counts ..)
  | chunkData =>
    simp only [turn, hstate]
    exact keepsCount_parseChunkData
  | chunkDataCrlf =>
    simp only [turn, hstate, parseChunkCrlf]
    split
    · split
      · exact keepsCount_fail _
      · exact ⟨by rw [put_toCore], by rw [put_toCore]⟩
    · exact ⟨rfl, rfl⟩

theorem tallied_turn (h : Tallied config p taken) (hh : ¬p.toCore.Halted) (hfits : FitsBudget p) :
    Tallied config p.turn.2 (taken + lineTaken p) := by
  by_cases hreads : p.ReadsHead
  · rcases hreads with hs | hs | hs
    · exact tallied_statusLine h hs hfits
    · exact tallied_headers h hs hfits
    · exact tallied_trailer h hs hfits
  · obtain ⟨hconfig, hbytes⟩ := turn_keepsCount hreads
    have hnone : lineTaken p = 0 := if_neg hreads
    have herror : p.state ≠ .error := fun he => hh (Or.inr he)
    rw [hnone]
    refine ⟨hconfig.trans h.sameLimits, fun _ => ?_, fun _ => h.within herror⟩
    rw [hbytes]
    exact h.counted hh

theorem tallied_passes {busy : Bool} (h : Passes config FitsBudget busy p taken) :
    Tallied config p taken := by
  induction h with
  | start => exact ⟨rfl, fun _ => rfl, fun _ => Nat.zero_le _⟩
  | append _ _ ih => exact ⟨ih.sameLimits, ih.counted, ih.within⟩
  | turn _ hh hfits ih => exact tallied_turn ih hh hfits
  | leave _ _ ih => exact ih
  | refuse _ hrefuses ih =>
    unfold feed
    split
    · exact ih
    · split
      · exact ih
      split
      · exact ih.fail rfl _ _
      · rename_i herror hquiet hfits
        rw [Bool.not_eq_true] at herror
        rw [not_or, Bool.not_eq_true] at hquiet
        exact (hrefuses ⟨herror, hquiet.1, hquiet.2, Nat.not_lt.mp hfits⟩).elim
  | finishOnEof _ ih =>
    unfold ProxyResponseParser.finishOnEof
    split
    · exact ih
    split
    · exact ih
    split
    · rename_i hcomplete herror hbody
      refine .finish ih.sameLimits (ih.within ?_)
      rw [hbody.1]
      decide
    · exact ih.fail rfl _ _

/-- Where every status line and every empty line fits when it is taken, no more head bytes than the
budget are behind a parser that is past the head. -/
theorem head_within_budget {busy : Bool} (h : Passes config FitsBudget busy p taken)
    (hpast : p.PastHead) : taken ≤ config.maxHeaderBytes :=
  (tallied_passes h).within hpast.2.2
end tallied

/-! ### A long status line -/

/-- A limit for the head, and room for a small body. -/
def headLimit (limit : ℕ) : Config where
  maxHeaderBytes := limit
  maxBodyBytes := 20

/-- A head of 26 bytes that has no field lines. -/
def longReason : Bytes := ascii "HTTP/1.1 200 Well done\r\n\r\n"

/-- The parser that has `longReason` in its buffer. -/
def longReasonFed (limit : ℕ) : ProxyResponseParser :=
  (ProxyResponseParser.fresh (headLimit limit)).append longReason

theorem passes_longReason {limit : ℕ} (hlimit : limit = 20 ∨ limit = 26)
    {ok : ProxyResponseParser → Prop} (hline : ok (longReasonFed limit))
    (hempty : ok (longReasonFed limit).turn.2) :
    Passes (headLimit limit) ok true (longReasonFed limit).turn.2.turn.2 26 := by
  have hfed : Passes (headLimit limit) ok true (longReasonFed limit) 0 := by
    refine Passes.start.append ⟨rfl, rfl, by decide, ?_⟩
    rcases hlimit with rfl | rfl <;> decide
  have hhead := hfed.turn (by rcases hlimit with rfl | rfl <;> decide) hline
  have hagain : (longReasonFed limit).turn.1 = true := by
    rcases hlimit with rfl | rfl <;> decide
  rw [hagain] at hhead
  have hbody := hhead.turn (by rcases hlimit with rfl | rfl <;> decide) hempty
  have hwaits : (longReasonFed limit).turn.2.turn.1 = true := by
    rcases hlimit with rfl | rfl <;> decide
  have htaken : 0 + lineTaken (longReasonFed limit) + lineTaken (longReasonFed limit).turn.2 = 26 := by
    rcases hlimit with rfl | rfl <;> decide
  rwa [hwaits, htaken] at hbody

/-- With a limit of 20 the whole head is taken all the same, and a body is waited for. -/
theorem longReason_over_budget : (longReasonFed 20).turn.2.turn.2.PastHead ∧
    (headLimit 20).maxHeaderBytes < 26 ∧
    Passes (headLimit 20) (fun _ => True) true (longReasonFed 20).turn.2.turn.2 26 ∧
    (reached (headLimit 20) [.feed longReason]).state = .body :=
  ⟨by decide, by decide, passes_longReason (Or.inl rfl) trivial trivial, by decide⟩

/-- With a limit of 26 the same head fits. -/
theorem head_within_budget_longReason : (longReasonFed 26).turn.2.turn.2.PastHead ∧
    26 ≤ (headLimit 26).maxHeaderBytes := by
  have hrun : Passes (headLimit 26) FitsBudget true (longReasonFed 26).turn.2.turn.2 26 :=
    passes_longReason (Or.inr rfl) (by decide) (by decide)
  exact ⟨by decide, head_within_budget hrun (by decide)⟩

end Aevrix.Proxy
