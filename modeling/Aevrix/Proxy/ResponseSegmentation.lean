import Aevrix.Proxy.ResponseRefinement

/-!
# Cuts in the response stream

Within its limits the response parser ends in the same place however the bytes are
cut into feeds, malformed streams and streams that end early included.
-/

namespace Aevrix.Proxy.ProxyResponseParser
open Aevrix.Http Incremental Core

/-! ### The configuration is fixed -/

theorem statusLineText_config (c : Core) (line : Bytes) :
    (c.statusLineText line).config = c.config := by
  unfold statusLineText Core.fail
  grind

theorem decideFraming_config (c : Core) : c.decideFraming.config = c.config := by
  unfold decideFraming Core.fail Core.finishMessage
  grind

theorem endOfHeaders_config (c : Core) : c.endOfHeaders.config = c.config := by
  simp only [endOfHeaders]
  split
  · rfl
  · rw [decideFraming_config]

theorem storeField_config (c : Core) (name value : Bytes) :
    (c.storeField name value).config = c.config := by
  unfold storeField contentLengthField transferEncodingField connectionField Core.fail
  grind

theorem headerLineText_config (c : Core) (line : Bytes) :
    (c.headerLineText line).config = c.config := by
  simp only [headerLineText]
  split
  · rfl
  split
  · rfl
  split
  · rfl
  split
  · rfl
  · rw [storeField_config]

theorem chunkSizeText_config (c : Core) (line : Bytes) :
    (c.chunkSizeText line).config = c.config := by
  unfold chunkSizeText Core.fail
  grind

theorem trailerLineText_config (c : Core) (line : Bytes) :
    (c.trailerLineText line).config = c.config := by
  unfold trailerLineText Core.fail
  grind

theorem onLine_config (c : Core) (line : Bytes) : (c.onLine line).config = c.config := by
  unfold onLine
  split
  · exact statusLineText_config ..
  · split
    · exact endOfHeaders_config ..
    · exact headerLineText_config ..
  · exact chunkSizeText_config ..
  · split
    · rfl
    · exact trailerLineText_config ..
  · rfl

theorem bodyByte_config (c : Core) (b : Byte) : (c.bodyByte b).config = c.config := by
  unfold bodyByte bodyLimit Core.fail Core.finishMessage
  grind

theorem chunkByte_config (c : Core) (b : Byte) : (c.chunkByte b).config = c.config := by
  unfold chunkByte bodyLimit Core.fail
  grind

theorem step_config {c c' : Core} {u u' : Bytes} (h : c.step u = some (c', u')) :
    c'.config = c.config := by
  rcases c.reads_cases with hl | hs | hs | hs | hh
  · rw [step_line hl] at h
    obtain ⟨⟨line, r⟩, hline, he⟩ := Option.map_eq_some_iff.mp h
    simp only [Prod.mk.injEq] at he
    rw [← he.1]
    exact onLine_config ..
  · simp only [step, hs] at h
    rcases stepBody_cases h with ⟨rfl, -⟩ | ⟨b, -, rfl⟩
    · rfl
    · exact bodyByte_config ..
  · simp only [step, hs] at h
    rcases stepChunkData_cases h with ⟨rfl, -⟩ | ⟨b, -, rfl⟩
    · rfl
    · exact chunkByte_config ..
  · simp only [step, hs] at h
    obtain ⟨a, b, -, rfl⟩ := stepChunkCrlf_cases h
    unfold chunkCrlf
    split <;> rfl
  · rw [step_halted hh] at h
    cases h

theorem visited_config (c : Core) (u : Bytes) :
    ∀ y ∈ responseMachine.visited c u, y.1.config = c.config := by
  induction c, u using Machine.run_induction (M := responseMachine) with
  | blocked c u h =>
    intro y hy
    rw [Machine.visited_none h, List.mem_singleton] at hy
    rw [hy]
  | progress c u c' u' h ih =>
    intro y hy
    rw [Machine.visited_some h, List.mem_cons] at hy
    rcases hy with rfl | hy
    · rfl
    · rw [ih y hy]
      exact step_config h

theorem guard_config (config : Config) (ds : List Bytes) :
    (responseGuard.run (Core.fresh config, []) ds).1.config = config :=
  responseGuard.run_preserves (P := fun c => c.config = config)
    (fun _ _ _ _ hc h => (step_config h).trans hc) (fun _ hc => hc)
    (fun c hc => by
      change c.tooLong.config = config
      unfold tooLong
      split <;> exact hc) rfl ds

/-! ### Limits -/

/-- The limit of an unfinished line in a state that reads lines. -/
def Core.lineLimit (c : Core) : ℕ :=
  if c.state = .chunkSize then maxLineLength else c.config.maxHeaderBytes

theorem calm_of_lines {c : Core} {s : Bytes}
    (h : ∀ y ∈ responseMachine.visited c s, y.1.ReadsLine →
      (frontLine y.2).length ≤ y.1.lineLimit) : responseGuard.Calm c s := by
  intro y hy v hv hb
  change y.1.step v = none at hb
  change y.1.overLimit v = false
  rcases y.1.reads_cases with hl | hs | hs | hs | hh
  · rw [step_line hl, Option.map_eq_none_iff] at hb
    have hle := Lines.prefix_le_front hv (Lines.splitPair_none.mp hb)
    have hlim := hle.trans (h y hy hl)
    unfold lineLimit at hlim
    rcases hl with hs | hs | hs | hs <;> simp only [hs, reduceCtorEq, if_false, if_true] at hlim <;>
      simp only [overLimit, hs, decide_eq_false_iff_not] <;> exact Nat.not_lt.mpr hlim
  · simp only [overLimit, hs]
  · simp only [overLimit, hs]
  · simp only [overLimit, hs]
  · exact overLimit_halted hh v

/-- Every line the parser comes to read in `s` is within both limits: status, header,
chunk-size and trailer lines, counted up to and including the CR, or up to the end of
`s` when unfinished. -/
def LinesWithin (config : Config) (s : Bytes) : Prop :=
  ∀ y ∈ responseMachine.visited (Core.fresh config) s, y.1.ReadsLine →
    (frontLine y.2).length ≤ min config.maxHeaderBytes maxLineLength

instance (config : Config) (s : Bytes) : Decidable (LinesWithin config s) := by
  unfold LinesWithin
  infer_instance

theorem calm_of_linesWithin {config : Config} {s : Bytes} (h : LinesWithin config s) :
    responseGuard.Calm (Core.fresh config) s := by
  refine calm_of_lines fun y hy hl => (h y hy hl).trans ?_
  unfold lineLimit
  split
  · exact Nat.min_le_right ..
  · rw [visited_config _ _ y hy]
    exact Nat.min_le_left ..

/-- Every feed finds room in the receive buffer. -/
def Fits (config : Config) (ds : List Bytes) : Prop :=
  ∀ pre d post, ds = pre ++ d :: post →
    (run config pre).available + d.length ≤ config.bufferLimit

theorem fits_iff {config : Config} {ds : List Bytes} : Fits config ds ↔
    ∀ i, (h : i < ds.length) → (run config (ds.take i)).available + ds[i].length ≤ config.bufferLimit := by
  constructor
  · intro hf i hi
    exact hf (ds.take i) ds[i] (ds.drop (i + 1)) (by simp)
  · rintro hf pre d post rfl
    simpa using hf pre.length (by simp)

instance (config : Config) (ds : List Bytes) : Decidable (Fits config ds) :=
  decidable_of_iff _ fits_iff.symm

theorem admitted_of_fits {config : Config} {ds : List Bytes} (h : Fits config ds) :
    responseGuard.Admitted (Core.fresh config, []) ds := by
  intro pre d post hd
  have hfit := h pre d post hd
  have hsame := run_refines config pre
  have hconf := guard_config config pre
  generalize hx : responseGuard.run (Core.fresh config, []) pre = x at hsame hconf
  change refuses x.1 x.2 d = false
  by_cases hh : x.1.Halted
  · simp [refuses, hh]
  · have heq := hsame.2 (mt hsame.halted.mp hh)
    have hdata : x.2.length = (run config pre).available := by
      rw [← heq, available_eq]
      rfl
    have hlt : ¬config.bufferLimit < x.2.length + d.length := by omega
    simp [refuses, hconf, hlt]

theorem admitted_of_length {config : Config} {ds : List Bytes}
    (h : ds.flatten.length ≤ config.bufferLimit) :
    responseGuard.Admitted (Core.fresh config, []) ds := by
  rintro pre d post rfl
  have hle := responseGuard.run_length_le (Core.fresh config, []) pre
  have hconf := guard_config config pre
  generalize responseGuard.run (Core.fresh config, []) pre = x at hle hconf
  change refuses x.1 x.2 d = false
  rw [List.flatten_append, List.flatten_cons, List.length_append, List.length_append] at h
  simp only [List.length_nil, Nat.zero_add] at hle
  have hlt : ¬config.bufferLimit < x.2.length + d.length := by omega
  simp [refuses, hconf, hlt]

/-- Feeds amount to one drain of all bytes, unless a limit ends them in an error. -/
theorem run_drain_or_error (config : Config) (ds : List Bytes) :
    (run config ds).outcome = (responseMachine.drain (Core.fresh config) ds.flatten).1.outcome ∨
      (run config ds).state = .error := by
  have hsame := (run_refines config ds).1
  have hstate : (run config ds).state = _ := congrArg Outcome.state hsame
  rcases responseGuard.run_cases (E := fun c => c.state = .error) (fun _ => rfl)
    (fun c => by change c.tooLong.state = .error; unfold tooLong; split <;> rfl)
    (fun _ h => Or.inr h) (Core.fresh config, []) rfl ds with hr | hr
  · rw [hr, List.nil_append] at hsame
    exact Or.inl hsame
  · exact Or.inr (hstate.trans hr)

theorem run_same_drain {config : Config} {ds : List Bytes}
    (ha : responseGuard.Admitted (Core.fresh config, []) ds)
    (hc : responseGuard.Calm (Core.fresh config) ds.flatten) :
    Same (cfg (run config ds)) (responseMachine.drain (Core.fresh config) ds.flatten) := by
  have hr := responseGuard.run_eq_drain (Core.fresh config, []) rfl ds ha hc
  rw [List.nil_append] at hr
  rw [← hr]
  exact run_refines config ds

/-! ### Independence -/

/-- The parser after the feeds and, when `eof`, after `finish_on_eof`. -/
def endOf (config : Config) (ds : List Bytes) (eof : Bool) : ProxyResponseParser :=
  if eof then (run config ds).finishOnEof.2 else run config ds

theorem endOf_outcome {config : Config} {ds : List Bytes} {x : Core × Bytes}
    (h : Same (cfg (run config ds)) x) (eof : Bool) :
    (endOf config ds eof).outcome = if eof then x.1.eof.outcome else x.1.outcome := by
  cases eof with
  | false => exact h.1
  | true =>
    simp only [endOf, if_true, (finishOnEof_outcome _).1]
    exact h.eof

/-- **The parser does not depend on segmentation.** -/
theorem response_segmentation_independent (config : Config) (s : Bytes) (hs : s.length ≤ config.bufferLimit)
    (hl : LinesWithin config s) (ds es : List Bytes) (hds : ds.flatten = s) (hes : es.flatten = s)
    (eof : Bool) : (endOf config ds eof).outcome = (endOf config es eof).outcome := by
  have hsame : ∀ fs : List Bytes, fs.flatten = s →
      Same (cfg (run config fs)) (responseMachine.drain (Core.fresh config) s) := by
    rintro fs rfl
    exact run_same_drain (admitted_of_length hs) (calm_of_linesWithin hl)
  rw [endOf_outcome (hsame ds hds), endOf_outcome (hsame es hes)]

/-- An interim response and a chunked one, cut inside a CRLF, a chunk and a trailer. -/
theorem response_segmentation_independent_chunked :
    (endOf {} [ascii "HTTP/1.1 100 Continue\r\n\r", ascii "\nHTTP/1.1 200 OK\r\nTransfer-Encoding: chu",
      ascii "nked\r\n\r\n3\r\nab", ascii "c\r\n0\r\nX: y\r", ascii "\n\r\n"] true).outcome =
    (endOf {} [ascii "HTTP/1.1 100 Continue\r\n\r\nHTTP/1.1 200 OK\r\n",
      ascii "Transfer-Encoding: chunked\r\n\r\n3\r\nabc\r\n0\r\nX: y\r\n\r\n"] true).outcome :=
  response_segmentation_independent {}
    (ascii "HTTP/1.1 100 Continue\r\n\r\nHTTP/1.1 200 OK\r\n" ++
      ascii "Transfer-Encoding: chunked\r\n\r\n3\r\nabc\r\n0\r\nX: y\r\n\r\n")
    (by decide) (by decide) _ _ (by decide) (by decide) true

end Aevrix.Proxy.ProxyResponseParser
