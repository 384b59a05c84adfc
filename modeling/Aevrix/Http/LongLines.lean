import Aevrix.Http.RequestLines

/-!
# Lines that are too long

A request line and a field line are held against their limits at the end of a feed, while their
CRLF is missing, and never once it is there. So a line that is too long is refused where a feed ends
in it, past its limit, and is taken where none does (`limits_iff`, `complete_iff`).
-/

namespace Aevrix.Http
open Incremental HttpRequestParser HttpRequestParser.Core

/-! ### The feeds of a message -/

/-- The feeds of the message that the parser is at: a Complete one is discarded by the next feed. -/
def message (config : ParserConfig) (ds : List Bytes) : List Bytes :=
  ds.foldl (fun es d => if (run config es).isComplete then [d] else es ++ [d]) []

section message
variable {config : ParserConfig}

theorem run_concat (ds : List Bytes) (d : Bytes) : run config (ds ++ [d]) = (run config ds).feed d := by
  rw [run, List.foldl_append]
  rfl

theorem message_concat (ds : List Bytes) (d : Bytes) : message config (ds ++ [d]) =
    if (run config (message config ds)).isComplete then [d] else message config ds ++ [d] := by
  rw [message, List.foldl_append]
  rfl

theorem feed_complete {p : HttpRequestParser} (hc : p.isComplete = true) (d : Bytes) :
    p.feed d = (HttpRequestParser.fresh p.config).feed d := by
  have hs : p.state = .complete := by simpa [isComplete] using hc
  have hfresh : (HttpRequestParser.fresh p.config).state = .requestLine := rfl
  simp only [HttpRequestParser.feed, hasError, isComplete, HttpRequestParser.reset, hs, hfresh,
    beq_iff_eq, reduceCtorEq, if_false, if_true]

theorem feed_config (p : HttpRequestParser) (d : Bytes) : (p.feed d).config = p.config := by
  have hlive (q : HttpRequestParser) (hc : q.state ≠ .complete) (he : q.state ≠ .error) :
      (q.feed d).config = q.config := by
    rw [feed_refines q hc he d]
    exact requestGuard.run_preserves (P := fun c => c.config = q.config)
      (fun _ _ _ _ hp hstep => (step_config hstep).trans hp) (fun _ hp => hp)
      (fun c hp => by
        show (c.tooLong).config = q.config
        unfold tooLong
        split <;> exact hp) (x := (q.toCore, q.buffer)) rfl [d]
  by_cases he : p.state = .error
  · rw [feed_error p he]
  by_cases hc : p.isComplete = true
  · rw [feed_complete hc]
    exact hlive (.fresh p.config) ParserState.noConfusion ParserState.noConfusion
  · exact hlive p (by simpa [isComplete] using hc) he

theorem run_config (ds : List Bytes) : (run config ds).config = config := by
  induction ds using List.reverseRecOn with
  | nil => rfl
  | append_singleton ds d ih => rw [run_concat, feed_config, ih]

theorem run_message (ds : List Bytes) : run config (message config ds) = run config ds := by
  induction ds using List.reverseRecOn with
  | nil => rfl
  | append_singleton ds d ih =>
    rw [message_concat, run_concat, ← ih]
    cases hc : (run config (message config ds)).isComplete with
    | true =>
      rw [if_pos rfl, feed_complete hc, run_config]
      rfl
    | false => rw [if_neg Bool.false_ne_true, run_concat]

theorem notEarly_single (d : Bytes) : NotEarly config [d] := by
  intro n hn
  obtain rfl : n = 0 := by simpa using hn
  exact ParserState.noConfusion

theorem notEarly_message (ds : List Bytes) : NotEarly config (message config ds) := by
  induction ds using List.reverseRecOn with
  | nil => exact fun n hn => absurd hn (Nat.not_lt_zero n)
  | append_singleton ds d ih =>
    rw [message_concat]
    cases hc : (run config (message config ds)).isComplete with
    | true =>
      rw [if_pos rfl]
      exact notEarly_single d
    | false =>
      rw [if_neg Bool.false_ne_true]
      intro n hn
      rw [List.length_append, List.length_singleton] at hn
      rw [List.take_append_of_le_length (by omega)]
      by_cases hlt : n < (message config ds).length
      · exact ih n hlt
      · rw [List.take_of_length_le (by omega)]
        simpa [isComplete] using hc

end message

/-! ### Where a feed may end -/

/-- A line of the head: where it begins, its length without the CRLF, and its limit. -/
structure PlacedLine where
  start : ℕ
  length : ℕ
  limit : ℕ

namespace PlacedLine

def Overlong (line : PlacedLine) : Prop := line.limit < line.length

/-- The first `stop` bytes end in the line, past its limit and before its CRLF is there. -/
def CutAt (line : PlacedLine) (stop : ℕ) : Prop :=
  line.start + line.limit < stop ∧ stop < line.start + line.length + 2

end PlacedLine

/-- The field lines, and the empty line behind them. -/
def placeFields (limit start : ℕ) : List Bytes → List PlacedLine
  | [] => [⟨start, 0, limit⟩]
  | field :: fields =>
    ⟨start, field.length, limit⟩ :: placeFields limit (start + field.length + 2) fields

def placeHead (config : ParserConfig) (first : Bytes) (fields : List Bytes) : List PlacedLine :=
  ⟨0, first.length, config.maxRequestLineBytes⟩ ::
    placeFields config.maxHeaderFieldBytes (first.length + 2) fields

/-- A feed ends in a line of the head, past the limit of the line. -/
def Exposed (config : ParserConfig) (ds : List Bytes) (first : Bytes) (fields : List Bytes) : Prop :=
  ∃ line ∈ placeHead config first fields, ∃ n, line.CutAt (ds.take n).flatten.length

section cuts
variable {config : ParserConfig} {c : Core} {v rest line : Bytes}

theorem placeFields_start {limit start : ℕ} {fields : List Bytes} {x : PlacedLine}
    (hx : x ∈ placeFields limit start fields) : start ≤ x.start := by
  induction fields generalizing start with
  | nil => rw [List.mem_singleton.mp hx]
  | cons field fields ih =>
    rcases List.mem_cons.mp hx with rfl | hx
    · exact Nat.le_refl _
    · have hlater := ih hx
      omega

/-- A front of a line with its CRLF ends before the CRLF is there, or behind it. -/
theorem prefix_line (hline : findCrlf line = none) (hv : v <+: line ++ crlf ++ rest) :
    v.length < line.length + 2 ∧ findCrlf v = none ∨
      ∃ v', v = line ++ crlf ++ v' ∧ v' <+: rest := by
  have hlength : (line ++ crlf).length = line.length + 2 := by
    rw [List.length_append]
    rfl
  by_cases hshort : v.length < line.length + 2
  · refine Or.inl ⟨hshort, ?_⟩
    cases hk : findCrlf v with
    | none => rfl
    | some k =>
      obtain ⟨x, hx⟩ := hv
      have hwhole := Lines.findPair_append x hk
      have hbound := Lines.findPair_bound hk
      rw [hx, List.append_assoc] at hwhole
      have hfront := Lines.findPair_line CR_ne_LF hline rest
      rw [show line ++ (crlf ++ rest) = line ++ CR :: LF :: rest from rfl, hfront] at hwhole
      have := Option.some.inj hwhole
      omega
  · right
    obtain ⟨v', rfl⟩ := List.prefix_of_prefix_length_le (List.prefix_append (line ++ crlf) rest) hv
      (by omega)
    exact ⟨v', rfl, (List.prefix_append_right_inj _).mp hv⟩

/-- What the parser holds of a line of the head when a feed ends in it. -/
theorem overLimit_inLine (hs : c.state = .requestLine ∨ c.state = .headers)
    (hv : findCrlf v = none) :
    (requestMachine.drain c v).1.overLimit (requestMachine.drain c v).2 = c.overLimit v := by
  have hblocked : c.step v = none := by
    rcases hs with hs | hs
    · simp only [step, hs, splitLine_eq, hv, Option.map_none]
    · simp only [step, hs, splitLine_eq, hv, Option.map_none]
  rw [drain_blocked hblocked]

theorem overLimit_past (h : PastHead c) : c.overLimit v = false := by
  rcases h with hs | hs | ⟨hs, -⟩
  · simp only [overLimit, hs]
  · simp only [overLimit, hs]
  · simp only [overLimit, hs]

theorem drain_line (hs : c.state = .headers) (hline : findCrlf line = none) (rest : Bytes) :
    requestMachine.drain c (line ++ crlf ++ rest) =
      requestMachine.drain (c.onHeaderLine line) rest := by
  have hsplit := splitLine_append_crlf hline rest
  rw [List.append_assoc] at hsplit ⊢
  refine drain_step ?_
  simp only [step, hs, hsplit, Option.map_some]

/-- A field line that the parser gets past was taken. -/
theorem onHeaderLine_goes_on (hs : c.state = .headers) (hne : line ≠ [])
    (hpast : PastHead (requestMachine.drain (c.onHeaderLine line) rest).1) :
    (c.onHeaderLine line).state = .headers ∧ (c.onHeaderLine line).config = c.config := by
  rw [onHeaderLine, if_neg hne] at hpast ⊢
  rcases headerText_state c line with ⟨-, hst⟩ | ⟨hbad, hst⟩
  · exact ⟨hst.trans hs, headerText_config c line⟩
  · rw [drain_blocked (step_error hst rest)] at hpast
    rcases headerText_error c line with hgood | hmessage
    · rw [hbad] at hgood
      cases hgood
    · exact (not_pastHead_error hst hmessage hpast).elim

theorem pastHead_endOfHeaders (c : Core) : PastHead c.endOfHeaders := by
  unfold endOfHeaders
  split
  · exact Or.inl rfl
  · exact Or.inr (Or.inl rfl)

/-- Only a line that the first `stop` bytes end in may be cut there. -/
theorem cutAt_cons {limit start stop : ℕ} {field : Bytes} {fields : List Bytes}
    (hstop : stop < start + field.length + 2) :
    (∃ x ∈ placeFields limit start (field :: fields), x.CutAt stop) ↔ start + limit < stop := by
  constructor
  · rintro ⟨x, hx, hcut⟩
    rcases List.mem_cons.mp hx with rfl | hx
    · exact hcut.1
    · have hstart := placeFields_start hx
      have hpast := hcut.1
      omega
  · exact fun hover => ⟨_, List.mem_cons_self, hover, hstop⟩

theorem cutAt_tail {limit start stop : ℕ} {field : Bytes} {fields : List Bytes}
    (hstop : start + field.length + 2 ≤ stop) :
    (∃ x ∈ placeFields limit start (field :: fields), x.CutAt stop) ↔
      ∃ x ∈ placeFields limit (start + field.length + 2) fields, x.CutAt stop := by
  constructor
  · rintro ⟨x, hx, hcut⟩
    rcases List.mem_cons.mp hx with rfl | hx
    · exact absurd hcut.2 (Nat.not_lt.mpr hstop)
    · exact ⟨x, hx, hcut⟩
  · rintro ⟨x, hx, hcut⟩
    exact ⟨x, List.mem_cons_of_mem _ hx, hcut⟩

/-- Where a feed ends among the field lines, the parser is over its limit just if the end cuts one
of them past it. -/
theorem overLimit_fields {fields : List Bytes} (start : ℕ) (hs : c.state = .headers)
    (hfields : ∀ l ∈ fields, l ≠ [] ∧ findCrlf l = none)
    (hpast : PastHead (requestMachine.drain c (lineBlock fields ++ rest)).1)
    (hv : v <+: lineBlock fields ++ rest) :
    (requestMachine.drain c v).1.overLimit (requestMachine.drain c v).2 = true ↔
      ∃ x ∈ placeFields c.config.maxHeaderFieldBytes start fields, x.CutAt (start + v.length) := by
  induction fields generalizing c v start with
  | nil =>
    rcases prefix_line (show findCrlf [] = none from rfl) hv with ⟨hshort, hnone⟩ | ⟨v', rfl, -⟩
    · rw [overLimit_inLine (Or.inr hs) hnone]
      simp only [overLimit, hs, decide_eq_true_eq, placeFields, List.mem_singleton,
        exists_eq_left, PlacedLine.CutAt]
      rw [List.length_nil] at hshort
      omega
    · have hend : c.onHeaderLine [] = c.endOfHeaders := if_pos rfl
      rw [drain_line hs rfl, hend, overLimit_past (drain_pastHead v' (pastHead_endOfHeaders c)).1]
      refine iff_of_false Bool.false_ne_true ?_
      rintro ⟨x, hx, -, hstop⟩
      rw [List.mem_singleton.mp hx] at hstop
      simp only [List.nil_append, List.length_append, crlf, List.length_cons] at hstop
      omega
  | cons field fields ih =>
    obtain ⟨⟨hne, hline⟩, hfields⟩ := List.forall_mem_cons.mp hfields
    rw [lineBlock_cons] at hv hpast
    rcases prefix_line hline hv with ⟨hshort, hnone⟩ | ⟨v', rfl, hv'⟩
    · rw [overLimit_inLine (Or.inr hs) hnone, cutAt_cons (by omega)]
      simp only [overLimit, hs, decide_eq_true_eq]
      omega
    · rw [drain_line hs hline] at hpast ⊢
      obtain ⟨hs', hconfig⟩ := onHeaderLine_goes_on hs hne hpast
      have hlength : (field ++ crlf ++ v').length = field.length + 2 + v'.length := by
        simp only [List.length_append, crlf, List.length_cons, List.length_nil]
      rw [ih (start + field.length + 2) hs' hfields hpast hv', hconfig,
        cutAt_tail (by omega), hlength]
      simp only [Nat.add_assoc]

theorem onRequestLine_goes_on
    (hpast : PastHead (requestMachine.drain (c.onRequestLine line) rest).1) :
    (c.onRequestLine line).state = .headers ∧ (c.onRequestLine line).config = c.config := by
  unfold onRequestLine at hpast ⊢
  rcases requestLineText_state c line with ⟨hok, -⟩ | ⟨hbad, hst⟩
  · rw [if_pos hok]
    exact ⟨rfl, requestLineText_config c line⟩
  · have hfailed : ¬(c.requestLineText line).1 = true := by
      rw [hbad]
      exact Bool.false_ne_true
    rw [if_neg hfailed, drain_blocked (step_error hst rest)] at hpast
    rcases requestLineText_error c line with hgood | hmessage
    · exact absurd hgood hfailed
    · exact (not_pastHead_error hst hmessage hpast).elim

/-- The same for the whole head of a message. -/
theorem overLimit_head {s first : Bytes} {fields : List Bytes} (hlines : HeadLines s first fields)
    (hpast : PastHead (requestMachine.drain (Core.fresh config) s).1) (hv : v <+: s) :
    (requestMachine.drain (Core.fresh config) v).1.overLimit
        (requestMachine.drain (Core.fresh config) v).2 = true ↔
      ∃ x ∈ placeHead config first fields, x.CutAt v.length := by
  obtain ⟨⟨rest, rfl⟩, hfirst, hfields⟩ := hlines
  rw [headBlock_append] at hpast hv
  have hs : (Core.fresh config).state = .requestLine := rfl
  have hdrain (u : Bytes) : requestMachine.drain (Core.fresh config) (first ++ crlf ++ u) =
      requestMachine.drain ((Core.fresh config).onRequestLine first) u := by
    have hsplit := splitLine_append_crlf hfirst u
    refine drain_step ?_
    simp only [step, hs, hsplit, Option.map_some]
  rcases prefix_line hfirst hv with ⟨hshort, hnone⟩ | ⟨v', rfl, hv'⟩
  · rw [overLimit_inLine (Or.inl hs) hnone]
    simp only [overLimit, hs, decide_eq_true_eq, placeHead]
    constructor
    · exact fun hover => ⟨_, List.mem_cons_self, by simpa [Core.fresh] using hover, by simpa using hshort⟩
    · rintro ⟨x, hx, hover, -⟩
      rcases List.mem_cons.mp hx with rfl | hx
      · simpa [Core.fresh] using hover
      · have hstart := placeFields_start hx
        omega
  · rw [hdrain] at hpast ⊢
    obtain ⟨hs', hconfig⟩ := onRequestLine_goes_on hpast
    have hlength : (first ++ crlf ++ v').length = first.length + 2 + v'.length := by
      simp only [List.length_append, crlf, List.length_cons, List.length_nil]
    rw [overLimit_fields (first.length + 2) hs' hfields hpast hv', hconfig, hlength]
    constructor
    · rintro ⟨x, hx, hcut⟩
      exact ⟨x, List.mem_cons_of_mem _ hx, hcut⟩
    · rintro ⟨x, hx, hcut⟩
      rcases List.mem_cons.mp hx with rfl | hx
      · have hstop := hcut.2
        simp only at hstop
        omega
      · exact ⟨x, hx, hcut⟩

end cuts

/-! ### Runs -/

section runs
variable {config : ParserConfig} {ds : List Bytes} {first : Bytes} {fields : List Bytes}

/-- The feeds of a message come to one drain of the machine, unless one of them ends over a
limit. -/
theorem run_cuts (hearly : NotEarly config ds) :
    (∀ n, (requestMachine.drain (Core.fresh config) (ds.take n).flatten).1.overLimit
        (requestMachine.drain (Core.fresh config) (ds.take n).flatten).2 = false) ∧
      (run config ds).toCore = (requestMachine.drain (Core.fresh config) ds.flatten).1 ∨
    (∃ n, (requestMachine.drain (Core.fresh config) (ds.take n).flatten).1.overLimit
        (requestMachine.drain (Core.fresh config) (ds.take n).flatten).2 = true) ∧
      (run config ds).state = .error := by
  have hsettled : requestGuard.Settled (Core.fresh config, []) := ⟨rfl, rfl⟩
  have hrun := (run_refines hearly).1
  rcases requestGuard.run_cuts (fun _ _ _ => rfl) hsettled ds with ⟨hpassed, hdrain⟩ | ⟨hover, hfinal⟩
  · exact Or.inl ⟨hpassed, hrun.trans (congrArg Prod.fst hdrain)⟩
  · refine Or.inr ⟨hover, ?_⟩
    rw [hrun]
    exact hfinal

theorem exposed_iff (hlines : HeadLines ds.flatten first fields)
    (hpast : PastHead (requestMachine.drain (Core.fresh config) ds.flatten).1) :
    Exposed config ds first fields ↔
      ∃ n, (requestMachine.drain (Core.fresh config) (ds.take n).flatten).1.overLimit
        (requestMachine.drain (Core.fresh config) (ds.take n).flatten).2 = true := by
  constructor
  · rintro ⟨line, hline, n, hcut⟩
    exact ⟨n, (overLimit_head hlines hpast (take_prefix_flatten ds n)).mpr ⟨line, hline, hcut⟩⟩
  · rintro ⟨n, hover⟩
    obtain ⟨line, hline, hcut⟩ := (overLimit_head hlines hpast (take_prefix_flatten ds n)).mp hover
    exact ⟨line, hline, n, hcut⟩

theorem drain_of_complete (hearly : NotEarly config ds) (hc : (run config ds).isComplete = true) :
    (requestMachine.drain (Core.fresh config) ds.flatten).1 = (run config ds).toCore ∧
      ∀ n, (requestMachine.drain (Core.fresh config) (ds.take n).flatten).1.overLimit
        (requestMachine.drain (Core.fresh config) (ds.take n).flatten).2 = false := by
  have hs : (run config ds).state = .complete := by simpa [isComplete] using hc
  rcases run_cuts hearly with ⟨hpassed, hdrain⟩ | ⟨-, herror⟩
  · exact ⟨hdrain.symm, hpassed⟩
  · rw [hs] at herror
    cases herror

/-- No feed of a message that is accepted ends in a line past its limit. -/
theorem unexposed_of_complete (hearly : NotEarly config ds)
    (hlines : HeadLines ds.flatten first fields) (hc : (run config ds).isComplete = true) :
    ¬Exposed config ds first fields := by
  obtain ⟨hdrain, hpassed⟩ := drain_of_complete hearly hc
  have hpast : PastHead (requestMachine.drain (Core.fresh config) ds.flatten).1 := by
    rw [hdrain]
    exact Or.inr (Or.inl (by simpa [isComplete] using hc))
  rw [exposed_iff hlines hpast]
  rintro ⟨n, hover⟩
  rw [hpassed n] at hover
  cases hover

/-- Of the bytes of a message that the parser takes in one feed, it takes the feeds just if none of
them ends in a line past its limit. -/
theorem complete_iff (hearly : NotEarly config ds) (hlines : HeadLines ds.flatten first fields)
    (hwhole : (run config [ds.flatten]).isComplete = true) :
    (run config ds).isComplete = true ↔ ¬Exposed config ds first fields := by
  refine ⟨unexposed_of_complete hearly hlines, fun hexposed => ?_⟩
  obtain ⟨hdrain, -⟩ := drain_of_complete (notEarly_single _) hwhole
  rw [List.flatten_singleton] at hdrain
  have hs : (requestMachine.drain (Core.fresh config) ds.flatten).1.state = .complete := by
    rw [hdrain]
    simpa [isComplete] using hwhole
  rw [exposed_iff hlines (Or.inr (Or.inl hs))] at hexposed
  rcases run_cuts hearly with ⟨-, hrun⟩ | ⟨hover, -⟩
  · rw [isComplete, hrun, hs]
    rfl
  · exact absurd hover hexposed

theorem reads_message (hearly : NotEarly config ds) :
    ∃ log, Reads config (fun _ => True) false (run config ds) log ∧
      ((run config ds).state ≠ .error → log.fed = ds.flatten) := by
  induction ds using List.reverseRecOn with
  | nil => exact ⟨{}, .start, fun _ => rfl⟩
  | append_singleton ds d ih =>
    have hfront (n : ℕ) (hn : n ≤ ds.length) : (ds ++ [d]).take n = ds.take n :=
      List.take_append_of_le_length hn
    obtain ⟨log, hreads, hfed⟩ := ih fun n hn => by
      rw [← hfront n hn.le]
      exact hearly n (by rw [List.length_append]; omega)
    have hwaits : (run config ds).state ≠ .complete := by
      have hlast := hearly ds.length (by rw [List.length_append, List.length_singleton]; omega)
      rwa [hfront _ le_rfl, List.take_length] at hlast
    rw [run_concat]
    by_cases he : (run config ds).state = .error
    · rw [feed_error _ he]
      exact ⟨log, hreads, fun hne => absurd he hne⟩
    · obtain ⟨log', hreads', hfed'⟩ := reads_live (fun _ => trivial) hreads he hwaits d
      refine ⟨log', hreads', fun _ => ?_⟩
      rw [hfed', hfed he, List.flatten_append, List.flatten_singleton]

/-- The five limits, of the lines of the head and the body stored. -/
structure LimitsHold (config : ParserConfig) (first : Bytes) (fields : List Bytes) (body : Bytes) :
    Prop where
  requestLine : first.length ≤ config.maxRequestLineBytes
  headerField : ∀ line ∈ fields, line.length ≤ config.maxHeaderFieldBytes
  headerCount : fields.length ≤ config.maxHeaderCount
  totalHeader : (fields.map List.length).sum ≤ config.maxTotalHeaderBytes
  body : body.length ≤ config.maxBodyBytes

theorem overlong_fields {limit start : ℕ} :
    (∃ line ∈ placeFields limit start fields, line.Overlong) ↔ ∃ line ∈ fields, limit < line.length := by
  induction fields generalizing start with
  | nil => simp [placeFields, PlacedLine.Overlong]
  | cons field fields ih =>
    rw [placeFields, List.exists_mem_cons_iff, List.exists_mem_cons_iff, ih]
    rfl

theorem overlong_head : (∃ line ∈ placeHead config first fields, line.Overlong) ↔
    config.maxRequestLineBytes < first.length ∨
      ∃ line ∈ fields, config.maxHeaderFieldBytes < line.length := by
  rw [placeHead, List.exists_mem_cons_iff, overlong_fields]
  rfl

/-- What is accepted in some feeds is accepted in one. -/
theorem whole_of_complete (hearly : NotEarly config ds) (hc : (run config ds).isComplete = true) :
    (run config [ds.flatten]).isComplete = true := by
  obtain ⟨hdrain, -⟩ := drain_of_complete hearly hc
  have hs : (requestMachine.drain (Core.fresh config) ds.flatten).1.state = .complete := by
    rw [hdrain]
    simpa [isComplete] using hc
  rcases run_cuts (notEarly_single ds.flatten) with ⟨-, hrun⟩ | ⟨⟨n, hover⟩, -⟩
  · rw [List.flatten_singleton] at hrun
    rw [isComplete, hrun, hs]
    rfl
  · cases n with
    | zero => exact absurd hover Bool.false_ne_true
    | succ n =>
      rw [List.take_of_length_le (Nat.succ_le_succ (Nat.zero_le n)), List.flatten_singleton,
        overLimit_past (Or.inr (Or.inl hs))] at hover
      cases hover

/-- **When the limits hold.** A request that is accepted is within all limits if and only if none of
its lines is longer than its limit, or a feed ends in a line of its head, past the limit of that
line and before its CRLF is there; and the feeds in which the parser accepts these bytes are those
of which none ends so. -/
theorem limits_iff (config : ParserConfig) (ds : List Bytes)
    (hc : (run config ds).isComplete = true) :
    ∃ first fields, HeadLines (message config ds).flatten first fields ∧
      (LimitsHold config first fields (run config ds).request.body ↔
        ((∃ line ∈ placeHead config first fields, line.Overlong) →
          Exposed config (message config ds) first fields)) ∧
      ∀ es, es.flatten = (message config ds).flatten → NotEarly config es →
        ((run config es).isComplete = true ↔ ¬Exposed config es first fields) := by
  have hearly : NotEarly config (message config ds) := notEarly_message ds
  rw [← run_message] at hc ⊢
  obtain ⟨log, hreads, hfed⟩ := reads_message hearly
  have hs : (run config (message config ds)).state = .complete := by simpa [isComplete] using hc
  obtain ⟨first, hlines, -⟩ := lines_of_complete hreads hc
  rw [hfed (by rw [hs]; exact ParserState.noConfusion)] at hlines
  have hcounts := counts_of_complete hreads hc
  refine ⟨first, log.fields, hlines, ⟨?_, fun hexposed => ?_⟩, fun es hsame hes => ?_⟩
  · rw [overlong_head]
    rintro hlimits (hfirst | ⟨line, hline, hlong⟩)
    · exact absurd hlimits.requestLine (Nat.not_le.mpr hfirst)
    · exact absurd (hlimits.headerField line hline) (Nat.not_le.mpr hlong)
  · rw [overlong_head] at hexposed
    have hfits := mt hexposed (unexposed_of_complete hearly hlines hc)
    rw [not_or] at hfits
    refine ⟨Nat.not_lt.mp hfits.1, fun line hline => ?_, hcounts.fields.1 ▸ hcounts.fields.2,
      hcounts.total.1 ▸ hcounts.total.2, hcounts.body⟩
    exact Nat.not_lt.mp fun hlong => hfits.2 ⟨line, hline, hlong⟩
  · refine complete_iff hes (hsame ▸ hlines) ?_
    rw [hsame]
    exact whole_of_complete hearly hc

end runs

/-! ### A long request line -/

def requestLineLimit (limit : ℕ) : ParserConfig :=
  { ParserConfig.default with maxRequestLineBytes := limit }

/-- A request line of 19 bytes and no field lines. -/
def longLine : Bytes := ascii "GET /index HTTP/1.1\r\n\r\n"

/-- With a limit of 19 it is accepted in two feeds. -/
theorem limits_iff_longLine : ∃ first fields,
    HeadLines (message (requestLineLimit 19) [longLine.take 12, longLine.drop 12]).flatten first fields ∧
      (LimitsHold (requestLineLimit 19) first fields
          (run (requestLineLimit 19) [longLine.take 12, longLine.drop 12]).request.body ↔
        ((∃ line ∈ placeHead (requestLineLimit 19) first fields, line.Overlong) →
          Exposed (requestLineLimit 19)
            (message (requestLineLimit 19) [longLine.take 12, longLine.drop 12]) first fields)) ∧
      ∀ es, es.flatten =
          (message (requestLineLimit 19) [longLine.take 12, longLine.drop 12]).flatten →
        NotEarly (requestLineLimit 19) es →
        ((run (requestLineLimit 19) es).isComplete = true ↔
          ¬Exposed (requestLineLimit 19) es first fields) :=
  limits_iff (requestLineLimit 19) [longLine.take 12, longLine.drop 12] (by decide)

/-- With a limit of 10 it is accepted in one feed, and refused in two. -/
theorem longLine_accepted : (run (requestLineLimit 10) [longLine]).isComplete = true ∧
    (run (requestLineLimit 10) [longLine.take 12, longLine.drop 12]).hasError = true ∧
    HeadLines (message (requestLineLimit 10) [longLine]).flatten (ascii "GET /index HTTP/1.1") [] ∧
    (requestLineLimit 10).maxRequestLineBytes < (ascii "GET /index HTTP/1.1").length ∧
    ¬∀ (config : ParserConfig) (ds : List Bytes), (run config ds).isComplete = true →
      ∃ first fields, HeadLines (message config ds).flatten first fields ∧
        LimitsHold config first fields (run config ds).request.body := by
  have hlines : HeadLines (message (requestLineLimit 10) [longLine]).flatten
      (ascii "GET /index HTTP/1.1") [] :=
    ⟨by decide, by decide, fun _ hl => absurd hl List.not_mem_nil⟩
  refine ⟨by decide, by decide, hlines, by decide, fun hall => ?_⟩
  obtain ⟨first, fields, hother, hlimits⟩ := hall (requestLineLimit 10) [longLine] (by decide)
  obtain ⟨rfl, -⟩ := hother.unique hlines
  exact absurd hlimits.requestLine (by decide)

end Aevrix.Http
