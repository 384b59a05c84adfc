import Aevrix.Http.StoredRequest

/-!
# What the request parser counts

Runs of the parser, with the lines that it takes: what one turn can do (`turned`), and that the
number of fields, their total and the body are within their limits whatever the cuts
(`counts_of_complete`).
-/

namespace Aevrix.Http
open Incremental HttpRequestParser HttpRequestParser.Core

/-! ### Runs -/

/-- The bytes fed and the lines taken since the parser was last reset. -/
structure LineLog where
  fed : Bytes := []
  first : Option Bytes := none
  fields : List Bytes := []
  deriving DecidableEq

/-- The log after the next turn. -/
def LineLog.note (log : LineLog) (p : HttpRequestParser) : LineLog :=
  match p.state, findCrlf p.buffer with
  | .requestLine, some crlfPos => { log with first := some (p.buffer.take crlfPos) }
  | .headers, some (crlfPos + 1) =>
    { log with fields := log.fields ++ [p.buffer.take (crlfPos + 1)] }
  | _, _ => log

/-- The parser is `p` with `log` taken, inside the loop of `feed` or between two calls, in a run
whose turns are all taken where `ok` holds. -/
inductive Reads (config : ParserConfig) (ok : HttpRequestParser → Prop) :
    Bool → HttpRequestParser → LineLog → Prop
  | start : Reads config ok false (HttpRequestParser.fresh config) {}
  | feed {p : HttpRequestParser} {log : LineLog} (data : Bytes) : Reads config ok false p log →
      p.state ≠ .error → p.state ≠ .complete →
      Reads config ok true { p with buffer := p.buffer ++ data }
        { log with fed := log.fed ++ data }
  | turn {p : HttpRequestParser} {log : LineLog} : Reads config ok true p log → ok p →
      Reads config ok p.turn.1 p.turn.2 (log.note p)
  | reset {p : HttpRequestParser} {log : LineLog} : Reads config ok false p log →
      Reads config ok false p.reset {}

theorem note_fed (log : LineLog) (p : HttpRequestParser) : (log.note p).fed = log.fed := by
  unfold LineLog.note
  split <;> rfl

section reads
variable {config : ParserConfig} {ok : HttpRequestParser → Prop}

theorem reads_process (hok : ∀ p, ok p) (turns : ℕ) {p : HttpRequestParser} {log : LineLog}
    (h : Reads config ok true p log) (hm : HttpRequestParser.measure p.toCore p.buffer < turns) :
    ∃ log', Reads config ok false (process turns p) log' ∧ log'.fed = log.fed := by
  induction turns generalizing p log with
  | zero => omega
  | succ turns ih =>
    have hturn := h.turn (hok p)
    have hspec := turn_spec p
    rw [process]
    rcases ht : p.turn with ⟨again, q⟩
    rw [TurnSpec, ht] at hspec
    rw [ht] at hturn
    cases again with
    | false => exact ⟨_, hturn, note_fed log p⟩
    | true =>
      have hless := (hspec.1 rfl).2
      simp only at hless
      obtain ⟨log', hrun, hfed⟩ := ih (p := q) hturn (by omega)
      exact ⟨log', hrun, hfed.trans (note_fed log p)⟩

theorem reads_live (hok : ∀ p, ok p) {p : HttpRequestParser} {log : LineLog}
    (h : Reads config ok false p log) (he : p.state ≠ .error) (hc : p.state ≠ .complete)
    (data : Bytes) : ∃ log', Reads config ok false (p.feed data) log' ∧ log'.fed = log.fed ++ data := by
  have hm : HttpRequestParser.measure p.toCore (p.buffer ++ data) < (p.buffer ++ data).length + 2 := by
    unfold HttpRequestParser.measure
    split <;> omega
  have hfeed : p.feed data =
      process ((p.buffer ++ data).length + 2) { p with buffer := p.buffer ++ data } := by
    simp only [HttpRequestParser.feed, hasError, isComplete, beq_iff_eq, he, hc, if_false]
  rw [hfeed]
  exact reads_process hok _ (h.feed data he hc) hm

theorem reads_single (hok : ∀ p, ok p) (data : Bytes) :
    ∃ log, Reads config ok false (run config [data]) log ∧ log.fed = data :=
  reads_live hok .start (by rintro ⟨⟩) (by rintro ⟨⟩) data
end reads

/-! ### What a turn can do -/

/-- The parser after a turn: it waits, gives up, takes one line, takes a field line and the empty
line behind it, or takes the body. -/
inductive Turned (p : HttpRequestParser) : HttpRequestParser → Prop
  | waits : (p.state = .requestLine ∨ p.state = .headers → findCrlf p.buffer = none) → Turned p p
  | fails {q : HttpRequestParser} : q.state = .error → q.config = p.config → Turned p q
  | requestLine {crlfPos : ℕ} : p.state = .requestLine → findCrlf p.buffer = some crlfPos →
      (p.requestLineText (p.buffer.take crlfPos)).1 = true →
      Turned p ⟨{ (p.requestLineText (p.buffer.take crlfPos)).2 with state := .headers },
        p.buffer.drop (crlfPos + 2)⟩
  | field {crlfPos : ℕ} : p.state = .headers → findCrlf p.buffer = some (crlfPos + 1) →
      (p.headerText (p.buffer.take (crlfPos + 1))).1 = true →
      Turned p ⟨(p.headerText (p.buffer.take (crlfPos + 1))).2, p.buffer.drop (crlfPos + 3)⟩
  | lastField {crlfPos : ℕ} : p.state = .headers → findCrlf p.buffer = some (crlfPos + 1) →
      (p.headerText (p.buffer.take (crlfPos + 1))).1 = true →
      findCrlf (p.buffer.drop (crlfPos + 3)) = some 0 →
      Turned p ⟨(p.headerText (p.buffer.take (crlfPos + 1))).2.endOfHeaders,
        p.buffer.drop (crlfPos + 5)⟩
  | emptyLine : p.state = .headers → findCrlf p.buffer = some 0 →
      Turned p ⟨p.toCore.endOfHeaders, p.buffer.drop 2⟩
  | noBody : p.state = .body → Turned p { p with state := .complete }
  | body {contentLength : ℕ} : p.state = .body → contentLength ≤ p.config.maxBodyBytes →
      Turned p ⟨{ p.toCore with
        state := .complete
        request := { p.request with body := p.buffer.take contentLength } },
        p.buffer.drop contentLength⟩

section turned
variable (p : HttpRequestParser)

theorem turned_requestLine (hs : p.state = .requestLine) : Turned p p.turn.2 := by
  cases hcrlf : findCrlf p.buffer with
  | none =>
    by_cases hlong : p.config.maxRequestLineBytes < p.buffer.length
    · simp only [turn, hs, parseRequestLine, hcrlf, if_pos hlong]
      exact .fails rfl rfl
    · simp only [turn, hs, parseRequestLine, hcrlf, if_neg hlong]
      exact .waits fun _ => hcrlf
  | some crlfPos =>
    simp only [turn, hs, parseRequestLine, hcrlf, takeLine_eq]
    rcases requestLineText_state p.toCore (p.buffer.take crlfPos) with ⟨hok, -⟩ | ⟨hok, hst⟩
    · simp only [hok]
      exact .requestLine hs hcrlf hok
    · simp only [hok]
      exact .fails hst (requestLineText_config ..)

theorem turned_headers (hs : p.state = .headers) : Turned p p.turn.2 := by
  cases hcrlf : findCrlf p.buffer with
  | none =>
    by_cases hlong : p.config.maxHeaderFieldBytes < p.buffer.length
    · simp only [turn, hs, parseHeader, hcrlf, if_pos hlong]
      exact .fails rfl rfl
    · simp only [turn, hs, parseHeader, hcrlf, if_neg hlong]
      exact .waits fun _ => hcrlf
  | some crlfPos =>
    cases crlfPos with
    | zero =>
      simp only [turn, hs, parseHeader, hcrlf, if_true]
      exact .emptyLine hs hcrlf
    | succ crlfPos =>
      simp only [turn, hs, parseHeader, hcrlf, takeLine_eq]
      rcases headerText_state p.toCore (p.buffer.take (crlfPos + 1)) with ⟨hok, -⟩ | ⟨hok, hst⟩
      · simp only [hok]
        split
        · rename_i hempty
          have hdrop : (p.buffer.drop (crlfPos + 3)).drop 2 = p.buffer.drop (crlfPos + 5) := by
            rw [List.drop_drop]
          simp only [consumeBytes, hdrop]
          exact .lastField hs hcrlf hok hempty
        · exact .field hs hcrlf hok
      · simp only [hok]
        exact .fails hst (headerText_config ..)

theorem turned_body (hs : p.state = .body) : Turned p p.turn.2 := by
  have hwaits : p.state = .requestLine ∨ p.state = .headers → findCrlf p.buffer = none := by
    simp [hs]
  simp only [turn, hs, parseBody]
  generalize p.request.getHeader (ascii "Content-Length") = declared
  by_cases hnone : declared = []
  · simp only [if_pos hnone]
    exact .noBody hs
  simp only [if_neg hnone]
  cases stoul declared with
  | none => exact .fails rfl rfl
  | some contentLength =>
    simp only
    by_cases hmax : p.config.maxBodyBytes < contentLength
    · simp only [if_pos hmax]
      exact .fails rfl rfl
    by_cases hmore : p.buffer.length < contentLength
    · simp only [if_neg hmax, if_pos hmore]
      exact .waits hwaits
    · simp only [if_neg hmax, if_neg hmore]
      exact .body hs (Nat.not_lt.mp hmax)

theorem turned : Turned p p.turn.2 := by
  cases hs : p.state with
  | requestLine => exact turned_requestLine p hs
  | headers => exact turned_headers p hs
  | body => exact turned_body p hs
  | complete =>
    simp only [turn, hs]
    exact .waits (by simp [hs])
  | error =>
    simp only [turn, hs]
    exact .waits (by simp [hs])
end turned

section note
variable {p : HttpRequestParser} {log : LineLog} {crlfPos : ℕ}

theorem note_requestLine (hs : p.state = .requestLine) (hcrlf : findCrlf p.buffer = some crlfPos) :
    log.note p = { log with first := some (p.buffer.take crlfPos) } := by
  simp only [LineLog.note, hs, hcrlf]

theorem note_field (hs : p.state = .headers) (hcrlf : findCrlf p.buffer = some (crlfPos + 1)) :
    log.note p = { log with fields := log.fields ++ [p.buffer.take (crlfPos + 1)] } := by
  simp only [LineLog.note, hs, hcrlf]

theorem note_emptyLine (hs : p.state = .headers) (hcrlf : findCrlf p.buffer = some 0) :
    log.note p = log := by
  simp only [LineLog.note, hs, hcrlf]

theorem note_body (hs : p.state = .body) : log.note p = log := by
  simp only [LineLog.note, hs]

theorem note_waits (hwaits : p.state = .requestLine ∨ p.state = .headers → findCrlf p.buffer = none) :
    log.note p = log := by
  cases hs : p.state with
  | requestLine => simp only [LineLog.note, hs, hwaits (Or.inl hs)]
  | headers => simp only [LineLog.note, hs, hwaits (Or.inr hs)]
  | body => exact note_body hs
  | complete => simp only [LineLog.note, hs]
  | error => simp only [LineLog.note, hs]
end note

/-! ### What is kept -/

/-- The counters are those of the lines taken, and within their limits. -/
structure CountsKept (config : ParserConfig) (c : Core) (log : LineLog) : Prop where
  sameLimits : c.config = config
  fields : log.fields.length = c.headersReceived ∧ c.headersReceived ≤ config.maxHeaderCount
  total : (log.fields.map List.length).sum = c.totalHeaderBytes ∧
    c.totalHeaderBytes ≤ config.maxTotalHeaderBytes
  body : c.request.body.length ≤ config.maxBodyBytes

section kept
variable {config : ParserConfig} {c d : Core} {p : HttpRequestParser} {log : LineLog}

/-- What a step outside the head leaves as it is. -/
structure SameHead (c d : Core) : Prop where
  config : d.config = c.config
  headersReceived : d.headersReceived = c.headersReceived
  totalHeaderBytes : d.totalHeaderBytes = c.totalHeaderBytes
  body : d.request.body = c.request.body

theorem CountsKept.same (h : CountsKept config c log) (hs : SameHead c d) :
    CountsKept config d log where
  sameLimits := hs.config.trans h.sameLimits
  fields := hs.headersReceived ▸ h.fields
  total := hs.totalHeaderBytes ▸ h.total
  body := hs.body ▸ h.body

theorem requestLineText_same (c : Core) (line : Bytes) : SameHead c (c.requestLineText line).2 := by
  unfold requestLineText
  split
  · exact ⟨rfl, rfl, rfl, rfl⟩
  split
  · exact ⟨rfl, rfl, rfl, rfl⟩
  split
  · exact ⟨rfl, rfl, rfl, rfl⟩
  simp only
  split
  · exact ⟨rfl, rfl, rfl, rfl⟩
  split
  · exact ⟨rfl, rfl, rfl, rfl⟩
  split
  · exact ⟨rfl, rfl, rfl, rfl⟩
  split
  · exact ⟨rfl, rfl, rfl, rfl⟩
  · exact ⟨rfl, rfl, rfl, rfl⟩

theorem headerText_counts (c : Core) (line : Bytes) :
    ((c.headerText line).1 = false ∧ (c.headerText line).2.state = .error) ∨
    ((c.headerText line).1 = true ∧ (c.headerText line).2.state = c.state ∧
      (c.headerText line).2.config = c.config ∧
      (c.headerText line).2.headersReceived = c.headersReceived + 1 ∧
      c.headersReceived < c.config.maxHeaderCount ∧
      (c.headerText line).2.totalHeaderBytes = c.totalHeaderBytes + line.length ∧
      c.totalHeaderBytes + line.length ≤ c.config.maxTotalHeaderBytes ∧
      (c.headerText line).2.request.body = c.request.body) := by
  simp only [headerText]
  split
  · exact Or.inl ⟨rfl, rfl⟩
  rename_i hcount
  split
  · exact Or.inl ⟨rfl, rfl⟩
  split
  · exact Or.inl ⟨rfl, rfl⟩
  split
  · exact Or.inl ⟨rfl, rfl⟩
  · rename_i htotal
    exact Or.inr ⟨rfl, rfl, rfl, rfl, Nat.not_le.mp hcount, rfl, Nat.not_lt.mp htotal, rfl⟩

theorem endOfHeaders_same (c : Core) : SameHead c c.endOfHeaders := by
  unfold endOfHeaders
  split
  · exact ⟨rfl, rfl, rfl, rfl⟩
  · exact ⟨rfl, rfl, rfl, rfl⟩

/-- Nothing is promised once the parser has given up. -/
def CountsKeptOrError (config : ParserConfig) (c : Core) (log : LineLog) : Prop :=
  c.state = .error ∧ c.config = config ∨ CountsKept config c log

theorem kept_requestLine (h : CountsKept config c log) (line : Bytes) :
    CountsKept config { (c.requestLineText line).2 with state := .headers }
      { log with first := some line } := by
  have hsame := requestLineText_same c line
  exact ⟨hsame.config.trans h.sameLimits, hsame.headersReceived ▸ h.fields,
    hsame.totalHeaderBytes ▸ h.total, hsame.body ▸ h.body⟩

theorem kept_field (h : CountsKept config c log) {line : Bytes}
    (hok : (c.headerText line).1 = true) :
    CountsKept config (c.headerText line).2 { log with fields := log.fields ++ [line] } := by
  rcases headerText_counts c line with
    ⟨hbad, -⟩ | ⟨-, -, hconfig, hreceived, hcount, hbytes, htotal, hbody⟩
  · rw [hok] at hbad
    cases hbad
  refine ⟨hconfig.trans h.sameLimits, ?_, ?_, hbody ▸ h.body⟩
  · rw [h.sameLimits] at hcount
    have hlen := h.fields.1
    rw [List.length_append, List.length_singleton, hreceived]
    omega
  · rw [h.sameLimits] at htotal
    have hsum := h.total.1
    rw [List.map_append, List.sum_append, List.map_singleton, List.sum_singleton, hbytes]
    omega

theorem kept_turn (h : CountsKeptOrError config p.toCore log) :
    CountsKeptOrError config p.turn.2.toCore (log.note p) := by
  rcases h with ⟨herror, hconfig⟩ | h
  · left
    simp only [turn, herror]
    exact ⟨trivial, hconfig⟩
  have hturned := turned p
  generalize p.turn.2 = q at hturned
  cases hturned with
  | waits hwaits =>
    rw [note_waits hwaits]
    exact Or.inr h
  | fails herror hconfig => exact Or.inl ⟨herror, hconfig.trans h.sameLimits⟩
  | requestLine hs hcrlf _ =>
    rw [note_requestLine hs hcrlf]
    exact Or.inr (kept_requestLine h _)
  | field hs hcrlf hok =>
    rw [note_field hs hcrlf]
    exact Or.inr (kept_field h hok)
  | lastField hs hcrlf hok _ =>
    rw [note_field hs hcrlf]
    exact Or.inr ((kept_field h hok).same (endOfHeaders_same _))
  | emptyLine hs hcrlf =>
    rw [note_emptyLine hs hcrlf]
    exact Or.inr (h.same (endOfHeaders_same _))
  | noBody hs =>
    rw [note_body hs]
    exact Or.inr ⟨h.sameLimits, h.fields, h.total, h.body⟩
  | body hs hmax =>
    rw [h.sameLimits] at hmax
    rw [note_body hs]
    exact Or.inr ⟨h.sameLimits, h.fields, h.total, (List.length_take_le ..).trans hmax⟩

theorem kept_fresh (config : ParserConfig) : CountsKept config (Core.fresh config) {} where
  sameLimits := rfl
  fields := ⟨rfl, Nat.zero_le _⟩
  total := ⟨rfl, Nat.zero_le _⟩
  body := Nat.zero_le _

theorem kept_reads {ok : HttpRequestParser → Prop} {busy : Bool} (h : Reads config ok busy p log) :
    CountsKeptOrError config p.toCore log := by
  induction h with
  | start => exact Or.inr (kept_fresh config)
  | feed data _ _ _ ih =>
    exact ih.imp_right fun h => ⟨h.sameLimits, h.fields, h.total, h.body⟩
  | turn _ _ ih => exact kept_turn ih
  | reset _ ih =>
    have hconfig := ih.elim And.right CountsKept.sameLimits
    rw [HttpRequestParser.reset, hconfig]
    exact Or.inr (kept_fresh config)

/-- What is counted of a Complete request is within its limits. -/
theorem counts_of_complete {ok : HttpRequestParser → Prop} {busy : Bool}
    (h : Reads config ok busy p log) (hc : p.isComplete = true) : CountsKept config p.toCore log := by
  have hs : p.state = .complete := by simpa [isComplete] using hc
  rcases kept_reads h with ⟨herror, -⟩ | hkept
  · rw [hs] at herror
    cases herror
  · exact hkept
end kept

end Aevrix.Http
