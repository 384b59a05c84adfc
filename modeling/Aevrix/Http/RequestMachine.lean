import Aevrix.Http.RequestParser
import Aevrix.Incremental.Machine

/-!
# The request parser as a resumable machine

`requestMachine` reads the stream by whole lines and whole bodies and has no
notion of a feed. `feed_refines` says that a feed of the parser is one drain of
the machine followed by the check of an unfinished line, so the cuts between
feeds do not show (`run_eq_drain`).
-/

namespace Aevrix.Http
open Incremental

namespace HttpRequestParser
namespace Core

def onRequestLine (c : Core) (line : Bytes) : Core :=
  if (c.requestLineText line).1 then { (c.requestLineText line).2 with state := .headers }
  else (c.requestLineText line).2

def onHeaderLine (c : Core) (line : Bytes) : Core :=
  if line = [] then c.endOfHeaders else (c.headerText line).2

/-- The body, once all of it is there. -/
def onBody (c : Core) (u : Bytes) : Option (Core × Bytes) :=
  let contentLengthStr := c.request.getHeader (ascii "Content-Length")
  if contentLengthStr = [] then some ({ c with state := .complete }, u)
  else match stoul contentLengthStr with
    | none => some (c.setError (ascii "Invalid Content-Length: " ++ contentLengthStr), u)
    | some contentLength =>
      if c.config.maxBodyBytes < contentLength then
        some (c.setError (ascii "Body too large"), u)
      else if u.length < contentLength then none
      else some ({ c with
        state := .complete
        request := { c.request with body := u.take contentLength } }, u.drop contentLength)

def step (c : Core) (u : Bytes) : Option (Core × Bytes) := match c.state with
  | .requestLine => (splitLine u).map fun x => (c.onRequestLine x.1, x.2)
  | .headers => (splitLine u).map fun x => (c.onHeaderLine x.1, x.2)
  | .body => c.onBody u
  | .complete => none
  | .error => none

/-- The limit on a line that has not ended. -/
def overLimit (c : Core) (u : Bytes) : Bool := match c.state with
  | .requestLine => decide (c.config.maxRequestLineBytes < u.length)
  | .headers => decide (c.config.maxHeaderFieldBytes < u.length)
  | _ => false

def tooLong (c : Core) : Core :=
  if c.state = .requestLine then c.setError (ascii "Request line too long")
  else c.setError (ascii "Header field too long")

/-! ### What a step can do -/

theorem requestLineText_state (c : Core) (line : Bytes) :
    ((c.requestLineText line).1 = true ∧ (c.requestLineText line).2.state = c.state) ∨
      ((c.requestLineText line).1 = false ∧ (c.requestLineText line).2.state = .error) := by
  unfold requestLineText setError
  grind

theorem headerText_state (c : Core) (line : Bytes) :
    ((c.headerText line).1 = true ∧ (c.headerText line).2.state = c.state) ∨
      ((c.headerText line).1 = false ∧ (c.headerText line).2.state = .error) := by
  unfold headerText setError
  grind

theorem onRequestLine_state (c : Core) (line : Bytes) :
    (c.onRequestLine line).state = .headers ∨ (c.onRequestLine line).state = .error := by
  unfold onRequestLine
  rcases c.requestLineText_state line with ⟨h1, -⟩ | ⟨h1, h2⟩
  · left
    simp only [h1, if_true]
  · right
    simp only [h1, Bool.false_eq_true, if_false, h2]

theorem step_line {c c' : Core} {u u' : Bytes} (hs : c.state = .requestLine ∨ c.state = .headers)
    (h : c.step u = some (c', u')) : ∃ line, splitLine u = some (line, u') := by
  rcases hs with hs | hs <;>
  · simp only [step, hs] at h
    obtain ⟨⟨line, r⟩, hl, he⟩ := Option.map_eq_some_iff.mp h
    simp only [Prod.mk.injEq] at he
    exact ⟨line, by rw [hl, he.2]⟩

theorem step_body {c c' : Core} {u u' : Bytes} (hs : c.state = .body)
    (h : c.step u = some (c', u')) :
    (c'.state = .complete ∨ c'.state = .error) ∧ ∃ n, u' = u.drop n := by
  simp only [step, hs, onBody] at h
  split at h
  · simp only [Option.some.injEq, Prod.mk.injEq] at h
    exact ⟨Or.inl (by rw [← h.1]), 0, h.2.symm⟩
  · split at h
    · simp only [Option.some.injEq, Prod.mk.injEq] at h
      exact ⟨Or.inr (by rw [← h.1]; rfl), 0, h.2.symm⟩
    · rename_i n _
      split at h
      · simp only [Option.some.injEq, Prod.mk.injEq] at h
        exact ⟨Or.inr (by rw [← h.1]; rfl), 0, h.2.symm⟩
      · split at h
        · cases h
        · simp only [Option.some.injEq, Prod.mk.injEq] at h
          exact ⟨Or.inl (by rw [← h.1]), n, h.2.symm⟩

theorem step_complete {c : Core} (hs : c.state = .complete) (u : Bytes) : c.step u = none := by
  simp only [step, hs]

theorem step_error {c : Core} (hs : c.state = .error) (u : Bytes) : c.step u = none := by
  simp only [step, hs]

end Core
open Core

/-- Steps left: a line takes at least its CRLF, the body ends the message. -/
def measure (c : Core) (u : Bytes) : ℕ := u.length + if c.state = .body then 1 else 0

theorem step_descends {c c' : Core} {u u' : Bytes} (h : c.step u = some (c', u')) :
    measure c' u' < measure c u := by
  unfold measure
  cases hs : c.state with
  | requestLine =>
    obtain ⟨line, hl⟩ := step_line (Or.inl hs) h
    have hlen := Lines.splitPair_length hl
    split <;> simp <;> omega
  | headers =>
    obtain ⟨line, hl⟩ := step_line (Or.inr hs) h
    have hlen := Lines.splitPair_length hl
    split <;> simp <;> omega
  | body =>
    obtain ⟨hc, n, rfl⟩ := step_body hs h
    have hleft : c'.state ≠ .body := by
      rcases hc with hc | hc
      · rw [hc]
        decide
      · rw [hc]
        decide
    rw [if_neg hleft, if_pos rfl, List.length_drop]
    omega
  | complete => rw [step_complete hs] at h; cases h
  | error => rw [step_error hs] at h; cases h

theorem step_consumes {c c' : Core} {u u' : Bytes} (h : c.step u = some (c', u')) : u' <:+ u := by
  cases hs : c.state with
  | requestLine =>
    obtain ⟨line, hl⟩ := step_line (Or.inl hs) h
    exact Lines.splitPair_suffix hl
  | headers =>
    obtain ⟨line, hl⟩ := step_line (Or.inr hs) h
    exact Lines.splitPair_suffix hl
  | body =>
    obtain ⟨-, n, rfl⟩ := step_body hs h
    exact List.drop_suffix ..
  | complete => rw [step_complete hs] at h; cases h
  | error => rw [step_error hs] at h; cases h

theorem onBody_resumes {c c' : Core} {u u' : Bytes} (x : Bytes)
    (h : c.onBody u = some (c', u')) : c.onBody (u ++ x) = some (c', u' ++ x) := by
  simp only [onBody] at h ⊢
  by_cases hcl : c.request.getHeader (ascii "Content-Length") = []
  · simp only [if_pos hcl, Option.some.injEq, Prod.mk.injEq] at h ⊢
    exact ⟨h.1, by rw [h.2]⟩
  · simp only [if_neg hcl] at h ⊢
    cases hn : stoul (c.request.getHeader (ascii "Content-Length")) with
    | none =>
      simp only [hn, Option.some.injEq, Prod.mk.injEq] at h ⊢
      exact ⟨h.1, by rw [h.2]⟩
    | some n =>
      simp only [hn] at h ⊢
      by_cases hmax : c.config.maxBodyBytes < n
      · simp only [if_pos hmax, Option.some.injEq, Prod.mk.injEq] at h ⊢
        exact ⟨h.1, by rw [h.2]⟩
      · simp only [if_neg hmax] at h ⊢
        by_cases hlen : u.length < n
        · simp only [if_pos hlen] at h
          cases h
        · have hx : ¬(u ++ x).length < n := by rw [List.length_append]; omega
          simp only [if_neg hlen, if_neg hx, Option.some.injEq, Prod.mk.injEq] at h ⊢
          rw [List.take_append_of_le_length (by omega), List.drop_append_of_le_length (by omega)]
          exact ⟨h.1, by rw [h.2]⟩

theorem step_resumes {c c' : Core} {u u' : Bytes} (x : Bytes) (h : c.step u = some (c', u')) :
    c.step (u ++ x) = some (c', u' ++ x) := by
  cases hs : c.state with
  | requestLine =>
    obtain ⟨line, hl⟩ := step_line (Or.inl hs) h
    simp only [step, hs, hl, Option.map_some, Option.some.injEq, Prod.mk.injEq] at h
    simp only [step, hs, splitLine, Lines.splitPair_append x hl, Option.map_some, h.1]
  | headers =>
    obtain ⟨line, hl⟩ := step_line (Or.inr hs) h
    simp only [step, hs, hl, Option.map_some, Option.some.injEq, Prod.mk.injEq] at h
    simp only [step, hs, splitLine, Lines.splitPair_append x hl, Option.map_some, h.1]
  | body =>
    simp only [step, hs] at h ⊢
    exact onBody_resumes x h
  | complete => rw [step_complete hs] at h; cases h
  | error => rw [step_error hs] at h; cases h

def requestMachine : Machine Core Byte where
  step := step
  fuel := measure
  descends := step_descends
  consumes := step_consumes
  resumes := step_resumes

/-- The parser around the machine: it never refuses bytes, and it gives up on an
unfinished line beyond its limit. -/
def requestGuard : Guard requestMachine where
  refuses _ _ _ := false
  bounce c := c.setError []
  exceeds := overLimit
  trip := tooLong
  final c := c.state = .error
  bounce_final _ := rfl
  trip_final c := by unfold tooLong; split <;> rfl
  final_step u h := step_error h u
  final_exceeds u h := by simp only [overLimit, h]
  final_refuses _ _ _ := rfl

/-! ### The parser refines the machine -/

def ofConfig (x : Core × Bytes) : HttpRequestParser := ⟨x.1, x.2⟩

@[simp] theorem ofConfig_toCore (x : Core × Bytes) : (ofConfig x).toCore = x.1 := rfl
@[simp] theorem ofConfig_buffer (x : Core × Bytes) : (ofConfig x).buffer = x.2 := rfl

theorem takeLine_eq (p : HttpRequestParser) (k : ℕ) :
    p.takeLine k = (p.buffer.take k, ⟨p.toCore, p.buffer.drop (k + 2)⟩) := by
  simp only [takeLine, consumeBytes, List.drop_drop]

/-- Outcome of one turn: going on means steps of the machine were taken, leaving
the loop means the machine is drained. -/
def TurnSpec (p : HttpRequestParser) : Prop :=
  (p.turn.1 = true → requestMachine.drain p.toCore p.buffer =
      requestMachine.drain p.turn.2.toCore p.turn.2.buffer ∧
    measure p.turn.2.toCore p.turn.2.buffer < measure p.toCore p.buffer) ∧
  (p.turn.1 = false →
    p.turn.2 = ofConfig (requestGuard.settle (requestMachine.drain p.toCore p.buffer)))

theorem drain_blocked {c : Core} {u : Bytes} (h : c.step u = none) :
    requestMachine.drain c u = (c, u) :=
  Machine.drain_none (M := requestMachine) h

theorem drain_step {c c' : Core} {u u' : Bytes} (h : c.step u = some (c', u')) :
    requestMachine.drain c u = requestMachine.drain c' u' :=
  Machine.drain_some (M := requestMachine) h

theorem settle_error {c : Core} {u : Bytes} (h : c.state = .error) :
    requestGuard.settle (requestMachine.drain c u) = (c, u) := by
  rw [drain_blocked (step_error h u)]
  simp only [Guard.settle, requestGuard.final_exceeds u h, Bool.false_eq_true, if_false]

theorem settle_blocked {c : Core} {u : Bytes} (h : c.step u = none) :
    requestGuard.settle (requestMachine.drain c u) = if c.overLimit u then (c.tooLong, u) else (c, u) := by
  rw [drain_blocked h]
  rfl

theorem turn_requestLine (p : HttpRequestParser) (hs : p.state = .requestLine) : TurnSpec p := by
  cases hk : findCrlf p.buffer with
  | none =>
    have hb : p.toCore.step p.buffer = none := by
      simp only [step, hs, splitLine_eq, hk, Option.map_none]
    have hset := settle_blocked hb
    simp only [overLimit, hs, decide_eq_true_eq, tooLong, if_true] at hset
    have hturn : p.turn =
        (false, ofConfig (requestGuard.settle (requestMachine.drain p.toCore p.buffer))) := by
      rw [hset]
      by_cases hlim : p.config.maxRequestLineBytes < p.buffer.length
      · simp only [turn, hs, parseRequestLine, hk, if_pos hlim]
        rfl
      · simp only [turn, hs, parseRequestLine, hk, if_neg hlim]
        rfl
    rw [TurnSpec, hturn]
    exact ⟨fun hf => (Bool.false_ne_true hf).elim, fun _ => rfl⟩
  | some k =>
    have hstep : p.toCore.step p.buffer =
        some (p.toCore.onRequestLine (p.buffer.take k), p.buffer.drop (k + 2)) := by
      simp only [step, hs, splitLine_eq, hk, Option.map_some]
    have hturn : p.turn = ((p.toCore.requestLineText (p.buffer.take k)).1,
        ⟨p.toCore.onRequestLine (p.buffer.take k), p.buffer.drop (k + 2)⟩) := by
      simp only [turn, hs, parseRequestLine, hk, takeLine_eq, onRequestLine]
      cases (p.toCore.requestLineText (p.buffer.take k)).1 <;> rfl
    refine ⟨fun _ => ?_, fun hf => ?_⟩
    · rw [hturn]
      exact ⟨drain_step hstep, step_descends hstep⟩
    · rw [hturn] at hf ⊢
      have herr : (p.toCore.onRequestLine (p.buffer.take k)).state = .error := by
        have hcase := requestLineText_state p.toCore (p.buffer.take k)
        simp only at hf
        simp only [hf, Bool.false_eq_true, false_and, false_or, true_and] at hcase
        simp only [onRequestLine, hf, Bool.false_eq_true, if_false, hcase]
      rw [drain_step hstep, settle_error herr]
      rfl

theorem turn_headers (p : HttpRequestParser) (hs : p.state = .headers) : TurnSpec p := by
  cases hk : findCrlf p.buffer with
  | none =>
    have hb : p.toCore.step p.buffer = none := by
      simp only [step, hs, splitLine_eq, hk, Option.map_none]
    have hset := settle_blocked hb
    simp only [overLimit, hs, decide_eq_true_eq, tooLong, reduceCtorEq, if_false] at hset
    have hturn : p.turn =
        (false, ofConfig (requestGuard.settle (requestMachine.drain p.toCore p.buffer))) := by
      rw [hset]
      by_cases hlim : p.config.maxHeaderFieldBytes < p.buffer.length
      · simp only [turn, hs, parseHeader, hk, if_pos hlim]
        rfl
      · simp only [turn, hs, parseHeader, hk, if_neg hlim]
        rfl
    rw [TurnSpec, hturn]
    exact ⟨fun hf => (Bool.false_ne_true hf).elim, fun _ => rfl⟩
  | some k =>
    have hstep : p.toCore.step p.buffer =
        some (p.toCore.onHeaderLine (p.buffer.take k), p.buffer.drop (k + 2)) := by
      simp only [step, hs, splitLine_eq, hk, Option.map_some]
    cases k with
    | zero =>
      have hturn : p.turn = (true, ⟨p.toCore.endOfHeaders, p.buffer.drop 2⟩) := by
        simp only [turn, hs, parseHeader, hk, if_true, consumeBytes]
      refine ⟨fun _ => ?_, fun hf => ?_⟩
      · rw [hturn]
        exact ⟨drain_step hstep, step_descends hstep⟩
      · rw [hturn] at hf
        cases hf
    | succ k =>
      have hb := Lines.findPair_bound hk
      have hne : p.buffer.take (k + 1) ≠ [] := by
        intro hnil
        have hlen := congrArg List.length hnil
        simp only [List.length_take, List.length_nil] at hlen
        omega
      have hline : p.toCore.onHeaderLine (p.buffer.take (k + 1)) =
          (p.toCore.headerText (p.buffer.take (k + 1))).2 := by
        rw [onHeaderLine, if_neg hne]
      rw [hline] at hstep
      have hcase := headerText_state p.toCore (p.buffer.take (k + 1))
      rcases hcase with ⟨hok, hst⟩ | ⟨hok, hst⟩
      · -- the line is stored; the same turn then looks for the empty line
        rw [hs] at hst
        by_cases h0 : findCrlf (p.buffer.drop (k + 1 + 2)) = some 0
        · have hstep2 : (p.toCore.headerText (p.buffer.take (k + 1))).2.step
              (p.buffer.drop (k + 1 + 2)) =
              some ((p.toCore.headerText (p.buffer.take (k + 1))).2.endOfHeaders,
                (p.buffer.drop (k + 1 + 2)).drop 2) := by
            simp only [step, hst, splitLine_eq, h0, Option.map_some, List.take_zero, onHeaderLine,
              if_true]
          have hturn : p.turn = (true,
              ⟨(p.toCore.headerText (p.buffer.take (k + 1))).2.endOfHeaders,
                (p.buffer.drop (k + 1 + 2)).drop 2⟩) := by
            simp only [turn, hs, parseHeader, hk, takeLine_eq, hok, h0, if_true, consumeBytes]
          refine ⟨fun _ => ?_, fun hf => ?_⟩
          · rw [hturn, drain_step hstep, drain_step hstep2]
            exact ⟨rfl, (step_descends hstep2).trans (step_descends hstep)⟩
          · rw [hturn] at hf
            cases hf
        · have hturn : p.turn = (true,
              ⟨(p.toCore.headerText (p.buffer.take (k + 1))).2, p.buffer.drop (k + 1 + 2)⟩) := by
            simp only [turn, hs, parseHeader, hk, takeLine_eq, hok, h0, if_false]
          refine ⟨fun _ => ?_, fun hf => ?_⟩
          · rw [hturn, drain_step hstep]
            exact ⟨rfl, step_descends hstep⟩
          · rw [hturn] at hf
            cases hf
      · have hturn : p.turn = (false,
            ⟨(p.toCore.headerText (p.buffer.take (k + 1))).2, p.buffer.drop (k + 1 + 2)⟩) := by
          simp only [turn, hs, parseHeader, hk, takeLine_eq, hok]
        refine ⟨fun hf => ?_, fun _ => ?_⟩
        · rw [hturn] at hf
          cases hf
        · rw [hturn, drain_step hstep, settle_error hst]
          rfl

theorem turn_body (p : HttpRequestParser) (hs : p.state = .body) : TurnSpec p := by
  have hstep : p.toCore.step p.buffer = p.toCore.onBody p.buffer := by simp only [step, hs]
  simp only [TurnSpec, turn, hs, parseBody]
  simp only [onBody] at hstep
  by_cases hcl : p.request.getHeader (ascii "Content-Length") = []
  · simp only [if_pos hcl] at hstep ⊢
    exact ⟨fun _ => ⟨drain_step hstep, step_descends hstep⟩, fun hf => by cases hf⟩
  · simp only [if_neg hcl] at hstep ⊢
    cases hn : stoul (p.request.getHeader (ascii "Content-Length")) with
    | none =>
      simp only [hn] at hstep ⊢
      refine ⟨fun hf => (Bool.false_ne_true hf).elim, fun _ => ?_⟩
      rw [drain_step hstep, settle_error rfl]
      rfl
    | some n =>
      simp only [hn] at hstep ⊢
      by_cases hmax : p.config.maxBodyBytes < n
      · simp only [if_pos hmax] at hstep ⊢
        refine ⟨fun hf => (Bool.false_ne_true hf).elim, fun _ => ?_⟩
        rw [drain_step hstep, settle_error rfl]
        rfl
      · simp only [if_neg hmax] at hstep ⊢
        by_cases hlen : p.buffer.length < n
        · simp only [if_pos hlen] at hstep ⊢
          refine ⟨fun hf => (Bool.false_ne_true hf).elim, fun _ => ?_⟩
          rw [settle_blocked hstep]
          simp only [overLimit, hs, Bool.false_eq_true, if_false]
          rfl
        · simp only [if_neg hlen, consumeBytes] at hstep ⊢
          exact ⟨fun _ => ⟨drain_step hstep, step_descends hstep⟩, fun hf => by cases hf⟩

theorem turn_spec (p : HttpRequestParser) : TurnSpec p := by
  cases hs : p.state with
  | requestLine => exact turn_requestLine p hs
  | headers => exact turn_headers p hs
  | body => exact turn_body p hs
  | complete =>
    refine ⟨fun hf => ?_, fun _ => ?_⟩
    · simp only [turn, hs] at hf
      cases hf
    · rw [settle_blocked (step_complete hs _)]
      simp only [turn, hs, overLimit, Bool.false_eq_true, if_false]
      rfl
  | error =>
    refine ⟨fun hf => ?_, fun _ => ?_⟩
    · simp only [turn, hs] at hf
      cases hf
    · rw [settle_error hs]
      simp only [turn, hs]
      rfl

/-- The loop, given turns enough, drains the machine and checks the unfinished line. -/
theorem process_refines (n : ℕ) (p : HttpRequestParser) (hn : measure p.toCore p.buffer < n) :
    process n p = ofConfig (requestGuard.settle (requestMachine.drain p.toCore p.buffer)) := by
  induction n generalizing p with
  | zero => omega
  | succ n ih =>
    have hspec := turn_spec p
    rcases ht : p.turn with ⟨ok, q⟩
    rw [TurnSpec, ht] at hspec
    cases ok with
    | false =>
      simp only [process, ht]
      exact hspec.2 rfl
    | true =>
      simp only [process, ht]
      obtain ⟨hd, hm⟩ := hspec.1 rfl
      rw [hd]
      exact ih q (by simp only at hm; omega)

theorem process_enough (p : HttpRequestParser) (n : ℕ) (hn : p.buffer.length + 2 ≤ n) :
    process n p = process (p.buffer.length + 2) p := by
  have hm : measure p.toCore p.buffer < p.buffer.length + 2 := by unfold measure; split <;> omega
  rw [process_refines n p (by omega), process_refines _ p hm]

theorem feed_refines (p : HttpRequestParser) (hc : p.state ≠ .complete) (he : p.state ≠ .error)
    (data : Bytes) : p.feed data = ofConfig (requestGuard.feed (p.toCore, p.buffer) data) := by
  have hm : measure p.toCore (p.buffer ++ data) < (p.buffer ++ data).length + 2 := by
    unfold measure
    split <;> omega
  have hp := process_refines _ ⟨p.toCore, p.buffer ++ data⟩ hm
  simp only [feed, hasError, isComplete, beq_iff_eq, he, hc, if_false]
  rw [hp]
  rfl

theorem feed_error (p : HttpRequestParser) (he : p.state = .error) (data : Bytes) :
    p.feed data = p := by
  simp only [feed, hasError, beq_iff_eq, he, if_true]

end HttpRequestParser
end Aevrix.Http
