import Aevrix.Proxy.ResponseParser
import Aevrix.Incremental.Machine

/-!
# The response parser as a resumable machine

`responseMachine` reads the stream by lines and, inside a body, byte by byte.
`run_refines` says that the parser with its receive buffer shows after every feed
what the machine shows after one drain of the same bytes, limits included.
-/

namespace Aevrix.Proxy
open Aevrix.Http Incremental

namespace ProxyResponseParser
namespace Core

/-- No state follows this one. -/
def Halted (c : Core) : Prop := c.state = .complete ∨ c.state = .error

instance (c : Core) : Decidable c.Halted := by
  unfold Halted
  infer_instance

def ReadsLine (c : Core) : Prop :=
  c.state = .statusLine ∨ c.state = .headers ∨ c.state = .chunkSize ∨ c.state = .trailer

instance (c : Core) : Decidable c.ReadsLine := by
  unfold ReadsLine
  infer_instance

/-- What a line does to the core in the states that read lines. -/
def onLine (c : Core) (line : Bytes) : Core := match c.state with
  | .statusLine => c.statusLineText line
  | .headers => if line = [] then c.endOfHeaders else c.headerLineText line
  | .chunkSize => c.chunkSizeText line
  | .trailer => if line = [] then c.finishMessage else c.trailerLineText line
  | _ => c

def bodyLimit (c : Core) : Core :=
  c.fail (ascii "upstream response body exceeds the configured limit")

/-- One byte of a body without chunks. -/
def bodyByte (c : Core) (b : Byte) : Core :=
  if c.framing = .contentLength then
    let c := { c with body := c.body ++ [b] }
    if c.body.length = c.contentLength then c.finishMessage else c
  else if c.config.maxBodyBytes < c.body.length + 1 then c.bodyLimit
  else { c with body := c.body ++ [b] }

/-- One byte of chunk data. -/
def chunkByte (c : Core) (b : Byte) : Core :=
  if c.config.maxBodyBytes < c.body.length + 1 then c.bodyLimit
  else { c with
    body := c.body ++ [b]
    chunkRemaining := c.chunkRemaining - 1
    state := if c.chunkRemaining - 1 = 0 then .chunkDataCrlf else c.state }

/-- The two bytes after chunk data. -/
def chunkCrlf (c : Core) (a b : Byte) : Core :=
  if a ≠ CR ∨ b ≠ LF then c.fail (ascii "malformed chunk terminator in upstream response")
  else { c with state := .chunkSize }

def stepBody (c : Core) (u : Bytes) : Option (Core × Bytes) :=
  if c.framing = .contentLength ∧ c.contentLength - c.body.length = 0 then some (c.finishMessage, u)
  else match u with
    | [] => none
    | b :: t => some (c.bodyByte b, t)

def stepChunkData (c : Core) (u : Bytes) : Option (Core × Bytes) :=
  if c.chunkRemaining = 0 then some ({ c with state := .chunkDataCrlf }, u)
  else match u with
    | [] => none
    | b :: t => some (c.chunkByte b, t)

def stepChunkCrlf (c : Core) (u : Bytes) : Option (Core × Bytes) := match u with
  | a :: b :: t => some (c.chunkCrlf a b, t)
  | _ => none

def step (c : Core) (u : Bytes) : Option (Core × Bytes) := match c.state with
  | .statusLine | .headers | .chunkSize | .trailer =>
    (splitLine u).map fun x => (c.onLine x.1, x.2)
  | .body => c.stepBody u
  | .chunkData => c.stepChunkData u
  | .chunkDataCrlf => c.stepChunkCrlf u
  | .complete => none
  | .error => none

/-- The limit on a line that has not ended. -/
def overLimit (c : Core) (u : Bytes) : Bool := match c.state with
  | .statusLine | .headers | .trailer => decide (c.config.maxHeaderBytes < u.length)
  | .chunkSize => decide (maxLineLength < u.length)
  | _ => false

def tooLong (c : Core) : Core :=
  if c.state = .chunkSize then c.fail (ascii "malformed upstream chunk size line")
  else c.fail (ascii "upstream response header limit exceeded")

/-- A piece the receive buffer has no room for. -/
def refuses (c : Core) (u d : Bytes) : Bool :=
  decide (¬c.Halted) && decide (d ≠ []) && decide (c.config.bufferLimit < u.length + d.length)

theorem step_line {c : Core} (h : c.ReadsLine) (u : Bytes) :
    c.step u = (splitLine u).map fun x => (c.onLine x.1, x.2) := by
  rcases h with h | h | h | h <;> simp only [step, h]

theorem step_halted {c : Core} (h : c.Halted) (u : Bytes) : c.step u = none := by
  rcases h with h | h <;> simp only [step, h]

theorem overLimit_halted {c : Core} (h : c.Halted) (u : Bytes) : c.overLimit u = false := by
  rcases h with h | h <;> simp only [overLimit, h]

theorem fail_halted (c : Core) (message : Bytes) : (c.fail message).Halted := Or.inr rfl

theorem bodyLimit_halted (c : Core) : c.bodyLimit.Halted := fail_halted ..

theorem finishMessage_halted (c : Core) : c.finishMessage.Halted := Or.inl rfl

theorem tooLong_halted (c : Core) : c.tooLong.Halted := by
  unfold tooLong
  split <;> exact fail_halted ..

theorem reads_cases (c : Core) : c.ReadsLine ∨ c.state = .body ∨ c.state = .chunkData ∨
    c.state = .chunkDataCrlf ∨ c.Halted := by
  unfold ReadsLine Halted
  cases c.state <;> simp

end Core
open Core

/-! ### The machine -/

/-- Two for a byte; one for the turn a body may make without reading. -/
def measure (c : Core) (u : Bytes) : ℕ :=
  2 * u.length + if c.state = .body ∨ c.state = .chunkData then 1 else 0

theorem measure_le (c : Core) (u : Bytes) : measure c u ≤ 2 * u.length + 1 := by
  unfold measure
  split <;> omega

theorem measure_reading {c : Core} (u : Bytes) (h : c.state = .body ∨ c.state = .chunkData) :
    measure c u = 2 * u.length + 1 := by
  rw [measure, if_pos h]

theorem stepBody_cases {c c' : Core} {u u' : Bytes} (h : c.stepBody u = some (c', u')) :
    (c' = c.finishMessage ∧ u' = u) ∨ ∃ b, u = b :: u' ∧ c' = c.bodyByte b := by
  unfold stepBody at h
  split at h
  · simp only [Option.some.injEq, Prod.mk.injEq] at h
    exact Or.inl ⟨h.1.symm, h.2.symm⟩
  · cases u with
    | nil => cases h
    | cons b t =>
      simp only [Option.some.injEq, Prod.mk.injEq] at h
      exact Or.inr ⟨b, by rw [h.2], h.1.symm⟩

theorem stepChunkData_cases {c c' : Core} {u u' : Bytes} (h : c.stepChunkData u = some (c', u')) :
    (c' = { c with state := .chunkDataCrlf } ∧ u' = u) ∨ ∃ b, u = b :: u' ∧ c' = c.chunkByte b := by
  unfold stepChunkData at h
  split at h
  · simp only [Option.some.injEq, Prod.mk.injEq] at h
    exact Or.inl ⟨h.1.symm, h.2.symm⟩
  · cases u with
    | nil => cases h
    | cons b t =>
      simp only [Option.some.injEq, Prod.mk.injEq] at h
      exact Or.inr ⟨b, by rw [h.2], h.1.symm⟩

theorem stepChunkCrlf_cases {c c' : Core} {u u' : Bytes} (h : c.stepChunkCrlf u = some (c', u')) :
    ∃ a b, u = a :: b :: u' ∧ c' = c.chunkCrlf a b := by
  unfold stepChunkCrlf at h
  split at h
  · rename_i a b t
    simp only [Option.some.injEq, Prod.mk.injEq] at h
    exact ⟨a, b, by rw [h.2], h.1.symm⟩
  · cases h

theorem step_descends {c c' : Core} {u u' : Bytes} (h : c.step u = some (c', u')) :
    measure c' u' < measure c u := by
  have hle := measure_le c' u'
  rcases c.reads_cases with hl | hs | hs | hs | hh
  · rw [step_line hl] at h
    obtain ⟨⟨line, r⟩, hline, he⟩ := Option.map_eq_some_iff.mp h
    simp only [Prod.mk.injEq] at he
    obtain ⟨-, rfl⟩ := he
    have hlen := Lines.splitPair_length hline
    have hm : 2 * u.length ≤ measure c u := by unfold measure; omega
    omega
  · rw [measure_reading u (Or.inl hs)]
    simp only [step, hs] at h
    rcases stepBody_cases h with ⟨rfl, rfl⟩ | ⟨b, rfl, rfl⟩
    · simp [measure, Core.finishMessage]
    · simp only [List.length_cons]
      omega
  · rw [measure_reading u (Or.inr hs)]
    simp only [step, hs] at h
    rcases stepChunkData_cases h with ⟨rfl, rfl⟩ | ⟨b, rfl, rfl⟩
    · simp [measure]
    · simp only [List.length_cons]
      omega
  · simp only [step, hs] at h
    obtain ⟨a, b, rfl, rfl⟩ := stepChunkCrlf_cases h
    have hm : 2 * (a :: b :: u').length ≤ measure c (a :: b :: u') := by unfold measure; omega
    simp only [List.length_cons] at hm
    omega
  · rw [step_halted hh] at h
    cases h

theorem step_consumes {c c' : Core} {u u' : Bytes} (h : c.step u = some (c', u')) : u' <:+ u := by
  rcases c.reads_cases with hl | hs | hs | hs | hh
  · rw [step_line hl] at h
    obtain ⟨⟨line, r⟩, hline, he⟩ := Option.map_eq_some_iff.mp h
    simp only [Prod.mk.injEq] at he
    exact he.2 ▸ Lines.splitPair_suffix hline
  · simp only [step, hs] at h
    rcases stepBody_cases h with ⟨-, rfl⟩ | ⟨b, rfl, -⟩
    · exact List.suffix_refl _
    · exact List.suffix_cons ..
  · simp only [step, hs] at h
    rcases stepChunkData_cases h with ⟨-, rfl⟩ | ⟨b, rfl, -⟩
    · exact List.suffix_refl _
    · exact List.suffix_cons ..
  · simp only [step, hs] at h
    obtain ⟨a, b, rfl, -⟩ := stepChunkCrlf_cases h
    exact ⟨[a, b], rfl⟩
  · rw [step_halted hh] at h
    cases h

theorem step_resumes {c c' : Core} {u u' : Bytes} (x : Bytes) (h : c.step u = some (c', u')) :
    c.step (u ++ x) = some (c', u' ++ x) := by
  rcases c.reads_cases with hl | hs | hs | hs | hh
  · rw [step_line hl] at h ⊢
    obtain ⟨⟨line, r⟩, hline, he⟩ := Option.map_eq_some_iff.mp h
    simp only [Prod.mk.injEq] at he
    obtain ⟨rfl, rfl⟩ := he
    rw [splitLine, Lines.splitPair_append x hline, Option.map_some]
  · simp only [step, hs, stepBody] at h ⊢
    split at h
    · rename_i hz
      simp only [Option.some.injEq, Prod.mk.injEq] at h
      rw [if_pos hz, h.1, h.2]
    · rename_i hz
      cases u with
      | nil => cases h
      | cons b t =>
        simp only [Option.some.injEq, Prod.mk.injEq] at h
        rw [if_neg hz, ← h.1, ← h.2]
        rfl
  · simp only [step, hs, stepChunkData] at h ⊢
    split at h
    · rename_i hz
      simp only [Option.some.injEq, Prod.mk.injEq] at h
      rw [if_pos hz, h.1, h.2]
    · rename_i hz
      cases u with
      | nil => cases h
      | cons b t =>
        simp only [Option.some.injEq, Prod.mk.injEq] at h
        rw [if_neg hz, ← h.1, ← h.2]
        rfl
  · simp only [step, hs] at h ⊢
    obtain ⟨a, b, rfl, rfl⟩ := stepChunkCrlf_cases h
    rfl
  · rw [step_halted hh] at h
    cases h

def responseMachine : Machine Core Byte where
  step := step
  fuel := measure
  descends := step_descends
  consumes := step_consumes
  resumes := step_resumes

def responseGuard : Guard responseMachine where
  refuses := refuses
  bounce c := c.fail (ascii "upstream response buffer limit exceeded")
  exceeds := overLimit
  trip := tooLong
  final := Halted
  bounce_final c := fail_halted ..
  trip_final c := tooLong_halted c
  final_step u h := step_halted h u
  final_exceeds u h := overLimit_halted h u
  final_refuses u d h := by simp [refuses, h]

theorem drain_step {c c' : Core} {u u' : Bytes} (h : c.step u = some (c', u')) :
    responseMachine.drain c u = responseMachine.drain c' u' :=
  Machine.drain_some (M := responseMachine) h

theorem drain_blocked {c : Core} {u : Bytes} (h : c.step u = none) :
    responseMachine.drain c u = (c, u) :=
  Machine.drain_none (M := responseMachine) h

theorem drain_halted {c : Core} (h : c.Halted) (u : Bytes) : responseMachine.drain c u = (c, u) :=
  drain_blocked (step_halted h u)

end ProxyResponseParser
end Aevrix.Proxy
