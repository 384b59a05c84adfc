import Aevrix.Proxy.ResponseMachine

/-!
# The response parser refines the machine

The parser moves body bytes in pieces as large as the buffer allows and empties
its buffer when a message ends. Both are invisible in what it reports: after every
feed the parser and the machine agree (`run_refines`).
-/

namespace Aevrix.Proxy
open Aevrix.Http Incremental

namespace ProxyResponseParser
open Core

/-! ### Runs of body bytes -/

/-- The core after `v` of a body of declared length. -/
def Core.tookBody (c : Core) (v : Bytes) : Core :=
  if c.body.length + v.length = c.contentLength then
    Core.finishMessage { c with body := c.body ++ v }
  else { c with body := c.body ++ v }

/-- The core after `v` of a chunk. -/
def Core.tookChunk (c : Core) (v : Bytes) : Core :=
  { c with
    body := c.body ++ v
    chunkRemaining := c.chunkRemaining - v.length
    state := if c.chunkRemaining - v.length = 0 then .chunkDataCrlf else c.state }

/-- Steps from one core to another through body bytes. -/
abbrev Moves (c : Core) (u : Bytes) (d : Core) (v : Bytes) : Prop :=
  Machine.Path responseMachine (fun c _ => ¬c.ReadsLine) c u d v

theorem body_not_readsLine {c : Core} (h : c.state = .body ∨ c.state = .chunkData) :
    ¬c.ReadsLine := by
  rcases h with h | h <;> simp [ReadsLine, h]

theorem moves_step {c c' : Core} {u u' : Bytes} (hs : c.state = .body ∨ c.state = .chunkData)
    (h : c.step u = some (c', u')) : Moves c u c' u' :=
  Machine.Path.single (body_not_readsLine hs) h

theorem moves_body (v : Bytes) (c : Core) (x : Bytes) (hs : c.state = .body)
    (hf : c.framing = .contentLength) (hlen : c.body.length + v.length ≤ c.contentLength) :
    Moves c (v ++ x) (c.tookBody v) x := by
  induction v generalizing c with
  | nil =>
    by_cases hz : c.body.length = c.contentLength
    · have htook : c.tookBody [] = c.finishMessage := by simp [tookBody, hz]
      have hend : c.framing = .contentLength ∧ c.contentLength - c.body.length = 0 :=
        ⟨hf, by omega⟩
      have hstep : c.step x = some (c.tookBody [], x) := by
        rw [htook]
        simp only [step, hs, stepBody, if_pos hend]
      exact moves_step (Or.inl hs) hstep
    · have hsame : c.tookBody [] = c := by simp [tookBody, hz]
      rw [hsame]
      exact Machine.Path.refl ..
  | cons b t ih =>
    simp only [List.length_cons] at hlen
    have hstep : c.step (b :: (t ++ x)) = some (c.bodyByte b, t ++ x) := by
      have hz : ¬(c.framing = .contentLength ∧ c.contentLength - c.body.length = 0) := by omega
      simp only [step, hs, stepBody, if_neg hz]
    refine (moves_step (Or.inl hs) hstep).trans ?_
    by_cases hz : c.body.length + 1 = c.contentLength
    · have ht : t = [] := List.eq_nil_of_length_eq_zero (by omega)
      have htook : c.bodyByte b = c.tookBody [b] := by simp [bodyByte, hf, hz, tookBody]
      subst ht
      rw [htook]
      exact Machine.Path.refl ..
    · have hbyte : c.bodyByte b = { c with body := c.body ++ [b] } := by
        simp [bodyByte, hf, hz]
      have htook : c.tookBody (b :: t) = Core.tookBody { c with body := c.body ++ [b] } t := by
        simp [tookBody, Nat.add_assoc, Nat.add_comm 1]
      rw [hbyte, htook]
      exact ih { c with body := c.body ++ [b] } hs hf (by simp; omega)

theorem moves_untilClose (v : Bytes) (c : Core) (x : Bytes) (hs : c.state = .body)
    (hf : c.framing ≠ .contentLength) (hlen : c.body.length + v.length ≤ c.config.maxBodyBytes) :
    Moves c (v ++ x) { c with body := c.body ++ v } x := by
  induction v generalizing c with
  | nil =>
    rw [List.append_nil]
    exact Machine.Path.refl ..
  | cons b t ih =>
    simp only [List.length_cons] at hlen
    have hstep : c.step (b :: (t ++ x)) = some ({ c with body := c.body ++ [b] }, t ++ x) := by
      have hmax : ¬c.config.maxBodyBytes < c.body.length + 1 := by omega
      simp only [step, hs, stepBody, hf, false_and, if_false, bodyByte, if_neg hmax]
    have hrest := ih { c with body := c.body ++ [b] } hs hf (by simp; omega)
    simp only [List.append_assoc, List.singleton_append] at hrest
    exact (moves_step (Or.inl hs) hstep).trans hrest

theorem drain_untilClose_over (v : Bytes) (c : Core) (x : Bytes) (hs : c.state = .body)
    (hf : c.framing ≠ .contentLength) (hv : v ≠ [])
    (hlen : c.config.maxBodyBytes < c.body.length + v.length) :
    (responseMachine.drain c (v ++ x)).1 = c.bodyLimit := by
  induction v generalizing c with
  | nil => exact (hv rfl).elim
  | cons b t ih =>
    simp only [List.length_cons] at hlen
    by_cases hmax : c.config.maxBodyBytes < c.body.length + 1
    · have hstep : c.step (b :: (t ++ x)) = some (c.bodyLimit, t ++ x) := by
        simp only [step, hs, stepBody, hf, false_and, if_false, bodyByte, if_pos hmax]
      rw [List.cons_append, drain_step hstep, drain_halted c.bodyLimit_halted]
    · have ht : t ≠ [] := by
        rintro rfl
        simp only [List.length_nil] at hlen
        omega
      have hstep : c.step (b :: (t ++ x)) = some ({ c with body := c.body ++ [b] }, t ++ x) := by
        simp only [step, hs, stepBody, hf, false_and, if_false, bodyByte, if_neg hmax]
      rw [List.cons_append, drain_step hstep,
        ih { c with body := c.body ++ [b] } hs hf ht (by simp; omega)]
      rfl

theorem moves_chunk (v : Bytes) (c : Core) (x : Bytes) (hs : c.state = .chunkData)
    (hrem : v.length ≤ c.chunkRemaining) (hlen : c.body.length + v.length ≤ c.config.maxBodyBytes) :
    Moves c (v ++ x) (c.tookChunk v) x := by
  induction v generalizing c with
  | nil =>
    by_cases hz : c.chunkRemaining = 0
    · have hstep : c.step x = some (c.tookChunk [], x) := by
        simp [step, hs, stepChunkData, hz, tookChunk]
      exact moves_step (Or.inr hs) hstep
    · have hsame : c.tookChunk [] = c := by simp [tookChunk, hz]
      rw [hsame]
      exact Machine.Path.refl ..
  | cons b t ih =>
    simp only [List.length_cons] at hlen hrem
    have hstep : c.step (b :: (t ++ x)) = some (c.chunkByte b, t ++ x) := by
      have hz : ¬c.chunkRemaining = 0 := by omega
      simp only [step, hs, stepChunkData, if_neg hz]
    have hmax : ¬c.config.maxBodyBytes < c.body.length + 1 := by omega
    refine (moves_step (Or.inr hs) hstep).trans ?_
    by_cases hz : c.chunkRemaining - 1 = 0
    · have ht : t = [] := List.eq_nil_of_length_eq_zero (by omega)
      have htook : c.chunkByte b = c.tookChunk [b] := by
        simp only [chunkByte, if_neg hmax, hz, tookChunk, List.length_singleton, if_true]
      subst ht
      rw [htook]
      exact Machine.Path.refl ..
    · have hbyte : c.chunkByte b = { c with
          body := c.body ++ [b], chunkRemaining := c.chunkRemaining - 1 } := by
        simp only [chunkByte, if_neg hmax, if_neg hz]
      have htook : c.tookChunk (b :: t) = Core.tookChunk { c with
          body := c.body ++ [b], chunkRemaining := c.chunkRemaining - 1 } t := by
        simp [tookChunk, Nat.sub_sub, Nat.add_comm 1]
      rw [hbyte, htook]
      exact ih { c with body := c.body ++ [b], chunkRemaining := c.chunkRemaining - 1 } hs
        (by simp only; omega) (by simp; omega)

/-! ### What is observed -/

/-- What a parser shows of itself. -/
structure Outcome where
  state : State
  statusCode : ℕ
  reasonPhrase : Bytes
  headers : HttpHeaders
  body : Bytes
  framing : Framing
  isInterim : Bool
  headerBytes : ℕ
  upstreamKeepAlive : Bool
  errorMessage : Bytes
  deriving DecidableEq

def Core.outcome (c : Core) : Outcome where
  state := c.state
  statusCode := c.statusCode
  reasonPhrase := c.reasonPhrase
  headers := c.headers
  body := c.body
  framing := c.framing
  isInterim := c.isInterim
  headerBytes := c.headerBytes
  upstreamKeepAlive := c.upstreamKeepAlive
  errorMessage := c.errorMessage

theorem drain_chunk_over (v : Bytes) (c : Core) (x : Bytes) (hs : c.state = .chunkData)
    (hrem : v.length ≤ c.chunkRemaining) (hv : v ≠ [])
    (hlen : c.config.maxBodyBytes < c.body.length + v.length) :
    (responseMachine.drain c (v ++ x)).1.outcome = c.bodyLimit.outcome := by
  induction v generalizing c with
  | nil => exact (hv rfl).elim
  | cons b t ih =>
    simp only [List.length_cons] at hlen hrem
    have hz : ¬c.chunkRemaining = 0 := by omega
    by_cases hmax : c.config.maxBodyBytes < c.body.length + 1
    · have hstep : c.step (b :: (t ++ x)) = some (c.bodyLimit, t ++ x) := by
        simp only [step, hs, stepChunkData, if_neg hz, chunkByte, if_pos hmax]
      rw [List.cons_append, drain_step hstep, drain_halted c.bodyLimit_halted]
    · have ht : t ≠ [] := by
        rintro rfl
        simp only [List.length_nil] at hlen
        omega
      have hrest : ¬c.chunkRemaining - 1 = 0 := by
        have htl := List.length_pos_iff.mpr ht
        omega
      have hstep : c.step (b :: (t ++ x)) = some ({ c with
          body := c.body ++ [b], chunkRemaining := c.chunkRemaining - 1 }, t ++ x) := by
        simp only [step, hs, stepChunkData, if_neg hz, chunkByte, if_neg hmax, if_neg hrest]
      rw [List.cons_append, drain_step hstep,
        ih { c with body := c.body ++ [b], chunkRemaining := c.chunkRemaining - 1 } hs
          (by simp only; omega) ht (by simp; omega)]
      rfl

/-! ### Agreement -/

/-- Unread bytes do not count once a parser has halted. -/
def Same (x y : Core × Bytes) : Prop := x.1.outcome = y.1.outcome ∧ (¬x.1.Halted → x = y)

theorem Same.refl (x : Core × Bytes) : Same x x := ⟨rfl, fun _ => rfl⟩

theorem Same.state {x y : Core × Bytes} (h : Same x y) : x.1.state = y.1.state :=
  congrArg Outcome.state h.1

theorem Same.halted {x y : Core × Bytes} (h : Same x y) : x.1.Halted ↔ y.1.Halted := by
  simp only [Halted, h.state]

theorem Same.trans {x y z : Core × Bytes} (h : Same x y) (k : Same y z) : Same x z :=
  ⟨h.1.trans k.1, fun hn => (h.2 hn).trans (k.2 (by rwa [← h.halted]))⟩

theorem same_of_halted {c d : Core} (u v : Bytes) (hc : c.Halted) (ho : c.outcome = d.outcome) :
    Same (c, u) (d, v) := ⟨ho, fun hn => (hn hc).elim⟩

/-- The configuration of the machine a parser stands for. -/
def cfg (p : ProxyResponseParser) : Core × Bytes := (p.toCore, p.data)

/-- Where the machine ends from there, limits included. -/
def ended (x : Core × Bytes) : Core × Bytes := responseGuard.settle (responseMachine.drain x.1 x.2)

theorem ended_halted {c : Core} (h : c.Halted) (u : Bytes) : ended (c, u) = (c, u) := by
  simp only [ended, drain_halted h, Guard.settle,
    show responseGuard.exceeds c u = false from overLimit_halted h u, Bool.false_eq_true, if_false]

theorem ended_blocked {c : Core} {u : Bytes} (h : c.step u = none) :
    ended (c, u) = if c.overLimit u then (c.tooLong, u) else (c, u) := by
  simp only [ended, drain_blocked h]
  rfl

theorem ended_of_halted {c : Core} {u : Bytes} (h : (responseMachine.drain c u).1.Halted) :
    ended (c, u) = responseMachine.drain c u := by
  simp only [ended, Guard.settle,
    show responseGuard.exceeds (responseMachine.drain c u).1 (responseMachine.drain c u).2 = false
      from overLimit_halted h _, Bool.false_eq_true, if_false]

theorem ended_drain {c d : Core} {u v : Bytes}
    (h : responseMachine.drain c u = responseMachine.drain d v) : ended (c, u) = ended (d, v) := by
  simp only [ended, h]

/-! ### The receive buffer -/

section buffer
variable (p : ProxyResponseParser)

@[simp] theorem available_eq : p.available = p.data.length := by
  simp only [available, data, List.length_drop]

@[simp] theorem consume_toCore (n : ℕ) : (p.consume n).toCore = p.toCore := by
  unfold consume
  split
  · rfl
  · split <;> rfl

@[simp] theorem consume_data (n : ℕ) : (p.consume n).data = p.data.drop n := by
  unfold consume
  split
  · rename_i h
    simp [data, ofCore, List.drop_drop, List.drop_eq_nil_of_le h]
  · split <;> simp [data, List.drop_drop]

@[simp] theorem append_data (d : Bytes) : (p.append d).data = p.data ++ d := by
  simp [data, append, List.drop_append_of_le_length p.inBuffer]

@[simp] theorem append_toCore (d : Bytes) : (p.append d).toCore = p.toCore := rfl

@[simp] theorem put_toCore (c : Core) : (p.put c).toCore = c := rfl

@[simp] theorem put_data (c : Core) : (p.put c).data = p.data := rfl

@[simp] theorem update_toCore (c : Core) : (p.update c).toCore = c := by
  unfold update
  split <;> rfl

theorem update_data {c : Core} (h : ¬c.Halted) : (p.update c).data = p.data := by
  unfold update
  rw [if_neg (fun hc => h hc.symm)]
  rfl

theorem same_update (c : Core) : Same (cfg (p.update c)) (c, p.data) := by
  refine ⟨by rw [cfg, update_toCore], fun h => ?_⟩
  rw [cfg, update_toCore] at h ⊢
  rw [update_data p h]

theorem ended_update (c : Core) : Same (ended (cfg (p.update c))) (ended (c, p.data)) := by
  by_cases h : c.Halted
  · rw [cfg, update_toCore, ended_halted h, ended_halted h]
    exact same_of_halted _ _ h rfl
  · rw [(same_update p c).2 (by rwa [cfg, update_toCore])]
    exact Same.refl _

theorem takeBody_toCore (n : ℕ) : (p.takeBody n).toCore =
    { p.toCore with body := p.body ++ p.data.take n } := by
  rw [takeBody, consume_toCore, put_toCore]

theorem takeBody_data (n : ℕ) : (p.takeBody n).data = p.data.drop n := by
  rw [takeBody, consume_data, put_data]

theorem update_length_le (c : Core) : (p.update c).data.length ≤ p.data.length := by
  unfold update
  split
  · simp [data, ofCore]
  · exact le_rfl

end buffer

/-! ### Turns -/

/-- Outcome of one turn: going on means the machine ends in the same place from here,
leaving the loop means the parser shows where the machine ends. -/
def TurnSpec (p : ProxyResponseParser) : Prop :=
  (p.turn.1 = true → Same (ended (cfg p.turn.2)) (ended (cfg p)) ∧
    measure (cfg p.turn.2).1 (cfg p.turn.2).2 < measure (cfg p).1 (cfg p).2) ∧
  (p.turn.1 = false → Same (cfg p.turn.2) (ended (cfg p)))

theorem turnSpec_true {p q : ProxyResponseParser} (h : p.turn = (true, q))
    (hs : Same (ended (cfg q)) (ended (cfg p)))
    (hm : measure (cfg q).1 (cfg q).2 < measure (cfg p).1 (cfg p).2) : TurnSpec p := by
  rw [TurnSpec, h]
  exact ⟨fun _ => ⟨hs, hm⟩, fun hf => by cases hf⟩

theorem turnSpec_false {p q : ProxyResponseParser} (h : p.turn = (false, q))
    (hs : Same (cfg q) (ended (cfg p))) : TurnSpec p := by
  rw [TurnSpec, h]
  exact ⟨fun hf => (by cases hf), fun _ => hs⟩

theorem turnSpec_halt {p q : ProxyResponseParser} {c : Core} (h : p.turn = (false, q.update c))
    (hc : c.Halted) (ho : c.outcome = (ended (cfg p)).1.outcome) : TurnSpec p := by
  refine turnSpec_false h ?_
  rw [cfg, update_toCore]
  exact same_of_halted _ _ hc ho

theorem turnSpec_wait {p : ProxyResponseParser} (h : p.turn = (false, p))
    (hb : p.toCore.step p.data = none) (ho : p.toCore.overLimit p.data = false) : TurnSpec p := by
  refine turnSpec_false h ?_
  rw [cfg, ended_blocked hb, if_neg (by simp [ho])]
  exact Same.refl _

/-- The states that read lines: without a CRLF the limit is checked, with one the line
is taken and the core follows `onLine`. -/
theorem turn_line (p : ProxyResponseParser) (hl : p.toCore.ReadsLine)
    (hnone : p.findCrlf = none → p.turn =
      (false, if p.toCore.overLimit p.data then p.update p.toCore.tooLong else p))
    (hsome : ∀ k, p.findCrlf = some k → ∃ ok,
      p.turn = (ok, (p.consume (k + 2)).update (p.toCore.onLine (p.data.take k))) ∧
        (ok = false → (p.toCore.onLine (p.data.take k)).Halted)) : TurnSpec p := by
  cases hk : p.findCrlf with
  | none =>
    have hb : p.toCore.step p.data = none := by
      rw [step_line hl, splitLine_eq, show Aevrix.findCrlf p.data = none from hk, Option.map_none,
        Option.map_none]
    cases ho : p.toCore.overLimit p.data with
    | true =>
      refine turnSpec_halt (q := p) (c := p.toCore.tooLong) (by rw [hnone hk, if_pos ho])
        (tooLong_halted _) ?_
      rw [cfg, ended_blocked hb, if_pos ho]
    | false => exact turnSpec_wait (by rw [hnone hk, if_neg (by simp [ho])]) hb ho
  | some k =>
    obtain ⟨ok, hturn, hhalt⟩ := hsome k hk
    have hbound := Lines.findPair_bound (a := CR) (b := LF) hk
    have hstep : p.toCore.step p.data =
        some (p.toCore.onLine (p.data.take k), p.data.drop (k + 2)) := by
      rw [step_line hl, splitLine_eq, show Aevrix.findCrlf p.data = some k from hk]
      rfl
    have hended : ended (cfg p) =
        ended (p.toCore.onLine (p.data.take k), p.data.drop (k + 2)) :=
      ended_drain (drain_step hstep)
    have hup := ended_update (p.consume (k + 2)) (p.toCore.onLine (p.data.take k))
    rw [consume_data] at hup
    cases ok with
    | true =>
      refine turnSpec_true hturn (hended ▸ hup) ?_
      have hlen := update_length_le (p.consume (k + 2)) (p.toCore.onLine (p.data.take k))
      rw [consume_data, List.length_drop] at hlen
      have hle := measure_le ((p.consume (k + 2)).update (p.toCore.onLine (p.data.take k))).toCore
        ((p.consume (k + 2)).update (p.toCore.onLine (p.data.take k))).data
      have hm : 2 * p.data.length ≤ measure p.toCore p.data := by unfold measure; omega
      simp only [cfg]
      omega
    | false =>
      refine turnSpec_false hturn ?_
      rw [hended, ended_halted (hhalt rfl), cfg, update_toCore]
      exact same_of_halted _ _ (hhalt rfl) rfl

theorem hasError_halted {p : ProxyResponseParser} (h : (!p.hasError) = false) : p.toCore.Halted :=
  Or.inr (by simpa [hasError] using h)

theorem turn_statusLine (p : ProxyResponseParser) (hs : p.state = .statusLine) : TurnSpec p := by
  refine turn_line p (Or.inl hs) (fun hk => ?_) fun k hk => ?_
  · simp only [turn, hs, parseStatusLine, hk, overLimit, tooLong, available_eq, decide_eq_true_eq,
      reduceCtorEq, if_false, fail]
    split <;> rfl
  · refine ⟨!((p.consume (k + 2)).update (p.toCore.onLine (p.data.take k))).hasError,
      by simp only [turn, hs, parseStatusLine, hk, takeLine, consume_toCore, onLine], fun hf => ?_⟩
    have hh := hasError_halted hf
    rwa [update_toCore] at hh

theorem turn_chunkSize (p : ProxyResponseParser) (hs : p.state = .chunkSize) : TurnSpec p := by
  refine turn_line p (Or.inr (Or.inr (Or.inl hs))) (fun hk => ?_) fun k hk => ?_
  · simp only [turn, hs, parseChunkSize, hk, overLimit, tooLong, available_eq, decide_eq_true_eq,
      if_true, fail]
    split <;> rfl
  · refine ⟨!((p.consume (k + 2)).update (p.toCore.onLine (p.data.take k))).hasError,
      by simp only [turn, hs, parseChunkSize, hk, takeLine, consume_toCore, onLine], fun hf => ?_⟩
    have hh := hasError_halted hf
    rwa [update_toCore] at hh

theorem take_ne_nil {p : ProxyResponseParser} {k : ℕ} (hk : p.findCrlf = some (k + 1)) :
    p.data.take (k + 1) ≠ [] := by
  have hb := Lines.findPair_bound (a := CR) (b := LF) hk
  intro h
  have hlen := congrArg List.length h
  simp only [List.length_take, List.length_nil] at hlen
  omega

theorem turn_headers (p : ProxyResponseParser) (hs : p.state = .headers) : TurnSpec p := by
  refine turn_line p (Or.inr (Or.inl hs)) (fun hk => ?_) fun k hk => ?_
  · simp only [turn, hs, parseHeaderLine, hk, overLimit, tooLong, available_eq, decide_eq_true_eq,
      reduceCtorEq, if_false, fail]
    split <;> rfl
  · cases k with
    | zero =>
      refine ⟨!((p.consume 2).update (p.toCore.onLine [])).isComplete, by simp only [turn, hs,
        parseHeaderLine, hk, consume_toCore, onLine, List.take_zero, if_true, Nat.zero_add],
        fun hf => ?_⟩
      left
      simpa [isComplete, onLine, hs] using hf
    | succ k =>
      refine ⟨!((p.consume (k + 1 + 2)).update (p.toCore.onLine (p.data.take (k + 1)))).hasError,
        by simp only [turn, hs, parseHeaderLine, hk, takeLine, consume_toCore, onLine,
          if_neg (take_ne_nil hk)], fun hf => ?_⟩
      have hh := hasError_halted hf
      rwa [update_toCore] at hh

theorem turn_trailer (p : ProxyResponseParser) (hs : p.state = .trailer) : TurnSpec p := by
  refine turn_line p (Or.inr (Or.inr (Or.inr hs))) (fun hk => ?_) fun k hk => ?_
  · simp only [turn, hs, parseTrailerLine, hk, overLimit, tooLong, available_eq, decide_eq_true_eq,
      reduceCtorEq, if_false, fail]
    split <;> rfl
  · cases k with
    | zero =>
      refine ⟨false, by simp only [turn, hs, parseTrailerLine, hk, finishMessage, consume_toCore,
        onLine, List.take_zero, if_true], fun _ => ?_⟩
      left
      simp [onLine, hs, Core.finishMessage]
    | succ k =>
      refine ⟨!((p.consume (k + 1 + 2)).update (p.toCore.onLine (p.data.take (k + 1)))).hasError,
        by simp only [turn, hs, parseTrailerLine, hk, takeLine, consume_toCore, onLine,
          if_neg (take_ne_nil hk)], fun hf => ?_⟩
      have hh := hasError_halted hf
      rwa [update_toCore] at hh

theorem length_take_data (p : ProxyResponseParser) {n : ℕ} (hn : n ≤ p.data.length) :
    (p.data.take n).length = n := by
  rw [List.length_take, Nat.min_eq_left hn]

theorem turn_body_declared (p : ProxyResponseParser) (hs : p.state = .body)
    (hf : p.framing = .contentLength) : TurnSpec p := by
  have hturn : p.turn = p.parseBody := by simp only [turn, hs]
  simp only [parseBody, if_pos hf, available_eq] at hturn
  by_cases hz : p.contentLength - p.body.length = 0
  · rw [if_pos hz] at hturn
    have hstep : p.toCore.step p.data = some (p.toCore.finishMessage, p.data) := by
      simp only [step, hs, stepBody, hf, hz, true_and, if_true]
    refine turnSpec_halt hturn (finishMessage_halted _) ?_
    rw [cfg, ended_drain (drain_step hstep), ended_halted (finishMessage_halted _)]
  · rw [if_neg hz] at hturn
    by_cases ht : min (p.contentLength - p.body.length) p.data.length = 0
    · rw [if_pos ht] at hturn
      have hnil : p.data = [] := List.eq_nil_of_length_eq_zero (by omega)
      refine turnSpec_wait hturn ?_ (by simp only [overLimit, hs])
      simp only [step, hs, stepBody, hf, hz, and_false, if_false, hnil]
    · rw [if_neg ht] at hturn
      generalize hn : min (p.contentLength - p.body.length) p.data.length = n at hturn ht
      have hlen := length_take_data p (n := n) (by omega)
      have hbody : (p.takeBody n).body.length = p.body.length + n := by
        rw [takeBody_toCore]
        simp only [List.length_append, hlen]
      have hcl : (p.takeBody n).contentLength = p.contentLength := by rw [takeBody_toCore]
      have hdrain := (moves_body (p.data.take n) p.toCore (p.data.drop n) hs hf (by omega)).drain_eq
      rw [List.take_append_drop] at hdrain
      rw [hbody, hcl] at hturn
      by_cases hdone : p.body.length + n = p.contentLength
      · rw [if_pos hdone, finishMessage] at hturn
        have htook : p.toCore.tookBody (p.data.take n) = (p.takeBody n).toCore.finishMessage := by
          rw [tookBody, hlen, if_pos hdone, takeBody_toCore]
        refine turnSpec_halt hturn (finishMessage_halted _) ?_
        rw [cfg, ended_drain hdrain, htook, ended_halted (finishMessage_halted _)]
      · rw [if_neg hdone] at hturn
        have htook : p.toCore.tookBody (p.data.take n) = (p.takeBody n).toCore := by
          rw [tookBody, hlen, if_neg hdone, takeBody_toCore]
        have hdrop : p.data.drop n = [] := List.drop_eq_nil_of_le (by omega)
        have hb : (p.takeBody n).toCore.step [] = none := by
          have hrem : ¬p.contentLength - (p.body ++ p.data.take n).length = 0 := by
            rw [List.length_append, hlen]
            omega
          rw [takeBody_toCore]
          simp only [step, hs, stepBody, hrem, and_false, if_false]
        refine turnSpec_false hturn ?_
        rw [cfg, cfg, ended_drain hdrain, htook, takeBody_data, hdrop, ended_blocked hb, if_neg]
        · exact Same.refl _
        · rw [takeBody_toCore]
          simp only [overLimit, hs, Bool.false_eq_true, not_false_eq_true]

theorem turn_body_untilClose (p : ProxyResponseParser) (hs : p.state = .body)
    (hf : p.framing ≠ .contentLength) : TurnSpec p := by
  have hturn : p.turn = p.parseBody := by simp only [turn, hs]
  simp only [parseBody, if_neg hf, available_eq] at hturn
  by_cases ht : p.data.length = 0
  · rw [if_pos ht] at hturn
    have hnil : p.data = [] := List.eq_nil_of_length_eq_zero ht
    refine turnSpec_wait hturn ?_ (by simp only [overLimit, hs])
    simp only [step, hs, stepBody, hf, false_and, if_false, hnil]
  · rw [if_neg ht] at hturn
    by_cases hmax : p.config.maxBodyBytes < p.body.length + p.data.length
    · rw [if_pos hmax] at hturn
      have hover := drain_untilClose_over p.data p.toCore [] hs hf (fun h => ht (by rw [h]; rfl)) hmax
      rw [List.append_nil] at hover
      refine turnSpec_halt hturn (bodyLimit_halted _) ?_
      rw [cfg, ended_of_halted (by rw [hover]; exact bodyLimit_halted _), hover]
      rfl
    · rw [if_neg hmax] at hturn
      have hdrain := (moves_untilClose p.data p.toCore [] hs hf (by omega)).drain_eq
      rw [List.append_nil] at hdrain
      have hcore : (p.takeBody p.data.length).toCore = { p.toCore with body := p.body ++ p.data } := by
        rw [takeBody_toCore, List.take_length]
      have hb : (p.takeBody p.data.length).toCore.step [] = none := by
        rw [hcore]
        simp only [step, hs, stepBody, hf, false_and, if_false]
      refine turnSpec_false hturn ?_
      rw [cfg, cfg, ended_drain hdrain, takeBody_data, List.drop_length, ← hcore, ended_blocked hb,
        if_neg]
      · exact Same.refl _
      · rw [hcore]
        simp only [overLimit, hs, Bool.false_eq_true, not_false_eq_true]

theorem turn_chunkData (p : ProxyResponseParser) (hs : p.state = .chunkData) : TurnSpec p := by
  have hturn : p.turn = p.parseChunkData := by simp only [turn, hs]
  simp only [parseChunkData, available_eq] at hturn
  by_cases hz : p.chunkRemaining = 0
  · rw [if_pos hz] at hturn
    have hstep : p.toCore.step p.data = some ({ p.toCore with state := .chunkDataCrlf }, p.data) := by
      simp only [step, hs, stepChunkData, hz, if_true]
    refine turnSpec_true hturn ?_ (step_descends hstep)
    rw [cfg, cfg, ended_drain (drain_step hstep)]
    exact Same.refl _
  · rw [if_neg hz] at hturn
    by_cases ht : min p.chunkRemaining p.data.length = 0
    · rw [if_pos ht] at hturn
      have hnil : p.data = [] := List.eq_nil_of_length_eq_zero (by omega)
      refine turnSpec_wait hturn ?_ (by simp only [overLimit, hs])
      simp only [step, hs, stepChunkData, hz, if_false, hnil]
    · rw [if_neg ht] at hturn
      generalize hn : min p.chunkRemaining p.data.length = n at hturn ht
      have hlen := length_take_data p (n := n) (by omega)
      have hsplit : p.data.take n ++ p.data.drop n = p.data := List.take_append_drop ..
      by_cases hmax : p.config.maxBodyBytes < p.body.length + n
      · rw [if_pos hmax] at hturn
        have hover := drain_chunk_over (p.data.take n) p.toCore (p.data.drop n) hs (by omega)
          (fun h => ht (by rw [← hlen, h]; rfl)) (by rw [hlen]; exact hmax)
        rw [hsplit] at hover
        have hhalt : (responseMachine.drain p.toCore p.data).1.Halted :=
          Or.inr (congrArg Outcome.state hover)
        refine turnSpec_halt hturn (bodyLimit_halted _) ?_
        rw [cfg, ended_of_halted hhalt, hover]
        rfl
      · rw [if_neg hmax] at hturn
        have hdrain := (moves_chunk (p.data.take n) p.toCore (p.data.drop n) hs (by omega)
          (by omega)).drain_eq
        rw [hsplit] at hdrain
        have hq : p.turn.1 = true ∧ cfg p.turn.2 =
            (p.toCore.tookChunk (p.data.take n), p.data.drop n) := by
          rw [hturn]
          refine ⟨rfl, ?_⟩
          rw [cfg, put_toCore, put_data, takeBody_data, takeBody_toCore, tookChunk, hlen]
          split <;> rfl
        have hspec : Same (ended (cfg p.turn.2)) (ended (cfg p)) := by
          rw [hq.2, cfg, ended_drain hdrain]
          exact Same.refl _
        refine turnSpec_true (q := p.turn.2) (Prod.ext hq.1 rfl) hspec ?_
        rw [hq.2, cfg, measure_reading p.data (Or.inr hs)]
        have hle := measure_le (p.toCore.tookChunk (p.data.take n)) (p.data.drop n)
        rw [List.length_drop] at hle
        simp only
        omega

theorem turn_chunkCrlf (p : ProxyResponseParser) (hs : p.state = .chunkDataCrlf) : TurnSpec p := by
  have hturn : p.turn = p.parseChunkCrlf := by simp only [turn, hs]
  unfold parseChunkCrlf at hturn
  cases hd : p.data with
  | nil =>
    simp only [hd] at hturn
    refine turnSpec_wait hturn ?_ (by simp only [overLimit, hs])
    simp only [step, hs, hd, stepChunkCrlf]
  | cons a t =>
    cases t with
    | nil =>
      simp only [hd] at hturn
      refine turnSpec_wait hturn ?_ (by simp only [overLimit, hs])
      simp only [step, hs, hd, stepChunkCrlf]
    | cons b t =>
      simp only [hd] at hturn
      have hstep : p.toCore.step p.data = some (p.toCore.chunkCrlf a b, t) := by
        simp only [step, hs, hd, stepChunkCrlf]
      by_cases hab : a ≠ CR ∨ b ≠ LF
      · rw [if_pos hab, fail] at hturn
        have hcrlf : p.toCore.chunkCrlf a b =
            p.toCore.fail (ascii "malformed chunk terminator in upstream response") := by
          rw [chunkCrlf, if_pos hab]
        refine turnSpec_halt hturn (fail_halted ..) ?_
        rw [cfg, ended_drain (drain_step hstep), hcrlf, ended_halted (fail_halted ..)]
      · rw [if_neg hab] at hturn
        have hcrlf : p.toCore.chunkCrlf a b = { p.toCore with state := .chunkSize } := by
          rw [chunkCrlf, if_neg hab]
        have hdata : (p.consume 2).data = t := by rw [consume_data, hd]; rfl
        rw [hcrlf] at hstep
        have hcfg : cfg ((p.consume 2).put { p.toCore with state := .chunkSize }) =
            ({ p.toCore with state := .chunkSize }, t) := by
          rw [cfg, put_toCore, put_data, hdata]
        refine turnSpec_true hturn ?_ ?_
        · rw [hcfg, cfg, ended_drain (drain_step hstep)]
          exact Same.refl _
        · rw [hcfg]
          exact step_descends hstep

theorem turn_spec (p : ProxyResponseParser) (hh : ¬p.toCore.Halted) : TurnSpec p := by
  cases hs : p.state with
  | statusLine => exact turn_statusLine p hs
  | headers => exact turn_headers p hs
  | body =>
    by_cases hf : p.framing = .contentLength
    · exact turn_body_declared p hs hf
    · exact turn_body_untilClose p hs hf
  | chunkSize => exact turn_chunkSize p hs
  | chunkData => exact turn_chunkData p hs
  | chunkDataCrlf => exact turn_chunkCrlf p hs
  | trailer => exact turn_trailer p hs
  | complete => exact (hh (Or.inl hs)).elim
  | error => exact (hh (Or.inr hs)).elim

/-! ### Feeds and runs -/

theorem process_refines (n : ℕ) (p : ProxyResponseParser) (hn : measure p.toCore p.data < n) :
    Same (cfg (process n p)) (ended (cfg p)) := by
  induction n generalizing p with
  | zero => omega
  | succ n ih =>
    by_cases hh : p.toCore.Halted
    · have hret : process (n + 1) p = p := by
        have hb : (p.isComplete || p.hasError) = true := by
          rcases hh with h | h <;> simp [isComplete, hasError, h]
        simp only [process, hb, if_true]
      rw [hret, cfg, ended_halted hh]
      exact Same.refl _
    · have hb : (p.isComplete || p.hasError) = false := by
        simp only [Halted, not_or] at hh
        simp [isComplete, hasError, hh]
      have hspec := turn_spec p hh
      rcases ht : p.turn with ⟨ok, q⟩
      rw [TurnSpec, ht] at hspec
      cases ok with
      | false =>
        simp only [process, hb, ht, Bool.false_eq_true, if_false]
        exact hspec.2 rfl
      | true =>
        simp only [process, hb, ht, Bool.false_eq_true, if_false]
        obtain ⟨hsame, hm⟩ := hspec.1 rfl
        simp only [cfg] at hm
        exact (ih q (by omega)).trans hsame

theorem process_enough (p : ProxyResponseParser) (n : ℕ) (hn : 2 * p.available + 2 ≤ n) :
    (process n p).outcome = (process (2 * p.available + 2) p).outcome := by
  have hle := measure_le p.toCore p.data
  rw [available_eq] at hn ⊢
  exact (process_refines n p (by omega)).1.trans (process_refines _ p (by omega)).1.symm

theorem feed_refines {p : ProxyResponseParser} {x : Core × Bytes} (h : Same (cfg p) x)
    (hx : responseGuard.Settled x) (d : Bytes) :
    Same (cfg (p.feed d)) (responseGuard.feed x d) := by
  by_cases hh : p.toCore.Halted
  · have hret : p.feed d = p := by
      rcases hh with hs | hs <;> simp [feed, isComplete, hasError, hs]
    rw [hret, responseGuard.feed_of_final (h.halted.mp hh)]
    exact same_of_halted _ _ hh h.1
  · have hcfg : cfg p = x := h.2 hh
    have hne : p.hasError = false ∧ p.isComplete = false := by
      simp only [Halted, not_or] at hh
      simp [isComplete, hasError, hh]
    subst hcfg
    by_cases hd : d = []
    · have hr : responseGuard.refuses (cfg p).1 (cfg p).2 [] = false := by
        change refuses _ _ _ = false
        simp [refuses]
      rw [hd, responseGuard.feed_nil hx hr]
      simp only [feed, hne, Bool.false_eq_true, if_false, or_true, if_true]
      exact Same.refl _
    · have hr : responseGuard.refuses (cfg p).1 (cfg p).2 d = true ↔
          p.config.bufferLimit < p.data.length + d.length := by
        change refuses (cfg p).1 (cfg p).2 d = true ↔ _
        simp only [refuses, cfg, hh, hd, not_false_eq_true, ne_eq, decide_true, Bool.true_and]
        exact decide_eq_true_iff
      by_cases hlim : p.config.bufferLimit < p.data.length + d.length
      · have hg : responseGuard.feed (cfg p) d =
            (p.toCore.fail (ascii "upstream response buffer limit exceeded"), p.data) :=
          if_pos (hr.mpr hlim)
        rw [hg]
        simp only [feed, hne, Bool.false_eq_true, if_false, hd, or_self, available_eq, if_pos hlim,
          fail, cfg, update_toCore]
        exact same_of_halted _ _ (fail_halted ..) rfl
      · have hg : responseGuard.feed (cfg p) d = ended (cfg (p.append d)) := by
          rw [cfg, cfg, append_toCore, append_data]
          exact if_neg (mt hr.mp hlim)
        have hle := measure_le (p.append d).toCore (p.append d).data
        rw [hg]
        simp only [feed, hne, Bool.false_eq_true, if_false, hd, or_self, available_eq, if_neg hlim]
        exact process_refines (2 * (p.append d).data.length + 2) (p.append d) (by omega)

theorem foldl_refines (ds : List Bytes) {p : ProxyResponseParser} {x : Core × Bytes}
    (h : Same (cfg p) x) (hx : responseGuard.Settled x) :
    Same (cfg (ds.foldl feed p)) (responseGuard.run x ds) := by
  induction ds generalizing p x with
  | nil => exact h
  | cons d ds ih => exact ih (feed_refines h hx d) (responseGuard.feed_settled x d)

theorem fresh_settled (config : Config) : responseGuard.Settled (Core.fresh config, []) := by
  refine ⟨rfl, ?_⟩
  change overLimit (Core.fresh config) [] = false
  simp [overLimit, Core.fresh]

/-- **A run of the parser shows what the machine within its limits shows.** -/
theorem run_refines (config : Config) (ds : List Bytes) :
    Same (cfg (run config ds)) (responseGuard.run (Core.fresh config, []) ds) :=
  foldl_refines ds (Same.refl _) (fresh_settled config)

/-! ### The end of the stream -/

/-- `finish_on_eof`, but for the buffer. -/
def Core.eof (c : Core) : Core :=
  if c.Halted then c
  else if c.state = .body ∧ c.framing = .untilClose then c.finishMessage
  else c.fail (ascii "upstream closed the connection before the response was complete")

theorem finishOnEof_outcome (p : ProxyResponseParser) :
    p.finishOnEof.2.toCore = p.toCore.eof ∧
      p.finishOnEof.1 = decide (p.toCore.eof.state = .complete) := by
  cases hs : p.state <;>
    simp [finishOnEof, isComplete, hasError, hs, eof, Halted, fail, finishMessage,
      Core.finishMessage, Core.fail]
  split <;> simp_all

theorem Same.eof {x y : Core × Bytes} (h : Same x y) : x.1.eof.outcome = y.1.eof.outcome := by
  by_cases hh : x.1.Halted
  · rw [Core.eof, if_pos hh, Core.eof, if_pos (h.halted.mp hh), h.1]
  · rw [h.2 hh]

end ProxyResponseParser
end Aevrix.Proxy
