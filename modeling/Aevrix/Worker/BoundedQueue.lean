import Aevrix.Concurrent.Channel
import Aevrix.Concurrent.Wakeups

/-!
# The queue of the worker pool (`worker_pool.h`)

`BoundedQueue` is a monitor with two conditions: `push` waits while the queue is full, `pop`
while it is empty, and neither waits after `shutdown`. Whatever the threads do, what they see is
a bounded channel (`legal_run`): no job is lost, and the end comes behind the last one
(`nothing_lost`).
-/

namespace Aevrix.Worker
open Concurrent (Monitor Notice System Move Return)
open Concurrent.Channel (Event Legal accepted taken)

structure BoundedQueue (α : Type) where
  queue : List α := []
  maxSize : ℕ
  shutdown : Bool := false

/-- The two condition variables. -/
inductive Condition where
  | notEmpty | notFull
  deriving DecidableEq, Repr

/-- The calls of the queue that take its lock, but for `size` and `empty`. -/
inductive Call (α : Type) where
  | push (value : α)
  | pop
  | shutdown

/-- What they return; `pop` returns the value it hands over, or none for `false`. -/
inductive Result (α : Type) where
  | pushed (ok : Bool)
  | popped (value : Option α)
  | shutDown

namespace BoundedQueue
variable {α : Type}

/-- `push` behind its wait (`worker_pool.h:165-174`). -/
def push (q : BoundedQueue α) (value : α) : Result α × BoundedQueue α :=
  if q.shutdown then (.pushed false, q)
  else (.pushed true, { q with queue := q.queue ++ [value] })

/-- `pop` behind its wait (`worker_pool.h:188-197`). -/
def pop (q : BoundedQueue α) : Result α × BoundedQueue α :=
  if q.shutdown && q.queue.isEmpty then (.popped none, q)
  else (.popped q.queue.head?, { q with queue := q.queue.tail })

/-- The tests of the two waits (`worker_pool.h:161-163, 184-186`); `shutdown` does not wait. -/
def ready : Call α → BoundedQueue α → Bool
  | .push _, q => decide (q.queue.length < q.maxSize) || q.shutdown
  | .pop, q => !q.queue.isEmpty || q.shutdown
  | .shutdown, _ => true

def body : Call α → BoundedQueue α → Result α × BoundedQueue α
  | .push value, q => q.push value
  | .pop, q => q.pop
  | .shutdown, q => (.shutDown, { q with shutdown := true })

/-- Whom a call notifies. -/
def notices : Call α → Result α → List (Condition × Notice)
  | .push _, .pushed true => [(.notEmpty, .one)]
  | .pop, .popped (some _) => [(.notFull, .one)]
  | .shutdown, _ => [(.notEmpty, .all), (.notFull, .all)]
  | _, _ => []

/-- `BoundedQueue<T>` with its lock. -/
def monitor (α : Type) : Monitor (BoundedQueue α) (Call α) (Result α) Condition where
  condition
    | .push _ => .notFull
    | .pop => .notEmpty
    | .shutdown => .notEmpty
  ready := ready
  body := body
  notices := notices

/-- Threads at a new queue. -/
abbrev start (α : Type) (maxSize threads : ℕ) :
    System (BoundedQueue α) (Call α) (Result α) Condition :=
  Monitor.start { maxSize } threads

/-! ### The channel -/

/-- A call that has run, as the users of a channel see it. -/
def event (r : Return (Call α) (Result α)) : Event α := match r.call, r.result with
  | .push value, .pushed true => .accepted value
  | .push value, _ => .refused value
  | .pop, .popped (some value) => .taken value
  | .pop, _ => .ended
  | .shutdown, _ => .closed

def events (s : System (BoundedQueue α) (Call α) (Result α) Condition) : List (Event α) :=
  s.history.map event

/-- What the queue holds. -/
def channel (q : BoundedQueue α) : Concurrent.Channel.State α := ⟨q.queue, q.shutdown⟩

theorem body_maxSize (call : Call α) (q : BoundedQueue α) :
    (body call q).2.maxSize = q.maxSize := by
  cases call with
  | push value =>
    simp only [body, push]
    split
    · rfl
    · rfl
  | pop =>
    simp only [body, pop]
    split
    · rfl
    · rfl
  | shutdown => rfl

theorem step_body {call : Call α} {q : BoundedQueue α} (hready : ready call q = true) (t : ℕ) :
    Concurrent.Channel.Step q.maxSize q.channel (event ⟨t, call, (body call q).1⟩)
      (body call q).2.channel := by
  obtain ⟨queue, maxSize, shutdown⟩ := q
  cases call with
  | push value =>
    cases shutdown with
    | true => exact .refuse value
    | false =>
      have hroom : queue.length < maxSize := by simpa [ready] using hready
      exact .accept value hroom
  | pop =>
    cases queue with
    | cons value queue =>
      cases shutdown with
      | true => exact .take value
      | false => exact .take value
    | nil =>
      cases shutdown with
      | true => exact .finish
      | false => cases hready
  | shutdown => exact .close

theorem legal_sequential {q q' : BoundedQueue α} {history : List (Return (Call α) (Result α))}
    (h : (monitor α).Sequential q history q') :
    q'.maxSize = q.maxSize ∧ Legal q.maxSize q.channel (history.map event) q'.channel := by
  induction h with
  | nil => exact ⟨rfl, .nil _⟩
  | @snoc history s t call _ hready ih =>
    obtain ⟨hsize, hlegal⟩ := ih
    have hstep := step_body hready t
    rw [hsize] at hstep
    refine ⟨(body_maxSize call s).trans hsize, ?_⟩
    rw [List.map_append]
    exact hlegal.append (.cons hstep (.nil _))

theorem legal_run (maxSize threads : ℕ) (moves : List (Move (Call α))) :
    let s := (monitor α).run (start α maxSize threads) moves
    Legal maxSize Concurrent.Channel.State.fresh (events s) s.state.channel :=
  (legal_sequential (Monitor.run_sequential { maxSize } threads moves)).2

theorem body_refused {call : Call α} {q : BoundedQueue α} {t : ℕ} {value : α}
    (h : event ⟨t, call, (body call q).1⟩ = .refused value) : (body call q).2 = q := by
  cases call with
  | push v =>
    cases hshutdown : q.shutdown with
    | true => simp only [body, push, hshutdown, if_true]
    | false =>
      simp only [body, push, hshutdown, Bool.false_eq_true, if_false, event] at h
      cases h
  | pop =>
    have hpop : ∀ result : Result α, event ⟨t, .pop, result⟩ ≠ .refused value := by
      intro result hresult
      cases result with
      | popped v => cases v <;> cases hresult
      | pushed ok => cases hresult
      | shutDown => cases hresult
    exact absurd h (hpop _)
  | shutdown => cases h

/-- Any number of threads that push, pop and shut down, in any order: the queue keeps to its
bound, what was popped is what was accepted up to what is still there, in the same order, a
refused push leaves the queue as it was, nothing is accepted behind the shutdown, and a pop that
reports the end comes behind the shutdown and behind the last job. -/
theorem nothing_lost (maxSize threads : ℕ) (moves : List (Move (Call α))) :
    let s := (monitor α).run (start α maxSize threads) moves
    s.state.queue.length ≤ maxSize ∧
    accepted (events s) = taken (events s) ++ s.state.queue ∧
    (∀ move value, events ((monitor α).step s move) = events s ++ [.refused value] →
      ((monitor α).step s move).state = s.state) ∧
    (∀ e₁ e₂, events s = e₁ ++ .closed :: e₂ → accepted e₂ = []) ∧
    (∀ e₁ e₂, events s = e₁ ++ .ended :: e₂ →
      Event.closed ∈ e₁ ∧ taken e₁ = accepted (events s)) := by
  intro s
  have hlegal := legal_run maxSize threads moves
  refine ⟨hlegal.length_le (Nat.zero_le _), hlegal.balance, ?_, ?_, ?_⟩
  · intro move value hevents
    rcases (monitor α).step_cases s move with ⟨hstate, _⟩ | ⟨t, call, hruns⟩
    · exact hstate
    · rw [events, hruns.history, List.map_append] at hevents
      have hevent := List.head_eq_of_cons_eq (List.append_cancel_left hevents)
      exact hruns.state.trans (body_refused hevent)
  · intro e₁ e₂ hsplit
    have hlegal : Legal maxSize _ (events s) _ := hlegal
    rw [hsplit] at hlegal
    exact hlegal.accepted_behind_close
  · intro e₁ e₂ hsplit
    have hlegal : Legal maxSize _ (events s) _ := hlegal
    rw [hsplit] at hlegal ⊢
    exact hlegal.taken_before_end

/-! ### Threads that wait -/

/-- How many calls could run on a condition: one for each job, one for each free place. -/
def slots : Condition → BoundedQueue α → ℕ
  | .notEmpty, q => q.queue.length
  | .notFull, q => q.maxSize - q.queue.length

theorem signalled : (monitor α).Signalled slots BoundedQueue.shutdown where
  waits := by
    intro call q hready
    cases call with
    | push value =>
      have hready : (decide (q.queue.length < q.maxSize) || q.shutdown) = false := hready
      rw [Bool.or_eq_false_iff, decide_eq_false_iff_not] at hready
      exact ⟨Nat.sub_eq_zero_of_le (Nat.le_of_not_lt hready.1), hready.2⟩
    | pop =>
      have hready : (!q.queue.isEmpty || q.shutdown) = false := hready
      rw [Bool.or_eq_false_iff, Bool.not_eq_false', List.isEmpty_iff] at hready
      exact ⟨List.length_eq_zero_iff.mpr hready.1, hready.2⟩
    | shutdown => cases hready
  stays := by
    intro call q hshutdown
    cases call with
    | push value =>
      show (q.push value).2.shutdown = true
      rw [push, if_pos hshutdown]
      exact hshutdown
    | pop =>
      show q.pop.2.shutdown = true
      unfold pop
      split
      · exact hshutdown
      · exact hshutdown
    | shutdown => rfl
  gives := by
    intro call q c hready hopen
    obtain ⟨queue, maxSize, shutdown⟩ := q
    cases call with
    | push value =>
      cases shutdown with
      | true => cases hopen
      | false =>
        have hroom : queue.length < maxSize := by simpa [monitor, ready] using hready
        have hlength : (queue ++ [value]).length = queue.length + 1 := List.length_append
        cases c with
        | notEmpty =>
          show (queue ++ [value]).length + 0 ≤ queue.length + 1
          omega
        | notFull =>
          show maxSize - (queue ++ [value]).length + 1 ≤ maxSize - queue.length + 0
          omega
    | pop =>
      cases queue with
      | nil =>
        cases shutdown with
        | true => cases hopen
        | false => cases hready
      | cons value queue =>
        have hbody : body .pop ⟨value :: queue, maxSize, shutdown⟩ =
            (.popped (some value), ⟨queue, maxSize, shutdown⟩) := by
          cases shutdown with
          | true => rfl
          | false => rfl
        have hlength : (value :: queue).length = queue.length + 1 := rfl
        show slots c (body .pop _).2 + _ ≤ _ + (notices .pop (body .pop _).1).count (c, .one)
        rw [hbody]
        cases c with
        | notEmpty =>
          show queue.length + 1 ≤ (value :: queue).length + 0
          omega
        | notFull =>
          show maxSize - queue.length + 0 ≤ maxSize - (value :: queue).length + 1
          omega
    | shutdown => cases hopen
  opens := by
    intro call q c hready hclosed hopen
    cases call with
    | push value =>
      have hopen : (q.push value).2.shutdown = true := hopen
      simp only [push, hclosed, Bool.false_eq_true, if_false] at hopen
    | pop =>
      have hopen : q.pop.2.shutdown = true := hopen
      simp only [pop, hclosed, Bool.false_and, Bool.false_eq_true, if_false] at hopen
    | shutdown =>
      have hall : 0 < [(Condition.notEmpty, Notice.all), (.notFull, .all)].count (c, .all) := by
        cases c with
        | notEmpty => decide
        | notFull => decide
      exact hall

/-- A thread that waits although its call could go on is not forgotten: whatever the threads have
done so far, another one is awake or is about to notify. -/
theorem someone_moves (maxSize threads : ℕ) (moves : List (Move (Call α))) {call : Call α} :
    let s := (monitor α).run (start α maxSize threads) moves
    Concurrent.Thread.asleep call ∈ s.threads → ready call s.state = true →
    (∃ value, call = .push value) ∨ call = .pop →
    ∃ thread ∈ s.threads, (∃ call', thread = .awake call') ∨
      ∃ notice rest, thread = .notifying (notice :: rest) := by
  intro s hasleep hready hwaits
  have hawaited := Monitor.awaited_run signalled { maxSize } threads moves
    ((monitor α).condition call)
  apply hawaited.someone_moves hasleep
  rcases hwaits with ⟨value, rfl⟩ | rfl
  · have hready : (decide (s.state.queue.length < s.state.maxSize) || s.state.shutdown) = true :=
      hready
    rw [Bool.or_eq_true, decide_eq_true_iff] at hready
    rcases hready with hroom | hshutdown
    · exact Or.inr (Nat.sub_pos_of_lt hroom)
    · exact Or.inl hshutdown
  · have hready : (!s.state.queue.isEmpty || s.state.shutdown) = true := hready
    rw [Bool.or_eq_true, Bool.not_eq_true', List.isEmpty_eq_false_iff] at hready
    rcases hready with hjobs | hshutdown
    · exact Or.inr (List.length_pos_iff.mpr hjobs)
    · exact Or.inl hshutdown

end BoundedQueue
end Aevrix.Worker
