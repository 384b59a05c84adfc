import Aevrix.Concurrent.Doorbell
import Aevrix.Server.Responses

/-!
# Worker results (`worker_completion_handler.cpp`)

A worker pushes its result under the lock and then writes the eventfd; the event loop reads the
eventfd and then takes results until there is none (`main.cpp:1702-1715`). Each of these is one
step, and the steps of the threads come in any order.

The eventfd is a 64-bit counter: a write adds to it, or fails at the maximum, and a read takes
all of it.
-/

namespace Aevrix.Worker
open Aevrix.Server (WorkerResult)
open Concurrent (Doorbell)
open Concurrent.Doorbell (Move System Fair)

/-- What the counter of an eventfd can hold. -/
def eventFdMax : ℕ := 2 ^ 64 - 2

structure WorkerCompletionHandler where
  resultQueue : List WorkerResult := []
  eventFd : ℕ := 0

namespace WorkerCompletionHandler

/-- The push of `enqueue_result` (`worker_completion_handler.cpp:37-40`). -/
def push (h : WorkerCompletionHandler) (result : WorkerResult) : WorkerCompletionHandler :=
  { h with resultQueue := h.resultQueue ++ [result] }

/-- The write of `enqueue_result` (`worker_completion_handler.cpp:42-51`). -/
def notify (h : WorkerCompletionHandler) : WorkerCompletionHandler :=
  { h with eventFd := if h.eventFd < eventFdMax then h.eventFd + 1 else h.eventFd }

/-- `clear_event` (`worker_completion_handler.cpp:66-76`). -/
def clearEvent (h : WorkerCompletionHandler) : WorkerCompletionHandler := { h with eventFd := 0 }

/-- `dequeue_result` (`worker_completion_handler.cpp:54-64`). -/
def dequeueResult (h : WorkerCompletionHandler) : Option WorkerResult × WorkerCompletionHandler :=
  match h.resultQueue with
  | [] => (none, h)
  | result :: results => (some result, { h with resultQueue := results })

/-- The eventfd is readable. -/
def readable (h : WorkerCompletionHandler) : Bool := decide (0 < h.eventFd)

theorem readable_notify (h : WorkerCompletionHandler) : h.notify.readable = true := by
  apply decide_eq_true
  simp only [notify]
  split
  · exact Nat.succ_pos _
  · rename_i hfull
    exact Nat.lt_of_lt_of_le (by decide) (Nat.le_of_not_lt hfull)

theorem held_dequeueResult (h : WorkerCompletionHandler) :
    h.dequeueResult.1.toList ++ h.dequeueResult.2.resultQueue = h.resultQueue := by
  unfold dequeueResult
  split
  · exact List.nil_append _
  · rename_i result results hqueue
    rw [hqueue]
    rfl

theorem dequeueResult_none (h : WorkerCompletionHandler) (hnone : h.dequeueResult.1 = none) :
    h.resultQueue = [] := by
  unfold dequeueResult at hnone
  split at hnone
  · rename_i hempty
    exact hempty
  · cases hnone

/-- The handler as a queue with a bell. -/
def doorbell : Doorbell WorkerCompletionHandler WorkerResult where
  put result h := h.push result
  ring := notify
  silence := clearEvent
  take := dequeueResult
  held := resultQueue
  ringing := readable
  held_put _ _ := rfl
  ringing_put _ _ := rfl
  held_ring _ := rfl
  ringing_ring := readable_notify
  held_silence _ := rfl
  held_take := held_dequeueResult
  take_none := dequeueResult_none

/-- Workers and the event loop at a new handler. -/
abbrev start (workers : ℕ) : System WorkerCompletionHandler WorkerResult :=
  Doorbell.start {} workers

/-- Any number of workers and the event loop, in any order: outside the drain, a result in the
queue is announced by the eventfd or by a worker between its push and its write; the drained
results and those in the queue are the pushed ones in their order; and when every worker and the
loop have their turns again and again, each result is drained, in its place. -/
theorem no_lost_wakeup (workers : ℕ) :
    (∀ moves : List (Move WorkerResult),
      let s := doorbell.run (start workers) moves
      (s.consumer ≠ .taking → s.state.resultQueue ≠ [] →
        0 < s.state.eventFd ∨ Doorbell.Producer.between ∈ s.producers) ∧
      s.taken ++ s.state.resultQueue = s.put) ∧
    ∀ schedule : ℕ → Move WorkerResult, Fair workers schedule →
      let s := doorbell.trace (start workers) schedule
      ∀ n i, i < (s n).put.length → ∃ m, n ≤ m ∧ (s m).taken[i]? = (s n).put[i]? := by
  constructor
  · intro moves s
    have hempty : doorbell.held ({} : WorkerCompletionHandler) = [] := rfl
    have hannounced := Doorbell.announced_run hempty workers moves
    refine ⟨fun hloop hqueue => ?_, hannounced.order⟩
    rcases hannounced.announced hloop hqueue with hreadable | hbetween
    · exact Or.inl (of_decide_eq_true hreadable)
    · exact Or.inr hbetween
  · intro schedule hfair s n i
    exact Doorbell.taken_of_put (D := doorbell) rfl hfair n i

/-- A worker that pushes and writes, and the loop, by turns. -/
def byTurns (n : ℕ) : Move WorkerResult :=
  if n % 3 = 0 then .put 0 ⟨1, ascii "a", ascii "text/plain", 200, [], true⟩
  else if n % 3 = 1 then .ring 0
  else .consume

theorem byTurns_fair : Fair 1 byTurns := by
  constructor
  · intro n
    refine ⟨3 * n + 2, by omega, ?_⟩
    rw [byTurns, if_neg (by omega), if_neg (by omega)]
  · intro t ht n
    have hzero : t = 0 := by omega
    refine ⟨3 * n + 1, by omega, ?_⟩
    rw [byTurns, if_neg (by omega), if_pos (by omega), hzero]

theorem no_lost_wakeup_byTurns :
    let s := doorbell.trace (start 1) byTurns
    ∀ n i, i < (s n).put.length → ∃ m, n ≤ m ∧ (s m).taken[i]? = (s n).put[i]? :=
  (no_lost_wakeup 1).2 byTurns byTurns_fair

end WorkerCompletionHandler
end Aevrix.Worker
