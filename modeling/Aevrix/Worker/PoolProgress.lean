import Mathlib.Algebra.BigOperators.Intervals
import Aevrix.Concurrent.Effort
import Aevrix.Worker.Pool

/-!
# The worker pool never gets stuck (`worker_pool.h`)

The threads of the pool have only so much to do on their own (`effort_own`), and when all of them
have come to rest every job that was accepted has been run, nobody waits to submit, and behind a
shutdown the workers can be joined (`pool_drains`).
-/

namespace Aevrix.Worker
open Concurrent (Monitor System Move Return Thread)
open Concurrent.Channel (Event accepted taken)
open Concurrent.Monitor (total inCall)

namespace WorkerPool
variable {α : Type}

/-- A move that a thread makes without a new submission, shutdown or spurious wake-up. -/
def Own : PoolMove α → Prop
  | .proceed _ _ | .work _ => True
  | .submit _ _ | .shutdown _ | .wake _ => False

/-- Moves of the threads on their own, each of which does something. -/
def Works (p : WorkerPool α) : List (PoolMove α) → Prop
  | [] => True
  | move :: moves => Own move ∧ p.step move ≠ p ∧ (p.step move).Works moves

/-- No thread does anything on its own. -/
def Settled (p : WorkerPool α) : Prop := ∀ move, Own move → p.step move = p

theorem run_concat (p : WorkerPool α) (moves : List (PoolMove α)) (move : PoolMove α) :
    p.run (moves ++ [move]) = (p.run moves).step move := by
  rw [run, List.foldl_append]
  rfl

theorem step_shutdown (p : WorkerPool α) (client : ℕ) : p.step (.shutdown client) = p ∨
    (p.step (.shutdown client)).workers = p.workers ∧
      (p.step (.shutdown client)).system = p.queueStep (.call client .shutdown) ∧
      (p.step (.shutdown client)).shutdown = true := by
  simp only [step]
  split
  · split
    · exact Or.inl rfl
    · exact Or.inr ⟨rfl, rfl, rfl⟩
  · exact Or.inl rfl

/-- A thread goes on: a worker may come out of its `pop`, with a job or for good. -/
theorem proceed_hands {p : WorkerPool α} (h : Accounted p) (thread next : ℕ) :
    let p' := p.step (.proceed thread next)
    p'.workers = p.workers ∧
      taken (BoundedQueue.events p'.system) = taken (BoundedQueue.events p.system) ∨
    ∃ t, p.workers[t]? = some .looping ∧ ∃ new : WorkerLoop α, new ≠ .looping ∧
      p'.workers = p.workers.set t new ∧ taken (BoundedQueue.events p'.system) =
        taken (BoundedQueue.events p.system) ++ new.job.toList := by
  intro p'
  rcases (p.step_proceed thread next).2 with ⟨hquiet, hworkers⟩ | ⟨t, call, hruns, hworkers⟩
  · left
    refine ⟨hworkers, ?_⟩
    rw [BoundedQueue.events, hquiet, BoundedQueue.events]
  have hevents : BoundedQueue.events p'.system = BoundedQueue.events p.system ++
      [BoundedQueue.event ⟨t, call, (BoundedQueue.body call p.system.state).1⟩] := by
    rw [BoundedQueue.events, hruns.history, List.map_append]
    rfl
  have hother (htaken : taken [BoundedQueue.event
      ⟨t, call, (BoundedQueue.body call p.system.state).1⟩] = [])
      (hsame : p'.workers = p.workers) : p'.workers = p.workers ∧
        taken (BoundedQueue.events p'.system) = taken (BoundedQueue.events p.system) := by
    refine ⟨hsame, ?_⟩
    rw [hevents, Concurrent.Channel.taken_append, htaken, List.append_nil]
  cases call with
  | shutdown => exact Or.inl (hother rfl hworkers)
  | push job =>
    left
    obtain ⟨ok, hok⟩ : ∃ ok, (BoundedQueue.body (.push job) p.system.state).1 = .pushed ok := by
      simp only [BoundedQueue.body, BoundedQueue.push]
      split
      · exact ⟨_, rfl⟩
      · exact ⟨_, rfl⟩
    rw [hok] at hworkers hother
    cases ok with
    | true => exact hother rfl hworkers
    | false => exact hother rfl hworkers
  | pop =>
    right
    have hlooping : p.workers[t]? = some .looping := by
      apply h.popping
      unfold inCall
      rw [hruns.awake]
      rfl
    refine ⟨t, hlooping, ?_⟩
    obtain ⟨value, hvalue⟩ : ∃ value,
        (BoundedQueue.body .pop p.system.state).1 = .popped value := by
      simp only [BoundedQueue.body, BoundedQueue.pop]
      split
      · exact ⟨_, rfl⟩
      · exact ⟨_, rfl⟩
    rw [hvalue] at hworkers hevents
    cases value with
    | some job =>
      refine ⟨.running job, by simp, hworkers, ?_⟩
      rw [hevents, Concurrent.Channel.taken_append]
      rfl
    | none =>
      refine ⟨.left, by simp, hworkers, ?_⟩
      rw [hevents, Concurrent.Channel.taken_append]
      rfl

/-! ### What is left to do -/

/-- What a job in the queue still brings: its pop, a notice, its run and the way back. -/
def jobEffort (n : ℕ) : ℕ := n + 5

def callCost (n : ℕ) : Call α → ℕ
  | .push _ => jobEffort n + n + 2
  | .pop => 1
  | .shutdown => 2 * (n + 1) + 1

def loopEffort : Option (WorkerLoop α) → Option (Call α) → ℕ
  | some .looping, some .pop => 0
  | some .looping, _ => 3
  | some (.running _), _ => 4
  | some .left, _ => 0
  | none, _ => 0

def loops (p : WorkerPool α) : ℕ :=
  ∑ t ∈ Finset.range p.system.threads.length, loopEffort p.workers[t]? (inCall p.system t)

def effort (p : WorkerPool α) : ℕ :=
  let n := p.system.threads.length
  total (Monitor.effort n (callCost n)) p.system.threads + p.loops +
    p.system.state.queue.length * jobEffort n

theorem loopEffort_le (worker : Option (WorkerLoop α)) (call : Option (Call α)) :
    loopEffort worker call ≤ 4 := by
  unfold loopEffort
  split <;> omega

theorem sum_at {f g : ℕ → ℕ} {t m a b : ℕ} (ht : t < m) (hsame : ∀ u, u ≠ t → f u = g u)
    (hone : f t + a ≤ g t + b) :
    ∑ u ∈ Finset.range m, f u + a ≤ ∑ u ∈ Finset.range m, g u + b := by
  have hmem : t ∈ Finset.range m := Finset.mem_range.mpr ht
  have hrest : ∑ u ∈ (Finset.range m).erase t, f u = ∑ u ∈ (Finset.range m).erase t, g u :=
    Finset.sum_congr rfl fun u hu => hsame u (Finset.ne_of_mem_erase hu)
  rw [← Finset.add_sum_erase _ f hmem, ← Finset.add_sum_erase _ g hmem, hrest]
  omega

/-! ### Every move takes from it -/

theorem receive_ne (workers : List (WorkerLoop α)) (r : Return (Call α) (Result α)) {u : ℕ}
    (hu : u ≠ r.thread) : (receive workers r)[u]? = workers[u]? := by
  unfold receive
  split
  · exact List.getElem?_set_ne hu.symm
  · exact List.getElem?_set_ne hu.symm
  · rfl

/-- A call that has run: the loops of the other threads are where they were. -/
theorem loops_runs {p p' : WorkerPool α} {t a b : ℕ} {call : Call α}
    (hruns : Monitor.Runs (BoundedQueue.monitor α) p.system p'.system t call)
    (hworkers : p'.workers = receive p.workers ⟨t, call, (BoundedQueue.body call p.system.state).1⟩)
    (hone : loopEffort p'.workers[t]? none + a ≤ loopEffort p.workers[t]? (some call) + b) :
    p'.loops + a ≤ p.loops + b := by
  have ht : t < p.system.threads.length := (List.getElem?_eq_some_iff.mp hruns.awake).1
  have hlength : p'.system.threads.length = p.system.threads.length := by
    rw [hruns.threads, List.length_set]
  have hbefore : inCall p.system t = some call := by
    unfold inCall
    rw [hruns.awake]
    rfl
  have hbehind : inCall p'.system t = none := by
    unfold inCall
    rw [hruns.threads, List.getElem?_set_self ht]
    rfl
  unfold loops
  rw [hlength]
  refine sum_at ht (fun u hu => ?_) ?_
  · rw [hworkers, receive_ne _ _ hu]
    unfold inCall
    rw [hruns.threads, List.getElem?_set_ne hu.symm]
  · rw [hbehind, hbefore]
    exact hone

theorem loopEffort_other (worker : Option (WorkerLoop α)) {call : Call α} (hcall : call ≠ .pop) :
    loopEffort worker none = loopEffort worker (some call) := by
  cases worker with
  | none => rfl
  | some worker =>
    cases worker with
    | looping =>
      cases call with
      | push job => rfl
      | pop => exact absurd rfl hcall
      | shutdown => rfl
    | running job => rfl
    | left => rfl

theorem effort_runs {p p' : WorkerPool α} {t : ℕ} {call : Call α}
    (hruns : Monitor.Runs (BoundedQueue.monitor α) p.system p'.system t call)
    (hworkers : p'.workers = receive p.workers ⟨t, call, (BoundedQueue.body call p.system.state).1⟩)
    (hthreads : let n := p.system.threads.length
      total (Monitor.effort n (callCost n)) p'.system.threads + callCost n call =
        total (Monitor.effort n (callCost n)) p.system.threads +
          (BoundedQueue.notices call (BoundedQueue.body call p.system.state).1).length * (n + 1)) :
    p'.effort < p.effort := by
  have hlength : p'.system.threads.length = p.system.threads.length := by
    rw [hruns.threads, List.length_set]
  have hstate : p'.system.state = (BoundedQueue.body call p.system.state).2 := hruns.state
  have hready : BoundedQueue.ready call p.system.state = true := hruns.ready
  have hother (hcall : call ≠ .pop) (hkept : p'.workers = p.workers) : p'.loops ≤ p.loops :=
    loops_runs (a := 0) (b := 0) hruns hworkers (by rw [hkept, loopEffort_other _ hcall])
  have hleaves (hleft : p'.workers[t]? = some .left ∨ p'.workers[t]? = none) : p'.loops ≤ p.loops :=
    loops_runs (a := 0) (b := 0) hruns hworkers (by
      rcases hleft with h | h
      · rw [h]
        exact Nat.zero_le _
      · rw [h]
        exact Nat.zero_le _)
  have hjob : p'.loops ≤ p.loops + 4 :=
    loops_runs (a := 0) (b := 4) hruns hworkers
      (Nat.le_trans (loopEffort_le _ _) (Nat.le_add_left _ _))
  simp only [effort, hlength, hstate]
  generalize p.system.threads.length = n at hthreads ⊢
  generalize p.system.state = q at hthreads hworkers hready ⊢
  obtain ⟨queue, maxSize, shutdown⟩ := q
  cases call with
  | push job =>
    cases shutdown with
    | true =>
      have hloops := hother (by simp) hworkers
      change _ = _ + 0 * (n + 1) at hthreads
      simp only [callCost, jobEffort] at hthreads ⊢
      show _ + _ + queue.length * _ < _
      omega
    | false =>
      have hloops := hother (by simp) hworkers
      have hqueue : (queue ++ [job]).length = queue.length + 1 := List.length_append
      change _ = _ + 1 * (n + 1) at hthreads
      simp only [callCost, jobEffort] at hthreads ⊢
      show _ + _ + (queue ++ [job]).length * _ < _
      rw [hqueue, Nat.add_mul]
      omega
  | pop =>
    cases queue with
    | nil =>
      cases shutdown with
      | false => cases hready
      | true =>
        have hset : p'.workers = p.workers.set t .left := hworkers
        have hloops : p'.loops ≤ p.loops := by
          apply hleaves
          rw [hset, List.getElem?_set_self']
          cases p.workers[t]? with
          | none => exact Or.inr rfl
          | some worker => exact Or.inl rfl
        change _ = _ + 0 * (n + 1) at hthreads
        simp only [callCost] at hthreads ⊢
        show _ + _ + 0 * _ < _ + _ + 0 * _
        omega
    | cons job queue =>
      have hbody : BoundedQueue.body .pop ⟨job :: queue, maxSize, shutdown⟩ =
          (.popped (some job), ⟨queue, maxSize, shutdown⟩) := by
        cases shutdown with
        | true => rfl
        | false => rfl
      rw [hbody] at hthreads ⊢
      change _ = _ + 1 * (n + 1) at hthreads
      simp only [callCost, jobEffort, List.length_cons, Nat.add_mul] at hthreads ⊢
      omega
  | shutdown =>
    have hloops := hother (by simp) hworkers
    change _ = _ + 2 * (n + 1) at hthreads
    simp only [callCost] at hthreads ⊢
    show _ + _ + queue.length * _ < _
    omega

/-- A thread that is on its way has a move, and a worker outside the queue too. -/
theorem effort_proceed {p : WorkerPool α} {t : ℕ} {thread : Thread (Call α) Condition}
    (hthread : p.system.threads[t]? = some thread) (hway : thread.OnItsWay) (next : ℕ) :
    (p.step (.proceed t next)).effort < p.effort := by
  generalize hp' : p.step (.proceed t next) = p'
  have hsystem : p'.system = p.queueStep (.proceed t next) := by
    rw [← hp']
    rfl
  have hworkers : p'.workers =
      (p'.system.history.drop p.system.history.length).foldl receive p.workers := by
    rw [← hp']
    rfl
  have hmove := Monitor.proceed_effort (M := BoundedQueue.monitor α)
    (callCost p.system.threads.length) (Nat.le_refl _) hthread hway next
  rcases hmove with ⟨call, hruns, hsum⟩ | ⟨hstate, hhistory, hcalls, hless⟩
  · rw [← queueStep, ← hsystem] at hruns hsum
    refine effort_runs hruns ?_ hsum
    rw [hworkers, hruns.history, List.drop_left]
    rfl
  · change (p.queueStep (.proceed t next)).history = _ at hhistory
    change (p.queueStep (.proceed t next)).state = _ at hstate
    change ∀ u, inCall (p.queueStep (.proceed t next)) u = _ at hcalls
    have hlength : p'.system.threads.length = p.system.threads.length := by
      rw [hsystem]
      exact Monitor.step_length p.system _
    have hkept : p'.workers = p.workers := by
      rw [hworkers, hsystem, hhistory, List.drop_length]
      rfl
    have hloops : p'.loops = p.loops := by
      unfold loops
      rw [hlength]
      refine Finset.sum_congr rfl fun u _ => ?_
      rw [hkept, hsystem, hcalls u]
    unfold effort
    rw [hlength, hloops, hsystem, hstate]
    simp only
    exact Nat.add_lt_add_right (Nat.add_lt_add_right hless _) _

theorem effort_work {p : WorkerPool α} {t : ℕ} {worker : WorkerLoop α}
    (houtside : p.system.threads[t]? = some .outside) (hworker : p.workers[t]? = some worker)
    (hstays : worker ≠ .left) : (p.step (.work t)).effort < p.effort := by
  have ht : t < p.system.threads.length := (List.getElem?_eq_some_iff.mp houtside).1
  have hcall : inCall p.system t = none := by
    unfold inCall
    rw [houtside]
    rfl
  generalize hp' : p.step (.work t) = p'
  cases worker with
  | left => exact absurd rfl hstays
  | looping =>
    have hstep : p' = { p with system := p.queueStep (.call t .pop) } := by
      rw [← hp']
      simp only [step, hworker, houtside]
    have hthreads : p'.system.threads = p.system.threads.set t (.awake .pop) := by
      rw [hstep]
      simp only [queueStep, Monitor.step, houtside]
    have hqueue : p'.system.state = p.system.state := by
      rw [hstep]
      simp only [queueStep, Monitor.step, houtside]
    have hworkers : p'.workers = p.workers := by rw [hstep]
    have hloops : p'.loops + 3 ≤ p.loops + 0 := by
      unfold loops
      rw [hthreads, hworkers, List.length_set]
      refine sum_at ht (fun u hu => ?_) ?_
      · simp only [inCall, hthreads, List.getElem?_set_ne hu.symm]
      · rw [hcall, hworker]
        simp only [inCall, hthreads, List.getElem?_set_self ht]
        exact Nat.le_refl _
    have hset := Monitor.total_set
      (Monitor.effort p.system.threads.length (callCost p.system.threads.length)) houtside
      (.awake .pop)
    simp only [Monitor.effort, callCost] at hset
    simp only [effort, hthreads, hqueue, List.length_set]
    omega
  | running job =>
    have hstep : p' = { p with
        workers := p.workers.set t .looping
        ran := p.ran ++ [job] } := by
      rw [← hp']
      simp only [step, hworker, houtside]
    have hsystem : p'.system = p.system := by rw [hstep]
    have hworkers : p'.workers = p.workers.set t .looping := by rw [hstep]
    have hlength : t < p.workers.length := (List.getElem?_eq_some_iff.mp hworker).1
    have hloops : p'.loops + 1 ≤ p.loops + 0 := by
      unfold loops
      rw [hsystem, hworkers]
      refine sum_at ht (fun u hu => ?_) ?_
      · simp only [List.getElem?_set_ne hu.symm]
      · rw [hcall, hworker, List.getElem?_set_self hlength]
        exact Nat.le_refl _
    simp only [effort, hsystem]
    omega

/-- A move that some thread has to make. -/
def Busy (p : WorkerPool α) : PoolMove α → Prop
  | .proceed t _ => ∃ thread, p.system.threads[t]? = some thread ∧ thread.OnItsWay
  | .work t => p.system.threads[t]? = some .outside ∧
      ∃ worker, p.workers[t]? = some worker ∧ worker ≠ .left
  | .submit _ _ | .shutdown _ | .wake _ => False

theorem effort_busy {p : WorkerPool α} {move : PoolMove α} (h : p.Busy move) :
    (p.step move).effort < p.effort := by
  cases move with
  | submit client job => cases h
  | shutdown client => cases h
  | wake thread => cases h
  | proceed t next =>
    obtain ⟨thread, hthread, hway⟩ := h
    exact effort_proceed hthread hway next
  | work t =>
    obtain ⟨houtside, worker, hworker, hstays⟩ := h
    exact effort_work houtside hworker hstays

theorem step_idle {p : WorkerPool α} {move : PoolMove α} (hown : Own move) (h : ¬p.Busy move) :
    p.step move = p := by
  cases move with
  | submit client job => cases hown
  | shutdown client => cases hown
  | wake thread => cases hown
  | proceed t next =>
    have hsystem : p.queueStep (.proceed t next) = p.system := by
      cases hthread : p.system.threads[t]? with
      | none => simp only [queueStep, Monitor.step, hthread]
      | some thread =>
        cases thread with
        | outside => simp only [queueStep, Monitor.step, hthread]
        | asleep call => simp only [queueStep, Monitor.step, hthread]
        | awake call => exact absurd ⟨_, hthread, trivial⟩ h
        | notifying notices => exact absurd ⟨_, hthread, trivial⟩ h
    simp only [step, hsystem, List.drop_length, List.foldl_nil]
  | work t =>
    simp only [step]
    split
    · rename_i hworker houtside
      exact absurd ⟨houtside, _, hworker, by simp⟩ h
    · rename_i hworker houtside
      exact absurd ⟨houtside, _, hworker, by simp⟩ h
    · rfl

theorem works_length {p : WorkerPool α} {moves : List (PoolMove α)} (h : p.Works moves) :
    moves.length ≤ p.effort := by
  induction moves generalizing p with
  | nil => exact Nat.zero_le _
  | cons move moves ih =>
    obtain ⟨hown, hchanges, hworks⟩ := h
    have hless : (p.step move).effort < p.effort :=
      effort_busy (not_not.mp fun hidle => hchanges (step_idle hown hidle))
    have hrest := ih hworks
    rw [List.length_cons]
    omega

/-! ### At rest -/

theorem settled_iff {p : WorkerPool α} : p.Settled ↔ ∀ move, ¬p.Busy move := by
  constructor
  · intro h move hbusy
    have hown : Own move := by
      cases move with
      | submit client job => cases hbusy
      | shutdown client => cases hbusy
      | wake thread => cases hbusy
      | proceed t next => trivial
      | work t => trivial
    have hless := effort_busy hbusy
    rw [h move hown] at hless
    exact absurd hless (Nat.lt_irrefl _)
  · intro h move hown
    exact step_idle hown (h move)

/-- The workers make no other call than `pop`. -/
def OnlyPop (p : WorkerPool α) : Prop :=
  ∀ t call, inCall p.system t = some call → t < p.workers.length → call = .pop

theorem onlyPop_step {p : WorkerPool α} (h : p.OnlyPop) (move : PoolMove α) :
    (p.step move).OnlyPop := by
  have hlength : (p.step move).workers.length = p.workers.length := p.run_workers_length [move]
  have hkeeps (m : Move (Call α)) (hsystem : (p.step move).system = p.queueStep m)
      (hcalls : ∀ t call, m = .call t call → t < p.workers.length → call = .pop) :
      (p.step move).OnlyPop := by
    intro t call hcall ht
    rw [hlength] at ht
    rw [hsystem] at hcall
    rcases Monitor.step_inCall hcall with hold | ⟨hnew, -⟩
    · exact h t call hold ht
    · exact hcalls t call hnew ht
  cases move with
  | submit client job =>
    by_cases hclient : client < p.workers.length
    · simp only [step, if_pos hclient]
      exact h
    · refine hkeeps (.call client (.push job)) (by simp only [step, if_neg hclient]) ?_
      intro t call heq ht
      obtain ⟨rfl, -⟩ := Move.call.inj heq
      exact absurd ht hclient
  | shutdown client =>
    cases hstep : p.system.threads[client]? with
    | none =>
      simp only [step, hstep]
      exact h
    | some thread =>
      cases thread with
      | outside =>
        by_cases hclient : client < p.workers.length ∨ p.shutdown = true
        · simp only [step, hstep, if_pos hclient]
          exact h
        · refine hkeeps (.call client .shutdown) (by simp only [step, hstep, if_neg hclient]) ?_
          intro t call heq ht
          obtain ⟨rfl, -⟩ := Move.call.inj heq
          exact absurd (Or.inl ht) hclient
      | awake call =>
        simp only [step, hstep]
        exact h
      | asleep call =>
        simp only [step, hstep]
        exact h
      | notifying notices =>
        simp only [step, hstep]
        exact h
  | wake thread => exact hkeeps (.wake thread) rfl fun t call heq => by cases heq
  | proceed thread next => exact hkeeps (.proceed thread next) rfl fun t call heq => by cases heq
  | work worker =>
    generalize hp' : p.step (.work worker) = p' at hlength hkeeps
    simp only [step] at hp'
    split at hp'
    · refine hkeeps (.call worker .pop) (by rw [← hp']) fun t call heq _ => ?_
      exact (Move.call.inj heq).2.symm
    · rw [← hp'] at hlength ⊢
      intro t call hcall ht
      rw [hlength] at ht
      exact h t call hcall ht
    · rw [← hp']
      exact h

theorem onlyPop_run {p : WorkerPool α} (h : p.OnlyPop) (moves : List (PoolMove α)) :
    (p.run moves).OnlyPop := by
  induction moves generalizing p with
  | nil => exact h
  | cons move moves ih => exact ih (onlyPop_step h move)

theorem onlyPop_new (numWorkers maxQueueSize clients : ℕ) :
    (new α numWorkers maxQueueSize clients).OnlyPop := by
  intro t call hcall
  obtain ⟨thread, hthread, hin⟩ := Option.bind_eq_some_iff.mp hcall
  rw [List.eq_of_mem_replicate (List.mem_of_getElem? hthread)] at hin
  cases hin

section rest
variable {numWorkers maxQueueSize clients : ℕ} {moves : List (PoolMove α)}

/-- At rest no call that could go on is asleep. -/
theorem rest_not_ready (h : ((new α numWorkers maxQueueSize clients).run moves).Settled)
    (call : Call α) (hcall : (∃ job, call = .push job) ∨ call = .pop)
    (hasleep : .asleep call ∈
      ((new α numWorkers maxQueueSize clients).run moves).system.threads) :
    BoundedQueue.ready call
      ((new α numWorkers maxQueueSize clients).run moves).system.state = false := by
  obtain ⟨moves', hsystem⟩ := (new α numWorkers maxQueueSize clients).run_system moves
  have hsystem : ((new α numWorkers maxQueueSize clients).run moves).system =
    (BoundedQueue.monitor α).run
      (BoundedQueue.start α maxQueueSize (numWorkers + clients)) moves' := hsystem
  cases hready : BoundedQueue.ready call
      ((new α numWorkers maxQueueSize clients).run moves).system.state with
  | false => rfl
  | true =>
    have hsomeone := @BoundedQueue.someone_moves α maxQueueSize (numWorkers + clients) moves' call
    simp only [← hsystem] at hsomeone
    obtain ⟨thread, hmem, hmoves⟩ := hsomeone hasleep hready hcall
    obtain ⟨t, hthread⟩ := List.getElem?_of_mem hmem
    refine absurd ⟨thread, hthread, ?_⟩ (settled_iff.mp h (.proceed t 0))
    rcases hmoves with ⟨call', rfl⟩ | ⟨notice, rest, rfl⟩
    · trivial
    · trivial

/-- At rest a worker is asleep in a `pop` that finds nothing, or it has left. -/
theorem rest_worker (h : ((new α numWorkers maxQueueSize clients).run moves).Settled) (t : ℕ)
    (worker : WorkerLoop α)
    (hworker : ((new α numWorkers maxQueueSize clients).run moves).workers[t]? = some worker) :
    worker = .left ∨ worker = .looping ∧ BoundedQueue.ready .pop
      ((new α numWorkers maxQueueSize clients).run moves).system.state = false := by
  have haccounted := accounted_run (accounted_new (α := α) numWorkers maxQueueSize clients) moves
  have honly := onlyPop_run (onlyPop_new (α := α) numWorkers maxQueueSize clients) moves
  have hnone := rest_not_ready h
  have hthreads : ((new α numWorkers maxQueueSize clients).run moves).system.threads.length =
      numWorkers + clients := by
    obtain ⟨moves', hsystem⟩ := (new α numWorkers maxQueueSize clients).run_system moves
    rw [hsystem, Monitor.run_length]
    exact List.length_replicate
  have hworkers : ((new α numWorkers maxQueueSize clients).run moves).workers.length =
      numWorkers := by
    rw [run_workers_length]
    exact List.length_replicate
  generalize (new α numWorkers maxQueueSize clients).run moves = p at *
  have ht : t < p.workers.length := (List.getElem?_eq_some_iff.mp hworker).1
  obtain ⟨thread, hthread⟩ : ∃ thread, p.system.threads[t]? = some thread :=
    ⟨_, List.getElem?_eq_getElem (by omega)⟩
  have hidle := settled_iff.mp h
  cases thread with
  | outside =>
    left
    by_contra hstays
    exact hidle (.work t) ⟨hthread, worker, hworker, hstays⟩
  | asleep call =>
    right
    have hcall : inCall p.system t = some call := by
      unfold inCall
      rw [hthread]
      rfl
    obtain rfl := honly t call hcall ht
    have hlooping := haccounted.popping t hcall
    rw [hworker] at hlooping
    exact ⟨Option.some.inj hlooping, hnone .pop (Or.inr rfl) (List.mem_of_getElem? hthread)⟩
  | awake call => exact absurd ⟨_, hthread, trivial⟩ (hidle (.proceed t 0))
  | notifying notices => exact absurd ⟨_, hthread, trivial⟩ (hidle (.proceed t 0))

end rest

/-- What was accepted was handed out or waits in the queue. -/
theorem accepted_events (numWorkers maxQueueSize clients : ℕ) (moves : List (PoolMove α)) :
    let p := (new α numWorkers maxQueueSize clients).run moves
    accepted (BoundedQueue.events p.system) =
      taken (BoundedQueue.events p.system) ++ p.system.state.queue := by
  intro p
  obtain ⟨moves', hsystem⟩ := (new α numWorkers maxQueueSize clients).run_system moves
  have hsystem : p.system = (BoundedQueue.monitor α).run
    (BoundedQueue.start α maxQueueSize (numWorkers + clients)) moves' := hsystem
  have hlegal := BoundedQueue.legal_run maxQueueSize (numWorkers + clients) moves'
  rw [← hsystem] at hlegal
  exact hlegal.balance

/-- The jobs that were accepted are the ones that have been run, that a worker runs, and that wait
in the queue. -/
theorem accepted_perm (numWorkers maxQueueSize clients : ℕ) (moves : List (PoolMove α)) :
    let p := (new α numWorkers maxQueueSize clients).run moves
    (accepted (BoundedQueue.events p.system)).Perm
      (p.ran ++ p.workers.filterMap WorkerLoop.job ++ p.system.state.queue) := by
  intro p
  have haccounted : Accounted p := accounted_run (accounted_new numWorkers maxQueueSize clients) moves
  rw [accepted_events numWorkers maxQueueSize clients moves]
  exact haccounted.jobs.append_right _

section drained
variable {numWorkers maxQueueSize clients : ℕ} {moves : List (PoolMove α)}

theorem rest_joined (h : ((new α numWorkers maxQueueSize clients).run moves).Settled)
    (hready : BoundedQueue.ready .pop
      ((new α numWorkers maxQueueSize clients).run moves).system.state = true) :
    Joined ((new α numWorkers maxQueueSize clients).run moves) := by
  intro worker hmem
  obtain ⟨t, hworker⟩ := List.getElem?_of_mem hmem
  rcases rest_worker h t worker hworker with hleft | ⟨-, hnot⟩
  · exact hleft
  · rw [hready] at hnot
    cases hnot

/-- At rest no worker has a job, and none is in the queue. -/
theorem rest_drained (hworkers : 0 < numWorkers)
    (h : ((new α numWorkers maxQueueSize clients).run moves).Settled) :
    (∀ worker ∈ ((new α numWorkers maxQueueSize clients).run moves).workers, worker.job = none) ∧
    ((new α numWorkers maxQueueSize clients).run moves).system.state.queue = [] := by
  constructor
  · intro worker hmem
    obtain ⟨t, hworker⟩ := List.getElem?_of_mem hmem
    rcases rest_worker h t worker hworker with rfl | ⟨rfl, -⟩
    · rfl
    · rfl
  · cases hq : ((new α numWorkers maxQueueSize clients).run moves).system.state.queue with
    | nil => rfl
    | cons job queue =>
      have hready : BoundedQueue.ready .pop
          ((new α numWorkers maxQueueSize clients).run moves).system.state = true := by
        simp only [BoundedQueue.ready, hq, List.isEmpty_cons, Bool.not_false, Bool.true_or]
      have hempty :=
        (joined_all_ran hworkers maxQueueSize clients moves (rest_joined h hready)).2
      rw [← hq]
      exact hempty

/-- At rest nobody waits to submit. -/
theorem rest_submitted (hworkers : 0 < numWorkers) (hsize : 0 < maxQueueSize)
    (h : ((new α numWorkers maxQueueSize clients).run moves).Settled) (job : α) :
    .asleep (.push job) ∉ ((new α numWorkers maxQueueSize clients).run moves).system.threads := by
  intro hasleep
  have hnot := rest_not_ready h (.push job) (Or.inl ⟨job, rfl⟩) hasleep
  have hqueue := (rest_drained hworkers h).2
  have hsame : ((new α numWorkers maxQueueSize clients).run moves).system.state.maxSize =
      maxQueueSize := by
    obtain ⟨moves', hsystem⟩ := (new α numWorkers maxQueueSize clients).run_system moves
    rw [hsystem]
    exact (BoundedQueue.legal_sequential (Monitor.run_sequential _ _ moves')).1
  have hready : BoundedQueue.ready (.push job)
      ((new α numWorkers maxQueueSize clients).run moves).system.state = true := by
    simp only [BoundedQueue.ready, hqueue, hsame, List.length_nil, hsize, decide_true,
      Bool.true_or]
  rw [hready] at hnot
  cases hnot

end drained

/-- The jobs that were accepted are the ones that have been run, that a worker runs, and that wait
in the queue. What the threads can do on their own has an end, and there every job that was
accepted has been run, no submission waits, and behind a shutdown all workers have left. -/
theorem pool_drains {numWorkers maxQueueSize : ℕ} (hworkers : 0 < numWorkers)
    (hsize : 0 < maxQueueSize) (clients : ℕ) (moves : List (PoolMove α)) :
    let p := (new α numWorkers maxQueueSize clients).run moves
    (accepted (BoundedQueue.events p.system)).Perm
      (p.ran ++ p.workers.filterMap WorkerLoop.job ++ p.system.state.queue) ∧
    (∃ bound, ∀ own, p.Works own → own.length ≤ bound) ∧
    (p.Settled → p.ran.Perm (accepted (BoundedQueue.events p.system)) ∧
      (∀ job, .asleep (.push job) ∉ p.system.threads) ∧
      (p.system.state.shutdown = true → Joined p)) := by
  intro p
  have hall : (accepted (BoundedQueue.events p.system)).Perm
      (p.ran ++ p.workers.filterMap WorkerLoop.job ++ p.system.state.queue) :=
    accepted_perm numWorkers maxQueueSize clients moves
  refine ⟨hall, ⟨p.effort, fun own => works_length⟩, fun hsettled =>
    ⟨?_, rest_submitted hworkers hsize hsettled, fun hshutdown => rest_joined hsettled ?_⟩⟩
  · obtain ⟨hidle, hqueue⟩ := rest_drained hworkers hsettled
    have hnone : p.workers.filterMap WorkerLoop.job = [] := List.filterMap_eq_nil_iff.mpr hidle
    have hqueue : p.system.state.queue = [] := hqueue
    rw [hnone, hqueue, List.append_nil, List.append_nil] at hall
    exact hall.symm
  · show BoundedQueue.ready .pop p.system.state = true
    simp only [BoundedQueue.ready, hshutdown, Bool.or_true]

/-- A job is submitted to one worker, which runs it and waits for the next. -/
def oneJob : List (PoolMove ℕ) :=
  [.submit 1 7, .proceed 1 0, .proceed 1 0, .proceed 1 0, .work 0, .proceed 0 0, .proceed 0 0,
    .proceed 0 0, .work 0, .work 0, .proceed 0 0]

theorem settled_oneJob : ((new ℕ 1 1 1).run oneJob).Settled := by
  have hthreads : ((new ℕ 1 1 1).run oneJob).system.threads = [.asleep .pop, .outside] := rfl
  have hworkers : ((new ℕ 1 1 1).run oneJob).workers = [.looping] := rfl
  rw [settled_iff]
  intro move hbusy
  cases move with
  | submit client job => cases hbusy
  | shutdown client => cases hbusy
  | wake thread => cases hbusy
  | proceed t next =>
    obtain ⟨thread, hthread, hway⟩ := hbusy
    rw [hthreads] at hthread
    rcases t with _ | _ | t
    · cases hthread
      cases hway
    · cases hthread
      cases hway
    · cases hthread
  | work t =>
    obtain ⟨houtside, worker, hworker, -⟩ := hbusy
    rw [hthreads] at houtside
    rw [hworkers] at hworker
    rcases t with _ | t
    · cases houtside
    · cases hworker

theorem pool_drains_oneJob :
    let p := (new ℕ 1 1 1).run oneJob
    p.ran = [7] ∧ p.ran.Perm (accepted (BoundedQueue.events p.system)) :=
  ⟨rfl, ((pool_drains Nat.one_pos Nat.one_pos 1 oneJob).2.2 settled_oneJob).1⟩

end WorkerPool
end Aevrix.Worker
