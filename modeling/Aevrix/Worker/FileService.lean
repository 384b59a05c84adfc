import Aevrix.Static.FilesystemWorker
import Aevrix.Worker.CompletionHandler
import Aevrix.Worker.PoolProgress

/-!
# From a submitted task to its result (`main.cpp`)

The event loop submits tasks to the pool, a worker executes each and pushes the result, and the
loop drains the results. Submitting blocks the loop while the queue is full, and then it does not
drain; but pushing a result blocks nobody. So the threads have only so much to do on their own,
and at rest every accepted task has been executed once and its result has reached the loop
(`tasks_answered`).
-/

namespace Aevrix.Worker
open Aevrix.Server (WorkerTask WorkerResult)
open Aevrix.Static (Disk executeFilesystemTask)
open Concurrent (Doorbell Monitor)
open Concurrent.Channel (accepted taken)
open Concurrent.Doorbell (Producer)
open WorkerCompletionHandler (doorbell)

/-- The pool, the results on their way to the loop, and what was executed, with the file system
that the task found. The thread behind the workers is the event loop. -/
structure FileService where
  pool : WorkerPool WorkerTask
  results : Doorbell.System WorkerCompletionHandler WorkerResult
  executed : List (Disk × WorkerTask) := []

inductive ServiceMove where
  | submit (task : WorkerTask)
  | drain
  | shutdown
  | wake (thread : ℕ)
  | proceed (thread next : ℕ)
  | work (worker : ℕ) (disk : Disk)

namespace FileService

def new (numWorkers maxQueueSize : ℕ) : FileService where
  pool := WorkerPool.new WorkerTask numWorkers maxQueueSize 1
  results := WorkerCompletionHandler.start numWorkers

/-- The loop is not inside a call of the pool, and has not ended. -/
def loopRuns (s : FileService) : Bool :=
  match s.pool.system.threads[s.pool.workers.length]? with
  | some .outside => !s.pool.shutdown
  | _ => false

/-- The handlers submit between two drains (`main.cpp:1010-1036`), and `main` shuts the pool down
behind the loop (`main.cpp:2126`). A job is `execute_filesystem_task`, then `enqueue_result` in its
two steps, the second together with the way back into the loop of the worker. -/
def step (s : FileService) : ServiceMove → FileService
  | .submit task =>
    if s.loopRuns && decide (s.results.consumer ≠ .taking) then
      { s with pool := s.pool.step (.submit s.pool.workers.length task) }
    else s
  | .drain => if s.loopRuns then { s with results := doorbell.step s.results .consume } else s
  | .shutdown =>
    if s.results.consumer = .waiting then
      { s with pool := s.pool.step (.shutdown s.pool.workers.length) }
    else s
  | .wake thread => { s with pool := s.pool.step (.wake thread) }
  | .proceed thread next => { s with pool := s.pool.step (.proceed thread next) }
  | .work worker disk =>
    match s.pool.workers[worker]?, s.pool.system.threads[worker]?, s.results.producers[worker]? with
    | some (.running task), some .outside, some .idle => { s with
      results := doorbell.step s.results (.put worker (executeFilesystemTask disk task))
      executed := s.executed ++ [(disk, task)] }
    | some (.running _), some .outside, some .between => { s with
      results := doorbell.step s.results (.ring worker)
      pool := s.pool.step (.work worker) }
    | _, _, _ => { s with pool := s.pool.step (.work worker) }

def run (s : FileService) (moves : List ServiceMove) : FileService := moves.foldl step s

/-- A move that a thread makes on its own. -/
def Own : ServiceMove → Prop
  | .drain | .proceed _ _ | .work _ _ => True
  | .submit _ | .shutdown | .wake _ => False

/-- Moves of the threads on their own, each of which does something. -/
def Works (s : FileService) : List ServiceMove → Prop
  | [] => True
  | move :: moves => Own move ∧ s.step move ≠ s ∧ (s.step move).Works moves

/-- No thread does anything on its own. -/
def Settled (s : FileService) : Prop := ∀ move, Own move → s.step move = s

/-- The task of a worker that has not pushed its result yet. -/
def claimOf : Option (WorkerLoop WorkerTask) → Option Producer → List WorkerTask
  | some (.running task), some .idle => [task]
  | _, _ => []

def claim (s : FileService) (worker : ℕ) : List WorkerTask :=
  claimOf s.pool.workers[worker]? s.results.producers[worker]?

def claimed (s : FileService) : List WorkerTask :=
  (List.range s.pool.workers.length).flatMap s.claim

/-- What `execute_filesystem_task` made of the tasks. -/
def answers (s : FileService) : List WorkerResult :=
  s.executed.map fun e => executeFilesystemTask e.1 e.2

/-! ### The parts of a run -/

/-- The pool and the results go through runs of their own, tied together by what the workers hold. -/
structure Linked (numWorkers maxQueueSize : ℕ) (s : FileService) : Prop where
  pool : ∃ moves, s.pool = (WorkerPool.new WorkerTask numWorkers maxQueueSize 1).run moves
  results : ∃ moves, s.results = doorbell.run (WorkerCompletionHandler.start numWorkers) moves
  producers : s.results.producers.length = s.pool.workers.length
  put : s.results.put = s.answers
  between : ∀ w : ℕ, s.results.producers[w]? = some .between →
    ∃ task, s.pool.workers[w]? = some (.running task)
  handed : (taken (BoundedQueue.events s.pool.system)).Perm (s.executed.map Prod.snd ++ s.claimed)
  ended : ∀ t, Monitor.inCall s.pool.system t = some .shutdown → s.pool.shutdown = true

variable {numWorkers maxQueueSize : ℕ} {s s' : FileService}

/-- What one worker claims changes, and what the others claim stays. -/
theorem claimed_at {w : ℕ} (hw : w < s.pool.workers.length)
    (hlength : s'.pool.workers.length = s.pool.workers.length)
    (hothers : ∀ u, u ≠ w → s'.claim u = s.claim u) :
    (s.claim w ++ s'.claimed).Perm (s'.claim w ++ s.claimed) := by
  have hfront (f : ℕ → List WorkerTask) : ((List.range s.pool.workers.length).flatMap f).Perm
      (f w ++ ((List.range s.pool.workers.length).erase w).flatMap f) :=
    (List.perm_cons_erase (List.mem_range.mpr hw)).flatMap_right f
  have hrest : ((List.range s.pool.workers.length).erase w).flatMap s'.claim =
      ((List.range s.pool.workers.length).erase w).flatMap s.claim := by
    refine List.flatMap_congr fun u hu => hothers u ?_
    rintro rfl
    exact (List.nodup_range.mem_erase_iff.mp hu).1 rfl
  unfold claimed
  rw [hlength]
  refine ((hfront s'.claim).append_left (s.claim w)).trans ?_
  rw [hrest]
  refine List.Perm.trans ?_ ((hfront s.claim).symm.append_left (s'.claim w))
  exact List.perm_append_comm_assoc _ _ _

/-- A move of the pool that moves no worker. -/
theorem Linked.moves (h : Linked numWorkers maxQueueSize s) {move : PoolMove WorkerTask}
    (hworkers : (s.pool.step move).workers = s.pool.workers)
    (hevents : taken (BoundedQueue.events (s.pool.step move).system) =
      taken (BoundedQueue.events s.pool.system))
    (hended : ∀ t, Monitor.inCall (s.pool.step move).system t = some .shutdown →
      (s.pool.step move).shutdown = true) :
    Linked numWorkers maxQueueSize { s with pool := s.pool.step move } := by
  obtain ⟨moves, hpool⟩ := h.pool
  have hclaim (w : ℕ) : ({ s with pool := s.pool.step move } : FileService).claim w = s.claim w := by
    unfold claim
    rw [hworkers]
  refine ⟨⟨moves ++ [move], ?_⟩, h.results, ?_, h.put, ?_, ?_, hended⟩
  · rw [WorkerPool.run_concat, ← hpool]
  · rw [hworkers]
    exact h.producers
  · rw [hworkers]
    exact h.between
  · have hclaimed : ({ s with pool := s.pool.step move } : FileService).claimed = s.claimed := by
      unfold claimed
      rw [hworkers]
      exact List.flatMap_congr fun w _ => hclaim w
    rw [hevents, hclaimed]
    exact h.handed

theorem Linked.proceeds (h : Linked numWorkers maxQueueSize s) (thread next : ℕ) :
    Linked numWorkers maxQueueSize (s.step (.proceed thread next)) := by
  obtain ⟨moves, hpool⟩ := h.pool
  have haccounted : WorkerPool.Accounted s.pool := by
    rw [hpool]
    exact WorkerPool.accounted_run (WorkerPool.accounted_new numWorkers maxQueueSize 1) moves
  have hended : ∀ t, Monitor.inCall (s.pool.step (.proceed thread next)).system t =
      some .shutdown → s.pool.shutdown = true := by
    intro t ht
    rcases Monitor.step_inCall ht with hold | ⟨hcall, -⟩
    · exact h.ended t hold
    · cases hcall
  rcases WorkerPool.proceed_hands haccounted thread next with
    ⟨hworkers, hevents⟩ | ⟨t, hlooping, new, hnew, hworkers, hevents⟩
  · exact h.moves hworkers hevents hended
  have ht : t < s.pool.workers.length := (List.getElem?_eq_some_iff.mp hlooping).1
  have hlength : (s.pool.step (.proceed thread next)).workers.length = s.pool.workers.length := by
    rw [hworkers, List.length_set]
  have hidle : s.results.producers[t]? = some .idle := by
    cases hproducer : s.results.producers[t]? with
    | none =>
      rw [List.getElem?_eq_none_iff, h.producers] at hproducer
      omega
    | some producer =>
      cases producer with
      | idle => rfl
      | between =>
        obtain ⟨task, hrunning⟩ := h.between t hproducer
        rw [hlooping] at hrunning
        cases hrunning
  refine ⟨⟨moves ++ [.proceed thread next], ?_⟩, h.results, h.producers.trans hlength.symm, h.put,
    ?_, ?_, hended⟩
  · rw [WorkerPool.run_concat, ← hpool]
    rfl
  · intro w hbetween
    replace hbetween : s.results.producers[w]? = some .between := hbetween
    have hne : t ≠ w := by
      rintro rfl
      rw [hidle] at hbetween
      cases hbetween
    show ∃ task, (s.pool.step (.proceed thread next)).workers[w]? = _
    rw [hworkers, List.getElem?_set_ne hne]
    exact h.between w hbetween
  · have hothers (u : ℕ) (hu : u ≠ t) :
        (s.step (.proceed thread next)).claim u = s.claim u := by
      show claimOf (s.pool.step (.proceed thread next)).workers[u]? s.results.producers[u]? = _
      rw [hworkers, List.getElem?_set_ne hu.symm]
      rfl
    have hat : (s.step (.proceed thread next)).claim t = new.job.toList := by
      show claimOf (s.pool.step (.proceed thread next)).workers[t]? s.results.producers[t]? = _
      rw [hworkers, List.getElem?_set_self ht, hidle]
      cases new <;> rfl
    have hbefore : s.claim t = [] := by
      unfold claim
      rw [hlooping]
      rfl
    have hclaimed : (s.claim t ++ (s.step (.proceed thread next)).claimed).Perm
        ((s.step (.proceed thread next)).claim t ++ s.claimed) :=
      claimed_at ht hlength hothers
    rw [hbefore, hat, List.nil_append] at hclaimed
    show (taken (BoundedQueue.events (s.pool.step (.proceed thread next)).system)).Perm
      (s.executed.map Prod.snd ++ (s.step (.proceed thread next)).claimed)
    rw [hevents]
    refine (h.handed.append_right new.job.toList).trans ?_
    rw [List.append_assoc]
    exact (List.perm_append_comm.trans hclaimed.symm).append_left _

theorem Linked.puts (h : Linked numWorkers maxQueueSize s) {worker : ℕ} {task : WorkerTask}
    (hrunning : s.pool.workers[worker]? = some (.running task))
    (hidle : s.results.producers[worker]? = some .idle) (disk : Disk) :
    Linked numWorkers maxQueueSize { s with
      results := doorbell.step s.results (.put worker (executeFilesystemTask disk task))
      executed := s.executed ++ [(disk, task)] } := by
  generalize hs' : ({ s with
      results := doorbell.step s.results (.put worker (executeFilesystemTask disk task))
      executed := s.executed ++ [(disk, task)] } : FileService) = s'
  obtain ⟨moves, hresults⟩ := h.results
  have hw : worker < s.pool.workers.length := (List.getElem?_eq_some_iff.mp hrunning).1
  have hstep : s'.results = { s.results with
      state := doorbell.put (executeFilesystemTask disk task) s.results.state
      producers := s.results.producers.set worker .between
      put := s.results.put ++ [executeFilesystemTask disk task] } := by
    rw [← hs']
    simp only [Doorbell.step, hidle]
  have hpool : s'.pool = s.pool := by rw [← hs']
  have hexecuted : s'.executed = s.executed ++ [(disk, task)] := by rw [← hs']
  have hothers (u : ℕ) (hu : u ≠ worker) : s'.claim u = s.claim u := by
    unfold claim
    rw [hpool, hstep]
    dsimp only
    rw [List.getElem?_set_ne hu.symm]
  refine ⟨hpool ▸ h.pool, ⟨moves ++ [.put worker (executeFilesystemTask disk task)], ?_⟩, ?_, ?_, ?_,
    ?_, hpool ▸ h.ended⟩
  · rw [← hs', Doorbell.run_concat, ← hresults]
  · rw [hstep, hpool, List.length_set]
    exact h.producers
  · rw [answers, hexecuted, List.map_append, hstep]
    dsimp only
    rw [h.put]
    rfl
  · intro w hbetween
    rw [hpool]
    by_cases hne : worker = w
    · exact ⟨task, hne ▸ hrunning⟩
    · rw [hstep] at hbetween
      dsimp only at hbetween
      rw [List.getElem?_set_ne hne] at hbetween
      exact h.between w hbetween
  · have hbefore : s.claim worker = [task] := by
      unfold claim
      rw [hrunning, hidle]
      rfl
    have hbehind : s'.claim worker = [] := by
      unfold claim
      rw [hpool, hstep]
      dsimp only
      rw [List.getElem?_set_self (h.producers ▸ hw), hrunning]
      rfl
    have hclaimed := claimed_at hw (by rw [hpool]) hothers
    rw [hbefore, hbehind, List.nil_append] at hclaimed
    rw [hpool, hexecuted, List.map_append, List.append_assoc]
    exact h.handed.trans (hclaimed.symm.append_left _)

theorem Linked.rings (h : Linked numWorkers maxQueueSize s) {worker : ℕ} {task : WorkerTask}
    (hrunning : s.pool.workers[worker]? = some (.running task))
    (houtside : s.pool.system.threads[worker]? = some .outside)
    (hbetween : s.results.producers[worker]? = some .between) :
    Linked numWorkers maxQueueSize { s with
      results := doorbell.step s.results (.ring worker)
      pool := s.pool.step (.work worker) } := by
  generalize hs' : ({ s with
      results := doorbell.step s.results (.ring worker)
      pool := s.pool.step (.work worker) } : FileService) = s'
  obtain ⟨moves, hresults⟩ := h.results
  obtain ⟨poolMoves, hpool⟩ := h.pool
  have hw : worker < s.pool.workers.length := (List.getElem?_eq_some_iff.mp hrunning).1
  have hstep : s'.results = { s.results with
      state := doorbell.ring s.results.state
      producers := s.results.producers.set worker .idle } := by
    rw [← hs']
    simp only [Doorbell.step, hbetween]
  have hworked : s'.pool = { s.pool with
      workers := s.pool.workers.set worker .looping
      ran := s.pool.ran ++ [task] } := by
    rw [← hs']
    simp only [WorkerPool.step, hrunning, houtside]
  have hexecuted : s'.executed = s.executed := by rw [← hs']
  have hclaim (u : ℕ) : s'.claim u = s.claim u := by
    unfold claim
    rw [hworked, hstep]
    dsimp only
    by_cases hu : worker = u
    · rw [← hu, List.getElem?_set_self hw, hrunning, hbetween]
      rfl
    · rw [List.getElem?_set_ne hu, List.getElem?_set_ne hu]
  have hlength : s'.pool.workers.length = s.pool.workers.length := by
    rw [hworked]
    exact List.length_set
  refine ⟨⟨poolMoves ++ [.work worker], ?_⟩, ⟨moves ++ [.ring worker], ?_⟩, ?_, ?_, ?_, ?_, ?_⟩
  · rw [← hs', WorkerPool.run_concat, ← hpool]
  · rw [← hs', Doorbell.run_concat, ← hresults]
  · rw [hlength, hstep]
    exact List.length_set.trans h.producers
  · rw [answers, hexecuted, hstep]
    exact h.put
  · intro w hw'
    rw [hstep] at hw'
    dsimp only at hw'
    by_cases hne : worker = w
    · rw [← hne, List.getElem?_set_self (h.producers ▸ hw)] at hw'
      cases hw'
    · rw [List.getElem?_set_ne hne] at hw'
      rw [hworked]
      dsimp only
      rw [List.getElem?_set_ne hne]
      exact h.between w hw'
  · have hclaimed : s'.claimed = s.claimed := by
      unfold claimed
      rw [hlength]
      exact List.flatMap_congr fun u _ => hclaim u
    rw [hclaimed, hexecuted, hworked]
    exact h.handed
  · rw [hworked]
    exact h.ended

theorem Linked.drains (h : Linked numWorkers maxQueueSize s) :
    Linked numWorkers maxQueueSize { s with results := doorbell.step s.results .consume } := by
  obtain ⟨moves, hresults⟩ := h.results
  have hkeeps : (doorbell.step s.results .consume).producers = s.results.producers ∧
      (doorbell.step s.results .consume).put = s.results.put := by
    simp only [Doorbell.step, Doorbell.consume]
    cases s.results.consumer with
    | waiting =>
      dsimp only
      split <;> exact ⟨rfl, rfl⟩
    | woken => exact ⟨rfl, rfl⟩
    | taking =>
      rcases doorbell.take s.results.state with ⟨value, state⟩
      cases value <;> exact ⟨rfl, rfl⟩
  have hclaim (w : ℕ) : ({ s with
      results := doorbell.step s.results .consume } : FileService).claim w = s.claim w := by
    unfold claim
    dsimp only
    rw [hkeeps.1]
  refine ⟨h.pool, ⟨moves ++ [.consume], ?_⟩, ?_, ?_, ?_, ?_, h.ended⟩
  · rw [Doorbell.run_concat, ← hresults]
  · dsimp only
    rw [hkeeps.1]
    exact h.producers
  · dsimp only
    rw [hkeeps.2]
    exact h.put
  · dsimp only
    rw [hkeeps.1]
    exact h.between
  · have hclaimed : ({ s with
        results := doorbell.step s.results .consume } : FileService).claimed = s.claimed := by
      unfold claimed
      exact List.flatMap_congr fun w _ => hclaim w
    rw [hclaimed]
    exact h.handed

/-! ### Whole runs -/

/-- What the move of a worker is: it pushes, it rings and goes on, or it is a move of the pool. -/
theorem step_work (hproducers : s.results.producers.length = s.pool.workers.length) (w : ℕ)
    (disk : Disk) :
    (∃ task, s.pool.workers[w]? = some (.running task) ∧
      s.pool.system.threads[w]? = some .outside ∧ s.results.producers[w]? = some .idle ∧
      s.step (.work w disk) = { s with
        results := doorbell.step s.results (.put w (executeFilesystemTask disk task))
        executed := s.executed ++ [(disk, task)] }) ∨
    (∃ task, s.pool.workers[w]? = some (.running task) ∧
      s.pool.system.threads[w]? = some .outside ∧ s.results.producers[w]? = some .between ∧
      s.step (.work w disk) = { s with
        results := doorbell.step s.results (.ring w)
        pool := s.pool.step (.work w) }) ∨
    (s.pool.step (.work w)).workers = s.pool.workers ∧
      ((s.pool.step (.work w)).system = s.pool.queueStep (.call w .pop) ∨
        (s.pool.step (.work w)).system = s.pool.system) ∧
      (s.pool.step (.work w)).shutdown = s.pool.shutdown ∧
      s.step (.work w disk) = { s with pool := s.pool.step (.work w) } := by
  cases hworker : s.pool.workers[w]? with
  | none => simp [step, WorkerPool.step, hworker]
  | some worker =>
    cases hthread : s.pool.system.threads[w]? with
    | none => simp [step, WorkerPool.step, hworker, hthread]
    | some thread =>
      cases worker with
      | looping => cases thread <;> simp [step, WorkerPool.step, hworker, hthread]
      | left => cases thread <;> simp [step, WorkerPool.step, hworker, hthread]
      | running task =>
        cases thread with
        | asleep call => simp [step, WorkerPool.step, hworker, hthread]
        | awake call => simp [step, WorkerPool.step, hworker, hthread]
        | notifying notices => simp [step, WorkerPool.step, hworker, hthread]
        | outside =>
          have hw : w < s.pool.workers.length := (List.getElem?_eq_some_iff.mp hworker).1
          cases hproducer : s.results.producers[w]? with
          | none =>
            rw [List.getElem?_eq_none_iff, hproducers] at hproducer
            omega
          | some producer =>
            cases producer with
            | idle =>
              refine Or.inl ⟨task, rfl, rfl, rfl, ?_⟩
              simp only [step, hworker, hthread, hproducer]
            | between =>
              refine Or.inr (Or.inl ⟨task, rfl, rfl, rfl, ?_⟩)
              simp only [step, hworker, hthread, hproducer]

theorem Linked.step (h : Linked numWorkers maxQueueSize s) (move : ServiceMove) :
    Linked numWorkers maxQueueSize (s.step move) := by
  have hcalled {m : Concurrent.Move (Call WorkerTask)} {p : WorkerPool WorkerTask}
      (hsystem : p.system = s.pool.queueStep m) (hshutdown : p.shutdown = s.pool.shutdown)
      (hother : ∀ t, m ≠ .call t .shutdown) (t : ℕ)
      (ht : Monitor.inCall p.system t = some .shutdown) : p.shutdown = true := by
    rw [hsystem] at ht
    rcases Monitor.step_inCall ht with hold | ⟨hcall, -⟩
    · exact hshutdown.trans (h.ended t hold)
    · exact absurd hcall (hother t)
  have hquiet {m : PoolMove WorkerTask} {t : ℕ} {call : Call WorkerTask}
      (hsystem : (s.pool.step m).system = s.pool.queueStep (.call t call)) :
      taken (BoundedQueue.events (s.pool.step m).system) =
        taken (BoundedQueue.events s.pool.system) := by
    rw [hsystem, BoundedQueue.events, WorkerPool.queueStep, Monitor.call_history,
      BoundedQueue.events]
  cases move with
  | submit task =>
    simp only [FileService.step]
    split
    · have hstep : s.pool.step (.submit s.pool.workers.length task) = { s.pool with
          system := s.pool.queueStep (.call s.pool.workers.length (.push task)) } := by
        simp only [WorkerPool.step, if_neg (Nat.lt_irrefl _)]
      have hsystem := congrArg WorkerPool.system hstep
      exact h.moves (by rw [hstep]) (hquiet hsystem)
        (hcalled (m := .call _ (.push task)) hsystem (by rw [hstep]) fun t heq => by cases heq)
    · exact h
  | drain =>
    simp only [FileService.step]
    split
    · exact h.drains
    · exact h
  | shutdown =>
    simp only [FileService.step]
    split
    · rcases s.pool.step_shutdown s.pool.workers.length with hstep | ⟨hworkers, hsystem, hended⟩
      · rw [hstep]
        exact h
      · exact h.moves hworkers (hquiet hsystem) fun _ _ => hended
    · exact h
  | wake thread => exact h.moves rfl rfl (hcalled (m := .wake thread) rfl rfl fun t heq => by cases heq)
  | proceed thread next => exact h.proceeds thread next
  | work w disk =>
    rcases step_work h.producers w disk with ⟨task, hrunning, -, hidle, hstep⟩ |
      ⟨task, hrunning, houtside, hbetween, hstep⟩ | ⟨hworkers, hsystem, hshutdown, hstep⟩
    · rw [hstep]
      exact h.puts hrunning hidle disk
    · rw [hstep]
      exact h.rings hrunning houtside hbetween
    · rw [hstep]
      rcases hsystem with hcall | hsame
      · exact h.moves hworkers (hquiet hcall)
          (hcalled (m := .call w .pop) hcall hshutdown fun t heq => by cases heq)
      · refine h.moves hworkers (by rw [hsame]) fun t ht => ?_
        rw [hsame] at ht
        exact hshutdown.trans (h.ended t ht)

theorem linked_new (numWorkers maxQueueSize : ℕ) :
    Linked numWorkers maxQueueSize (new numWorkers maxQueueSize) := by
  have hworkers : (new numWorkers maxQueueSize).pool.workers =
      List.replicate numWorkers .looping := rfl
  refine ⟨⟨[], rfl⟩, ⟨[], rfl⟩, ?_, rfl, fun w hbetween => ?_, ?_, fun t ht => ?_⟩
  · rw [hworkers, List.length_replicate]
    exact List.length_replicate
  · cases List.eq_of_mem_replicate (List.mem_of_getElem? hbetween)
  · have hclaimed : (new numWorkers maxQueueSize).claimed = [] := by
      unfold claimed
      rw [List.flatMap_eq_nil_iff]
      intro w _
      unfold claim
      rw [hworkers, List.getElem?_replicate]
      split <;> rfl
    rw [hclaimed]
    exact List.Perm.refl _
  · obtain ⟨thread, hthread, hin⟩ := Option.bind_eq_some_iff.mp ht
    rw [List.eq_of_mem_replicate (List.mem_of_getElem? hthread)] at hin
    cases hin

theorem linked_run (numWorkers maxQueueSize : ℕ) (moves : List ServiceMove) :
    Linked numWorkers maxQueueSize ((new numWorkers maxQueueSize).run moves) := by
  have hrun : ∀ s, Linked numWorkers maxQueueSize s → Linked numWorkers maxQueueSize (s.run moves) := by
    induction moves with
    | nil => exact fun s h => h
    | cons move moves ih => exact fun s h => ih (s.step move) (h.step move)
  exact hrun _ (linked_new numWorkers maxQueueSize)

/-! ### What is left to do -/

/-- What the loop still does for a bell. -/
def bell (results : Doorbell.System WorkerCompletionHandler WorkerResult) : ℕ :=
  match results.consumer with
  | .waiting => if results.state.readable then 3 else 0
  | .woken => 2
  | .taking => if results.state.readable then 4 else 1

def effort (s : FileService) : ℕ :=
  10 * s.pool.effort + 2 * s.claimed.length + s.results.state.resultQueue.length + bell s.results

theorem bell_le (results : Doorbell.System WorkerCompletionHandler WorkerResult) :
    bell results ≤ 4 := by
  unfold bell
  split
  · split <;> omega
  · omega
  · split <;> omega

theorem Linked.count (h : Linked numWorkers maxQueueSize s) :
    (taken (BoundedQueue.events s.pool.system)).length = s.executed.length + s.claimed.length := by
  rw [h.handed.length_eq, List.length_append, List.length_map]

theorem consume_effort (results : Doorbell.System WorkerCompletionHandler WorkerResult)
    (hchanges : doorbell.step results .consume ≠ results) :
    (doorbell.step results .consume).state.resultQueue.length +
        bell (doorbell.step results .consume) <
      results.state.resultQueue.length + bell results := by
  obtain ⟨⟨resultQueue, eventFd⟩, producers, consumer, put, taken⟩ := results
  cases consumer with
  | waiting =>
    by_cases hrings : 0 < eventFd
    · have hreadable : (⟨resultQueue, eventFd⟩ : WorkerCompletionHandler).readable = true :=
        decide_eq_true hrings
      simp only [Doorbell.step, Doorbell.consume, doorbell, bell, hreadable, if_true]
      omega
    · refine absurd ?_ hchanges
      have hsilent : (⟨resultQueue, eventFd⟩ : WorkerCompletionHandler).readable = false :=
        decide_eq_false hrings
      simp only [Doorbell.step, Doorbell.consume, doorbell, hsilent, if_neg Bool.false_ne_true]
  | woken =>
    show resultQueue.length + 1 < resultQueue.length + 2
    omega
  | taking =>
    cases resultQueue with
    | nil =>
      show 0 + (if decide (0 < eventFd) = true then 3 else 0) <
        0 + (if decide (0 < eventFd) = true then 4 else 1)
      split <;> omega
    | cons result rest =>
      show rest.length + (if decide (0 < eventFd) = true then 4 else 1) <
        (rest.length + 1) + (if decide (0 < eventFd) = true then 4 else 1)
      omega

theorem own_effort (p : WorkerPool WorkerTask) (move : PoolMove WorkerTask)
    (hown : WorkerPool.Own move) : p.step move = p ∨ (p.step move).effort < p.effort := by
  by_cases hbusy : p.Busy move
  · exact Or.inr (WorkerPool.effort_busy hbusy)
  · exact Or.inl (WorkerPool.step_idle hown hbusy)

theorem step_effort (h : Linked numWorkers maxQueueSize s) {move : ServiceMove} (hown : Own move)
    (hchanges : s.step move ≠ s) : (s.step move).effort < s.effort := by
  have hbefore := h.count
  have hbehind := (h.step move).count
  cases move with
  | submit task => cases hown
  | shutdown => cases hown
  | wake thread => cases hown
  | drain =>
    by_cases hruns : s.loopRuns = true
    · have hstep : s.step .drain = { s with results := doorbell.step s.results .consume } := by
        simp only [step, hruns, if_true]
      rw [hstep] at hchanges ⊢
      have hless := consume_effort s.results fun hsame => hchanges (by rw [hsame])
      have hclaimed : ({ s with
          results := doorbell.step s.results .consume } : FileService).claimed.length =
            s.claimed.length := by
        rw [hstep] at hbehind
        dsimp only at hbehind
        omega
      unfold effort
      rw [hclaimed]
      dsimp only
      omega
    · exact absurd (by simp only [step, if_neg hruns]) hchanges
  | proceed thread next =>
    have hpool := own_effort s.pool (.proceed thread next) trivial
    rcases hpool with hsame | hless
    · exact absurd (by simp only [step, hsame]) hchanges
    · obtain ⟨moves, hrun⟩ := h.pool
      have haccounted : WorkerPool.Accounted s.pool := by
        rw [hrun]
        exact WorkerPool.accounted_run (WorkerPool.accounted_new numWorkers maxQueueSize 1) moves
      have hhanded : (taken (BoundedQueue.events (s.pool.step (.proceed thread next)).system)).length
          ≤ (taken (BoundedQueue.events s.pool.system)).length + 1 := by
        rcases WorkerPool.proceed_hands haccounted thread next with
          ⟨-, hevents⟩ | ⟨t, -, new, -, -, hevents⟩
        · rw [hevents]
          omega
        · rw [hevents, List.length_append]
          cases new with
          | looping => exact Nat.le_succ _
          | running job => exact Nat.le_refl _
          | left => exact Nat.le_succ _
      simp only [step, effort] at hbehind ⊢
      omega
  | work w disk =>
    rcases step_work h.producers w disk with ⟨task, -, -, hidle, hstep⟩ |
      ⟨task, hrunning, houtside, hbetween, hstep⟩ | ⟨-, hsystem, -, hstep⟩
    · rw [hstep] at hbehind ⊢
      have hput : doorbell.step s.results (.put w (executeFilesystemTask disk task)) =
          { s.results with
            state := s.results.state.push (executeFilesystemTask disk task)
            producers := s.results.producers.set w .between
            put := s.results.put ++ [executeFilesystemTask disk task] } := by
        simp only [Doorbell.step, hidle]
        rfl
      have hqueue : (s.results.state.push
          (executeFilesystemTask disk task)).resultQueue.length =
            s.results.state.resultQueue.length + 1 := List.length_append
      have hbell : bell (doorbell.step s.results
          (.put w (executeFilesystemTask disk task))) = bell s.results := by
        rw [hput]
        rfl
      unfold effort
      simp only [hbell]
      rw [List.length_append] at hbehind
      simp only [hput, hqueue, List.length_singleton] at hbehind ⊢
      omega
    · have hbusy : s.pool.Busy (.work w) := ⟨houtside, _, hrunning, by simp⟩
      have hless : (s.pool.step (.work w)).effort < s.pool.effort := WorkerPool.effort_busy hbusy
      rw [hstep] at hbehind ⊢
      have hevents : (s.pool.step (.work w)).system = s.pool.system := by
        simp only [WorkerPool.step, hrunning, houtside]
      have hqueue : (doorbell.step s.results (.ring w)).state.resultQueue =
          s.results.state.resultQueue := by
        simp only [Doorbell.step, hbetween]
        rfl
      have hbell := bell_le (doorbell.step s.results (.ring w))
      simp only [hevents] at hbehind
      unfold effort
      simp only [hqueue]
      omega
    · rw [hstep] at hchanges hbehind ⊢
      rcases own_effort s.pool (.work w) trivial with hsame | hless
      · exact absurd (by rw [hsame]) hchanges
      · have hevents : BoundedQueue.events (s.pool.step (.work w)).system =
            BoundedQueue.events s.pool.system := by
          rcases hsystem with hcall | hsame
          · rw [hcall, BoundedQueue.events, WorkerPool.queueStep, Monitor.call_history,
              BoundedQueue.events]
          · rw [hsame]
        simp only [hevents] at hbehind
        unfold effort
        dsimp only at hbehind ⊢
        omega

theorem works_length (h : Linked numWorkers maxQueueSize s) {moves : List ServiceMove}
    (hworks : s.Works moves) : moves.length ≤ s.effort := by
  induction moves generalizing s with
  | nil => exact Nat.zero_le _
  | cons move moves ih =>
    obtain ⟨hown, hchanges, hrest⟩ := hworks
    have hless := step_effort h hown hchanges
    have hlater := ih (h.step move) hrest
    rw [List.length_cons]
    omega

/-! ### At rest -/

/-- A file system with one directory. -/
def bareDisk : Disk where
  tree := {
    entries := [([ascii "public"], .directory)]
    cwd := []
    maxLinks := 40
    placed := by decide }
  readable _ := true
  what := none

theorem settled_pool (h : Linked numWorkers maxQueueSize s) (hsettled : s.Settled) :
    s.pool.Settled := by
  intro move hown
  cases move with
  | submit client job => cases hown
  | shutdown client => cases hown
  | wake thread => cases hown
  | proceed thread next =>
    exact congrArg FileService.pool (hsettled (.proceed thread next) trivial)
  | work w =>
    have hrest := hsettled (.work w bareDisk) trivial
    rcases step_work h.producers w bareDisk with ⟨task, -, -, -, hstep⟩ | ⟨task, -, -, -, hstep⟩ |
      ⟨-, -, -, hstep⟩
    · have hlength := congrArg (fun s : FileService => s.executed.length) (hstep.symm.trans hrest)
      simp only [List.length_append, List.length_singleton] at hlength
      omega
    · exact congrArg FileService.pool (hstep.symm.trans hrest)
    · exact congrArg FileService.pool (hstep.symm.trans hrest)

/-- At rest the loop waits for events, unless it has ended. -/
theorem rest_loopRuns (hworkers : 0 < numWorkers) (hsize : 0 < maxQueueSize)
    (h : Linked numWorkers maxQueueSize s) (hsettled : s.Settled)
    (hgoes : s.pool.shutdown = false) : s.loopRuns = true := by
  have hpool := settled_pool h hsettled
  have hidle := WorkerPool.settled_iff.mp hpool
  obtain ⟨moves, hrun⟩ := h.pool
  have haccounted : WorkerPool.Accounted s.pool := by
    rw [hrun]
    exact WorkerPool.accounted_run (WorkerPool.accounted_new numWorkers maxQueueSize 1) moves
  have hcount : s.pool.workers.length = numWorkers := by
    rw [hrun, WorkerPool.run_workers_length]
    exact List.length_replicate
  have hthreads : s.pool.system.threads.length = numWorkers + 1 := by
    obtain ⟨moves', hsystem⟩ := (WorkerPool.new WorkerTask numWorkers maxQueueSize 1).run_system moves
    rw [hrun, hsystem, Monitor.run_length]
    exact List.length_replicate
  obtain ⟨thread, hthread⟩ : ∃ thread, s.pool.system.threads[s.pool.workers.length]? = some thread :=
    ⟨_, List.getElem?_eq_getElem (by omega)⟩
  unfold loopRuns
  rw [hthread, hgoes]
  cases thread with
  | outside => rfl
  | awake call => exact absurd ⟨_, hthread, trivial⟩ (hidle (.proceed s.pool.workers.length 0))
  | notifying notices =>
    exact absurd ⟨_, hthread, trivial⟩ (hidle (.proceed s.pool.workers.length 0))
  | asleep call =>
    exfalso
    have hcall : Monitor.inCall s.pool.system s.pool.workers.length = some call := by
      unfold Monitor.inCall
      rw [hthread]
      rfl
    cases call with
    | push task =>
      have hquiet := hpool
      rw [hrun] at hquiet
      refine WorkerPool.rest_submitted hworkers hsize hquiet task ?_
      rw [← hrun]
      exact List.mem_of_getElem? hthread
    | pop =>
      have hlooping := haccounted.popping _ hcall
      rw [List.getElem?_eq_none (Nat.le_refl _)] at hlooping
      cases hlooping
    | shutdown =>
      rw [h.ended _ hcall] at hgoes
      cases hgoes

/-- At rest a loop that goes on has taken every result that was pushed. -/
theorem rest_taken (hworkers : 0 < numWorkers) (hsize : 0 < maxQueueSize)
    (h : Linked numWorkers maxQueueSize s) (hsettled : s.Settled)
    (hgoes : s.pool.shutdown = false) : s.results.taken = s.answers := by
  have hruns := rest_loopRuns hworkers hsize h hsettled hgoes
  have hsame : doorbell.step s.results .consume = s.results := by
    by_contra hchanges
    have hless := consume_effort s.results hchanges
    have hrest := congrArg FileService.results (hsettled .drain trivial)
    simp only [step, hruns, if_true] at hrest
    exact hchanges hrest
  obtain ⟨moves, hresults⟩ := h.results
  have hannounced : doorbell.Announced s.results := by
    rw [hresults]
    exact Doorbell.announced_run rfl numWorkers moves
  have hnone : s.results.state.resultQueue = [] := by
    by_contra hleft
    have hwaits : s.results.consumer = .waiting ∧ s.results.state.readable = false := by
      simp only [Doorbell.step, Doorbell.consume] at hsame
      cases hconsumer : s.results.consumer with
      | waiting =>
        refine ⟨rfl, ?_⟩
        cases hreadable : s.results.state.readable with
        | false => rfl
        | true =>
          have hrings : doorbell.ringing s.results.state = true := hreadable
          simp only [hconsumer, hrings, if_true] at hsame
          have hwoken := congrArg Doorbell.System.consumer hsame
          rw [hconsumer] at hwoken
          cases hwoken
      | woken =>
        rw [hconsumer] at hsame
        have htaking := congrArg Doorbell.System.consumer hsame
        rw [hconsumer] at htaking
        cases htaking
      | taking =>
        cases hqueue : s.results.state.resultQueue with
        | nil => exact absurd hqueue hleft
        | cons result rest =>
          have htake : doorbell.take s.results.state =
              (some result, { s.results.state with resultQueue := rest }) := by
            show s.results.state.dequeueResult = _
            unfold WorkerCompletionHandler.dequeueResult
            rw [hqueue]
          simp only [hconsumer, htake] at hsame
          have hlength := congrArg (fun r => r.taken.length) hsame
          simp only [List.length_append, List.length_singleton] at hlength
          omega
    rcases hannounced.announced (by rw [hwaits.1]; exact Doorbell.Consumer.noConfusion) hleft with
      hrings | hbetween
    · rw [show doorbell.ringing s.results.state = s.results.state.readable from rfl,
        hwaits.2] at hrings
      cases hrings
    · obtain ⟨w, hw⟩ := List.getElem?_of_mem hbetween
      obtain ⟨task, hrunning⟩ := h.between w hw
      obtain ⟨poolMoves, hrun⟩ := h.pool
      have hquiet := settled_pool h hsettled
      rw [hrun] at hquiet
      have hidle := (WorkerPool.rest_drained hworkers hquiet).1
      rw [← hrun] at hidle
      cases hidle _ (List.mem_of_getElem? hrunning)
  have horder := hannounced.order
  rw [show doorbell.held s.results.state = s.results.state.resultQueue from rfl, hnone,
    List.append_nil] at horder
  exact horder.trans h.put

/-- The tasks that were accepted were executed, are with a worker, or wait in the queue, and the
results go to the loop in the order in which they were pushed. What the threads can do on their
own has an end; and there every accepted task has been executed once, the loop does not wait to
submit and, if it goes on, has all the results, and behind a shutdown the workers have left. -/
theorem tasks_answered (hworkers : 0 < numWorkers) (hsize : 0 < maxQueueSize)
    (moves : List ServiceMove) :
    let s := (new numWorkers maxQueueSize).run moves
    (accepted (BoundedQueue.events s.pool.system)).Perm
      (s.executed.map Prod.snd ++ s.claimed ++ s.pool.system.state.queue) ∧
    s.results.taken ++ s.results.state.resultQueue = s.answers ∧
    (∃ bound, ∀ own, s.Works own → own.length ≤ bound) ∧
    (s.Settled →
      (s.executed.map Prod.snd).Perm (accepted (BoundedQueue.events s.pool.system)) ∧
      (∀ task, .asleep (.push task) ∉ s.pool.system.threads) ∧
      (s.pool.shutdown = false → s.results.taken = s.answers) ∧
      (s.pool.system.state.shutdown = true → WorkerPool.Joined s.pool)) := by
  intro s
  have h : Linked numWorkers maxQueueSize s := linked_run numWorkers maxQueueSize moves
  obtain ⟨poolMoves, hrun⟩ := h.pool
  obtain ⟨resultMoves, hresults⟩ := h.results
  have hall : (accepted (BoundedQueue.events s.pool.system)).Perm
      (s.executed.map Prod.snd ++ s.claimed ++ s.pool.system.state.queue) := by
    have hbalance := WorkerPool.accepted_events numWorkers maxQueueSize 1 poolMoves
    rw [← hrun] at hbalance
    rw [hbalance]
    exact h.handed.append_right _
  refine ⟨hall, ?_, ⟨s.effort, fun own => works_length h⟩, fun hsettled => ?_⟩
  · have horder : doorbell.Announced s.results := by
      rw [hresults]
      exact Doorbell.announced_run rfl numWorkers resultMoves
    exact horder.order.trans h.put
  · have hpool : ((WorkerPool.new WorkerTask numWorkers maxQueueSize 1).run poolMoves).Settled :=
      hrun ▸ settled_pool h hsettled
    obtain ⟨hidle, hqueue⟩ := WorkerPool.rest_drained hworkers hpool
    have hsubmitted := WorkerPool.rest_submitted hworkers hsize hpool
    have hjoined := WorkerPool.rest_joined hpool
    rw [← hrun] at hidle hqueue hsubmitted hjoined
    have hclaimed : s.claimed = [] := by
      unfold claimed
      rw [List.flatMap_eq_nil_iff]
      intro w _
      unfold claim
      cases hworker : s.pool.workers[w]? with
      | none => rfl
      | some worker =>
        cases worker with
        | looping => rfl
        | left => rfl
        | running task => cases hidle _ (List.mem_of_getElem? hworker)
    refine ⟨?_, hsubmitted, rest_taken hworkers hsize h hsettled, fun hshutdown => hjoined ?_⟩
    · rw [hclaimed, hqueue, List.append_nil, List.append_nil] at hall
      exact hall.symm
    · simp only [BoundedQueue.ready, hshutdown, Bool.or_true]

def oneTask : WorkerTask where
  connectionId := 1
  requestTarget := ascii "/missing"
  documentRoot := ascii "/"
  isHeadRequest := false

/-- One worker and a queue of one: the task is submitted, executed, and its result drained. -/
def oneRound : List ServiceMove :=
  [.submit oneTask, .proceed 1 0, .proceed 1 0, .proceed 1 0, .work 0 bareDisk, .proceed 0 0,
    .proceed 0 0, .proceed 0 0, .work 0 bareDisk, .work 0 bareDisk, .work 0 bareDisk, .proceed 0 0,
    .drain, .drain, .drain, .drain]

theorem settled_oneRound : ((new 1 1).run oneRound).Settled := by
  have hthreads : ((new 1 1).run oneRound).pool.system.threads = [.asleep .pop, .outside] := rfl
  have hworkers : ((new 1 1).run oneRound).pool.workers = [.looping] := rfl
  have hpool : ((new 1 1).run oneRound).pool.Settled := by
    rw [WorkerPool.settled_iff]
    intro move hbusy
    cases move with
    | submit client job => cases hbusy
    | shutdown client => cases hbusy
    | wake thread => cases hbusy
    | proceed t next =>
      obtain ⟨thread, hthread, hway⟩ := hbusy
      rw [hthreads] at hthread
      rcases t with _ | _ | t
      · cases hthread
        cases hway
      · cases hthread
        cases hway
      · cases hthread
    | work t =>
      obtain ⟨houtside, worker, hworker, -⟩ := hbusy
      rw [hthreads] at houtside
      rw [hworkers] at hworker
      rcases t with _ | t
      · cases houtside
      · cases hworker
  intro move hown
  cases move with
  | submit task => cases hown
  | shutdown => cases hown
  | wake thread => cases hown
  | drain => rfl
  | proceed thread next =>
    have hsame := hpool (.proceed thread next) trivial
    simp only [step, hsame]
  | work w disk =>
    have hsame := hpool (.work w) trivial
    rcases w with _ | w
    · rfl
    · simp only [step, hworkers, List.getElem?_cons_succ, List.getElem?_nil, hsame]

theorem tasks_answered_oneRound :
    let s := (new 1 1).run oneRound
    s.executed.map Prod.snd = [oneTask] ∧ s.results.taken = s.answers ∧ s.answers.length = 1 :=
  ⟨rfl, ((tasks_answered Nat.one_pos Nat.one_pos oneRound).2.2.2 settled_oneRound).2.2.1 rfl, rfl⟩

end FileService
end Aevrix.Worker
