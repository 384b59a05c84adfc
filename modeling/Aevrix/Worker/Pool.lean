import Aevrix.Worker.BoundedQueue

/-!
# The worker pool (`worker_pool.h`)

The first threads of the system are the workers, each in its loop of popping a job and running
it; the others submit jobs and shut the pool down. `shutdown` joins the workers: it returns when
all of them have left their loops, and then every job that was accepted has been run
(`joined_all_ran`).
-/

namespace Aevrix.Worker
open Concurrent (Monitor System Move Return Thread)
open Concurrent.Channel (Event Legal accepted taken)

/-- Where a worker is in its loop. -/
inductive WorkerLoop (α : Type) where
  | looping
  | running (job : α)
  | left

def WorkerLoop.job {α : Type} : WorkerLoop α → Option α
  | running job => some job
  | _ => none

structure WorkerPool (α : Type) where
  system : System (BoundedQueue α) (Call α) (Result α) Condition
  workers : List (WorkerLoop α)
  shutdown : Bool := false
  /-- The jobs that have been run. -/
  ran : List α := []

/-- What the threads around the queue do. -/
inductive PoolMove (α : Type) where
  | submit (client : ℕ) (job : α)
  | shutdown (client : ℕ)
  | wake (thread : ℕ)
  | proceed (thread next : ℕ)
  | work (worker : ℕ)

namespace WorkerPool
variable {α : Type}

/-- `WorkerPool::WorkerPool` (`worker_pool.h:262-272`). -/
def new (α : Type) (numWorkers maxQueueSize clients : ℕ) : WorkerPool α where
  system := BoundedQueue.start α maxQueueSize (numWorkers + clients)
  workers := List.replicate numWorkers .looping

def queueStep (p : WorkerPool α) (move : Move (Call α)) :
    System (BoundedQueue α) (Call α) (Result α) Condition :=
  (BoundedQueue.monitor α).step p.system move

/-- The worker behind a `pop` that has run (`worker_pool.h:376-383`). -/
def receive (workers : List (WorkerLoop α)) (r : Return (Call α) (Result α)) :
    List (WorkerLoop α) :=
  match r.result with
  | .popped (some job) => workers.set r.thread (.running job)
  | .popped none => workers.set r.thread .left
  | _ => workers

/-- `submit` and `shutdown` by the other threads (`worker_pool.h:298-343`), and the workers. -/
def step (p : WorkerPool α) : PoolMove α → WorkerPool α
  | .submit client job =>
    if client < p.workers.length then p
    else { p with system := p.queueStep (.call client (.push job)) }
  | .shutdown client => match p.system.threads[client]? with
    | some .outside =>
      if client < p.workers.length ∨ p.shutdown = true then p
      else { p with system := p.queueStep (.call client .shutdown), shutdown := true }
    | _ => p
  | .wake thread => { p with system := p.queueStep (.wake thread) }
  | .proceed thread next =>
    let system := p.queueStep (.proceed thread next)
    let returned := system.history.drop p.system.history.length
    { p with system, workers := returned.foldl receive p.workers }
  | .work worker => match p.workers[worker]?, p.system.threads[worker]? with
    | some .looping, some .outside => { p with system := p.queueStep (.call worker .pop) }
    | some (.running job), some .outside =>
      { p with workers := p.workers.set worker .looping, ran := p.ran ++ [job] }
    | _, _ => p

def run (p : WorkerPool α) (moves : List (PoolMove α)) : WorkerPool α := moves.foldl step p

/-- All workers have left their loops, so that they can be joined. -/
def Joined (p : WorkerPool α) : Prop := ∀ worker ∈ p.workers, worker = .left

/-! ### What a move does -/

/-- The moves by what they change. -/
inductive Stepped (p : WorkerPool α) : WorkerPool α → Prop where
  | stays : Stepped p p
  | calls (client : ℕ) (call : Call α) (shutdown : Bool) : call ≠ .pop →
    Stepped p { p with system := p.queueStep (.call client call), shutdown }
  | wakes (thread : ℕ) : Stepped p { p with system := p.queueStep (.wake thread) }
  | proceeds (thread next : ℕ) : Stepped p (p.step (.proceed thread next))
  | pops (worker : ℕ) : p.workers[worker]? = some .looping →
    Stepped p { p with system := p.queueStep (.call worker .pop) }
  | runs (worker : ℕ) (job : α) : p.workers[worker]? = some (.running job) →
    Stepped p { p with workers := p.workers.set worker .looping, ran := p.ran ++ [job] }

theorem stepped (p : WorkerPool α) (move : PoolMove α) : Stepped p (p.step move) := by
  cases move with
  | submit client job =>
    simp only [step]
    split
    · exact .stays
    · exact .calls client (.push job) p.shutdown (by simp)
  | shutdown client =>
    simp only [step]
    split
    · split
      · exact .stays
      · exact .calls client .shutdown true (by simp)
    · exact .stays
  | wake thread => exact .wakes thread
  | proceed thread next => exact .proceeds thread next
  | work worker =>
    simp only [step]
    split
    · rename_i hlooping _
      exact .pops worker hlooping
    · rename_i job hrunning _
      exact .runs worker job hrunning
    · exact .stays

theorem step_system (p : WorkerPool α) (move : PoolMove α) :
    ∃ moves, (p.step move).system = (BoundedQueue.monitor α).run p.system moves := by
  generalize hp' : p.step move = p'
  have h := p.stepped move
  rw [hp'] at h
  cases h with
  | stays => exact ⟨[], rfl⟩
  | calls client call _ _ => exact ⟨[.call client call], rfl⟩
  | wakes thread => exact ⟨[.wake thread], rfl⟩
  | proceeds thread next => exact ⟨[.proceed thread next], rfl⟩
  | pops worker _ => exact ⟨[.call worker .pop], rfl⟩
  | runs worker job _ => exact ⟨[], rfl⟩

theorem run_system (p : WorkerPool α) (moves : List (PoolMove α)) :
    ∃ moves', (p.run moves).system = (BoundedQueue.monitor α).run p.system moves' := by
  induction moves generalizing p with
  | nil => exact ⟨[], rfl⟩
  | cons move moves ih =>
    obtain ⟨first, hfirst⟩ := p.step_system move
    obtain ⟨later, hlater⟩ := ih (p.step move)
    refine ⟨first ++ later, ?_⟩
    rw [hfirst] at hlater
    rw [Monitor.run, List.foldl_append]
    exact hlater

theorem step_proceed (p : WorkerPool α) (thread next : ℕ) :
    let p' := p.step (.proceed thread next)
    p'.ran = p.ran ∧
    (p'.system.history = p.system.history ∧ p'.workers = p.workers ∨
      ∃ t call, Monitor.Runs (BoundedQueue.monitor α) p.system p'.system t call ∧
        p'.workers = receive p.workers ⟨t, call, (BoundedQueue.body call p.system.state).1⟩) := by
  intro p'
  have hworkers : p'.workers =
      (p'.system.history.drop p.system.history.length).foldl receive p.workers := rfl
  refine ⟨rfl, ?_⟩
  rcases (BoundedQueue.monitor α).step_cases p.system (.proceed thread next) with
    ⟨_, hsame⟩ | ⟨t, call, hruns⟩
  · have hsame : p'.system.history = p.system.history := hsame
    left
    refine ⟨hsame, ?_⟩
    rw [hworkers, hsame, List.drop_length]
    rfl
  · have hhistory : p'.system.history = p.system.history ++ _ := hruns.history
    right
    refine ⟨t, call, hruns, ?_⟩
    rw [hworkers, hhistory, List.drop_left]
    rfl

theorem receive_length (workers : List (WorkerLoop α)) (r : Return (Call α) (Result α)) :
    (receive workers r).length = workers.length := by
  unfold receive
  split
  · exact List.length_set
  · exact List.length_set
  · rfl

theorem run_workers_length (p : WorkerPool α) (moves : List (PoolMove α)) :
    (p.run moves).workers.length = p.workers.length := by
  have hstep : ∀ (p : WorkerPool α) move, (p.step move).workers.length = p.workers.length := by
    intro p move
    generalize hp' : p.step move = p'
    have h := p.stepped move
    rw [hp'] at h
    cases h with
    | stays => rfl
    | calls client call _ _ => rfl
    | wakes thread => rfl
    | proceeds thread next =>
      rcases (p.step_proceed thread next).2 with ⟨_, hsame⟩ | ⟨t, call, _, hreceived⟩
      · rw [hsame]
      · rw [hreceived, receive_length]
    | pops worker _ => rfl
    | runs worker job _ => exact List.length_set
  induction moves generalizing p with
  | nil => rfl
  | cons move moves ih => exact (ih (p.step move)).trans (hstep p move)

/-! ### Every job is somewhere -/

/-- Where the jobs that were handed out are, and what the loops know of the queue. -/
structure Accounted (p : WorkerPool α) : Prop where
  jobs : (taken (BoundedQueue.events p.system)).Perm (p.ran ++ p.workers.filterMap WorkerLoop.job)
  ended : .left ∈ p.workers → Event.ended ∈ BoundedQueue.events p.system
  popping : ∀ t, Monitor.inCall p.system t = some .pop → p.workers[t]? = some .looping

theorem filterMap_set_perm {workers : List (WorkerLoop α)} {t : ℕ} {old : WorkerLoop α}
    (h : workers[t]? = some old) (new : WorkerLoop α) :
    (old.job.toList ++ (workers.set t new).filterMap WorkerLoop.job).Perm
      (new.job.toList ++ workers.filterMap WorkerLoop.job) := by
  have hcons : ∀ (worker : WorkerLoop α) rest,
      (worker :: rest).filterMap WorkerLoop.job =
        worker.job.toList ++ rest.filterMap WorkerLoop.job := by
    intro worker rest
    cases worker with
    | looping => rfl
    | running job => rfl
    | left => rfl
  induction workers generalizing t with
  | nil => cases h
  | cons worker workers ih =>
    cases t with
    | zero =>
      have hold : worker = old := Option.some.inj h
      rw [List.set_cons_zero, hcons, hcons, hold, ← List.append_assoc, ← List.append_assoc]
      exact List.perm_append_comm.append_right _
    | succ t =>
      have hrest := ih (t := t) h
      rw [List.set_cons_succ, hcons, hcons]
      have hfront := List.perm_append_comm_assoc old.job.toList worker.job.toList
        ((workers.set t new).filterMap WorkerLoop.job)
      have hback := List.perm_append_comm_assoc worker.job.toList new.job.toList
        (workers.filterMap WorkerLoop.job)
      exact hfront.trans ((hrest.append_left _).trans hback)

theorem Accounted.enters {p p' : WorkerPool α} (h : Accounted p) (move : Move (Call α))
    (hsystem : p'.system = p.queueStep move) (hworkers : p'.workers = p.workers)
    (hran : p'.ran = p.ran) (hquiet : p'.system.history = p.system.history)
    (hpop : ∀ u, move = .call u .pop → p.workers[u]? = some .looping) : Accounted p' := by
  have hevents : BoundedQueue.events p'.system = BoundedQueue.events p.system := by
    rw [BoundedQueue.events, hquiet, BoundedQueue.events]
  constructor
  · rw [hevents, hworkers, hran]
    exact h.jobs
  · rw [hevents, hworkers]
    exact h.ended
  · intro t ht
    rw [hsystem] at ht
    rw [hworkers]
    rcases Monitor.step_inCall ht with hold | ⟨hcall, _⟩
    · exact h.popping t hold
    · exact hpop t hcall

theorem Accounted.receives {p p' : WorkerPool α} {t : ℕ} (h : Accounted p)
    (hruns : Monitor.Runs (BoundedQueue.monitor α) p.system p'.system t .pop)
    (hworkers : p'.workers = receive p.workers ⟨t, .pop, p.system.state.pop.1⟩)
    (hran : p'.ran = p.ran) : Accounted p' := by
  have hlooping : p.workers[t]? = some .looping := by
    apply h.popping
    unfold Monitor.inCall
    rw [hruns.awake]
    rfl
  have hevents : BoundedQueue.events p'.system =
      BoundedQueue.events p.system ++ [BoundedQueue.event ⟨t, .pop, p.system.state.pop.1⟩] := by
    rw [BoundedQueue.events, hruns.history, List.map_append]
    rfl
  obtain ⟨value, hvalue⟩ : ∃ value, p.system.state.pop.1 = .popped value := by
    unfold BoundedQueue.pop
    split
    · exact ⟨_, rfl⟩
    · exact ⟨_, rfl⟩
  rw [hvalue] at hevents hworkers
  have hothers : ∀ u new, p'.workers = p.workers.set t new →
      Monitor.inCall p'.system u = some .pop → p'.workers[u]? = some .looping := by
    intro u new hset hu
    obtain ⟨hne, hold⟩ := hruns.others hu
    rw [hset, List.getElem?_set_ne hne.symm]
    exact h.popping u hold
  cases value with
  | some job =>
    have hset : p'.workers = p.workers.set t (.running job) := hworkers
    constructor
    · rw [hevents, Concurrent.Channel.taken_append, hset, hran]
      have hperm := filterMap_set_perm hlooping (.running job)
      have hjob : (taken (BoundedQueue.events p.system) ++ [job]).Perm
          (p.ran ++ (p.workers.filterMap WorkerLoop.job ++ [job])) := by
        rw [← List.append_assoc]
        exact h.jobs.append_right [job]
      exact hjob.trans ((List.perm_append_comm.trans hperm.symm).append_left p.ran)
    · intro hleft
      rw [hset] at hleft
      rw [hevents]
      rcases List.mem_or_eq_of_mem_set hleft with hold | hnew
      · exact List.mem_append_left _ (h.ended hold)
      · cases hnew
    · exact fun u => hothers u _ hset
  | none =>
    have hset : p'.workers = p.workers.set t .left := hworkers
    constructor
    · rw [hevents, Concurrent.Channel.taken_append, hset, hran]
      have hperm := filterMap_set_perm hlooping .left
      have hnone : (taken (BoundedQueue.events p.system) ++ []).Perm
          (p.ran ++ p.workers.filterMap WorkerLoop.job) := by
        rw [List.append_nil]
        exact h.jobs
      exact hnone.trans (hperm.symm.append_left p.ran)
    · intro _
      rw [hevents]
      exact List.mem_append_right _ (List.mem_singleton_self _)
    · exact fun u => hothers u _ hset

theorem Accounted.returns {p p' : WorkerPool α} {t : ℕ} {call : Call α} (h : Accounted p)
    (hruns : Monitor.Runs (BoundedQueue.monitor α) p.system p'.system t call)
    (hworkers : p'.workers = p.workers) (hran : p'.ran = p.ran)
    (htaken : taken [BoundedQueue.event ⟨t, call, (BoundedQueue.body call p.system.state).1⟩] = []) :
    Accounted p' := by
  have hevents : BoundedQueue.events p'.system = BoundedQueue.events p.system ++
      [BoundedQueue.event ⟨t, call, (BoundedQueue.body call p.system.state).1⟩] := by
    rw [BoundedQueue.events, hruns.history, List.map_append]
    rfl
  constructor
  · rw [hevents, Concurrent.Channel.taken_append, htaken, List.append_nil, hworkers, hran]
    exact h.jobs
  · intro hleft
    rw [hworkers] at hleft
    rw [hevents]
    exact List.mem_append_left _ (h.ended hleft)
  · intro u hu
    rw [hworkers]
    exact h.popping u (hruns.others hu).2

theorem Accounted.proceeds {p : WorkerPool α} (h : Accounted p) (thread next : ℕ) :
    Accounted (p.step (.proceed thread next)) := by
  obtain ⟨hran, hsame⟩ := p.step_proceed thread next
  rcases hsame with ⟨hquiet, hworkers⟩ | ⟨t, call, hruns, hworkers⟩
  · apply h.enters (.proceed thread next) rfl hworkers hran hquiet
    intro u hu
    cases hu
  · cases call with
    | pop => exact h.receives hruns hworkers hran
    | shutdown => exact h.returns hruns hworkers hran rfl
    | push job =>
      obtain ⟨ok, hok⟩ : ∃ ok, (BoundedQueue.body (.push job) p.system.state).1 = .pushed ok := by
        simp only [BoundedQueue.body, BoundedQueue.push]
        split
        · exact ⟨_, rfl⟩
        · exact ⟨_, rfl⟩
      rw [hok] at hworkers
      apply h.returns hruns hworkers hran
      rw [hok]
      cases ok with
      | true => rfl
      | false => rfl

theorem Accounted.finishes {p : WorkerPool α} {worker : ℕ} {job : α} (h : Accounted p)
    (hrunning : p.workers[worker]? = some (.running job)) :
    Accounted { p with
      workers := p.workers.set worker .looping
      ran := p.ran ++ [job] } := by
  constructor
  · have hperm := (filterMap_set_perm hrunning .looping).append_left p.ran
    rw [List.append_assoc]
    exact h.jobs.trans hperm.symm
  · intro hleft
    rcases List.mem_or_eq_of_mem_set hleft with hold | hnew
    · exact h.ended hold
    · cases hnew
  · intro u hu
    have hold := h.popping u hu
    have hne : worker ≠ u := by
      rintro rfl
      rw [hrunning] at hold
      cases hold
    rw [List.getElem?_set_ne hne]
    exact hold

theorem Accounted.step {p : WorkerPool α} (h : Accounted p) (move : PoolMove α) :
    Accounted (p.step move) := by
  generalize hp' : p.step move = p'
  have hstepped := p.stepped move
  rw [hp'] at hstepped
  cases hstepped with
  | stays => exact h
  | calls client call shutdown hcall =>
    refine h.enters (.call client call) rfl rfl rfl ((BoundedQueue.monitor α).call_history _ _ _) ?_
    intro u hu
    cases hu
    exact absurd rfl hcall
  | wakes thread =>
    refine h.enters (.wake thread) rfl rfl rfl rfl ?_
    intro u hu
    cases hu
  | proceeds thread next => exact h.proceeds thread next
  | pops worker hlooping =>
    refine h.enters (.call worker .pop) rfl rfl rfl ((BoundedQueue.monitor α).call_history _ _ _) ?_
    intro u hu
    cases hu
    exact hlooping
  | runs worker job hrunning => exact h.finishes hrunning

theorem accounted_new (numWorkers maxQueueSize clients : ℕ) :
    Accounted (new α numWorkers maxQueueSize clients) := by
  have hworkers : ∀ worker ∈ (new α numWorkers maxQueueSize clients).workers, worker = .looping :=
    fun worker hworker => (List.mem_replicate.mp hworker).2
  constructor
  · have hnone : (new α numWorkers maxQueueSize clients).workers.filterMap WorkerLoop.job = [] := by
      rw [List.filterMap_eq_nil_iff]
      intro worker hworker
      rw [hworkers worker hworker]
      rfl
    rw [hnone]
    exact List.Perm.refl _
  · intro hleft
    cases hworkers _ hleft
  · intro t ht
    have houtside : ∀ thread ∈ (new α numWorkers maxQueueSize clients).system.threads,
        thread = .outside := fun thread hthread => (List.mem_replicate.mp hthread).2
    obtain ⟨thread, hthread, hcall⟩ := Option.bind_eq_some_iff.mp ht
    rw [houtside thread (List.mem_of_getElem? hthread)] at hcall
    cases hcall

theorem accounted_run {p : WorkerPool α} (h : Accounted p) (moves : List (PoolMove α)) :
    Accounted (p.run moves) := by
  induction moves generalizing p with
  | nil => exact h
  | cons move moves ih => exact ih (h.step move)

/-- When the workers can be joined, the jobs that were accepted have been run, each of them once,
and nothing is left in the queue. -/
theorem joined_all_ran {numWorkers : ℕ} (hworkers : 0 < numWorkers) (maxQueueSize clients : ℕ)
    (moves : List (PoolMove α)) :
    let p := (new α numWorkers maxQueueSize clients).run moves
    Joined p →
      p.ran.Perm (accepted (BoundedQueue.events p.system)) ∧ p.system.state.queue = [] := by
  intro p hjoined
  have haccounted : Accounted p := accounted_run (accounted_new numWorkers maxQueueSize clients) moves
  have hleft : WorkerLoop.left ∈ p.workers := by
    have hlength : p.workers.length = numWorkers := by
      rw [run_workers_length]
      exact List.length_replicate
    obtain ⟨worker, hworker⟩ := List.exists_mem_of_length_pos (hlength ▸ hworkers)
    rw [← hjoined worker hworker]
    exact hworker
  have hidle : p.workers.filterMap WorkerLoop.job = [] := by
    rw [List.filterMap_eq_nil_iff]
    intro worker hworker
    rw [hjoined worker hworker]
    rfl
  obtain ⟨moves', hsystem⟩ := (new α numWorkers maxQueueSize clients).run_system moves
  have hsystem : p.system = (BoundedQueue.monitor α).run
    (BoundedQueue.start α maxQueueSize (numWorkers + clients)) moves' := hsystem
  have hlegal := BoundedQueue.legal_run maxQueueSize (numWorkers + clients) moves'
  rw [← hsystem] at hlegal
  obtain ⟨e₁, e₂, hsplit⟩ := List.append_of_mem (haccounted.ended hleft)
  have hbalance : accepted (BoundedQueue.events p.system) =
    taken (BoundedQueue.events p.system) ++ p.system.state.queue := hlegal.balance
  have hend : taken e₁ = accepted (BoundedQueue.events p.system) := by
    have hlegal : Legal maxQueueSize _ (BoundedQueue.events p.system) _ := hlegal
    rw [hsplit] at hlegal ⊢
    exact hlegal.taken_before_end.2
  -- what was taken up to the first end is all of it, so the rest of the balance is empty
  have hrest : taken (.ended :: e₂) ++ p.system.state.queue = [] := by
    have htaken : taken (BoundedQueue.events p.system) = taken e₁ ++ taken (.ended :: e₂) := by
      rw [hsplit, Concurrent.Channel.taken_append]
    rw [htaken, ← hend, List.append_assoc] at hbalance
    exact List.self_eq_append_right.mp hbalance
  have hqueue := (List.append_eq_nil_iff.mp hrest).2
  have hjobs := haccounted.jobs
  rw [hidle, List.append_nil] at hjobs
  rw [hqueue, List.append_nil] at hbalance
  rw [hbalance]
  exact ⟨hjobs.symm, hqueue⟩

end WorkerPool
end Aevrix.Worker
