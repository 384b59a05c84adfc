import Mathlib.Data.List.Basic

/-!
# Monitors

A monitor is a state under one lock, with calls that wait on a condition until they are ready.
Between taking the lock and giving it back (at the end of a call, or by going to sleep) a thread
is alone, so one move of a thread is one step; the moves of different threads come in any order.

A call notifies the conditions its result asks for. A notified thread takes the lock again, tests
again and may go back to sleep; a sleeping thread may also wake up for no reason. Whatever the
order, the calls that have run are a sequential run of their bodies, each started when it was
ready (`run_sequential`).
-/

namespace Concurrent

/-- Whom a condition variable wakes. -/
inductive Notice where
  | one | all
  deriving DecidableEq, Repr

structure Monitor (σ κ ρ γ : Type*) where
  /-- The condition a call waits on. -/
  condition : κ → γ
  /-- The test of the wait. -/
  ready : κ → σ → Bool
  /-- The call behind its wait. -/
  body : κ → σ → ρ × σ
  /-- The notices of a call, in their order. -/
  notices : κ → ρ → List (γ × Notice)

/-- Where a thread is. -/
inductive Thread (κ γ : Type*) where
  | outside
  | awake (call : κ)
  | asleep (call : κ)
  | notifying (notices : List (γ × Notice))

/-- A call that has run. -/
structure Return (κ ρ : Type*) where
  thread : ℕ
  call : κ
  result : ρ

structure System (σ κ ρ γ : Type*) where
  state : σ
  threads : List (Thread κ γ)
  history : List (Return κ ρ)

/-- A thread calls, wakes up for no reason, or goes on; `next` is the thread that a notice wakes
if several wait. -/
inductive Move (κ : Type*) where
  | call (thread : ℕ) (call : κ)
  | wake (thread : ℕ)
  | proceed (thread next : ℕ)

namespace Thread
variable {κ γ : Type*}

def wake : Thread κ γ → Thread κ γ
  | asleep call => awake call
  | thread => thread

/-- The call the thread is in and has not run. -/
def inCall : Thread κ γ → Option κ
  | awake call => some call
  | asleep call => some call
  | _ => none

@[simp] theorem inCall_wake (thread : Thread κ γ) : thread.wake.inCall = thread.inCall := by
  cases thread with
  | outside => rfl
  | awake call => rfl
  | asleep call => rfl
  | notifying notices => rfl

/-- Whether the thread sleeps on a condition. -/
def sleepsOn [DecidableEq γ] (condition : κ → γ) (c : γ) : Thread κ γ → Bool
  | asleep call => decide (condition call = c)
  | _ => false

end Thread

namespace Monitor
variable {σ κ ρ γ : Type*} (M : Monitor σ κ ρ γ)

/-! ### Sequential runs -/

/-- The bodies of the calls, one after the other, each of them ready when it starts. -/
inductive Sequential (first : σ) : List (Return κ ρ) → σ → Prop where
  | nil : Sequential first [] first
  | snoc {history : List (Return κ ρ)} {s : σ} (t : ℕ) (call : κ) :
    Sequential first history s → M.ready call s = true →
    Sequential first (history ++ [⟨t, call, (M.body call s).1⟩]) (M.body call s).2

theorem Sequential.append {M : Monitor σ κ ρ γ} {first second third : σ}
    {before later : List (Return κ ρ)} (h : M.Sequential first before second) (h' : M.Sequential second later third) :
    M.Sequential first (before ++ later) third := by
  induction h' with
  | nil =>
    rw [List.append_nil]
    exact h
  | snoc t call _ hready ih =>
    rw [← List.append_assoc]
    exact ih.snoc t call hready

/-! ### Threads -/

variable [DecidableEq γ]

/-- The thread a single notice wakes: `next`, if it sleeps on the condition, else the first. -/
def chosen (c : γ) (next : ℕ) (threads : List (Thread κ γ)) : Option ℕ :=
  if (threads[next]?).any (Thread.sleepsOn M.condition c) then some next
  else threads.findIdx? (Thread.sleepsOn M.condition c)

/-- The threads behind a notice. -/
def notify (c : γ) (notice : Notice) (next : ℕ) (threads : List (Thread κ γ)) :
    List (Thread κ γ) :=
  match notice with
  | .one => match M.chosen c next threads with
    | some t => threads.modify t Thread.wake
    | none => threads
  | .all => threads.map fun thread =>
      if thread.sleepsOn M.condition c then thread.wake else thread

/-- A thread that holds the lock tests, and goes to sleep or runs its call. -/
def enter (s : System σ κ ρ γ) (t : ℕ) (call : κ) : System σ κ ρ γ :=
  if M.ready call s.state then
    let (result, state) := M.body call s.state
    { state
      threads := s.threads.set t (.notifying (M.notices call result))
      history := s.history ++ [⟨t, call, result⟩] }
  else { s with threads := s.threads.set t (.asleep call) }

/-- One move; a move that is not possible changes nothing. -/
def step (s : System σ κ ρ γ) : Move κ → System σ κ ρ γ
  | .call t call => match s.threads[t]? with
    | some .outside => { s with threads := s.threads.set t (.awake call) }
    | _ => s
  | .wake t => { s with threads := s.threads.modify t Thread.wake }
  | .proceed t next => match s.threads[t]? with
    | some (.awake call) => M.enter s t call
    | some (.notifying []) => { s with threads := s.threads.set t .outside }
    | some (.notifying ((c, notice) :: rest)) =>
      { s with threads := (M.notify c notice next s.threads).set t (.notifying rest) }
    | _ => s

def run (s : System σ κ ρ γ) (moves : List (Move κ)) : System σ κ ρ γ := moves.foldl M.step s

/-- Before the first call of any of the threads. -/
def start (state : σ) (threads : ℕ) : System σ κ ρ γ where
  state := state
  threads := List.replicate threads .outside
  history := []

/-! ### What the threads do -/

variable {M}

/-- A thread that is awake finds its call ready and runs it. -/
structure Runs (M : Monitor σ κ ρ γ) (s s' : System σ κ ρ γ) (t : ℕ) (call : κ) : Prop where
  awake : s.threads[t]? = some (.awake call)
  ready : M.ready call s.state = true
  state : s'.state = (M.body call s.state).2
  threads : s'.threads = s.threads.set t (.notifying (M.notices call (M.body call s.state).1))
  history : s'.history = s.history ++ [⟨t, call, (M.body call s.state).1⟩]

theorem step_cases (s : System σ κ ρ γ) (move : Move κ) :
    ((M.step s move).state = s.state ∧ (M.step s move).history = s.history) ∨
    ∃ t call, M.Runs s (M.step s move) t call := by
  cases move with
  | call t call =>
    simp only [step]
    split
    · exact Or.inl ⟨rfl, rfl⟩
    · exact Or.inl ⟨rfl, rfl⟩
  | wake t => exact Or.inl ⟨rfl, rfl⟩
  | proceed t next =>
    simp only [step]
    split
    · rename_i call hawake
      unfold enter
      split
      · rename_i hready
        exact Or.inr ⟨t, call, hawake, hready, rfl, rfl, rfl⟩
      · exact Or.inl ⟨rfl, rfl⟩
    · exact Or.inl ⟨rfl, rfl⟩
    · exact Or.inl ⟨rfl, rfl⟩
    · exact Or.inl ⟨rfl, rfl⟩

theorem call_history (M : Monitor σ κ ρ γ) (s : System σ κ ρ γ) (t : ℕ) (call : κ) :
    (M.step s (.call t call)).history = s.history := by
  simp only [step]
  split
  · rfl
  · rfl

/-- The call that thread `t` is in. -/
def inCall (s : System σ κ ρ γ) (t : ℕ) : Option κ := s.threads[t]?.bind Thread.inCall

omit [DecidableEq γ] in
theorem inCall_set {threads : List (Thread κ γ)} {t u : ℕ} {new : Thread κ γ} {call : κ}
    (h : (threads.set t new)[u]?.bind Thread.inCall = some call) :
    threads[u]?.bind Thread.inCall = some call ∨ u = t ∧ new.inCall = some call := by
  by_cases hu : t = u
  · subst hu
    rw [List.getElem?_set_self'] at h
    cases hold : threads[t]? with
    | none =>
      rw [hold] at h
      cases h
    | some old =>
      rw [hold] at h
      exact Or.inr ⟨rfl, h⟩
  · rw [List.getElem?_set_ne hu] at h
    exact Or.inl h

omit [DecidableEq γ] in
theorem inCall_modify (threads : List (Thread κ γ)) (t u : ℕ) :
    (threads.modify t Thread.wake)[u]?.bind Thread.inCall = threads[u]?.bind Thread.inCall := by
  rw [List.getElem?_modify]
  cases threads[u]? with
  | none => rfl
  | some thread =>
    simp only [Option.map_eq_map, Option.map_some, Option.bind_some]
    split
    · exact Thread.inCall_wake thread
    · rfl

theorem inCall_notify (c : γ) (notice : Notice) (next : ℕ) (threads : List (Thread κ γ)) (u : ℕ) :
    (M.notify c notice next threads)[u]?.bind Thread.inCall = threads[u]?.bind Thread.inCall := by
  cases notice with
  | one =>
    simp only [notify]
    split
    · exact inCall_modify threads _ u
    · rfl
  | all =>
    simp only [notify]
    rw [List.getElem?_map]
    cases threads[u]? with
    | none => rfl
    | some thread =>
      simp only [Option.map_some, Option.bind_some]
      split
      · exact Thread.inCall_wake thread
      · rfl

theorem step_inCall {s : System σ κ ρ γ} {move : Move κ} {u : ℕ} {call : κ}
    (h : inCall (M.step s move) u = some call) :
    inCall s u = some call ∨ move = .call u call ∧ s.threads[u]? = some .outside := by
  cases move with
  | call t k =>
    simp only [step] at h
    split at h
    · rename_i ht
      rcases inCall_set h with hold | ⟨rfl, hnew⟩
      · exact Or.inl hold
      · rw [Option.some.inj hnew]
        exact Or.inr ⟨rfl, ht⟩
    · exact Or.inl h
  | wake t =>
    have hsame : inCall (M.step s (.wake t)) u = inCall s u := inCall_modify s.threads t u
    rw [← hsame]
    exact Or.inl h
  | proceed t next =>
    simp only [step] at h
    split at h
    · rename_i k hawake
      unfold enter at h
      split at h
      · rcases inCall_set h with hold | ⟨rfl, hnew⟩
        · exact Or.inl hold
        · cases hnew
      · rcases inCall_set h with hold | ⟨rfl, hnew⟩
        · exact Or.inl hold
        · have hin : inCall s u = some k := by
            unfold inCall
            rw [hawake]
            rfl
          rw [← Option.some.inj hnew]
          exact Or.inl hin
    · rcases inCall_set h with hold | ⟨rfl, hnew⟩
      · exact Or.inl hold
      · cases hnew
    · rcases inCall_set h with hold | ⟨rfl, hnew⟩
      · rw [inCall_notify] at hold
        exact Or.inl hold
      · cases hnew
    · exact Or.inl h

omit [DecidableEq γ] in
/-- Behind its call a thread is in no call, and the others are where they were. -/
theorem Runs.others {s s' : System σ κ ρ γ} {t u : ℕ} {call k : κ} (h : M.Runs s s' t call)
    (hu : inCall s' u = some k) : u ≠ t ∧ inCall s u = some k := by
  unfold inCall at hu
  rw [h.threads] at hu
  by_cases hsame : t = u
  · subst hsame
    rw [List.getElem?_set_self', h.awake] at hu
    cases hu
  · rw [List.getElem?_set_ne hsame] at hu
    exact ⟨fun heq => hsame heq.symm, hu⟩

/-- What the threads do from here on is a sequential run from the state there is. -/
theorem run_resumes (s : System σ κ ρ γ) (moves : List (Move κ)) :
    ∃ later, (M.run s moves).history = s.history ++ later ∧
      M.Sequential s.state later (M.run s moves).state := by
  induction moves generalizing s with
  | nil => exact ⟨[], (List.append_nil _).symm, .nil⟩
  | cons move moves ih =>
    obtain ⟨later, hhistory, hsequential⟩ := ih (M.step s move)
    rcases M.step_cases s move with ⟨hstate, hsame⟩ | ⟨t, call, hruns⟩
    · refine ⟨later, ?_, ?_⟩
      · rw [← hsame]
        exact hhistory
      · rw [← hstate]
        exact hsequential
    · refine ⟨[⟨t, call, (M.body call s.state).1⟩] ++ later, ?_, ?_⟩
      · rw [← List.append_assoc, ← hruns.history]
        exact hhistory
      · rw [hruns.state] at hsequential
        have hone : M.Sequential s.state ([] ++ [⟨t, call, (M.body call s.state).1⟩]) _ :=
          Sequential.nil.snoc t call hruns.ready
        exact hone.append hsequential

theorem run_sequential (state : σ) (threads : ℕ) (moves : List (Move κ)) :
    M.Sequential state (M.run (start state threads) moves).history
      (M.run (start state threads) moves).state := by
  obtain ⟨later, hhistory, hsequential⟩ := M.run_resumes (start state threads) moves
  rw [hhistory]
  exact hsequential

end Monitor
end Concurrent
