import Aevrix.Concurrent.Wakeups

/-!
# What the threads of a monitor still have to do

Every thread has an effort: what its call costs, and for each notice it has to give one move and
what it may wake. A move of a thread that is on its way takes from the sum, and what a body leaves
to the others is paid by the call that ran it (`proceed_effort`).
-/

namespace Concurrent

/-- A thread is awake or has something to notify. -/
def Thread.OnItsWay {κ γ : Type*} : Thread κ γ → Prop
  | .awake _ | .notifying _ => True
  | .outside | .asleep _ => False

namespace Monitor
variable {σ κ ρ γ : Type*}

/-- The effort of a thread among `n`, where `cost` is what a call has still to pay for. -/
def effort (n : ℕ) (cost : κ → ℕ) : Thread κ γ → ℕ
  | .outside => 0
  | .asleep k => cost k
  | .awake k => cost k + 1
  | .notifying notices => notices.length * (n + 1) + 1

theorem effort_wake (n : ℕ) (cost : κ → ℕ) (thread : Thread κ γ) :
    effort n cost thread.wake ≤ effort n cost thread + 1 := by
  cases thread with
  | asleep k => exact Nat.le_refl _
  | outside => exact Nat.le_succ _
  | awake k => exact Nat.le_succ _
  | notifying notices => exact Nat.le_succ _

variable [DecidableEq γ] {M : Monitor σ κ ρ γ} {s : System σ κ ρ γ} {t : ℕ}

theorem notify_length (c : γ) (notice : Notice) (next : ℕ) (threads : List (Thread κ γ)) :
    (M.notify c notice next threads).length = threads.length := by
  cases notice with
  | one =>
    simp only [notify]
    split
    · exact List.length_modify ..
    · rfl
  | all => exact List.length_map _

theorem step_length (s : System σ κ ρ γ) (move : Move κ) :
    (M.step s move).threads.length = s.threads.length := by
  cases move with
  | call t k =>
    simp only [step]
    split
    · exact List.length_set
    · rfl
  | wake t => exact List.length_modify ..
  | proceed t next =>
    simp only [step]
    split
    · unfold enter
      split
      · exact List.length_set
      · exact List.length_set
    · exact List.length_set
    · exact List.length_set.trans (notify_length _ _ _ _)
    · rfl

theorem run_length (s : System σ κ ρ γ) (moves : List (Move κ)) :
    (M.run s moves).threads.length = s.threads.length := by
  induction moves generalizing s with
  | nil => rfl
  | cons move moves ih => exact (ih (M.step s move)).trans (step_length s move)

/-- A notice wakes no more threads than there are. -/
theorem notify_effort (n : ℕ) (cost : κ → ℕ) (c : γ) (notice : Notice) (next : ℕ) (threads : List (Thread κ γ)) :
    total (effort n cost) (M.notify c notice next threads) ≤
      total (effort n cost) threads + threads.length := by
  cases notice with
  | one =>
    simp only [notify]
    cases hchosen : M.chosen c next threads with
    | none => exact Nat.le_add_right _ _
    | some u =>
      simp only
      cases hold : threads[u]? with
      | none =>
        rw [List.modify_eq_self (List.getElem?_eq_none_iff.mp hold)]
        exact Nat.le_add_right _ _
      | some old =>
        have hset := total_set (effort n cost) hold old.wake
        have hwake := effort_wake n cost old
        have hlength := List.length_pos_of_mem (List.mem_of_getElem? hold)
        rw [modify_eq_set hold]
        omega
  | all =>
    simp only [notify]
    induction threads with
    | nil => exact Nat.le_refl _
    | cons thread threads ih =>
      have hwake := effort_wake n cost thread
      simp only [total, List.map_cons, List.sum_cons, List.length_cons] at ih ⊢
      split
      · omega
      · omega

omit [DecidableEq γ] in
theorem inCall_set_same {threads : List (Thread κ γ)} {old : Thread κ γ}
    (hold : threads[t]? = some old) (new : Thread κ γ) (hsame : new.inCall = old.inCall) (u : ℕ) :
    (threads.set t new)[u]?.bind Thread.inCall = threads[u]?.bind Thread.inCall := by
  by_cases hu : t = u
  · subst hu
    rw [List.getElem?_set_self', hold]
    exact hsame
  · rw [List.getElem?_set_ne hu]

/-- What a move of a thread on its way does to the effort: it runs its call, or it lowers it. -/
theorem proceed_effort {n : ℕ} (cost : κ → ℕ) {thread : Thread κ γ} (hn : s.threads.length ≤ n)
    (hthread : s.threads[t]? = some thread) (hway : thread.OnItsWay) (next : ℕ) :
    let s' := M.step s (.proceed t next)
    (∃ k, M.Runs s s' t k ∧ total (effort n cost) s'.threads + cost k =
      total (effort n cost) s.threads + (M.notices k (M.body k s.state).1).length * (n + 1)) ∨
    s'.state = s.state ∧ s'.history = s.history ∧ (∀ u, inCall s' u = inCall s u) ∧
      total (effort n cost) s'.threads < total (effort n cost) s.threads := by
  intro s'
  cases thread with
  | outside => cases hway
  | asleep k => cases hway
  | awake k =>
    have hs' : s' = M.enter s t k := by
      show M.step s (.proceed t next) = _
      simp only [step, hthread]
    cases hready : M.ready k s.state with
    | true =>
      have hruns : M.enter s t k = ⟨(M.body k s.state).2,
          s.threads.set t (.notifying (M.notices k (M.body k s.state).1)),
          s.history ++ [⟨t, k, (M.body k s.state).1⟩]⟩ := by
        rw [enter, hready, if_pos rfl]
      rw [hs', hruns]
      have hset := total_set (effort n cost) hthread
        (.notifying (M.notices k (M.body k s.state).1))
      simp only [effort] at hset
      refine Or.inl ⟨k, ⟨hthread, hready, rfl, rfl, rfl⟩, ?_⟩
      show total _ (s.threads.set t _) + _ = _
      omega
    | false =>
      have hsleeps : M.enter s t k = ⟨s.state, s.threads.set t (.asleep k), s.history⟩ := by
        rw [enter, hready, if_neg Bool.false_ne_true]
      have hset := total_set (effort n cost) hthread (.asleep k)
      simp only [effort] at hset
      rw [hs', hsleeps]
      refine Or.inr ⟨rfl, rfl, inCall_set_same hthread (.asleep k) rfl, ?_⟩
      show total _ (s.threads.set t _) < _
      omega
  | notifying notices =>
    right
    cases notices with
    | nil =>
      have hs' : s' = ⟨s.state, s.threads.set t .outside, s.history⟩ := by
        show M.step s (.proceed t next) = _
        simp only [step, hthread]
      have hset := total_set (effort n cost) hthread (.outside : Thread κ γ)
      simp only [effort, List.length_nil] at hset
      rw [hs']
      refine ⟨rfl, rfl, inCall_set_same hthread .outside rfl, ?_⟩
      show total _ (s.threads.set t _) < _
      omega
    | cons notice rest =>
      obtain ⟨c, notice⟩ := notice
      have hs' : s' = ⟨s.state, (M.notify c notice next s.threads).set t (.notifying rest),
          s.history⟩ := by
        show M.step s (.proceed t next) = _
        simp only [step, hthread]
      have hkept : (M.notify c notice next s.threads)[t]? =
          some (.notifying ((c, notice) :: rest)) := notify_getElem c notice next hthread
      have hset := total_set (effort n cost) hkept (.notifying rest)
      have hwoken := notify_effort (M := M) n cost c notice next s.threads
      simp only [effort, List.length_cons, Nat.add_mul, Nat.one_mul] at hset
      rw [hs']
      refine ⟨rfl, rfl, fun u => ?_, ?_⟩
      · exact (inCall_set_same hkept (.notifying rest) rfl u).trans
          (inCall_notify c notice next s.threads u)
      · show total _ ((M.notify c notice next s.threads).set t _) < _
        omega

end Monitor
end Concurrent
