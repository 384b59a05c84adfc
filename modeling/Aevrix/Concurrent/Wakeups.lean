import Mathlib.Algebra.Order.Ring.Nat
import Mathlib.Tactic.Common
import Aevrix.Concurrent.Monitor

/-!
# No sleeper is forgotten

A condition of a monitor has slots, the number of calls that could run on it one after the
other. When a call that makes a slot notifies one sleeper, and a call that opens the gate (after
which no call waits) notifies all, then for each condition nobody sleeps, or the threads that are
awake and the notices still to come are as many as the slots (`awaited_run`). So while a call
that could run sleeps, some thread is on its way (`someone_moves`).
-/

namespace Concurrent.Monitor
variable {σ κ ρ γ : Type*} [DecidableEq γ]

/-- `slots` counts the calls that can run, `opened` says that none waits any more. -/
structure Signalled (M : Monitor σ κ ρ γ) (slots : γ → σ → ℕ) (opened : σ → Bool) : Prop where
  waits : ∀ {k : κ} {s : σ}, M.ready k s = false →
    slots (M.condition k) s = 0 ∧ opened s = false
  stays : ∀ {k : κ} {s : σ}, opened s = true → opened (M.body k s).2 = true
  gives : ∀ {k : κ} {s : σ} (c : γ), M.ready k s = true → opened (M.body k s).2 = false →
    slots c (M.body k s).2 + (if M.condition k = c then 1 else 0) ≤
      slots c s + (M.notices k (M.body k s).1).count (c, .one)
  opens : ∀ {k : κ} {s : σ} (c : γ), M.ready k s = true → opened s = false →
    opened (M.body k s).2 = true → 0 < (M.notices k (M.body k s).1).count (c, .all)

/-! ### Counting threads -/

/-- The sum of `f` over the threads. -/
def total (f : Thread κ γ → ℕ) (threads : List (Thread κ γ)) : ℕ := (threads.map f).sum

section counts
variable (M : Monitor σ κ ρ γ) (c : γ)

def sleepers : Thread κ γ → ℕ
  | .asleep k => if M.condition k = c then 1 else 0
  | _ => 0

def wakers : Thread κ γ → ℕ
  | .awake k => if M.condition k = c then 1 else 0
  | _ => 0

/-- The notices of a kind that a thread has still to give. -/
def owed (notice : Notice) : Thread κ γ → ℕ
  | .notifying notices => notices.count (c, notice)
  | _ => 0

end counts

variable {M : Monitor σ κ ρ γ} {c : γ} {threads : List (Thread κ γ)} {t : ℕ}

omit [DecidableEq γ] in
theorem total_set (f : Thread κ γ → ℕ) {old : Thread κ γ} (h : threads[t]? = some old)
    (new : Thread κ γ) : total f (threads.set t new) + f old = total f threads + f new := by
  induction threads generalizing t with
  | nil => cases h
  | cons thread threads ih =>
    cases t with
    | zero =>
      have hold : thread = old := Option.some.inj h
      subst hold
      simp only [total, List.set_cons_zero, List.map_cons, List.sum_cons]
      omega
    | succ t =>
      have hrest := ih (t := t) h
      simp only [total, List.set_cons_succ, List.map_cons, List.sum_cons] at hrest ⊢
      omega

omit [DecidableEq γ] in
theorem modify_eq_set {threads : List (Thread κ γ)} {old : Thread κ γ} (h : threads[t]? = some old)
    (f : Thread κ γ → Thread κ γ) : threads.modify t f = threads.set t (f old) := by
  induction threads generalizing t with
  | nil => cases h
  | cons thread threads ih =>
    cases t with
    | zero =>
      have hold : thread = old := Option.some.inj h
      subst hold
      rfl
    | succ t =>
      have hrest := ih (t := t) h
      simp only [List.modify_succ_cons, List.set_cons_succ, hrest]

theorem wake_counts (thread : Thread κ γ) :
    sleepers M c thread.wake + wakers M c thread.wake = sleepers M c thread + wakers M c thread ∧
    sleepers M c thread.wake = 0 ∧
    ∀ notice, owed c notice thread.wake = owed c notice thread := by
  cases thread with
  | outside => exact ⟨rfl, rfl, fun _ => rfl⟩
  | awake k => exact ⟨rfl, rfl, fun _ => rfl⟩
  | asleep k => exact ⟨by simp [sleepers, wakers, Thread.wake], rfl, fun _ => rfl⟩
  | notifying notices => exact ⟨rfl, rfl, fun _ => rfl⟩

theorem total_modify_wake (M : Monitor σ κ ρ γ) (c : γ) (threads : List (Thread κ γ)) (t : ℕ) :
    let threads' := threads.modify t Thread.wake
    total (sleepers M c) threads' ≤ total (sleepers M c) threads ∧
    total (sleepers M c) threads' + total (wakers M c) threads' =
      total (sleepers M c) threads + total (wakers M c) threads ∧
    ∀ notice, total (owed c notice) threads' = total (owed c notice) threads := by
  intro threads'
  cases hold : threads[t]? with
  | none =>
    have hsame : threads' = threads := List.modify_eq_self (List.getElem?_eq_none_iff.mp hold)
    rw [hsame]
    exact ⟨Nat.le_refl _, rfl, fun _ => rfl⟩
  | some old =>
    obtain ⟨hboth, hasleep, howed⟩ := wake_counts (M := M) (c := c) old
    have hset : threads' = threads.set t old.wake := modify_eq_set hold _
    have hs := total_set (sleepers M c) hold old.wake
    have hw := total_set (wakers M c) hold old.wake
    rw [hset]
    refine ⟨by omega, by omega, fun notice => ?_⟩
    have ho := total_set (owed c notice) hold old.wake
    rw [howed notice] at ho
    exact Nat.add_right_cancel ho

/-- The chosen thread sleeps on the condition, and if none is chosen nobody does. -/
theorem chosen_spec (M : Monitor σ κ ρ γ) (c₀ : γ) (next : ℕ) (threads : List (Thread κ γ)) :
    match M.chosen c₀ next threads with
    | some u => ∃ k, threads[u]? = some (.asleep k) ∧ M.condition k = c₀
    | none => total (sleepers M c₀) threads = 0 := by
  have hasleep : ∀ {thread : Thread κ γ}, thread.sleepsOn M.condition c₀ = true →
      ∃ k, thread = .asleep k ∧ M.condition k = c₀ := by
    intro thread hthread
    cases thread with
    | asleep k => exact ⟨k, rfl, of_decide_eq_true hthread⟩
    | outside => cases hthread
    | awake k => cases hthread
    | notifying notices => cases hthread
  unfold chosen
  split
  · rename_i u hchosen
    split at hchosen
    · rename_i hnext
      rw [← Option.some.inj hchosen]
      cases hthread : threads[next]? with
      | none =>
        rw [hthread] at hnext
        cases hnext
      | some thread =>
        rw [hthread] at hnext
        obtain ⟨k, rfl, hk⟩ := hasleep hnext
        exact ⟨k, rfl, hk⟩
    · obtain ⟨hu, hsleeps, -⟩ := List.findIdx?_eq_some_iff_getElem.mp hchosen
      obtain ⟨k, hthread, hk⟩ := hasleep hsleeps
      exact ⟨k, by rw [List.getElem?_eq_getElem hu, hthread], hk⟩
  · rename_i hchosen
    split at hchosen
    · cases hchosen
    · rw [List.findIdx?_eq_none_iff] at hchosen
      unfold total
      rw [List.sum_eq_zero_iff_forall_eq_nat]
      intro n hn
      obtain ⟨thread, hthread, rfl⟩ := List.mem_map.mp hn
      have hsleeps := hchosen thread hthread
      cases thread with
      | asleep k =>
        have hk : M.condition k ≠ c₀ := of_decide_eq_false hsleeps
        exact if_neg hk
      | outside => rfl
      | awake k => rfl
      | notifying notices => rfl

theorem notify_one (M : Monitor σ κ ρ γ) (c₀ : γ) (next : ℕ) (threads : List (Thread κ γ)) (c : γ) :
    let threads' := M.notify c₀ .one next threads
    total (sleepers M c) threads' ≤ total (sleepers M c) threads ∧
    total (sleepers M c) threads' + total (wakers M c) threads' =
      total (sleepers M c) threads + total (wakers M c) threads ∧
    (∀ notice, total (owed c notice) threads' = total (owed c notice) threads) ∧
    (c = c₀ → total (sleepers M c) threads' = 0 ∨
      total (sleepers M c) threads' + 1 = total (sleepers M c) threads) := by
  intro threads'
  have hspec := chosen_spec M c₀ next threads
  cases hchosen : M.chosen c₀ next threads with
  | none =>
    rw [hchosen] at hspec
    have hsame : threads' = threads := by
      show M.notify c₀ .one next threads = threads
      simp only [notify, hchosen]
    rw [hsame]
    refine ⟨Nat.le_refl _, rfl, fun _ => rfl, ?_⟩
    rintro rfl
    exact Or.inl hspec
  | some u =>
    rw [hchosen] at hspec
    obtain ⟨k, hk, hcondition⟩ := hspec
    have hmodify : threads' = threads.modify u Thread.wake := by
      show M.notify c₀ .one next threads = _
      simp only [notify, hchosen]
    obtain ⟨hless, hboth, howed⟩ := total_modify_wake M c threads u
    rw [hmodify]
    refine ⟨hless, hboth, howed, ?_⟩
    rintro rfl
    have hs := total_set (sleepers M c) hk (.awake k)
    have hset : threads.modify u Thread.wake = threads.set u (.awake k) := modify_eq_set hk _
    have hone : sleepers M c (.asleep k) = 1 := if_pos hcondition
    have hzero : sleepers M c (.awake k : Thread κ γ) = 0 := rfl
    rw [hset]
    right
    omega

theorem notify_all (M : Monitor σ κ ρ γ) (c₀ : γ) (next : ℕ) (threads : List (Thread κ γ)) (c : γ) :
    let threads' := M.notify c₀ .all next threads
    total (sleepers M c) threads' ≤ total (sleepers M c) threads ∧
    total (sleepers M c) threads' + total (wakers M c) threads' =
      total (sleepers M c) threads + total (wakers M c) threads ∧
    (∀ notice, total (owed c notice) threads' = total (owed c notice) threads) ∧
    (c = c₀ → total (sleepers M c) threads' = 0) := by
  intro threads'
  have hthreads : threads' = threads.map fun thread =>
      if thread.sleepsOn M.condition c₀ then thread.wake else thread := rfl
  clear_value threads'
  subst hthreads
  induction threads with
  | nil => exact ⟨Nat.le_refl _, rfl, fun _ => rfl, fun _ => rfl⟩
  | cons thread threads ih =>
    obtain ⟨hless, hboth, howed, hnone⟩ := ih
    obtain ⟨hwakes, hasleep, hsame⟩ := wake_counts (M := M) (c := c) thread
    have hzero : c = c₀ → thread.sleepsOn M.condition c₀ = false → sleepers M c thread = 0 := by
      rintro rfl hsleeps
      cases thread with
      | asleep k => exact if_neg (of_decide_eq_false hsleeps)
      | outside => rfl
      | awake k => rfl
      | notifying notices => rfl
    simp only [total, List.map_cons, List.sum_cons] at hless hboth howed hnone ⊢
    split
    · refine ⟨by omega, by omega, fun notice => ?_, fun hc => ?_⟩
      · rw [hsame notice, howed notice]
      · rw [hasleep, hnone hc]
    · rename_i hsleeps
      refine ⟨by omega, by omega, fun notice => ?_, fun hc => ?_⟩
      · rw [howed notice]
      · rw [hzero hc ((Bool.not_eq_true _).mp hsleeps), hnone hc]

theorem notify_getElem (c₀ : γ) (notice : Notice) (next : ℕ) {notices : List (γ × Notice)}
    (h : threads[t]? = some (.notifying notices)) :
    (M.notify c₀ notice next threads)[t]? = some (.notifying notices) := by
  cases notice with
  | one =>
    simp only [notify]
    split
    · rw [List.getElem?_modify, h]
      simp [Thread.wake]
    · exact h
  | all =>
    simp only [notify]
    rw [List.getElem?_map, h]
    rfl

/-! ### The invariant -/

/-- Nobody sleeps on the condition, or enough threads are on their way. -/
structure Awaited (M : Monitor σ κ ρ γ) (slots : γ → σ → ℕ) (opened : σ → Bool) (c : γ)
    (s : System σ κ ρ γ) : Prop where
  counted : opened s.state = false → total (sleepers M c) s.threads = 0 ∨
    slots c s.state ≤ total (wakers M c) s.threads + total (owed c .one) s.threads
  released : opened s.state = true → total (sleepers M c) s.threads = 0 ∨
    0 < total (owed c .all) s.threads

section invariant
variable {slots : γ → σ → ℕ} {opened : σ → Bool} {s : System σ κ ρ γ}

theorem Awaited.of_threads (h : Awaited M slots opened c s) {threads : List (Thread κ γ)}
    (hthreads : total (sleepers M c) threads = 0 ∨
      total (sleepers M c) threads ≤ total (sleepers M c) s.threads ∧
      total (wakers M c) s.threads + total (owed c .one) s.threads ≤
        total (wakers M c) threads + total (owed c .one) threads ∧
      total (owed c .all) s.threads ≤ total (owed c .all) threads) :
    Awaited M slots opened c { s with threads } := by
  refine ⟨fun hopened => ?_, fun hopened => ?_⟩
  · have hcounted := h.counted hopened
    show total (sleepers M c) threads = 0 ∨
      slots c s.state ≤ total (wakers M c) threads + total (owed c .one) threads
    omega
  · have hreleased := h.released hopened
    show total (sleepers M c) threads = 0 ∨ 0 < total (owed c .all) threads
    omega

theorem Awaited.enter (hM : Signalled M slots opened) (h : Awaited M slots opened c s) {k : κ}
    (ht : s.threads[t]? = some (.awake k)) : Awaited M slots opened c (M.enter s t k) := by
  have hs := fun new => total_set (sleepers M c) ht new
  have hw := fun new => total_set (wakers M c) ht new
  have ho := fun new => total_set (owed c .one) ht new
  have ha := fun new => total_set (owed c .all) ht new
  unfold Monitor.enter
  cases hready : M.ready k s.state with
  | false =>
    obtain ⟨hslots, hclosed⟩ := hM.waits hready
    rw [if_neg Bool.false_ne_true]
    by_cases hc : M.condition k = c
    · subst hc
      refine ⟨fun _ => Or.inr (Nat.le_trans (Nat.le_of_eq hslots) (Nat.zero_le _)), fun hopened => ?_⟩
      exact absurd (hclosed.symm.trans hopened) Bool.false_ne_true
    · have hs := hs (.asleep k)
      have hw := hw (.asleep k)
      have ho := ho (.asleep k)
      have ha := ha (.asleep k)
      simp only [sleepers, wakers, owed, if_neg hc] at hs hw ho ha
      exact h.of_threads (by omega)
  | true =>
    rw [if_pos rfl]
    generalize hnotices : M.notices k (M.body k s.state).1 = notices
    have hs := hs (.notifying notices)
    have hw := hw (.notifying notices)
    have ho := ho (.notifying notices)
    have ha := ha (.notifying notices)
    simp only [sleepers, wakers, owed] at hs hw ho ha
    refine ⟨fun hopened => ?_, fun hopened => ?_⟩
    · have hopened : opened (M.body k s.state).2 = false := hopened
      have hbefore : opened s.state = false := by
        cases hstate : opened s.state with
        | false => rfl
        | true => exact absurd ((hM.stays hstate).symm.trans hopened) Bool.false_ne_true.symm
      have hgives := hM.gives c hready hopened
      have hcounted := h.counted hbefore
      rw [hnotices] at hgives
      show total (sleepers M c) (s.threads.set t _) = 0 ∨ slots c (M.body k s.state).2 ≤ _
      dsimp only
      rw [hnotices]
      omega
    · have hopened : opened (M.body k s.state).2 = true := hopened
      show total (sleepers M c) (s.threads.set t _) = 0 ∨ 0 < _
      dsimp only
      rw [hnotices]
      cases hstate : opened s.state with
      | true =>
        have hreleased := h.released hstate
        omega
      | false =>
        have hopens := hM.opens c hready hstate hopened
        rw [hnotices] at hopens
        omega

theorem Awaited.notice (h : Awaited M slots opened c s) {c₀ : γ} {notice : Notice}
    {rest : List (γ × Notice)} (ht : s.threads[t]? = some (.notifying ((c₀, notice) :: rest)))
    (next : ℕ) : Awaited M slots opened c { s with
      threads := (M.notify c₀ notice next s.threads).set t (.notifying rest) } := by
  have ht' := notify_getElem (M := M) c₀ notice next ht
  have hs := total_set (sleepers M c) ht' (.notifying rest)
  have hw := total_set (wakers M c) ht' (.notifying rest)
  have ho := total_set (owed c .one) ht' (.notifying rest)
  have ha := total_set (owed c .all) ht' (.notifying rest)
  simp only [sleepers, wakers, owed] at hs hw ho ha
  cases notice with
  | one =>
    obtain ⟨hless, hboth, howed, hone⟩ := notify_one M c₀ next s.threads c
    have hone₁ := howed .one
    have hall := howed .all
    rw [List.count_cons_of_ne (by simp)] at ha
    apply h.of_threads
    by_cases hc : c = c₀
    · subst hc
      rw [List.count_cons_self] at ho
      have hone := hone rfl
      omega
    · rw [List.count_cons_of_ne (by simp [Ne.symm hc])] at ho
      omega
  | all =>
    obtain ⟨hless, hboth, howed, hnone⟩ := notify_all M c₀ next s.threads c
    have hone₁ := howed .one
    have hall := howed .all
    rw [List.count_cons_of_ne (by simp)] at ho
    apply h.of_threads
    by_cases hc : c = c₀
    · left
      have hnone := hnone hc
      omega
    · rw [List.count_cons_of_ne (by simp [Ne.symm hc])] at ha
      omega

theorem Awaited.set (h : Awaited M slots opened c s) {old new : Thread κ γ}
    (ht : s.threads[t]? = some old) (hs : sleepers M c old = sleepers M c new)
    (hw : wakers M c old ≤ wakers M c new)
    (ho : ∀ notice, owed c notice old = owed c notice new) :
    Awaited M slots opened c { s with threads := s.threads.set t new } := by
  have hsleepers := total_set (sleepers M c) ht new
  have hwakers := total_set (wakers M c) ht new
  have hone := total_set (owed c .one) ht new
  have hall := total_set (owed c .all) ht new
  rw [ho .one] at hone
  rw [ho .all] at hall
  exact h.of_threads (by omega)

theorem Awaited.step (hM : Signalled M slots opened) (h : Awaited M slots opened c s)
    (move : Move κ) : Awaited M slots opened c (M.step s move) := by
  cases move with
  | call t k =>
    simp only [Monitor.step]
    split
    · rename_i ht
      exact h.set ht rfl (Nat.zero_le _) fun _ => rfl
    · exact h
  | wake t =>
    obtain ⟨hless, hboth, howed⟩ := total_modify_wake M c s.threads t
    have hone := howed .one
    have hall := howed .all
    exact h.of_threads (by omega)
  | proceed t next =>
    simp only [Monitor.step]
    split
    · rename_i k ht
      exact h.enter hM ht
    · rename_i ht
      exact h.set ht rfl (Nat.le_refl _) fun _ => rfl
    · rename_i c₀ notice rest ht
      exact h.notice ht next
    · exact h

theorem awaited_run (hM : Signalled M slots opened) (state : σ) (threads : ℕ)
    (moves : List (Move κ)) (c : γ) :
    Awaited M slots opened c (M.run (start state threads) moves) := by
  have hstart : Awaited M slots opened c (start state threads : System σ κ ρ γ) := by
    have hzero : total (sleepers M c) (List.replicate threads Thread.outside) = 0 := by
      unfold total
      rw [List.sum_eq_zero_iff_forall_eq_nat]
      intro n hn
      obtain ⟨thread, hthread, rfl⟩ := List.mem_map.mp hn
      rw [List.eq_of_mem_replicate hthread]
      rfl
    exact ⟨fun _ => Or.inl hzero, fun _ => Or.inl hzero⟩
  have hrun : ∀ {s : System σ κ ρ γ}, Awaited M slots opened c s →
      Awaited M slots opened c (M.run s moves) := by
    induction moves with
    | nil => exact fun h => h
    | cons move moves ih => exact fun h => ih (h.step hM move)
  exact hrun hstart

omit [DecidableEq γ] in
theorem exists_of_total {f : Thread κ γ → ℕ} (h : 0 < total f threads) :
    ∃ thread ∈ threads, 0 < f thread := by
  by_contra hnone
  apply Nat.ne_of_gt h
  unfold total
  rw [List.sum_eq_zero_iff_forall_eq_nat]
  intro n hn
  obtain ⟨thread, hthread, rfl⟩ := List.mem_map.mp hn
  by_contra hpos
  exact hnone ⟨thread, hthread, Nat.pos_of_ne_zero hpos⟩

/-- While a call sleeps on a condition with a slot, or with its gate open, some thread is awake
or has a notice to give. -/
theorem Awaited.someone_moves {k : κ} (h : Awaited M slots opened (M.condition k) s)
    (hasleep : Thread.asleep k ∈ s.threads)
    (hcan : opened s.state = true ∨ 0 < slots (M.condition k) s.state) :
    ∃ thread ∈ s.threads, (∃ k', thread = .awake k') ∨
      ∃ notice rest, thread = .notifying (notice :: rest) := by
  have hsleepers : 0 < total (sleepers M (M.condition k)) s.threads := by
    have hmem : sleepers M (M.condition k) (.asleep k) ∈
        s.threads.map (sleepers M (M.condition k)) := List.mem_map_of_mem hasleep
    have hone : sleepers M (M.condition k) (.asleep k) = 1 := if_pos rfl
    apply Nat.pos_of_ne_zero
    intro hzero
    unfold total at hzero
    rw [List.sum_eq_zero_iff_forall_eq_nat] at hzero
    have hnone := hzero _ hmem
    omega
  have hsomeone : 0 < total (wakers M (M.condition k)) s.threads ∨
      ∃ notice, 0 < total (owed (M.condition k) notice) s.threads := by
    cases hopened : opened s.state with
    | true =>
      have hreleased := h.released hopened
      exact Or.inr ⟨.all, by omega⟩
    | false =>
      have hcounted := h.counted hopened
      have hslots := hcan.resolve_left (by rw [hopened]; exact Bool.false_ne_true)
      by_cases hone : 0 < total (owed (M.condition k) .one) s.threads
      · exact Or.inr ⟨.one, hone⟩
      · exact Or.inl (by omega)
  rcases hsomeone with hawake | ⟨notice, howed⟩
  · obtain ⟨thread, hthread, hpos⟩ := exists_of_total hawake
    cases thread with
    | awake k' => exact ⟨_, hthread, Or.inl ⟨k', rfl⟩⟩
    | outside => cases hpos
    | asleep k' => cases hpos
    | notifying notices => cases hpos
  · obtain ⟨thread, hthread, hpos⟩ := exists_of_total howed
    cases thread with
    | notifying notices =>
      cases notices with
      | nil => cases hpos
      | cons notice rest => exact ⟨_, hthread, Or.inr ⟨notice, rest, rfl⟩⟩
    | outside => cases hpos
    | awake k' => cases hpos
    | asleep k' => cases hpos

end invariant
end Concurrent.Monitor
