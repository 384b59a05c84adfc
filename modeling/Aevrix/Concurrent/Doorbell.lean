import Mathlib.Data.List.Basic
import Mathlib.Tactic.Common

/-!
# A queue with a bell

Producers put a value into a queue and ring a bell behind it. One consumer waits for the bell,
silences it and then takes values until there is none. The moves of the producers and of the
consumer come in any order.

Since the bell is silenced before the queue is emptied and rung behind the put, a value that is
left in the queue is always announced (`announced_run`); and when nobody is passed over for ever,
each value is taken (`taken_of_put`).
-/

namespace Concurrent

/-- A queue with a bell, and what its operations do to the values and to the bell. -/
structure Doorbell (σ α : Type*) where
  put : α → σ → σ
  ring : σ → σ
  silence : σ → σ
  take : σ → Option α × σ
  held : σ → List α
  ringing : σ → Bool
  held_put : ∀ value s, held (put value s) = held s ++ [value]
  ringing_put : ∀ value s, ringing (put value s) = ringing s
  held_ring : ∀ s, held (ring s) = held s
  ringing_ring : ∀ s, ringing (ring s) = true
  held_silence : ∀ s, held (silence s) = held s
  held_take : ∀ s, (take s).1.toList ++ held (take s).2 = held s
  take_none : ∀ s, (take s).1 = none → held s = []

namespace Doorbell
variable {σ α : Type*}

/-- A producer is in between when it has put a value and has not rung yet. -/
inductive Producer where
  | idle | between
  deriving DecidableEq, Repr

inductive Consumer where
  | waiting | woken | taking
  deriving DecidableEq, Repr

structure System (σ α : Type*) where
  state : σ
  producers : List Producer
  consumer : Consumer
  /-- The values that were put, and those that were taken, in their order. -/
  put : List α
  taken : List α

inductive Move (α : Type*) where
  | put (producer : ℕ) (value : α)
  | ring (producer : ℕ)
  | consume

variable (D : Doorbell σ α)

/-- The next move of the consumer. -/
def consume (s : System σ α) : System σ α := match s.consumer with
  | .waiting => if D.ringing s.state then { s with consumer := .woken } else s
  | .woken => { s with
    state := D.silence s.state
    consumer := .taking }
  | .taking => match D.take s.state with
    | (none, state) => { s with
      state
      consumer := .waiting }
    | (some value, state) => { s with
      state
      taken := s.taken ++ [value] }

/-- One move; a move that is not possible changes nothing. -/
def step (s : System σ α) : Move α → System σ α
  | .put t value => match s.producers[t]? with
    | some .idle => { s with
      state := D.put value s.state
      producers := s.producers.set t .between
      put := s.put ++ [value] }
    | _ => s
  | .ring t => match s.producers[t]? with
    | some .between => { s with
      state := D.ring s.state
      producers := s.producers.set t .idle }
    | _ => s
  | .consume => D.consume s

def run (s : System σ α) (moves : List (Move α)) : System σ α := moves.foldl D.step s

def start (state : σ) (producers : ℕ) : System σ α where
  state := state
  producers := List.replicate producers .idle
  consumer := .waiting
  put := []
  taken := []

theorem run_concat (s : System σ α) (moves : List (Move α)) (move : Move α) :
    D.run s (moves ++ [move]) = D.step (D.run s moves) move := by
  rw [run, List.foldl_append]
  rfl

/-! ### What is left is announced -/

/-- What has been put is taken or still there, in its order; and outside the emptying, what is
still there is announced by the bell or by a producer that is about to ring. -/
structure Announced (s : System σ α) : Prop where
  order : s.taken ++ D.held s.state = s.put
  announced : s.consumer ≠ .taking → D.held s.state ≠ [] →
    D.ringing s.state = true ∨ Producer.between ∈ s.producers

variable {D} {s : System σ α}

theorem Announced.put (h : D.Announced s) (t : ℕ) (value : α) :
    D.Announced (D.step s (.put t value)) := by
  simp only [step]
  split
  · rename_i ht
    constructor
    · rw [D.held_put, ← List.append_assoc, h.order]
    · intro _ _
      have hlt := (List.getElem?_eq_some_iff.mp ht).1
      exact Or.inr (List.mem_set hlt _)
  · exact h

theorem Announced.ring (h : D.Announced s) (t : ℕ) : D.Announced (D.step s (.ring t)) := by
  simp only [step]
  split
  · constructor
    · rw [D.held_ring]
      exact h.order
    · intro _ _
      exact Or.inl (D.ringing_ring _)
  · exact h

/-- The queue is left alone once it is empty, and it is emptied behind the silence. -/
theorem Announced.consume (h : D.Announced s) : D.Announced (D.consume s) := by
  unfold Doorbell.consume
  cases hconsumer : s.consumer with
  | waiting =>
    dsimp only
    split
    · exact ⟨h.order, fun _ => h.announced (by rw [hconsumer]; decide)⟩
    · exact h
  | woken =>
    refine ⟨?_, fun htaking => absurd rfl htaking⟩
    rw [D.held_silence]
    exact h.order
  | taking =>
    have hheld := D.held_take s.state
    have hnone := D.take_none s.state
    rcases htake : D.take s.state with ⟨value, state⟩
    rw [htake] at hheld hnone
    cases value with
    | none =>
      have hempty : D.held state = [] := by
        rw [hnone rfl] at hheld
        exact hheld
      refine ⟨?_, fun _ hleft => absurd hempty hleft⟩
      rw [hempty, ← hnone rfl]
      exact h.order
    | some value =>
      refine ⟨?_, fun htaking => absurd rfl htaking⟩
      rw [List.append_assoc, show [value] ++ D.held state = D.held s.state from hheld]
      exact h.order

theorem Announced.step (h : D.Announced s) (move : Move α) : D.Announced (D.step s move) := by
  cases move with
  | put t value => exact h.put t value
  | ring t => exact h.ring t
  | consume => exact h.consume

theorem announced_start {state : σ} (hempty : D.held state = []) (producers : ℕ) :
    D.Announced (start state producers) :=
  ⟨hempty, fun _ hleft => absurd hempty hleft⟩

theorem announced_run {state : σ} (hempty : D.held state = []) (producers : ℕ)
    (moves : List (Move α)) : D.Announced (D.run (start state producers) moves) := by
  have hrun : ∀ s, D.Announced s → D.Announced (D.run s moves) := by
    induction moves with
    | nil => exact fun s h => h
    | cons move moves ih => exact fun s h => ih (D.step s move) (h.step move)
  exact hrun _ (announced_start hempty producers)

/-! ### Every value is taken -/

/-- The system along an endless schedule. -/
def trace (D : Doorbell σ α) (s : System σ α) (schedule : ℕ → Move α) : ℕ → System σ α
  | 0 => s
  | n + 1 => D.step (D.trace s schedule n) (schedule n)

theorem trace_eq_run (s : System σ α) (schedule : ℕ → Move α) (n : ℕ) :
    D.trace s schedule n = D.run s ((List.range n).map schedule) := by
  induction n with
  | zero => rfl
  | succ n ih =>
    rw [List.range_succ, List.map_append, run, List.foldl_append]
    exact congrArg (fun s => D.step s (schedule n)) ih

/-- The consumer and each of the producers have their turn again and again. -/
structure Fair (producers : ℕ) (schedule : ℕ → Move α) : Prop where
  consume : ∀ n, ∃ m, n ≤ m ∧ schedule m = .consume
  ring : ∀ t < producers, ∀ n, ∃ m, n ≤ m ∧ schedule m = .ring t

/-- What stays until an act, and becomes something else by it, does become that. -/
theorem leads_to {P Q Act : ℕ → Prop} (often : ∀ n, ∃ m, n ≤ m ∧ Act m)
    (stay : ∀ n, P n → P (n + 1) ∨ Q (n + 1)) (act : ∀ n, P n → Act n → Q (n + 1)) {n : ℕ}
    (h : P n) : ∃ m, n ≤ m ∧ Q m := by
  obtain ⟨m, hnm, hact⟩ := often n
  obtain ⟨d, rfl⟩ := Nat.exists_eq_add_of_le hnm
  clear hnm
  induction d generalizing n with
  | zero => exact ⟨n + 1, Nat.le_succ n, act n h hact⟩
  | succ d ih =>
    rcases stay n h with hstays | hbecomes
    · rw [show n + (d + 1) = n + 1 + d by omega] at hact
      obtain ⟨m, hm, hq⟩ := ih hstays hact
      exact ⟨m, by omega, hq⟩
    · exact ⟨n + 1, Nat.le_succ n, hbecomes⟩

/-- Something is there to be taken, and so far `k` values were. -/
structure Pending (D : Doorbell σ α) (k : ℕ) (s : System σ α) : Prop where
  held : D.held s.state ≠ []
  taken : s.taken.length = k

theorem Pending.put {k : ℕ} (h : D.Pending k s) (t : ℕ) (value : α) :
    D.Pending k (D.step s (.put t value)) ∧
    (D.step s (.put t value)).consumer = s.consumer ∧
    D.ringing (D.step s (.put t value)).state = D.ringing s.state ∧
    ∀ u : ℕ, s.producers[u]? = some .between →
      (D.step s (.put t value)).producers[u]? = some .between := by
  simp only [step]
  split
  · rename_i ht
    refine ⟨⟨?_, h.taken⟩, rfl, D.ringing_put _ _, ?_⟩
    · rw [D.held_put]
      exact List.append_ne_nil_of_right_ne_nil _ (List.cons_ne_nil _ _)
    · intro u hu
      have hne : t ≠ u := by
        rintro rfl
        rw [ht] at hu
        cases hu
      rw [List.getElem?_set_ne hne]
      exact hu
  · exact ⟨h, rfl, rfl, fun _ hu => hu⟩

theorem Pending.ring {k : ℕ} (h : D.Pending k s) (t : ℕ) :
    D.Pending k (D.step s (.ring t)) ∧ (D.step s (.ring t)).consumer = s.consumer ∧
    (D.ringing s.state = true → D.ringing (D.step s (.ring t)).state = true) ∧
    (s.producers[t]? = some .between → D.ringing (D.step s (.ring t)).state = true) ∧
    ∀ u : ℕ, s.producers[u]? = some .between → (D.step s (.ring t)).producers[u]? = some .between ∨
      D.ringing (D.step s (.ring t)).state = true := by
  simp only [step]
  split
  · refine ⟨⟨?_, h.taken⟩, rfl, fun _ => D.ringing_ring _, fun _ => D.ringing_ring _,
      fun _ _ => Or.inr (D.ringing_ring _)⟩
    rw [D.held_ring]
    exact h.held
  · rename_i hidle
    exact ⟨h, rfl, id, fun hbetween => absurd hbetween (hidle ·), fun _ hu => Or.inl hu⟩

/-- The turns of the consumer: from waiting at a bell that rings to a value taken. -/
theorem Pending.consume {k : ℕ} (h : D.Pending k s) :
    (s.consumer = .taking → k < (D.step s .consume).taken.length) ∧
    (s.consumer = .woken →
      D.Pending k (D.step s .consume) ∧ (D.step s .consume).consumer = .taking) ∧
    (s.consumer = .waiting → D.Pending k (D.step s .consume) ∧
      (D.step s .consume).producers = s.producers ∧
      (D.ringing s.state = true → (D.step s .consume).consumer = .woken) ∧
      (D.ringing s.state = false → (D.step s .consume).consumer = .waiting)) := by
  simp only [step, Doorbell.consume]
  cases hconsumer : s.consumer with
  | waiting =>
    refine ⟨Consumer.noConfusion, Consumer.noConfusion, fun _ => ?_⟩
    dsimp only
    split
    · rename_i hringing
      refine ⟨⟨h.held, h.taken⟩, rfl, fun _ => rfl, fun hsilent => ?_⟩
      rw [hringing] at hsilent
      cases hsilent
    · rename_i hsilent
      exact ⟨h, rfl, fun hringing => absurd hringing hsilent, fun _ => hconsumer⟩
  | woken =>
    refine ⟨Consumer.noConfusion, fun _ => ⟨⟨?_, h.taken⟩, rfl⟩, Consumer.noConfusion⟩
    rw [D.held_silence]
    exact h.held
  | taking =>
    refine ⟨fun _ => ?_, Consumer.noConfusion, Consumer.noConfusion⟩
    have hnone := D.take_none s.state
    rcases htake : D.take s.state with ⟨value, state⟩
    rw [htake] at hnone
    cases value with
    | none => exact absurd (hnone rfl) h.held
    | some value =>
      have hlength : (s.taken ++ [value]).length = s.taken.length + 1 := List.length_append
      have htaken := h.taken
      show k < (s.taken ++ [value]).length
      omega

section fair
variable {producers : ℕ} {schedule : ℕ → Move α} {k : ℕ}

theorem consumer_turn {P Q : System σ α → Prop} (hfair : Fair producers schedule)
    (hput : ∀ s t value, P s → P (D.step s (.put t value)))
    (hring : ∀ s t, P s → P (D.step s (.ring t))) (hconsume : ∀ s, P s → Q (D.step s .consume))
    {n : ℕ} (h : P (D.trace s schedule n)) : ∃ m, n ≤ m ∧ Q (D.trace s schedule m) := by
  apply leads_to (P := fun n => P (D.trace s schedule n)) hfair.consume ?_ ?_ h
  · intro n hn
    simp only [trace]
    cases schedule n with
    | put t value => exact Or.inl (hput _ t value hn)
    | ring t => exact Or.inl (hring _ t hn)
    | consume => exact Or.inr (hconsume _ hn)
  · intro n hn hact
    simp only [trace, hact]
    exact hconsume _ hn

theorem taken_of_taking (hfair : Fair producers schedule) {n : ℕ}
    (h : D.Pending k (D.trace s schedule n)) (htaking : (D.trace s schedule n).consumer = .taking) :
    ∃ m, n ≤ m ∧ k < (D.trace s schedule m).taken.length := by
  apply consumer_turn (P := fun s => D.Pending k s ∧ s.consumer = .taking)
    (Q := fun s => k < s.taken.length) hfair ?_ ?_ ?_ ⟨h, htaking⟩
  · rintro s t value ⟨hpending, hconsumer⟩
    obtain ⟨hstays, hsame, -⟩ := hpending.put t value
    exact ⟨hstays, hsame.trans hconsumer⟩
  · rintro s t ⟨hpending, hconsumer⟩
    obtain ⟨hstays, hsame, -⟩ := hpending.ring t
    exact ⟨hstays, hsame.trans hconsumer⟩
  · rintro s ⟨hpending, hconsumer⟩
    exact hpending.consume.1 hconsumer

theorem taken_of_woken (hfair : Fair producers schedule) {n : ℕ}
    (h : D.Pending k (D.trace s schedule n)) (hwoken : (D.trace s schedule n).consumer = .woken) :
    ∃ m, n ≤ m ∧ k < (D.trace s schedule m).taken.length := by
  obtain ⟨m, hnm, hpending, htaking⟩ :=
    consumer_turn (P := fun s => D.Pending k s ∧ s.consumer = .woken)
      (Q := fun s => D.Pending k s ∧ s.consumer = .taking) hfair
      (fun s t value hs => ⟨(hs.1.put t value).1, (hs.1.put t value).2.1.trans hs.2⟩)
      (fun s t hs => ⟨(hs.1.ring t).1, (hs.1.ring t).2.1.trans hs.2⟩)
      (fun s hs => hs.1.consume.2.1 hs.2) ⟨h, hwoken⟩
  obtain ⟨m', hmm', htaken⟩ := taken_of_taking hfair hpending htaking
  exact ⟨m', Nat.le_trans hnm hmm', htaken⟩

theorem taken_of_ringing (hfair : Fair producers schedule) {n : ℕ}
    (h : D.Pending k (D.trace s schedule n))
    (hwaiting : (D.trace s schedule n).consumer = .waiting)
    (hringing : D.ringing (D.trace s schedule n).state = true) :
    ∃ m, n ≤ m ∧ k < (D.trace s schedule m).taken.length := by
  have hturn : ∃ m, n ≤ m ∧ D.Pending k (D.trace s schedule m) ∧
      (D.trace s schedule m).consumer = .woken := by
    apply consumer_turn
      (P := fun s => D.Pending k s ∧ s.consumer = .waiting ∧ D.ringing s.state = true)
      (Q := fun s => D.Pending k s ∧ s.consumer = .woken) hfair ?_ ?_ ?_ ⟨h, hwaiting, hringing⟩
    · rintro s t value ⟨hpending, hconsumer, hrings⟩
      obtain ⟨hstays, hsame, hbell, -⟩ := hpending.put t value
      exact ⟨hstays, hsame.trans hconsumer, hbell.trans hrings⟩
    · rintro s t ⟨hpending, hconsumer, hrings⟩
      obtain ⟨hstays, hsame, hbell, -⟩ := hpending.ring t
      exact ⟨hstays, hsame.trans hconsumer, hbell hrings⟩
    · rintro s ⟨hpending, hconsumer, hrings⟩
      obtain ⟨hstays, -, hwakes, -⟩ := hpending.consume.2.2 hconsumer
      exact ⟨hstays, hwakes hrings⟩
  obtain ⟨m, hnm, hpending, hwoken⟩ := hturn
  obtain ⟨m', hmm', htaken⟩ := taken_of_woken hfair hpending hwoken
  exact ⟨m', Nat.le_trans hnm hmm', htaken⟩

/-- The turn of a producer that has not rung yet, unless another bell comes first. -/
theorem taken_of_between (hfair : Fair producers schedule) {t : ℕ} (ht : t < producers) {n : ℕ}
    (h : D.Pending k (D.trace s schedule n))
    (hwaiting : (D.trace s schedule n).consumer = .waiting)
    (hbetween : (D.trace s schedule n).producers[t]? = some .between) :
    ∃ m, n ≤ m ∧ k < (D.trace s schedule m).taken.length := by
  have hturn : ∃ m, n ≤ m ∧ D.Pending k (D.trace s schedule m) ∧
      ((D.trace s schedule m).consumer = .woken ∨ (D.trace s schedule m).consumer = .waiting ∧
        D.ringing (D.trace s schedule m).state = true) := by
    apply leads_to
      (P := fun n => D.Pending k (D.trace s schedule n) ∧
        (D.trace s schedule n).consumer = .waiting ∧
        (D.trace s schedule n).producers[t]? = some .between)
      (hfair.ring t ht) ?_ ?_ ⟨h, hwaiting, hbetween⟩
    · rintro n ⟨hpending, hconsumer, hproducer⟩
      simp only [trace]
      cases schedule n with
      | put u value =>
        obtain ⟨hstays, hsame, -, hproducers⟩ := hpending.put u value
        exact Or.inl ⟨hstays, hsame.trans hconsumer, hproducers t hproducer⟩
      | ring u =>
        obtain ⟨hstays, hsame, -, -, hproducers⟩ := hpending.ring u
        rcases hproducers t hproducer with hin | hrings
        · exact Or.inl ⟨hstays, hsame.trans hconsumer, hin⟩
        · exact Or.inr ⟨hstays, Or.inr ⟨hsame.trans hconsumer, hrings⟩⟩
      | consume =>
        obtain ⟨hstays, hproducers, hwakes, hwaits⟩ := hpending.consume.2.2 hconsumer
        cases hringing : D.ringing (D.trace s schedule n).state with
        | true => exact Or.inr ⟨hstays, Or.inl (hwakes hringing)⟩
        | false => exact Or.inl ⟨hstays, hwaits hringing, hproducers ▸ hproducer⟩
    · rintro n ⟨hpending, hconsumer, hproducer⟩ hact
      simp only [trace, hact]
      obtain ⟨hstays, hsame, -, hrings, -⟩ := hpending.ring t
      exact ⟨hstays, Or.inr ⟨hsame.trans hconsumer, hrings hproducer⟩⟩
  obtain ⟨m, hnm, hpending, hnext⟩ := hturn
  rcases hnext with hwoken | ⟨hwaits, hringing⟩
  · obtain ⟨m', hmm', htaken⟩ := taken_of_woken hfair hpending hwoken
    exact ⟨m', Nat.le_trans hnm hmm', htaken⟩
  · obtain ⟨m', hmm', htaken⟩ := taken_of_ringing hfair hpending hwaits hringing
    exact ⟨m', Nat.le_trans hnm hmm', htaken⟩

end fair

/-! ### Endless runs -/

theorem step_producers_length (s : System σ α) (move : Move α) :
    (D.step s move).producers.length = s.producers.length := by
  cases move with
  | put t value =>
    simp only [step]
    split
    · exact List.length_set
    · rfl
  | ring t =>
    simp only [step]
    split
    · exact List.length_set
    · rfl
  | consume =>
    simp only [step, Doorbell.consume]
    split
    · split
      · rfl
      · rfl
    · rfl
    · split
      · rfl
      · rfl

theorem step_put (s : System σ α) (move : Move α) : s.put <+: (D.step s move).put := by
  cases move with
  | put t value =>
    simp only [step]
    split
    · exact List.prefix_append _ _
    · exact List.prefix_refl _
  | ring t =>
    simp only [step]
    split
    · exact List.prefix_refl _
    · exact List.prefix_refl _
  | consume =>
    simp only [step, Doorbell.consume]
    split
    · split
      · exact List.prefix_refl _
      · exact List.prefix_refl _
    · exact List.prefix_refl _
    · split
      · exact List.prefix_refl _
      · exact List.prefix_refl _

theorem trace_put (s : System σ α) (schedule : ℕ → Move α) {n m : ℕ} (h : n ≤ m) :
    (D.trace s schedule n).put <+: (D.trace s schedule m).put := by
  obtain ⟨d, rfl⟩ := Nat.exists_eq_add_of_le h
  clear h
  induction d with
  | zero => exact List.prefix_refl _
  | succ d ih => exact ih.trans (step_put _ _)

theorem taken_of_put {state : σ} (hempty : D.held state = []) {producers : ℕ}
    {schedule : ℕ → Move α} (hfair : Fair producers schedule) (n i : ℕ) :
    let s := D.trace (start state producers) schedule
    i < (s n).put.length → ∃ m, n ≤ m ∧ (s m).taken[i]? = (s n).put[i]? := by
  intro s hi
  have hannounced : ∀ m, D.Announced (s m) := by
    intro m
    rw [show s m = _ from trace_eq_run _ _ m]
    exact announced_run hempty producers _
  have hproducers : ∀ m, (s m).producers.length = producers := by
    intro m
    induction m with
    | zero => exact List.length_replicate
    | succ m ih => exact (step_producers_length _ _).trans ih
  -- a value that is still in the queue is on its way
  have hmore : ∀ m, D.held (s m).state ≠ [] →
      ∃ m', m ≤ m' ∧ (s m).taken.length < (s m').taken.length := by
    intro m hheld
    have hpending : D.Pending (s m).taken.length (s m) := ⟨hheld, rfl⟩
    cases hconsumer : (s m).consumer with
    | taking => exact taken_of_taking hfair hpending hconsumer
    | woken => exact taken_of_woken hfair hpending hconsumer
    | waiting =>
      rcases (hannounced m).announced (by rw [hconsumer]; exact Consumer.noConfusion) hheld with
        hringing | hbetween
      · exact taken_of_ringing hfair hpending hconsumer hringing
      · obtain ⟨t, ht⟩ := List.mem_iff_getElem?.mp hbetween
        have hlt := (List.getElem?_eq_some_iff.mp ht).1
        exact taken_of_between hfair (by rw [← hproducers m]; exact hlt) hpending hconsumer ht
  have hcount : ∀ k, k ≤ i + 1 → ∃ m, n ≤ m ∧ k ≤ (s m).taken.length := by
    intro k
    induction k with
    | zero => exact fun _ => ⟨n, Nat.le_refl n, Nat.zero_le _⟩
    | succ k ih =>
      intro hk
      obtain ⟨m, hnm, hlength⟩ := ih (by omega)
      by_cases hmoreTaken : k + 1 ≤ (s m).taken.length
      · exact ⟨m, hnm, hmoreTaken⟩
      · have hheld : D.held (s m).state ≠ [] := by
          intro hnone
          have horder := congrArg List.length (hannounced m).order
          rw [hnone, List.append_nil] at horder
          have hgrows := (trace_put (D := D) (start state producers) schedule hnm).length_le
          have hput : (s n).put.length ≤ (s m).put.length := hgrows
          omega
        obtain ⟨m', hmm', htaken⟩ := hmore m hheld
        exact ⟨m', Nat.le_trans hnm hmm', by omega⟩
  obtain ⟨m, hnm, hlength⟩ := hcount (i + 1) (Nat.le_refl _)
  refine ⟨m, hnm, ?_⟩
  obtain ⟨later, hgrows⟩ := trace_put (D := D) (start state producers) schedule hnm
  calc (s m).taken[i]? = (s m).put[i]? := by
        rw [← (hannounced m).order, List.getElem?_append_left (by omega)]
    _ = (s n).put[i]? := by
        rw [show (s m).put = (s n).put ++ later from hgrows.symm, List.getElem?_append_left hi]

end Doorbell
end Concurrent
