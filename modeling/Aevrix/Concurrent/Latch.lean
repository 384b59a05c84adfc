import Mathlib.Data.List.Basic
import Mathlib.Tactic.Common
import Aevrix.Concurrent.Doorbell

/-!
# A flag with a bell

A request raises a flag and rings a bell behind it. One server waits for the bell or for a time
out, silences the bell, and clears the flag; if the flag was up, it works once for all requests
since the flag was last cleared. Behind each waiting it looks at the flag once more. The moves of
those who raise the flag and of the server come in any order.

Each piece of work answers requests that no other work answers, in their order (`told_run`), and
every request is answered by work that begins after it (`done_of_pending`).
-/

namespace Concurrent

/-- A flag with a bell; a bell that nobody hears is `deaf`. -/
structure Latch (σ : Type*) where
  raise : σ → σ
  ring : σ → σ
  silence : σ → σ
  clear : σ → Bool × σ
  raised : σ → Bool
  ringing : σ → Bool
  deaf : σ → Bool
  raised_raise : ∀ s, raised (raise s) = true
  ringing_raise : ∀ s, ringing (raise s) = ringing s
  deaf_raise : ∀ s, deaf (raise s) = deaf s
  raised_ring : ∀ s, raised (ring s) = raised s
  ringing_ring : ∀ s, deaf s = false → ringing (ring s) = true
  deaf_ring : ∀ s, deaf (ring s) = deaf s
  raised_silence : ∀ s, raised (silence s) = raised s
  deaf_silence : ∀ s, deaf (silence s) = deaf s
  clear_fst : ∀ s, (clear s).1 = raised s
  raised_clear : ∀ s, raised (clear s).2 = false
  ringing_clear : ∀ s, ringing (clear s).2 = ringing s
  deaf_clear : ∀ s, deaf (clear s).2 = deaf s

namespace Latch
variable {σ ρ ι : Type*}

/-- Somebody is in between when the flag is up and the bell has not been rung. -/
inductive Raiser where
  | idle | between
  deriving DecidableEq, Repr

/-- The server answers when it has silenced the bell; it checks when it did not hear one, and when
it has answered. -/
inductive Server where
  | waiting | woken | answering | checking
  | working (answered : Bool)
  deriving DecidableEq, Repr

structure System (σ ρ ι : Type*) where
  state : σ
  raisers : List Raiser
  server : Server
  /-- All requests, and those since the flag was last cleared. -/
  requests : List ρ
  pending : List ρ
  /-- The requests that are worked for, and those that were, with what was worked with. -/
  batch : List ρ
  done : List (List ρ × ι)

inductive Move (ρ ι : Type*) where
  | raise (raiser : ℕ) (request : ρ)
  | ring (raiser : ℕ)
  | serve (timedOut : Bool) (input : ι)
  | other

variable (L : Latch σ)

/-- Test and clear. -/
def test (s : System σ ρ ι) (answered : Bool) (otherwise : Server) : System σ ρ ι :=
  match L.clear s.state with
  | (true, state) => { s with
    state
    server := .working answered
    pending := []
    batch := s.pending }
  | (false, state) => { s with
    state
    server := otherwise }

/-- The next move of the server. -/
def serve (s : System σ ρ ι) (timedOut : Bool) (input : ι) : System σ ρ ι := match s.server with
  | .waiting =>
    if L.ringing s.state then { s with server := .woken }
    else if timedOut then { s with server := .checking }
    else s
  | .woken => { s with
    state := L.silence s.state
    server := .answering }
  | .answering => L.test s true .checking
  | .checking => L.test s false .waiting
  | .working answered => { s with
    server := if answered then .checking else .waiting
    batch := []
    done := s.done ++ [(s.batch, input)] }

/-- One move; a move that is not possible changes nothing. -/
def step (s : System σ ρ ι) : Move ρ ι → System σ ρ ι
  | .raise t request => match s.raisers[t]? with
    | some .idle => { s with
      state := L.raise s.state
      raisers := s.raisers.set t .between
      requests := s.requests ++ [request]
      pending := s.pending ++ [request] }
    | _ => s
  | .ring t => match s.raisers[t]? with
    | some .between => { s with
      state := L.ring s.state
      raisers := s.raisers.set t .idle }
    | _ => s
  | .serve timedOut input => L.serve s timedOut input
  | .other => s

def run (s : System σ ρ ι) (moves : List (Move ρ ι)) : System σ ρ ι := moves.foldl L.step s

def start (state : σ) (raisers : ℕ) : System σ ρ ι where
  state := state
  raisers := List.replicate raisers .idle
  server := .waiting
  requests := []
  pending := []
  batch := []
  done := []

/-! ### What the flag tells -/

/-- The requests that were worked for, in their order. -/
def System.answered (s : System σ ρ ι) : List ρ := (s.done.map Prod.fst).flatten

/-- The flag is up while a request is pending; and a bell that is heard announces it, or is about
to, until the server looks. -/
structure Told (s : System σ ρ ι) : Prop where
  flag : L.raised s.state = true ↔ s.pending ≠ []
  order : s.answered ++ s.batch ++ s.pending = s.requests
  done : ∀ d ∈ s.done, d.1 ≠ []
  batch : s.batch ≠ [] ↔ ∃ answered, s.server = .working answered
  announced : L.deaf s.state = false → s.pending ≠ [] →
    L.ringing s.state = true ∨ Raiser.between ∈ s.raisers ∨ s.server = .answering

variable {L} {s : System σ ρ ι}

theorem told_start {state : σ} (hraised : L.raised state = false) (raisers : ℕ) :
    L.Told (start state raisers : System σ ρ ι) := by
  refine ⟨?_, rfl, fun d hd => ?_, ?_, fun _ hpending => absurd rfl hpending⟩
  · rw [show L.raised (start state raisers : System σ ρ ι).state = false from hraised]
    exact ⟨fun h => absurd h Bool.false_ne_true, fun h => absurd rfl h⟩
  · cases hd
  · exact ⟨fun h => absurd rfl h, fun ⟨_, h⟩ => by cases h⟩

theorem Told.raise (h : L.Told s) (t : ℕ) (request : ρ) : L.Told (L.step s (.raise t request)) := by
  simp only [step]
  split
  · rename_i ht
    refine ⟨?_, ?_, h.done, h.batch, fun _ _ => ?_⟩
    · exact ⟨fun _ => List.append_ne_nil_of_right_ne_nil _ (List.cons_ne_nil _ _),
        fun _ => L.raised_raise s.state⟩
    · show s.answered ++ s.batch ++ (s.pending ++ [request]) = s.requests ++ [request]
      rw [← List.append_assoc, h.order]
    · have hlt := (List.getElem?_eq_some_iff.mp ht).1
      exact Or.inr (Or.inl (List.mem_set hlt _))
  · exact h

theorem Told.ring (h : L.Told s) (t : ℕ) : L.Told (L.step s (.ring t)) := by
  simp only [step]
  split
  · refine ⟨?_, h.order, h.done, h.batch, fun hdeaf _ => ?_⟩
    · rw [L.raised_ring]
      exact h.flag
    · rw [L.deaf_ring] at hdeaf
      exact Or.inl (L.ringing_ring _ hdeaf)
  · exact h

theorem Told.test (h : L.Told s) (hbatch : s.batch = []) (answered : Bool) {otherwise : Server}
    (hotherwise : ∀ b, otherwise ≠ .working b) : L.Told (L.test s answered otherwise) := by
  have hfst := L.clear_fst s.state
  have hraised := L.raised_clear s.state
  have hringing := L.ringing_clear s.state
  have hdeaf := L.deaf_clear s.state
  unfold Latch.test
  rcases hclear : L.clear s.state with ⟨flag, state⟩
  rw [hclear] at hfst hraised hringing hdeaf
  dsimp only at hfst hraised hringing hdeaf
  cases flag with
  | true =>
    have hpending : s.pending ≠ [] := h.flag.mp hfst.symm
    refine ⟨?_, ?_, h.done, ?_, fun _ hleft => absurd rfl hleft⟩
    · rw [hraised]
      exact ⟨fun hflag => absurd hflag Bool.false_ne_true, fun hleft => absurd rfl hleft⟩
    · have horder := h.order
      rw [hbatch, List.append_nil] at horder
      show s.answered ++ s.pending ++ [] = s.requests
      rw [List.append_nil]
      exact horder
    · exact ⟨fun _ => ⟨answered, rfl⟩, fun _ => hpending⟩
  | false =>
    have hpending : s.pending = [] := by
      by_contra hleft
      rw [h.flag.mpr hleft] at hfst
      cases hfst
    refine ⟨?_, h.order, h.done, ?_, fun _ hleft => absurd hpending hleft⟩
    · rw [hraised]
      exact ⟨fun hflag => absurd hflag Bool.false_ne_true, fun hleft => absurd hpending hleft⟩
    · exact ⟨fun hleft => absurd hbatch hleft, fun ⟨b, hb⟩ => absurd hb (hotherwise b)⟩

theorem Told.serve (h : L.Told s) (timedOut : Bool) (input : ι) :
    L.Told (L.serve s timedOut input) := by
  have hrest : (∀ b, s.server ≠ .working b) → s.batch = [] := by
    intro hserver
    by_contra hleft
    obtain ⟨b, hb⟩ := h.batch.mp hleft
    exact hserver b hb
  have hmoved : ∀ next : Server, (∀ b, s.server ≠ .working b) → (∀ b, next ≠ .working b) →
      s.server ≠ .answering → L.Told { s with server := next } := by
    intro next hserver hnext hanswering
    refine ⟨h.flag, h.order, h.done, ?_, fun hdeaf hleft => ?_⟩
    · exact ⟨fun hleft => absurd (hrest hserver) hleft, fun ⟨b, hb⟩ => absurd hb (hnext b)⟩
    · rcases h.announced hdeaf hleft with hringing | hbetween | hsame
      · exact Or.inl hringing
      · exact Or.inr (Or.inl hbetween)
      · exact absurd hsame hanswering
  unfold Latch.serve
  cases hserver : s.server with
  | waiting =>
    have hnot : ∀ b, s.server ≠ .working b := by
      intro b
      rw [hserver]
      exact Server.noConfusion
    have hanswering : s.server ≠ .answering := by
      rw [hserver]
      exact Server.noConfusion
    dsimp only
    split
    · exact hmoved _ hnot (fun _ => Server.noConfusion) hanswering
    · split
      · exact hmoved _ hnot (fun _ => Server.noConfusion) hanswering
      · exact h
  | woken =>
    refine ⟨?_, h.order, h.done, ?_, fun _ _ => Or.inr (Or.inr rfl)⟩
    · rw [L.raised_silence]
      exact h.flag
    · have hbatch := hrest (fun b hb => by rw [hserver] at hb; cases hb)
      exact ⟨fun hleft => absurd hbatch hleft, fun ⟨b, hb⟩ => by cases hb⟩
  | answering =>
    exact h.test (hrest (fun b hb => by rw [hserver] at hb; cases hb)) true
      (fun _ => Server.noConfusion)
  | checking =>
    exact h.test (hrest (fun b hb => by rw [hserver] at hb; cases hb)) false
      (fun _ => Server.noConfusion)
  | working answered =>
    have hbatch : s.batch ≠ [] := h.batch.mpr ⟨answered, hserver⟩
    refine ⟨h.flag, ?_, fun d hd => ?_, ?_, fun hdeaf hleft => ?_⟩
    · show ((s.done ++ [(s.batch, input)]).map Prod.fst).flatten ++ [] ++ s.pending = s.requests
      rw [List.map_append, List.flatten_append, List.append_nil, ← h.order]
      show s.answered ++ (s.batch ++ []) ++ s.pending = _
      rw [List.append_nil]
    · rcases List.mem_append.mp hd with hbefore | hnew
      · exact h.done d hbefore
      · rw [List.mem_singleton.mp hnew]
        exact hbatch
    · refine ⟨fun hleft => absurd rfl hleft, fun ⟨b, hb⟩ => ?_⟩
      cases answered <;> cases hb
    · rcases h.announced hdeaf hleft with hringing | hbetween | hsame
      · exact Or.inl hringing
      · exact Or.inr (Or.inl hbetween)
      · rw [hserver] at hsame
        cases hsame

theorem Told.step (h : L.Told s) (move : Move ρ ι) : L.Told (L.step s move) := by
  cases move with
  | raise t request => exact h.raise t request
  | ring t => exact h.ring t
  | serve timedOut input => exact h.serve timedOut input
  | other => exact h

theorem Told.run (h : L.Told s) (moves : List (Move ρ ι)) : L.Told (L.run s moves) := by
  induction moves generalizing s with
  | nil => exact h
  | cons move moves ih => exact ih (h.step move)

theorem told_run {state : σ} (hraised : L.raised state = false) (raisers : ℕ)
    (moves : List (Move ρ ι)) : L.Told (L.run (start state raisers) moves) :=
  (told_start hraised raisers).run moves

/-- There is no more work than requests. -/
theorem Told.length_done (h : L.Told s) : s.done.length ≤ s.requests.length := by
  have hcount : ∀ done : List (List ρ × ι), (∀ d ∈ done, d.1 ≠ []) →
      done.length ≤ (done.map Prod.fst).flatten.length := by
    intro done
    induction done with
    | nil => exact fun _ => Nat.le_refl 0
    | cons d done ih =>
      intro hne
      have hhead := List.length_pos_of_ne_nil (hne d List.mem_cons_self)
      have hrest := ih fun d hd => hne d (List.mem_cons_of_mem _ hd)
      simp only [List.map_cons, List.flatten_cons, List.length_append, List.length_cons]
      omega
  have hdone := hcount s.done h.done
  rw [← h.order, List.length_append, List.length_append]
  exact Nat.le_trans hdone (by rw [System.answered]; omega)

/-! ### Every request is answered -/

/-- The system along an endless schedule. -/
def trace (L : Latch σ) (s : System σ ρ ι) (schedule : ℕ → Move ρ ι) : ℕ → System σ ρ ι
  | 0 => s
  | n + 1 => L.step (L.trace s schedule n) (schedule n)

theorem trace_eq_run (s : System σ ρ ι) (schedule : ℕ → Move ρ ι) (n : ℕ) :
    L.trace s schedule n = L.run s ((List.range n).map schedule) := by
  induction n with
  | zero => rfl
  | succ n ih =>
    rw [List.range_succ, List.map_append, run, List.foldl_append]
    exact congrArg (fun s => L.step s (schedule n)) ih

/-- The server has its turn again and again. -/
def Serves (schedule : ℕ → Move ρ ι) : Prop :=
  ∀ n, ∃ m, n ≤ m ∧ ∃ timedOut input, schedule m = .serve timedOut input

/-- No wait of the server is without end. -/
def TimesOut (schedule : ℕ → Move ρ ι) : Prop :=
  ∀ n, ∃ m, n ≤ m ∧ ∃ input, schedule m = .serve true input

/-- Whoever raises the flag goes on to the bell. -/
def Rings (raisers : ℕ) (schedule : ℕ → Move ρ ι) : Prop :=
  ∀ t < raisers, ∀ n, ∃ m, n ≤ m ∧ schedule m = .ring t

theorem TimesOut.serves {schedule : ℕ → Move ρ ι} (h : TimesOut schedule) : Serves schedule := by
  intro n
  obtain ⟨m, hnm, input, hm⟩ := h n
  exact ⟨m, hnm, true, input, hm⟩

section turns
variable {schedule : ℕ → Move ρ ι} {request : ρ}

/-- The moves that are not the server's leave it where it is, and what is pending. -/
theorem step_others (s : System σ ρ ι) {move : Move ρ ι}
    (hmove : ∀ timedOut input, move ≠ .serve timedOut input) :
    (L.step s move).server = s.server ∧ (L.step s move).batch = s.batch ∧
    (L.step s move).done = s.done ∧ s.pending <+: (L.step s move).pending ∧
    (L.ringing s.state = true → L.deaf s.state = false →
      L.ringing (L.step s move).state = true) := by
  cases move with
  | raise t new =>
    simp only [step]
    split
    · refine ⟨rfl, rfl, rfl, List.prefix_append _ _, fun hringing _ => ?_⟩
      rw [L.ringing_raise]
      exact hringing
    · exact ⟨rfl, rfl, rfl, List.prefix_refl _, fun hringing _ => hringing⟩
  | ring t =>
    simp only [step]
    split
    · exact ⟨rfl, rfl, rfl, List.prefix_refl _, fun _ hdeaf => L.ringing_ring _ hdeaf⟩
    · exact ⟨rfl, rfl, rfl, List.prefix_refl _, fun hringing _ => hringing⟩
  | serve timedOut input => exact absurd rfl (hmove timedOut input)
  | other => exact ⟨rfl, rfl, rfl, List.prefix_refl _, fun hringing _ => hringing⟩

theorem deaf_test (s : System σ ρ ι) (answered : Bool) (otherwise : Server) :
    L.deaf (L.test s answered otherwise).state = L.deaf s.state := by
  have hdeaf := L.deaf_clear s.state
  unfold Latch.test
  rcases hclear : L.clear s.state with ⟨flag, state⟩
  rw [hclear] at hdeaf
  cases flag with
  | true => exact hdeaf
  | false => exact hdeaf

theorem deaf_step (s : System σ ρ ι) (move : Move ρ ι) :
    L.deaf (L.step s move).state = L.deaf s.state := by
  cases move with
  | raise t new =>
    simp only [step]
    split
    · exact L.deaf_raise _
    · rfl
  | ring t =>
    simp only [step]
    split
    · exact L.deaf_ring _
    · rfl
  | serve timedOut input =>
    simp only [step, Latch.serve]
    split
    · split
      · rfl
      · split
        · rfl
        · rfl
    · exact L.deaf_silence _
    · exact deaf_test s true .checking
    · exact deaf_test s false .waiting
    · rfl
  | other => rfl

theorem between_of_raise {t : ℕ} (h : s.raisers[t]? = some .between) (u : ℕ) (new : ρ) :
    (L.step s (.raise u new)).raisers[t]? = some .between := by
  simp only [step]
  split
  · rename_i hu
    have hne : u ≠ t := by
      rintro rfl
      rw [hu] at h
      cases h
    exact (List.getElem?_set_ne hne).trans h
  · exact h

theorem between_of_ring {t : ℕ} (hdeaf : L.deaf s.state = false) (h : s.raisers[t]? = some .between)
    (u : ℕ) : (L.step s (.ring u)).raisers[t]? = some .between ∨
      L.ringing (L.step s (.ring u)).state = true := by
  simp only [step]
  split
  · exact Or.inr (L.ringing_ring _ hdeaf)
  · exact Or.inl h

/-- What a turn of the server changes, when only such turns change it, comes about. -/
theorem server_turn {P Q : System σ ρ ι → Prop} (hserves : Serves schedule)
    (hothers : ∀ s move, (∀ timedOut input, move ≠ .serve timedOut input) → P s →
      P (L.step s move))
    (hserve : ∀ s timedOut input, P s → Q (L.serve s timedOut input)) {s₀ : System σ ρ ι} {n : ℕ}
    (h : P (L.trace s₀ schedule n)) : ∃ m, n ≤ m ∧ Q (L.trace s₀ schedule m) := by
  apply Doorbell.leads_to (P := fun n => P (L.trace s₀ schedule n)) hserves ?_ ?_ h
  · intro n hn
    simp only [trace]
    cases hmove : schedule n with
    | serve timedOut input => exact Or.inr (hserve _ timedOut input hn)
    | raise t request => exact Or.inl (hothers _ _ (fun _ _ hmove => by cases hmove) hn)
    | ring t => exact Or.inl (hothers _ _ (fun _ _ hmove => by cases hmove) hn)
    | other => exact Or.inl (hothers _ _ (fun _ _ hmove => by cases hmove) hn)
  · rintro n hn ⟨timedOut, input, hmove⟩
    simp only [trace, hmove]
    exact hserve _ timedOut input hn

/-- The request is pending and the server is at a certain point. -/
def At (L : Latch σ) (request : ρ) (server : Server) (s : System σ ρ ι) : Prop :=
  L.Told s ∧ request ∈ s.pending ∧ s.server = server

theorem At.others {server : Server} (h : L.At request server s) {move : Move ρ ι}
    (hmove : ∀ timedOut input, move ≠ .serve timedOut input) :
    L.At request server (L.step s move) := by
  obtain ⟨hserver, -, -, hpending, -⟩ := step_others (L := L) s hmove
  exact ⟨h.1.step move, hpending.subset h.2.1, hserver.trans h.2.2⟩

theorem test_batch (h : L.Told s) (hpending : request ∈ s.pending) (answered : Bool)
    (otherwise : Server) : request ∈ (L.test s answered otherwise).batch := by
  have hfst := L.clear_fst s.state
  rw [h.flag.mpr (List.ne_nil_of_mem hpending)] at hfst
  unfold Latch.test
  rcases hclear : L.clear s.state with ⟨flag, state⟩
  rw [hclear] at hfst
  dsimp only at hfst
  rw [hfst]
  exact hpending

/-- Where the server is about to look at the flag. -/
theorem batch_of_looking {s₀ : System σ ρ ι} (hserves : Serves schedule) {n : ℕ} {server : Server}
    (hserver : server = .answering ∨ server = .checking)
    (h : L.At request server (L.trace s₀ schedule n)) :
    ∃ m, n ≤ m ∧ request ∈ (L.trace s₀ schedule m).batch := by
  apply server_turn (P := L.At request server) (Q := fun s => request ∈ s.batch) hserves ?_ ?_ h
  · exact fun s move hmove hs => hs.others hmove
  · rintro s timedOut input ⟨htold, hpending, hs⟩
    unfold Latch.serve
    rcases hserver with rfl | rfl
    · rw [hs]
      exact test_batch htold hpending true .checking
    · rw [hs]
      exact test_batch htold hpending false .waiting

theorem batch_of_woken {s₀ : System σ ρ ι} (hserves : Serves schedule) {n : ℕ}
    (h : L.At request .woken (L.trace s₀ schedule n)) :
    ∃ m, n ≤ m ∧ request ∈ (L.trace s₀ schedule m).batch := by
  have hturn : ∃ m, n ≤ m ∧ L.At request .answering (L.trace s₀ schedule m) := by
    apply server_turn (P := L.At request .woken) hserves ?_ ?_ h
    · exact fun s move hmove hs => hs.others hmove
    · rintro s timedOut input ⟨htold, hpending, hs⟩
      refine ⟨htold.serve timedOut input, ?_, ?_⟩
      · unfold Latch.serve
        rw [hs]
        exact hpending
      · unfold Latch.serve
        rw [hs]
  obtain ⟨m, hnm, hm⟩ := hturn
  obtain ⟨m', hmm', hbatch⟩ := batch_of_looking hserves (Or.inl rfl) hm
  exact ⟨m', Nat.le_trans hnm hmm', hbatch⟩

/-- When every wait ends, a pending request is looked for. -/
theorem batch_of_pending {s₀ : System σ ρ ι} (hserves : Serves schedule)
    (hwaits : ∀ n, L.At request .waiting (L.trace s₀ schedule n) →
      ∃ m, n ≤ m ∧ (L.At request .woken (L.trace s₀ schedule m) ∨
        L.At request .checking (L.trace s₀ schedule m)))
    {n : ℕ} (htold : L.Told (L.trace s₀ schedule n))
    (hpending : request ∈ (L.trace s₀ schedule n).pending) :
    ∃ m, n ≤ m ∧ request ∈ (L.trace s₀ schedule m).batch := by
  have hwaiting : ∀ n, L.At request .waiting (L.trace s₀ schedule n) →
      ∃ m, n ≤ m ∧ request ∈ (L.trace s₀ schedule m).batch := by
    intro n hn
    obtain ⟨m, hnm, hwoken | hchecking⟩ := hwaits n hn
    · obtain ⟨m', hmm', hbatch⟩ := batch_of_woken hserves hwoken
      exact ⟨m', Nat.le_trans hnm hmm', hbatch⟩
    · obtain ⟨m', hmm', hbatch⟩ := batch_of_looking hserves (Or.inr rfl) hchecking
      exact ⟨m', Nat.le_trans hnm hmm', hbatch⟩
  cases hserver : (L.trace s₀ schedule n).server with
  | waiting => exact hwaiting n ⟨htold, hpending, hserver⟩
  | woken => exact batch_of_woken hserves ⟨htold, hpending, hserver⟩
  | answering => exact batch_of_looking hserves (Or.inl rfl) ⟨htold, hpending, hserver⟩
  | checking => exact batch_of_looking hserves (Or.inr rfl) ⟨htold, hpending, hserver⟩
  | working answered =>
    have hturn : ∃ m, n ≤ m ∧ L.At request (if answered then .checking else .waiting)
        (L.trace s₀ schedule m) := by
      apply server_turn (P := L.At request (.working answered)) hserves ?_ ?_
        ⟨htold, hpending, hserver⟩
      · exact fun s move hmove hs => hs.others hmove
      · rintro s timedOut input ⟨htold, hpending, hs⟩
        refine ⟨htold.serve timedOut input, ?_, ?_⟩
        · unfold Latch.serve
          rw [hs]
          exact hpending
        · unfold Latch.serve
          rw [hs]
    obtain ⟨m, hnm, hm⟩ := hturn
    have hnext : ∃ m', m ≤ m' ∧ request ∈ (L.trace s₀ schedule m').batch := by
      cases answered with
      | true => exact batch_of_looking hserves (Or.inr rfl) hm
      | false => exact hwaiting m hm
    obtain ⟨m', hmm', hbatch⟩ := hnext
    exact ⟨m', Nat.le_trans hnm hmm', hbatch⟩

theorem serve_waiting (h : L.At request .waiting s) (timedOut : Bool) (input : ι) :
    (L.ringing s.state = true → L.At request .woken (L.serve s timedOut input)) ∧
    (L.ringing s.state = false → timedOut = true →
      L.At request .checking (L.serve s timedOut input)) ∧
    (L.ringing s.state = false → timedOut = false → L.serve s timedOut input = s) := by
  obtain ⟨htold, hpending, hs⟩ := h
  have hnext := htold.serve timedOut input
  unfold Latch.serve at hnext ⊢
  rw [hs] at hnext ⊢
  dsimp only at hnext ⊢
  refine ⟨fun hringing => ?_, fun hringing htimed => ?_, fun hringing htimed => ?_⟩
  · rw [if_pos hringing] at hnext ⊢
    exact ⟨hnext, hpending, rfl⟩
  · rw [hringing, if_neg Bool.false_ne_true, if_pos htimed] at hnext ⊢
    exact ⟨hnext, hpending, rfl⟩
  · rw [hringing, htimed, if_neg Bool.false_ne_true, if_neg Bool.false_ne_true]

/-- A wait that times out ends in a look at the flag. -/
theorem waits_timedOut {s₀ : System σ ρ ι} (htimes : TimesOut schedule) {n : ℕ}
    (h : L.At request .waiting (L.trace s₀ schedule n)) :
    ∃ m, n ≤ m ∧ (L.At request .woken (L.trace s₀ schedule m) ∨
      L.At request .checking (L.trace s₀ schedule m)) := by
  apply Doorbell.leads_to (P := fun n => L.At request .waiting (L.trace s₀ schedule n)) htimes ?_ ?_ h
  · intro n hn
    simp only [trace]
    cases hmove : schedule n with
    | serve timedOut input =>
      obtain ⟨hwakes, hchecks, hstays⟩ := serve_waiting hn timedOut input
      cases hringing : L.ringing (L.trace s₀ schedule n).state with
      | true => exact Or.inr (Or.inl (hwakes hringing))
      | false =>
        cases timedOut with
        | true => exact Or.inr (Or.inr (hchecks hringing rfl))
        | false =>
          refine Or.inl ?_
          show L.At request .waiting (L.serve (L.trace s₀ schedule n) false input)
          rw [hstays hringing rfl]
          exact hn
    | raise t new => exact Or.inl (hn.others fun _ _ hmove => by cases hmove)
    | ring t => exact Or.inl (hn.others fun _ _ hmove => by cases hmove)
    | other => exact Or.inl hn
  · rintro n hn ⟨input, hmove⟩
    simp only [trace, hmove]
    obtain ⟨hwakes, hchecks, -⟩ := serve_waiting hn true input
    cases hringing : L.ringing (L.trace s₀ schedule n).state with
    | true => exact Or.inl (hwakes hringing)
    | false => exact Or.inr (hchecks hringing rfl)

/-- The bell ends the wait. -/
theorem waits_ringing {s₀ : System σ ρ ι} (hserves : Serves schedule) {n : ℕ}
    (h : L.At request .waiting (L.trace s₀ schedule n))
    (hdeaf : L.deaf (L.trace s₀ schedule n).state = false)
    (hringing : L.ringing (L.trace s₀ schedule n).state = true) :
    ∃ m, n ≤ m ∧ L.At request .woken (L.trace s₀ schedule m) := by
  apply server_turn
    (P := fun s => L.At request .waiting s ∧ L.deaf s.state = false ∧ L.ringing s.state = true)
    hserves ?_ ?_ ⟨h, hdeaf, hringing⟩
  · rintro s move hmove ⟨hs, hsdeaf, hsringing⟩
    obtain ⟨-, -, -, -, hkept⟩ := step_others (L := L) s hmove
    exact ⟨hs.others hmove, (deaf_step s move).trans hsdeaf, hkept hsringing hsdeaf⟩
  · rintro s timedOut input ⟨hs, -, hsringing⟩
    exact (serve_waiting hs timedOut input).1 hsringing

/-- Whoever is in between ends the wait, unless another bell comes first. -/
theorem waits_between {s₀ : System σ ρ ι} {raisers : ℕ} (hserves : Serves schedule)
    (hrings : Rings raisers schedule) {n t : ℕ} (ht : t < raisers)
    (h : L.At request .waiting (L.trace s₀ schedule n))
    (hdeaf : L.deaf (L.trace s₀ schedule n).state = false)
    (hbetween : (L.trace s₀ schedule n).raisers[t]? = some .between) :
    ∃ m, n ≤ m ∧ (L.At request .woken (L.trace s₀ schedule m) ∨
      L.At request .checking (L.trace s₀ schedule m)) := by
  have hturn : ∃ m, n ≤ m ∧ ((L.At request .woken (L.trace s₀ schedule m) ∨
      L.At request .checking (L.trace s₀ schedule m)) ∨
      L.At request .waiting (L.trace s₀ schedule m) ∧
        L.deaf (L.trace s₀ schedule m).state = false ∧
        L.ringing (L.trace s₀ schedule m).state = true) := by
    apply Doorbell.leads_to
      (P := fun n => L.At request .waiting (L.trace s₀ schedule n) ∧
        L.deaf (L.trace s₀ schedule n).state = false ∧
        (L.trace s₀ schedule n).raisers[t]? = some .between)
      (hrings t ht) ?_ ?_ ⟨h, hdeaf, hbetween⟩
    · rintro n ⟨hn, hndeaf, hnbetween⟩
      simp only [trace]
      have hdeaf' := (deaf_step (L := L) (L.trace s₀ schedule n) (schedule n)).trans hndeaf
      cases hmove : schedule n with
      | serve timedOut input =>
        rw [hmove] at hdeaf'
        obtain ⟨hwakes, hchecks, hstays⟩ := serve_waiting hn timedOut input
        cases hringing : L.ringing (L.trace s₀ schedule n).state with
        | true => exact Or.inr (Or.inl (Or.inl (hwakes hringing)))
        | false =>
          cases timedOut with
          | true => exact Or.inr (Or.inl (Or.inr (hchecks hringing rfl)))
          | false =>
            refine Or.inl ?_
            show L.At request .waiting (L.serve (L.trace s₀ schedule n) false input) ∧ _
            rw [show L.step (L.trace s₀ schedule n) (.serve false input) = _ from
              hstays hringing rfl, hstays hringing rfl]
            exact ⟨hn, hndeaf, hnbetween⟩
      | raise u new =>
        rw [hmove] at hdeaf'
        refine Or.inl ⟨hn.others (fun _ _ hmove => by cases hmove), hdeaf', ?_⟩
        exact between_of_raise hnbetween u new
      | ring u =>
        rw [hmove] at hdeaf'
        have hat : L.At request .waiting (L.step (L.trace s₀ schedule n) (.ring u)) :=
          hn.others fun _ _ hmove => by cases hmove
        rcases between_of_ring hndeaf hnbetween u with hstill | hrung
        · exact Or.inl ⟨hat, hdeaf', hstill⟩
        · exact Or.inr (Or.inr ⟨hat, hdeaf', hrung⟩)
      | other => exact Or.inl ⟨hn, hndeaf, hnbetween⟩
    · rintro n ⟨hn, hndeaf, hnbetween⟩ hmove
      simp only [trace, hmove]
      refine Or.inr ⟨hn.others (fun _ _ hmove => by cases hmove), (deaf_step _ _).trans hndeaf, ?_⟩
      simp only [step, hnbetween]
      exact L.ringing_ring _ hndeaf
  obtain ⟨m, hnm, hends | ⟨hm, hmdeaf, hringing⟩⟩ := hturn
  · exact ⟨m, hnm, hends⟩
  · obtain ⟨m', hmm', hwoken⟩ := waits_ringing hserves hm hmdeaf hringing
    exact ⟨m', Nat.le_trans hnm hmm', Or.inl hwoken⟩

theorem Told.trace {s₀ : System σ ρ ι} (h : L.Told s₀) (schedule : ℕ → Move ρ ι) (n : ℕ) :
    L.Told (L.trace s₀ schedule n) := by
  rw [trace_eq_run]
  exact h.run _

/-- What is worked for is done. -/
theorem done_of_batch {s₀ : System σ ρ ι} (h₀ : L.Told s₀) (hserves : Serves schedule) {n : ℕ}
    (h : request ∈ (L.trace s₀ schedule n).batch) :
    let s := L.trace s₀ schedule
    ∃ m timedOut input, n ≤ m ∧ schedule m = .serve timedOut input ∧ request ∈ (s m).batch ∧
      (∃ answered, (s m).server = .working answered) ∧
      (s (m + 1)).done = (s m).done ++ [((s m).batch, input)] := by
  intro s
  have hwork : ∀ k timedOut input, request ∈ (s k).batch → schedule k = .serve timedOut input →
      (∃ answered, (s k).server = .working answered) ∧
      (s (k + 1)).done = (s k).done ++ [((s k).batch, input)] := by
    intro k timedOut input hk hmove
    obtain ⟨answered, hserver⟩ := (h₀.trace schedule k).batch.mp (List.ne_nil_of_mem hk)
    refine ⟨⟨answered, hserver⟩, ?_⟩
    show (L.step (s k) (schedule k)).done = _
    rw [hmove]
    simp only [step, Latch.serve, hserver, s]
  have hfound : ∃ k, n ≤ k ∧ ∃ m timedOut input, n ≤ m ∧ schedule m = .serve timedOut input ∧
      request ∈ (s m).batch := by
    apply Doorbell.leads_to (P := fun k => n ≤ k ∧ request ∈ (s k).batch) hserves ?_ ?_
      ⟨Nat.le_refl n, h⟩
    · rintro k ⟨hnk, hk⟩
      have hstays : (∀ timedOut input, schedule k ≠ .serve timedOut input) →
          n ≤ k + 1 ∧ request ∈ (s (k + 1)).batch := by
        intro hmove
        refine ⟨Nat.le_succ_of_le hnk, ?_⟩
        rw [show (s (k + 1)).batch = (s k).batch from (step_others (L := L) (s k) hmove).2.1]
        exact hk
      cases hmove : schedule k with
      | serve timedOut input => exact Or.inr ⟨k, timedOut, input, hnk, hmove, hk⟩
      | raise t new => exact Or.inl (hstays fun _ _ hother => by rw [hmove] at hother; cases hother)
      | ring t => exact Or.inl (hstays fun _ _ hother => by rw [hmove] at hother; cases hother)
      | other => exact Or.inl (hstays fun _ _ hother => by rw [hmove] at hother; cases hother)
    · rintro k ⟨hnk, hk⟩ ⟨timedOut, input, hmove⟩
      exact ⟨k, timedOut, input, hnk, hmove, hk⟩
  obtain ⟨-, -, m, timedOut, input, hnm, hmove, hm⟩ := hfound
  obtain ⟨hserver, hdone⟩ := hwork m timedOut input hm hmove
  exact ⟨m, timedOut, input, hnm, hmove, hm, hserver, hdone⟩

end turns

theorem raisers_length (s : System σ ρ ι) (move : Move ρ ι) :
    (L.step s move).raisers.length = s.raisers.length := by
  cases move with
  | raise t new =>
    simp only [step]
    split
    · exact List.length_set
    · rfl
  | ring t =>
    simp only [step]
    split
    · exact List.length_set
    · rfl
  | serve timedOut input =>
    simp only [step, Latch.serve, Latch.test]
    split
    · split
      · rfl
      · split
        · rfl
        · rfl
    · rfl
    · split
      · rfl
      · rfl
    · split
      · rfl
      · rfl
    · rfl
  | other => rfl

/-- Every pending request is answered by work that begins later: when no wait is without end, or
when the bell is heard and whoever raises the flag goes on to ring it. -/
theorem done_of_pending {state : σ} (hraised : L.raised state = false) {raisers : ℕ}
    {schedule : ℕ → Move ρ ι} {request : ρ}
    (hends : TimesOut schedule ∨
      L.deaf state = false ∧ Serves schedule ∧ Rings raisers schedule) (n : ℕ) :
    let s := L.trace (start state raisers) schedule
    request ∈ (s n).pending → ∃ m timedOut input, n ≤ m ∧ schedule m = .serve timedOut input ∧
      request ∈ (s m).batch ∧ (∃ answered, (s m).server = .working answered) ∧
      (s (m + 1)).done = (s m).done ++ [((s m).batch, input)] := by
  intro s hpending
  have h₀ : L.Told (start state raisers : System σ ρ ι) := told_start hraised raisers
  have hserves : Serves schedule := by
    rcases hends with htimes | ⟨-, hserves, -⟩
    · exact htimes.serves
    · exact hserves
  have hwaits : ∀ n, L.At request .waiting (s n) →
      ∃ m, n ≤ m ∧ (L.At request .woken (s m) ∨ L.At request .checking (s m)) := by
    intro n hn
    rcases hends with htimes | ⟨hdeaf, -, hrings⟩
    · exact waits_timedOut htimes hn
    · have hkept : ∀ k, L.deaf (s k).state = false ∧ (s k).raisers.length = raisers := by
        intro k
        induction k with
        | zero => exact ⟨hdeaf, List.length_replicate⟩
        | succ k ih =>
          exact ⟨(deaf_step _ _).trans ih.1, (raisers_length _ _).trans ih.2⟩
      obtain ⟨htold, hleft, hserver⟩ := hn
      rcases htold.announced (hkept n).1 (List.ne_nil_of_mem hleft) with hringing | hbetween | hans
      · obtain ⟨m, hnm, hm⟩ := waits_ringing hserves ⟨htold, hleft, hserver⟩ (hkept n).1 hringing
        exact ⟨m, hnm, Or.inl hm⟩
      · obtain ⟨t, ht⟩ := List.mem_iff_getElem?.mp hbetween
        have hlt := (List.getElem?_eq_some_iff.mp ht).1
        exact waits_between hserves hrings (by rw [← (hkept n).2]; exact hlt)
          ⟨htold, hleft, hserver⟩ (hkept n).1 ht
      · rw [hserver] at hans
        cases hans
  obtain ⟨m, hnm, hbatch⟩ := batch_of_pending hserves hwaits (h₀.trace schedule n) hpending
  obtain ⟨m', timedOut, input, hmm', hdone⟩ := done_of_batch h₀ hserves hbatch
  exact ⟨m', timedOut, input, Nat.le_trans hnm hmm', hdone⟩

end Latch
end Concurrent
