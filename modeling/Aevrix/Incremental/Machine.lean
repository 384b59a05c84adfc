import Mathlib.Data.List.Infix
import Mathlib.Order.Basic

/-!
# Resumable machines

A machine reads a buffer of symbols from the left, one step at a time. A step
looks at a front of the buffer only, so a step that is possible stays the same
step when more symbols arrive (`resumes`). Everything an incremental parser has
to do with the cuts in its input follows from that one field: draining a
concatenation is draining the first part and resuming with what it left
(`drain_append`), and a driver that drains after every piece ends where one
drain of the whole input ends (`Guard.run_eq_drain`).
-/

namespace Incremental

structure Machine (σ β : Type*) where
  step : σ → List β → Option (σ × List β)
  /-- Bound on the number of steps still possible. -/
  fuel : σ → List β → ℕ
  descends : ∀ {s u s' u'}, step s u = some (s', u') → fuel s' u' < fuel s u
  consumes : ∀ {s u s' u'}, step s u = some (s', u') → u' <:+ u
  resumes : ∀ {s u s' u'} (x : List β), step s u = some (s', u') →
    step s (u ++ x) = some (s', u' ++ x)

namespace Machine
variable {σ β : Type*} (M : Machine σ β)

def runFor : ℕ → σ → List β → σ × List β
  | 0, s, u => (s, u)
  | n + 1, s, u => match M.step s u with
    | none => (s, u)
    | some (s', u') => runFor n s' u'

/-- Steps until none is possible; the second component is what is left over. -/
def drain (s : σ) (u : List β) : σ × List β := M.runFor (M.fuel s u) s u

/-- Every configuration of that run, the first and the last included. -/
def visitedFor : ℕ → σ → List β → List (σ × List β)
  | 0, s, u => [(s, u)]
  | n + 1, s, u => (s, u) :: match M.step s u with
    | none => []
    | some (s', u') => visitedFor n s' u'

def visited (s : σ) (u : List β) : List (σ × List β) := M.visitedFor (M.fuel s u) s u

variable {M} {s s' : σ} {u u' : List β}

theorem run_induction {motive : σ → List β → Prop}
    (blocked : ∀ s u, M.step s u = none → motive s u)
    (progress : ∀ s u s' u', M.step s u = some (s', u') → motive s' u' → motive s u)
    (s : σ) (u : List β) : motive s u := by
  induction hn : M.fuel s u using Nat.strongRecOn generalizing s u with
  | _ n ih =>
    cases hs : M.step s u with
    | none => exact blocked s u hs
    | some p => exact progress s u p.1 p.2 hs (ih _ (hn ▸ M.descends hs) p.1 p.2 rfl)

theorem runFor_enough (n : ℕ) (s : σ) (u : List β) (hn : M.fuel s u ≤ n) :
    M.runFor n s u = M.drain s u := by
  have key : ∀ m n s u, M.fuel s u ≤ m → M.fuel s u ≤ n → M.runFor m s u = M.runFor n s u := by
    intro m
    induction m with
    | zero =>
      intro n s u hm _
      cases n with
      | zero => rfl
      | succ n =>
        cases hs : M.step s u with
        | none => simp only [runFor, hs]
        | some p =>
          have hd := M.descends hs
          omega
    | succ m ih =>
      intro n s u hm hn
      cases hs : M.step s u with
      | none => cases n <;> simp only [runFor, hs]
      | some p =>
        have hd := M.descends hs
        cases n with
        | zero => omega
        | succ n =>
          simp only [runFor, hs]
          exact ih n p.1 p.2 (by omega) (by omega)
  exact key n _ s u hn le_rfl

theorem drain_none (h : M.step s u = none) : M.drain s u = (s, u) := by
  unfold drain
  cases M.fuel s u <;> simp only [runFor, h]

theorem drain_some (h : M.step s u = some (s', u')) : M.drain s u = M.drain s' u' := by
  have hd := M.descends h
  rw [← runFor_enough (M.fuel s u + 1) s u (by omega)]
  simp only [runFor, h]
  exact runFor_enough _ s' u' (by omega)

theorem step_drain (s : σ) (u : List β) : M.step (M.drain s u).1 (M.drain s u).2 = none := by
  induction s, u using run_induction (M := M) with
  | blocked s u h => rw [drain_none h]; exact h
  | progress s u s' u' h ih => rw [drain_some h]; exact ih

theorem drain_suffix (s : σ) (u : List β) : (M.drain s u).2 <:+ u := by
  induction s, u using run_induction (M := M) with
  | blocked s u h => rw [drain_none h]
  | progress s u s' u' h ih => rw [drain_some h]; exact ih.trans (M.consumes h)

theorem drain_append (s : σ) (u x : List β) :
    M.drain s (u ++ x) = M.drain (M.drain s u).1 ((M.drain s u).2 ++ x) := by
  induction s, u using run_induction (M := M) with
  | blocked s u h => rw [drain_none h]
  | progress s u s' u' h ih => rw [drain_some h, drain_some (M.resumes x h)]; exact ih

theorem drain_preserves {P : σ → List β → Prop}
    (hstep : ∀ s u s' u', P s u → M.step s u = some (s', u') → P s' u')
    (s : σ) (u : List β) (h : P s u) : P (M.drain s u).1 (M.drain s u).2 := by
  induction s, u using run_induction (M := M) with
  | blocked s u hb => rw [drain_none hb]; exact h
  | progress s u s' u' hs ih => rw [drain_some hs]; exact ih (hstep s u s' u' h hs)

theorem visited_none (h : M.step s u = none) : M.visited s u = [(s, u)] := by
  unfold visited
  cases M.fuel s u <;> simp only [visitedFor, h]

theorem visitedFor_enough (n : ℕ) (s : σ) (u : List β) (hn : M.fuel s u ≤ n) :
    M.visitedFor n s u = M.visited s u := by
  have key : ∀ m n s u, M.fuel s u ≤ m → M.fuel s u ≤ n →
      M.visitedFor m s u = M.visitedFor n s u := by
    intro m
    induction m with
    | zero =>
      intro n s u hm _
      cases n with
      | zero => rfl
      | succ n =>
        cases hs : M.step s u with
        | none => simp only [visitedFor, hs]
        | some p =>
          have hd := M.descends hs
          omega
    | succ m ih =>
      intro n s u hm hn
      cases hs : M.step s u with
      | none => cases n <;> simp only [visitedFor, hs]
      | some p =>
        have hd := M.descends hs
        cases n with
        | zero => omega
        | succ n =>
          simp only [visitedFor, hs]
          rw [ih n p.1 p.2 (by omega) (by omega)]
  exact key n _ s u hn le_rfl

theorem visited_some (h : M.step s u = some (s', u')) :
    M.visited s u = (s, u) :: M.visited s' u' := by
  have hd := M.descends h
  rw [← visitedFor_enough (M.fuel s u + 1) s u (by omega)]
  simp only [visitedFor, h]
  rw [visitedFor_enough _ s' u' (by omega)]

theorem mem_visited_self (s : σ) (u : List β) : (s, u) ∈ M.visited s u := by
  cases h : M.step s u with
  | none => rw [visited_none h]; exact List.mem_singleton_self _
  | some p => rw [visited_some h]; exact List.mem_cons_self ..

theorem drain_mem_visited (s : σ) (u : List β) : M.drain s u ∈ M.visited s u := by
  induction s, u using run_induction (M := M) with
  | blocked s u h => rw [drain_none h]; exact mem_visited_self s u
  | progress s u s' u' h ih => rw [drain_some h, visited_some h]; exact List.mem_cons_of_mem _ ih

theorem visited_drain_subset (s : σ) (u x : List β) :
    M.visited (M.drain s u).1 ((M.drain s u).2 ++ x) ⊆ M.visited s (u ++ x) := by
  induction s, u using run_induction (M := M) with
  | blocked s u h =>
    rw [drain_none h]
    exact List.Subset.refl _
  | progress s u s' u' h ih =>
    rw [drain_some h, visited_some (M.resumes x h)]
    exact List.Subset.trans ih (List.subset_cons_self ..)

/-- What is visited in `u` is visited at the same places when `x` follows `u`. -/
theorem visited_append (s : σ) (u x : List β) :
    ∀ y ∈ M.visited s u, (y.1, y.2 ++ x) ∈ M.visited s (u ++ x) := by
  induction s, u using run_induction (M := M) with
  | blocked s u h =>
    intro y hy
    rw [visited_none h, List.mem_singleton] at hy
    rw [hy]
    exact mem_visited_self s (u ++ x)
  | progress s u s' u' h ih =>
    intro y hy
    rw [visited_some h, List.mem_cons] at hy
    rw [visited_some (M.resumes x h), List.mem_cons]
    rcases hy with rfl | hy
    · exact Or.inl rfl
    · exact Or.inr (ih y hy)

theorem drain_append_dead {s : σ} {u : List β} (x : List β)
    (h : ∀ w, M.step (M.drain s u).1 w = none) :
    M.drain s (u ++ x) = ((M.drain s u).1, (M.drain s u).2 ++ x) := by
  rw [drain_append, drain_none (h _)]

/-- A step looks at nothing behind what it consumes. -/
def Exact (M : Machine σ β) : Prop := ∀ {s u s' u'}, M.step s u = some (s', u') →
  ∃ w, u = w ++ u' ∧ M.step s w = some (s', [])

theorem Exact.drain_front (hM : M.Exact) (s : σ) (u : List β) :
    ∃ w, u = w ++ (M.drain s u).2 ∧ M.drain s w = M.drain (M.drain s u).1 [] := by
  induction s, u using run_induction (M := M) with
  | blocked s u h =>
    rw [drain_none h]
    exact ⟨[], rfl, rfl⟩
  | progress s u s' u' h ih =>
    obtain ⟨v, hv, hstep⟩ := hM h
    obtain ⟨w, hw, hdrain⟩ := ih
    have hnext := M.resumes w hstep
    rw [List.nil_append] at hnext
    rw [drain_some h]
    exact ⟨v ++ w, by rw [List.append_assoc, ← hw, ← hv], by rw [drain_some hnext, hdrain]⟩

/-- Steps from one configuration to another, each taken where `P` holds. -/
inductive Path (M : Machine σ β) (P : σ → List β → Prop) : σ → List β → σ → List β → Prop
  | refl (s : σ) (u : List β) : Path M P s u s u
  | step {s s₁ s₂ : σ} {u u₁ u₂ : List β} (hP : P s u) (h : M.step s u = some (s₁, u₁))
      (rest : Path M P s₁ u₁ s₂ u₂) : Path M P s u s₂ u₂

namespace Path
variable {P : σ → List β → Prop} {s₁ s₂ s₃ : σ} {u₁ u₂ u₃ : List β}

theorem single (hP : P s₁ u₁) (h : M.step s₁ u₁ = some (s₂, u₂)) : Path M P s₁ u₁ s₂ u₂ :=
  step hP h (refl s₂ u₂)

theorem trans (h : Path M P s₁ u₁ s₂ u₂) (k : Path M P s₂ u₂ s₃ u₃) : Path M P s₁ u₁ s₃ u₃ := by
  induction h with
  | refl s u => exact k
  | step hP hs _ ih => exact step hP hs (ih k)

theorem mono {Q : σ → List β → Prop} (hPQ : ∀ s u, P s u → Q s u) (h : Path M P s₁ u₁ s₂ u₂) :
    Path M Q s₁ u₁ s₂ u₂ := by
  induction h with
  | refl s u => exact refl s u
  | step hP hs _ ih => exact step (hPQ _ _ hP) hs ih

theorem drain_eq (h : Path M P s₁ u₁ s₂ u₂) : M.drain s₁ u₁ = M.drain s₂ u₂ := by
  induction h with
  | refl s u => rfl
  | step _ hs _ ih => rw [drain_some hs, ih]

theorem forall_visited (h : Path M P s₁ u₁ s₂ u₂) (hend : ∀ y ∈ M.visited s₂ u₂, P y.1 y.2) :
    ∀ y ∈ M.visited s₁ u₁, P y.1 y.2 := by
  induction h with
  | refl s u => exact hend
  | step hP hs _ ih =>
    rw [visited_some hs]
    exact List.forall_mem_cons.mpr ⟨hP, ih hend⟩

end Path
end Machine

/-! ### Drivers with limits -/

/-- What a driver adds to a machine: it may refuse a piece (`refuses`, ending in
`bounce`), and it gives up on a front that stays blocked beyond a limit (`exceeds`,
ending in `trip`). Both ends are final. -/
structure Guard {σ β : Type*} (M : Machine σ β) where
  refuses : σ → List β → List β → Bool
  bounce : σ → σ
  exceeds : σ → List β → Bool
  trip : σ → σ
  final : σ → Prop
  bounce_final : ∀ s, final (bounce s)
  trip_final : ∀ s, final (trip s)
  final_step : ∀ {s} u, final s → M.step s u = none
  final_exceeds : ∀ {s} u, final s → exceeds s u = false
  final_refuses : ∀ {s} u d, final s → refuses s u d = false

namespace Guard
variable {σ β : Type*} {M : Machine σ β} (g : Guard M)

def settle (x : σ × List β) : σ × List β := if g.exceeds x.1 x.2 then (g.trip x.1, x.2) else x

def feed (x : σ × List β) (d : List β) : σ × List β :=
  if g.refuses x.1 x.2 d then (g.bounce x.1, x.2) else g.settle (M.drain x.1 (x.2 ++ d))

def run (x : σ × List β) (ds : List (List β)) : σ × List β := ds.foldl g.feed x

theorem feed_of_final {x : σ × List β} (h : g.final x.1) (d : List β) :
    g.feed x d = (x.1, x.2 ++ d) := by
  simp only [feed, settle, g.final_refuses _ _ h, Machine.drain_none (g.final_step _ h),
    g.final_exceeds _ h, Bool.false_eq_true, if_false]

/-- Either no limit was met, and the pieces were one drain of their concatenation,
or the run came to one of the ends the driver adds. -/
theorem run_cases {E : σ → Prop} (hb : ∀ s, E (g.bounce s)) (ht : ∀ s, E (g.trip s))
    (hE : ∀ s, E s → g.final s) (x : σ × List β) (hx : M.step x.1 x.2 = none)
    (ds : List (List β)) : g.run x ds = M.drain x.1 (x.2 ++ ds.flatten) ∨ E (g.run x ds).1 := by
  have hstay : ∀ (y : σ × List β) (es : List (List β)), E y.1 → E (g.run y es).1 := by
    intro y es
    induction es generalizing y with
    | nil => exact id
    | cons e es ih =>
      intro hy
      refine ih (g.feed y e) ?_
      rw [g.feed_of_final (hE _ hy)]
      exact hy
  induction ds generalizing x with
  | nil =>
    left
    rw [List.flatten_nil, List.append_nil, Machine.drain_none hx]
    rfl
  | cons d ds ih =>
    by_cases hr : g.refuses x.1 x.2 d = true
    · right
      refine hstay (g.feed x d) ds ?_
      simp only [feed, hr, if_true]
      exact hb _
    · by_cases ho : g.exceeds (M.drain x.1 (x.2 ++ d)).1 (M.drain x.1 (x.2 ++ d)).2 = true
      · right
        refine hstay (g.feed x d) ds ?_
        simp only [feed, hr, settle, ho, if_true]
        exact ht _
      · have hf : g.feed x d = M.drain x.1 (x.2 ++ d) := by simp [feed, hr, settle, ho]
        have hrun : g.run x (d :: ds) = g.run (M.drain x.1 (x.2 ++ d)) ds := by
          rw [← hf]
          rfl
        rw [hrun, List.flatten_cons, ← List.append_assoc, Machine.drain_append _ (x.2 ++ d)]
        exact ih _ (Machine.step_drain _ _)

/-- Nothing is left to do before the next piece. -/
def Settled (x : σ × List β) : Prop := M.step x.1 x.2 = none ∧ g.exceeds x.1 x.2 = false

theorem settled_of_final {s : σ} (u : List β) (h : g.final s) : g.Settled (s, u) :=
  ⟨g.final_step u h, g.final_exceeds u h⟩

theorem settle_settled (s : σ) (u : List β) : g.Settled (g.settle (M.drain s u)) := by
  unfold settle
  split
  · exact g.settled_of_final _ (g.trip_final _)
  · rename_i ho
    exact ⟨Machine.step_drain s u, by simpa using ho⟩

theorem feed_settled (x : σ × List β) (d : List β) : g.Settled (g.feed x d) := by
  unfold feed
  split
  · exact g.settled_of_final _ (g.bounce_final _)
  · exact g.settle_settled _ _

theorem run_preserves {P : σ → Prop} (hstep : ∀ s u s' u', P s → M.step s u = some (s', u') → P s')
    (hbounce : ∀ s, P s → P (g.bounce s)) (htrip : ∀ s, P s → P (g.trip s)) {x : σ × List β}
    (hx : P x.1) (ds : List (List β)) : P (g.run x ds).1 := by
  induction ds generalizing x with
  | nil => exact hx
  | cons d ds ih =>
    refine ih (x := g.feed x d) ?_
    have hdrain := Machine.drain_preserves (M := M) (P := fun s _ => P s) hstep x.1 (x.2 ++ d) hx
    unfold feed settle
    split
    · exact hbounce _ hx
    · split
      · exact htrip _ hdrain
      · exact hdrain

theorem run_length_le (x : σ × List β) (ds : List (List β)) :
    (g.run x ds).2.length ≤ x.2.length + ds.flatten.length := by
  induction ds generalizing x with
  | nil => simp [run]
  | cons d ds ih =>
    have hrun := ih (g.feed x d)
    have hdrain := (Machine.drain_suffix (M := M) x.1 (x.2 ++ d)).length_le
    have hfeed : (g.feed x d).2.length ≤ x.2.length + d.length := by
      rw [List.length_append] at hdrain
      unfold feed settle
      split
      · exact Nat.le_add_right ..
      · split <;> exact hdrain
    rw [List.flatten_cons, List.length_append]
    exact hrun.trans (by omega)

theorem feed_nil {x : σ × List β} (hx : g.Settled x) (hr : g.refuses x.1 x.2 [] = false) :
    g.feed x [] = x := by
  simp only [feed, hr, settle, List.append_nil, Machine.drain_none hx.1, hx.2, Bool.false_eq_true,
    if_false]

/-- No blocked front of the whole input, cut anywhere, is over a limit. -/
def Calm (s : σ) (u : List β) : Prop :=
  ∀ y ∈ M.visited s u, ∀ v, v <+: y.2 → M.step y.1 v = none → g.exceeds y.1 v = false

/-- No piece of this cut is refused when it arrives. -/
def Admitted (x : σ × List β) (ds : List (List β)) : Prop :=
  ∀ pre d post, ds = pre ++ d :: post → g.refuses (g.run x pre).1 (g.run x pre).2 d = false

theorem Admitted.tail {x : σ × List β} {d : List β} {ds : List (List β)}
    (h : g.Admitted x (d :: ds)) : g.Admitted (g.feed x d) ds := by
  intro pre e post he
  exact h (d :: pre) e post (by rw [he, List.cons_append])

theorem Calm.resume {s : σ} {u x : List β} (h : g.Calm s (u ++ x)) :
    g.Calm (M.drain s u).1 ((M.drain s u).2 ++ x) :=
  fun y hy => h y (Machine.visited_drain_subset s u x hy)

theorem Calm.of_append {s : σ} {u x : List β} (h : g.Calm s (u ++ x)) : g.Calm s u :=
  fun y hy v hv hb =>
    h _ (Machine.visited_append s u x y hy) v (hv.trans (List.prefix_append ..)) hb

/-- Where no blocked front is over a limit the driver stops where the machine does. -/
theorem settle_of_calm {s : σ} {u : List β} (h : g.Calm s u) :
    g.settle (M.drain s u) = M.drain s u := by
  rw [← List.append_nil u] at h
  have ho := Calm.resume g h _ (Machine.mem_visited_self ..) _ (List.prefix_append ..)
    (Machine.step_drain s u)
  simp only [settle, ho, Bool.false_eq_true, if_false]

/-- **Segmentation independence.** Within its limits a driver ends where one drain
of the whole input ends, however the input is cut. -/
theorem run_eq_drain (x : σ × List β) (hx : M.step x.1 x.2 = none) (ds : List (List β))
    (ha : g.Admitted x ds) (hc : g.Calm x.1 (x.2 ++ ds.flatten)) :
    g.run x ds = M.drain x.1 (x.2 ++ ds.flatten) := by
  induction ds generalizing x with
  | nil =>
    rw [List.flatten_nil, List.append_nil, Machine.drain_none hx]
    rfl
  | cons d ds ih =>
    rw [List.flatten_cons, ← List.append_assoc] at hc ⊢
    have hr : g.refuses x.1 x.2 d = false := ha [] d ds rfl
    have hf : g.feed x d = M.drain x.1 (x.2 ++ d) := by
      simp only [feed, hr, Bool.false_eq_true, if_false, g.settle_of_calm (Calm.of_append g hc)]
    have htail := Admitted.tail g ha
    rw [hf] at htail
    have hrun : g.run x (d :: ds) = g.run (M.drain x.1 (x.2 ++ d)) ds := by
      rw [← hf]
      rfl
    rw [hrun, Machine.drain_append _ (x.2 ++ d)]
    exact ih _ (Machine.step_drain _ _) htail (Calm.resume g hc)

/-! ### The ends of the pieces -/

section ends
variable {x : σ × List β}

/-- The machine drained of the first `n` pieces. -/
def drainedAt (_ : Guard M) (x : σ × List β) (ds : List (List β)) (n : ℕ) : σ × List β :=
  M.drain x.1 (x.2 ++ (ds.take n).flatten)

theorem drainedAt_zero (hx : M.step x.1 x.2 = none) (ds : List (List β)) :
    g.drainedAt x ds 0 = x := by
  rw [drainedAt, List.take_zero, List.flatten_nil, List.append_nil, Machine.drain_none hx]

theorem drainedAt_succ (d : List β) (ds : List (List β)) (n : ℕ) :
    g.drainedAt x (d :: ds) (n + 1) = g.drainedAt (M.drain x.1 (x.2 ++ d)) ds n := by
  rw [drainedAt, drainedAt, List.take_succ_cons, List.flatten_cons, ← List.append_assoc,
    Machine.drain_append _ (x.2 ++ d)]

theorem run_of_final (h : g.final x.1) (ds : List (List β)) : g.final (g.run x ds).1 := by
  induction ds generalizing x with
  | nil => exact h
  | cons d ds ih =>
    refine ih (x := g.feed x d) ?_
    rw [g.feed_of_final h]
    exact h

/-- A driver that refuses no piece gives up where a piece ends over a limit, and nowhere else. -/
theorem run_cuts (hr : ∀ s u d, g.refuses s u d = false) (hx : g.Settled x)
    (ds : List (List β)) :
    (∀ n, g.exceeds (g.drainedAt x ds n).1 (g.drainedAt x ds n).2 = false) ∧
      g.run x ds = M.drain x.1 (x.2 ++ ds.flatten) ∨
    (∃ n, g.exceeds (g.drainedAt x ds n).1 (g.drainedAt x ds n).2 = true) ∧
      g.final (g.run x ds).1 := by
  induction ds generalizing x with
  | nil =>
    have hstart (n : ℕ) : g.drainedAt x [] n = x := by
      rw [drainedAt, List.take_nil, List.flatten_nil, List.append_nil, Machine.drain_none hx.1]
    refine Or.inl ⟨fun n => by rw [hstart]; exact hx.2, ?_⟩
    rw [List.flatten_nil, List.append_nil, Machine.drain_none hx.1]
    rfl
  | cons d ds ih =>
    have hfeed : g.feed x d = g.settle (M.drain x.1 (x.2 ++ d)) := by
      rw [feed, hr, if_neg Bool.false_ne_true]
    have hblocked := Machine.step_drain (M := M) x.1 (x.2 ++ d)
    cases hover : g.exceeds (M.drain x.1 (x.2 ++ d)).1 (M.drain x.1 (x.2 ++ d)).2 with
    | true =>
      refine Or.inr ⟨⟨1, ?_⟩, g.run_of_final (x := g.feed x d) ?_ ds⟩
      · rw [drainedAt_succ, drainedAt_zero g hblocked, hover]
      · rw [hfeed, settle, if_pos hover]
        exact g.trip_final _
    | false =>
      have hrun : g.run x (d :: ds) = g.run (M.drain x.1 (x.2 ++ d)) ds := by
        rw [run, List.foldl_cons, hfeed, settle, hover, if_neg Bool.false_ne_true]
        rfl
      rw [hrun]
      rcases ih ⟨hblocked, hover⟩ with ⟨hpassed, hdrain⟩ | ⟨⟨n, hn⟩, hfinal⟩
      · refine Or.inl ⟨fun n => ?_, ?_⟩
        · cases n with
          | zero => rw [drainedAt_zero g hx.1]; exact hx.2
          | succ n => rw [drainedAt_succ]; exact hpassed n
        · rw [hdrain, List.flatten_cons, ← List.append_assoc, Machine.drain_append _ (x.2 ++ d)]
      · exact Or.inr ⟨⟨n + 1, by rw [drainedAt_succ]; exact hn⟩, hfinal⟩

end ends

end Guard
end Incremental
