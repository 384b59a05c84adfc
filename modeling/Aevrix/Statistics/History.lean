import Mathlib.Data.Int.ModEq
import Mathlib.Data.List.DropRight
import Mathlib.Algebra.Order.Ring.Int

/-!
# Values that start again

A value that each event changes and that a reset sets back is what the events since the last
reset make of its first value (`value_run`).
-/

namespace Statistics
variable {σ ε β : Type*}

/-- The events behind the last reset. -/
def since (isReset : ε → Bool) (events : List ε) : List ε := events.rtakeWhile fun e => !isReset e

theorem value_run (step : σ → ε → σ) (value : σ → β) (isReset : ε → Bool) (f : β → ε → β) {s : σ}
    (hreset : ∀ t e, isReset e = true → value (step t e) = value s)
    (hstep : ∀ t e, isReset e = false → value (step t e) = f (value t) e) (events : List ε) :
    value (events.foldl step s) = (since isReset events).foldl f (value s) := by
  induction events using List.reverseRecOn with
  | nil => rfl
  | append_singleton events e ih =>
    rw [List.foldl_append, List.foldl_cons, List.foldl_nil]
    cases he : isReset e with
    | true =>
      rw [hreset _ e he, since, List.rtakeWhile_concat_neg _ _ _ (by simp [he])]
      rfl
    | false =>
      rw [hstep _ e he, ih, since, since, List.rtakeWhile_concat_pos _ _ _ (by simp [he]),
        List.foldl_append]
      rfl

/-- A counter that wraps is the sum of what was added, modulo its range. -/
theorem foldl_wrap (m : ℤ) (delta : ε → ℤ) (events : List ε) (v : ℤ) :
    events.foldl (fun v e => (v + delta e) % m) (v % m) = (v + (events.map delta).sum) % m := by
  induction events generalizing v with
  | nil => rw [List.foldl_nil, List.map_nil, List.sum_nil, add_zero]
  | cons e events ih =>
    rw [List.foldl_cons, Int.emod_add_emod, ih, List.map_cons, List.sum_cons, add_assoc]

end Statistics
