import Mathlib.Data.List.Basic

/-!
# Events without effect

A machine takes events and answers each of them. Some events are not allowed where they come; if
each of these leaves the state as it is, they can be struck out of a run: what is allowed still
finds the same states and gets the same answers (`behind_purge`, `answers_purge`).
-/

namespace Isolation
variable {σ ε ω : Type*} (step : σ → ε → σ × ω) (allowed : σ → ε → Prop)

/-- The state behind a run. -/
def behind (s : σ) (events : List ε) : σ := events.foldl (fun s e => (step s e).1) s

/-- What the events of a run are answered. -/
def answers : σ → List ε → List ω
  | _, [] => []
  | s, e :: events => (step s e).2 :: answers (step s e).1 events

variable [∀ s e, Decidable (allowed s e)]

/-- The events of a run that are allowed where they come. -/
def purge : σ → List ε → List ε
  | _, [] => []
  | s, e :: events =>
    if allowed s e then e :: purge (step s e).1 events else purge (step s e).1 events

/-- What those are answered in the run with all events. -/
def answered : σ → List ε → List ω
  | _, [] => []
  | s, e :: events =>
    if allowed s e then (step s e).2 :: answered (step s e).1 events
    else answered (step s e).1 events

variable {step allowed}

theorem behind_cons (s : σ) (e : ε) (events : List ε) :
    behind step s (e :: events) = behind step (step s e).1 events := rfl

theorem behind_purge (hkept : ∀ s e, ¬allowed s e → (step s e).1 = s) (s : σ) (events : List ε) :
    behind step s (purge step allowed s events) = behind step s events := by
  induction events generalizing s with
  | nil => rfl
  | cons e events ih =>
    by_cases h : allowed s e
    · rw [purge, if_pos h, behind_cons, behind_cons]
      exact ih (step s e).1
    · rw [purge, if_neg h, behind_cons, hkept s e h]
      exact ih s

theorem answers_purge (hkept : ∀ s e, ¬allowed s e → (step s e).1 = s) (s : σ) (events : List ε) :
    answers step s (purge step allowed s events) = answered step allowed s events := by
  induction events generalizing s with
  | nil => rfl
  | cons e events ih =>
    by_cases h : allowed s e
    · rw [purge, answered, if_pos h, if_pos h, answers]
      exact congrArg _ (ih (step s e).1)
    · rw [purge, answered, if_neg h, if_neg h, hkept s e h]
      exact ih s

end Isolation
