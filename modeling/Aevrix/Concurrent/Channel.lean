import Mathlib.Data.List.Basic

/-!
# Bounded channels

A channel as its users see it, a sequence of events: values are put in while it is open and has
room, taken out from the front, and after it is closed every put is refused and a take reports
the end once nothing is left. `Step` says what each event does, and the laws are about every
sequence of steps.
-/

namespace Concurrent.Channel
variable {α : Type*}

inductive Event (α : Type*) where
  | accepted (value : α)
  | refused (value : α)
  | taken (value : α)
  | ended
  | closed

/-- The values put in, in their order. -/
def accepted (events : List (Event α)) : List α := events.filterMap fun
  | .accepted value => some value
  | _ => none

/-- The values taken out, in their order. -/
def taken (events : List (Event α)) : List α := events.filterMap fun
  | .taken value => some value
  | _ => none

@[simp] theorem accepted_append (e e' : List (Event α)) :
    accepted (e ++ e') = accepted e ++ accepted e' := List.filterMap_append

@[simp] theorem taken_append (e e' : List (Event α)) :
    taken (e ++ e') = taken e ++ taken e' := List.filterMap_append

/-- What a channel holds, and whether it is closed. -/
structure State (α : Type*) where
  held : List α
  closed : Bool

/-- One event of a channel with room for `capacity` values. -/
inductive Step (capacity : ℕ) : State α → Event α → State α → Prop where
  | accept {held : List α} (value : α) : held.length < capacity →
    Step capacity ⟨held, false⟩ (.accepted value) ⟨held ++ [value], false⟩
  | refuse {held : List α} (value : α) : Step capacity ⟨held, true⟩ (.refused value) ⟨held, true⟩
  | take {held : List α} {closed : Bool} (value : α) :
    Step capacity ⟨value :: held, closed⟩ (.taken value) ⟨held, closed⟩
  | finish : Step capacity ⟨[], true⟩ .ended ⟨[], true⟩
  | close {held : List α} {closed : Bool} :
    Step capacity ⟨held, closed⟩ .closed ⟨held, true⟩

/-- Events one after the other. -/
inductive Legal (capacity : ℕ) : State α → List (Event α) → State α → Prop where
  | nil (s : State α) : Legal capacity s [] s
  | cons {s s' s'' : State α} {event : Event α} {events : List (Event α)} :
    Step capacity s event s' → Legal capacity s' events s'' → Legal capacity s (event :: events) s''

/-- Nothing in it, and open. -/
def State.fresh : State α := ⟨[], false⟩

namespace Step
variable {capacity : ℕ} {s s' : State α} {event : Event α}

theorem length_le (h : Step capacity s event s') (hs : s.held.length ≤ capacity) :
    s'.held.length ≤ capacity := by
  cases h with
  | accept value hroom =>
    rw [List.length_append]
    exact hroom
  | refuse value => exact hs
  | take value => exact Nat.le_of_succ_le hs
  | finish => exact hs
  | close => exact hs

theorem balance (h : Step capacity s event s') :
    s.held ++ accepted [event] = taken [event] ++ s'.held := by
  cases h with
  | accept value _ => rfl
  | refuse value => exact List.append_nil _
  | take value => exact List.append_nil _
  | finish => rfl
  | close => exact List.append_nil _

theorem closed_iff (h : Step capacity s event s') :
    s'.closed = true ↔ s.closed = true ∨ Event.closed ∈ [event] := by
  cases h with
  | accept value _ => simp
  | refuse value => simp
  | take value => simp
  | finish => simp
  | close => simp

theorem accepted_of_closed (h : Step capacity s event s') (hs : s.closed = true) :
    accepted [event] = [] := by
  cases h with
  | accept value _ => cases hs
  | refuse value => rfl
  | take value => rfl
  | finish => rfl
  | close => rfl

end Step

namespace Legal
variable {capacity : ℕ} {s s' s'' : State α} {e e₁ e₂ : List (Event α)}

theorem append (h : Legal capacity s e₁ s') (h' : Legal capacity s' e₂ s'') :
    Legal capacity s (e₁ ++ e₂) s'' := by
  induction h with
  | nil s => exact h'
  | cons hstep _ ih => exact .cons hstep (ih h')

theorem split (h : Legal capacity s (e₁ ++ e₂) s'') :
    ∃ s', Legal capacity s e₁ s' ∧ Legal capacity s' e₂ s'' := by
  induction e₁ generalizing s with
  | nil => exact ⟨s, .nil s, h⟩
  | cons event e₁ ih =>
    cases h with
    | cons hstep hrest =>
      obtain ⟨s', hfront, hback⟩ := ih hrest
      exact ⟨s', .cons hstep hfront, hback⟩

theorem length_le (h : Legal capacity s e s') (hs : s.held.length ≤ capacity) :
    s'.held.length ≤ capacity := by
  induction h with
  | nil s => exact hs
  | cons hstep _ ih => exact ih (hstep.length_le hs)

theorem balance (h : Legal capacity s e s') : s.held ++ accepted e = taken e ++ s'.held := by
  induction h with
  | nil s => exact List.append_nil _
  | @cons s s' s'' event events hstep _ ih =>
    calc s.held ++ accepted (event :: events)
        = s.held ++ accepted [event] ++ accepted events := by
          rw [← List.singleton_append, accepted_append, List.append_assoc]
      _ = taken [event] ++ (s'.held ++ accepted events) := by
          rw [hstep.balance, List.append_assoc]
      _ = taken (event :: events) ++ s''.held := by
          rw [ih, ← List.append_assoc, ← taken_append, List.singleton_append]

theorem closed_iff (h : Legal capacity s e s') :
    s'.closed = true ↔ s.closed = true ∨ Event.closed ∈ e := by
  induction h with
  | nil s => simp
  | cons hstep _ ih => rw [ih, hstep.closed_iff, List.mem_singleton, List.mem_cons, or_assoc]

theorem accepted_of_closed (h : Legal capacity s e s') (hs : s.closed = true) :
    accepted e = [] := by
  induction h with
  | nil s => rfl
  | @cons s s' s'' event events hstep _ ih =>
    rw [← List.singleton_append, accepted_append, hstep.accepted_of_closed hs,
      ih (hstep.closed_iff.mpr (Or.inl hs)), List.append_nil]

theorem accepted_behind_close (h : Legal capacity s (e₁ ++ .closed :: e₂) s') :
    accepted e₂ = [] := by
  obtain ⟨s₁, _, hback⟩ := h.split
  cases hback with
  | cons hstep hrest =>
    exact hrest.accepted_of_closed (hstep.closed_iff.mpr (Or.inr (List.mem_singleton_self _)))

/-- A take reports the end when the channel is closed and all that was ever put in has been
taken out. -/
theorem taken_before_end (h : Legal capacity State.fresh (e₁ ++ .ended :: e₂) s') :
    Event.closed ∈ e₁ ∧ taken e₁ = accepted (e₁ ++ .ended :: e₂) := by
  obtain ⟨s₁, hfront, hback⟩ := h.split
  cases hback with
  | cons hstep hrest =>
    cases hstep with
    | finish =>
      have hclosed : Event.closed ∈ e₁ := (hfront.closed_iff.mp rfl).resolve_left Bool.false_ne_true
      have hbalance : accepted e₁ = taken e₁ ++ [] := hfront.balance
      have hbehind : accepted (.ended :: e₂) = [] := hrest.accepted_of_closed rfl
      refine ⟨hclosed, ?_⟩
      rw [accepted_append, hbehind, List.append_nil, hbalance, List.append_nil]

end Legal
end Concurrent.Channel
