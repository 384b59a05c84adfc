import Mathlib.Data.List.Basic

/-!
# Answers in the order of their requests

A server that takes requests before it has answered the earlier ones keeps a slot for
each of them, empty until the answer is there. What may leave on an ordered channel is
`delivered`: the answers in front of the first empty slot. It never shrinks, and when
the slots are filled from the front, filling the first empty one adds its answer at the
end.
-/

namespace Aevrix.Pipeline
variable {α : Type*}

/-- The answers in front of the first empty slot. -/
def delivered : List (Option (List α)) → List α
  | some answer :: slots => answer ++ delivered slots
  | none :: _ => []
  | [] => []

@[simp] theorem delivered_nil : delivered ([] : List (Option (List α))) = [] := rfl
@[simp] theorem delivered_none (slots : List (Option (List α))) : delivered (none :: slots) = [] :=
  rfl
@[simp] theorem delivered_some (answer : List α) (slots : List (Option (List α))) :
    delivered (some answer :: slots) = answer ++ delivered slots := rfl

theorem delivered_append (slots more : List (Option (List α))) :
    delivered slots <+: delivered (slots ++ more) := by
  induction slots with
  | nil => exact List.nil_prefix
  | cons slot slots ih =>
    cases slot with
    | none => exact List.prefix_rfl
    | some answer => exact (List.prefix_append_right_inj answer).mpr ih

theorem delivered_accept (slots : List (Option (List α))) :
    delivered (slots ++ [none]) = delivered slots := by
  induction slots with
  | nil => rfl
  | cons slot slots ih =>
    cases slot with
    | none => rfl
    | some answer => exact congrArg (answer ++ ·) ih

/-- No slot is filled behind an empty one. -/
inductive FrontFilled : List (Option (List α)) → Prop where
  | waiting (n : ℕ) : FrontFilled (List.replicate n none)
  | filled (answer : List α) {slots : List (Option (List α))} :
    FrontFilled slots → FrontFilled (some answer :: slots)

namespace FrontFilled
variable {slots : List (Option (List α))}

theorem nil : FrontFilled ([] : List (Option (List α))) := waiting 0

theorem accept (h : FrontFilled slots) : FrontFilled (slots ++ [none]) := by
  induction h with
  | waiting n => exact List.replicate_succ' ▸ waiting (n + 1)
  | filled answer _ ih => exact filled answer ih

theorem fill (h : FrontFilled slots) {k : ℕ} (answer : List α) (hk : slots[k]? = some none)
    (hfront : ∀ slot ∈ slots.take k, slot.isSome = true) :
    FrontFilled (slots.set k (some answer)) ∧
      delivered (slots.set k (some answer)) = delivered slots ++ answer := by
  induction h generalizing k with
  | waiting n =>
    cases n with
    | zero => simp at hk
    | succ n =>
      cases k with
      | zero =>
        refine ⟨filled answer (waiting n), ?_⟩
        cases n with
        | zero => simp
        | succ n => simp [List.replicate_succ]
      | succ k => simp [List.replicate_succ] at hfront
  | filled first _ ih =>
    cases k with
    | zero => simp at hk
    | succ k =>
      obtain ⟨hfilled, heq⟩ := ih hk fun slot hslot => hfront slot (by simp [hslot])
      refine ⟨filled first hfilled, ?_⟩
      rw [List.set_cons_succ, delivered_some, delivered_some, heq, List.append_assoc]

theorem acceptFilled (h : FrontFilled slots) (answer : List α)
    (hall : ∀ slot ∈ slots, slot.isSome = true) :
    FrontFilled (slots ++ [some answer]) ∧
      delivered (slots ++ [some answer]) = delivered slots ++ answer := by
  have hk : (slots ++ [none])[slots.length]? = some none := by simp
  have hset : (slots ++ [none]).set slots.length (some answer) = slots ++ [some answer] := by simp
  have hfill := h.accept.fill answer hk fun slot hslot => hall slot (by simpa using hslot)
  rwa [hset, delivered_accept] at hfill

end FrontFilled
end Aevrix.Pipeline
