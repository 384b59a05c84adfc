import Mathlib.Data.List.Nodup
import Mathlib.Logic.Relation

/-!
# Numbers that are issued once

A register holds rows, each with a number. Rows are struck out in any order, and a new row gets
the next number. A number is never issued again, so it names its row at every later time: what
is found under the number of an earlier row is that row (`Moves.eq_of_number`).
-/

namespace Keyed

structure Register (ρ : Type*) where
  rows : List ρ
  next : ℕ

variable {ρ : Type*}

/-- Rows are struck out, or one is added while there is room. -/
inductive Move (number : ρ → ℕ) (limit : ℕ) : Register ρ → Register ρ → Prop where
  | strike {rows rows' : List ρ} {next : ℕ} (h : rows'.Sublist rows) :
    Move number limit ⟨rows, next⟩ ⟨rows', next⟩
  | issue {rows : List ρ} {next : ℕ} (row : ρ) (h : number row = next)
    (hroom : rows.length < limit) : Move number limit ⟨rows, next⟩ ⟨rows ++ [row], next + 1⟩

abbrev Moves (number : ρ → ℕ) (limit : ℕ) : Register ρ → Register ρ → Prop :=
  Relation.ReflTransGen (Move number limit)

/-- The numbers of the rows are distinct and were issued, and the rows are within the limit. -/
structure Register.Sound (number : ρ → ℕ) (limit : ℕ) (s : Register ρ) : Prop where
  distinct : (s.rows.map number).Nodup
  issued : ∀ row ∈ s.rows, number row < s.next
  room : s.rows.length ≤ limit

variable {number : ρ → ℕ} {limit : ℕ} {s t : Register ρ} {row other : ρ}

theorem Register.Sound.move (h : s.Sound number limit) (hmove : Move number limit s t) :
    t.Sound number limit := by
  cases hmove with
  | strike hsub =>
    refine ⟨h.distinct.sublist (hsub.map _), ?_, Nat.le_trans hsub.length_le h.room⟩
    intro row hrow
    exact h.issued row (hsub.subset hrow)
  | issue row hnumber hroom =>
    refine ⟨?_, ?_, ?_⟩
    · rw [List.map_append, List.map_singleton, ← List.concat_eq_append]
      apply h.distinct.concat
      intro hin
      obtain ⟨other, hother, heq⟩ := List.mem_map.mp hin
      exact absurd (h.issued other hother) (heq.trans hnumber ▸ Nat.lt_irrefl _)
    · intro other hother
      rcases List.mem_append.mp hother with hold | hnew
      · exact Nat.lt_succ_of_lt (h.issued other hold)
      · rw [List.mem_singleton.mp hnew, hnumber]
        exact Nat.lt_succ_self _
    · rw [List.length_append, List.length_singleton]
      exact hroom

theorem Register.Sound.moves (h : s.Sound number limit) (hmoves : Moves number limit s t) :
    t.Sound number limit := by
  induction hmoves with
  | refl => exact h
  | tail _ hmove ih => exact ih.move hmove

theorem Move.next_le (h : Move number limit s t) : s.next ≤ t.next := by
  cases h with
  | strike => exact Nat.le_refl _
  | issue => exact Nat.le_succ _

theorem Moves.next_le (h : Moves number limit s t) : s.next ≤ t.next := by
  induction h with
  | refl => exact Nat.le_refl _
  | tail _ hmove ih => exact Nat.le_trans ih hmove.next_le

theorem Move.mem_of_issued (h : Move number limit s t) (hrow : row ∈ t.rows)
    (hissued : number row < s.next) : row ∈ s.rows := by
  cases h with
  | strike hsub => exact hsub.subset hrow
  | issue new hnumber _ =>
    rcases List.mem_append.mp hrow with hold | hnew
    · exact hold
    · rw [List.mem_singleton.mp hnew] at hissued
      exact absurd hissued (hnumber ▸ Nat.lt_irrefl _)

theorem Moves.mem_of_issued (h : Moves number limit s t) (hrow : row ∈ t.rows)
    (hissued : number row < s.next) : row ∈ s.rows := by
  induction h using Relation.ReflTransGen.head_induction_on with
  | refl => exact hrow
  | head hmove _ ih => exact hmove.mem_of_issued (ih (Nat.lt_of_lt_of_le hissued hmove.next_le)) hissued

theorem Moves.eq_of_number (h : Moves number limit s t) (hs : s.Sound number limit)
    (hrow : row ∈ s.rows) (hother : other ∈ t.rows) (heq : number other = number row) :
    other = row := by
  have hbefore : other ∈ s.rows := h.mem_of_issued hother (heq ▸ hs.issued row hrow)
  exact List.inj_on_of_nodup_map hs.distinct hbefore hrow heq

end Keyed
