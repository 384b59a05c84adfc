import Mathlib.Data.List.DropRight
import Mathlib.Tactic.Common

/-!
# Elements by rank, and the last elements of a list

The element at an index of the sorted list is the one of that rank (`hasRank_ascending`), whatever
the order the list came in; there is one such element (`HasRank.unique`), and elements of higher
rank are not smaller (`HasRank.mono`).
-/

namespace Statistics

section ranks
variable {α : Type*} [LE α] [DecidableLE α]

/-- The list in ascending order. -/
def ascending (xs : List α) : List α := xs.mergeSort fun a b => decide (a ≤ b)

theorem ascending_perm (xs : List α) : (ascending xs).Perm xs := List.mergeSort_perm xs _

theorem length_ascending (xs : List α) : (ascending xs).length = xs.length :=
  (ascending_perm xs).length_eq

theorem pairwise_ascending [Std.IsLinearOrder α] (xs : List α) :
    (ascending xs).Pairwise (· ≤ ·) := by
  have htrans : ∀ a b c : α, decide (a ≤ b) = true → decide (b ≤ c) = true →
      decide (a ≤ c) = true := by
    intro a b c hab hbc
    exact decide_eq_true (Std.le_trans (of_decide_eq_true hab) (of_decide_eq_true hbc))
  have htotal : ∀ a b : α, (decide (a ≤ b) || decide (b ≤ a)) = true := by
    intro a b
    rw [Bool.or_eq_true, decide_eq_true_eq, decide_eq_true_eq]
    exact Std.le_total
  have hsorted := List.pairwise_mergeSort htrans htotal xs
  exact hsorted.imp fun h => of_decide_eq_true h

variable [LT α] [DecidableLT α]

/-- At most `i` elements are below `v`, and more than `i` are not above it. -/
structure HasRank (xs : List α) (i : ℕ) (v : α) : Prop where
  mem : v ∈ xs
  below : xs.countP (fun x => decide (x < v)) ≤ i
  upTo : i < xs.countP fun x => decide (x ≤ v)

theorem HasRank.perm {xs ys : List α} {i : ℕ} {v : α} (h : HasRank xs i v) (hperm : xs.Perm ys) :
    HasRank ys i v := by
  refine ⟨hperm.mem_iff.mp h.mem, ?_, ?_⟩
  · rw [← hperm.countP_eq]
    exact h.below
  · rw [← hperm.countP_eq]
    exact h.upTo

variable [Std.IsLinearOrder α] [Std.LawfulOrderLT α]

theorem HasRank.mono {xs : List α} {i j : ℕ} {v w : α} (hv : HasRank xs i v) (hw : HasRank xs j w)
    (hij : i ≤ j) : v ≤ w := by
  by_contra hnot
  have hlt : w < v := Std.not_le.mp hnot
  have hsub : xs.countP (fun x => decide (x ≤ w)) ≤ xs.countP fun x => decide (x < v) := by
    refine List.countP_mono_left fun x _ hx => decide_eq_true ?_
    exact Std.lt_of_le_of_lt (of_decide_eq_true hx) hlt
  have hbelow := hv.below
  have hupTo := hw.upTo
  omega

theorem HasRank.unique {xs : List α} {i : ℕ} {v w : α} (hv : HasRank xs i v)
    (hw : HasRank xs i w) : v = w :=
  Std.le_antisymm (hv.mono hw (Nat.le_refl i)) (hw.mono hv (Nat.le_refl i))

/-- In a sorted list, what is in front of an element is not above it, and what is behind it is not
below it. -/
theorem hasRank_of_pairwise {front back : List α} {v : α}
    (h : (front ++ v :: back).Pairwise (· ≤ ·)) : HasRank (front ++ v :: back) front.length v := by
  obtain ⟨-, hback, hcross⟩ := List.pairwise_append.mp h
  have hfront : ∀ x ∈ front, x ≤ v := fun x hx => hcross x hx v List.mem_cons_self
  have hbehind : ∀ x ∈ v :: back, ¬x < v := by
    intro x hx
    rcases List.mem_cons.mp hx with rfl | hx
    · exact Std.lt_irrefl
    · exact Std.not_lt.mpr ((List.pairwise_cons.mp hback).1 x hx)
  refine ⟨List.mem_append_right _ List.mem_cons_self, ?_, ?_⟩
  · have hnone : (v :: back).countP (fun x => decide (x < v)) = 0 := by
      rw [List.countP_eq_zero]
      intro x hx
      rw [decide_eq_true_eq]
      exact hbehind x hx
    rw [List.countP_append, hnone]
    exact List.countP_le_length
  · have hall : front.countP (fun x => decide (x ≤ v)) = front.length := by
      rw [List.countP_eq_length]
      intro x hx
      exact decide_eq_true (hfront x hx)
    have hself : 0 < (v :: back).countP fun x => decide (x ≤ v) :=
      List.countP_pos_iff.mpr ⟨v, List.mem_cons_self, decide_eq_true (Std.le_refl v)⟩
    rw [List.countP_append, hall]
    omega

theorem hasRank_ascending {xs : List α} {i : ℕ} {v : α} (h : (ascending xs)[i]? = some v) :
    HasRank xs i v := by
  obtain ⟨hlt, hget⟩ := List.getElem?_eq_some_iff.mp h
  have hsplit : ascending xs = (ascending xs).take i ++ v :: (ascending xs).drop (i + 1) := by
    rw [← hget, ← List.drop_eq_getElem_cons, List.take_append_drop]
  have hsorted := pairwise_ascending xs
  rw [hsplit] at hsorted
  have hrank := hasRank_of_pairwise hsorted
  rw [← hsplit, List.length_take, Nat.min_eq_left (Nat.le_of_lt hlt)] at hrank
  exact hrank.perm (ascending_perm xs)

theorem exists_hasRank {xs : List α} {i : ℕ} (h : i < xs.length) :
    ∃ v, (ascending xs)[i]? = some v ∧ HasRank xs i v := by
  rw [← length_ascending] at h
  have hget := List.getElem?_eq_getElem h
  exact ⟨_, hget, hasRank_ascending hget⟩

end ranks

/-! ### The last elements -/

section last
variable {α : Type*}

/-- A window of at most `n` elements that one more element enters. -/
def slide (n : ℕ) (window : List α) (x : α) : List α :=
  if n < (window ++ [x]).length then (window ++ [x]).drop 1 else window ++ [x]

/-- A window that slides along a list is what the list ends with. -/
theorem slide_rtake (n : ℕ) (xs : List α) (x : α) :
    slide n (xs.rtake n) x = (xs ++ [x]).rtake n := by
  unfold slide
  simp only [List.rtake, List.length_append, List.length_singleton, List.length_drop]
  by_cases hfull : n ≤ xs.length
  · rw [if_pos (by omega), ← List.drop_append_of_le_length (Nat.sub_le _ _), List.drop_drop]
    congr 1
    omega
  · rw [if_neg (by omega), Nat.sub_eq_zero_of_le (by omega), Nat.sub_eq_zero_of_le (by omega)]
    rfl

theorem foldl_slide (n : ℕ) (xs ys : List α) :
    ys.foldl (slide n) (xs.rtake n) = (xs ++ ys).rtake n := by
  induction ys generalizing xs with
  | nil => rw [List.foldl_nil, List.append_nil]
  | cons y ys ih =>
    rw [List.foldl_cons, slide_rtake, ih, List.append_assoc, List.singleton_append]

end last
end Statistics
