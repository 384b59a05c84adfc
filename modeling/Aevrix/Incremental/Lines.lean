import Mathlib.Data.List.Infix
import Mathlib.Tactic.Cases

/-!
# Lines ended by a pair of symbols

A line ends at the first occurrence of the pair `a b`. The search is stable when
more symbols arrive, and every front of the buffer that shows no pair is no
longer than the line up to and including its `a`.
-/

namespace Incremental.Lines
variable {α : Type*} [DecidableEq α] (a b : α)

/-- Index of the first pair. -/
def findPair : List α → Option ℕ
  | x :: y :: t => if x = a ∧ y = b then some 0 else (findPair (y :: t)).map (· + 1)
  | _ => none

/-- The line before the first pair and what follows the pair. -/
def splitPair (u : List α) : Option (List α × List α) :=
  (findPair a b u).map fun k => (u.take k, u.drop (k + 2))

/-- The line at the front of `u` with its `a`, or all of `u` while it is unfinished. -/
def front (u : List α) : List α := match findPair a b u with
  | some k => u.take (k + 1)
  | none => u

variable {a b}

theorem findPair_append {u : List α} {k : ℕ} (x : List α) (h : findPair a b u = some k) :
    findPair a b (u ++ x) = some k := by
  induction u using findPair.induct a b generalizing k with
  | case1 c d t hp =>
    simp only [findPair, hp, and_self, if_true] at h
    simp only [List.cons_append, findPair, hp, and_self, if_true, h]
  | case2 c d t hp ih =>
    simp only [findPair, if_neg hp] at h
    obtain ⟨j, hj, rfl⟩ := Option.map_eq_some_iff.mp h
    have ht := ih hj
    simp only [List.cons_append] at ht
    simp only [List.cons_append, findPair, if_neg hp, ht, Option.map_some]
  | case3 u hu =>
    rw [findPair.eq_2 a b u hu] at h
    cases h

theorem findPair_split {u : List α} {k : ℕ} (h : findPair a b u = some k) :
    u = u.take k ++ a :: b :: u.drop (k + 2) ∧ findPair a b (u.take k) = none := by
  induction u using findPair.induct a b generalizing k with
  | case1 c d t hp =>
    simp only [findPair, hp, and_self, if_true, Option.some.injEq] at h
    subst h
    obtain ⟨rfl, rfl⟩ := hp
    exact ⟨rfl, rfl⟩
  | case2 c d t hp ih =>
    simp only [findPair, if_neg hp] at h
    obtain ⟨j, hj, rfl⟩ := Option.map_eq_some_iff.mp h
    obtain ⟨heq, hnone⟩ := ih hj
    refine ⟨?_, ?_⟩
    · rw [List.take_succ_cons, List.cons_append, show j + 1 + 2 = (j + 2) + 1 by omega,
        List.drop_succ_cons, ← heq]
    · cases j with
      | zero => rfl
      | succ j =>
        rw [List.take_succ_cons] at hnone
        rw [List.take_succ_cons, List.take_succ_cons, findPair, if_neg hp, hnone, Option.map_none]
  | case3 u hu =>
    rw [findPair.eq_2 a b u hu] at h
    cases h

theorem findPair_bound {u : List α} {k : ℕ} (h : findPair a b u = some k) :
    k + 2 ≤ u.length := by
  have hs := congrArg List.length (findPair_split h).1
  simp only [List.length_append, List.length_take, List.length_cons, List.length_drop] at hs
  omega

theorem findPair_line {l : List α} (hab : a ≠ b) (h : findPair a b l = none) (r : List α) :
    findPair a b (l ++ a :: b :: r) = some l.length := by
  induction l using findPair.induct a b with
  | case1 c d t hp =>
    simp only [findPair, hp, and_self, if_true] at h
    cases h
  | case2 c d t hp ih =>
    simp only [findPair, if_neg hp, Option.map_eq_none_iff] at h
    have ht := ih h
    simp only [List.cons_append] at ht
    simp only [List.cons_append, findPair, if_neg hp, ht, Option.map_some, List.length_cons]
  | case3 l hl =>
    cases l with
    | nil => simp [findPair]
    | cons c t =>
      cases t with
      | nil =>
        have hc : ¬(c = a ∧ a = b) := fun hc => hab hc.2
        simp only [List.cons_append, List.nil_append, findPair, if_neg hc, and_self, if_true,
          Option.map_some, List.length_cons, List.length_nil]
      | cons d t => exact (hl c d t rfl).elim

theorem splitPair_none {u : List α} : splitPair a b u = none ↔ findPair a b u = none := by
  simp only [splitPair, Option.map_eq_none_iff]

theorem splitPair_line {l : List α} (hab : a ≠ b) (h : findPair a b l = none) (r : List α) :
    splitPair a b (l ++ a :: b :: r) = some (l, r) := by
  simp [splitPair, findPair_line hab h, List.drop_append]

theorem splitPair_some {u l r : List α} (h : splitPair a b u = some (l, r)) :
    u = l ++ a :: b :: r ∧ findPair a b l = none := by
  obtain ⟨k, hk, he⟩ := Option.map_eq_some_iff.mp h
  simp only [Prod.mk.injEq] at he
  obtain ⟨rfl, rfl⟩ := he
  exact findPair_split hk

theorem splitPair_append {u l r : List α} (x : List α) (h : splitPair a b u = some (l, r)) :
    splitPair a b (u ++ x) = some (l, r ++ x) := by
  obtain ⟨k, hk, he⟩ := Option.map_eq_some_iff.mp h
  simp only [Prod.mk.injEq] at he
  obtain ⟨rfl, rfl⟩ := he
  have hb := findPair_bound hk
  simp only [splitPair, findPair_append x hk, Option.map_some,
    List.take_append_of_le_length (show k ≤ u.length by omega),
    List.drop_append_of_le_length hb]

theorem splitPair_suffix {u l r : List α} (h : splitPair a b u = some (l, r)) : r <:+ u := by
  rw [(splitPair_some h).1]
  exact ⟨l ++ [a, b], by simp⟩

theorem splitPair_length {u l r : List α} (h : splitPair a b u = some (l, r)) :
    u.length = l.length + r.length + 2 := by
  rw [(splitPair_some h).1]
  simp only [List.length_append, List.length_cons]
  omega

theorem findPair_append_none {l r : List α} (h : findPair a b (l ++ r) = none) :
    findPair a b l = none := by
  cases hk : findPair a b l with
  | none => rfl
  | some k =>
    rw [findPair_append r hk] at h
    cases h

theorem findPair_tail_none {c : α} {t : List α} (h : findPair a b (c :: t) = none) :
    findPair a b t = none := by
  cases t with
  | nil => rfl
  | cons d t =>
    rw [findPair] at h
    split at h
    · cases h
    · exact Option.map_eq_none_iff.mp h

theorem findPair_suffix_none {l r : List α} (h : findPair a b (l ++ r) = none) :
    findPair a b r = none := by
  induction l with
  | nil => exact h
  | cons c l ih => exact ih (findPair_tail_none h)

theorem findPair_infix_none {l u : List α} (hl : l <:+: u) (h : findPair a b u = none) :
    findPair a b l = none := by
  obtain ⟨s, t, rfl⟩ := hl
  exact findPair_suffix_none (findPair_append_none h)

/-- Two texts without the pair make none where they meet, unless the first ends in `a`. -/
theorem findPair_join {l r : List α} (hl : findPair a b l = none) (hr : findPair a b r = none)
    (h : l.getLast? ≠ some a ∨ r.head? ≠ some b) : findPair a b (l ++ r) = none := by
  induction l using findPair.induct a b with
  | case1 c d t hp =>
    simp only [findPair, hp, and_self, if_true] at hl
    cases hl
  | case2 c d t hp ih =>
    simp only [findPair, if_neg hp, Option.map_eq_none_iff] at hl
    rw [List.getLast?_cons_cons] at h
    have hrest := ih hl h
    rw [List.cons_append] at hrest
    simp only [List.cons_append, findPair, if_neg hp, hrest, Option.map_none]
  | case3 l hshort =>
    cases l with
    | nil => exact hr
    | cons c t =>
      cases t with
      | cons d t => exact (hshort c d t rfl).elim
      | nil =>
        cases r with
        | nil => rfl
        | cons d r =>
          have hp : ¬(c = a ∧ d = b) := by
            rintro ⟨rfl, rfl⟩
            simp at h
          simp only [List.cons_append, List.nil_append, findPair, if_neg hp, hr, Option.map_none]

theorem findPair_none_le {v x : List α} {k : ℕ} (h : findPair a b v = none)
    (hk : findPair a b (v ++ x) = some k) : v.length ≤ k + 1 := by
  induction v using findPair.induct a b generalizing k with
  | case1 c d t hp =>
    simp only [findPair, hp, and_self, if_true] at h
    cases h
  | case2 c d t hp ih =>
    simp only [findPair, if_neg hp, Option.map_eq_none_iff] at h
    simp only [List.cons_append, findPair, if_neg hp] at hk
    obtain ⟨j, hj, rfl⟩ := Option.map_eq_some_iff.mp hk
    have hle := ih h hj
    simp only [List.length_cons] at hle ⊢
    omega
  | case3 v hv =>
    cases v with
    | nil => exact Nat.zero_le _
    | cons c t =>
      cases t with
      | nil => simp
      | cons d t => exact (hv c d t rfl).elim

theorem prefix_le_front {u v : List α} (hv : v <+: u) (h : findPair a b v = none) :
    v.length ≤ (front a b u).length := by
  obtain ⟨x, rfl⟩ := hv
  unfold front
  cases hk : findPair a b (v ++ x) with
  | none => simp only [List.length_append]; omega
  | some k =>
    have hle := findPair_none_le h hk
    have hb := findPair_bound hk
    simp only [List.length_take, List.length_append] at hb ⊢
    omega

theorem front_length_le (u : List α) : (front a b u).length ≤ u.length := by
  unfold front
  cases findPair a b u with
  | none => exact le_rfl
  | some k => simp only [List.length_take]; omega

theorem front_append_le (u x : List α) : (front a b u).length ≤ (front a b (u ++ x)).length := by
  cases hk : findPair a b u with
  | none =>
    refine (front_length_le u).trans ?_
    exact prefix_le_front (List.prefix_append u x) hk
  | some k =>
    unfold front
    simp only [hk, findPair_append x hk, List.length_take, List.length_append]
    omega

theorem front_line {l : List α} (hab : a ≠ b) (h : findPair a b l = none) (r : List α) :
    (front a b (l ++ a :: b :: r)).length = l.length + 1 := by
  unfold front
  simp only [findPair_line hab h, List.length_take, List.length_append, List.length_cons]
  omega

end Incremental.Lines
