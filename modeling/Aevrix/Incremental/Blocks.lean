import Mathlib.Data.List.Basic
import Mathlib.Tactic.Common

/-!
# Blocks of lines

Lines joined by a pair `a b`, cut again at every pair, and the cut at the first doubled pair. Lines
without an `a` come back as they were joined.
-/

namespace Incremental.Blocks
variable {α : Type*} [DecidableEq α] {a b : α}

/-- The text before the first `pattern` and the text behind it. -/
def cutAt (pattern : List α) : List α → Option (List α × List α)
  | [] => none
  | c :: t =>
    if pattern.isPrefixOf (c :: t) then some ([], (c :: t).drop pattern.length)
    else (cutAt pattern t).map fun x => (c :: x.1, x.2)

/-- The pieces between the pairs. -/
def splitPairs (a b : α) : List α → List (List α)
  | [] => [[]]
  | [c] => [[c]]
  | c :: d :: t =>
    if c = a ∧ d = b then [] :: splitPairs a b t
    else (splitPairs a b (d :: t)).modifyHead (c :: ·)

/-! ### Pieces -/

theorem splitPairs_cons {c : α} (h : c ≠ a) (t : List α) :
    splitPairs a b (c :: t) = (splitPairs a b t).modifyHead (c :: ·) := by
  cases t with
  | nil => rfl
  | cons d t => rw [splitPairs, if_neg fun hpair => h hpair.1]

theorem splitPairs_skip {x : List α} (h : a ∉ x) (y : List α) :
    splitPairs a b (x ++ y) = (splitPairs a b y).modifyHead (x ++ ·) := by
  induction x with
  | nil =>
    have hid : ([] ++ · : List α → List α) = id := rfl
    rw [hid, List.modifyHead_id]
    rfl
  | cons c x ih =>
    rw [List.mem_cons, not_or] at h
    rw [List.cons_append, splitPairs_cons (Ne.symm h.1), ih h.2, List.modifyHead_modifyHead]
    rfl

theorem splitPairs_line {l : List α} (h : a ∉ l) (rest : List α) :
    splitPairs a b (l ++ a :: b :: rest) = l :: splitPairs a b rest := by
  rw [splitPairs_skip h, splitPairs, if_pos ⟨rfl, rfl⟩, List.modifyHead_cons, List.append_nil]

theorem splitPairs_join {lines : List (List α)} (hne : lines ≠ []) (h : ∀ l ∈ lines, a ∉ l) :
    splitPairs a b ([a, b].intercalate lines) = lines := by
  induction lines with
  | nil => exact (hne rfl).elim
  | cons l lines ih =>
    have hl := h l (List.mem_cons_self ..)
    cases lines with
    | nil =>
      have hlast : splitPairs a b (l ++ []) = [l ++ []] := splitPairs_skip hl []
      rw [List.append_nil] at hlast
      rw [List.intercalate_singleton, hlast]
    | cons l' lines =>
      have hrest := ih (List.cons_ne_nil _ _) fun k hk => h k (List.mem_cons_of_mem _ hk)
      rw [List.intercalate_cons_cons, List.append_assoc]
      exact (splitPairs_line hl _).trans (congrArg (l :: ·) hrest)

/-! ### The first blank line -/

theorem cutAt_skip {pattern x : List α} (h : a ∉ x) (y : List α) :
    cutAt (a :: pattern) (x ++ y) = (cutAt (a :: pattern) y).map fun z => (x ++ z.1, z.2) := by
  induction x with
  | nil =>
    rw [List.nil_append]
    cases cutAt (a :: pattern) y with
    | none => rfl
    | some z => rfl
  | cons c x ih =>
    rw [List.mem_cons, not_or] at h
    have hfirst : (a :: pattern).isPrefixOf (c :: (x ++ y)) = false := by
      rw [List.isPrefixOf_cons_cons, beq_eq_false_iff_ne.mpr h.1, Bool.false_and]
    rw [List.cons_append, cutAt, hfirst, ih h.2]
    cases cutAt (a :: pattern) y with
    | none => rfl
    | some z => rfl

theorem cutAt_here (pattern rest : List α) :
    cutAt (a :: pattern) (a :: pattern ++ rest) = some ([], rest) := by
  have hprefix : (a :: pattern).isPrefixOf (a :: (pattern ++ rest)) = true := by
    rw [List.isPrefixOf_iff_prefix]
    exact List.prefix_append (a :: pattern) rest
  rw [List.cons_append, cutAt, if_pos hprefix, ← List.cons_append, List.drop_left]

theorem cutAt_pair (hab : a ≠ b) {c : α} (hc : c ≠ a) (rest : List α) :
    cutAt [a, b, a, b] (a :: b :: c :: rest) =
      (cutAt [a, b, a, b] (c :: rest)).map fun z => (a :: b :: z.1, z.2) := by
  have hfirst : [a, b, a, b].isPrefixOf (a :: b :: c :: rest) = false := by
    simp [List.isPrefixOf, Ne.symm hc]
  have hsecond : cutAt [a, b, a, b] (b :: c :: rest) =
      (cutAt [a, b, a, b] (c :: rest)).map fun z => (b :: z.1, z.2) :=
    cutAt_skip (x := [b]) (by simpa using hab) (c :: rest)
  rw [cutAt, hfirst, if_neg Bool.false_ne_true, hsecond]
  cases cutAt [a, b, a, b] (c :: rest) with
  | none => rfl
  | some z => rfl

theorem cutAt_join (hab : a ≠ b) {lines : List (List α)} (hne : lines ≠ [])
    (h : ∀ l ∈ lines, l ≠ [] ∧ a ∉ l) (rest : List α) :
    cutAt [a, b, a, b] ([a, b].intercalate lines ++ ([a, b, a, b] ++ rest)) =
      some ([a, b].intercalate lines, rest) := by
  induction lines with
  | nil => exact (hne rfl).elim
  | cons l lines ih =>
    have hl := (h l (List.mem_cons_self ..)).2
    cases lines with
    | nil =>
      rw [List.intercalate_singleton, cutAt_skip hl, cutAt_here, Option.map_some, List.append_nil]
    | cons l' lines =>
      have hrest := ih (List.cons_ne_nil _ _) fun k hk => h k (List.mem_cons_of_mem _ hk)
      have hnext := h l' (List.mem_cons_of_mem _ (List.mem_cons_self ..))
      obtain ⟨c, t, rfl⟩ := List.exists_cons_of_ne_nil hnext.1
      have hc : c ≠ a := fun heq => hnext.2 (heq ▸ List.mem_cons_self ..)
      have hhead : ∃ u, [a, b].intercalate ((c :: t) :: lines) = c :: u := by
        cases lines with
        | nil => exact ⟨t, List.intercalate_singleton⟩
        | cons l'' lines => exact ⟨_, by rw [List.intercalate_cons_cons]; rfl⟩
      obtain ⟨u, hu⟩ := hhead
      rw [hu] at hrest
      rw [List.intercalate_cons_cons, hu, List.append_assoc, List.append_assoc, cutAt_skip hl]
      change Option.map _ (cutAt [a, b, a, b] (a :: b :: c :: (u ++ ([a, b, a, b] ++ rest)))) = _
      rw [cutAt_pair hab hc]
      change Option.map _ (Option.map _ (cutAt [a, b, a, b] (c :: u ++ ([a, b, a, b] ++ rest)))) = _
      rw [hrest, Option.map_some, Option.map_some, List.append_assoc]
      rfl

end Incremental.Blocks
