import Mathlib.Data.List.Infix

/-!
# Searches by index

The search forwards from an index and the search backwards up to one, and the splits of a list at
which they stop.
-/

namespace Incremental
variable {α : Type*} {p : α → Bool} {a x y : List α} {c : α}

section cut
variable [DecidableEq α]

theorem takeWhile_cut (h : c ∉ a) (b : List α) : (a ++ c :: b).takeWhile (· != c) = a := by
  have hall : ∀ d ∈ a, (d != c) = true := by
    intro d hd
    exact bne_iff_ne.mpr fun heq => h (heq ▸ hd)
  rw [List.takeWhile_append_of_pos hall, List.takeWhile_cons_of_neg (by simp), List.append_nil]

theorem dropWhile_cut (h : c ∉ a) (b : List α) : (a ++ c :: b).dropWhile (· != c) = c :: b := by
  have hall : ∀ d ∈ a, (d != c) = true := by
    intro d hd
    exact bne_iff_ne.mpr fun heq => h (heq ▸ hd)
  rw [List.dropWhile_append_of_pos hall, List.dropWhile_cons_of_neg (by simp)]
end cut

/-- The first index from `start` on with `p`. -/
def findFrom (p : α → Bool) (l : List α) (start : ℕ) : Option ℕ :=
  ((l.drop start).findIdx? p).map (· + start)

/-- The last index up to `pos` with `p`. -/
def findUpTo (p : α → Bool) (l : List α) (pos : ℕ) : Option ℕ :=
  ((l.take (pos + 1)).reverse.findIdx? p).map fun k => (l.take (pos + 1)).length - 1 - k

theorem findIdx?_of_none (hx : ∀ d ∈ x, p d = false) (hc : p c = true) (y : List α) :
    (x ++ c :: y).findIdx? p = some x.length := by
  have hnone : x.findIdx? p = none := List.findIdx?_eq_none_iff.mpr hx
  simp [List.findIdx?_append, hnone, List.findIdx?_cons, hc]

theorem findFrom_hit (a : List α) (hx : ∀ d ∈ x, p d = false) (hc : p c = true) (y : List α) :
    findFrom p (a ++ x ++ c :: y) a.length = some (a.length + x.length) := by
  rw [findFrom, List.append_assoc, List.drop_left, findIdx?_of_none hx hc, Option.map_some,
    Nat.add_comm]

theorem findFrom_skip (hx : ∀ d ∈ x, p d = false) {i : ℕ}
    (h : findFrom p (a ++ x ++ y) a.length = some i) : a.length + x.length ≤ i := by
  rw [findFrom, List.append_assoc, List.drop_left, List.findIdx?_append,
    List.findIdx?_eq_none_iff.mpr hx, Option.none_or, Option.map_map] at h
  obtain ⟨k, -, rfl⟩ := Option.map_eq_some_iff.mp h
  simp only [Function.comp_apply]
  omega

theorem findFrom_miss (a : List α) (hx : ∀ d ∈ x, p d = false) :
    findFrom p (a ++ x) a.length = none := by
  rw [findFrom, List.drop_left, List.findIdx?_eq_none_iff.mpr hx]
  rfl

theorem findFrom_le {l : List α} {start i : ℕ} (h : findFrom p l start = some i) :
    start ≤ i ∧ i < l.length := by
  obtain ⟨k, hk, rfl⟩ := Option.map_eq_some_iff.mp h
  obtain ⟨hlt, -⟩ := List.findIdx?_eq_some_iff_getElem.mp hk
  rw [List.length_drop] at hlt
  omega

theorem findUpTo_hit (a : List α) (hx : ∀ d ∈ x, p d = false) (hc : p c = true) (y : List α) :
    findUpTo p (a ++ c :: x ++ y) (a.length + x.length) = some a.length := by
  have htake : (a ++ c :: x ++ y).take (a.length + x.length + 1) = a ++ c :: x := by
    refine List.take_left' ?_
    rw [List.length_append, List.length_cons]
    omega
  have hreverse : (a ++ c :: x).reverse = x.reverse ++ c :: a.reverse := by simp
  rw [findUpTo, htake, hreverse, findIdx?_of_none (by simpa using hx) hc, Option.map_some,
    List.length_reverse, List.length_append, List.length_cons]
  congr 1
  omega

end Incremental
