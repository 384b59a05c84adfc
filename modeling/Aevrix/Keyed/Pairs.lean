import Mathlib.Data.List.Nodup
import Mathlib.Data.List.Perm.Basic

/-!
# Lists of pairs as tables

A list of pairs is a table when its keys are distinct: a key is looked up, dropped with all that
is behind it, or given another value.
-/

namespace Keyed
variable {κ ν : Type*} [DecidableEq κ] {l : List (κ × ν)} {k : κ} {v : ν}

def keys (l : List (κ × ν)) : List κ := l.map Prod.fst

def erase (l : List (κ × ν)) (k : κ) : List (κ × ν) := l.filter fun x => x.1 != k

def put (l : List (κ × ν)) (k : κ) (v : ν) : List (κ × ν) :=
  l.map fun x => if x.1 = k then (k, v) else x

theorem mem_of_lookup (h : l.lookup k = some v) : (k, v) ∈ l := by
  induction l with
  | nil => cases h
  | cons x l ih =>
    rw [List.lookup_cons] at h
    split at h
    · rename_i heq
      rw [← Option.some.inj h, eq_of_beq heq]
      exact List.mem_cons_self
    · exact List.mem_cons_of_mem x (ih h)

theorem mem_keys_of_lookup (h : l.lookup k = some v) : k ∈ keys l :=
  List.mem_map_of_mem (f := Prod.fst) (mem_of_lookup h)

theorem lookup_of_mem (hnodup : (keys l).Nodup) (h : (k, v) ∈ l) : l.lookup k = some v := by
  induction l with
  | nil => cases h
  | cons x l ih =>
    obtain ⟨hnew, hrest⟩ := List.nodup_cons.mp hnodup
    rw [List.lookup_cons]
    rcases List.mem_cons.mp h with rfl | hmem
    · rw [beq_self_eq_true]
    · have hkey : k ∈ keys l := List.mem_map_of_mem (f := Prod.fst) hmem
      have hne : k ≠ x.1 := by
        intro heq
        exact hnew (heq ▸ hkey)
      rw [beq_eq_false_iff_ne.mpr hne]
      exact ih hrest hmem

theorem lookup_eq_none : l.lookup k = none ↔ k ∉ keys l := by
  induction l with
  | nil => simp [keys]
  | cons x l ih =>
    rw [List.lookup_cons, keys, List.map_cons, List.mem_cons, not_or]
    split
    · rename_i heq
      constructor
      · intro h
        cases h
      · intro h
        exact absurd (eq_of_beq heq) h.1
    · rename_i hne
      have hother : k ≠ x.1 := ne_of_beq_false (by simpa using hne)
      rw [ih]
      constructor
      · intro h
        exact ⟨hother, h⟩
      · intro h
        exact h.2

theorem mem_erase {x : κ × ν} : x ∈ erase l k ↔ x ∈ l ∧ x.1 ≠ k := by
  rw [erase, List.mem_filter, bne_iff_ne]

theorem mem_keys_erase {j : κ} : j ∈ keys (erase l k) ↔ j ∈ keys l ∧ j ≠ k := by
  simp only [keys, List.mem_map, mem_erase]
  constructor
  · rintro ⟨x, ⟨hx, hne⟩, rfl⟩
    exact ⟨⟨x, hx, rfl⟩, hne⟩
  · rintro ⟨⟨x, hx, rfl⟩, hne⟩
    exact ⟨x, ⟨hx, hne⟩, rfl⟩

theorem nodup_erase (h : (keys l).Nodup) : (keys (erase l k)).Nodup :=
  h.sublist (List.filter_sublist.map Prod.fst)

theorem erase_of_notMem (h : k ∉ keys l) : erase l k = l := by
  rw [erase, List.filter_eq_self]
  intro x hx
  rw [bne_iff_ne]
  rintro rfl
  exact h (List.mem_map_of_mem (f := Prod.fst) hx)

theorem lookup_erase_of_ne {j : κ} (hne : j ≠ k) : (erase l k).lookup j = l.lookup j := by
  induction l with
  | nil => rfl
  | cons x l ih =>
    by_cases heq : x.1 = k
    · have hother : (j == x.1) = false := beq_false_of_ne (heq ▸ hne)
      rw [List.lookup_cons, hother, erase, List.filter_cons_of_neg (by simp [heq])]
      exact ih
    · have hkept : erase (x :: l) k = x :: erase l k :=
        List.filter_cons_of_pos (bne_iff_ne.mpr heq)
      rw [hkept, List.lookup_cons, List.lookup_cons]
      cases j == x.1 with
      | true => rfl
      | false => exact ih

omit [DecidableEq κ] in
theorem keys_concat (l : List (κ × ν)) (k : κ) (v : ν) : keys (l ++ [(k, v)]) = keys l ++ [k] :=
  List.map_append

omit [DecidableEq κ] in
theorem nodup_concat (hnodup : (keys l).Nodup) (h : k ∉ keys l) (v : ν) :
    (keys (l ++ [(k, v)])).Nodup := by
  rw [keys_concat, ← List.concat_eq_append]
  exact hnodup.concat h

theorem erase_concat (h : k ∉ keys l) (v : ν) : erase (l ++ [(k, v)]) k = l := by
  have hgone : erase [(k, v)] k = [] := by
    rw [erase, List.filter_cons_of_neg (by rw [bne_self_eq_false]; exact Bool.false_ne_true)]
    rfl
  rw [erase, List.filter_append]
  exact (congrArg₂ _ (erase_of_notMem h) hgone).trans (List.append_nil l)

theorem perm_cons_erase (hnodup : (keys l).Nodup) (h : l.lookup k = some v) :
    l.Perm ((k, v) :: erase l k) := by
  induction l with
  | nil => cases h
  | cons x l ih =>
    obtain ⟨hnew, hrest⟩ := List.nodup_cons.mp hnodup
    rw [List.lookup_cons] at h
    split at h
    · rename_i heq
      have hk : k = x.1 := eq_of_beq heq
      have hx : x = (k, v) := by rw [← Option.some.inj h, hk]
      have hkept : erase (x :: l) k = l := by
        have hgone : (x.1 != k) = false := by rw [hk, bne_self_eq_false]
        rw [erase, List.filter_cons_of_neg (by rw [hgone]; exact Bool.false_ne_true)]
        exact erase_of_notMem (hk ▸ hnew)
      rw [hkept, hx]
    · rename_i hne
      have hkept : erase (x :: l) k = x :: erase l k := by
        have hother : k ≠ x.1 := ne_of_beq_false (by simpa using hne)
        exact List.filter_cons_of_pos (bne_iff_ne.mpr hother.symm)
      rw [hkept]
      exact ((ih hrest h).cons x).trans (List.Perm.swap _ _ _)

theorem keys_put : keys (put l k v) = keys l := by
  rw [keys, put, List.map_map]
  apply List.map_congr_left
  intro x _
  show (if x.1 = k then (k, v) else x).1 = x.1
  split
  · rename_i heq
    exact heq.symm
  · rfl

theorem lookup_put_self (h : k ∈ keys l) : (put l k v).lookup k = some v := by
  induction l with
  | nil => cases h
  | cons x l ih =>
    rw [put, List.map_cons, ← put]
    by_cases heq : x.1 = k
    · rw [if_pos heq, List.lookup_cons_self]
    · rw [if_neg heq, List.lookup_cons, beq_false_of_ne (Ne.symm heq)]
      exact ih ((List.mem_cons.mp h).resolve_left (Ne.symm heq))

theorem lookup_put_of_ne {j : κ} (hne : j ≠ k) : (put l k v).lookup j = l.lookup j := by
  induction l with
  | nil => rfl
  | cons x l ih =>
    rw [put, List.map_cons, ← put, List.lookup_cons, List.lookup_cons, ih]
    by_cases heq : x.1 = k
    · rw [if_pos heq, beq_false_of_ne hne, heq, beq_false_of_ne hne]
    · rw [if_neg heq]

theorem mem_put {x : κ × ν} (h : x ∈ put l k v) : x = (k, v) ∨ x ∈ l ∧ x.1 ≠ k := by
  obtain ⟨y, hy, rfl⟩ := List.mem_map.mp h
  split
  · exact Or.inl rfl
  · rename_i hne
    exact Or.inr ⟨hy, hne⟩

theorem mem_put_of_ne {x : κ × ν} (h : x ∈ l) (hne : x.1 ≠ k) : x ∈ put l k v :=
  List.mem_map.mpr ⟨x, h, if_neg hne⟩

theorem map_put {α : Type*} (f : ν → α) {u : ν} (hnodup : (keys l).Nodup) (h : (k, u) ∈ l)
    (hsame : f v = f u) : (put l k v).map (fun x => f x.2) = l.map fun x => f x.2 := by
  rw [put, List.map_map]
  apply List.map_congr_left
  intro x hx
  rw [Function.comp_apply]
  split
  · rename_i heq
    have hvalue : x.2 = u := Option.some.inj ((lookup_of_mem hnodup (heq ▸ hx)).symm.trans
      (lookup_of_mem hnodup h))
    rw [hvalue]
    exact hsame
  · rfl

/-! ### Two tables with the same keys -/

section tables
variable {κ ν ω : Type*} [BEq κ] {l l' : List (κ × ν)} {k : κ}

theorem mem_values_of_lookup {v : ν} (h : l.lookup k = some v) : v ∈ l.map Prod.snd := by
  induction l with
  | nil => cases h
  | cons x l ih =>
    rw [List.lookup_cons] at h
    split at h
    · rw [← Option.some.inj h]
      exact List.mem_cons_self
    · exact List.mem_cons_of_mem _ (ih h)

theorem lookup_map_snd (g : ν → ω) (l : List (κ × ν)) (k : κ) :
    (l.map fun x => (x.1, g x.2)).lookup k = (l.lookup k).map g := by
  induction l with
  | nil => rfl
  | cons x l ih =>
    rw [List.map_cons, List.lookup_cons, List.lookup_cons, ih]
    cases k == x.1 <;> rfl

theorem lookup_forall₂ {R : ν → ν → Prop}
    (h : List.Forall₂ (fun x y => x.1 = y.1 ∧ R x.2 y.2) l l') (k : κ) :
    Option.Rel R (l.lookup k) (l'.lookup k) := by
  induction h with
  | nil => exact Option.Rel.none
  | cons hxy _ ih =>
    rw [List.lookup_cons, List.lookup_cons, ← hxy.1]
    split
    · exact Option.Rel.some hxy.2
    · exact ih

variable [LawfulBEq κ]

theorem lookup_of_notMem (h : k ∉ l.map Prod.fst) : l.lookup k = none := by
  induction l with
  | nil => rfl
  | cons x l ih =>
    obtain ⟨hhead, hrest⟩ := not_or.mp (mt List.mem_cons.mpr h)
    rw [List.lookup_cons, beq_false_of_ne hhead]
    exact ih hrest

theorem eq_of_lookup (hkeys : l.map Prod.fst = l'.map Prod.fst) (hnodup : (l.map Prod.fst).Nodup)
    (h : ∀ k, l.lookup k = l'.lookup k) : l = l' := by
  induction l generalizing l' with
  | nil => exact (List.map_eq_nil_iff.mp hkeys.symm).symm
  | cons x l ih =>
    cases l' with
    | nil => cases hkeys
    | cons y l' =>
      obtain ⟨hhead, hrest⟩ := List.cons_eq_cons.mp hkeys
      obtain ⟨hnew, htail⟩ := List.nodup_cons.mp hnodup
      have hvalue := h x.1
      rw [List.lookup_cons_self, hhead, List.lookup_cons_self] at hvalue
      have hxy : x = y := Prod.ext hhead (Option.some.inj hvalue)
      have hlookup : ∀ k, l.lookup k = l'.lookup k := by
        intro k
        by_cases hk : k = x.1
        · rw [hk, lookup_of_notMem hnew, lookup_of_notMem (by rwa [← hrest])]
        · have hboth := h k
          rwa [← hxy, List.lookup_cons, List.lookup_cons, beq_false_of_ne hk] at hboth
      rw [hxy, ih hrest htail hlookup]

end tables

end Keyed
