import Aevrix.Config.ServerConfig
import Aevrix.Incremental.Search
import Aevrix.Incremental.Splits

/-!
# Lists in one value (`server_config.cpp:20-50`)

`split_csv` works with indices into the value. None of its subtractions goes below zero, and what
it gives is `splitCsv`, which undoes `joinCsv` on the lists it can give (`splitCsv_exact`).
-/

namespace Aevrix.Config
open Incremental

/-- A difference of two `size_t`, or `none` where it would wrap. -/
def sizeSub (a b : ℕ) : Option ℕ := if b ≤ a then some (a - b) else none

def isNotOws (c : Byte) : Bool := !isOws c

/-- The element between `start` and `stop` (`server_config.cpp:25-32`). A `find_last_not_of` that
finds nothing gives `npos`, which is greater than any index. -/
def csvElement (value : Bytes) (start stop : ℕ) : Option (List Bytes) :=
  match findFrom isNotOws value start with
  | none => some []
  | some first =>
    if first < stop then do
      let pos ← sizeSub stop 1
      match findUpTo isNotOws value pos with
      | none => return [value.drop first]
      | some last =>
        if first ≤ last then do
          let length ← sizeSub last first
          return [(value.drop first).take (length + 1)]
        else return []
    else some []

/-- The loop of `split_csv` from `start` on. -/
def splitCsvFrom (value : Bytes) (start : ℕ) : Option (List Bytes) :=
  if start ≤ value.length then
    match _hfind : findFrom (· == 44) value start with
    | none => csvElement value start value.length
    | some comma => do
      let element ← csvElement value start comma
      let rest ← splitCsvFrom value (comma + 1)
      return element ++ rest
  else some []
termination_by value.length + 1 - start
decreasing_by
  have hle := findFrom_le _hfind
  omega

/-- `split_csv` with its indices; `none` is an index that went below zero. -/
def splitCsvLoop (value : Bytes) : Option (List Bytes) := splitCsvFrom value 0

/-! ### One element -/

/-- An element without its blanks, unless nothing is left of it. -/
def elementOf (segment : Bytes) : List Bytes :=
  if trimOws segment = [] then [] else [trimOws segment]

theorem sizeSub_add (a b : ℕ) : sizeSub (a + b) a = some b := by
  rw [sizeSub, if_pos (by omega), Nat.add_sub_cancel_left]

theorem trimBy_ends {p : Byte → Bool} {v : Bytes} (h : trimBy p v ≠ []) :
    (∃ c t, trimBy p v = c :: t ∧ p c = false) ∧ ∃ u l, trimBy p v = u ++ [l] ∧ p l = false := by
  constructor
  · obtain ⟨c, t, hcons⟩ := List.exists_cons_of_ne_nil h
    obtain ⟨post, hpost⟩ := trimBy_front p v
    rw [hcons, List.cons_append] at hpost
    refine ⟨c, t, hcons, ?_⟩
    have hhead := List.head?_dropWhile_not p v
    rw [← hpost, List.head?_cons] at hhead
    simpa using hhead
  · obtain ⟨u, l, hconcat⟩ := List.eq_nil_or_concat' (trimBy p v) |>.resolve_left h
    refine ⟨u, l, hconcat, ?_⟩
    have hlast := List.rdropWhile_last_not p (v.dropWhile p) h
    have hget : (trimBy p v).getLast h = l := by
      simp only [hconcat, List.getLast_append_singleton]
    rw [← hget]
    exact Bool.eq_false_iff.mpr hlast

theorem csvElement_eq (front segment back : Bytes) :
    csvElement (front ++ segment ++ back) front.length (front.length + segment.length) =
      some (elementOf segment) := by
  obtain ⟨pre, post, hsplit, hpre, hpost⟩ := trimBy_split isOws segment
  have hblank : ∀ {blanks : Bytes}, (∀ c ∈ blanks, isOws c = true) →
      ∀ c ∈ blanks, isNotOws c = false := by
    intro blanks h c hc
    rw [isNotOws, h c hc]
    rfl
  unfold csvElement elementOf
  by_cases hempty : trimOws segment = []
  · rw [if_pos hempty]
    have hall : ∀ c ∈ segment, isOws c = true := by
      intro c hc
      rw [hsplit, show trimBy isOws segment = [] from hempty, List.append_nil,
        List.mem_append] at hc
      exact hc.elim (hpre c) (hpost c)
    split
    · rfl
    · rename_i first hfirst
      have hle := findFrom_skip (hblank hall) hfirst
      rw [if_neg (by omega)]
  · rw [if_neg hempty]
    obtain ⟨⟨c, t, hcons, hc⟩, u, l, hconcat, hl⟩ := trimBy_ends hempty
    have hfirst : findFrom isNotOws (front ++ segment ++ back) front.length =
        some (front.length + pre.length) := by
      have hshape : front ++ segment ++ back = front ++ pre ++ c :: (t ++ post ++ back) := by
        rw [hsplit, hcons]
        simp only [List.append_assoc, List.cons_append]
      rw [hshape]
      exact findFrom_hit front (hblank hpre) (by rw [isNotOws, hc]; rfl) _
    have hlen : segment.length = pre.length + (u.length + 1) + post.length := by
      have hsum := congrArg List.length hsplit
      rw [hconcat] at hsum
      simp only [List.length_append, List.length_singleton] at hsum
      exact hsum
    have hlast : findUpTo isNotOws (front ++ segment ++ back)
        (front.length + segment.length - 1) = some (front.length + pre.length + u.length) := by
      have hshape : front ++ segment ++ back = front ++ pre ++ u ++ l :: post ++ back := by
        rw [hsplit, hconcat]
        simp only [List.append_assoc, List.cons_append, List.nil_append]
      have hpos : front.length + segment.length - 1 = (front ++ pre ++ u).length + post.length := by
        simp only [List.length_append, hlen]
        omega
      have hhit := findUpTo_hit (front ++ pre ++ u) (hblank hpost)
        (by rw [isNotOws, hl]; rfl : isNotOws l = true) back
      rw [hshape, hpos, hhit, List.length_append, List.length_append]
    have hone : sizeSub (front.length + segment.length) 1 =
        some (front.length + segment.length - 1) := by
      rw [sizeSub, if_pos (by omega)]
    have htake : ((front ++ segment ++ back).drop (front.length + pre.length)).take (u.length + 1) =
        trimOws segment := by
      have hshape : front ++ segment ++ back = front ++ pre ++ (trimOws segment ++ (post ++ back)) := by
        conv_lhs => rw [hsplit]
        simp only [trimOws, List.append_assoc]
      rw [hshape, ← List.length_append, List.drop_left]
      refine List.take_left' ?_
      rw [trimOws, hconcat, List.length_append, List.length_singleton]
    have hlt : front.length + pre.length < front.length + segment.length := by omega
    simp only [hfirst, if_pos hlt, hone, Option.bind_eq_bind, Option.bind_some, hlast, Nat.le_add_right, if_true, sizeSub_add, htake]
    rfl

/-! ### The whole value -/

theorem splitCsv_eq (value : Bytes) : splitCsv value = (value.splitOn 44).flatMap elementOf := by
  rw [splitCsv]
  induction value.splitOn 44 with
  | nil => rfl
  | cons piece pieces ih =>
    rw [List.map_cons, List.filter_cons, List.flatMap_cons, elementOf, ih]
    by_cases hempty : trimOws piece = []
    · simp [hempty]
    · simp [hempty]

theorem splitCsvFrom_eq (front value : Bytes) :
    splitCsvFrom (front ++ value) front.length = some (splitCsv value) := by
  induction hn : value.length using Nat.strongRecOn generalizing front value with
  | ind n ih =>
    rw [splitCsvFrom, if_pos (by rw [List.length_append]; omega)]
    by_cases hcomma : 44 ∈ value
    · obtain ⟨segment, rest, rfl, hsegment⟩ := List.eq_append_cons_of_mem hcomma
      have hfree : ∀ c ∈ segment, (c == 44) = false := by
        intro c hc
        rw [beq_eq_false_iff_ne]
        rintro rfl
        exact hsegment hc
      have hfind : findFrom (· == 44) (front ++ (segment ++ 44 :: rest)) front.length =
          some (front.length + segment.length) := by
        rw [← List.append_assoc]
        exact findFrom_hit front hfree rfl rest
      have helement : csvElement (front ++ (segment ++ 44 :: rest)) front.length
          (front.length + segment.length) = some (elementOf segment) := by
        rw [← List.append_assoc]
        exact csvElement_eq front segment (44 :: rest)
      have hrest : splitCsvFrom (front ++ (segment ++ 44 :: rest))
          (front.length + segment.length + 1) = some (splitCsv rest) := by
        have hnext := ih rest.length (by rw [← hn]; simp; omega) (front ++ segment ++ [44]) rest rfl
        simpa [Nat.add_assoc] using hnext
      have hpieces : splitCsv (segment ++ 44 :: rest) = elementOf segment ++ splitCsv rest := by
        rw [splitCsv_eq, splitCsv_eq, List.splitOn_append_cons_self,
          List.splitOn_eq_singleton hsegment, List.singleton_append, List.flatMap_cons]
      split
      · rename_i hnone
        rw [hfind] at hnone
        cases hnone
      · rename_i comma hsome
        obtain rfl := Option.some.inj (hfind.symm.trans hsome)
        rw [helement, hrest, hpieces]
        rfl
    · have hfree : ∀ c ∈ value, (c == 44) = false := by
        intro c hc
        rw [beq_eq_false_iff_ne]
        rintro rfl
        exact hcomma hc
      have hfind : findFrom (· == 44) (front ++ value) front.length = none :=
        findFrom_miss front hfree
      have helement := csvElement_eq front value []
      rw [List.append_nil, ← List.length_append] at helement
      split
      · rw [helement, splitCsv_eq, List.splitOn_eq_singleton hcomma, List.flatMap_singleton]
      · rename_i comma hsome
        rw [hfind] at hsome
        cases hsome

/-- An element `join_csv` can write: not empty, without commas, without blanks at its ends. -/
def IsCsvElement (x : Bytes) : Prop := x ≠ [] ∧ 44 ∉ x ∧ (∀ c ∈ x.head?, isOws c = false) ∧
  ∀ c ∈ x.getLast?, isOws c = false

theorem IsCsvElement.trimOws {x : Bytes} (h : IsCsvElement x) : trimOws x = x := by
  obtain ⟨-, -, hhead, hlast⟩ := h
  have hfront : x.dropWhile isOws = x := by
    cases x with
    | nil => rfl
    | cons c t =>
      rw [List.dropWhile_cons, hhead c rfl]
      rfl
  rw [Aevrix.trimOws, trimBy, hfront, List.rdropWhile_eq_self_iff]
  intro hne
  rw [hlast _ (List.getLast?_eq_some_getLast hne)]
  exact Bool.false_ne_true

theorem splitCsv_joinCsv {xs : List Bytes} (h : ∀ x ∈ xs, IsCsvElement x) :
    splitCsv (joinCsv xs) = xs := by
  rw [splitCsv_eq, joinCsv]
  by_cases hempty : xs = []
  · rw [hempty]
    rfl
  · rw [List.splitOn_intercalate 44 (fun x hx => (h x hx).2.1) hempty]
    clear hempty
    induction xs with
    | nil => rfl
    | cons x xs ih =>
      have hx := h x List.mem_cons_self
      rw [List.flatMap_cons, ih fun y hy => h y (List.mem_cons_of_mem _ hy), elementOf, hx.trimOws,
        if_neg hx.1, List.singleton_append]

/-- The loop gives the elements of every value and goes below zero on none, and a joined list is
split into itself. -/
theorem splitCsv_exact (value : Bytes) (xs : List Bytes) (h : ∀ x ∈ xs, IsCsvElement x) :
    splitCsvLoop value =
        some (((value.splitOn 44).map trimOws).filter fun element => !element.isEmpty) ∧
      splitCsvLoop (joinCsv xs) = some xs := by
  have hloop : ∀ value, splitCsvLoop value = some (splitCsv value) := splitCsvFrom_eq []
  refine ⟨hloop value, ?_⟩
  rw [hloop, splitCsv_joinCsv h]

/-- Blanks, empty elements and a comma at the end. -/
theorem splitCsv_exact_paths : splitCsvLoop (ascii " /ws ,,\t, /chat,") =
      some (((ascii " /ws ,,\t, /chat,").splitOn 44).map trimOws |>.filter
        fun element => !element.isEmpty) ∧
    splitCsvLoop (joinCsv [ascii "/ws", ascii "/a b"]) = some [ascii "/ws", ascii "/a b"] := by
  refine splitCsv_exact _ _ fun x hx => ?_
  rcases List.mem_pair.mp hx with rfl | rfl
  · refine ⟨by decide, by decide, fun c hc => ?_, fun c hc => ?_⟩
    · rw [← Option.some.inj hc]
      rfl
    · rw [← Option.some.inj hc]
      rfl
  · refine ⟨by decide, by decide, fun c hc => ?_, fun c hc => ?_⟩
    · rw [← Option.some.inj hc]
      rfl
    · rw [← Option.some.inj hc]
      rfl

end Aevrix.Config
