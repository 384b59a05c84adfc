import Mathlib.Data.List.Infix

/-!
# Pieces between separators

A list that is cut at an element falls into pieces that do not have it, and each of them stands
in the list.
-/

namespace Incremental
variable {α : Type*} [BEq α] [LawfulBEq α] {c : α} {l piece : List α}

theorem notMem_of_mem_splitOn (h : piece ∈ l.splitOn c) : c ∉ piece := by
  induction l generalizing piece with
  | nil =>
    rw [List.splitOn_nil, List.mem_singleton] at h
    rw [h]
    exact List.not_mem_nil
  | cons d l ih =>
    rw [List.splitOn_cons_eq_if_modifyHead] at h
    split at h
    · rcases List.mem_cons.mp h with rfl | hrest
      · exact List.not_mem_nil
      · exact ih hrest
    · rename_i hne
      obtain ⟨first, rest, hsplit⟩ := List.exists_cons_of_ne_nil (List.splitOn_ne_nil c l)
      rw [hsplit] at h ih
      rcases List.mem_cons.mp h with rfl | hrest
      · intro hmem
        rcases List.mem_cons.mp hmem with rfl | htail
        · exact hne (beq_self_eq_true c)
        · exact ih List.mem_cons_self htail
      · exact ih (List.mem_cons_of_mem _ hrest)

omit [BEq α] [LawfulBEq α] in
theorem infix_intercalate {pieces : List (List α)} (h : piece ∈ pieces) :
    piece <:+: [c].intercalate pieces := by
  induction pieces with
  | nil => cases h
  | cons first rest ih =>
    cases rest with
    | nil =>
      rw [List.mem_singleton.mp h, List.intercalate_singleton]
    | cons second rest =>
      rw [List.intercalate_cons_cons]
      rcases List.mem_cons.mp h with rfl | hrest
      · rw [List.append_assoc]
        exact (List.prefix_append _ _).isInfix
      · exact (ih hrest).trans (List.suffix_append _ _).isInfix

theorem infix_of_mem_splitOn (h : piece ∈ l.splitOn c) : piece <:+: l := by
  have hwhole : [c].intercalate (l.splitOn c) = l := List.intercalate_splitOn c
  have hinside : piece <:+: [c].intercalate (l.splitOn c) := infix_intercalate h
  rwa [hwhole] at hinside

omit [BEq α] [LawfulBEq α] in
/-- `piece` stands in `l` between elements with `sep` or the ends of `l`. -/
def Stands (sep : α → Prop) (l piece : List α) : Prop := ∃ pre post, l = pre ++ piece ++ post ∧
  (∀ c ∈ pre.getLast?, sep c) ∧ ∀ c ∈ post.head?, sep c

omit [BEq α] [LawfulBEq α] in
theorem Stands.self (sep : α → Prop) (l : List α) : Stands sep l l :=
  ⟨[], [], by simp, by simp, by simp⟩

omit [BEq α] [LawfulBEq α] in
theorem Stands.inner {sep sep' : α → Prop} {t pre post : List α} (h : Stands sep l piece)
    (hsep : ∀ c, sep c → sep' c) (hsplit : piece = pre ++ t ++ post) (hpre : ∀ c ∈ pre, sep' c)
    (hpost : ∀ c ∈ post, sep' c) : Stands sep' l t := by
  obtain ⟨front, back, hl, hfront, hback⟩ := h
  refine ⟨front ++ pre, post ++ back, ?_, fun c hc => ?_, fun c hc => ?_⟩
  · rw [hl, hsplit]
    simp only [List.append_assoc]
  · rw [List.getLast?_append, Option.mem_def, Option.or_eq_some_iff] at hc
    rcases hc with hc | ⟨-, hc⟩
    · exact hpre c (List.mem_of_getLast? hc)
    · exact hsep c (hfront c hc)
  · rw [List.head?_append, Option.mem_def, Option.or_eq_some_iff] at hc
    rcases hc with hc | ⟨-, hc⟩
    · exact hpost c (List.mem_of_head? hc)
    · exact hsep c (hback c hc)

theorem mem_splitOn_iff : piece ∈ l.splitOn c ↔ c ∉ piece ∧ Stands (· = c) l piece := by
  constructor
  · intro h
    refine ⟨notMem_of_mem_splitOn h, ?_⟩
    induction hn : l.length using Nat.strongRecOn generalizing l with
    | ind n ih =>
      by_cases hc : c ∈ l
      · obtain ⟨first, rest, rfl, hfirst⟩ := List.eq_append_cons_of_mem hc
        rw [List.splitOn_append_cons_self, List.splitOn_eq_singleton hfirst,
          List.singleton_append] at h
        rcases List.mem_cons.mp h with rfl | hrest
        · exact ⟨[], c :: rest, rfl, by simp, by simp⟩
        · have hlt : rest.length < n := by
            rw [← hn, List.length_append, List.length_cons]
            omega
          obtain ⟨pre, post, rfl, hpre, hpost⟩ := ih _ hlt hrest rfl
          refine ⟨first ++ c :: pre, post, by simp, fun d hd => ?_, hpost⟩
          rw [List.getLast?_append, List.getLast?_cons] at hd
          cases hlast : pre.getLast? with
          | none =>
            rw [hlast] at hd
            exact (Option.some.inj hd).symm
          | some e =>
            rw [hlast] at hd
            rw [← Option.some.inj hd]
            exact hpre e hlast
      · rw [List.splitOn_eq_singleton hc, List.mem_singleton] at h
        rw [h]
        exact .self _ _
  · rintro ⟨hc, pre, post, rfl, hpre, hpost⟩
    have htail : piece ∈ (piece ++ post).splitOn c := by
      cases post with
      | nil =>
        rw [List.append_nil, List.splitOn_eq_singleton hc]
        exact List.mem_singleton_self _
      | cons d post =>
        rw [hpost d rfl, List.splitOn_append_cons_self, List.splitOn_eq_singleton hc]
        exact List.mem_cons_self
    rcases List.eq_nil_or_concat' pre with rfl | ⟨front, d, rfl⟩
    · exact htail
    · rw [hpre d List.getLast?_concat, List.append_assoc, List.append_assoc,
        List.singleton_append, List.splitOn_append_cons_self]
      exact List.mem_append_right _ htail

end Incremental
