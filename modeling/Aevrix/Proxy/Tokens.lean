import Aevrix.Incremental.Splits
import Aevrix.Proxy.ResponseParser

/-!
# Words in a field value

`contains_token` looks for a word between commas, blanks or the ends of a value.
-/

namespace Aevrix.Proxy
open Aevrix.Http Incremental

/-- The word `token`, between commas, blanks or the ends of `v`. -/
def HasWord (v token : Bytes) : Prop := ∃ word, word.map toLower = token.map toLower ∧
  Stands (fun c => isSeparator c = true) v word

theorem containsToken_iff {v token : Bytes} (ht : token ≠ []) :
    containsToken v token = true ↔ HasWord v token := by
  unfold containsToken
  constructor
  · intro h
    split at h
    · cases h
    rename_i hlength
    rw [not_or, Nat.not_lt] at hlength
    obtain ⟨i, hi, hmatch⟩ := List.any_eq_true.mp h
    rw [List.mem_range] at hi
    simp only [Bool.and_eq_true, Bool.or_eq_true, beq_iff_eq, Option.all_eq_true] at hmatch
    obtain ⟨⟨hsame, hleft⟩, hright⟩ := hmatch
    have hlen : ((v.drop i).take token.length).length = token.length := by
      rw [List.length_take, List.length_drop]
      omega
    refine ⟨(v.drop i).take token.length, hsame, v.take i, v.drop (i + token.length), ?_, ?_, ?_⟩
    · rw [List.append_assoc, ← List.drop_drop, List.take_append_drop, List.take_append_drop]
    · intro c hc
      rw [Option.mem_def, List.getLast?_eq_getElem?, List.length_take,
        Nat.min_eq_left (by omega)] at hc
      rcases hleft with hzero | hleft
      · rw [hzero, List.take_zero] at hc
        cases hc
      · refine hleft c ?_
        by_cases hzero : i = 0
        · rw [hzero, List.take_zero] at hc
          cases hc
        · rwa [List.getElem?_take_of_lt (by omega)] at hc
    · intro c hc
      rw [Option.mem_def, List.head?_drop] at hc
      exact hright c hc
  · rintro ⟨word, hword, pre, post, rfl, hpre, hpost⟩
    have hlen : token.length = word.length := by
      simpa using (congrArg List.length hword).symm
    have htaken : ((pre ++ word ++ post).drop pre.length).take token.length = word := by
      rw [List.append_assoc, List.drop_left, hlen, List.take_left]
    have hnot : ¬(token = [] ∨ (pre ++ word ++ post).length < token.length) := by
      rw [List.length_append, List.length_append, hlen]
      exact not_or.mpr ⟨ht, by omega⟩
    rw [if_neg hnot]
    refine List.any_eq_true.mpr ⟨pre.length, ?_, ?_⟩
    · rw [List.mem_range, List.length_append, List.length_append, hlen]
      omega
    · simp only [Bool.and_eq_true, Bool.or_eq_true, beq_iff_eq, Option.all_eq_true]
      refine ⟨⟨by rw [htaken, hword], ?_⟩, ?_⟩
      · by_cases hzero : pre.length = 0
        · exact Or.inl hzero
        · refine Or.inr fun c hc => hpre c ?_
          rw [List.append_assoc, List.getElem?_append_left (by omega)] at hc
          rwa [Option.mem_def, List.getLast?_eq_getElem?]
      · intro c hc
        rw [List.getElem?_append_right (by rw [List.length_append]; omega), List.length_append,
          hlen, Nat.sub_self] at hc
        refine hpost c ?_
        rwa [Option.mem_def, List.head?_eq_getElem?]

theorem containsToken_self {value token : Bytes} (ht : token ≠ [])
    (h : value.map toLower = token.map toLower) : containsToken value token = true :=
  (containsToken_iff ht).mpr ⟨value, h, .self _ _⟩

theorem containsToken_bare {value token : Bytes} (hbare : ∀ c ∈ value, isSeparator c = false)
    (h : containsToken value token = true) : value.map toLower = token.map toLower := by
  have ht : token ≠ [] := by
    rintro rfl
    simp [containsToken] at h
  obtain ⟨word, hword, pre, post, rfl, hpre, hpost⟩ := (containsToken_iff ht).mp h
  have hfree : ∀ c, c ∈ pre ++ word ++ post → ¬isSeparator c = true := fun c hc => by
    simp [hbare c hc]
  have hstart : pre = [] := by
    rw [← List.getLast?_eq_none_iff, Option.eq_none_iff_forall_ne_some]
    intro c hc
    exact hfree c (by simp [List.mem_of_getLast? hc]) (hpre c hc)
  have hend : post = [] := by
    rw [← List.head?_eq_none_iff, Option.eq_none_iff_forall_ne_some]
    intro c hc
    exact hfree c (by simp [List.mem_of_head? hc]) (hpost c hc)
  rw [hstart, hend, List.nil_append, List.append_nil, hword]

end Aevrix.Proxy
