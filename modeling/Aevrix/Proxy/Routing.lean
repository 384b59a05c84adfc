import Aevrix.Proxy.RequestBuilder

/-!
# Routing and rewriting

A target is routed by its path, and rewritten by taking the same prefix off the same path. Both
agree on where the path ends and where the prefix does (`routing_agrees`).
-/

namespace Aevrix.Proxy
open Aevrix.Http

/-- The path of a target, and the query with its question mark. -/
structure TargetParts (target path query : Bytes) : Prop where
  whole : target = path ++ query
  path : 63 ∉ path
  query : ∀ c ∈ query.head?, c = 63

/-- `path` is `pathPrefix`, or goes on from it at the boundary of a segment. -/
def Under (pathPrefix path : Bytes) : Prop := ∃ rest, path = pathPrefix ++ rest ∧
  (rest = [] ∨ pathPrefix.getLast? = some 47 ∨ rest.head? = some 47)

section target
variable {target path query pathPrefix : Bytes}

theorem TargetParts.splitTarget (h : TargetParts target path query) :
    splitTarget target = (path, query) := by
  have hpath : ∀ c ∈ path, (c != 63) = true := by
    intro c hc
    rw [bne_iff_ne]
    rintro rfl
    exact h.path hc
  have hquery : query.takeWhile (· != 63) = [] ∧ query.dropWhile (· != 63) = query := by
    cases query with
    | nil => exact ⟨rfl, rfl⟩
    | cons c t =>
      have hc := h.query c rfl
      rw [hc]
      exact ⟨rfl, rfl⟩
  rw [Proxy.splitTarget, h.whole, List.takeWhile_append_of_pos hpath, hquery.1, List.append_nil,
    List.dropWhile_append_of_pos hpath, hquery.2]

theorem TargetParts.head_iff (h : TargetParts target path query) :
    target.head? = some 47 ↔ path.head? = some 47 := by
  rw [h.whole, List.head?_append]
  cases path with
  | nil =>
    rw [List.head?_nil, Option.none_or]
    refine iff_of_false (fun hslash => ?_) (by rintro ⟨⟩)
    exact absurd (h.query 47 hslash) (by decide)
  | cons c t => rfl

theorem matches_iff (h : TargetParts target path query) (hp : pathPrefix.head? = some 47) :
    proxyTargetMatches target pathPrefix = true ↔ Under pathPrefix path := by
  have hne : pathPrefix ≠ [] := by
    rintro rfl
    cases hp
  unfold proxyTargetMatches
  rw [if_neg hne]
  split
  · rename_i hroot
    have hslash : pathPrefix = [47] := hroot.trans (by decide)
    rw [beq_iff_eq, h.head_iff, hslash]
    constructor
    · intro hhead
      obtain ⟨rest, hrest⟩ := List.head?_eq_some_iff.mp hhead
      exact ⟨rest, hrest, Or.inr (Or.inl rfl)⟩
    · rintro ⟨rest, rfl, -⟩
      rfl
  · rw [h.splitTarget]
    simp only
    constructor
    · intro hmatch
      split at hmatch
      · cases hmatch
      rename_i hprefix
      rw [Bool.not_eq_true, Bool.not_eq_false'] at hprefix
      obtain ⟨rest, rfl⟩ := List.isPrefixOf_iff_prefix.mp hprefix
      refine ⟨rest, rfl, ?_⟩
      split at hmatch
      · rename_i hlen
        rw [List.length_append] at hlen
        exact Or.inl (List.length_eq_zero_iff.mp (by omega))
      split at hmatch
      · rename_i hlast
        exact Or.inr (Or.inl hlast)
      · rw [beq_iff_eq, List.getElem?_append_right (le_refl _), Nat.sub_self,
          ← List.head?_eq_getElem?] at hmatch
        exact Or.inr (Or.inr hmatch)
    · rintro ⟨rest, rfl, hboundary⟩
      rw [if_neg (by simp [List.isPrefixOf_iff_prefix])]
      split
      · rfl
      rename_i hlen
      split
      · rfl
      rename_i hlast
      rcases hboundary with rfl | hlast' | hnext
      · exact (hlen (by rw [List.append_nil])).elim
      · exact (hlast hlast').elim
      · rw [beq_iff_eq, List.getElem?_append_right (le_refl _), Nat.sub_self,
          ← List.head?_eq_getElem?, hnext]

/-- A path with its slash in front. -/
def slashed (path : Bytes) : Bytes := if path.head? = some 47 then path else 47 :: path

theorem slashed_head (path : Bytes) : (slashed path).head? = some 47 := by
  unfold slashed
  split
  · assumption
  · rfl

theorem notMem_slashed (h : 63 ∉ path) : 63 ∉ slashed path := by
  unfold slashed
  split
  · exact h
  · rw [List.mem_cons, not_or]
    exact ⟨by decide, h⟩

/-- A path without its prefix, unless stripping is off or the prefix is the root. -/
theorem upstreamPath_eq {rest : Bytes} (h : TargetParts target path query)
    (hp : pathPrefix.head? = some 47) (hpath : path = pathPrefix ++ rest) (stripPrefix : Bool) :
    proxyUpstreamPath target pathPrefix stripPrefix =
      (if stripPrefix = true ∧ pathPrefix ≠ ascii "/" then slashed rest else path) ++ query := by
  have hne : pathPrefix ≠ [] := by
    rintro rfl
    cases hp
  have hprefix : pathPrefix.isPrefixOf path = true := by
    rw [List.isPrefixOf_iff_prefix, hpath]
    exact List.prefix_append _ _
  have hslash : path.head? = some 47 := by
    rw [hpath, List.head?_append, hp]
    rfl
  have hpathne : path ≠ [] := by
    rintro rfl
    cases hslash
  unfold proxyUpstreamPath
  rw [h.splitTarget]
  simp only [hpathne, if_false, hne, hprefix, ne_eq, not_false_eq_true, true_and, and_true]
  congr 1
  by_cases hstrip : stripPrefix = true ∧ pathPrefix ≠ ascii "/"
  · rw [if_pos hstrip, if_pos hstrip, hpath, List.drop_left, slashed]
  · rw [if_neg hstrip, if_neg hstrip, if_pos hslash]
end target

/-- For an absolute prefix, what is routed is what lies under it, and is rewritten in its path
alone: the prefix goes, a slash stays in front. -/
theorem routing_agrees {target path query pathPrefix : Bytes}
    (h : TargetParts target path query) (hp : pathPrefix.head? = some 47) (stripPrefix : Bool) :
    (proxyTargetMatches target pathPrefix = true ↔ Under pathPrefix path) ∧
    (proxyTargetMatches target pathPrefix = true →
      ∃ rewritten, TargetParts (proxyUpstreamPath target pathPrefix stripPrefix) rewritten query ∧
        rewritten.head? = some 47 ∧
        (stripPrefix = false ∨ pathPrefix = ascii "/" →
          proxyUpstreamPath target pathPrefix stripPrefix = target) ∧
        (stripPrefix = true → pathPrefix ≠ ascii "/" → ∀ rest, path = pathPrefix ++ rest →
          rewritten = if rest.head? = some 47 then rest else 47 :: rest)) := by
  refine ⟨matches_iff h hp, fun hmatch => ?_⟩
  obtain ⟨rest, hpath, -⟩ := (matches_iff h hp).mp hmatch
  have hupstream := upstreamPath_eq h hp hpath stripPrefix
  have hfree : 63 ∉ rest := fun hmem => h.path (hpath ▸ List.mem_append_right _ hmem)
  by_cases hstrip : stripPrefix = true ∧ pathPrefix ≠ ascii "/"
  · rw [if_pos hstrip] at hupstream
    refine ⟨slashed rest, ⟨hupstream, notMem_slashed hfree, h.query⟩, slashed_head rest, ?_, ?_⟩
    · rintro (hoff | hroot)
      · rw [hoff] at hstrip
        cases hstrip.1
      · exact (hstrip.2 hroot).elim
    · intro _ _ other hother
      rw [hpath] at hother
      rw [← List.append_cancel_left hother, slashed]
  · rw [if_neg hstrip] at hupstream
    have hhead : path.head? = some 47 := by
      rw [hpath, List.head?_append, hp]
      rfl
    refine ⟨path, ⟨hupstream, h.path, h.query⟩, hhead, fun _ => hupstream.trans h.whole.symm, ?_⟩
    intro hon hnot
    exact (hstrip ⟨hon, hnot⟩).elim

/-- A query directly behind the prefix. -/
theorem routing_agrees_query :
    proxyTargetMatches (ascii "/api?q=1") (ascii "/api") = true ∧
      ∃ rewritten, TargetParts (proxyUpstreamPath (ascii "/api?q=1") (ascii "/api") true) rewritten
        (ascii "?q=1") ∧ rewritten = ascii "/" := by
  have hparts : TargetParts (ascii "/api?q=1") (ascii "/api") (ascii "?q=1") :=
    ⟨by decide, by decide, fun c hc => (Option.some.inj hc).symm⟩
  have hslash : (ascii "/api").head? = some 47 := by decide
  obtain ⟨hiff, hrewrite⟩ := routing_agrees hparts hslash true
  have hmatch := hiff.mpr ⟨[], by decide, Or.inl rfl⟩
  obtain ⟨rewritten, hupstream, -, -, hrest⟩ := hrewrite hmatch
  exact ⟨hmatch, rewritten, hupstream, (hrest rfl (by decide) [] (by decide)).trans (by decide)⟩

end Aevrix.Proxy
