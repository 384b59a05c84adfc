import Aevrix.Incremental.Splits
import Aevrix.Proxy.Tokens
import Aevrix.Server.Connection
import Aevrix.Server.Handshake

/-!
# The readers of a Connection field

Three functions look for `close` in a list. The handshake's goes by elements; the proxy's takes
any word between blanks or commas for one; the server's compares the whole value. They agree on a
value that is `close` alone, or does not have the word (`readersAgree_iff`).
-/

namespace Aevrix.Server
open Aevrix.Http Aevrix.Proxy Incremental

/-- Some element of the list `v`, trimmed of blanks, is `token`, letter case aside. -/
def HasElement (v token : Bytes) : Prop := ∃ part, 44 ∉ part ∧ Stands (· = 44) v part ∧
  (trimOws part).map toLower = token.map toLower

/-- The three readers decide alike on a Connection field with the value `v`, and as the list
says. -/
structure ReadersAgree (c : Connection σ) (request : HttpRequest) (v : Bytes) : Prop where
  closes : (c.evaluateKeepAlive (request.setHeader (ascii "Connection") v)).keepAlive = false ↔
    HasElement v (ascii "close")
  contains : containsToken v (ascii "close") = true ↔ HasElement v (ascii "close")
  header : headerHasToken v (ascii "close") = true ↔ HasElement v (ascii "close")

/-! ### One reader at a time -/

theorem headerHasToken_iff (v token : Bytes) :
    headerHasToken v token = true ↔ HasElement v token := by
  rw [headerHasToken, List.any_eq_true]
  constructor
  · rintro ⟨part, hpart, heq⟩
    obtain ⟨hcomma, hstands⟩ := mem_splitOn_iff.mp hpart
    exact ⟨part, hcomma, hstands, beq_iff_eq.mp heq⟩
  · rintro ⟨part, hcomma, hstands, heq⟩
    exact ⟨part, mem_splitOn_iff.mpr ⟨hcomma, hstands⟩, beq_iff_eq.mpr heq⟩

theorem evaluateKeepAlive_closes (c : Connection σ) {request : HttpRequest} (v : Bytes)
    (hversion : request.version = ascii "HTTP/1.1") :
    (c.evaluateKeepAlive (request.setHeader (ascii "Connection") v)).keepAlive = false ↔
      (trimWhitespace v).map toLower = ascii "close" := by
  have hget : (request.setHeader (ascii "Connection") v).getHeader (ascii "Connection") =
      trimWhitespace v := HttpHeaders.get_set_self ..
  unfold Connection.evaluateKeepAlive
  simp only [hget]
  rw [show (request.setHeader (ascii "Connection") v).version = _ from hversion, if_pos rfl,
    bne_eq_false_iff_eq]

/-! ### The word and the element -/

theorem HasElement.hasWord {v token : Bytes} (h : HasElement v token) : HasWord v token := by
  obtain ⟨part, -, hstands, heq⟩ := h
  obtain ⟨pre, post, hsplit, hpre, hpost⟩ := trimBy_split isOws part
  have hows : ∀ {c : Byte}, isOws c = true → isSeparator c = true := by
    intro c hc
    rw [isSeparator, hc, Bool.or_true]
  refine ⟨trimOws part, heq, hstands.inner (fun c hc => ?_) hsplit (fun c hc => hows (hpre c hc))
    fun c hc => hows (hpost c hc)⟩
  rw [hc]
  rfl

theorem isTrimmable_toLower (c : Byte) : isTrimmable (toLower c) = isTrimmable c := by
  unfold toLower
  split
  · rename_i hupper
    unfold isUpper at hupper
    unfold isTrimmable
    grind
  · rfl

theorem isTrimmable_of_isOws {c : Byte} (h : isOws c = true) : isTrimmable c = true := by
  unfold isOws at h
  unfold isTrimmable
  rw [h, Bool.true_or, Bool.true_or]

/-- A value that is a word without commas, but for what stands around it, has no comma. -/
theorem comma_notMem {p : Byte → Bool} (hp : p 44 = false) {v token : Bytes}
    (htoken : 44 ∉ token.map toLower) (h : (trimBy p v).map toLower = token.map toLower) :
    44 ∉ v := by
  obtain ⟨pre, post, hsplit, hpre, hpost⟩ := trimBy_split p v
  rw [hsplit, List.mem_append, List.mem_append]
  rintro ((hc | hc) | hc)
  · rw [hpre _ hc] at hp
    cases hp
  · rw [← h] at htoken
    exact htoken (List.mem_map.mpr ⟨44, hc, rfl⟩)
  · rw [hpost _ hc] at hp
    cases hp

theorem hasElement_of_notMem {v token : Bytes} (hv : 44 ∉ v) :
    HasElement v token ↔ (trimOws v).map toLower = token.map toLower := by
  rw [← headerHasToken_iff, headerHasToken, List.splitOn_eq_singleton hv]
  simp

theorem alone_iff (v : Bytes) {token : Bytes} (htoken : 44 ∉ token.map toLower)
    (hfree : ∀ c ∈ token.map toLower, isTrimmable c = false) :
    (trimOws v).map toLower = token.map toLower ↔
      HasElement v token ∧ (trimWhitespace v).map toLower = token.map toLower := by
  constructor
  · intro h
    refine ⟨(hasElement_of_notMem (comma_notMem rfl htoken h)).mpr h, ?_⟩
    have hnone : ∀ c ∈ trimOws v, isTrimmable c = false := by
      intro c hc
      rw [← isTrimmable_toLower]
      exact hfree _ (h ▸ List.mem_map_of_mem hc)
    have htrim : trimWhitespace (trimOws v) = trimWhitespace v :=
      trimBy_trimBy (fun c hc => isTrimmable_of_isOws hc) v
    rw [← htrim, trimWhitespace, trimBy_of_none hnone, h]
  · rintro ⟨helement, hwhole⟩
    exact (hasElement_of_notMem (comma_notMem rfl htoken hwhole)).mp helement

/-- The readers agree on `v` just when it is `close` alone, blanks aside, or has no such word; and
what a line break alone stands beside is not `close` either. -/
theorem readersAgree_iff (c : Connection σ) {request : HttpRequest}
    (hversion : request.version = ascii "HTTP/1.1") (v : Bytes) :
    ReadersAgree c request v ↔ (trimOws v).map toLower = ascii "close" ∨
      ¬HasWord v (ascii "close") ∧ (trimWhitespace v).map toLower ≠ ascii "close" := by
  have halone : (trimOws v).map toLower = (ascii "close").map toLower ↔
      HasElement v (ascii "close") ∧
        (trimWhitespace v).map toLower = (ascii "close").map toLower :=
    alone_iff v (by decide) (by decide)
  have hlower : (ascii "close").map toLower = ascii "close" := by decide
  have hword : HasElement v (ascii "close") → HasWord v (ascii "close") := HasElement.hasWord
  have hreaders : ReadersAgree c request v ↔
      ((trimWhitespace v).map toLower = ascii "close" ↔ HasElement v (ascii "close")) ∧
        (HasWord v (ascii "close") ↔ HasElement v (ascii "close")) := by
    constructor
    · rintro ⟨hcloses, hcontains, -⟩
      rw [evaluateKeepAlive_closes c v hversion] at hcloses
      rw [containsToken_iff (by decide)] at hcontains
      exact ⟨hcloses, hcontains⟩
    · rintro ⟨hcloses, hcontains⟩
      refine ⟨?_, ?_, headerHasToken_iff v _⟩
      · rwa [evaluateKeepAlive_closes c v hversion]
      · rwa [containsToken_iff (by decide)]
  rw [hlower] at halone
  rw [hreaders, halone]
  tauto

/-! ### Where they do not agree -/

/-- In a list the server does not see `close`; behind a blank the proxy sees it without a list. -/
theorem closing_lists_differ :
    HasElement (ascii "keep-alive, close") (ascii "close") ∧
    (({ id := 1 } : Connection Unit).evaluateKeepAlive
      (HttpRequest.setHeader {} (ascii "Connection") (ascii "keep-alive, close"))).keepAlive = true ∧
    containsToken (ascii "keep-alive, close") (ascii "close") = true ∧
    ¬HasElement (ascii "never close") (ascii "close") ∧
    containsToken (ascii "never close") (ascii "close") = true := by
  rw [← headerHasToken_iff, ← headerHasToken_iff]
  decide

/-- On `close` alone they agree. -/
theorem readersAgree_iff_alone :
    ReadersAgree ({ id := 1 } : Connection Unit) {} (ascii "\t Close ") :=
  (readersAgree_iff _ rfl _).mpr (Or.inl (by decide))

end Aevrix.Server
