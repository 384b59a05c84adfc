import Aevrix.Incremental.Search
import Aevrix.Proxy.RequestBuilder

/-!
# A target and its printed form (`proxy_target.cpp`)

What `parse_proxy_target` reads, step by step, and what it makes of `authority()`. The brackets of
an address are not printed again, so that the printed form parses back just where it needs none.
-/

namespace Aevrix.Proxy
open Aevrix.Http Incremental

section parse
variable {value text host portText : Bytes} {target : ProxyTarget} {port : UInt16}

/-! ### What was read -/

theorem parse_ok (htrim : trimWhitespace value ≠ [])
    (hauthority : authorityText (trimWhitespace value) = .ok text) (htext : text ≠ [])
    (hsplit : splitAuthority text = .ok (host, portText)) (hhost : isValidHost host = true)
    (hport : PortRead portText port) : parseProxyTarget value = .ok ⟨host, port⟩ := by
  unfold parseProxyTarget
  simp only [htrim, if_false, hauthority]
  change (if text = [] then throw _ else _) = _
  rw [if_neg htext]
  rw [hsplit]
  change (if !isValidHost host then throw _ else _) = _
  rw [if_neg (by rw [hhost]; decide)]
  change (if portText = [] then _ else _) = _
  rcases hport with ⟨hnone, rfl⟩ | ⟨hsome, hport⟩
  · rw [if_pos hnone]
    rfl
  · rw [if_neg hsome]
    change (parsePort portText >>= _) = _
    rw [hport]
    rfl

/-! ### Ports -/

theorem parsePort_range (h : parsePort portText = .ok port) : port.toNat ≠ 0 := by
  unfold parsePort at h
  simp only at h
  split at h
  · cases h
  split at h
  · cases h
  split at h
  · cases h
  rename_i hrange
  have hlt : decimalValue portText < UInt16.size := by
    rw [UInt16.size]
    omega
  rw [← Except.ok.inj h, UInt16.toNat_ofNat_of_lt' hlt]
  omega

theorem PortRead.ne_zero (h : PortRead portText port) : port.toNat ≠ 0 := by
  rcases h with ⟨-, rfl⟩ | ⟨-, h⟩
  · decide
  · exact parsePort_range h

theorem parsePort_decimalText (h : port.toNat ≠ 0) :
    parsePort (decimalText port.toNat) = .ok port := by
  obtain ⟨hne, hdigits, hvalue⟩ := isDecimal_decimalText port.toNat
  have hlt : port.toNat < 65536 := port.toNat_lt
  have hlength : (decimalText port.toNat).length ≤ 5 :=
    (decimalText_length_le (by decide)).mpr (by omega)
  unfold parsePort
  simp only [hvalue]
  rw [if_neg (by rw [not_or]; exact ⟨hne, by omega⟩),
    if_neg (by rw [List.all_eq_true.mpr hdigits]; decide), if_neg (by omega)]
  rw [UInt16.ofNat_toNat]

theorem decimalText_free {c : Byte} (h : isDigit c = false) (n : ℕ) : c ∉ decimalText n := by
  intro hmem
  rw [(isDecimal_decimalText n).2.1 c hmem] at h
  cases h

/-! ### Hosts -/

/-- An authority is split at its brackets, or it has a name without colon and bracket. -/
theorem splitAuthority_cases (h : splitAuthority text = .ok (host, portText)) :
    (∃ rest, text = 91 :: (host ++ 93 :: rest) ∧ 93 ∉ host) ∨
      58 ∉ host ∧ text.head? ≠ some 91 ∧ host <+: text := by
  unfold splitAuthority at h
  split at h
  · rename_i address
    left
    split at h
    · cases h
    rename_i hclose
    obtain ⟨front, rest, rfl, hfront⟩ := List.eq_append_cons_of_mem (not_not.mp hclose)
    simp only [takeWhile_cut hfront, dropWhile_cut hfront] at h
    have hhost : front = host := by
      split at h
      · exact congrArg Prod.fst (Except.ok.inj h)
      · exact congrArg Prod.fst (Except.ok.inj h)
      · cases h
    exact ⟨rest, by rw [hhost], hhost ▸ hfront⟩
  · rename_i hopen
    right
    have hhead : text.head? ≠ some 91 := by
      intro hhead
      obtain ⟨address, rfl⟩ := List.head?_eq_some_iff.mp hhead
      exact hopen address rfl
    split at h
    · rename_i hcolon
      obtain ⟨rfl, -⟩ := Prod.mk.inj (Except.ok.inj h)
      exact ⟨hcolon, hhead, List.prefix_refl _⟩
    split at h
    · obtain ⟨rfl, -⟩ := Prod.mk.inj (Except.ok.inj h)
      refine ⟨fun hmem => ?_, hhead, List.takeWhile_prefix _⟩
      have hstop := List.mem_takeWhile_imp (p := fun c : Byte => c != 58) hmem
      cases hstop
    · cases h

theorem splitAuthority_brackets (h : splitAuthority text = .ok (host, portText)) (hne : host ≠ [])
    (hhost : 58 ∈ host ∨ host.head? = some 91) :
    ∃ rest, text = 91 :: (host ++ 93 :: rest) ∧ 93 ∉ host := by
  rcases splitAuthority_cases h with hbrackets | ⟨hcolon, hopen, after, rfl⟩
  · exact hbrackets
  · rcases hhost with hmem | hhead
    · exact (hcolon hmem).elim
    · exact (hopen ((List.head?_append_of_ne_nil _ hne).trans hhead)).elim

theorem splitAuthority_name (hne : host ≠ []) (hcolon : 58 ∉ host) (hhead : host.head? ≠ some 91)
    (hport : 58 ∉ portText) : splitAuthority (host ++ 58 :: portText) = .ok (host, portText) := by
  unfold splitAuthority
  split
  · rename_i address heq
    have hopen : (host ++ 58 :: portText).head? = some 91 := congrArg List.head? heq
    rw [List.head?_append_of_ne_nil _ hne] at hopen
    exact (hhead hopen).elim
  · have hcount : (host ++ 58 :: portText).count 58 = 1 := by
      rw [List.count_append, List.count_cons_self, List.count_eq_zero.mpr hcolon,
        List.count_eq_zero.mpr hport]
    rw [if_neg (by simp), if_pos hcount, takeWhile_cut hcolon, dropWhile_cut hcolon,
      List.drop_one, List.tail_cons]

/-- No name and port are read off a name with a colon or a bracket in front of it. -/
theorem splitAuthority_lossy (hhost : 58 ∈ host ∨ host.head? = some 91) (hclose : 93 ∉ host)
    (hport : 93 ∉ portText) (x : Bytes × Bytes) :
    splitAuthority (host ++ 58 :: portText) ≠ .ok x := by
  intro h
  obtain ⟨name, rest⟩ := x
  rcases splitAuthority_cases h with ⟨after, htext, -⟩ | ⟨-, hopen, -⟩
  · have hmem : 93 ∈ host ++ 58 :: portText := by
      rw [htext]
      simp
    rcases List.mem_append.mp hmem with hmem | hmem
    · exact hclose hmem
    · rcases List.mem_cons.mp hmem with heq | hmem
      · cases heq
      · exact hport hmem
  · rcases hhost with hcolon | hhead
    · unfold splitAuthority at h
      split at h
      · rename_i address heq
        exact hopen (congrArg List.head? heq)
      have hcount : (host ++ 58 :: portText).count 58 ≠ 1 := by
        have hpos := List.count_pos_iff.mpr hcolon
        rw [List.count_append, List.count_cons_self]
        omega
      rw [if_neg (by simp), if_neg hcount] at h
      cases h
    · have hne : host ≠ [] := by
        rintro rfl
        cases hhead
      exact hopen ((List.head?_append_of_ne_nil _ hne).trans hhead)

/-! ### The text of an authority -/

/-- A byte of an authority: no path, query or fragment begins with it. -/
def isInside (c : Byte) : Bool := decide (c ∉ ascii "/?#")

theorem splitScheme_sound : ∀ {text : Bytes} {x : Bytes × Bytes}, splitScheme text = some x →
    text = x.1 ++ ascii "://" ++ x.2 := by
  intro text
  induction text with
  | nil =>
    intro x h
    cases h
  | cons c text ih =>
    intro x h
    rw [splitScheme] at h
    split at h
    · rename_i hprefix
      obtain ⟨rest, hrest⟩ := List.isPrefixOf_iff_prefix.mp hprefix
      obtain ⟨rfl, htail⟩ := List.cons.inj hrest
      rw [← Option.some.inj h, ← htail]
      rfl
    · obtain ⟨y, hy, rfl⟩ := Option.map_eq_some_iff.mp h
      rw [ih hy]
      rfl

theorem splitScheme_scheme {scheme : Bytes} (h : 58 ∉ scheme) (rest : Bytes) :
    splitScheme (scheme ++ (ascii "://" ++ rest)) = some (scheme, rest) := by
  induction scheme with
  | nil =>
    change splitScheme (58 :: 47 :: 47 :: rest) = some ([], rest)
    rw [splitScheme, if_pos (by simp [ascii])]
    rfl
  | cons c scheme ih =>
    rw [List.mem_cons, not_or] at h
    have hfirst : (ascii "://").isPrefixOf (c :: (scheme ++ (ascii "://" ++ rest))) = false := by
      change (58 == c && _) = false
      rw [beq_eq_false_iff_ne.mpr h.1, Bool.false_and]
    rw [List.cons_append, splitScheme, hfirst, if_neg (by decide), ih h.2, Option.map_some]

theorem authorityText_plain (h : ∀ c ∈ text, isInside c = true) :
    authorityText text = .ok text := by
  have hscheme : splitScheme text = none := by
    rw [Option.eq_none_iff_forall_ne_some]
    intro x hx
    have hslash : 47 ∈ text := by
      rw [splitScheme_sound hx]
      simp [ascii]
    cases h 47 hslash
  unfold authorityText
  rw [hscheme]
  exact congrArg Except.ok (List.takeWhile_eq_self_iff.mpr h)

/-- What may stand in front of an authority: nothing, or the scheme. -/
def IsFront (front : Bytes) : Prop := front = [] ∨ front.map toLower = ascii "http://"

theorem authorityText_ok (h : authorityText value = .ok text) :
    ∃ front rest, IsFront front ∧ value = front ++ (text ++ rest) := by
  unfold authorityText at h
  simp only at h
  split at h
  · rw [← Except.ok.inj h]
    obtain ⟨rest, hrest⟩ := List.takeWhile_prefix isInside (l := value)
    exact ⟨[], rest, Or.inl rfl, hrest.symm⟩
  · rename_i scheme after hscheme
    split at h
    · rename_i hhttp
      rw [← Except.ok.inj h]
      obtain ⟨rest, hrest⟩ := List.takeWhile_prefix isInside (l := after)
      refine ⟨scheme ++ ascii "://", rest, Or.inr ?_, ?_⟩
      · rw [List.map_append, hhttp]
        decide
      · exact (splitScheme_sound hscheme).trans (congrArg (scheme ++ ascii "://" ++ ·) hrest.symm)
    · cases h

theorem separator_of_lower {tail : Bytes} (h : tail.map toLower = ascii "://") :
    tail = ascii "://" := by
  have hcolon : ∀ c : Byte, toLower c = 58 → c = 58 := by
    intro c
    unfold toLower isUpper
    grind
  have hslash : ∀ c : Byte, toLower c = 47 → c = 47 := by
    intro c
    unfold toLower isUpper
    grind
  obtain ⟨a, tail, rfl, ha, h⟩ := List.map_eq_cons_iff.mp h
  obtain ⟨b, tail, rfl, hb, h⟩ := List.map_eq_cons_iff.mp h
  obtain ⟨c, tail, rfl, hc, h⟩ := List.map_eq_cons_iff.mp h
  rw [hcolon a ha, hslash b hb, hslash c hc, List.map_eq_nil_iff.mp h]
  rfl

/-- Behind its front, an address in brackets is the authority as far as it goes. -/
theorem authorityText_open {front rest : Bytes} (hfront : IsFront front)
    (h : authorityText (front ++ 91 :: rest) = .ok text) :
    text = (91 :: rest).takeWhile isInside := by
  unfold authorityText at h
  simp only at h
  rcases hfront with rfl | hfront
  · split at h
    · exact (Except.ok.inj h).symm
    · rename_i scheme after hscheme
      split at h
      · rename_i hhttp
        have hsound := splitScheme_sound hscheme
        cases scheme with
        | nil => cases hhttp
        | cons c scheme =>
          obtain ⟨rfl, -⟩ := List.cons.inj hsound
          cases hhttp
      · cases h
  · obtain ⟨scheme, tail, rfl, hhttp, htail⟩ := List.map_eq_append_iff.mp
      (show front.map toLower = ascii "http" ++ ascii "://" from hfront)
    obtain rfl := separator_of_lower htail
    have hcolon : 58 ∉ scheme := by
      intro hmem
      have hlower := List.mem_map_of_mem (f := toLower) hmem
      rw [hhttp] at hlower
      revert hlower
      decide
    rw [List.append_assoc, splitScheme_scheme hcolon] at h
    simp only [hhttp, if_true] at h
    exact (Except.ok.inj h).symm

end parse

/-! ### The printed form -/

/-- A `host:port` authority: a name, or an address in brackets, and a port other than zero. -/
def IsAuthority (text : Bytes) : Prop :=
  ∃ (host : Bytes) (port : UInt16), isValidHost host = true ∧ port.toNat ≠ 0 ∧
    (58 ∉ host ∧ host.head? ≠ some 91 ∧ text = host ++ 58 :: decimalText port.toNat ∨
      93 ∉ host ∧ text = 91 :: (host ++ 93 :: 58 :: decimalText port.toNat))

/-- An address in brackets which is no name without them. -/
def NeedsBrackets (value : Bytes) : Prop :=
  ∃ front address rest, IsFront front ∧
    trimWhitespace value = front ++ 91 :: (address ++ 93 :: rest) ∧ 93 ∉ address ∧
    (58 ∈ address ∨ address.head? = some 91)

section printed
variable {value : Bytes} {target : ProxyTarget}

theorem host_inside {host : Bytes} (h : isValidHost host = true) :
    host ≠ [] ∧ ∀ c ∈ host, isInside c = true := by
  simp only [isValidHost, Bool.and_eq_true, List.all_eq_true, Bool.not_eq_true',
    List.isEmpty_eq_false_iff] at h
  refine ⟨h.1, fun c hc => ?_⟩
  have hbyte := (h.2 c hc).2
  rw [decide_eq_true_eq] at hbyte
  have hsub : ∀ d ∈ ascii "/?#", d ∈ ascii "/\\?#@" := by decide
  exact decide_eq_true fun hmem => hbyte (hsub c hmem)

theorem authority_inside (h : isValidHost target.host = true) :
    ∀ c ∈ target.authority, isInside c = true := by
  intro c hc
  rw [ProxyTarget.authority, List.mem_append, List.mem_cons] at hc
  rcases hc with hc | rfl | hc
  · exact (host_inside h).2 c hc
  · decide
  · have hdigit := (isDecimal_decimalText _).2.1 c hc
    have hno : ∀ d ∈ ascii "/?#", isDigit d = false := by decide
    refine decide_eq_true fun hmem => ?_
    rw [hno c hmem] at hdigit
    cases hdigit

/-- The host of a target is the address between the brackets, where there are any. -/
theorem needsBrackets_iff (h : parseProxyTarget value = .ok target) :
    NeedsBrackets value ↔ 58 ∈ target.host ∨ target.host.head? = some 91 := by
  obtain ⟨text, portText, hauthority, hsplit, hhost, -⟩ := of_parse h
  constructor
  · rintro ⟨front, address, rest, hfront, htrim, hclose, haddress⟩
    rw [htrim] at hauthority
    have htext := authorityText_open hfront hauthority
    rcases splitAuthority_cases hsplit with ⟨after, hafter, hfree⟩ | ⟨-, hopen, -⟩
    · rw [hafter, List.takeWhile_cons_of_pos (by decide)] at htext
      obtain ⟨tail, htail⟩ := List.takeWhile_prefix isInside (l := address ++ 93 :: rest)
      rw [← (List.cons.inj htext).2, List.append_assoc, List.cons_append] at htail
      have hsame := congrArg (List.takeWhile (· != 93)) htail
      rw [takeWhile_cut hfree, takeWhile_cut hclose] at hsame
      rw [hsame]
      exact haddress
    · rw [htext] at hopen
      exact (hopen rfl).elim
  · intro hlossy
    obtain ⟨after, htext, hclose⟩ :=
      splitAuthority_brackets hsplit (host_inside hhost).1 hlossy
    obtain ⟨front, rest, hfront, htrim⟩ := authorityText_ok hauthority
    refine ⟨front, target.host, after ++ rest, hfront, ?_, hclose, hlossy⟩
    rw [htrim, htext]
    simp only [List.cons_append, List.append_assoc]

/-- A target survives its printed form just where the text it was read from has no address that
needs its brackets. -/
theorem survives_iff (h : parseProxyTarget value = .ok target) :
    (IsAuthority target.authority ∧ parseProxyTarget target.authority = .ok target) ↔
      ¬NeedsBrackets value := by
  obtain ⟨_, portText, -, hsplit, hhost, hport⟩ := of_parse h
  have hzero := hport.ne_zero
  rw [needsBrackets_iff h, not_or]
  constructor
  · rintro ⟨-, hparse⟩
    obtain ⟨text, again, hauthority, hagain, -⟩ := of_parse hparse
    rw [trimmed_authority hhost, authorityText_plain (authority_inside hhost)] at hauthority
    rw [← Except.ok.inj hauthority, ProxyTarget.authority] at hagain
    rw [← not_or]
    intro hlossy
    obtain ⟨_, -, hclose⟩ := splitAuthority_brackets hsplit (host_inside hhost).1 hlossy
    exact splitAuthority_lossy hlossy hclose (decimalText_free rfl _) _ hagain
  · rintro ⟨hcolon, hhead⟩
    obtain ⟨hne, -⟩ := host_inside hhost
    refine ⟨⟨target.host, target.port, hhost, hzero, Or.inl ⟨hcolon, hhead, rfl⟩⟩, ?_⟩
    have htrim := trimmed_authority hhost
    have hnil : target.authority ≠ [] := by simp [ProxyTarget.authority]
    exact parse_ok (by rw [htrim]; exact hnil)
      (by rw [htrim]; exact authorityText_plain (authority_inside hhost)) hnil
      (splitAuthority_name hne hcolon hhead (decimalText_free rfl _)) hhost
      (Or.inr ⟨(isDecimal_decimalText _).1, parsePort_decimalText hzero⟩)

theorem ipv6_lost : ¬∀ (value : Bytes) (target : ProxyTarget),
    parseProxyTarget value = .ok target →
      IsAuthority target.authority ∧ parseProxyTarget target.authority = .ok target := by
  intro h
  have hparse := (h (ascii "[::1]:8080") ⟨ascii "::1", 8080⟩ rfl).2
  have hreject : parseProxyTarget (ProxyTarget.authority ⟨ascii "::1", 8080⟩) =
      .error (ascii "IPv6 proxy_pass targets must use the [address]:port form") := by rfl
  rw [hreject] at hparse
  cases hparse

theorem survives_iff_name :
    (IsAuthority (ProxyTarget.authority ⟨ascii "backend", 80⟩) ∧
      parseProxyTarget (ProxyTarget.authority ⟨ascii "backend", 80⟩) =
        .ok ⟨ascii "backend", 80⟩) ↔ ¬NeedsBrackets (ascii "http://backend/") :=
  survives_iff rfl
end printed

end Aevrix.Proxy
