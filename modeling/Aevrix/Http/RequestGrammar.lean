import Aevrix.Http.RequestHead

/-!
# The heads the parser accepts

Which request lines and field lines pass, and what is stored of them. The request
line is read as three words (`requestLineText_accepts`), a field line as anything
with a token before its first colon (`headerText_accepts`).
-/

namespace Aevrix.Http
open Incremental HttpRequestParser HttpRequestParser.Core

/-! ### Lines that pass -/

/-- Three words, a known method first and `HTTP/...` last, with any white space
around them and anything after it. -/
def LooseRequestLine (line : Bytes) : Prop :=
  ∃ pre methodStr gap target gap' version tail : Bytes,
    line = pre ++ (methodStr ++ (gap ++ (target ++ (gap' ++ (version ++ tail))))) ∧
    (∀ c ∈ pre ++ gap ++ gap', isSpace c = true) ∧ (gap ≠ [] ∧ gap' ≠ []) ∧
    (target ≠ [] ∧ ∀ c ∈ target, isSpace c = false) ∧ (∀ c ∈ version, isSpace c = false) ∧
    (∀ c ∈ tail.head?, isSpace c = true) ∧
    stringToHttpMethod methodStr ≠ .unknown ∧ ascii "HTTP/" <+: version

theorem extractWord_split {s w rest : Bytes} (h : extractWord s = some (w, rest)) :
    ∃ pre, s = pre ++ (w ++ rest) ∧ (∀ c ∈ pre, isSpace c = true) ∧ w ≠ [] ∧
      (∀ c ∈ w, isSpace c = false) ∧ ∀ c ∈ rest.head?, isSpace c = true := by
  simp only [extractWord] at h
  split at h
  · cases h
  · rename_i hne
    simp only [Option.some.injEq, Prod.mk.injEq] at h
    obtain ⟨rfl, rfl⟩ := h
    refine ⟨s.takeWhile isSpace, ?_, fun c hc => List.mem_takeWhile_imp hc, hne, fun c hc => ?_,
      fun c hc => ?_⟩
    · rw [List.takeWhile_append_dropWhile, List.takeWhile_append_dropWhile]
    · simpa using List.mem_takeWhile_imp hc
    · have hd := List.head?_dropWhile_not (fun c => !isSpace c) (s.dropWhile isSpace)
      rw [Option.mem_def.mp hc] at hd
      simpa using hd

/-- White space in front of a word is there as soon as the text begins with white space. -/
theorem gap_ne_nil {gap w rest : Bytes} (hne : w ≠ []) (hw : ∀ c ∈ w, isSpace c = false)
    (h : ∀ c ∈ (gap ++ (w ++ rest)).head?, isSpace c = true) : gap ≠ [] := by
  rintro rfl
  obtain ⟨d, t, rfl⟩ := List.exists_cons_of_ne_nil hne
  have hd := h d rfl
  rw [hw d (List.mem_cons_self ..)] at hd
  cases hd

theorem gap_head {gap : Bytes} (rest : Bytes) (hne : gap ≠ []) (hgap : ∀ c ∈ gap, isSpace c = true) :
    ∀ c ∈ (gap ++ rest).head?, isSpace c = true := by
  intro c hc
  obtain ⟨d, t, rfl⟩ := List.exists_cons_of_ne_nil hne
  simp only [List.cons_append, List.head?_cons, Option.mem_def, Option.some.injEq] at hc
  exact hc ▸ hgap d (List.mem_cons_self ..)

theorem requestLineText_words {c : Core} {line methodStr target version r1 r2 r3 : Bytes}
    (h1 : extractWord line = some (methodStr, r1)) (h2 : extractWord r1 = some (target, r2))
    (h3 : extractWord r2 = some (version, r3)) (ht : target ≠ []) (hv : version ≠ []) :
    (c.requestLineText line).1 = true ↔
      stringToHttpMethod methodStr ≠ .unknown ∧ ascii "HTTP/" <+: version := by
  simp only [requestLineText, h1, h2, h3, if_neg ht, if_neg hv]
  by_cases hknown : stringToHttpMethod methodStr = .unknown
  · simp [hknown]
  · rw [if_neg hknown, ← List.isPrefixOf_iff_prefix]
    cases hp : (ascii "HTTP/").isPrefixOf version with
    | false => simp
    | true => simp [hknown]

theorem requestLineText_accepts (c : Core) (line : Bytes) :
    (c.requestLineText line).1 = true ↔ LooseRequestLine line := by
  constructor
  · intro h
    cases h1 : extractWord line with
    | none => simp [requestLineText, h1] at h
    | some x1 =>
      obtain ⟨methodStr, r1⟩ := x1
      cases h2 : extractWord r1 with
      | none => simp [requestLineText, h1, h2] at h
      | some x2 =>
        obtain ⟨target, r2⟩ := x2
        cases h3 : extractWord r2 with
        | none => simp [requestLineText, h1, h2, h3] at h
        | some x3 =>
          obtain ⟨version, r3⟩ := x3
          obtain ⟨pre, hline, hpre, -, -, hr1⟩ := extractWord_split h1
          obtain ⟨gap, rfl, hgap, ht, hts, hr2⟩ := extractWord_split h2
          obtain ⟨gap', rfl, hgap', hv, hvs, hr3⟩ := extractWord_split h3
          obtain ⟨hknown, hhttp⟩ := (requestLineText_words h1 h2 h3 ht hv).mp h
          refine ⟨pre, methodStr, gap, target, gap', version, r3, hline, ?_,
            ⟨gap_ne_nil ht hts hr1, gap_ne_nil hv hvs hr2⟩, ⟨ht, hts⟩, hvs, hr3, hknown, hhttp⟩
          intro d hd
          simp only [List.mem_append] at hd
          rcases hd with (hd | hd) | hd
          · exact hpre d hd
          · exact hgap d hd
          · exact hgap' d hd
  · rintro ⟨pre, methodStr, gap, target, gap', version, tail, rfl, hsp, ⟨hg, hg'⟩, ⟨ht, hts⟩, hvs,
      htail, hknown, hhttp⟩
    have hm := method_word hknown
    have hv : version ≠ [] := by
      rintro rfl
      exact absurd (List.prefix_nil.mp hhttp) (by decide)
    have hpre : ∀ c ∈ pre, isSpace c = true := fun c hc => hsp c (by simp [hc])
    have hgap : ∀ c ∈ gap, isSpace c = true := fun c hc => hsp c (by simp [hc])
    have hgap' : ∀ c ∈ gap', isSpace c = true := fun c hc => hsp c (by simp [hc])
    have h1 := extractWord_word _ hpre hm.1 hm.2 (gap_head (target ++ (gap' ++ (version ++ tail))) hg hgap)
    have h2 := extractWord_word _ hgap ht hts (gap_head (version ++ tail) hg' hgap')
    have h3 := extractWord_word _ hgap' hv hvs htail
    exact (requestLineText_words h1 h2 h3 ht hv).mpr ⟨hknown, hhttp⟩

theorem dropWhile_colon {line : Bytes} (h : 58 ∈ line) :
    line.dropWhile (· != 58) = 58 :: (line.dropWhile (· != 58)).drop 1 := by
  have hne : line.dropWhile (· != 58) ≠ [] := by
    intro hnil
    have hall := List.dropWhile_eq_nil_iff.mp hnil 58 h
    simp at hall
  have hh := List.head_dropWhile_not (fun c : Byte => c != 58) hne
  obtain ⟨d, t, hd⟩ := List.exists_cons_of_ne_nil hne
  simp only [hd, List.head_cons, bne_eq_false_iff_eq] at hh
  rw [hd, hh]
  rfl

theorem headerText_accepts {c : Core} {line : Bytes} (h : (c.headerText line).1 = true) :
    ∃ f : FieldLine, f.bytes = line := by
  simp only [headerText] at h
  split at h
  · cases h
  split at h
  · cases h
  rename_i hcolon
  split at h
  · cases h
  rename_i hname
  rw [Bool.not_eq_true, Bool.not_eq_false'] at hname
  obtain ⟨pre, post, hsplit, hpre, hpost⟩ := trimBy_split isOws (line.takeWhile (· != 58))
  have htok := (HttpHeader.isValidName_iff _ _).mp hname
  refine ⟨⟨pre, _, post, (line.dropWhile (· != 58)).drop 1, hpre, hpost, htok⟩, ?_⟩
  rw [FieldLine.bytes]
  simp only
  rw [← hsplit, ← dropWhile_colon (not_not.mp hcolon), List.takeWhile_append_dropWhile]

/-! ### Past the head -/

/-- The errors `parse_body` sets. -/
def isBodyError (message : Bytes) : Bool :=
  message == ascii "Body too large" || (ascii "Invalid Content-Length: ").isPrefixOf message

/-- The head is behind the parser: it wants the body, is Complete, or refused the body. -/
def PastHead (c : Core) : Prop :=
  c.state = .body ∨ c.state = .complete ∨ (c.state = .error ∧ isBodyError c.errorMessage = true)

instance (c : Core) : Decidable (PastHead c) := by
  unfold PastHead
  infer_instance

theorem requestLineText_error (c : Core) (line : Bytes) : (c.requestLineText line).1 = true ∨
    isBodyError (c.requestLineText line).2.errorMessage = false := by
  unfold requestLineText
  split
  · exact Or.inr rfl
  split
  · exact Or.inr rfl
  split
  · exact Or.inr rfl
  simp only
  split
  · exact Or.inr rfl
  split
  · exact Or.inr rfl
  split
  · exact Or.inr rfl
  split
  · exact Or.inr rfl
  · exact Or.inl rfl

theorem headerText_error (c : Core) (line : Bytes) : (c.headerText line).1 = true ∨
    isBodyError (c.headerText line).2.errorMessage = false := by
  simp only [headerText]
  split
  · exact Or.inr rfl
  split
  · exact Or.inr rfl
  split
  · exact Or.inr rfl
  split
  · exact Or.inr rfl
  · exact Or.inl rfl

theorem not_pastHead_error {c : Core} (hs : c.state = .error)
    (he : isBodyError c.errorMessage = false) : ¬PastHead c := by
  rintro (h | h | ⟨-, h⟩)
  · rw [hs] at h
    cases h
  · rw [hs] at h
    cases h
  · rw [he] at h
    cases h

theorem onBody_pastHead {c c' : Core} {u u' : Bytes} (h : c.onBody u = some (c', u')) :
    PastHead c' ∧ { c'.request with body := [] } = { c.request with body := [] } := by
  simp only [onBody] at h
  split at h
  · simp only [Option.some.injEq, Prod.mk.injEq] at h
    obtain ⟨rfl, -⟩ := h
    exact ⟨Or.inr (Or.inl rfl), rfl⟩
  split at h
  · simp only [Option.some.injEq, Prod.mk.injEq] at h
    obtain ⟨rfl, -⟩ := h
    exact ⟨Or.inr (Or.inr ⟨rfl, rfl⟩), rfl⟩
  split at h
  · simp only [Option.some.injEq, Prod.mk.injEq] at h
    obtain ⟨rfl, -⟩ := h
    exact ⟨Or.inr (Or.inr ⟨rfl, rfl⟩), rfl⟩
  split at h
  · cases h
  · simp only [Option.some.injEq, Prod.mk.injEq] at h
    obtain ⟨rfl, -⟩ := h
    exact ⟨Or.inr (Or.inl rfl), rfl⟩

/-- Once past the head the parser stays there, and what the head said stays stored. -/
theorem drain_pastHead {c : Core} (u : Bytes) (h : PastHead c) :
    PastHead (requestMachine.drain c u).1 ∧
      { (requestMachine.drain c u).1.request with body := [] } = { c.request with body := [] } := by
  refine Machine.drain_preserves (M := requestMachine)
    (P := fun d _ => PastHead d ∧ { d.request with body := [] } = { c.request with body := [] })
    ?_ c u ⟨h, rfl⟩
  rintro d v d' v' ⟨hd, hreq⟩ hstep
  change d.step v = some (d', v') at hstep
  rcases hd with hs | hs | ⟨hs, -⟩
  · simp only [step, hs] at hstep
    obtain ⟨hp, hr⟩ := onBody_pastHead hstep
    exact ⟨hp, hr.trans hreq⟩
  · rw [step_complete hs] at hstep
    cases hstep
  · rw [step_error hs] at hstep
    cases hstep

theorem fields_of_pastHead (c : Core) (u : Bytes) (hs : c.state = .headers)
    (h : PastHead (requestMachine.drain c u).1) :
    ∃ fs : List FieldLine, fieldBlock fs <+: u ∧ ∀ f ∈ fs, findCrlf f.bytes = none := by
  induction c, u using Machine.run_induction (M := requestMachine) with
  | blocked c u hb =>
    rw [Machine.drain_none hb] at h
    rcases h with h | h | ⟨h, -⟩ <;> rw [hs] at h <;> cases h
  | progress c u c' u' hstep ih =>
    rw [Machine.drain_some hstep] at h
    change c.step u = some (c', u') at hstep
    simp only [step, hs] at hstep
    obtain ⟨⟨line, r⟩, hline, he⟩ := Option.map_eq_some_iff.mp hstep
    simp only [Prod.mk.injEq] at he
    obtain ⟨rfl, rfl⟩ := he
    obtain ⟨rfl, hcrlf⟩ := Lines.splitPair_some hline
    by_cases hnil : line = []
    · exact ⟨[], ⟨r, by rw [hnil]; rfl⟩, by simp⟩
    · rw [onHeaderLine, if_neg hnil] at h ih
      rcases headerText_state c line with ⟨hok, hst⟩ | ⟨hok, hst⟩
      · obtain ⟨fs, ⟨x, hx⟩, hfs⟩ := ih (hst.trans hs) h
        obtain ⟨f, hf⟩ := headerText_accepts hok
        refine ⟨f :: fs, ⟨x, ?_⟩, ?_⟩
        · rw [fieldBlock_cons, hx, hf, List.append_assoc]
          rfl
        · exact List.forall_mem_cons.mpr ⟨hf ▸ hcrlf, hfs⟩
      · rw [drain_blocked (step_error hst r)] at h
        rcases headerText_error c line with hgood | hbad
        · rw [hok] at hgood
          cases hgood
        · exact (not_pastHead_error hst hbad h).elim

/-- Whoever gets past the head has read a request line that passes, field lines and an
empty line. -/
theorem head_of_pastHead (config : ParserConfig) (u : Bytes)
    (h : PastHead (requestMachine.drain (Core.fresh config) u).1) :
    ∃ first : Bytes, ∃ fs : List FieldLine, first ++ crlf ++ fieldBlock fs <+: u ∧
      findCrlf first = none ∧ LooseRequestLine first ∧ ∀ f ∈ fs, findCrlf f.bytes = none := by
  cases hl : splitLine u with
  | none =>
    have hb : (Core.fresh config).step u = none := by
      simp only [step, Core.fresh, hl, Option.map_none]
    rw [drain_blocked hb] at h
    exact absurd h (by simp [PastHead, Core.fresh])
  | some x =>
    obtain ⟨first, r⟩ := x
    obtain ⟨rfl, hcrlf⟩ := Lines.splitPair_some hl
    have hstep : (Core.fresh config).step (first ++ CR :: LF :: r) =
        some ((Core.fresh config).onRequestLine first, r) := by
      simp only [step, Core.fresh, hl, Option.map_some]
    rw [drain_step hstep] at h
    cases hok : ((Core.fresh config).requestLineText first).1 with
    | true =>
      have hs : ((Core.fresh config).onRequestLine first).state = .headers := by
        simp only [onRequestLine, hok, if_true]
      obtain ⟨fs, ⟨x, hx⟩, hfs⟩ := fields_of_pastHead _ r hs h
      refine ⟨first, fs, ⟨x, ?_⟩, hcrlf, (requestLineText_accepts _ _).mp hok, hfs⟩
      rw [List.append_assoc, hx, List.append_assoc]
      rfl
    | false =>
      have hs : ((Core.fresh config).onRequestLine first).state = .error := by
        rcases requestLineText_state (Core.fresh config) first with ⟨h1, -⟩ | ⟨-, h2⟩
        · rw [hok] at h1
          cases h1
        · simp only [onRequestLine, hok, Bool.false_eq_true, if_false, h2]
      rw [drain_blocked (step_error hs r)] at h
      have hmsg : isBodyError ((Core.fresh config).onRequestLine first).errorMessage = false := by
        rcases requestLineText_error (Core.fresh config) first with h1 | h2
        · rw [hok] at h1
          cases h1
        · simpa only [onRequestLine, hok, Bool.false_eq_true, if_false] using h2
      exact (not_pastHead_error hs hmsg h).elim

/-! ### The lines of a stream -/

/-- `s` begins with these lines and an empty line. -/
structure HeadLines (s first : Bytes) (lines : List Bytes) : Prop where
  starts : headBlock first lines <+: s
  firstLine : findCrlf first = none
  otherLines : ∀ l ∈ lines, l ≠ [] ∧ findCrlf l = none

theorem lineBlock_unique (ls ms : List Bytes) {x y : Bytes}
    (h : lineBlock ls ++ x = lineBlock ms ++ y) (hl : ∀ l ∈ ls, l ≠ [] ∧ findCrlf l = none)
    (hm : ∀ l ∈ ms, l ≠ [] ∧ findCrlf l = none) : ls = ms := by
  have hempty : ∀ z, splitLine (lineBlock [] ++ z) = some ([], z) :=
    splitLine_append_crlf (l := []) rfl
  induction ls generalizing ms with
  | nil =>
    cases ms with
    | nil => rfl
    | cons m ms =>
      exfalso
      have e1 := hempty x
      have e2 := splitLine_append_crlf (hm m (List.mem_cons_self ..)).2 (lineBlock ms ++ y)
      rw [h, lineBlock_cons, e2, Option.some.injEq, Prod.mk.injEq] at e1
      exact (hm m (List.mem_cons_self ..)).1 e1.1
  | cons l ls ih =>
    have e1 := splitLine_append_crlf (hl l (List.mem_cons_self ..)).2 (lineBlock ls ++ x)
    rw [← lineBlock_cons, h] at e1
    cases ms with
    | nil =>
      exfalso
      rw [hempty y, Option.some.injEq, Prod.mk.injEq] at e1
      exact (hl l (List.mem_cons_self ..)).1 e1.1.symm
    | cons m ms =>
      have e2 := splitLine_append_crlf (hm m (List.mem_cons_self ..)).2 (lineBlock ms ++ y)
      rw [lineBlock_cons, e2, Option.some.injEq, Prod.mk.injEq] at e1
      rw [e1.1, ih ms e1.2.symm (fun k hk => hl k (List.mem_cons_of_mem _ hk))
        (fun k hk => hm k (List.mem_cons_of_mem _ hk))]

theorem HeadLines.unique {s f g : Bytes} {ls ms : List Bytes} (h1 : HeadLines s f ls)
    (h2 : HeadLines s g ms) : f = g ∧ ls = ms := by
  obtain ⟨⟨x, rfl⟩, hf, hl⟩ := h1
  obtain ⟨⟨y, hy⟩, hg, hm⟩ := h2
  have e1 := splitLine_append_crlf hf (lineBlock ls ++ x)
  have e2 := splitLine_append_crlf hg (lineBlock ms ++ y)
  rw [headBlock_append, headBlock_append] at hy
  rw [hy, e1, Option.some.injEq, Prod.mk.injEq] at e2
  exact ⟨e2.1, lineBlock_unique ls ms e2.2 hl hm⟩

theorem RequestHead.headLines {h : RequestHead} {s : Bytes} (hs : h.bytes <+: s) :
    HeadLines s h.line.bytes (h.fields.map FieldLine.bytes) := by
  refine ⟨hs, h.line.findCrlf_bytes, fun l hl => ?_⟩
  obtain ⟨f, hf, rfl⟩ := List.mem_map.mp hl
  exact ⟨f.bytes_ne_nil, h.findCrlf_fields f hf⟩

theorem RequestHead.bytes_unique {h k : RequestHead} {s : Bytes} (hh : h.bytes <+: s)
    (hk : k.bytes <+: s) : h.bytes = k.bytes := by
  obtain ⟨hline, hfields⟩ := (headLines hh).unique (headLines hk)
  rw [bytes, bytes, hline, hfields]

/-- No line of the head is one that passes although it should not: a request line that
is not written strictly, a value with CR, LF or NUL. -/
def NoSlip (s : Bytes) : Prop := ∀ first lines, HeadLines s first lines →
  (LooseRequestLine first → ∃ l : RequestLine, l.bytes = first) ∧
    ∀ f : FieldLine, f.bytes ∈ lines → f.Clean

theorem RequestHead.countWithin_of {h k : RequestHead} {config : ParserConfig} {s : Bytes}
    (hh : h.bytes <+: s) (hk : k.bytes <+: s) (hc : k.CountWithin config) : h.CountWithin config := by
  have hfields := ((headLines hh).unique (headLines hk)).2
  have hlen := congrArg List.length hfields
  have hsum := congrArg (fun ls => (ls.map List.length).sum) hfields
  simp only [List.length_map, List.map_map] at hlen hsum
  exact ⟨hlen ▸ hc.1, (le_of_eq hsum).trans hc.2⟩

/-- A stream that begins with a head free of CR, LF and NUL inside its lines has no line
that slips through. -/
theorem RequestHead.noSlip {h : RequestHead} {s : Bytes} (hs : h.bytes <+: s)
    (hclean : ∀ f ∈ h.fields, ∀ c ∈ f.bytes, c ≠ CR ∧ c ≠ LF ∧ c ≠ 0) : NoSlip s := by
  intro first lines hl
  obtain ⟨rfl, rfl⟩ := hl.unique (headLines hs)
  refine ⟨fun _ => ⟨h.line, rfl⟩, fun f hf c hc => ?_⟩
  obtain ⟨g, hg, hgf⟩ := List.mem_map.mp hf
  refine hclean g hg c ?_
  rw [hgf, FieldLine.bytes]
  exact List.mem_append_right _ (List.mem_cons_of_mem _ hc)

/-! ### Accepted heads -/

theorem pastHead_of_head {h : RequestHead} {config : ParserConfig} {s : Bytes} (hs : h.bytes <+: s)
    (hc : h.CountWithin config) :
    PastHead (requestMachine.drain (Core.fresh config) s).1 ∧
      { (requestMachine.drain (Core.fresh config) s).1.request with body := [] } = h.request := by
  obtain ⟨x, rfl⟩ := hs
  have hp : PastHead (h.core config) := by
    rcases endOfHeaders_state (h.fields.foldl Core.store (h.lineCore config)) with he | he
    · exact Or.inl he
    · exact Or.inr (Or.inl he)
  obtain ⟨h1, h2⟩ := drain_pastHead x hp
  rw [h.drain_head hc]
  refine ⟨h1, h2.trans ?_⟩
  rw [RequestHead.core_request]
  rfl

theorem head_of_noSlip {config : ParserConfig} {u s : Bytes} (hu : u <+: s) (hslip : NoSlip s)
    (h : PastHead (requestMachine.drain (Core.fresh config) u).1) :
    ∃ k : RequestHead, k.bytes <+: u := by
  obtain ⟨first, fs, hpre, hfirst, hloose, hfs⟩ := head_of_pastHead config u h
  have hblock : headBlock first (fs.map FieldLine.bytes) = first ++ crlf ++ fieldBlock fs := rfl
  have hlines : HeadLines s first (fs.map FieldLine.bytes) := by
    refine ⟨hblock ▸ hpre.trans hu, hfirst, fun l hl => ?_⟩
    obtain ⟨f, hf, rfl⟩ := List.mem_map.mp hl
    exact ⟨f.bytes_ne_nil, hfs f hf⟩
  obtain ⟨hline, hclean⟩ := hslip _ _ hlines
  obtain ⟨l, rfl⟩ := hline hloose
  exact ⟨⟨l, fs, fun f hf => hclean f (List.mem_map_of_mem hf)⟩, hpre⟩

/-- The first feeds after which the parser is past the head complete nothing before. -/
theorem exists_first_pastHead {config : ParserConfig} {ds pre : List Bytes} (hpre : pre <+: ds)
    (h : PastHead (run config pre).toCore) :
    ∃ n, PastHead (run config (ds.take n)).toCore ∧ NotEarly config (ds.take n) := by
  classical
  have hex : ∃ n, PastHead (run config (ds.take n)).toCore :=
    ⟨pre.length, by rwa [← List.prefix_iff_eq_take.mp hpre]⟩
  refine ⟨Nat.find hex, Nat.find_spec hex, fun m hm hc => ?_⟩
  rw [List.length_take] at hm
  rw [List.take_take, Nat.min_eq_left (by omega)] at hc
  exact Nat.find_min hex (by omega) (Or.inr (Or.inl hc))

/-- **The heads the parser accepts.** On a stream within the limits, none of whose lines
slips through, the parser gets past the head exactly when the stream begins with a
request line and field lines as written by `RequestHead`, and it stores what they say. -/
theorem pastHead_iff (config : ParserConfig) (ds : List Bytes)
    (hl : LinesWithin config ds.flatten)
    (hcount : ∀ h : RequestHead, h.bytes <+: ds.flatten → h.CountWithin config)
    (hslip : NoSlip ds.flatten) :
    ((∃ pre, pre <+: ds ∧ PastHead (run config pre).toCore) ↔
      ∃ h : RequestHead, h.bytes <+: ds.flatten) ∧
    ∀ h : RequestHead, h.bytes <+: ds.flatten → ∀ pre, pre <+: ds → NotEarly config pre →
      PastHead (run config pre).toCore →
        { (run config pre).request with body := [] } = h.request := by
  refine ⟨⟨fun ⟨pre, hpre, hp⟩ => ?_, fun ⟨h, hh⟩ => ?_⟩, fun h hh pre hpre hearly hp => ?_⟩
  · obtain ⟨n, hn, hearly⟩ := exists_first_pastHead hpre hp
    rw [(run_eq_drain (hl.of_take n) hearly).1] at hn
    obtain ⟨k, hk⟩ := head_of_noSlip (take_prefix_flatten ds n) hslip hn
    exact ⟨k, hk.trans (take_prefix_flatten ds n)⟩
  · by_contra hnone
    have hearly : NotEarly config ds := fun n _ hc =>
      hnone ⟨ds.take n, List.take_prefix n ds, Or.inr (Or.inl hc)⟩
    refine hnone ⟨ds, List.prefix_refl ds, ?_⟩
    rw [(run_eq_drain hl hearly).1]
    exact (pastHead_of_head hh (hcount h hh)).1
  · have htake : pre = ds.take pre.length := List.prefix_iff_eq_take.mp hpre
    have hpf : pre.flatten <+: ds.flatten := htake ▸ take_prefix_flatten ds pre.length
    have hlp : LinesWithin config pre.flatten := by
      rw [htake]
      exact hl.of_take _
    rw [(run_eq_drain hlp hearly).1] at hp ⊢
    obtain ⟨k, hk⟩ := head_of_noSlip hpf hslip hp
    have hbytes : h.bytes = k.bytes := RequestHead.bytes_unique hh (hk.trans hpf)
    exact (pastHead_of_head (hbytes ▸ hk) (hcount h hh)).2

/-- A head with a space in front of its colon. -/
def spacedHead : RequestHead where
  line := ⟨ascii "GET", ascii "/", 49, 49, get_known, slash_word, one_one_digits⟩
  fields := [⟨[], ascii "Host", [32], ascii " x", ows_nil, by decide, by decide⟩]
  clean := by decide

theorem pastHead_iff_spaced :
    ((∃ pre, pre <+: [ascii "GET / HTTP/1.1\r\nHo", ascii "st : x\r\n\r\n"] ∧
        PastHead (run .default pre).toCore) ↔
      ∃ h : RequestHead, h.bytes <+: ascii "GET / HTTP/1.1\r\nHost : x\r\n\r\n") ∧
    ∀ h : RequestHead, h.bytes <+: ascii "GET / HTTP/1.1\r\nHost : x\r\n\r\n" →
      ∀ pre, pre <+: [ascii "GET / HTTP/1.1\r\nHo", ascii "st : x\r\n\r\n"] →
        NotEarly .default pre → PastHead (run .default pre).toCore →
          { (run .default pre).request with body := [] } = h.request := by
  have hs : spacedHead.bytes <+: ascii "GET / HTTP/1.1\r\nHost : x\r\n\r\n" := ⟨[], by decide⟩
  exact pastHead_iff .default [ascii "GET / HTTP/1.1\r\nHo", ascii "st : x\r\n\r\n"]
    (by decide) (fun h hh => RequestHead.countWithin_of hh hs ⟨by decide, by decide⟩)
    (RequestHead.noSlip hs (by decide))

/-- The space in front of the colon passes, although no head without it has these bytes. -/
theorem spaced_accepted :
    LinesWithin .default (ascii "GET / HTTP/1.1\r\nHost : x\r\n\r\n") ∧
    PastHead (run .default [ascii "GET / HTTP/1.1\r\nHost : x\r\n\r\n"]).toCore ∧
    ¬∃ h : RequestHead, (∀ f ∈ h.fields, f.Tight) ∧
      h.bytes <+: ascii "GET / HTTP/1.1\r\nHost : x\r\n\r\n" := by
  refine ⟨by decide, by decide, ?_⟩
  rintro ⟨h, htight, hh⟩
  have hs : spacedHead.bytes <+: ascii "GET / HTTP/1.1\r\nHost : x\r\n\r\n" := ⟨[], by decide⟩
  have hfields := ((RequestHead.headLines hh).unique (RequestHead.headLines hs)).2
  have hmem : ascii "Host : x" ∈ h.fields.map FieldLine.bytes := by
    rw [hfields]
    decide
  obtain ⟨f, hf, hbytes⟩ := List.mem_map.mp hmem
  obtain ⟨hb, hb'⟩ := htight f hf
  have hname := f.takeWhile_bytes
  rw [hbytes, hb, hb', List.nil_append, List.append_nil] at hname
  have hspace := (isTokenChar_not (f.name_token.2 32 (by rw [← hname]; decide))).1
  cases hspace

end Aevrix.Http
