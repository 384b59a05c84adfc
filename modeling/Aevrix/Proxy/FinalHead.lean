import Aevrix.Proxy.ResponseFraming

/-!
# The head of the final response

A response may come behind interim ones. Its head is the first one of the stream whose status is
not interim, and what the parser has stored of it are its field lines, one after the other.
-/

namespace Aevrix.Proxy
open Aevrix.Http Incremental ProxyResponseParser ProxyResponseParser.Core

/-- The status line of an interim response. -/
def IsInterimLine (line : Bytes) : Prop := ∃ code ∈ statusCodeOf line, code < 200

instance (line : Bytes) : Decidable (IsInterimLine line) := by
  unfold IsInterimLine
  cases statusCodeOf line with
  | none => exact isFalse fun h => by simp at h
  | some code => exact decidable_of_iff (code < 200) (by simp)

/-- Behind the interim responses of `s` the head of the final one has these lines. -/
inductive FinalHead : Bytes → Bytes → List Bytes → Prop where
  | final {s first : Bytes} {fields : List Bytes} (h : Http.HeadLines s first fields)
    (hfinal : ¬IsInterimLine first) : FinalHead s first fields
  | interim {s t line first : Bytes} {others fields : List Bytes}
    (h : Http.HeadLines s line others) (hinterim : IsInterimLine line)
    (hrest : s = headBlock line others ++ t) (hnext : FinalHead t first fields) :
    FinalHead s first fields

theorem FinalHead.unique {s f g : Bytes} {ls ms : List Bytes} (h : FinalHead s f ls)
    (h' : FinalHead s g ms) : f = g ∧ ls = ms := by
  induction h with
  | final hlines hfinal =>
    cases h' with
    | final hlines' _ => exact hlines.unique hlines'
    | interim hlines' hinterim _ _ =>
      obtain ⟨rfl, -⟩ := hlines.unique hlines'
      exact absurd hinterim hfinal
  | @interim s t line first others fields hlines hinterim hrest _ ih =>
    cases h' with
    | final hlines' hfinal =>
      obtain ⟨rfl, -⟩ := hlines.unique hlines'
      exact absurd hinterim hfinal
    | interim hlines' _ hrest' hnext' =>
      obtain ⟨rfl, rfl⟩ := hlines.unique hlines'
      rw [hrest] at hrest'
      obtain rfl := List.append_cancel_left hrest'
      exact ih hnext'

/-! ### What is stored -/

/-- The fields in store once the lines were read. -/
def storedFields (fields : List Bytes) : HttpHeaders :=
  fields.foldl (fun hs line => hs.set (line.takeWhile (· != 58)) (fieldValue line)) []

theorem storedFields_concat (fields : List Bytes) (line : Bytes) :
    storedFields (fields ++ [line]) =
      (storedFields fields).set (line.takeWhile (· != 58)) (fieldValue line) := by
  rw [storedFields, List.foldl_append]
  rfl

/-- A field line that is not refused. -/
structure Passed (line : Bytes) : Prop where
  valid : (HttpHeader.ofField (line.takeWhile (· != 58)) (fieldValue line)).isValid = true
  coding : fieldKey line = ascii "transfer-encoding" →
    containsToken (fieldValue line) (ascii "chunked") = true

theorem contentLengthField_stores (c : Core) (name value : Bytes) :
    (c.contentLengthField name value).state = .error ∨
      Stored c (c.contentLengthField name value) ∧
        (c.contentLengthField name value).headers = c.headers.set name value := by
  unfold contentLengthField
  split
  · exact Or.inl rfl
  split
  · exact Or.inl rfl
  dsimp only
  split
  · exact Or.inl rfl
  · exact Or.inr ⟨⟨rfl, rfl, rfl⟩, rfl⟩

theorem headerLineText_stores (c : Core) (line : Bytes) :
    (c.headerLineText line).state = .error ∨
      Passed line ∧ Stored c (c.headerLineText line) ∧ (c.headerLineText line).headers =
        c.headers.set (line.takeWhile (· != 58)) (fieldValue line) := by
  simp only [headerLineText]
  split
  · exact Or.inl rfl
  split
  · exact Or.inl rfl
  split
  · exact Or.inl rfl
  split
  · exact Or.inl rfl
  rename_i hvalid
  rw [Bool.not_eq_true, Bool.not_eq_false'] at hvalid
  simp only [storeField]
  split
  · rename_i hk
    have hpassed : Passed line := by
      refine ⟨hvalid, fun hte => ?_⟩
      rw [fieldKey, hk] at hte
      exact absurd hte (by decide)
    rcases contentLengthField_stores
      { c with headerBytes := c.headerBytes + (line.length + 2) } (line.takeWhile (· != 58))
      (fieldValue line) with he | ⟨⟨h1, h2, h3⟩, hset⟩
    · exact Or.inl he
    · exact Or.inr ⟨hpassed, ⟨h1, h2, h3⟩, hset⟩
  split
  · unfold transferEncodingField
    split
    · exact Or.inl rfl
    · rename_i htoken
      rw [Bool.not_eq_true, Bool.not_eq_false'] at htoken
      exact Or.inr ⟨⟨hvalid, fun _ => htoken⟩, ⟨rfl, rfl, rfl⟩, rfl⟩
  · rename_i hk
    have hpassed : Passed line := ⟨hvalid, fun hte => absurd hte hk⟩
    split
    · exact Or.inr ⟨hpassed, ⟨rfl, rfl, rfl⟩, rfl⟩
    · exact Or.inr ⟨hpassed, ⟨rfl, rfl, rfl⟩, rfl⟩

/-- A status line that passes tells whether the response is an interim one. -/
theorem statusLineText_kind (c : Core) (line : Bytes) (hempty : c.headers = []) :
    (c.statusLineText line).state = .error ∨ (c.statusLineText line).state = .headers ∧
      ((c.statusLineText line).isInterim = true ↔ IsInterimLine line) ∧
        (c.statusLineText line).headers = [] := by
  simp only [statusLineText]
  split
  · exact Or.inl rfl
  split
  · exact Or.inl rfl
  split
  · exact Or.inl rfl
  rename_i hcode
  simp only [not_or, Bool.not_eq_true, Bool.not_eq_false', not_not] at hcode
  have hkind : IsInterimLine line ↔
      decimalValue (((line.dropWhile (· != 32)).drop 1).takeWhile (· != 32)) < 200 := by
    simp only [IsInterimLine, statusCodeOf, hcode, and_self, if_true, Option.mem_def,
      Option.some.injEq, exists_eq_left']
  split
  · exact Or.inl rfl
  split
  · rename_i hlt
    split
    · exact Or.inl rfl
    · exact Or.inr ⟨rfl, iff_of_true rfl (hkind.mpr hlt), rfl⟩
  · rename_i hge
    exact Or.inr ⟨rfl, iff_of_false Bool.false_ne_true (fun h => hge (hkind.mp h)), hempty⟩

theorem decideFraming_keeps (c : Core) : c.decideFraming.headers = c.headers ∧
    c.decideFraming.state ≠ .statusLine ∧ c.decideFraming.state ≠ .headers := by
  unfold decideFraming
  split
  · exact ⟨rfl, by simp [Core.fail], by simp [Core.fail]⟩
  split
  · exact ⟨rfl, by simp, by simp⟩
  split
  · exact ⟨rfl, by simp, by simp⟩
  split
  · dsimp only
    split
    · exact ⟨rfl, by simp, by simp⟩
    · exact ⟨rfl, by simp, by simp⟩
  · exact ⟨rfl, by simp, by simp⟩

/-! ### Along the stream -/

/-- The final head of `t` is the one of `s`. -/
def Reaches (s t : Bytes) : Prop := ∀ first fields, FinalHead t first fields →
  FinalHead s first fields

/-- Where the parser is in the stream `s` when `u` is unread. -/
def Reading (s : Bytes) (c : Core) (u : Bytes) : Prop := match c.state with
  | .error => True
  | .statusLine => Reaches s u ∧ c.headers = []
  | .headers => ∃ t first fields, Reaches s t ∧
      t = first ++ crlf ++ (fields.flatMap (· ++ crlf) ++ u) ∧ findCrlf first = none ∧
      (∀ l ∈ fields, l ≠ [] ∧ findCrlf l = none) ∧ (c.isInterim = true ↔ IsInterimLine first) ∧
      c.headers = storedFields fields ∧ ∀ l ∈ fields, Passed l
  | _ => ∃ first fields, FinalHead s first fields ∧ c.headers = storedFields fields ∧
      ∀ l ∈ fields, Passed l

variable {s u : Bytes} {c : Core}

theorem Reading.of_error (h : c.state = .error) : Reading s c u := by
  simp only [Reading, h]

theorem Reading.of_head {first : Bytes} {fields : List Bytes} (hhead : FinalHead s first fields)
    (hstored : c.headers = storedFields fields) (hpassed : ∀ l ∈ fields, Passed l)
    (hs : c.state ≠ .statusLine) (hh : c.state ≠ .headers) : Reading s c u := by
  unfold Reading
  split
  · trivial
  · exact absurd ‹_› hs
  · exact absurd ‹_› hh
  · exact ⟨first, fields, hhead, hstored, hpassed⟩

theorem Reading.past (h : Reading s c u) (hs : c.state ≠ .statusLine) (hh : c.state ≠ .headers)
    (he : c.state ≠ .error) : ∃ first fields, FinalHead s first fields ∧
      c.headers = storedFields fields ∧ ∀ l ∈ fields, Passed l := by
  unfold Reading at h
  split at h
  · exact absurd ‹_› he
  · exact absurd ‹_› hs
  · exact absurd ‹_› hh
  · exact h

theorem Reading.keep {d : Core} {v : Bytes} (h : Reading s c u) (hs : c.state ≠ .statusLine)
    (hh : c.state ≠ .headers) (he : c.state ≠ .error) (hheaders : d.headers = c.headers)
    (hpast : d.state ≠ .statusLine ∧ d.state ≠ .headers) : Reading s d v := by
  obtain ⟨first, fields, hhead, hstored, hpassed⟩ := h.past hs hh he
  exact .of_head hhead (hheaders.trans hstored) hpassed hpast.1 hpast.2

theorem reading_statusLine {line r : Bytes} (hs : c.state = .statusLine)
    (h : Reading s c (line ++ CR :: LF :: r)) (hcrlf : findCrlf line = none) :
    Reading s (c.statusLineText line) r := by
  simp only [Reading, hs] at h
  obtain ⟨hreaches, hempty⟩ := h
  rcases statusLineText_kind c line hempty with he | ⟨hstate, hkind, hheaders⟩
  · exact .of_error he
  · simp only [Reading, hstate]
    refine ⟨_, line, [], hreaches, ?_, hcrlf, by simp, hkind, hheaders, by simp⟩
    rw [List.flatMap_nil, List.nil_append, List.append_assoc]
    rfl

theorem reading_headers {line r : Bytes} (hs : c.state = .headers)
    (h : Reading s c (line ++ CR :: LF :: r)) (hcrlf : findCrlf line = none) :
    Reading s (c.onLine line) r := by
  simp only [Reading, hs] at h
  obtain ⟨t, first, fields, hreaches, hsplit, hfirst, hfields, hkind, hstored, hpassed⟩ := h
  simp only [onLine, hs]
  split
  · rename_i hnil
    have hblock : t = headBlock first fields ++ r := by
      rw [hsplit, hnil, headBlock, lineBlock]
      simp only [List.append_assoc, List.nil_append, List.cons_append]
    have hlines : Http.HeadLines t first fields := ⟨⟨r, hblock.symm⟩, hfirst, hfields⟩
    unfold endOfHeaders
    dsimp only
    cases hinterim : c.isInterim with
    | true =>
      rw [if_pos rfl]
      simp only [Reading]
      refine ⟨fun f ls hnext => ?_, trivial⟩
      exact hreaches f ls (.interim hlines (hkind.mp hinterim) hblock hnext)
    | false =>
      rw [if_neg Bool.false_ne_true]
      have hfinal : ¬IsInterimLine first := fun hi => by
        rw [hkind.mpr hi] at hinterim
        cases hinterim
      obtain ⟨hheaders, h1, h2⟩ :=
        decideFraming_keeps { c with headerBytes := c.headerBytes + 2, isInterim := false }
      exact .of_head (hreaches _ _ (.final hlines hfinal)) (hheaders.trans hstored) hpassed h1 h2
  · rename_i hne
    rcases headerLineText_stores c line with he | ⟨hpass, ⟨hstate, hinterim, -⟩, hheaders⟩
    · exact .of_error he
    · simp only [Reading, hstate, hs]
      refine ⟨t, first, fields ++ [line], hreaches, ?_, hfirst, ?_, hinterim ▸ hkind, ?_, ?_⟩
      · rw [hsplit]
        simp only [List.flatMap_append, List.flatMap_cons, List.flatMap_nil, List.append_assoc,
          List.append_nil, List.cons_append, List.nil_append]
      · intro l hl
        rcases List.mem_append.mp hl with hl | hl
        · exact hfields l hl
        · rw [List.mem_singleton.mp hl]
          exact ⟨hne, hcrlf⟩
      · rw [hheaders, hstored, storedFields_concat]
      · intro l hl
        rcases List.mem_append.mp hl with hl | hl
        · exact hpassed l hl
        · rw [List.mem_singleton.mp hl]
          exact hpass

theorem bodyByte_past (hs : c.state = .body) (b : Byte) : KeepsHead c (c.bodyByte b) ∧
    (c.bodyByte b).state ≠ .statusLine ∧ (c.bodyByte b).state ≠ .headers := by
  unfold bodyByte
  split
  · dsimp only
    split
    · exact ⟨⟨rfl, rfl, rfl, rfl, rfl⟩, by simp, by simp⟩
    · exact ⟨⟨rfl, rfl, rfl, rfl, rfl⟩, by simp [hs], by simp [hs]⟩
  split
  · exact ⟨keepsHead_fail .., by simp [bodyLimit, Core.fail], by simp [bodyLimit, Core.fail]⟩
  · exact ⟨⟨rfl, rfl, rfl, rfl, rfl⟩, by simp [hs], by simp [hs]⟩

theorem step_reading {d : Core} {v : Bytes} (h : Reading s c u)
    (hstep : c.step u = some (d, v)) : Reading s d v := by
  have hkeep {d : Core} {v : Bytes} (hs : c.state ≠ .statusLine ∧ c.state ≠ .headers ∧
      c.state ≠ .error) (hsame : KeepsHead c d)
      (hpast : d.state ≠ .statusLine ∧ d.state ≠ .headers) : Reading s d v :=
    h.keep hs.1 hs.2.1 hs.2.2 hsame.headers hpast
  rcases c.reads_cases with hl | hs | hs | hs | hh
  · rw [step_line hl] at hstep
    obtain ⟨⟨line, r⟩, hline, hx⟩ := Option.map_eq_some_iff.mp hstep
    simp only [Prod.mk.injEq] at hx
    obtain ⟨rfl, rfl⟩ := hx
    obtain ⟨hu, hcrlf⟩ := Lines.splitPair_some hline
    rcases hl with hs | hs | hs | hs
    · rw [hu] at h
      simp only [onLine, hs]
      exact reading_statusLine hs h hcrlf
    · rw [hu] at h
      exact reading_headers hs h hcrlf
    · obtain ⟨hsame, hst⟩ := chunkSizeText_keeps c line
      simp only [onLine, hs]
      apply hkeep (by simp [hs]) hsame
      rcases hst with hst | hst | hst <;> rw [hst] <;> simp
    · simp only [onLine, hs]
      split
      · exact hkeep (by simp [hs]) ⟨rfl, rfl, rfl, rfl, rfl⟩ (by simp)
      · obtain ⟨hsame, hst⟩ := trailerLineText_keeps c line
        rw [hs] at hst
        apply hkeep (by simp [hs]) hsame
        rcases hst with hst | hst <;> rw [hst] <;> simp
  · simp only [step, hs] at hstep
    rcases stepBody_cases hstep with ⟨rfl, -⟩ | ⟨b, -, rfl⟩
    · exact hkeep (by simp [hs]) ⟨rfl, rfl, rfl, rfl, rfl⟩ (by simp)
    · obtain ⟨hsame, hpast⟩ := bodyByte_past hs b
      exact hkeep (by simp [hs]) hsame hpast
  · simp only [step, hs] at hstep
    rcases stepChunkData_cases hstep with ⟨rfl, -⟩ | ⟨b, -, rfl⟩
    · exact hkeep (by simp [hs]) ⟨rfl, rfl, rfl, rfl, rfl⟩ (by simp)
    · obtain ⟨hsame, hst⟩ := chunkByte_keeps hs b
      apply hkeep (by simp [hs]) hsame
      rcases hst with hst | hst | hst <;> rw [hst] <;> simp
  · simp only [step, hs] at hstep
    obtain ⟨a, b, -, rfl⟩ := stepChunkCrlf_cases hstep
    unfold chunkCrlf
    split
    · exact .of_error rfl
    · exact hkeep (by simp [hs]) ⟨rfl, rfl, rfl, rfl, rfl⟩ (by simp)
  · rw [step_halted hh] at hstep
    cases hstep

theorem drain_reading (config : Config) (s : Bytes) :
    Reading s (responseMachine.drain (Core.fresh config) s).1
      (responseMachine.drain (Core.fresh config) s).2 := by
  apply Machine.drain_preserves (M := responseMachine) (P := Reading s)
    (fun _ _ _ _ h hstep => step_reading h hstep)
  exact ⟨fun _ _ h => h, rfl⟩

/-- A response that the parser completes, however it is fed, has a final head. Its field lines
are what is in store, and each of them passed. -/
theorem head_of_complete {config : Config} {ds : List Bytes} {eof : Bool}
    (hdone : (endOf config ds eof).isComplete = true) :
    ∃ first fields, FinalHead ds.flatten first fields ∧
      (endOf config ds eof).headers = storedFields fields ∧ ∀ l ∈ fields, Passed l := by
  have hreading := drain_reading config ds.flatten
  have hsame := drain_of_endOf hdone
  have hstate := congrArg Outcome.state hsame
  have hheaders := congrArg Outcome.headers hsame
  simp only [Core.outcome] at hstate hheaders
  rcases complete_of_endOf hdone with ⟨hs, heq⟩ | ⟨hs, -, heq⟩
  · rw [hstate] at hs
    rw [heq, hheaders]
    exact hreading.past (by simp [hs]) (by simp [hs]) (by simp [hs])
  · rw [hstate] at hs
    rw [heq, Core.finishMessage, hheaders]
    exact hreading.past (by simp [hs]) (by simp [hs]) (by simp [hs])

end Aevrix.Proxy
