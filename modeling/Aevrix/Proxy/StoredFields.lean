import Aevrix.Proxy.ResponseFraming

/-!
# What a response parser has stored

Whatever is fed, the fields stored are valid, one a name, and a stored length is a run of
at most 19 digits; a response that has no body by its kind has none in store.
-/

namespace Aevrix.Proxy
open Aevrix.Http Incremental ProxyResponseParser ProxyResponseParser.Core

/-- A body is being read. -/
def ProxyResponseParser.Core.InBody (c : Core) : Prop := c.state = .body ∨ c.state = .chunkSize ∨
  c.state = .chunkData ∨ c.state = .chunkDataCrlf ∨ c.state = .trailer

/-- The fields of a header vector a response can be relayed with. -/
structure ValidFields (hs : HttpHeaders) : Prop where
  valid : ∀ h ∈ hs, h.isValid = true
  distinct : hs.Distinct
  digits : ∀ h ∈ hs, h.normalizedName = ascii "content-length" →
    h.value ≠ [] ∧ h.value.length ≤ 19 ∧ ∀ c ∈ h.value, isDigit c = true

/-- The fields are valid, and no body is in store where none belongs. -/
structure StoresValid (c : Core) : Prop where
  fields : ValidFields c.headers
  quiet : c.bodyless = true ∨ c.state = .statusLine ∨ c.state = .headers → c.body = []
  bodied : c.InBody → c.bodyless = false

theorem validFields_nil : ValidFields [] := ⟨by simp, HttpHeaders.distinct_nil, by simp⟩

theorem ValidFields.set {hs : HttpHeaders} (h : ValidFields hs) {name value : Bytes}
    (hv : (HttpHeader.ofField name value).isValid = true)
    (hd : HttpHeader.normalizeName name = ascii "content-length" → trimWhitespace value ≠ [] ∧
      (trimWhitespace value).length ≤ 19 ∧ ∀ c ∈ trimWhitespace value, isDigit c = true) :
    ValidFields (hs.set name value) := by
  refine ⟨fun g hg => ?_, h.distinct.set name value, fun g hg hk => ?_⟩
  · rcases (HttpHeaders.mem_set h.distinct name value g).mp hg with rfl | ⟨hg, -⟩
    · exact hv
    · exact h.valid g hg
  · rcases (HttpHeaders.mem_set h.distinct name value g).mp hg with rfl | ⟨hg, -⟩
    · exact hd hk
    · exact h.digits g hg hk

theorem StoresValid.of_fail {c : Core} {hs : HttpHeaders} (h : ValidFields hs)
    (hc : c.headers = hs) (message : Bytes) : StoresValid (c.fail message) := by
  refine ⟨hc ▸ h, fun _ => rfl, fun hin => ?_⟩
  rcases hin with hin | hin | hin | hin | hin <;> cases hin

theorem StoresValid.of_head {c : Core} (hf : ValidFields c.headers) (hb : c.body = [])
    (hs : c.state = .statusLine ∨ c.state = .headers) : StoresValid c := by
  refine ⟨hf, fun _ => hb, fun hin => ?_⟩
  rcases hs with hs | hs
  · rcases hin with hin | hin | hin | hin | hin <;> rw [hs] at hin <;> cases hin
  · rcases hin with hin | hin | hin | hin | hin <;> rw [hs] at hin <;> cases hin

theorem statusLineText_storesValid {c : Core} (h : StoresValid c) (hs : c.state = .statusLine)
    (line : Bytes) : StoresValid (c.statusLineText line) := by
  have hb : c.body = [] := h.quiet (Or.inr (Or.inl hs))
  simp only [statusLineText]
  split
  · exact .of_fail h.fields (by rfl) _
  split
  · exact .of_fail h.fields (by rfl) _
  split
  · exact .of_fail h.fields (by rfl) _
  split
  · exact .of_fail h.fields (by rfl) _
  split
  · split
    · exact .of_fail h.fields (by rfl) _
    · exact .of_head validFields_nil hb (Or.inr rfl)
  · exact .of_head h.fields hb (Or.inr rfl)

theorem headerLineText_storesValid {c : Core} (h : StoresValid c) (hs : c.state = .headers)
    (line : Bytes) : StoresValid (c.headerLineText line) := by
  have hb : c.body = [] := h.quiet (Or.inr (Or.inr hs))
  simp only [headerLineText]
  split
  · exact .of_fail h.fields (by rfl) _
  split
  · exact .of_fail h.fields (by rfl) _
  split
  · exact .of_fail h.fields (by rfl) _
  split
  · exact .of_fail h.fields (by rfl) _
  rename_i hvalid
  rw [Bool.not_eq_true, Bool.not_eq_false'] at hvalid
  simp only [storeField]
  split
  · rename_i hk
    simp only [contentLengthField]
    split
    · exact .of_fail h.fields (by rfl) _
    split
    · exact .of_fail h.fields (by rfl) _
    rename_i hdigits
    simp only [not_or, Bool.not_eq_true, Bool.not_eq_false', List.all_eq_true] at hdigits
    obtain ⟨hne, h19, hall⟩ := hdigits
    split
    · exact .of_fail h.fields (by rfl) _
    · refine .of_head (h.fields.set hvalid fun _ => ?_) hb (Or.inr hs)
      rw [trimWhitespace_digits hall]
      exact ⟨hne, Nat.not_lt.mp h19, hall⟩
  split
  · rename_i hk _
    simp only [transferEncodingField]
    split
    · exact .of_fail h.fields (by rfl) _
    · exact .of_head (h.fields.set hvalid fun h => (hk h).elim) hb (Or.inr hs)
  split
  · rename_i hk _ _
    exact .of_head (h.fields.set hvalid fun h => (hk h).elim) hb (Or.inr hs)
  · rename_i hk _ _
    exact .of_head (h.fields.set hvalid fun h => (hk h).elim) hb (Or.inr hs)

theorem endOfHeaders_storesValid {c : Core} (h : StoresValid c) (hs : c.state = .headers) :
    StoresValid c.endOfHeaders := by
  have hb : c.body = [] := h.quiet (Or.inr (Or.inr hs))
  simp only [endOfHeaders]
  split
  · exact .of_head validFields_nil hb (Or.inl rfl)
  simp only [decideFraming]
  split
  · exact .of_fail h.fields (by rfl) _
  split
  · refine ⟨h.fields, fun _ => hb, fun hin => ?_⟩
    rcases hin with hin | hin | hin | hin | hin <;> cases hin
  rename_i hbodyless
  rw [Bool.not_eq_true] at hbodyless
  split
  · exact ⟨h.fields, fun _ => hb, fun _ => hbodyless⟩
  split
  · split
    · exact ⟨h.fields, fun _ => hb, fun _ => hbodyless⟩
    · exact ⟨h.fields, fun _ => hb, fun _ => hbodyless⟩
  · exact ⟨h.fields, fun _ => hb, fun _ => hbodyless⟩

theorem StoresValid.inside {c d : Core} (h : StoresValid c) (hin : c.InBody)
    (hheaders : d.headers = c.headers) (hbodyless : d.bodyless = c.bodyless)
    (hs : d.state ≠ .statusLine ∧ d.state ≠ .headers) : StoresValid d := by
  have hno := h.bodied hin
  refine ⟨by rw [hheaders]; exact h.fields, fun hq => ?_, fun _ => hbodyless.trans hno⟩
  rcases hq with hq | hq | hq
  · rw [hbodyless, hno] at hq
    cases hq
  · exact (hs.1 hq).elim
  · exact (hs.2 hq).elim

theorem fresh_storesValid (config : Config) : StoresValid (Core.fresh config) :=
  .of_head validFields_nil rfl (Or.inl rfl)

theorem step_storesValid {c c' : Core} {u u' : Bytes} (h : StoresValid c)
    (hstep : c.step u = some (c', u')) : StoresValid c' := by
  rcases c.reads_cases with hl | hs | hs | hs | hh
  · rw [step_line hl] at hstep
    obtain ⟨⟨line, r⟩, hline, hx⟩ := Option.map_eq_some_iff.mp hstep
    simp only [Prod.mk.injEq] at hx
    rw [← hx.1]
    rcases hl with hs | hs | hs | hs
    · simp only [onLine, hs]
      exact statusLineText_storesValid h hs line
    · simp only [onLine, hs]
      split
      · exact endOfHeaders_storesValid h hs
      · exact headerLineText_storesValid h hs line
    · simp only [onLine, hs]
      have hin : c.InBody := Or.inr (Or.inl hs)
      simp only [chunkSizeText]
      split
      · exact .of_fail h.fields (by rfl) _
      split
      · exact .of_fail h.fields (by rfl) _
      split
      · exact h.inside hin rfl rfl (by simp)
      · exact h.inside hin rfl rfl (by simp)
    · simp only [onLine, hs]
      have hin : c.InBody := Or.inr (Or.inr (Or.inr (Or.inr hs)))
      split
      · exact h.inside hin rfl rfl (by simp)
      simp only [trailerLineText]
      split
      · exact .of_fail h.fields (by rfl) _
      split
      · exact .of_fail h.fields (by rfl) _
      split
      · exact .of_fail h.fields (by rfl) _
      · exact h.inside hin rfl rfl (by simp only [hs]; simp)
  · have hin : c.InBody := Or.inl hs
    simp only [step, hs] at hstep
    rcases stepBody_cases hstep with ⟨rfl, -⟩ | ⟨b, -, rfl⟩
    · exact h.inside hin rfl rfl (by simp)
    · simp only [bodyByte]
      split
      · split
        · exact h.inside hin rfl rfl (by simp)
        · exact h.inside hin rfl rfl (by simp only [hs]; simp)
      split
      · exact .of_fail h.fields (by rfl) _
      · exact h.inside hin rfl rfl (by simp only [hs]; simp)
  · have hin : c.InBody := Or.inr (Or.inr (Or.inl hs))
    simp only [step, hs] at hstep
    rcases stepChunkData_cases hstep with ⟨rfl, -⟩ | ⟨b, -, rfl⟩
    · exact h.inside hin rfl rfl (by simp)
    · simp only [chunkByte]
      split
      · exact .of_fail h.fields (by rfl) _
      · refine h.inside hin rfl rfl ?_
        simp only [hs]
        split <;> simp
  · have hin : c.InBody := Or.inr (Or.inr (Or.inr (Or.inl hs)))
    simp only [step, hs] at hstep
    obtain ⟨a, b, -, rfl⟩ := stepChunkCrlf_cases hstep
    simp only [chunkCrlf]
    split
    · exact .of_fail h.fields (by rfl) _
    · exact h.inside hin rfl rfl (by simp)
  · rw [step_halted hh] at hstep
    cases hstep

theorem drain_storesValid (config : Config) (s : Bytes) :
    StoresValid (responseMachine.drain (Core.fresh config) s).1 :=
  Machine.drain_preserves (M := responseMachine) (P := fun c _ => StoresValid c)
    (fun _ _ _ _ h hstep => step_storesValid h hstep) _ _ (fresh_storesValid config)

/-- **What a completed response has in store.** Valid fields, and no body after HEAD or
with a status that allows none. -/
theorem stored_of_complete {config : Config} {ds : List Bytes} {eof : Bool}
    (hdone : (endOf config ds eof).isComplete = true) :
    ValidFields (endOf config ds eof).headers ∧
      (config.requestWasHead = true ∨ (endOf config ds eof).statusCode = 204 ∨
        (endOf config ds eof).statusCode = 304 → (endOf config ds eof).body = []) := by
  have hstore := drain_storesValid config ds.flatten
  have hconf : (responseMachine.drain (Core.fresh config) ds.flatten).1.config = config :=
    visited_config _ _ _ (Machine.drain_mem_visited ..)
  have hsame := drain_of_endOf hdone
  have hstate := congrArg Outcome.state hsame
  have hstatus := congrArg Outcome.statusCode hsame
  have hheaders := congrArg Outcome.headers hsame
  have hbody := congrArg Outcome.body hsame
  simp only [Core.outcome] at hstate hstatus hheaders hbody
  have hkind : config.requestWasHead = true ∨ (run config ds).statusCode = 204 ∨
      (run config ds).statusCode = 304 →
        (responseMachine.drain (Core.fresh config) ds.flatten).1.bodyless = true := fun h => by
    rw [hstatus] at h
    rw [bodyless, hconf, Bool.or_eq_true, Bool.or_eq_true, beq_iff_eq, beq_iff_eq, or_assoc]
    exact h
  rcases complete_of_endOf hdone with ⟨-, heq⟩ | ⟨hs, -, heq⟩
  · rw [heq, hheaders, hbody]
    exact ⟨hstore.fields, fun h => hstore.quiet (Or.inl (hkind h))⟩
  · rw [heq]
    refine ⟨hheaders ▸ hstore.fields, fun h => ?_⟩
    have hno := hstore.bodied (Or.inl (hstate ▸ hs))
    rw [hkind h] at hno
    cases hno

end Aevrix.Proxy
