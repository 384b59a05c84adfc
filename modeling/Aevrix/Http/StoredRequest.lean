import Aevrix.Http.RequestGrammar

/-!
# What a request parser has stored

Whatever is fed, cut anywhere, the request in store has a known method, a target that is
a word and one field a name, and no value with a CRLF in it (`sound_of_complete`). A
bare CR or LF inside a value is stored as it came.
-/

namespace Aevrix.Http
open Incremental HttpRequestParser HttpRequestParser.Core

/-- The parts of a request the parser has checked. -/
structure HttpRequest.Sound (r : HttpRequest) : Prop where
  known : r.method ≠ .unknown
  target_word : r.target ≠ [] ∧ ∀ c ∈ r.target, isSpace c = false
  names : ∀ h ∈ r.headers, h.name ≠ [] ∧ ∀ c ∈ h.name, HttpHeader.isTokenChar c = true
  unbroken : ∀ h ∈ r.headers, findCrlf h.value = none
  distinct : r.headers.Distinct

/-- The request is sound, and a body is in store only where the parser reads one. -/
structure Stores (c : Core) : Prop where
  sound : c.request.Sound
  quiet : c.state ≠ .complete → c.request.body = []
  reads : c.state = .body → c.request.requiresBody = true
  bodied : c.request.body ≠ [] → c.request.requiresBody = true
  bounded : c.request.body.length ≤ c.config.maxBodyBytes

theorem Stores.of_head {c : Core} (h : c.request.Sound) (hb : c.request.body = [])
    (hs : c.state ≠ .body) : Stores c :=
  ⟨h, fun _ => hb, fun he => (hs he).elim, fun hne => (hne hb).elim, by simp [hb]⟩

theorem sound_default : ({} : HttpRequest).Sound :=
  ⟨by decide, slash_word, by simp, by simp, HttpHeaders.distinct_nil⟩

theorem stores_fresh (config : ParserConfig) : Stores (Core.fresh config) :=
  .of_head sound_default rfl (by simp [Core.fresh])

theorem findCrlf_trimWhitespace {v : Bytes} (h : findCrlf v = none) :
    findCrlf (trimWhitespace v) = none :=
  Lines.findPair_infix_none (trimBy_inside isTrimmable v) h

theorem HttpRequest.Sound.setHeader {r : HttpRequest} (h : r.Sound) {name value : Bytes}
    (hn : name ≠ [] ∧ ∀ c ∈ name, HttpHeader.isTokenChar c = true) (hv : findCrlf value = none) :
    (r.setHeader name value).Sound := by
  refine ⟨h.known, h.target_word, fun g hg => ?_, fun g hg => ?_, h.distinct.set name value⟩
  · rcases (HttpHeaders.mem_set h.distinct name value g).mp hg with rfl | ⟨hg, -⟩
    · exact hn
    · exact h.names g hg
  · rcases (HttpHeaders.mem_set h.distinct name value g).mp hg with rfl | ⟨hg, -⟩
    · exact findCrlf_trimWhitespace hv
    · exact h.unbroken g hg

/-! ### One line, one body -/

theorem requestLineText_stores {c : Core} (h : Stores c) (hs : c.state = .requestLine)
    (line : Bytes) : (c.requestLineText line).2.request.Sound ∧
      (c.requestLineText line).2.request.body = [] := by
  have hb : c.request.body = [] := h.quiet (by simp [hs])
  obtain ⟨-, -, hnames, hunbroken, hdistinct⟩ := h.sound
  unfold requestLineText
  split
  · exact ⟨h.sound, hb⟩
  split
  · exact ⟨h.sound, hb⟩
  rename_i target rest hword
  obtain ⟨-, -, -, hne, hw, -⟩ := extractWord_split hword
  split
  · exact ⟨h.sound, hb⟩
  simp only
  split
  · exact ⟨h.sound, hb⟩
  rename_i hm
  split
  · exact ⟨⟨hm, ⟨hne, hw⟩, hnames, hunbroken, hdistinct⟩, hb⟩
  split
  · exact ⟨⟨hm, ⟨hne, hw⟩, hnames, hunbroken, hdistinct⟩, hb⟩
  · exact ⟨⟨hm, ⟨hne, hw⟩, hnames, hunbroken, hdistinct⟩, hb⟩

theorem headerText_stores {c : Core} (h : Stores c) (hs : c.state = .headers) {line : Bytes}
    (hcrlf : findCrlf line = none) : (c.headerText line).2.request.Sound ∧
      (c.headerText line).2.request.body = [] := by
  have hb : c.request.body = [] := h.quiet (by simp [hs])
  simp only [headerText]
  split
  · exact ⟨h.sound, hb⟩
  split
  · exact ⟨h.sound, hb⟩
  split
  · exact ⟨h.sound, hb⟩
  rename_i hname
  rw [Bool.not_eq_true, Bool.not_eq_false'] at hname
  split
  · exact ⟨h.sound, hb⟩
  have hvalue : (line.dropWhile (· != 58)).drop 1 <:+ line :=
    (List.drop_suffix _ _).trans (List.dropWhile_suffix _)
  exact ⟨h.sound.setHeader ((HttpHeader.isValidName_iff _ _).mp hname)
    (Lines.findPair_infix_none hvalue.isInfix hcrlf), hb⟩

theorem onRequestLine_stores {c : Core} (h : Stores c) (hs : c.state = .requestLine)
    (line : Bytes) : Stores (c.onRequestLine line) := by
  obtain ⟨hsound, hb⟩ := requestLineText_stores h hs line
  have hne : (c.onRequestLine line).state ≠ .body := by
    rcases onRequestLine_state c line with he | he <;> rw [he] <;> decide
  unfold onRequestLine at hne ⊢
  split at hne
  · rename_i hok
    rw [if_pos hok]
    exact .of_head hsound hb hne
  · rename_i hok
    rw [if_neg hok]
    exact .of_head hsound hb hne

theorem onHeaderLine_stores {c : Core} (h : Stores c) (hs : c.state = .headers) {line : Bytes}
    (hcrlf : findCrlf line = none) : Stores (c.onHeaderLine line) := by
  have hb : c.request.body = [] := h.quiet (by simp [hs])
  unfold onHeaderLine
  split
  · -- the empty line: a body is read after POST, PUT and PATCH
    unfold endOfHeaders
    split
    · rename_i hread
      rw [HttpRequest.hasBody, hb, List.isEmpty_nil, Bool.not_true, Bool.false_or] at hread
      exact ⟨h.sound, fun _ => hb, fun _ => hread, fun hne => (hne hb).elim, by simp [hb]⟩
    · exact .of_head h.sound hb (by simp)
  · obtain ⟨hsound, hb'⟩ := headerText_stores h hs hcrlf
    refine .of_head hsound hb' ?_
    rcases headerText_state c line with ⟨-, he⟩ | ⟨-, he⟩
    · rw [he, hs]
      decide
    · rw [he]
      decide

theorem onBody_stores {c c' : Core} {u u' : Bytes} (h : Stores c) (hs : c.state = .body)
    (hbody : c.onBody u = some (c', u')) : Stores c' := by
  have hb : c.request.body = [] := h.quiet (by simp [hs])
  have hread := h.reads hs
  simp only [onBody] at hbody
  split at hbody
  · simp only [Option.some.injEq, Prod.mk.injEq] at hbody
    rw [← hbody.1]
    exact .of_head h.sound hb (by simp)
  split at hbody
  · simp only [Option.some.injEq, Prod.mk.injEq] at hbody
    rw [← hbody.1]
    exact .of_head h.sound hb (by simp [Core.setError])
  rename_i n _
  split at hbody
  · simp only [Option.some.injEq, Prod.mk.injEq] at hbody
    rw [← hbody.1]
    exact .of_head h.sound hb (by simp [Core.setError])
  rename_i hmax
  split at hbody
  · cases hbody
  · simp only [Option.some.injEq, Prod.mk.injEq] at hbody
    rw [← hbody.1]
    refine ⟨⟨h.sound.known, h.sound.target_word, h.sound.names, h.sound.unbroken,
      h.sound.distinct⟩, fun hne => (hne rfl).elim, by simp, fun _ => hread, ?_⟩
    simp only [List.length_take]
    omega

theorem step_stores {c c' : Core} {u u' : Bytes} (h : Stores c)
    (hstep : c.step u = some (c', u')) : Stores c' := by
  cases hs : c.state with
  | requestLine =>
    simp only [step, hs] at hstep
    obtain ⟨⟨line, r⟩, -, hx⟩ := Option.map_eq_some_iff.mp hstep
    simp only [Prod.mk.injEq] at hx
    rw [← hx.1]
    exact onRequestLine_stores h hs line
  | headers =>
    simp only [step, hs] at hstep
    obtain ⟨⟨line, r⟩, hline, hx⟩ := Option.map_eq_some_iff.mp hstep
    simp only [Prod.mk.injEq] at hx
    rw [← hx.1]
    exact onHeaderLine_stores h hs (Lines.splitPair_some hline).2
  | body =>
    simp only [step, hs] at hstep
    exact onBody_stores h hs hstep
  | complete =>
    rw [step_complete hs] at hstep
    cases hstep
  | error =>
    rw [step_error hs] at hstep
    cases hstep

/-! ### Feeds -/

theorem tooLong_stores {c : Core} {u : Bytes} (h : Stores c) (ho : c.overLimit u = true) :
    Stores c.tooLong := by
  have hb : c.request.body = [] := by
    refine h.quiet fun hs => ?_
    rw [overLimit, hs] at ho
    cases ho
  unfold tooLong
  split
  · exact .of_head h.sound hb (by simp [Core.setError])
  · exact .of_head h.sound hb (by simp [Core.setError])

theorem feed_stores_live {p : HttpRequestParser} (h : Stores p.toCore) (hc : p.state ≠ .complete)
    (he : p.state ≠ .error) (d : Bytes) : Stores (p.feed d).toCore := by
  rw [feed_refines p hc he d, ofConfig_toCore]
  have hdrain := Machine.drain_preserves (M := requestMachine) (P := fun c _ => Stores c)
    (fun _ _ _ _ hs hstep => step_stores hs hstep) p.toCore (p.buffer ++ d) h
  unfold Guard.feed
  rw [if_neg (by exact Bool.false_ne_true)]
  unfold Guard.settle
  split
  · rename_i ho
    exact tooLong_stores hdrain ho
  · exact hdrain

/-- A feed after completion starts over (`http_request_parser.h:389-391`). -/
theorem feed_stores {p : HttpRequestParser} (h : Stores p.toCore) (d : Bytes) :
    Stores (p.feed d).toCore := by
  by_cases he : p.state = .error
  · rw [feed_error p he d]
    exact h
  by_cases hc : p.state = .complete
  · have hreset : p.feed d = p.reset.feed d := by
      have h1 : p.isComplete = true := by simp [isComplete, hc]
      have h2 : p.hasError = false := by simp [hasError, hc]
      have h3 : p.reset.isComplete = false := rfl
      have h4 : p.reset.hasError = false := rfl
      simp only [feed, h1, h2, h3, h4, Bool.false_eq_true, if_false, if_true]
    rw [hreset]
    exact feed_stores_live (stores_fresh p.config) (fun h => by cases h)
      (fun h => by cases h) d
  · exact feed_stores_live h hc he d

theorem run_stores (config : ParserConfig) (ds : List Bytes) : Stores (run config ds).toCore := by
  have key : ∀ p : HttpRequestParser, Stores p.toCore → Stores (ds.foldl feed p).toCore := by
    induction ds with
    | nil => exact fun p h => h
    | cons d ds ih => exact fun p h => ih (p.feed d) (feed_stores h d)
  exact key _ (stores_fresh config)

theorem sound_of_complete {config : ParserConfig} {ds : List Bytes}
    (h : (run config ds).isComplete = true) : (run config ds).takeRequest.1.Sound ∧
      ((run config ds).takeRequest.1.body ≠ [] →
        (run config ds).takeRequest.1.requiresBody = true) := by
  have hs := run_stores config ds
  rw [takeRequest, if_pos h]
  exact ⟨hs.sound, hs.bodied⟩

end Aevrix.Http
