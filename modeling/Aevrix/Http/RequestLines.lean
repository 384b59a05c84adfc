import Aevrix.Http.RequestLimits

/-!
# The field lines of a request

The head of a Complete request stands at the front of what was fed for it, and the fields in store
are those of its lines. A name that is repeated has one entry, and its value is that of the last
line (`mem_foldl_set`).
-/

namespace Aevrix.Http
open Incremental HttpRequestParser HttpRequestParser.Core

/-! ### One entry a name -/

/-- No later element of `xs` has the key of `x`. -/
def LastOf {α κ : Type*} (key : α → κ) (xs : List α) (x : α) : Prop :=
  ∃ pre post, xs = pre ++ x :: post ∧ ∀ y ∈ post, key y ≠ key x

section lastOf
variable {α κ : Type*} {key : α → κ} {xs : List α} {x y : α}

theorem LastOf.mem (h : LastOf key xs x) : x ∈ xs := by
  obtain ⟨pre, post, rfl, -⟩ := h
  exact List.mem_append_right _ (List.mem_cons_self ..)

theorem not_lastOf_nil : ¬LastOf key [] x := by
  rintro ⟨pre, post, h, -⟩
  exact absurd h.symm (by simp)

theorem lastOf_concat : LastOf key (xs ++ [y]) x ↔ x = y ∨ LastOf key xs x ∧ key x ≠ key y := by
  constructor
  · rintro ⟨pre, post, hxs, hpost⟩
    rcases List.eq_nil_or_concat' post with rfl | ⟨post, z, rfl⟩
    · exact Or.inl (List.append_inj' hxs rfl).2.symm |>.imp_left List.singleton_inj.mp
    · rw [← List.cons_append, ← List.append_assoc] at hxs
      obtain ⟨hinit, hlast⟩ := List.append_inj' hxs rfl
      obtain rfl := List.singleton_inj.mp hlast
      refine Or.inr ⟨⟨pre, post, hinit, fun w hw => hpost w (List.mem_append_left _ hw)⟩, ?_⟩
      exact (hpost y (List.mem_append_right _ (List.mem_singleton.mpr rfl))).symm
  · rintro (rfl | ⟨⟨pre, post, rfl, hpost⟩, hne⟩)
    · exact ⟨xs, [], rfl, by simp⟩
    · refine ⟨pre, post ++ [y], by simp, fun w hw => ?_⟩
      rcases List.mem_append.mp hw with hw | hw
      · exact hpost w hw
      · rw [List.mem_singleton.mp hw]
        exact hne.symm

theorem LastOf.unique (hx : LastOf key xs x)
    (hy : LastOf key xs y) (hkey : key x = key y) : x = y := by
  induction xs using List.reverseRecOn with
  | nil => exact (not_lastOf_nil hx).elim
  | append_singleton xs z ih =>
    rcases lastOf_concat.mp hx with rfl | ⟨hx, hxz⟩
    · rcases lastOf_concat.mp hy with rfl | ⟨-, hyz⟩
      · rfl
      · exact (hyz hkey.symm).elim
    · rcases lastOf_concat.mp hy with rfl | ⟨hy, -⟩
      · exact (hxz hkey).elim
      · exact ih hx hy

theorem exists_lastOf [DecidableEq κ] (h : x ∈ xs) : ∃ y, LastOf key xs y ∧ key y = key x := by
  induction xs using List.reverseRecOn with
  | nil => cases h
  | append_singleton xs z ih =>
    by_cases hz : key x = key z
    · exact ⟨z, lastOf_concat.mpr (Or.inl rfl), hz.symm⟩
    rcases List.mem_append.mp h with hx | hx
    · obtain ⟨y, hy, hkey⟩ := ih hx
      exact ⟨y, lastOf_concat.mpr (Or.inr ⟨hy, hkey.symm ▸ hz⟩), hkey⟩
    · exact (hz (congrArg key (List.mem_singleton.mp hx))).elim
end lastOf

theorem mem_foldl_set {α : Type*} (name value : α → Bytes) (xs : List α) :
    (xs.foldl (fun hs x => HttpHeaders.set hs (name x) (value x)) []).Distinct ∧
      ∀ h, h ∈ xs.foldl (fun hs x => HttpHeaders.set hs (name x) (value x)) [] ↔
        ∃ x, LastOf (fun x => HttpHeader.normalizeName (name x)) xs x ∧
          h = .ofField (name x) (value x) := by
  induction xs using List.reverseRecOn with
  | nil => exact ⟨HttpHeaders.distinct_nil, fun h => by simp [not_lastOf_nil]⟩
  | append_singleton xs y ih =>
    obtain ⟨hdistinct, hmem⟩ := ih
    rw [List.foldl_append, List.foldl_cons, List.foldl_nil]
    refine ⟨hdistinct.set _ _, fun h => ?_⟩
    rw [HttpHeaders.mem_set hdistinct, hmem]
    constructor
    · rintro (rfl | ⟨⟨x, hlast, rfl⟩, hne⟩)
      · exact ⟨y, lastOf_concat.mpr (Or.inl rfl), rfl⟩
      · exact ⟨x, lastOf_concat.mpr (Or.inr ⟨hlast, hne⟩), rfl⟩
    · rintro ⟨x, hlast, rfl⟩
      rcases lastOf_concat.mp hlast with rfl | ⟨hlast, hne⟩
      · exact Or.inl rfl
      · exact Or.inr ⟨⟨x, hlast, rfl⟩, hne⟩

/-! ### Lines -/

/-- The name of a field line, without the white space the parser drops. -/
def lineName (line : Bytes) : Bytes := trimBy isOws (line.takeWhile (· != 58))
/-- What is behind the colon. -/
def lineValue (line : Bytes) : Bytes := (line.dropWhile (· != 58)).drop 1
/-- The name as names are compared. -/
def lineKey (line : Bytes) : Bytes := HttpHeader.normalizeName (lineName line)
/-- The field of a line. -/
def lineHeader (line : Bytes) : HttpHeader := .ofField (lineName line) (lineValue line)

/-- The fields in store once the lines were read. -/
def storedLines (lines : List Bytes) : HttpHeaders :=
  lines.foldl (fun hs line => hs.set (lineName line) (lineValue line)) []

theorem storedLines_concat (lines : List Bytes) (line : Bytes) : storedLines (lines ++ [line]) =
    (storedLines lines).set (lineName line) (lineValue line) := by
  rw [storedLines, List.foldl_append]
  rfl

theorem storedLines_distinct (lines : List Bytes) : (storedLines lines).Distinct :=
  (mem_foldl_set lineName lineValue lines).1

theorem mem_storedLines {lines : List Bytes} {h : HttpHeader} :
    h ∈ storedLines lines ↔ ∃ line, LastOf lineKey lines line ∧ h = lineHeader line :=
  (mem_foldl_set lineName lineValue lines).2 h

/-! ### Reading -/

/-- The fields in store are those of the lines, and their names are valid. -/
structure StoresLines (c : Core) (lines : List Bytes) : Prop where
  headers : c.request.headers = storedLines lines
  named : ∀ line ∈ lines, (lineHeader line).isValidName = true

/-- `fed` begins with these lines, and `u` is behind them. -/
structure HeadRead (fed first : Bytes) (fields : List Bytes) (u : Bytes) : Prop where
  whole : fed = first ++ crlf ++ (fields.flatMap (· ++ crlf) ++ u)
  firstLine : findCrlf first = none
  otherLines : ∀ line ∈ fields, line ≠ [] ∧ findCrlf line = none

theorem HeadRead.field {fed first line rest : Bytes} {fields : List Bytes}
    (h : HeadRead fed first fields (line ++ crlf ++ rest)) (hne : line ≠ [])
    (hline : findCrlf line = none) : HeadRead fed first (fields ++ [line]) rest := by
  refine ⟨?_, h.firstLine, fun l hl => ?_⟩
  · rw [h.whole]
    simp only [List.flatMap_append, List.flatMap_cons, List.flatMap_nil, List.append_nil,
      List.append_assoc]
  · rcases List.mem_append.mp hl with hl | hl
    · exact h.otherLines l hl
    · rw [List.mem_singleton.mp hl]
      exact ⟨hne, hline⟩

theorem HeadRead.close {fed first rest : Bytes} {fields : List Bytes}
    (h : HeadRead fed first fields (crlf ++ rest)) : HeadLines fed first fields := by
  refine ⟨⟨rest, ?_⟩, h.firstLine, h.otherLines⟩
  rw [h.whole, headBlock, lineBlock]
  simp only [List.append_assoc]

/-- Where the parser is in what was fed to it since it was reset. -/
def LinesRead (p : HttpRequestParser) (log : LineLog) : Prop := match p.state with
  | .requestLine => log.fed = p.buffer ∧ log.fields = [] ∧ p.request.headers = []
  | .headers => ∃ first, log.first = some first ∧ HeadRead log.fed first log.fields p.buffer ∧
      StoresLines p.toCore log.fields
  | .error => True
  | _ => ∃ first, log.first = some first ∧ HeadLines log.fed first log.fields ∧
      StoresLines p.toCore log.fields

section lines
variable {p q : HttpRequestParser} {log : LineLog} {c : Core} {u : Bytes} {k : ℕ}

theorem LinesRead.of_past {first : Bytes} (hs : q.state ≠ .requestLine ∧ q.state ≠ .headers)
    (hfirst : log.first = some first) (hhead : HeadLines log.fed first log.fields)
    (hstored : StoresLines q.toCore log.fields) : LinesRead q log := by
  unfold LinesRead
  split
  · exact (hs.1 ‹_›).elim
  · exact (hs.2 ‹_›).elim
  · trivial
  · exact ⟨first, hfirst, hhead, hstored⟩

theorem split_line (hcrlf : findCrlf u = some k) :
    u = u.take k ++ crlf ++ u.drop (k + 2) ∧ findCrlf (u.take k) = none := by
  have hsplit : splitLine u = some (u.take k, u.drop (k + 2)) := by
    rw [splitLine_eq, hcrlf]
    rfl
  obtain ⟨hu, hnone⟩ := Lines.splitPair_some hsplit
  refine ⟨?_, hnone⟩
  conv_lhs => rw [hu]
  rw [List.append_assoc]
  rfl

theorem headerText_storesLines (h : StoresLines c log.fields) {line : Bytes}
    (hok : (c.headerText line).1 = true) :
    StoresLines (c.headerText line).2 (log.fields ++ [line]) := by
  simp only [headerText] at hok ⊢
  split at hok
  · cases hok
  split at hok
  · cases hok
  split at hok
  · cases hok
  split at hok
  · cases hok
  rename_i hcount hcolon hname htotal
  rw [Bool.not_eq_true, Bool.not_eq_false'] at hname
  rw [if_neg hcount, if_neg hcolon, if_neg (by rw [hname]; decide), if_neg htotal]
  refine ⟨?_, fun l hl => ?_⟩
  · rw [storedLines_concat, ← h.headers]
    rfl
  · rcases List.mem_append.mp hl with hl | hl
    · exact h.named l hl
    · rw [List.mem_singleton.mp hl]
      exact hname

theorem requestLineText_headers (c : Core) (line : Bytes) :
    (c.requestLineText line).2.request.headers = c.request.headers := by
  unfold requestLineText
  split
  · rfl
  split
  · rfl
  split
  · rfl
  simp only
  split
  · rfl
  split
  · rfl
  split
  · rfl
  split
  · rfl
  · rfl

theorem endOfHeaders_storesLines (h : StoresLines c log.fields) :
    StoresLines c.endOfHeaders log.fields :=
  ⟨by rw [endOfHeaders_request]; exact h.headers, h.named⟩

theorem endOfHeaders_past (c : Core) :
    c.endOfHeaders.state ≠ .requestLine ∧ c.endOfHeaders.state ≠ .headers := by
  unfold endOfHeaders
  split
  · simp
  · simp

/-- The line in front of the first CRLF is not empty, unless the CRLF comes at once. -/
theorem take_line_ne_nil (hcrlf : findCrlf u = some (k + 1)) : u.take (k + 1) ≠ [] := by
  intro hnil
  have hbound := Lines.findPair_bound (a := CR) (b := LF) hcrlf
  have hlen := congrArg List.length hnil
  rw [List.length_take, List.length_nil] at hlen
  omega

theorem headerText_goes_on {line : Bytes} (hok : (c.headerText line).1 = true) :
    (c.headerText line).2.state = c.state := by
  rcases headerText_state c line with ⟨-, hst⟩ | ⟨hbad, -⟩
  · exact hst
  · rw [hok] at hbad
    cases hbad

theorem linesRead_field {first : Bytes}
    (hread : HeadRead log.fed first log.fields p.buffer) (hstored : StoresLines p.toCore log.fields)
    (hcrlf : findCrlf p.buffer = some (k + 1))
    (hok : (p.headerText (p.buffer.take (k + 1))).1 = true) :
    HeadRead log.fed first (log.fields ++ [p.buffer.take (k + 1)]) (p.buffer.drop (k + 3)) ∧
      StoresLines (p.headerText (p.buffer.take (k + 1))).2 (log.fields ++ [p.buffer.take (k + 1)]) := by
  obtain ⟨hsplit, hline⟩ := split_line hcrlf
  rw [hsplit] at hread
  exact ⟨hread.field (take_line_ne_nil hcrlf) hline, headerText_storesLines hstored hok⟩

theorem linesRead_turn (h : LinesRead p log) : LinesRead p.turn.2 (log.note p) := by
  have hturned := turned p
  generalize p.turn.2 = q at hturned
  cases hturned with
  | waits hwaits =>
    rw [note_waits hwaits]
    exact h
  | fails herror _ => simp only [LinesRead, herror]
  | requestLine hs hcrlf _ =>
    simp only [LinesRead, hs] at h
    obtain ⟨hfed, hfields, hheaders⟩ := h
    obtain ⟨hsplit, hline⟩ := split_line hcrlf
    rw [note_requestLine hs hcrlf]
    refine ⟨_, rfl, ⟨?_, hline, ?_⟩, ⟨?_, ?_⟩⟩
    · simp only [hfields, List.flatMap_nil, List.nil_append]
      exact hfed.trans hsplit
    · simp only [hfields]
      simp
    · simp only [hfields]
      rw [requestLineText_headers]
      exact hheaders
    · simp only [hfields]
      simp
  | field hs hcrlf hok =>
    simp only [LinesRead, hs] at h
    obtain ⟨first, hfirst, hread, hstored⟩ := h
    obtain ⟨hread', hstored'⟩ := linesRead_field hread hstored hcrlf hok
    have hst := headerText_goes_on hok
    rw [note_field hs hcrlf]
    simp only [LinesRead, hst, hs]
    exact ⟨first, hfirst, hread', hstored'⟩
  | lastField hs hcrlf hok hempty =>
    simp only [LinesRead, hs] at h
    obtain ⟨first, hfirst, hread, hstored⟩ := h
    obtain ⟨hread', hstored'⟩ := linesRead_field hread hstored hcrlf hok
    obtain ⟨hsplit, -⟩ := split_line hempty
    rw [hsplit, List.take_zero, List.nil_append] at hread'
    rw [note_field hs hcrlf]
    exact .of_past (endOfHeaders_past _) hfirst hread'.close (endOfHeaders_storesLines hstored')
  | emptyLine hs hempty =>
    simp only [LinesRead, hs] at h
    obtain ⟨first, hfirst, hread, hstored⟩ := h
    obtain ⟨hsplit, -⟩ := split_line hempty
    rw [hsplit, List.take_zero, List.nil_append] at hread
    rw [note_emptyLine hs hempty]
    exact .of_past (endOfHeaders_past _) hfirst hread.close (endOfHeaders_storesLines hstored)
  | noBody hs =>
    simp only [LinesRead, hs] at h
    obtain ⟨first, hfirst, hhead, hstored⟩ := h
    rw [note_body hs]
    exact ⟨first, hfirst, hhead, hstored.headers, hstored.named⟩
  | body hs _ =>
    simp only [LinesRead, hs] at h
    obtain ⟨first, hfirst, hhead, hstored⟩ := h
    rw [note_body hs]
    exact ⟨first, hfirst, hhead, hstored.headers, hstored.named⟩

theorem linesRead_feed (h : LinesRead p log) (hc : p.state ≠ .complete) (data : Bytes) :
    LinesRead { p with buffer := p.buffer ++ data } { log with fed := log.fed ++ data } := by
  cases hs : p.state with
  | requestLine =>
    simp only [LinesRead, hs] at h ⊢
    exact ⟨by rw [h.1], h.2⟩
  | headers =>
    simp only [LinesRead, hs] at h ⊢
    obtain ⟨first, hfirst, hread, hstored⟩ := h
    refine ⟨first, hfirst, ⟨?_, hread.firstLine, hread.otherLines⟩, hstored⟩
    rw [hread.whole]
    simp only [List.append_assoc]
  | body =>
    simp only [LinesRead, hs] at h ⊢
    obtain ⟨first, hfirst, hhead, hstored⟩ := h
    exact ⟨first, hfirst, ⟨hhead.starts.trans (List.prefix_append _ _), hhead.firstLine,
      hhead.otherLines⟩, hstored⟩
  | complete => exact (hc hs).elim
  | error => simp only [LinesRead, hs]

theorem linesRead_reads {config : ParserConfig} {ok : HttpRequestParser → Prop} {busy : Bool}
    (h : Reads config ok busy p log) : LinesRead p log := by
  induction h with
  | start => exact ⟨rfl, rfl, rfl⟩
  | feed data _ _ hc ih => exact linesRead_feed ih hc data
  | turn _ _ ih => exact linesRead_turn ih
  | reset _ _ => exact ⟨rfl, rfl, rfl⟩

/-- The head of a Complete request is at the front of what was fed for it, and the fields in store
are those of its lines. -/
theorem lines_of_complete {config : ParserConfig} {ok : HttpRequestParser → Prop} {busy : Bool}
    (h : Reads config ok busy p log) (hc : p.isComplete = true) :
    ∃ first, HeadLines log.fed first log.fields ∧ StoresLines p.toCore log.fields := by
  have hread := linesRead_reads h
  have hs : p.state = .complete := by simpa [isComplete] using hc
  simp only [LinesRead, hs] at hread
  obtain ⟨first, -, hhead, hstored⟩ := hread
  exact ⟨first, hhead, hstored⟩
end lines

end Aevrix.Http
