import Aevrix.Http.RequestMachine

/-!
# Cuts in the request stream

Within the line limits the parser ends in the same state however the bytes are
cut into feeds, malformed input included.
-/

namespace Aevrix.Http.HttpRequestParser
open Incremental

/-! ### The configuration is fixed -/

theorem requestLineText_config (c : Core) (line : Bytes) :
    (c.requestLineText line).2.config = c.config := by
  unfold Core.requestLineText Core.setError
  grind

theorem headerText_config (c : Core) (line : Bytes) :
    (c.headerText line).2.config = c.config := by
  unfold Core.headerText Core.setError
  grind

theorem onBody_config {c c' : Core} {u u' : Bytes} (h : c.onBody u = some (c', u')) :
    c'.config = c.config := by
  unfold Core.onBody Core.setError at h
  grind

theorem step_config {c c' : Core} {u u' : Bytes} (h : c.step u = some (c', u')) :
    c'.config = c.config := by
  cases hs : c.state with
  | requestLine =>
    obtain ⟨line, hl⟩ := Core.step_line (Or.inl hs) h
    simp only [Core.step, hs, hl, Option.map_some, Option.some.injEq, Prod.mk.injEq,
      Core.onRequestLine] at h
    rw [← h.1]
    split <;> exact requestLineText_config c line
  | headers =>
    obtain ⟨line, hl⟩ := Core.step_line (Or.inr hs) h
    simp only [Core.step, hs, hl, Option.map_some, Option.some.injEq, Prod.mk.injEq,
      Core.onHeaderLine] at h
    rw [← h.1]
    split
    · unfold Core.endOfHeaders
      split <;> rfl
    · exact headerText_config c line
  | body =>
    simp only [Core.step, hs] at h
    exact onBody_config h
  | complete => rw [Core.step_complete hs] at h; cases h
  | error => rw [Core.step_error hs] at h; cases h

theorem visited_config (c : Core) (u : Bytes) :
    ∀ y ∈ requestMachine.visited c u, y.1.config = c.config := by
  induction c, u using Machine.run_induction (M := requestMachine) with
  | blocked c u h =>
    intro y hy
    rw [Machine.visited_none h, List.mem_singleton] at hy
    rw [hy]
  | progress c u c' u' h ih =>
    intro y hy
    rw [Machine.visited_some h, List.mem_cons] at hy
    rcases hy with rfl | hy
    · rfl
    · rw [ih y hy]
      exact step_config h

/-! ### Limits and early completion -/

/-- Every line the parser comes to read in `s` is within its limit: the request
line and each header line, counted up to and including the CR, or up to the end
of `s` when unfinished. -/
def LinesWithin (config : ParserConfig) (s : Bytes) : Prop :=
  ∀ y ∈ requestMachine.visited (Core.fresh config) s,
    (y.1.state = .requestLine → (frontLine y.2).length ≤ config.maxRequestLineBytes) ∧
    (y.1.state = .headers → (frontLine y.2).length ≤ config.maxHeaderFieldBytes)

instance (config : ParserConfig) (s : Bytes) : Decidable (LinesWithin config s) := by
  unfold LinesWithin
  infer_instance

/-- The parser is not Complete before the last of the feeds. -/
def NotEarly (config : ParserConfig) (ds : List Bytes) : Prop :=
  ∀ n < ds.length, (run config (ds.take n)).state ≠ .complete

instance (config : ParserConfig) (ds : List Bytes) : Decidable (NotEarly config ds) := by
  unfold NotEarly
  infer_instance

theorem NotEarly.split {config : ParserConfig} {ds : List Bytes} (h : NotEarly config ds) :
    ∀ pre d post, ds = pre ++ d :: post → (run config pre).state ≠ .complete := by
  rintro pre d post rfl
  have hn := h pre.length (by simp only [List.length_append, List.length_cons]; omega)
  rwa [List.take_left' rfl] at hn

theorem calm_of_linesWithin {config : ParserConfig} {s : Bytes} (h : LinesWithin config s) :
    requestGuard.Calm (Core.fresh config) s := by
  intro y hy v hv hb
  have hconf : y.1.config = config := visited_config _ _ y hy
  obtain ⟨hreq, hhead⟩ := h y hy
  change y.1.step v = none at hb
  change y.1.overLimit v = false
  cases hs : y.1.state with
  | requestLine =>
    simp only [Core.step, hs, Option.map_eq_none_iff] at hb
    have hle := Lines.prefix_le_front hv (Lines.splitPair_none.mp hb)
    have hlim := hreq hs
    simp only [Core.overLimit, hs, hconf, decide_eq_false_iff_not]
    exact Nat.not_lt.mpr (hle.trans hlim)
  | headers =>
    simp only [Core.step, hs, Option.map_eq_none_iff] at hb
    have hle := Lines.prefix_le_front hv (Lines.splitPair_none.mp hb)
    have hlim := hhead hs
    simp only [Core.overLimit, hs, hconf, decide_eq_false_iff_not]
    exact Nat.not_lt.mpr (hle.trans hlim)
  | body => simp only [Core.overLimit, hs]
  | complete => simp only [Core.overLimit, hs]
  | error => simp only [Core.overLimit, hs]

/-- Feeds of the parser follow the guarded machine as long as no completed request
is discarded by a later feed. -/
theorem foldl_refines (ds : List Bytes) (p : HttpRequestParser) (x : Core × Bytes)
    (hp : p.toCore = x.1) (hb : p.state ≠ .error → p.buffer = x.2)
    (hearly : ∀ pre d post, ds = pre ++ d :: post → (pre.foldl feed p).state ≠ .complete) :
    (ds.foldl feed p).toCore = (requestGuard.run x ds).1 ∧
      ((ds.foldl feed p).state ≠ .error → (ds.foldl feed p).buffer = (requestGuard.run x ds).2) := by
  induction ds generalizing p x with
  | nil => exact ⟨hp, hb⟩
  | cons d ds ih =>
    have htail : ∀ pre e post, ds = pre ++ e :: post →
        (pre.foldl feed (p.feed d)).state ≠ .complete := fun pre e post he =>
      hearly (d :: pre) e post (by rw [he, List.cons_append])
    by_cases he : p.state = .error
    · have hx : requestGuard.feed x d = (x.1, x.2 ++ d) :=
        requestGuard.feed_of_final (by rw [← hp]; exact he) d
      have hf := feed_error p he d
      refine ih (p.feed d) (requestGuard.feed x d) ?_ ?_ htail
      · rw [hf, hx, hp]
      · rw [hf]
        exact fun hn => (hn he).elim
    · have hf := feed_refines p (hearly [] d ds rfl) he d
      have hx : (p.toCore, p.buffer) = x := by rw [hp, hb he]
      rw [hx] at hf
      refine ih (p.feed d) (requestGuard.feed x d) ?_ ?_ htail
      · rw [hf, ofConfig_toCore]
      · intro _
        rw [hf, ofConfig_buffer]

theorem run_refines {config : ParserConfig} {ds : List Bytes} (h : NotEarly config ds) :
    (run config ds).toCore = (requestGuard.run (Core.fresh config, []) ds).1 ∧
      ((run config ds).state ≠ .error →
        (run config ds).buffer = (requestGuard.run (Core.fresh config, []) ds).2) :=
  foldl_refines ds (fresh config) (Core.fresh config, []) rfl (fun _ => rfl) h.split

theorem run_eq_drain {config : ParserConfig} {ds : List Bytes}
    (hl : LinesWithin config ds.flatten) (h : NotEarly config ds) :
    (run config ds).toCore = (requestMachine.drain (Core.fresh config) ds.flatten).1 ∧
      ((run config ds).state ≠ .error →
        (run config ds).buffer = (requestMachine.drain (Core.fresh config) ds.flatten).2) := by
  have hr := requestGuard.run_eq_drain (Core.fresh config, []) rfl ds (fun _ _ _ _ => rfl)
    (calm_of_linesWithin hl)
  rw [List.nil_append] at hr
  rw [← hr]
  exact run_refines h

theorem LinesWithin.of_append {config : ParserConfig} {p x : Bytes}
    (h : LinesWithin config (p ++ x)) : LinesWithin config p := by
  intro y hy
  obtain ⟨hreq, hhead⟩ := h _ (Machine.visited_append (M := requestMachine) _ p x y hy)
  have hle := Lines.front_append_le (a := CR) (b := LF) y.2 x
  exact ⟨fun hs => hle.trans (hreq hs), fun hs => hle.trans (hhead hs)⟩

theorem take_prefix_flatten (ds : List Bytes) (n : ℕ) : (ds.take n).flatten <+: ds.flatten := by
  refine ⟨(ds.drop n).flatten, ?_⟩
  rw [← List.flatten_append, List.take_append_drop]

theorem LinesWithin.of_take {config : ParserConfig} {ds : List Bytes}
    (hl : LinesWithin config ds.flatten) (n : ℕ) : LinesWithin config (ds.take n).flatten := by
  obtain ⟨x, hx⟩ := take_prefix_flatten ds n
  rw [← hx] at hl
  exact hl.of_append

theorem feed_drain {config : ParserConfig} {u d : Bytes} (hl : LinesWithin config (u ++ d))
    (hc : (requestMachine.drain (Core.fresh config) u).1.state ≠ .complete)
    (he : (requestMachine.drain (Core.fresh config) u).1.state ≠ .error) :
    (ofConfig (requestMachine.drain (Core.fresh config) u)).feed d =
      ofConfig (requestMachine.drain (Core.fresh config) (u ++ d)) := by
  have hfeed : requestGuard.feed (requestMachine.drain (Core.fresh config) u) d =
      requestGuard.settle (requestMachine.drain (Core.fresh config) (u ++ d)) := by
    rw [Machine.drain_append]
    rfl
  rw [feed_refines _ hc he]
  exact congrArg ofConfig (hfeed.trans (requestGuard.settle_of_calm (calm_of_linesWithin hl)))

/-- Non-empty feeds do not complete early when no proper front of the bytes does. -/
theorem notEarly_of_drain {config : ParserConfig} {ds : List Bytes}
    (hl : LinesWithin config ds.flatten) (hne : ∀ d ∈ ds, d ≠ [])
    (hp : ∀ p x, p ++ x = ds.flatten → x ≠ [] →
      (requestMachine.drain (Core.fresh config) p).1.state ≠ .complete) : NotEarly config ds := by
  intro n
  induction n using Nat.strongRecOn with
  | _ n ih =>
    intro hn
    have hsplit : (ds.take n).flatten ++ (ds.drop n).flatten = ds.flatten := by
      rw [← List.flatten_append, List.take_append_drop]
    have hearly : NotEarly config (ds.take n) := by
      intro m hm
      rw [List.length_take] at hm
      rw [List.take_take, Nat.min_eq_left (by omega)]
      exact ih m (by omega) (by omega)
    have hlast : (ds.drop n).flatten ≠ [] := by
      rw [List.drop_eq_getElem_cons hn, List.flatten_cons]
      have hd := hne ds[n] (List.getElem_mem hn)
      exact fun h => hd (List.append_eq_nil_iff.mp h).1
    rw [(run_eq_drain (hsplit ▸ hl).of_append hearly).1]
    exact hp _ _ hsplit hlast

/-- **The parser does not depend on segmentation**: state, request, error and
counters are those of any other cut of the same bytes. -/
theorem segmentation_independent (config : ParserConfig) (s : Bytes) (ds es : List Bytes)
    (hds : ds.flatten = s) (hes : es.flatten = s) (hl : LinesWithin config s)
    (hd : NotEarly config ds) (he : NotEarly config es) :
    (run config ds).toCore = (run config es).toCore := by
  subst hds
  rw [(run_eq_drain hl hd).1, (run_eq_drain (by rw [hes]; exact hl) he).1, hes]

/-- A malformed header line cut in two, and whole. -/
theorem segmentation_independent_badHeader :
    (run .default [ascii "GET / HTTP/1.1\r", ascii "\nno colon", ascii "\r\n"]).toCore =
      (run .default [ascii "GET / HTTP/1.1\r\nno colon\r\n"]).toCore := by
  exact segmentation_independent .default (ascii "GET / HTTP/1.1\r\nno colon\r\n") _ _ (by decide)
    (by decide) (by decide) (by decide) (by decide)

end Aevrix.Http.HttpRequestParser
