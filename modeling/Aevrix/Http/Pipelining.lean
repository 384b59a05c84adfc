import Aevrix.Http.RequestFraming

/-!
# Requests one after another

The server feeds what it reads to the parser of the connection and consumes a
request when the parser is Complete. Every way of consuming it clears the buffer,
so bytes of the next request that came with the last feed are gone, and the rest
of that request is then read as if it were the start of one (`serve_shared_feed`).
-/

namespace Aevrix.Http
open Incremental HttpRequestParser HttpRequestParser.Core

/-- How a completed request is consumed: `take_request`, `reset`, or
`Connection::reset_parser` once the response is flushed (`connection.h:300`). -/
inductive Consume where
  | takeRequest | reset | resetParser
  deriving DecidableEq

namespace Consume

def apply : Consume → HttpRequestParser → HttpRequestParser
  | takeRequest, p => p.takeRequest.2
  | reset, p => p.reset
  | resetParser, _ => HttpRequestParser.fresh .default

/-- Limits of the parser afterwards. -/
def config : Consume → ParserConfig → ParserConfig
  | takeRequest, c => c
  | reset, c => c
  | resetParser, _ => .default

theorem apply_complete (how : Consume) {p : HttpRequestParser} (h : p.state = .complete) :
    how.apply p = HttpRequestParser.fresh (how.config p.config) := by
  cases how with
  | takeRequest => simp [apply, HttpRequestParser.takeRequest, isComplete, h, HttpRequestParser.reset, config]
  | reset => rfl
  | resetParser => rfl

end Consume

/-- Feeds in turn, each with the way a request it completes is consumed: the
requests reported Complete, and the parser at the end. -/
def serve (p : HttpRequestParser) : List (Bytes × Consume) → List HttpRequest × HttpRequestParser
  | [] => ([], p)
  | (d, how) :: rest =>
    let q := p.feed d
    if q.isComplete then
      (q.request :: (serve (how.apply q) rest).1, (serve (how.apply q) rest).2)
    else serve q rest

/-- The bytes of the feeds. -/
def fed (ds : List (Bytes × Consume)) : Bytes := (ds.map Prod.fst).flatten

theorem serve_append (p : HttpRequestParser) (ds es : List (Bytes × Consume)) :
    serve p (ds ++ es) =
      ((serve p ds).1 ++ (serve (serve p ds).2 es).1, (serve (serve p ds).2 es).2) := by
  induction ds generalizing p with
  | nil => rfl
  | cons x ds ih =>
    obtain ⟨d, how⟩ := x
    rw [List.cons_append, serve, serve]
    by_cases h : (p.feed d).isComplete = true
    · simp only [h, if_true, ih, List.cons_append]
    · simp only [h, if_false, ih, Bool.false_eq_true]

theorem serve_nothing (config : ParserConfig) (ds : List (Bytes × Consume)) (h : fed ds = []) :
    serve (HttpRequestParser.fresh config) ds = ([], HttpRequestParser.fresh config) := by
  induction ds with
  | nil => rfl
  | cons x ds ih =>
    obtain ⟨d, how⟩ := x
    simp only [fed, List.map_cons, List.flatten_cons, List.append_eq_nil_iff] at h
    obtain ⟨rfl, hds⟩ := h
    have hfeed : (HttpRequestParser.fresh config).feed [] = HttpRequestParser.fresh config := by
      simp [HttpRequestParser.feed, hasError, isComplete, HttpRequestParser.fresh, Core.fresh,
        process, turn, parseRequestLine, findCrlf, Lines.findPair]
    rw [serve, hfeed]
    exact ih hds

theorem exists_last_feed (ds : List (Bytes × Consume)) (h : fed ds ≠ []) :
    ∃ pre d how post, ds = pre ++ (d, how) :: post ∧ d ≠ [] ∧ fed post = [] := by
  induction ds with
  | nil => exact (h rfl).elim
  | cons y ds ih =>
    obtain ⟨d, how⟩ := y
    by_cases hrest : fed ds = []
    · refine ⟨[], d, how, ds, rfl, fun hd => h ?_, hrest⟩
      rw [fed, List.map_cons, List.flatten_cons, hd, List.nil_append]
      exact hrest
    · obtain ⟨pre, e, how', post, rfl, he, hpost⟩ := ih hrest
      exact ⟨(d, how) :: pre, e, how', post, rfl, he, hpost⟩

theorem fed_append (ds es : List (Bytes × Consume)) : fed (ds ++ es) = fed ds ++ fed es := by
  rw [fed, List.map_append, List.flatten_append]
  rfl

namespace Message
variable (m : Message) {config : ParserConfig} (hw : m.Within config)

include hw in
theorem linesWithin (x : Bytes) : LinesWithin config (m.bytes ++ x) := by
  rw [bytes, List.append_assoc]
  exact m.head.linesWithin hw.head _

variable (hr : m.BodyIsRead)
include hw hr

theorem drain_front {u x : Bytes} (hu : u ++ x = m.bytes) (hx : x ≠ []) :
    (requestMachine.drain (Core.fresh config) u).1.state ≠ .complete ∧
      (requestMachine.drain (Core.fresh config) u).1.state ≠ .error := by
  have hd := m.drain_eq hw hr []
  rw [List.append_nil] at hd
  refine ⟨drain_front_not_complete (by rw [hd]) u x hu hx, fun he => ?_⟩
  have hdead := Machine.drain_append_dead (M := requestMachine) x fun w => step_error he w
  rw [hu, hd] at hdead
  have hst := congrArg (fun y => y.1.state) hdead
  rw [he] at hst
  cases hst

theorem serve_front (ds : List (Bytes × Consume)) {u x : Bytes} (hu : u ++ (fed ds ++ x) = m.bytes)
    (hx : x ≠ []) : serve (ofConfig (requestMachine.drain (Core.fresh config) u)) ds =
      ([], ofConfig (requestMachine.drain (Core.fresh config) (u ++ fed ds))) := by
  induction ds generalizing u with
  | nil => rw [fed, List.map_nil, List.flatten_nil, List.append_nil, serve]
  | cons y ds ih =>
    obtain ⟨d, how⟩ := y
    have hcons : fed ((d, how) :: ds) = d ++ fed ds := rfl
    have hu' : (u ++ d) ++ (fed ds ++ x) = m.bytes := by
      rw [← hu, hcons]
      simp only [List.append_assoc]
    have hrest : fed ds ++ x ≠ [] := fun h => hx (List.append_eq_nil_iff.mp h).2
    obtain ⟨hc, he⟩ := m.drain_front hw hr hu fun h => hx (List.append_eq_nil_iff.mp h).2
    have hl : LinesWithin config (u ++ d) := by
      have hall := m.linesWithin hw []
      rw [List.append_nil, ← hu'] at hall
      exact hall.of_append
    have hnot : (ofConfig (requestMachine.drain (Core.fresh config) (u ++ d))).isComplete = false := by
      simpa [isComplete] using (m.drain_front hw hr hu' hrest).1
    rw [serve, feed_drain hl hc he]
    simp only [hnot, Bool.false_eq_true, if_false]
    rw [ih hu', hcons, List.append_assoc]

/-- **A feed that brings the last byte `x` of a request and bytes `a` after it.** The
request is reported and `a` is lost: what follows is read from the start. -/
theorem serve_shared_feed (ds : List (Bytes × Consume)) {x : Bytes} (hu : fed ds ++ x = m.bytes)
    (hx : x ≠ []) (a : Bytes) (how : Consume) (rest : List (Bytes × Consume)) :
    serve (HttpRequestParser.fresh config) (ds ++ (x ++ a, how) :: rest) =
      (m.request :: (serve (HttpRequestParser.fresh (how.config config)) rest).1,
        (serve (HttpRequestParser.fresh (how.config config)) rest).2) := by
  have hfront := m.serve_front hw hr ds (u := []) hu hx
  rw [List.nil_append] at hfront
  obtain ⟨hc, he⟩ := m.drain_front hw hr hu hx
  have hall : fed ds ++ (x ++ a) = m.bytes ++ a := by rw [← List.append_assoc, hu]
  have hfeed : (ofConfig (requestMachine.drain (Core.fresh config) (fed ds))).feed (x ++ a) =
      ofConfig (m.core config, a) := by
    rw [feed_drain (hall ▸ m.linesWithin hw a) hc he, hall, m.drain_eq hw hr]
  have hnext : how.apply (ofConfig (m.core config, a)) =
      HttpRequestParser.fresh (how.config config) := by
    rw [how.apply_complete rfl]
    change HttpRequestParser.fresh (how.config (m.head.core config).config) = _
    rw [RequestHead.core_config]
  rw [serve_append, show HttpRequestParser.fresh config =
    ofConfig (requestMachine.drain (Core.fresh config) []) from rfl, hfront, List.nil_append]
  simp only [serve, hfeed, hnext, show (ofConfig (m.core config, a)).isComplete = true from rfl,
    if_true]
  rfl

/-- Feeds that amount to one request report that request, and the parser is fresh again. -/
theorem serve_eq {ds : List (Bytes × Consume)} (hds : fed ds = m.bytes) : ∃ how : Consume,
    serve (HttpRequestParser.fresh config) ds =
      ([m.request], HttpRequestParser.fresh (how.config config)) := by
  have hne : m.bytes ≠ [] := by simp [bytes, RequestHead.bytes, headBlock]
  obtain ⟨pre, d, how, post, rfl, hd, hpost⟩ := exists_last_feed ds (hds ▸ hne)
  have hu : fed pre ++ d = m.bytes := by
    rw [← hds, fed_append, show fed ((d, how) :: post) = d ++ fed post from rfl, hpost,
      List.append_nil]
  have h := m.serve_shared_feed hw hr pre hu hd [] how post
  rw [List.append_nil, serve_nothing _ post hpost] at h
  exact ⟨how, h⟩

end Message

/-- The cut between the two requests falls between two feeds. -/
def CutAt (r : Message) (ds : List (Bytes × Consume)) : Prop := ∃ n, fed (ds.take n) = r.bytes

/-- **Two requests in feeds of their own.** When no feed has bytes of both, and the
bodies are ones the parser reads, every request reported is one of the two. -/
theorem serve_two (config : ParserConfig) (r1 r2 : Message) (hw1 : r1.Within config)
    (hw2 : r2.Within config) (hd2 : r2.Within .default) (hr1 : r1.BodyIsRead) (hr2 : r2.BodyIsRead)
    (ds : List (Bytes × Consume)) (hds : fed ds = r1.bytes ++ r2.bytes) (hcut : CutAt r1 ds) :
    ∀ q ∈ (serve (HttpRequestParser.fresh config) ds).1, q = r1.request ∨ q = r2.request := by
  obtain ⟨n, hn⟩ := hcut
  have hsplit : ds = ds.take n ++ ds.drop n := (List.take_append_drop n ds).symm
  have hrest : fed (ds.drop n) = r2.bytes := by
    rw [hsplit, fed_append, hn] at hds
    exact List.append_cancel_left hds
  obtain ⟨how, h1⟩ := r1.serve_eq hw1 hr1 hn
  have hw2' : r2.Within (how.config config) := by
    cases how with
    | takeRequest => exact hw2
    | reset => exact hw2
    | resetParser => exact hd2
  obtain ⟨how2, h2⟩ := r2.serve_eq hw2' hr2 hrest
  rw [hsplit, serve_append, h1, h2]
  simp

/-- `POST /` with the body `hello`. -/
def postHello : Message where
  head := fiveByteHead (ascii "POST") (by decide)
  body := ascii "hello"
  framed := Or.inr (fiveByteHead_declares _ _)

/-- `GET /a` with a field whose value reads like a request line. -/
def getNested : Message where
  head := {
    line := ⟨ascii "GET", ascii "/a", 49, 49, get_known, by decide, one_one_digits⟩
    fields := [⟨[], ascii "X", [], ascii " GET /b HTTP/1.1", ows_nil, ows_nil, by decide⟩]
    clean := by decide }
  body := []
  framed := Or.inl ⟨by decide, rfl⟩

theorem postHello_within : postHello.Within .default :=
  ⟨⟨by decide, by decide, by decide, by decide, by decide⟩, by decide⟩

theorem getNested_within : getNested.Within .default :=
  ⟨⟨by decide, by decide, by decide, by decide, by decide⟩, by decide⟩

/-- The two requests cut everywhere but across their border. -/
theorem serve_two_cut :
    fed [(ascii "POST / HTTP/1.1\r\nContent-Length: 5\r\n\r\nhe", .reset), (ascii "llo", .resetParser),
      (ascii "GET /a HTTP/1.1\r\nX: ", .reset), (ascii "GET /b HTTP/1.1\r\n\r\n", .reset)] =
      postHello.bytes ++ getNested.bytes ∧
    ∀ q ∈ (serve (HttpRequestParser.fresh .default)
      [(ascii "POST / HTTP/1.1\r\nContent-Length: 5\r\n\r\nhe", .reset), (ascii "llo", .resetParser),
        (ascii "GET /a HTTP/1.1\r\nX: ", .reset), (ascii "GET /b HTTP/1.1\r\n\r\n", .reset)]).1,
      q = postHello.request ∨ q = getNested.request :=
  ⟨by decide, serve_two .default postHello getNested postHello_within getNested_within
    getNested_within (by decide) (by decide) _ (by decide) ⟨2, by decide⟩⟩

/-- The second request begins in the feed that ends the first one, and its end is
reported as a request for `/b`. -/
theorem serve_two_shared :
    (postHello.Within .default ∧ getNested.Within .default ∧
      postHello.BodyIsRead ∧ getNested.BodyIsRead) ∧
    fed [(ascii "POST / HTTP/1.1\r\nContent-Length: 5\r\n\r\nhelloGET /a HTTP/1.1\r\nX: ",
      .resetParser), (ascii "GET /b HTTP/1.1\r\n\r\n", .resetParser)] =
      postHello.bytes ++ getNested.bytes ∧
    ¬∀ q ∈ (serve (HttpRequestParser.fresh .default)
      [(ascii "POST / HTTP/1.1\r\nContent-Length: 5\r\n\r\nhelloGET /a HTTP/1.1\r\nX: ",
        .resetParser), (ascii "GET /b HTTP/1.1\r\n\r\n", .resetParser)]).1,
      q = postHello.request ∨ q = getNested.request := by
  refine ⟨⟨postHello_within, getNested_within, by decide, by decide⟩, by decide, ?_⟩
  decide

end Aevrix.Http
