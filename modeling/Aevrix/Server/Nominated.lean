import Aevrix.Server.FieldLines

/-!
# Fields named by Connection

The proxy drops the hop-by-hop fields of a fixed list and does not read the tokens of a Connection
field. So what is relayed is end to end just when no line that goes on has a name that a Connection
line of the same message nominates (`endToEnd_only_iff`).
-/

namespace Aevrix.Server
open Aevrix.Http Aevrix.Proxy

/-- The names nominated by the Connection fields among `hs`, as names are compared. -/
def nominated (hs : List HttpHeader) : List Bytes := hs.flatMap fun h =>
  if h.normalizedName = ascii "connection" then
    (h.value.splitOn 44).map fun token => HttpHeader.normalizeName (trimBy isOws token)
  else []

/-- But for the names the proxy makes itself, no name relayed is hop-by-hop or nominated. -/
def OnlyEndToEnd (made : Bytes → Bool) (hs : List HttpHeader) (names : List Bytes) : Prop :=
  ∀ name ∈ names, made name = false → isHopByHopHeader name = false ∧ name ∉ nominated hs

instance (made : Bytes → Bool) (hs : List HttpHeader) (names : List Bytes) :
    Decidable (OnlyEndToEnd made hs names) := by
  unfold OnlyEndToEnd
  infer_instance

/-- The names of the fields that the proxy makes for the client. -/
def responderMakes (key : Bytes) : Bool :=
  key ∈ [ascii "content-length", ascii "server", ascii "via", ascii "connection"]

/-- The names of what goes upstream. -/
def upstreamNames (request : HttpRequest) (target : ProxyTarget) (options : ProxyRequestOptions) :
    List Bytes :=
  (upstreamFields request target options).map fun x => HttpHeader.normalizeName x.1

section request
variable {request : HttpRequest} {lines : List Bytes}

theorem upstream_only_iff (h : request.headers = storedLines lines) (target : ProxyTarget)
    (options : ProxyRequestOptions) :
    OnlyEndToEnd builderMakes (lines.map lineHeader) (upstreamNames request target options) ↔
      ∀ line, LastOf lineKey lines line → GoesUpstream line →
        lineKey line ∉ nominated (lines.map lineHeader) := by
  constructor
  · intro honly line hlast hgoes
    have hmakes := builderMakes_goes hgoes
    have hmem := mem_upstreamFields_lines target options h
      (x := (lineName line, (lineHeader line).value)) hmakes
    have hname : lineKey line ∈ upstreamNames request target options :=
      List.mem_map.mpr ⟨_, hmem.mpr ⟨line, hlast, hgoes, rfl⟩, rfl⟩
    exact (honly _ hname hmakes).2
  · intro hlines name hname hmakes
    obtain ⟨x, hx, rfl⟩ := List.mem_map.mp hname
    obtain ⟨line, hlast, hgoes, rfl⟩ := (mem_upstreamFields_lines target options h hmakes).mp hx
    exact ⟨hgoes.1, hlines line hlast hgoes⟩
end request

section response
variable {config : ProxyResponseParser.Config} {ds : List Bytes} {eof : Bool}

theorem responderMakes_iff {h : HttpHeader} : responderMakes h.normalizedName = false ↔
    h.normalizedName ≠ ascii "content-length" ∧ h.normalizedName ≠ ascii "server" ∧
      h.normalizedName ≠ ascii "via" ∧ h.normalizedName ≠ ascii "connection" := by
  simp only [responderMakes, decide_eq_false_iff_not, List.mem_cons, List.not_mem_nil, or_false,
    not_or]

theorem endToEnd_of_relayed {keepAlive : Bool} {h : HttpHeader}
    (hdone : (ProxyResponseParser.endOf config ds eof).isComplete = true)
    (hm : h ∈ (relayedResponse config ds eof keepAlive).headers)
    (hmakes : responderMakes h.normalizedName = false) : EndToEnd h := by
  obtain ⟨hlength, hserver, hvia, hconn⟩ := responderMakes_iff.mp hmakes
  rcases (mem_relayedResponse hdone).mp hm with ⟨-, hend⟩ | hm
  · exact hend
  · simp only [regenerated, List.cons_append, List.nil_append, List.mem_cons] at hm
    rcases hm with rfl | rfl | rfl | hm
    · exact (hserver server_key).elim
    · exact (hvia via_key).elim
    · exact (hconn connection_key).elim
    · exact (hlength (lengthField_name hm)).elim

theorem client_only_iff (hdone : (ProxyResponseParser.endOf config ds eof).isComplete = true)
    {first : Bytes} {fields : List Bytes} (hhead : FinalHead ds.flatten first fields)
    (keepAlive : Bool) :
    OnlyEndToEnd responderMakes (fields.map upstreamHeader)
        ((relayedResponse config ds eof keepAlive).headers.map HttpHeader.normalizedName) ↔
      ∀ line ∈ fields, EndToEnd (upstreamHeader line) →
        fieldKey line ∉ nominated (fields.map upstreamHeader) := by
  constructor
  · intro honly line hline hend
    have hexists : ∃ last, LastOf fieldKey fields last ∧ fieldKey last = fieldKey line :=
      exists_lastOf hline
    obtain ⟨last, hlast, hkey⟩ := hexists
    have hname : (upstreamHeader last).normalizedName = (upstreamHeader line).normalizedName := hkey
    have hend' : EndToEnd (upstreamHeader last) := by
      rw [EndToEnd, hname]
      exact hend
    obtain ⟨-, hserver, hvia, hconn⟩ := (endToEnd_iff _).mp hend'
    have hmakes : responderMakes (upstreamHeader last).normalizedName = false :=
      responderMakes_iff.mpr ⟨hend'.2.1, hserver, hvia, hconn⟩
    have hmem := (mem_relayed_lines hdone hhead keepAlive hend').mpr ⟨last, hlast, rfl⟩
    have hfree := (honly _ (List.mem_map.mpr ⟨_, hmem, rfl⟩) hmakes).2
    rwa [hname] at hfree
  · intro hlines name hname hmakes
    obtain ⟨h, hm, rfl⟩ := List.mem_map.mp hname
    have hend := endToEnd_of_relayed hdone hm hmakes
    obtain ⟨line, hlast, rfl⟩ := (mem_relayed_lines hdone hhead keepAlive hend).mp hm
    exact ⟨hend.1, hlines line hlast.mem hend⟩
end response

/-- Both ways, only end-to-end fields are relayed just when no line that goes on is nominated by a
Connection line of its message. -/
theorem endToEnd_only_iff {config : ParserConfig} {busy : Bool} {p : HttpRequestParser}
    {log : LineLog} (hrun : Reads config (fun _ => True) busy p log) (hc : p.isComplete = true)
    {limits : ProxyResponseParser.Config} {ds : List Bytes} {eof : Bool}
    (hdone : (ProxyResponseParser.endOf limits ds eof).isComplete = true)
    {first : Bytes} {fields : List Bytes} (hhead : FinalHead ds.flatten first fields)
    (target : ProxyTarget) (options : ProxyRequestOptions) (keepAlive : Bool) :
    (OnlyEndToEnd builderMakes (log.fields.map lineHeader)
        (upstreamNames p.request target options) ↔
      ∀ line, LastOf lineKey log.fields line → GoesUpstream line →
        lineKey line ∉ nominated (log.fields.map lineHeader)) ∧
    (OnlyEndToEnd responderMakes (fields.map upstreamHeader)
        ((relayedResponse limits ds eof keepAlive).headers.map HttpHeader.normalizedName) ↔
      ∀ line ∈ fields, EndToEnd (upstreamHeader line) →
        fieldKey line ∉ nominated (fields.map upstreamHeader)) := by
  constructor
  · obtain ⟨-, -, hstored⟩ := lines_of_complete hrun hc
    exact upstream_only_iff hstored.headers target options
  · exact client_only_iff hdone hhead keepAlive

/-! ### A field that a Connection line names -/

def nominatingRequest : Bytes := ascii "GET / HTTP/1.1\r\n" ++
  ascii "Connection: close, X-Secret\r\nX-Secret: 1\r\n\r\n"

def nominatingLines : List Bytes := [ascii "Connection: close, X-Secret", ascii "X-Secret: 1"]

def nominatingResponse : Bytes := ascii "HTTP/1.1 200 OK\r\n" ++
  ascii "Connection:x-inner\r\nX-Inner: 1\r\nContent-Length: 0\r\n\r\n"

def innerLines : List Bytes :=
  [ascii "Connection:x-inner", ascii "X-Inner: 1", ascii "Content-Length: 0"]

theorem nominatingRequest_complete :
    (HttpRequestParser.run .default [nominatingRequest]).isComplete = true := by decide

theorem nominatingRequest_head :
    Http.HeadLines nominatingRequest (ascii "GET / HTTP/1.1") nominatingLines :=
  ⟨by decide, by decide, by decide⟩

/-- The proxy relays it in both directions. -/
theorem nominated_relayed :
    (∃ log, Reads .default (fun _ => True) false
      (HttpRequestParser.run .default [nominatingRequest]) log ∧ log.fields = nominatingLines) ∧
    (HttpRequestParser.run .default [nominatingRequest]).isComplete = true ∧
    ¬OnlyEndToEnd builderMakes (nominatingLines.map lineHeader)
      (upstreamNames (HttpRequestParser.run .default [nominatingRequest]).request anyTarget {}) ∧
    FinalHead [nominatingResponse].flatten (ascii "HTTP/1.1 200 OK") innerLines ∧
    (ProxyResponseParser.endOf {} [nominatingResponse] false).isComplete = true ∧
    ¬OnlyEndToEnd responderMakes (innerLines.map upstreamHeader)
      ((relayedResponse {} [nominatingResponse] false true).headers.map HttpHeader.normalizedName) :=
  ⟨reads_lines nominatingRequest_complete nominatingRequest_head,
    nominatingRequest_complete, by decide, .final ⟨by decide, by decide, by decide⟩ (by decide),
    by decide, by decide⟩

/-- Where nothing is nominated, only end-to-end fields go on. -/
theorem endToEnd_only_iff_tagged :
    OnlyEndToEnd builderMakes (taggedLines.map lineHeader)
      (upstreamNames (HttpRequestParser.run .default [taggedRequest]).request anyTarget {}) ∧
    OnlyEndToEnd responderMakes (cookieLines.map upstreamHeader)
      ((relayedResponse {} [twoCookies] false true).headers.map HttpHeader.normalizedName) := by
  obtain ⟨log, hrun, hlines⟩ := reads_lines taggedRequest_complete taggedRequest_head
  obtain ⟨hrequest, hresponse⟩ := endToEnd_only_iff hrun taggedRequest_complete
    twoCookies_complete twoCookies_head anyTarget {} true
  have hnone : ∀ key, key ∉ nominated (taggedLines.map lineHeader) := by
    rw [show nominated (taggedLines.map lineHeader) = [] by decide]
    exact fun key => List.not_mem_nil
  rw [hlines] at hrequest
  exact ⟨hrequest.mpr fun line _ _ => hnone _, hresponse.mpr (by decide)⟩

end Aevrix.Server
