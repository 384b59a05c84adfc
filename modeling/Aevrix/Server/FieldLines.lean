import Aevrix.Http.RequestLines
import Aevrix.Proxy.FinalHead
import Aevrix.Proxy.UpstreamRequest
import Aevrix.Server.Relay

/-!
# Field lines through the proxy

Both parsers keep one value a name. So of the lines with a name that is neither hop-by-hop nor
written anew, the last one goes on as a line of its own, in both directions, and no other
(`last_lines_relayed`).
-/

namespace Aevrix.Server
open Aevrix.Http Aevrix.Proxy

/-! ### To the upstream -/

/-- A line the builder writes on: not hop-by-hop, not written anew, with a value that is valid. -/
def GoesUpstream (line : Bytes) : Prop := isHopByHopHeader (lineKey line) = false ∧
  isRegenerated (lineKey line) = false ∧ (lineHeader line).isValid = true

instance (line : Bytes) : Decidable (GoesUpstream line) := by
  unfold GoesUpstream
  infer_instance

/-- The names of the fields that the builder makes. -/
def builderMakes (key : Bytes) : Bool := isRegenerated key || key == ascii "connection"

section request
variable {request : HttpRequest} {lines : List Bytes} (target : ProxyTarget)
  (options : ProxyRequestOptions)

/-- The field lines written are those of the builder and the last lines of the other names. -/
theorem mem_upstreamFields_lines (h : request.headers = storedLines lines) {x : Bytes × Bytes}
    (hx : builderMakes (HttpHeader.normalizeName x.1) = false) :
    x ∈ upstreamFields request target options ↔ ∃ line, LastOf lineKey lines line ∧
      GoesUpstream line ∧ x = (lineName line, (lineHeader line).value) := by
  rw [mem_upstreamFields]
  constructor
  · rintro (rfl | ⟨-, rfl⟩ | ⟨-, rfl⟩ | ⟨-, rfl⟩ | ⟨g, hg, rfl⟩ | ⟨-, rfl⟩ | rfl)
    · exact absurd hx (by simp only [Bool.not_eq_false]; decide)
    · exact absurd hx (by simp only [Bool.not_eq_false]; decide)
    · exact absurd hx (by simp only [Bool.not_eq_false]; decide)
    · exact absurd hx (by simp only [Bool.not_eq_false]; decide)
    · obtain ⟨hmem, hnew, hhop, hvalid⟩ := mem_forwardedHeaders.mp hg
      rw [h, mem_storedLines] at hmem
      obtain ⟨line, hlast, rfl⟩ := hmem
      exact ⟨line, hlast, ⟨hhop, hnew, hvalid⟩, rfl⟩
    · exact absurd hx (by simp only [Bool.not_eq_false]; decide)
    · exact absurd hx (by simp only [Bool.not_eq_false]; decide)
  · rintro ⟨line, hlast, ⟨hhop, hnew, hvalid⟩, rfl⟩
    refine Or.inr (Or.inr (Or.inr (Or.inr (Or.inl ⟨lineHeader line, ?_, rfl⟩))))
    rw [mem_forwardedHeaders, h, mem_storedLines]
    exact ⟨⟨line, hlast, rfl⟩, hnew, hhop, hvalid⟩

theorem forwardedFor_front (h : request.headers = storedLines lines) {line : Bytes}
    (hlast : LastOf lineKey lines line) (hkey : lineKey line = ascii "x-forwarded-for")
    (hne : (lineHeader line).value ≠ []) :
    ∃ added, (added = [] ∨ ∃ address, added = ascii ", " ++ address) ∧
      (ascii "X-Forwarded-For", (lineHeader line).value ++ added) ∈
        upstreamFields request target options := by
  have hget : request.headers.get (ascii "X-Forwarded-For") = (lineHeader line).value := by
    rw [h]
    refine HttpHeaders.get_of_mem (storedLines_distinct lines)
      (mem_storedLines.mpr ⟨line, hlast, rfl⟩) ?_
    exact hkey
  have hsent : ∀ added, forwardedFor request options = (lineHeader line).value ++ added →
      (ascii "X-Forwarded-For", (lineHeader line).value ++ added) ∈
        upstreamFields request target options := fun added hadded => by
    rw [mem_upstreamFields]
    refine Or.inr (Or.inl ⟨?_, by rw [hadded]⟩)
    rw [hadded]
    exact List.append_ne_nil_of_left_ne_nil hne _
  unfold forwardedFor at hsent
  simp only [hget] at hsent
  by_cases hip : options.clientIp = []
  · refine ⟨[], Or.inl rfl, hsent [] ?_⟩
    rw [if_pos hip, List.append_nil]
  · refine ⟨ascii ", " ++ options.clientIp, Or.inr ⟨_, rfl⟩, hsent _ ?_⟩
    rw [if_neg hip, if_neg hne, List.append_assoc]
end request

/-! ### To the client -/

/-- The field of a line of the upstream. -/
def upstreamHeader (line : Bytes) : HttpHeader := .ofField (line.takeWhile (· != 58)) (fieldValue line)

instance (h : HttpHeader) : Decidable (EndToEnd h) := by
  unfold EndToEnd
  infer_instance

section response
variable {config : ProxyResponseParser.Config} {ds : List Bytes} {eof : Bool}

/-- A completed response, relayed. -/
abbrev relayedResponse (config : ProxyResponseParser.Config) (ds : List Bytes) (eof keepAlive : Bool) :
    HttpResponse :=
  buildProxyResponse (relayedOutcome config (ProxyResponseParser.endOf config ds eof)) keepAlive

theorem regenerated_name {outcome : ProxyOutcome} {keepAlive : Bool} {h : HttpHeader}
    (hm : h ∈ regenerated outcome keepAlive) : ¬EndToEnd h := by
  intro ⟨hhop, hlength, hserver, hvia⟩
  simp only [regenerated, List.cons_append, List.nil_append, List.mem_cons] at hm
  rcases hm with rfl | rfl | rfl | hm
  · exact hserver server_key
  · exact hvia via_key
  · rw [HttpHeader.ofField_normalizedName, connection_key] at hhop
    exact absurd hhop (by decide)
  · exact hlength (lengthField_name hm)

theorem mem_relayedResponse (hdone : (ProxyResponseParser.endOf config ds eof).isComplete = true)
    {keepAlive : Bool} {h : HttpHeader} : h ∈ (relayedResponse config ds eof keepAlive).headers ↔
      h ∈ (ProxyResponseParser.endOf config ds eof).headers ∧ EndToEnd h ∨
        h ∈ regenerated (relayedOutcome config (ProxyResponseParser.endOf config ds eof)) keepAlive := by
  obtain ⟨hvalid, hquiet⟩ := stored_of_complete hdone
  exact mem_proxyResponse rfl hvalid.distinct (fun hr => hquiet (Or.inl hr)) keepAlive h

/-- Among the end-to-end fields, the client gets the last line of each name. -/
theorem mem_relayed_lines (hdone : (ProxyResponseParser.endOf config ds eof).isComplete = true)
    {first : Bytes} {fields : List Bytes} (hhead : FinalHead ds.flatten first fields)
    (keepAlive : Bool) {h : HttpHeader} (hend : EndToEnd h) :
    h ∈ (relayedResponse config ds eof keepAlive).headers ↔
      ∃ line, LastOf fieldKey fields line ∧ h = upstreamHeader line := by
  obtain ⟨first', fields', hhead', hstored, -⟩ := head_of_complete hdone
  obtain ⟨rfl, rfl⟩ := hhead.unique hhead'
  have hmem := (mem_foldl_set (fun line : Bytes => line.takeWhile (· != 58)) fieldValue fields).2 h
  rw [mem_relayedResponse hdone, hstored]
  constructor
  · rintro (⟨hm, -⟩ | hm)
    · exact hmem.mp hm
    · exact (regenerated_name hm hend).elim
  · exact fun hline => Or.inl ⟨hmem.mpr hline, hend⟩
end response

/-! ### Both ways -/

theorem builderMakes_goes {line : Bytes} (h : GoesUpstream line) : builderMakes (lineKey line) = false := by
  have hconn : isHopByHopHeader (ascii "connection") = true := by decide
  rw [builderMakes, h.2.1, Bool.false_or, beq_eq_false_iff_ne]
  intro heq
  have hhop := h.1
  rw [heq, hconn] at hhop
  cases hhop

/-- Whatever a client or an upstream sends, the last line of a name that goes on unchanged is the
one line with that name on the other side, and an `X-Forwarded-For` opens the new one. -/
theorem last_lines_relayed :
    (∀ {config : ParserConfig} {busy : Bool} {p : HttpRequestParser} {log : LineLog},
      Reads config (fun _ => True) busy p log → p.isComplete = true → ∀ target options line,
        LastOf lineKey log.fields line →
        (GoesUpstream line → ∀ name value, (name, value) ∈ upstreamFields p.request target options ∧
            HttpHeader.normalizeName name = lineKey line ↔
              name = lineName line ∧ value = (lineHeader line).value) ∧
        (lineKey line = ascii "x-forwarded-for" → (lineHeader line).value ≠ [] →
          ∃ added, (added = [] ∨ ∃ address, added = ascii ", " ++ address) ∧
            (ascii "X-Forwarded-For", (lineHeader line).value ++ added) ∈
              upstreamFields p.request target options)) ∧
    (∀ {config : ProxyResponseParser.Config} {ds : List Bytes} {eof : Bool},
      (ProxyResponseParser.endOf config ds eof).isComplete = true →
      ∀ first fields, FinalHead ds.flatten first fields → ∀ keepAlive line,
        LastOf fieldKey fields line → EndToEnd (upstreamHeader line) →
        ∀ h, h ∈ (relayedResponse config ds eof keepAlive).headers ∧
          h.normalizedName = fieldKey line ↔ h = upstreamHeader line) := by
  refine ⟨fun hrun hc target options line hlast => ⟨fun hgoes name value => ?_, fun hkey hne => ?_⟩,
    fun hdone first fields hhead keepAlive line hlast hend h => ?_⟩
  · obtain ⟨-, -, hstored⟩ := lines_of_complete hrun hc
    have hmakes := builderMakes_goes hgoes
    constructor
    · rintro ⟨hmem, hname⟩
      obtain ⟨other, hother, -, hpair⟩ :=
        (mem_upstreamFields_lines target options hstored.headers
          (by rw [hname]; exact hmakes)).mp hmem
      obtain ⟨rfl, rfl⟩ := Prod.mk.inj hpair
      obtain rfl := hother.unique hlast hname
      exact ⟨rfl, rfl⟩
    · rintro ⟨rfl, rfl⟩
      have hmem := mem_upstreamFields_lines target options hstored.headers
        (x := (lineName line, (lineHeader line).value)) hmakes
      exact ⟨hmem.mpr ⟨line, hlast, hgoes, rfl⟩, rfl⟩
  · obtain ⟨-, -, hstored⟩ := lines_of_complete hrun hc
    exact forwardedFor_front target options hstored.headers hlast hkey hne
  · constructor
    · rintro ⟨hmem, hname⟩
      have hend' : EndToEnd h := by
        rw [EndToEnd, hname]
        exact hend
      obtain ⟨other, hother, rfl⟩ := (mem_relayed_lines hdone hhead keepAlive hend').mp hmem
      rw [hother.unique hlast hname]
    · rintro rfl
      exact ⟨(mem_relayed_lines hdone hhead keepAlive hend).mpr ⟨line, hlast, rfl⟩, rfl⟩

/-! ### Lines that are lost -/

/-- A value is there by itself, or as an element of a combined one. -/
def Represented (value : Bytes) (values : List Bytes) : Prop :=
  ∃ v ∈ values, v = value ∨ value ∈ (v.splitOn 44).map (trimBy isOws)

instance (value : Bytes) (values : List Bytes) : Decidable (Represented value values) := by
  unfold Represented
  infer_instance

/-- The values that go upstream under a name. -/
def upstreamValues (key : Bytes) (fields : List (Bytes × Bytes)) : List Bytes :=
  (fields.filter fun x => HttpHeader.normalizeName x.1 == key).map Prod.snd

/-- The values that a client gets under a name. -/
def clientValues (key : Bytes) (headers : HttpHeaders) : List Bytes :=
  (headers.filter fun h => h.normalizedName == key).map HttpHeader.value

def taggedRequest : Bytes := ascii "GET / HTTP/1.1\r\n" ++
  ascii "X-Tag: a\r\nX-Tag: b\r\nX-Forwarded-Proto: https\r\n" ++
  ascii "X-Forwarded-For: c\r\n\r\n"

def taggedLines : List Bytes :=
  [ascii "X-Tag: a", ascii "X-Tag: b", ascii "X-Forwarded-Proto: https",
    ascii "X-Forwarded-For: c"]

def anyTarget : ProxyTarget := ⟨ascii "h", 80⟩

def twoCookies : Bytes := ascii "HTTP/1.1 200 OK\r\nSet-Cookie: a=1\r\nSet-Cookie: b=2\r\n" ++
  ascii "Content-Length: 0\r\n\r\n"

def cookieLines : List Bytes :=
  [ascii "Set-Cookie: a=1", ascii "Set-Cookie: b=2", ascii "Content-Length: 0"]

theorem reads_lines {config : ParserConfig} {s first : Bytes} {lines : List Bytes}
    (hc : (HttpRequestParser.run config [s]).isComplete = true) (hhead : Http.HeadLines s first lines) :
    ∃ log, Reads config (fun _ => True) false (HttpRequestParser.run config [s]) log ∧
      log.fields = lines := by
  have hsingle : ∃ log, Reads config (fun _ => True) false (HttpRequestParser.run config [s]) log ∧
      log.fed = s := reads_single (fun _ => trivial) s
  obtain ⟨log, hrun, hfed⟩ := hsingle
  obtain ⟨first', hhead', -⟩ := lines_of_complete hrun hc
  rw [hfed] at hhead'
  exact ⟨log, hrun, (hhead'.unique hhead).2⟩

theorem taggedRequest_complete :
    (HttpRequestParser.run .default [taggedRequest]).isComplete = true := by decide

theorem taggedRequest_head : Http.HeadLines taggedRequest (ascii "GET / HTTP/1.1") taggedLines :=
  ⟨by decide, by decide, by decide⟩

theorem twoCookies_head :
    FinalHead [twoCookies].flatten (ascii "HTTP/1.1 200 OK") cookieLines :=
  .final ⟨by decide, by decide, by decide⟩ (by decide)

theorem twoCookies_complete :
    (ProxyResponseParser.endOf {} [twoCookies] false).isComplete = true := by decide

/-- The first of two lines with one name is lost either way, and so is `X-Forwarded-Proto`. -/
theorem first_lines_lost :
    (∃ log, Reads .default (fun _ => True) false (HttpRequestParser.run .default [taggedRequest]) log ∧
      log.fields = taggedLines) ∧
    (HttpRequestParser.run .default [taggedRequest]).isComplete = true ∧
    ¬Represented (ascii "a") (upstreamValues (ascii "x-tag")
      (upstreamFields (HttpRequestParser.run .default [taggedRequest]).request anyTarget {})) ∧
    ¬Represented (ascii "https") (upstreamValues (ascii "x-forwarded-proto")
      (upstreamFields (HttpRequestParser.run .default [taggedRequest]).request anyTarget {})) ∧
    FinalHead [twoCookies].flatten (ascii "HTTP/1.1 200 OK") cookieLines ∧
    (ProxyResponseParser.endOf {} [twoCookies] false).isComplete = true ∧
    ¬Represented (ascii "a=1") (clientValues (ascii "set-cookie")
      (relayedResponse {} [twoCookies] false true).headers) :=
  ⟨reads_lines taggedRequest_complete taggedRequest_head, taggedRequest_complete, by decide,
    by decide, twoCookies_head, twoCookies_complete, by decide⟩

theorem taggedLines_last : LastOf lineKey taggedLines (ascii "X-Tag: b") ∧
    LastOf lineKey taggedLines (ascii "X-Forwarded-For: c") :=
  ⟨⟨[ascii "X-Tag: a"], [ascii "X-Forwarded-Proto: https", ascii "X-Forwarded-For: c"], rfl,
    by decide⟩, taggedLines.take 3, [], rfl, by decide⟩

theorem cookieLines_last : LastOf fieldKey cookieLines (ascii "Set-Cookie: b=2") :=
  ⟨[ascii "Set-Cookie: a=1"], [ascii "Content-Length: 0"], rfl, by decide⟩

/-- The last of two lines goes on. -/
theorem last_lines_relayed_tagged :
    (ascii "X-Tag", ascii "b") ∈
      upstreamFields (HttpRequestParser.run .default [taggedRequest]).request anyTarget {} ∧
    (∃ added, (added = [] ∨ ∃ address, added = ascii ", " ++ address) ∧
      (ascii "X-Forwarded-For", ascii "c" ++ added) ∈
        upstreamFields (HttpRequestParser.run .default [taggedRequest]).request anyTarget {}) ∧
    upstreamHeader (ascii "Set-Cookie: b=2") ∈ (relayedResponse {} [twoCookies] false true).headers := by
  obtain ⟨log, hrun, hlines⟩ := reads_lines taggedRequest_complete taggedRequest_head
  obtain ⟨hlast, hfor⟩ := taggedLines_last
  rw [← hlines] at hlast hfor
  have hfront := (last_lines_relayed.1 hrun taggedRequest_complete anyTarget {} _ hfor).2
    (by decide) (by decide)
  have hgoes := (last_lines_relayed.1 hrun taggedRequest_complete anyTarget {} _ hlast).1
    (by decide) (ascii "X-Tag") (ascii "b")
  have hrelayed := last_lines_relayed.2 twoCookies_complete _ _ twoCookies_head true _
    cookieLines_last (by decide) (upstreamHeader (ascii "Set-Cookie: b=2"))
  exact ⟨(hgoes.mpr ⟨by decide, by decide⟩).1, hfront, (hrelayed.mpr rfl).1⟩

end Aevrix.Server
