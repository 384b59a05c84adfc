import Aevrix.Http.RequestFraming
import Aevrix.Http.ResponseWire
import Aevrix.Proxy.ResponseMessage
import Aevrix.Proxy.StoredFields
import Aevrix.Server.Responses

/-!
# Relayed responses

The response built from an upstream's answer, as it goes out: its header fields are the
end-to-end ones stored by the response parser and those the proxy regenerates, and a
response parser reads the serialized text back to the same message (`relay_faithful`).
-/

namespace Aevrix.Server
open Aevrix.Http Aevrix.Proxy
open Aevrix.Http.HttpResponseSerializer (serialize)

/-! ### The fields of a relayed response -/

/-- The field is copied from the upstream response. -/
def relayed (h : HttpHeader) : Bool :=
  !(isHopByHopHeader h.normalizedName || h.normalizedName == ascii "content-length")

theorem relayHeader_headers (r : HttpResponse) (h : HttpHeader) : (relayHeader r h).headers =
    if relayed h then r.headers.set h.name h.value else r.headers := by
  unfold relayHeader relayed
  split
  · rename_i hk
    rw [hk]
    rfl
  · rename_i hk
    rw [Bool.not_eq_true] at hk
    rw [hk]
    rfl

theorem relay_distinct (hs : HttpHeaders) {r : HttpResponse} (hd : r.headers.Distinct) :
    (hs.foldl relayHeader r).headers.Distinct := by
  induction hs generalizing r with
  | nil => exact hd
  | cons g gs ih =>
    refine ih ?_
    rw [relayHeader_headers]
    split
    · exact hd.set _ _
    · exact hd

/-- The fields after the copying: those copied, and those there before under other names. -/
theorem mem_relay (hs : HttpHeaders) {r : HttpResponse} (hd : r.headers.Distinct)
    (hhs : hs.Distinct) (h : HttpHeader) : h ∈ (hs.foldl relayHeader r).headers ↔
      h ∈ hs ∧ relayed h = true ∨
        h ∈ r.headers ∧ ∀ g ∈ hs, relayed g = true → g.normalizedName ≠ h.normalizedName := by
  induction hs generalizing r with
  | nil => simp
  | cons g gs ih =>
    obtain ⟨hg, hgs⟩ := List.nodup_cons.mp hhs
    have hlater : h ∈ gs → h.normalizedName ≠ g.normalizedName := fun hm heq =>
      hg (List.mem_map.mpr ⟨h, hm, heq⟩)
    rw [List.foldl_cons, ih (by rw [relayHeader_headers]; split; exacts [hd.set _ _, hd]) hgs,
      relayHeader_headers]
    by_cases hr : relayed g = true
    · have hset := HttpHeaders.mem_set hd g.name g.value h
      rw [g.ofField_self] at hset
      rw [if_pos hr, hset, List.mem_cons, List.forall_mem_cons]
      constructor
      · rintro (⟨h1, h2⟩ | ⟨rfl | ⟨h1, h2⟩, h3⟩)
        · exact Or.inl ⟨Or.inr h1, h2⟩
        · exact Or.inl ⟨Or.inl rfl, hr⟩
        · exact Or.inr ⟨h1, fun _ => Ne.symm h2, h3⟩
      · rintro (⟨rfl | h1, h2⟩ | ⟨h1, h2, h3⟩)
        · refine Or.inr ⟨Or.inl rfl, fun k hk _ heq => hg (List.mem_map.mpr ⟨k, hk, heq⟩)⟩
        · exact Or.inl ⟨h1, h2⟩
        · exact Or.inr ⟨Or.inr ⟨h1, Ne.symm (h2 hr)⟩, h3⟩
    · rw [if_neg hr, List.mem_cons, List.forall_mem_cons]
      constructor
      · rintro (⟨h1, h2⟩ | ⟨h1, h3⟩)
        · exact Or.inl ⟨Or.inr h1, h2⟩
        · exact Or.inr ⟨h1, fun hr' => (hr hr').elim, h3⟩
      · rintro (⟨rfl | h1, h2⟩ | ⟨h1, -, h3⟩)
        · exact (hr h2).elim
        · exact Or.inl ⟨h1, h2⟩
        · exact Or.inr ⟨h1, h3⟩

/-- A stored field the client gets unchanged: neither hop-by-hop nor regenerated. -/
def EndToEnd (h : HttpHeader) : Prop := isHopByHopHeader h.normalizedName = false ∧
  h.normalizedName ≠ ascii "content-length" ∧ h.normalizedName ≠ ascii "server" ∧
  h.normalizedName ≠ ascii "via"

/-- The length field of a relayed response: the upstream's own after HEAD, otherwise the
length of the body unless it is empty. -/
def lengthField (outcome : ProxyOutcome) : List HttpHeader :=
  if outcome.headRequest then
    if outcome.headers.get (ascii "Content-Length") = [] then []
    else [.ofField (ascii "Content-Length") (outcome.headers.get (ascii "Content-Length"))]
  else if outcome.body = [] then []
  else [.ofField (ascii "Content-Length") (decimalText outcome.body.length)]

/-- The fields the proxy writes itself. -/
def regenerated (outcome : ProxyOutcome) (clientKeepAlive : Bool) : List HttpHeader :=
  [.ofField (ascii "Server") (ascii "Aevrix/1.0.0"), .ofField (ascii "Via") (ascii "1.1 aevrix"),
    .ofField (ascii "Connection") (if clientKeepAlive then ascii "keep-alive" else ascii "close")] ++
  lengthField outcome

theorem ofBody_headers (status : StatusCode) (body : Bytes) : (HttpResponse.ofBody status body).headers =
    if body = [] then [] else [.ofField (ascii "Content-Length") (decimalText body.length)] := by
  unfold HttpResponse.ofBody HttpResponse.setBody HttpResponse.updateContentLength HttpResponse.hasBody
  cases body with
  | nil => rfl
  | cons b t => rfl

theorem ofBody_distinct (status : StatusCode) (body : Bytes) :
    (HttpResponse.ofBody status body).headers.Distinct := by
  rw [ofBody_headers]
  split
  · exact HttpHeaders.distinct_nil
  · exact List.nodup_singleton _

theorem contentLength_name (v : Bytes) :
    (HttpHeader.ofField (ascii "Content-Length") v).normalizedName = ascii "content-length" :=
  contentLength_key

/-- The upstream's fields and the length of the body, in front of the HEAD rules. -/
theorem mem_copied (outcome : ProxyOutcome) (hd : outcome.headers.Distinct) (status : StatusCode)
    (h : HttpHeader) :
    h ∈ (outcome.headers.foldl relayHeader (.ofBody status outcome.body)).headers ↔
      h ∈ outcome.headers ∧ relayed h = true ∨ outcome.body ≠ [] ∧
        h = .ofField (ascii "Content-Length") (decimalText outcome.body.length) := by
  rw [mem_relay _ (ofBody_distinct status outcome.body) hd, ofBody_headers]
  constructor
  · rintro (h1 | ⟨h1, -⟩)
    · exact Or.inl h1
    · split at h1
      · cases h1
      · exact Or.inr ⟨‹_›, List.mem_singleton.mp h1⟩
  · rintro (h1 | ⟨hb, rfl⟩)
    · exact Or.inl h1
    · refine Or.inr ⟨by rw [if_neg hb]; exact List.mem_singleton.mpr rfl, fun g _ hg heq => ?_⟩
      rw [contentLength_name] at heq
      simp [relayed, heq] at hg

theorem relayed_contentLength {h : HttpHeader} (hr : relayed h = true) :
    h.normalizedName ≠ ascii "content-length" := by
  intro heq
  simp [relayed, heq] at hr

theorem mem_framed (outcome : ProxyOutcome) (hd : outcome.headers.Distinct)
    (hhead : outcome.headRequest = true → outcome.body = []) (status : StatusCode) (h : HttpHeader) :
    h ∈ (headFraming (outcome.headers.foldl relayHeader (.ofBody status outcome.body)) outcome).headers ↔
      h ∈ outcome.headers ∧ relayed h = true ∨ h ∈ lengthField outcome := by
  have hcopied := mem_copied outcome hd status h
  have hdist := relay_distinct outcome.headers (ofBody_distinct status outcome.body)
  generalize outcome.headers.foldl relayHeader (.ofBody status outcome.body) = r at hcopied hdist
  unfold headFraming lengthField
  cases hr : outcome.headRequest with
  | false =>
    simp only [Bool.false_eq_true, if_false, hcopied]
    split
    · rename_i hb
      simp [hb]
    · rename_i hb
      simp [hb]
  | true =>
    simp only [hhead hr, ne_eq, not_true_eq_false, false_and, or_false] at hcopied
    simp only [if_true]
    split
    · change h ∈ r.headers.remove (ascii "Content-Length") ↔ _
      rw [HttpHeaders.mem_remove hdist, hcopied, contentLength_key]
      simp only [List.not_mem_nil, or_false, and_iff_left_iff_imp, and_imp]
      exact fun _ hrel => relayed_contentLength hrel
    · change h ∈ r.headers.set (ascii "Content-Length") _ ↔ _
      rw [HttpHeaders.mem_set hdist, hcopied, contentLength_key, List.mem_singleton]
      constructor
      · rintro (h1 | ⟨h1, -⟩)
        · exact Or.inr h1
        · exact Or.inl h1
      · rintro (h1 | h1)
        · exact Or.inr ⟨h1, relayed_contentLength h1.2⟩
        · exact Or.inl h1

theorem headFraming_distinct {r : HttpResponse} (hd : r.headers.Distinct) (outcome : ProxyOutcome) :
    (headFraming r outcome).headers.Distinct := by
  simp only [headFraming]
  split
  · split
    · exact hd.remove _
    · exact hd.set _ _
  · exact hd

theorem lengthField_name {outcome : ProxyOutcome} {h : HttpHeader} (hm : h ∈ lengthField outcome) :
    h.normalizedName = ascii "content-length" := by
  unfold lengthField at hm
  split at hm
  · split at hm
    · cases hm
    · rw [List.mem_singleton.mp hm, contentLength_name]
  · split at hm
    · cases hm
    · rw [List.mem_singleton.mp hm, contentLength_name]

theorem server_key : HttpHeader.normalizeName (ascii "Server") = ascii "server" := by decide
theorem via_key : HttpHeader.normalizeName (ascii "Via") = ascii "via" := by decide
theorem connection_key : HttpHeader.normalizeName (ascii "Connection") = ascii "connection" := by decide

theorem endToEnd_iff (h : HttpHeader) : EndToEnd h ↔ relayed h = true ∧
    h.normalizedName ≠ ascii "server" ∧ h.normalizedName ≠ ascii "via" ∧
    h.normalizedName ≠ ascii "connection" := by
  have hconn : isHopByHopHeader (ascii "connection") = true := by decide
  unfold EndToEnd relayed
  simp only [Bool.not_eq_true', Bool.or_eq_false_iff, beq_eq_false_iff_ne, ne_eq]
  constructor
  · rintro ⟨h1, h2, h3, h4⟩
    refine ⟨⟨h1, h2⟩, h3, h4, fun heq => ?_⟩
    rw [heq, hconn] at h1
    cases h1
  · rintro ⟨⟨h1, h2⟩, h3, h4, -⟩
    exact ⟨h1, h2, h3, h4⟩

theorem buildProxyResponse_success {outcome : ProxyOutcome} (hs : outcome.status = .success)
    (clientKeepAlive : Bool) : buildProxyResponse outcome clientKeepAlive =
      (((headFraming (outcome.headers.foldl relayHeader
        (.ofBody (UInt16.ofNat outcome.upstreamStatus) outcome.body)) outcome).setHeader
          (ascii "Server") (ascii "Aevrix/1.0.0")).setHeader (ascii "Via")
            (ascii "1.1 aevrix")).setConnectionPolicy (keepAlivePolicy clientKeepAlive) := by
  rw [buildProxyResponse, if_pos hs]

theorem setConnectionPolicy_headers (r : HttpResponse) (clientKeepAlive : Bool) :
    (r.setConnectionPolicy (keepAlivePolicy clientKeepAlive)).headers =
      r.headers.set (ascii "Connection")
        (if clientKeepAlive then ascii "keep-alive" else ascii "close") := by
  cases clientKeepAlive <;> rfl

theorem mem_proxyResponse {outcome : ProxyOutcome} (hs : outcome.status = .success)
    (hd : outcome.headers.Distinct) (hhead : outcome.headRequest = true → outcome.body = [])
    (clientKeepAlive : Bool) (h : HttpHeader) :
    h ∈ (buildProxyResponse outcome clientKeepAlive).headers ↔
      h ∈ outcome.headers ∧ EndToEnd h ∨ h ∈ regenerated outcome clientKeepAlive := by
  have hframed := mem_framed outcome hd hhead (UInt16.ofNat outcome.upstreamStatus) h
  have hdist := headFraming_distinct
    (relay_distinct outcome.headers (ofBody_distinct (UInt16.ofNat outcome.upstreamStatus) outcome.body))
    outcome
  rw [buildProxyResponse_success hs]
  generalize headFraming (outcome.headers.foldl relayHeader
    (.ofBody (UInt16.ofNat outcome.upstreamStatus) outcome.body)) outcome = r at hframed hdist
  rw [setConnectionPolicy_headers]
  change h ∈ ((r.headers.set (ascii "Server") (ascii "Aevrix/1.0.0")).set (ascii "Via")
    (ascii "1.1 aevrix")).set (ascii "Connection") _ ↔ _
  rw [HttpHeaders.mem_set ((hdist.set _ _).set _ _), HttpHeaders.mem_set (hdist.set _ _),
    HttpHeaders.mem_set hdist, hframed, server_key, via_key, connection_key, endToEnd_iff,
    regenerated]
  simp only [List.mem_append, List.mem_cons, List.not_mem_nil, or_false]
  have hserver : (HttpHeader.ofField (ascii "Server") (ascii "Aevrix/1.0.0")).normalizedName =
    ascii "server" := server_key
  have hvia : (HttpHeader.ofField (ascii "Via") (ascii "1.1 aevrix")).normalizedName =
    ascii "via" := via_key
  constructor
  · rintro (h1 | ⟨h1 | ⟨h1 | ⟨⟨h1, hr⟩ | h1, hn1⟩, hn2⟩, hn3⟩)
    · exact Or.inr (Or.inl (Or.inr (Or.inr h1)))
    · exact Or.inr (Or.inl (Or.inr (Or.inl h1)))
    · exact Or.inr (Or.inl (Or.inl h1))
    · exact Or.inl ⟨h1, hr, hn1, hn2, hn3⟩
    · exact Or.inr (Or.inr h1)
  · rintro (⟨h1, hr, hn1, hn2, hn3⟩ | (rfl | rfl | h1) | h1)
    · exact Or.inr ⟨Or.inr ⟨Or.inr ⟨Or.inl ⟨h1, hr⟩, hn1⟩, hn2⟩, hn3⟩
    · exact Or.inr ⟨Or.inr ⟨Or.inl rfl, by rw [hserver]; decide⟩, by rw [hserver]; decide⟩
    · exact Or.inr ⟨Or.inl rfl, by rw [hvia]; decide⟩
    · exact Or.inl h1
    · have hn := lengthField_name h1
      exact Or.inr ⟨Or.inr ⟨Or.inr ⟨Or.inr h1, by rw [hn]; decide⟩, by rw [hn]; decide⟩,
        by rw [hn]; decide⟩

theorem proxyResponse_distinct {outcome : ProxyOutcome} (hs : outcome.status = .success)
    (clientKeepAlive : Bool) : (buildProxyResponse outcome clientKeepAlive).headers.Distinct := by
  rw [buildProxyResponse_success hs, setConnectionPolicy_headers]
  exact (((headFraming_distinct (relay_distinct _ (ofBody_distinct _ _)) outcome).set _ _).set _
    _).set _ _

theorem relay_body (hs : HttpHeaders) (r : HttpResponse) : (hs.foldl relayHeader r).body = r.body ∧
    (hs.foldl relayHeader r).status = r.status ∧ (hs.foldl relayHeader r).version = r.version ∧
    (hs.foldl relayHeader r).headOnly = r.headOnly := by
  induction hs generalizing r with
  | nil => exact ⟨rfl, rfl, rfl, rfl⟩
  | cons g gs ih =>
    rw [List.foldl_cons]
    have hstep : (relayHeader r g).body = r.body ∧ (relayHeader r g).status = r.status ∧
        (relayHeader r g).version = r.version ∧ (relayHeader r g).headOnly = r.headOnly := by
      unfold relayHeader
      split <;> exact ⟨rfl, rfl, rfl, rfl⟩
    obtain ⟨h1, h2, h3, h4⟩ := ih (relayHeader r g)
    exact ⟨h1.trans hstep.1, h2.trans hstep.2.1, h3.trans hstep.2.2.1, h4.trans hstep.2.2.2⟩

theorem proxyResponse_frame {outcome : ProxyOutcome} (hs : outcome.status = .success)
    (clientKeepAlive : Bool) :
    (buildProxyResponse outcome clientKeepAlive).body = outcome.body ∧
    (buildProxyResponse outcome clientKeepAlive).status = UInt16.ofNat outcome.upstreamStatus ∧
    (buildProxyResponse outcome clientKeepAlive).version = ascii "HTTP/1.1" ∧
    (buildProxyResponse outcome clientKeepAlive).headOnly = outcome.headRequest := by
  have hbody : (HttpResponse.ofBody (UInt16.ofNat outcome.upstreamStatus) outcome.body).body =
      outcome.body ∧ (HttpResponse.ofBody (UInt16.ofNat outcome.upstreamStatus) outcome.body).status =
      UInt16.ofNat outcome.upstreamStatus ∧
      (HttpResponse.ofBody (UInt16.ofNat outcome.upstreamStatus) outcome.body).version =
        ascii "HTTP/1.1" ∧
      (HttpResponse.ofBody (UInt16.ofNat outcome.upstreamStatus) outcome.body).headOnly = false := by
    unfold HttpResponse.ofBody HttpResponse.setBody HttpResponse.updateContentLength
    split <;> exact ⟨rfl, rfl, rfl, rfl⟩
  obtain ⟨h1, h2, h3, h4⟩ := relay_body outcome.headers
    (.ofBody (UInt16.ofNat outcome.upstreamStatus) outcome.body)
  rw [hbody.1] at h1
  rw [hbody.2.1] at h2
  rw [hbody.2.2.1] at h3
  rw [hbody.2.2.2] at h4
  rw [buildProxyResponse_success hs]
  generalize outcome.headers.foldl relayHeader
    (.ofBody (UInt16.ofNat outcome.upstreamStatus) outcome.body) = r at h1 h2 h3 h4
  unfold headFraming
  cases outcome.headRequest with
  | false => exact ⟨h1, h2, h3, h4⟩
  | true =>
    simp only [if_true]
    split <;> exact ⟨h1, h2, h3, rfl⟩

/-! ### The response is valid -/

theorem digits_valid {v : Bytes} (h : ∀ c ∈ v, isDigit c = true) :
    (HttpHeader.ofField (ascii "Content-Length") v).isValid = true := by
  have hname := (HttpHeader.isValidName_iff (ascii "Content-Length") v).mpr contentLength_token
  rw [HttpHeader.isValid, hname, Bool.true_and, HttpHeader.isValidValue, HttpHeader.ofField_value,
    trimWhitespace_digits h, List.all_eq_true]
  intro c hc
  have hd := h c hc
  rw [isDigit, Bool.and_eq_true, decide_eq_true_eq, decide_eq_true_eq] at hd
  simp only [HttpHeader.isControl, Bool.not_eq_true', Bool.or_eq_false_iff, Bool.and_eq_false_iff,
    decide_eq_false_iff_not, beq_eq_false_iff_ne, ne_eq]
  grind

/-- The length field of a relayed response holds a number of at most 19 digits. -/
theorem lengthField_digits {outcome : ProxyOutcome} (hv : ValidFields outcome.headers)
    (hsize : outcome.body.length < 2 ^ 63) {h : HttpHeader} (hm : h ∈ lengthField outcome) :
    ∃ v, h = .ofField (ascii "Content-Length") v ∧ h.value = v ∧ v ≠ [] ∧ v.length ≤ 19 ∧
      (∀ c ∈ v, isDigit c = true) ∧ (outcome.headRequest = false → decimalValue v = outcome.body.length) := by
  unfold lengthField at hm
  split at hm
  · rename_i hhead
    split at hm
    · cases hm
    · rename_i hne
      rw [List.mem_singleton] at hm
      unfold HttpHeaders.get at hm hne
      split at hm
      · rename_i g hg
        obtain ⟨hgm, hgn⟩ := HttpHeaders.mem_of_findByName hg
        obtain ⟨hne, h19, hall⟩ := hv.digits g hgm (hgn.trans contentLength_key)
        refine ⟨g.value, hm, ?_, hne, h19, hall, fun hf => ?_⟩
        · rw [hm, HttpHeader.ofField_value, g.trimmed]
        · rw [hhead] at hf
          cases hf
      · rename_i hnone
        rw [hnone] at hne
        exact (hne rfl).elim
  · split at hm
    · cases hm
    · rw [List.mem_singleton] at hm
      obtain ⟨hne, hall, hval⟩ := isDecimal_decimalText outcome.body.length
      refine ⟨_, hm, ?_, hne, ?_, hall, fun _ => hval⟩
      · rw [hm, HttpHeader.ofField_value, trimWhitespace_digits hall]
      · exact (decimalText_length_le (by decide)).mpr (by omega)

theorem regenerated_valid {outcome : ProxyOutcome} (hv : ValidFields outcome.headers)
    (hsize : outcome.body.length < 2 ^ 63) (clientKeepAlive : Bool) {h : HttpHeader}
    (hm : h ∈ regenerated outcome clientKeepAlive) : h.isValid = true := by
  simp only [regenerated, List.mem_append, List.mem_cons, List.not_mem_nil, or_false] at hm
  rcases hm with (rfl | rfl | rfl) | hm
  · decide
  · decide
  · cases clientKeepAlive <;> decide
  · obtain ⟨v, rfl, -, -, -, hall, -⟩ := lengthField_digits hv hsize hm
    exact digits_valid hall

theorem mem_lengthField {outcome : ProxyOutcome} {clientKeepAlive : Bool} {h : HttpHeader}
    (hm : h ∈ outcome.headers ∧ EndToEnd h ∨ h ∈ regenerated outcome clientKeepAlive)
    (hk : h.normalizedName = ascii "content-length") : h ∈ lengthField outcome := by
  rcases hm with ⟨-, he⟩ | hm
  · exact (he.2.1 hk).elim
  · simp only [regenerated, List.mem_append, List.mem_cons, List.not_mem_nil, or_false] at hm
    rcases hm with (rfl | rfl | rfl) | hm
    · exact absurd hk (by decide)
    · exact absurd hk (by decide)
    · exact absurd hk (by rw [HttpHeader.ofField_normalizedName, connection_key]; decide)
    · exact hm

section relayed
variable {outcome : ProxyOutcome} (hs : outcome.status = .success)
  (hv : ValidFields outcome.headers) (hhead : outcome.headRequest = true → outcome.body = [])
  (hsize : outcome.body.length < 2 ^ 63) (clientKeepAlive : Bool)
include hs hv hhead hsize

theorem proxyResponse_fields : ValidFields (buildProxyResponse outcome clientKeepAlive).headers := by
  refine ⟨fun h hm => ?_, proxyResponse_distinct hs clientKeepAlive, fun h hm hk => ?_⟩
  · rcases (mem_proxyResponse hs hv.distinct hhead clientKeepAlive h).mp hm with ⟨hm, -⟩ | hm
    · exact hv.valid h hm
    · exact regenerated_valid hv hsize clientKeepAlive hm
  · have hl := mem_lengthField ((mem_proxyResponse hs hv.distinct hhead clientKeepAlive h).mp hm) hk
    obtain ⟨v, -, hval, hne, h19, hall, -⟩ := lengthField_digits hv hsize hl
    rw [hval]
    exact ⟨hne, h19, hall⟩

theorem proxyResponse_isValid : (buildProxyResponse outcome clientKeepAlive).isValid = true := by
  have hfields := proxyResponse_fields hs hv hhead hsize clientKeepAlive
  obtain ⟨hbody, -, -, honly⟩ := proxyResponse_frame hs clientKeepAlive
  have hall : (buildProxyResponse outcome clientKeepAlive).headers.all HttpHeader.isValid = true :=
    List.all_eq_true.mpr hfields.valid
  simp only [HttpResponse.isValid, hall, Bool.true_and, hbody, honly]
  cases hf : (buildProxyResponse outcome clientKeepAlive).headers.findByName (ascii "Content-Length") with
  | none => simp [HttpHeaders.get, hf]
  | some h =>
    obtain ⟨hm, hn⟩ := HttpHeaders.mem_of_findByName hf
    have hl := mem_lengthField
      ((mem_proxyResponse hs hv.distinct hhead clientKeepAlive h).mp hm) (hn.trans contentLength_key)
    obtain ⟨v, -, hval, hne, h19, hdigits, hnum⟩ := lengthField_digits hv hsize hl
    have hget : (buildProxyResponse outcome clientKeepAlive).headers.get (ascii "Content-Length") = v := by
      rw [HttpHeaders.get, hf, ← hval]
    have hlt : decimalValue v < 2 ^ 64 := calc
      decimalValue v < 10 ^ v.length := decimalValue_lt hdigits
      _ ≤ 10 ^ 19 := Nat.pow_le_pow_right (by decide) h19
      _ < 2 ^ 64 := by decide
    rw [hget, stoul_decimal ⟨hne, hdigits, rfl⟩ hlt, Bool.or_eq_true]
    right
    cases hh : outcome.headRequest with
    | true => simp
    | false => simp [hnum hh]

end relayed

/-! ### The response read back -/

theorem exists_field {h : HttpHeader} (hv : h.isValid = true) : ∃ f : ResponseField,
    f.header = h ∧ f.bytes = HttpResponseSerializer.buildHeaderLine h ∧ f.Valid := by
  rw [HttpHeader.isValid, Bool.and_eq_true, HttpHeader.isValidValue, List.all_eq_true] at hv
  have hclean : ∀ c ∈ h.value, HttpHeader.isControl c = false := fun c hc => by
    simpa using hv.2 c hc
  refine ⟨⟨h.name, ascii " ", h.value, [], ?_, ows_space, ows_nil, h.trimmed, fun hlf => ?_⟩, ?_, ?_, hclean⟩
  · have hname : (HttpHeader.ofField h.name h.value).isValidName = true := by
      rw [h.ofField_self]
      exact hv.1
    exact (HttpHeader.isValidName_iff _ _).mp hname
  · exact absurd (hclean _ hlf) (by decide)
  · exact h.ofField_self
  · have hcolon : ascii ": " = 58 :: ascii " " := by decide
    simp only [ResponseField.bytes, HttpResponseSerializer.buildHeaderLine, hcolon, List.append_assoc,
      List.cons_append, List.append_nil]

theorem exists_fields {hs : HttpHeaders} (hv : ∀ h ∈ hs, h.isValid = true) :
    ∃ fs : List ResponseField, fs.map ResponseField.header = hs ∧
      fs.map ResponseField.bytes = hs.map HttpResponseSerializer.buildHeaderLine ∧
      ∀ f ∈ fs, f.Valid := by
  induction hs with
  | nil => exact ⟨[], rfl, rfl, by simp⟩
  | cons h hs ih =>
    obtain ⟨f, hf, hbytes, hvalid⟩ := exists_field (hv h (List.mem_cons_self ..))
    obtain ⟨fs, hfs, hbs, hvs⟩ := ih fun g hg => hv g (List.mem_cons_of_mem _ hg)
    exact ⟨f :: fs, by rw [List.map_cons, hf, hfs], by rw [List.map_cons, List.map_cons, hbytes, hbs],
      List.forall_mem_cons.mpr ⟨hvalid, hvs⟩⟩

theorem statusCodeToString_clean (status : StatusCode) : LF ∉ statusCodeToString status := by
  intro hmem
  exact absurd (statusCodeToString_printable status LF hmem) (by decide)

theorem exists_statusLine {status : StatusCode} (h : 100 ≤ status.toNat ∧ status.toNat ≤ 999) :
    ∃ l : StatusLine, l.status = status.toNat ∧
      l.bytes = ascii "HTTP/1.1" ++ ascii " " ++ decimalText status.toNat ++ ascii " " ++
        statusCodeToString status := by
  obtain ⟨-, hall, hval⟩ := isDecimal_decimalText status.toNat
  have hle : (decimalText status.toNat).length ≤ 3 :=
    (decimalText_length_le (by decide)).mpr (by omega)
  have hge : ¬(decimalText status.toNat).length ≤ 2 := fun h2 => by
    have hlt := (decimalText_length_le (by decide)).mp h2
    omega
  refine ⟨⟨ascii "HTTP/1.1", decimalText status.toNat, some (statusCodeToString status), http11_known,
    ⟨by omega, hall⟩, ?_⟩, hval, ?_⟩
  · intro r hr
    rw [← Option.mem_some_iff.mp hr]
    exact statusCodeToString_clean status
  · have hspace : ascii " " = [32] := by decide
    simp only [StatusLine.bytes, StatusLine.reasonPart, hspace, List.append_assoc, List.cons_append,
      List.nil_append]

/-- Room for a message of these bytes, whatever its framing. -/
structure LargeEnough (config : ProxyResponseParser.Config) (out : Bytes) : Prop where
  head : out.length ≤ config.maxHeaderBytes
  body : out.length ≤ config.maxBodyBytes
  buffer : out.length ≤ config.bufferLimit

theorem filter_eq_singleton {α : Type*} {p : α → Bool} {l : List α} {a : α} (hl : l.Nodup)
    (ha : a ∈ l) (hp : p a = true) (hu : ∀ b ∈ l, p b = true → b = a) : l.filter p = [a] := by
  have hperm : (l.filter p).Perm [a] := by
    refine (List.perm_ext_iff_of_nodup (hl.filter p) (List.nodup_singleton a)).mpr fun b => ?_
    rw [List.mem_filter, List.mem_singleton]
    constructor
    · rintro ⟨hb, hpb⟩
      exact hu b hb hpb
    · rintro rfl
      exact ⟨ha, hp⟩
  exact List.perm_singleton.mp hperm

/-- The lines in which the serializer writes a relayed response. -/
structure HeadOf (outcome : ProxyOutcome) (clientKeepAlive : Bool) (head : Head) : Prop where
  status : head.line.status = outcome.upstreamStatus
  headers : head.fields.map ResponseField.header =
    (buildProxyResponse outcome clientKeepAlive).headers
  valid : ∀ f ∈ head.fields, f.Valid
  distinct : (head.fields.map ResponseField.key).Nodup
  fields : ∀ h, h ∈ head.fields.map ResponseField.header ↔
    h ∈ outcome.headers ∧ EndToEnd h ∨ h ∈ regenerated outcome clientKeepAlive
  text : serialize (buildProxyResponse outcome clientKeepAlive) =
    head.bytes ++ if outcome.headRequest then [] else outcome.body

theorem exists_head {outcome : ProxyOutcome} (hs : outcome.status = .success)
    (hv : ValidFields outcome.headers) (hhead : outcome.headRequest = true → outcome.body = [])
    (hsize : outcome.body.length < 2 ^ 63) (clientKeepAlive : Bool)
    (hcode : 200 ≤ outcome.upstreamStatus ∧ outcome.upstreamStatus ≤ 599) :
    ∃ head : Head, HeadOf outcome clientKeepAlive head := by
  have hfields := proxyResponse_fields hs hv hhead hsize clientKeepAlive
  obtain ⟨hbody, hstatus, hversion, honly⟩ := proxyResponse_frame hs clientKeepAlive
  have hnat : (UInt16.ofNat outcome.upstreamStatus).toNat = outcome.upstreamStatus := by
    rw [UInt16.toNat_ofNat']
    omega
  obtain ⟨fs, hheaders, hlines, hvalid⟩ := exists_fields hfields.valid
  have hcode' : 100 ≤ (UInt16.ofNat outcome.upstreamStatus).toNat ∧
      (UInt16.ofNat outcome.upstreamStatus).toNat ≤ 999 := by
    rw [hnat]
    omega
  obtain ⟨l, hl, hbytes⟩ := exists_statusLine hcode'
  refine ⟨⟨l, fs⟩, hl.trans hnat, hheaders, hvalid, ?_, fun h => ?_, ?_⟩
  · have hd := hfields.distinct
    rw [HttpHeaders.Distinct, ← hheaders, List.map_map] at hd
    exact hd
  · rw [hheaders]
    exact mem_proxyResponse hs hv.distinct hhead clientKeepAlive h
  · rw [serialize, if_pos (proxyResponse_isValid hs hv hhead hsize clientKeepAlive), Head.bytes]
    simp only
    rw [hlines, hbytes, HttpResponseSerializer.buildStatusLine, hversion, hstatus, honly,
      HttpResponse.hasBody, hbody]
    congr 1
    cases hh : outcome.headRequest with
    | true => simp
    | false => cases outcome.body <;> simp

namespace HeadOf
variable {outcome : ProxyOutcome} {clientKeepAlive : Bool} {head : Head}
  (hh : HeadOf outcome clientKeepAlive head)
include hh

theorem mem {f : ResponseField} (hf : f ∈ head.fields) : f.header ∈ outcome.headers ∧
    EndToEnd f.header ∨ f.header ∈ regenerated outcome clientKeepAlive :=
  (hh.fields f.header).mp (List.mem_map_of_mem hf)

theorem not_transferEncoding {f : ResponseField} (hf : f ∈ head.fields) :
    f.isTransferEncoding = false := by
  refine Bool.eq_false_iff.mpr fun hte => ?_
  have hkey : f.header.normalizedName = ascii "transfer-encoding" := beq_iff_eq.mp hte
  rcases hh.mem hf with ⟨-, he⟩ | hr
  · have hhop := he.1
    rw [hkey] at hhop
    exact absurd hhop (by decide)
  · simp only [regenerated, List.mem_append, List.mem_cons, List.not_mem_nil, or_false] at hr
    rcases hr with (hr | hr | hr) | hr
    · rw [hr] at hkey
      exact absurd hkey (by decide)
    · rw [hr] at hkey
      exact absurd hkey (by decide)
    · rw [hr, HttpHeader.ofField_normalizedName, connection_key] at hkey
      exact absurd hkey (by decide)
    · rw [lengthField_name hr] at hkey
      exact absurd hkey (by decide)

theorem contentLength {f : ResponseField} (hf : f ∈ head.fields) (hk : f.isContentLength = true) :
    f.header ∈ lengthField outcome :=
  mem_lengthField (hh.mem hf) (beq_iff_eq.mp hk)

theorem framing {f : ResponseField} (hf : f ∈ head.fields) (hk : f.isFraming = true) :
    f.header ∈ lengthField outcome := by
  rw [ResponseField.isFraming, hh.not_transferEncoding hf, Bool.or_false] at hk
  exact hh.contentLength hf hk

theorem digits (hv : ValidFields outcome.headers) (hsize : outcome.body.length < 2 ^ 63)
    {f : ResponseField} (hf : f ∈ head.fields) (hk : f.isContentLength = true) :
    f.value ≠ [] ∧ f.value.length ≤ 19 ∧ (∀ c ∈ f.value, isDigit c = true) ∧
      (outcome.headRequest = false → decimalValue f.value = outcome.body.length) := by
  obtain ⟨v, -, hval, hne, h19, hall, hnum⟩ := lengthField_digits hv hsize (hh.contentLength hf hk)
  have hvalue : f.value = v := by
    rw [← f.value_trimmed, ← hval]
    rfl
  rw [hvalue]
  exact ⟨hne, h19, hall, hnum⟩

theorem fieldsAgree (hv : ValidFields outcome.headers) (hsize : outcome.body.length < 2 ^ 63) :
    FieldsAgree head.fields := by
  refine ⟨fun f hf hk => ?_, fun f hf g hg hk hk' => ?_, fun f hf hk => ?_⟩
  · obtain ⟨hne, h19, hall, -⟩ := hh.digits hv hsize hf hk
    exact ⟨hne, h19, hall⟩
  · have hkey : f.key = g.key := (beq_iff_eq.mp hk).trans (beq_iff_eq.mp hk').symm
    rw [List.inj_on_of_nodup_map hh.distinct hf hg hkey]
  · rw [hh.not_transferEncoding hf] at hk
    cases hk

theorem declared (hno : outcome.headRequest = false) (hv : ValidFields outcome.headers)
    (hsize : outcome.body.length < 2 ^ 63) : Response.Declared ⟨head,
      if outcome.body = [] then .untilClose [] else .contentLength outcome.body⟩ := by
  by_cases hb : outcome.body = []
  · rw [if_pos hb]
    refine List.filter_eq_nil_iff.mpr fun f hf hk => ?_
    have hl := hh.framing hf hk
    rw [lengthField, hno, if_neg Bool.false_ne_true, if_pos hb] at hl
    cases hl
  · rw [if_neg hb]
    have hfield : lengthField outcome =
        [.ofField (ascii "Content-Length") (decimalText outcome.body.length)] := by
      rw [lengthField, hno, if_neg Bool.false_ne_true, if_neg hb]
    have hin : HttpHeader.ofField (ascii "Content-Length") (decimalText outcome.body.length) ∈
        head.fields.map ResponseField.header := by
      refine (hh.fields _).mpr (Or.inr (List.mem_append_right _ ?_))
      rw [hfield]
      exact List.mem_singleton.mpr rfl
    obtain ⟨f, hf, hheader⟩ := List.mem_map.mp hin
    have hkey : f.key = ascii "content-length" := by
      have h := congrArg HttpHeader.normalizedName hheader
      rwa [contentLength_name] at h
    have hkind : f.isContentLength = true := beq_iff_eq.mpr hkey
    obtain ⟨hne, h19, hall, hnum⟩ := hh.digits hv hsize hf hkind
    have honly : ∀ g ∈ head.fields, g.isFraming = true → g = f := by
      intro g hg hk
      refine List.inj_on_of_nodup_map hh.distinct hg hf ?_
      rw [hkey]
      exact (lengthField_name (hh.framing hg hk) : g.key = _)
    exact ⟨f, filter_eq_singleton hh.distinct.of_map hf
      (by rw [ResponseField.isFraming, hkind, Bool.true_or]) honly, hkind, ⟨hne, hall, hnum hno⟩, h19⟩

end HeadOf

theorem endOf_of_complete {config : ProxyResponseParser.Config} {ds : List Bytes}
    (h : (ProxyResponseParser.run config ds).isComplete = true) :
    ProxyResponseParser.endOf config ds true = ProxyResponseParser.run config ds := by
  simp only [ProxyResponseParser.endOf, ProxyResponseParser.finishOnEof, h, if_true]

/-- What the server relays of the response `p`: the outcome `complete` reports. -/
def relayedOutcome (config : ProxyResponseParser.Config) (p : ProxyResponseParser) : ProxyOutcome :=
  { outcomeFromParser p with headRequest := config.requestWasHead }

/-- The message is the one of `p`, with the end-to-end fields and those regenerated. -/
structure Relays (config : ProxyResponseParser.Config) (clientKeepAlive : Bool)
    (p q : ProxyResponseParser) : Prop where
  complete : q.isComplete = true
  status : q.statusCode = p.statusCode
  body : q.body = p.body
  noBody : config.requestWasHead = true → q.body = []
  distinct : q.headers.Distinct
  fields : ∀ h, h ∈ q.headers ↔
    h ∈ p.headers ∧ EndToEnd h ∨ h ∈ regenerated (relayedOutcome config p) clientKeepAlive

theorem relays_of_message {config : ProxyResponseParser.Config} {p q : ProxyResponseParser}
    {clientKeepAlive : Bool} {head : Head}
    (hh : HeadOf (relayedOutcome config p) clientKeepAlive head) (h1 : q.isComplete = true)
    (h2 : q.statusCode = head.line.status)
    (h3 : q.headers = head.fields.map ResponseField.header) (h4 : q.body = p.body)
    (h5 : config.requestWasHead = true → p.body = []) : Relays config clientKeepAlive p q := by
  refine ⟨h1, h2.trans hh.status, h4, fun h => h4.trans (h5 h), ?_, fun h => ?_⟩
  · rw [h3, hh.headers]
    exact proxyResponse_distinct rfl clientKeepAlive
  · rw [h3]
    exact hh.fields h

section reads
variable {config config' : ProxyResponseParser.Config} {p : ProxyResponseParser}
  {clientKeepAlive : Bool} {head : Head} {es : List Bytes}
  (hh : HeadOf (relayedOutcome config p) clientKeepAlive head) (hv : ValidFields p.headers)
  (hsize : p.body.length < 2 ^ 63) (hcode : 200 ≤ p.statusCode ∧ p.statusCode ≤ 599)
  (hsame : config'.requestWasHead = config.requestWasHead)
  (hlarge : LargeEnough config' (serialize (buildProxyResponse (relayedOutcome config p) clientKeepAlive)))
  (hes : es.flatten = serialize (buildProxyResponse (relayedOutcome config p) clientKeepAlive))
include hh hv hsize hcode hsame hlarge hes

theorem relays_bodyless (hb : p.body = [])
    (hkind : config.requestWasHead = true ∨ p.statusCode = 204 ∨ p.statusCode = 304) :
    Relays config clientKeepAlive p (ProxyResponseParser.endOf config' es true) := by
  have hadm : ProxyResponseParser.responseGuard.Admitted
      (ProxyResponseParser.Core.fresh config', []) es :=
    ProxyResponseParser.admitted_of_length (by rw [hes]; exact hlarge.buffer)
  have htext : es.flatten = head.bytes := by
    rw [hes, hh.text]
    have hempty : (if (relayedOutcome config p).headRequest then [] else p.body) = [] := by
      rw [hb, ite_self]
    exact (congrArg _ hempty).trans (List.append_nil _)
  have hlen : head.bytes.length ≤ config'.maxHeaderBytes := by
    rw [← htext, hes]
    exact hlarge.head
  obtain ⟨h1, h2, h3, h4⟩ := bodyless_decodes config' head (by rw [hh.status]; exact hcode)
    (by rw [hsame, hh.status]; exact hkind) hh.valid hh.distinct (hh.fieldsAgree hv hsize)
    (List.any_eq_false.mpr fun f hf => by simp [hh.not_transferEncoding hf]) hlen es htext hadm
  rw [endOf_of_complete h1]
  exact relays_of_message hh h1 h2 h3 (h4.trans hb.symm) fun _ => hb

theorem relays_bodied (hno : config.requestWasHead = false) (h204 : p.statusCode ≠ 204)
    (h304 : p.statusCode ≠ 304) :
    Relays config clientKeepAlive p (ProxyResponseParser.endOf config' es true) := by
  have hadm : ProxyResponseParser.responseGuard.Admitted
      (ProxyResponseParser.Core.fresh config', []) es :=
    ProxyResponseParser.admitted_of_length (by rw [hes]; exact hlarge.buffer)
  -- the end of the connection delimits an empty body, a length any other
  let coding : Coding := if p.body = [] then .untilClose [] else .contentLength p.body
  have hbody : coding.body = p.body := by
    unfold coding
    split
    · rename_i hb
      rw [hb]
      rfl
    · rfl
  have hbytes : coding.bytes = p.body := by
    rw [← hbody]
    unfold coding
    split <;> rfl
  have hzero : coding.trailerLength = 0 ∧ coding.sizeLines = [] := by
    unfold coding
    split <;> exact ⟨rfl, rfl⟩
  have htext : es.flatten = Response.bytes ⟨head, coding⟩ := by
    rw [hes, hh.text, Response.bytes, hbytes]
    exact congrArg _ (if_neg (ne_true_of_eq_false hno))
  have hlen : head.bytes.length + p.body.length ≤ es.flatten.length := by
    rw [htext, Response.bytes, hbytes, List.length_append]
  have hwell : Response.WellFormed ⟨head, coding⟩ := by
    refine ⟨⟨?_, ?_, ?_, ?_⟩, hh.valid, hh.distinct, hh.declared hno hv hsize⟩
    · exact hh.status ▸ hcode.1
    · exact hh.status ▸ hcode.2
    · exact hh.status ▸ h204
    · exact hh.status ▸ h304
  have hwithin : Response.Within ⟨head, coding⟩ config' := by
    have hhead := hlarge.head
    have hmax := hlarge.body
    rw [← hes] at hhead hmax
    refine ⟨?_, ?_, ?_⟩
    · rw [hzero.1]
      simp only
      omega
    · simp only [hbody]
      omega
    · rw [hzero.2]
      exact fun l hl => by cases hl
  obtain ⟨h1, h2, h3, h4, -⟩ := decodes_of_admitted config' (hsame.trans hno) ⟨head, coding⟩ hwell
    hwithin es htext hadm
  have hend : ProxyResponseParser.endOf config' es true =
      ProxyResponseParser.endOf config' es (decide (coding.framing = .untilClose)) := by
    cases hf : decide (coding.framing = .untilClose) with
    | true => rfl
    | false =>
      rw [hf] at h1
      exact endOf_of_complete h1
  rw [hend]
  refine relays_of_message hh h1 h2 h3 (h4.trans hbody) fun h => ?_
  rw [hno] at h
  cases h

end reads

/-- **Relay fidelity.** Whatever response the parser completes, for GET or for HEAD, the
response built from it serializes, and a parser fed with the text in any pieces reads the
same message: its status, its body and its end-to-end fields next to those regenerated. -/
theorem relay_faithful (config : ProxyResponseParser.Config) (ds : List Bytes) (eof : Bool)
    (hdone : (ProxyResponseParser.endOf config ds eof).isComplete = true)
    (hcode : 200 ≤ (ProxyResponseParser.endOf config ds eof).statusCode ∧
      (ProxyResponseParser.endOf config ds eof).statusCode ≤ 599)
    (hsize : (ProxyResponseParser.endOf config ds eof).body.length < 2 ^ 63) (clientKeepAlive : Bool) :
    let p := ProxyResponseParser.endOf config ds eof
    let out := serialize (buildProxyResponse (relayedOutcome config p) clientKeepAlive)
    out ≠ [] ∧ ∀ config' : ProxyResponseParser.Config,
      config'.requestWasHead = config.requestWasHead → LargeEnough config' out →
      ∀ es : List Bytes, es.flatten = out →
        Relays config clientKeepAlive p (ProxyResponseParser.endOf config' es true) := by
  intro p out
  obtain ⟨hv, hnobody⟩ := stored_of_complete hdone
  have hsuccess : (relayedOutcome config p).status = .success := rfl
  obtain ⟨head, hh⟩ := exists_head hsuccess hv (fun h => hnobody (Or.inl h)) hsize clientKeepAlive
    hcode
  refine ⟨fun hnil => ?_, fun config' hsame hlarge es hes => ?_⟩
  · have hempty := (List.append_eq_nil_iff.mp (hh.text.symm.trans hnil)).1
    simp [Head.bytes, headBlock] at hempty
  by_cases hkind : config.requestWasHead = true ∨ p.statusCode = 204 ∨ p.statusCode = 304
  · exact relays_bodyless hh hv hsize hcode hsame hlarge hes (hnobody hkind) hkind
  · rw [not_or, not_or, Bool.not_eq_true] at hkind
    exact relays_bodied hh hv hsize hcode hsame hlarge hes hkind.1 hkind.2.1 hkind.2.2

/-- A chunked upstream response with a `Server` field of its own. -/
def relayedSample : List Bytes :=
  [ascii "HTTP/1.1 200 OK\r\nServer: up\r\nETag: x\r\nTransfer-Encoding: chunked\r\n\r\n2\r\nh",
    ascii "i\r\n0\r\n\r\n"]

theorem relay_faithful_chunked :
    let p := ProxyResponseParser.endOf {} relayedSample false
    let out := serialize (buildProxyResponse (relayedOutcome {} p) true)
    out ≠ [] ∧ Relays {} true p (ProxyResponseParser.endOf {} [out.take 30, out.drop 30] true) := by
  obtain ⟨h1, h2⟩ := relay_faithful {} relayedSample false (by decide)
    ⟨by decide, by decide⟩ (by decide) true
  exact ⟨h1, h2 {} rfl ⟨by decide, by decide, by decide⟩ _ (by simp)⟩

end Aevrix.Server
