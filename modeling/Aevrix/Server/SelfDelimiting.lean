import Aevrix.Server.Relay
import Aevrix.Server.Routes
import Aevrix.Static.FilesystemWorker

/-!
# Keep-alive responses and their length

A client that keeps the connection needs to know where a body ends. `set_body` drops the
`Content-Length` of an empty body. A file is served with a length, since `serve_file` fails on an
empty one; an empty body from the upstream is relayed without (`selfDelimiting_iff`).
-/

namespace Aevrix.Server
open Aevrix.Http Aevrix.Proxy Aevrix.Static
open Aevrix.Http.HttpResponseSerializer (serialize)

/-- A response to anything but HEAD that keeps the connection carries the length of its
body. -/
def SelfDelimiting (r : HttpResponse) : Prop := serialize r ≠ [] → r.status ≠ 204 →
  r.status ≠ 304 → r.headers.get (ascii "Connection") = ascii "keep-alive" →
    r.headers.get (ascii "Content-Length") = decimalText r.body.length

/-! ### Responses with their length -/

/-- The length field holds the length of the body. -/
def Measured (r : HttpResponse) : Prop :=
  r.headers.get (ascii "Content-Length") = decimalText r.body.length

theorem Measured.selfDelimiting {r : HttpResponse} (h : Measured r) : SelfDelimiting r :=
  fun _ _ _ _ => h

theorem measured_ofBody (status : StatusCode) {body : Bytes} (h : body ≠ []) :
    Measured (.ofBody status body) := by
  obtain ⟨b, t, rfl⟩ := List.exists_cons_of_ne_nil h
  change HttpHeaders.get (HttpHeaders.set [] _ _) _ = _
  rw [HttpHeaders.get_set_self, trimWhitespace_digits (isDecimal_decimalText _).2.1]
  rfl

theorem Measured.setHeader {r : HttpResponse} (h : Measured r) {name : Bytes} (value : Bytes)
    (hn : HttpHeader.normalizeName name ≠ ascii "content-length") : Measured (r.setHeader name value) := by
  unfold Measured HttpResponse.setHeader
  rw [HttpHeaders.get_set_other _ _ (by rw [contentLength_key]; exact hn.symm)]
  exact h

theorem Measured.setConnectionPolicy {r : HttpResponse} (h : Measured r) (policy : ConnectionPolicy) :
    Measured (r.setConnectionPolicy policy) :=
  Measured.setHeader (r := { r with connectionPolicy := policy }) h _ (by decide)

theorem Measured.plainText {r : HttpResponse} (h : Measured r) : Measured (plainText r) :=
  (h.setHeader _ (by decide)).setHeader _ (by decide)

theorem Measured.relayHeader {r : HttpResponse} (h : Measured r) (g : HttpHeader) :
    Measured (relayHeader r g) := by
  unfold Server.relayHeader
  split
  · exact h
  · rename_i hk
    refine h.setHeader _ fun heq => hk ?_
    rw [show g.normalizedName = ascii "content-length" from heq, beq_self_eq_true, Bool.or_true]

theorem Measured.relay {r : HttpResponse} (h : Measured r) (hs : HttpHeaders) :
    Measured (hs.foldl Server.relayHeader r) := by
  induction hs generalizing r with
  | nil => exact h
  | cons g gs ih => exact ih (h.relayHeader g)

theorem selfDelimiting_close (r : HttpResponse) : SelfDelimiting (r.setConnectionPolicy .close) := by
  intro _ _ _ hk
  change HttpHeaders.get (HttpHeaders.set _ _ _) _ = _ at hk
  rw [HttpHeaders.get_set_self] at hk
  exact absurd hk (by decide)

/-! ### Routes -/

theorem adminRefusal_measured {admin : Admin} {request : HttpRequest} {r : HttpResponse}
    (h : adminRefusal admin request = some r) : Measured r := by
  unfold adminRefusal at h
  split at h
  · rw [← Option.some.inj h]
    exact (measured_ofBody _ (by decide)).setHeader _ (by decide)
  split at h
  · rw [← Option.some.inj h]
    exact ((measured_ofBody _ (by decide)).setHeader _ (by decide)).setHeader _ (by decide)
  · cases h

theorem adminReport_measured (status : StatusCode) {body : Bytes} (generation : ℕ) (h : body ≠ []) :
    Measured (adminReport status body generation) :=
  ((measured_ofBody status h).setHeader _ (by decide)).setHeader _ (by decide)

theorem adminResponse_measured {r : HttpResponse} (h : Measured r) : Measured (adminResponse r) :=
  (h.setHeader _ (by decide)).setConnectionPolicy _

theorem ascii_append_ne_nil (s : String) (h : ascii s ≠ []) (v : Bytes) : ascii s ++ v ≠ [] :=
  fun hnil => h (List.append_eq_nil_iff.mp hnil).1

theorem adminConfigRoute_measured (admin : Admin) (request : HttpRequest) :
    Measured (adminConfigRoute admin request) := by
  refine adminResponse_measured ?_
  split
  · exact adminRefusal_measured ‹_›
  · refine adminReport_measured _ _ ?_
    simp only [List.append_assoc]
    exact ascii_append_ne_nil _ (by decide) _

theorem reloadReport_ne_nil (outcome : ConfigReloadOutcome) (store : StoreStatus) :
    reloadReport outcome store ≠ [] := by
  unfold reloadReport
  simp only [List.append_assoc]
  split
  · exact ascii_append_ne_nil _ (by decide) _
  · exact ascii_append_ne_nil _ (by decide) _

theorem adminReloadRoute_measured (admin : Admin) (request : HttpRequest) :
    Measured (adminReloadRoute admin request) := by
  refine adminResponse_measured ?_
  split
  · exact adminRefusal_measured ‹_›
  split
  · exact (measured_ofBody _ (by decide)).setHeader _ (by decide)
  simp only
  split
  · exact (measured_ofBody _ (by decide)).setHeader _ (by decide)
  · exact adminReport_measured _ _ (reloadReport_ne_nil _ _)

theorem routeHandlers_measured {admin : Admin} {handler : HttpRequest → HttpResponse}
    (h : handler ∈ routeHandlers admin) (request : HttpRequest) : Measured (handler request) := by
  simp only [routeHandlers, List.mem_cons, List.not_mem_nil, or_false] at h
  rcases h with rfl | rfl | rfl | rfl | rfl
  · exact (measured_ofBody _ (by decide)).plainText.setConnectionPolicy _
  · exact (measured_ofBody _ (by decide)).plainText.setConnectionPolicy _
  · exact (measured_ofBody _ (by decide)).plainText.setConnectionPolicy _
  · exact adminConfigRoute_measured admin request
  · exact adminReloadRoute_measured admin request

/-! ### The dispatch paths -/

/-- How a request other than HEAD comes by its response: a route of the server, the task a worker
executes, an upstream response the parser completed, a failed exchange, a full worker pool
or a refused upgrade. -/
inductive Answer where
  | routed (admin : Admin) (handler : HttpRequest → HttpResponse) (request : HttpRequest)
      (registered : handler ∈ routeHandlers admin)
  | worker (disk : Disk) (task : WorkerTask) (keepAlive : Bool)
      (notHead : task.isHeadRequest = false)
  | proxied (config : ProxyResponseParser.Config) (ds : List Bytes) (eof keepAlive : Bool)
      (complete : (ProxyResponseParser.endOf config ds eof).isComplete = true)
      (notHead : config.requestWasHead = false)
  | proxyError (outcome : ProxyOutcome) (keepAlive : Bool) (failed : outcome.status ≠ .success)
  | overloaded
  | refused (verdict : UpgradeVerdict)

namespace Answer

def response : Answer → HttpResponse
  | routed _ handler request _ => handler request
  | worker disk task keepAlive _ => workerResponse (executeFilesystemTask disk task) keepAlive
  | proxied config ds eof keepAlive _ _ =>
    buildProxyResponse (relayedOutcome config (ProxyResponseParser.endOf config ds eof)) keepAlive
  | proxyError outcome keepAlive _ => buildProxyResponse outcome keepAlive
  | overloaded => overloadedResponse
  | refused verdict => buildRejectionResponse verdict

/-- A response relayed on a connection that stays open is not empty. -/
def NotEmpty : Answer → Prop
  | proxied config ds eof keepAlive _ _ => keepAlive = true →
      UInt16.ofNat (ProxyResponseParser.endOf config ds eof).statusCode ≠ 204 →
      UInt16.ofNat (ProxyResponseParser.endOf config ds eof).statusCode ≠ 304 →
        (ProxyResponseParser.endOf config ds eof).body ≠ []
  | _ => True

end Answer

theorem keepAlive_connection (r : HttpResponse) :
    (r.setConnectionPolicy .keepAlive).headers.get (ascii "Connection") = ascii "keep-alive" := by
  change HttpHeaders.get (HttpHeaders.set _ _ _) _ = _
  rw [HttpHeaders.get_set_self]
  decide

theorem not_measured_empty {r : HttpResponse}
    (h : r.headers.get (ascii "Content-Length") = []) : ¬Measured r := fun hm =>
  (isDecimal_decimalText r.body.length).1 (hm.symm.trans h)

/-- The response to a file that was read. -/
def fileResponse (content mimeType : Bytes) (keepAlive : Bool) : HttpResponse :=
  (((HttpResponse.ofBody .ok content).setHeader (ascii "Content-Type") mimeType).setHeader
    (ascii "Server") (ascii "Aevrix/1.0.0")).setConnectionPolicy (keepAlivePolicy keepAlive)

theorem fileResponse_measured {content : Bytes} (h : content ≠ []) (mimeType : Bytes)
    (keepAlive : Bool) : Measured (fileResponse content mimeType keepAlive) :=
  (((measured_ofBody _ h).setHeader _ (by decide)).setHeader _ (by decide)).setConnectionPolicy _

theorem worker_delimited (disk : Disk) {task : WorkerTask} (hhead : task.isHeadRequest = false)
    (keepAlive : Bool) :
    SelfDelimiting (workerResponse (executeFilesystemTask disk task) keepAlive) := by
  unfold workerResponse
  by_cases hcode : (executeFilesystemTask disk task).statusCode = 200
  · rw [if_pos hcode]
    exact (fileResponse_measured (executeFilesystemTask_content hhead hcode) _ _).selfDelimiting
  · rw [if_neg hcode]
    exact selfDelimiting_close _

theorem proxyError_delimited {outcome : ProxyOutcome} (h : outcome.status ≠ .success)
    (keepAlive : Bool) : SelfDelimiting (buildProxyResponse outcome keepAlive) := by
  rw [buildProxyResponse, if_neg h]
  exact selfDelimiting_close _

theorem proxied_iff {outcome : ProxyOutcome} (hs : outcome.status = .success)
    (hno : outcome.headRequest = false) (hv : ValidFields outcome.headers) (keepAlive : Bool) :
    SelfDelimiting (buildProxyResponse outcome keepAlive) ↔ (keepAlive = true →
      UInt16.ofNat outcome.upstreamStatus ≠ 204 → UInt16.ofNat outcome.upstreamStatus ≠ 304 →
        outcome.body ≠ []) := by
  have hhead : outcome.headRequest = true → outcome.body = [] := fun h => by
    rw [hno] at h
    cases h
  obtain ⟨hbody, hstatus, -, -⟩ := proxyResponse_frame hs keepAlive
  constructor
  · rintro h rfl h204 h304 hempty
    have hsize : outcome.body.length < 2 ^ 63 := by
      rw [hempty]
      decide
    have hsent : serialize (buildProxyResponse outcome true) ≠ [] := by
      rw [serialize, if_pos (proxyResponse_isValid hs hv hhead hsize true)]
      simp [headBlock]
    refine not_measured_empty ?_ (h hsent (hstatus ▸ h204) (hstatus ▸ h304) ?_)
    · have hnone : (buildProxyResponse outcome true).headers.findByName (ascii "Content-Length") = none := by
        refine HttpHeaders.findByName_eq_none.mpr fun g hg hk => ?_
        have hl := mem_lengthField ((mem_proxyResponse hs hv.distinct hhead true g).mp hg)
          (hk.trans contentLength_key)
        rw [lengthField, hno, if_neg Bool.false_ne_true, if_pos hempty] at hl
        cases hl
      rw [HttpHeaders.get, hnone]
    · rw [buildProxyResponse_success hs]
      exact keepAlive_connection _
  · intro h
    cases keepAlive with
    | false =>
      rw [buildProxyResponse_success hs]
      exact selfDelimiting_close _
    | true =>
      intro _ h204 h304 _
      have hb := h rfl (hstatus ▸ h204) (hstatus ▸ h304)
      have hm : Measured (buildProxyResponse outcome true) := by
        rw [buildProxyResponse_success hs, headFraming, hno, if_neg Bool.false_ne_true]
        exact ((((measured_ofBody _ hb).relay outcome.headers).setHeader _ (by decide)).setHeader _
          (by decide)).setConnectionPolicy _
      exact hm

/-- **When a keep-alive response is delimited.** On every dispatch path the response carries its
length, unless it is an empty upstream body on a connection that stays open. -/
theorem selfDelimiting_iff (answer : Answer) : SelfDelimiting answer.response ↔ answer.NotEmpty := by
  cases answer with
  | routed admin handler request registered =>
    exact iff_of_true (routeHandlers_measured registered request).selfDelimiting trivial
  | worker disk task keepAlive notHead =>
    exact iff_of_true (worker_delimited disk notHead keepAlive) trivial
  | proxied config ds eof keepAlive complete notHead =>
    have hsuccess : (relayedOutcome config (ProxyResponseParser.endOf config ds eof)).status = .success := rfl
    exact proxied_iff hsuccess notHead (stored_of_complete complete).1 keepAlive
  | proxyError outcome keepAlive failed => exact iff_of_true (proxyError_delimited failed keepAlive) trivial
  | overloaded => exact iff_of_true (selfDelimiting_close _) trivial
  | refused verdict => exact iff_of_true (selfDelimiting_close _) trivial

/-- What an upstream sends that has nothing to say. -/
def emptyUpstream : List Bytes := [ascii "HTTP/1.1 200 OK\r\nContent-Length: 0\r\n\r\n"]

theorem emptyUpstream_complete :
    (ProxyResponseParser.endOf {} emptyUpstream false).isComplete = true := by decide +kernel

/-- It is relayed with a head that says `keep-alive` and nothing of a length. -/
theorem empty_not_delimited :
    serialize (Answer.proxied {} emptyUpstream false true emptyUpstream_complete rfl).response =
      ascii "HTTP/1.1 200 OK\r\nServer: Aevrix/1.0.0\r\nVia: 1.1 aevrix\r\n" ++
        ascii "Connection: keep-alive\r\n\r\n" ∧
    ¬∀ answer : Answer, SelfDelimiting answer.response := by
  refine ⟨by decide +kernel, fun h => ?_⟩
  have hlength := h (.proxied {} emptyUpstream false true emptyUpstream_complete rfl)
    (by decide +kernel) (by decide +kernel) (by decide +kernel) (by decide +kernel)
  exact absurd hlength (by decide +kernel)

end Aevrix.Server
