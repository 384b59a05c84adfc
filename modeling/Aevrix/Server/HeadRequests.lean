import Aevrix.Proxy.Admission
import Aevrix.Server.AnnouncedClose
import Aevrix.Server.Routes
import Aevrix.Static.FilesystemWorker

/-!
# Answers to HEAD

What is queued for a HEAD request ends at the blank line behind the head, if and only if the
request was served by a worker or admitted by the proxy (`endsAtHead_iff`): the answers that
report an error from the worker, and those of a proxy that refuses to start, have forgotten the
method.
-/

namespace Aevrix.Server
open Aevrix.Http Aevrix.Proxy Aevrix.Static
open Aevrix.Http.HttpResponseSerializer (serialize)
open Aevrix.Proxy.Lifecycle (Start Delivery)
open Aevrix.Proxy.Lifecycle.ProxyHandler (Call admissions Remembers remembers_new)

/-- The routes under their keys, as `main` registers them (`main.cpp:1470-1592`). -/
def routeTable (admin : Admin) : List (Bytes × (HttpRequest → HttpResponse)) :=
  [(makeRouteKey (ascii "GET") (ascii "/"), rootRoute),
    (makeRouteKey (ascii "GET") (ascii "/health"), healthRoute),
    (makeRouteKey (ascii "GET") (ascii "/metrics"), metricsRoute),
    (makeRouteKey (ascii "GET") (ascii "/admin/config"), adminConfigRoute admin),
    (makeRouteKey (ascii "POST") (ascii "/admin/reload-config"), adminReloadRoute admin)]

theorem routeTable_head (admin : Admin) (target : Bytes) :
    (routeTable admin).lookup (makeRouteKey (httpMethodToString .head) target) = none := by
  have hget : ∀ path, (makeRouteKey (httpMethodToString .head) target ==
      makeRouteKey (ascii "GET") path) = false := by
    intro path
    simp [makeRouteKey, httpMethodToString, ascii, toUpper, isLower]
  have hpost : ∀ path, (makeRouteKey (httpMethodToString .head) target ==
      makeRouteKey (ascii "POST") path) = false := by
    intro path
    simp [makeRouteKey, httpMethodToString, ascii, toUpper, isLower]
  simp only [routeTable, List.lookup_cons, hget, hpost, List.lookup_nil]

/-- The bytes are a head and nothing behind its blank line. -/
def EndsAtHead (bytes : Bytes) : Prop := (readHead bytes).map Prod.snd = some []

/-- What the bytes behind the head depend on. -/
structure Carries (r : HttpResponse) (body : Bytes) (headOnly : Bool) : Prop where
  version : r.version = ascii "HTTP/1.1"
  body : r.body = body
  headOnly : r.headOnly = headOnly

namespace Carries
variable {r : HttpResponse} {body : Bytes} {headOnly : Bool}

theorem ofBody (status : StatusCode) (body : Bytes) : Carries (.ofBody status body) body false := by
  refine ⟨(wellFormed_ofBody status body).version, ?_, ?_⟩
  · unfold HttpResponse.ofBody HttpResponse.setBody HttpResponse.updateContentLength
    split <;> rfl
  · unfold HttpResponse.ofBody HttpResponse.setBody HttpResponse.updateContentLength
    split <;> rfl

theorem setHeader (h : Carries r body headOnly) (name value : Bytes) :
    Carries (r.setHeader name value) body headOnly := ⟨h.version, h.body, h.headOnly⟩

theorem plainText (h : Carries r body headOnly) : Carries (plainText r) body headOnly :=
  (h.setHeader _ _).setHeader _ _

theorem setHeadOnly (h : Carries r body headOnly) (value : Bool) :
    Carries (r.setHeadOnly value) body value := ⟨h.version, h.body, rfl⟩

theorem setConnectionPolicy (h : Carries r body headOnly) (policy : ConnectionPolicy) :
    Carries (r.setConnectionPolicy policy) body headOnly := ⟨h.version, h.body, h.headOnly⟩

theorem endsAtHead (h : Carries r body headOnly) (hsent : serialize r ≠ []) :
    EndsAtHead (serialize r) ↔ headOnly = true ∨ body = [] := by
  have hvalid : r.isValid = true := by
    rw [ne_eq, serialize_eq_nil] at hsent
    simpa using hsent
  rw [EndsAtHead, readHead_serialize h.version hvalid, Option.map_some, Option.some.injEq,
    HttpResponse.hasBody, h.body, h.headOnly]
  cases headOnly with
  | true => simp
  | false =>
    cases body with
    | nil => simp
    | cons b t => simp

end Carries

variable {σ : Type} [WebSocketSession σ]

/-- How the bytes come to be queued: the router, the WebSocket handshake or a full worker pool
answer in place, a worker reads the file, or the proxy reports what it delivered in a run. -/
inductive HeadPath (services : Services) (e : Endpoint σ) (request : HttpRequest)
  | routed (response : HttpResponse) (h : services.dispatch request = .routed response)
  | refused (verdict : UpgradeVerdict) (h : services.dispatch request = .refused verdict)
  | overloaded (h : services.dispatch request = .overloaded)
  | worker (task : WorkerTask)
      (h : (dispatchRequest services e request).place = some (.worker task)) (disk : Disk)
      (e' : Endpoint σ)
  | proxied (target : Except Bytes ProxyTarget) (maxIdle idleTimeoutMs : ℕ) (calls : List Call)
      (c : Start) (hc : c.request = request) (admitted : Bool) (d : Delivery)
      (hd : d ∈ ((Lifecycle.ProxyHandler.new target maxIdle idleTimeoutMs).run calls).delivered)
      (hticket : (admissions (Lifecycle.ProxyHandler.new target maxIdle idleTimeoutMs)
        calls)[d.ticket]? = some (c, admitted))
      (e' : Endpoint σ)

namespace HeadPath
variable {services : Services} {e : Endpoint σ} {request : HttpRequest}

/-- What the handler that queues the bytes leaves. -/
def handled : HeadPath services e request → Handled σ
  | routed _ _ => dispatchRequest services e request
  | refused _ _ => dispatchRequest services e request
  | overloaded _ => dispatchRequest services e request
  | worker task _ disk e' => applyWorkerResult e' (executeFilesystemTask disk task)
  | proxied _ _ _ _ _ _ _ d _ _ e' => applyProxyOutcome e' d.outcome

/-- The method is remembered: the file is served, or the proxy admitted the request. -/
def Remembered : HeadPath services e request → Prop
  | routed _ _ => True
  | refused _ _ => False
  | overloaded _ => False
  | worker task _ disk _ => disk.Serves task
  | proxied _ _ _ _ _ _ admitted _ _ _ _ => admitted = true

end HeadPath

/-! ### The responses -/

theorem workerResponse_carries (result : WorkerResult) (keepAlive : Bool) :
    Carries (workerResponse result keepAlive)
      (if result.statusCode = 200 then result.content else result.errorMessage) false := by
  unfold workerResponse
  split
  · exact (((Carries.ofBody _ _).setHeader _ _).setHeader _ _).setConnectionPolicy _
  · exact (Carries.ofBody _ _).plainText.setConnectionPolicy _

/-- An error of the gateway has its text as the body, and ends with a line feed. -/
theorem buildProxyResponse_carries (outcome : ProxyOutcome) (keepAlive : Bool) :
    ∃ body, Carries (buildProxyResponse outcome keepAlive) body outcome.headRequest ∧
      (outcome.status ≠ .success → body ≠ []) := by
  by_cases hs : outcome.status = .success
  · obtain ⟨hbody, -, hversion, honly⟩ := proxyResponse_frame hs keepAlive
    exact ⟨outcome.body, ⟨hversion, hbody, honly⟩, fun h => (h hs).elim⟩
  · refine ⟨(gatewayError outcome).2 ++ ascii "\n", ?_, fun _ => by simp [ascii]⟩
    have herror := ((Carries.ofBody (gatewayError outcome).1
      ((gatewayError outcome).2 ++ ascii "\n")).plainText).setHeader (ascii "Via")
        (ascii "1.1 aevrix")
    rw [buildProxyResponse, if_neg hs]
    cases hhead : outcome.headRequest with
    | true => exact (herror.setHeadOnly true).setConnectionPolicy _
    | false => exact herror.setConnectionPolicy _

theorem buildRejectionResponse_carries (verdict : UpgradeVerdict) :
    ∃ body, Carries (buildRejectionResponse verdict) body false ∧ body ≠ [] := by
  unfold buildRejectionResponse
  cases verdict with
  | forbiddenOrigin => exact ⟨_, (Carries.ofBody _ _).plainText.setConnectionPolicy _, by decide⟩
  | unsupportedVersion =>
    exact ⟨_, ((Carries.ofBody _ _).setHeader _ _).plainText.setConnectionPolicy _,
      by decide +kernel⟩
  | notAnUpgrade => exact ⟨_, (Carries.ofBody _ _).plainText.setConnectionPolicy _, by decide⟩
  | accepted => exact ⟨_, (Carries.ofBody _ _).plainText.setConnectionPolicy _, by decide⟩
  | badRequest => exact ⟨_, (Carries.ofBody _ _).plainText.setConnectionPolicy _, by decide⟩

theorem overloadedResponse_carries : ∃ body, Carries overloadedResponse body false ∧ body ≠ [] :=
  ⟨_, (Carries.ofBody _ _).plainText.setConnectionPolicy _, by decide⟩

theorem Carries.not_endsAtHead {r : HttpResponse} (h : ∃ body, Carries r body false ∧ body ≠ [])
    (hsent : serialize r ≠ []) : ¬EndsAtHead (serialize r) := by
  obtain ⟨body, hc, hne⟩ := h
  rw [hc.endsAtHead hsent, not_or]
  exact ⟨Bool.false_ne_true, hne⟩

theorem dispatch_unrouted {services : Services} {request : HttpRequest}
    (h : services.routes.lookup (makeRouteKey (httpMethodToString request.method) request.target) =
      none) (response : HttpResponse) : services.dispatch request ≠ .routed response := by
  unfold Services.dispatch
  rw [h]
  simp only
  split
  · exact fun heq => by cases heq
  split
  · exact fun heq => by cases heq
  split
  · exact fun heq => by cases heq
  split
  · exact fun heq => by cases heq
  · exact fun heq => by cases heq

theorem dispatchRequest_worker {services : Services} {e : Endpoint σ} {request : HttpRequest}
    {task : WorkerTask} (h : (dispatchRequest services e request).place = some (.worker task)) :
    task = ⟨e.conn.id, request.target, services.documentRoot, request.method == .head⟩ := by
  unfold dispatchRequest at h
  cases hd : services.dispatch request with
  | routed response =>
    rw [hd] at h
    simp only at h
    split at h <;> cases h
  | upgraded response =>
    rw [hd] at h
    cases h
  | refused verdict =>
    rw [hd] at h
    cases h
  | proxied outcome =>
    rw [hd] at h
    cases outcome with
    | none => cases h
    | some outcome =>
      simp only [applyProxyOutcome] at h
      split at h <;> cases h
  | worker =>
    rw [hd] at h
    cases h
    rfl
  | overloaded =>
    rw [hd] at h
    cases h

/-- **When an answer to HEAD has no body.** The bytes queued for a HEAD request end at the
blank line, if and only if the worker serves the file or the proxy admitted the request. -/
theorem endsAtHead_iff {services : Services} {e : Endpoint σ} {request : HttpRequest}
    {admin : Admin} (hroutes : services.routes = routeTable admin) (hhead : request.method = .head)
    (path : HeadPath services e request) {response : Bytes}
    (hanswer : path.handled.answer = some response) (hsent : response ≠ []) :
    EndsAtHead response ↔ path.Remembered := by
  cases path with
  | routed routed h =>
    exact absurd h (dispatch_unrouted (by rw [hroutes, hhead, routeTable_head]) routed)
  | refused verdict h =>
    simp only [HeadPath.handled, dispatchRequest, h] at hanswer
    obtain rfl := Option.some.inj hanswer
    exact iff_of_false (Carries.not_endsAtHead (buildRejectionResponse_carries verdict) hsent) id
  | overloaded h =>
    simp only [HeadPath.handled, dispatchRequest, h] at hanswer
    obtain rfl := Option.some.inj hanswer
    exact iff_of_false (Carries.not_endsAtHead overloadedResponse_carries hsent) id
  | worker task h disk e' =>
    have htask : task.isHeadRequest = true := by
      rw [dispatchRequest_worker h, hhead]
      rfl
    obtain rfl := Option.some.inj hanswer
    rw [(workerResponse_carries _ _).endsAtHead hsent, or_iff_right Bool.false_ne_true]
    rcases executeFilesystemTask_cases disk task htask with ⟨hserves, hcode, hcontent⟩ |
      ⟨hserves, hcode, hmessage⟩
    · rw [if_pos hcode, hcontent]
      exact iff_of_true rfl hserves
    · rw [if_neg hcode]
      exact iff_of_false hmessage hserves
  | proxied target maxIdle idleTimeoutMs calls c hc admitted d hd hticket e' =>
    obtain ⟨c', admitted', hc', houtcome, hfailed⟩ :=
      ((remembers_new target maxIdle idleTimeoutMs).run calls).delivered d hd
    rw [List.nil_append, hticket] at hc'
    obtain ⟨rfl, rfl⟩ := Prod.mk.inj (Option.some.inj hc')
    have hmethod : Lifecycle.ProxyHandler.isHead c = true := by
      rw [Lifecycle.ProxyHandler.isHead, hc, hhead]
      rfl
    rw [hmethod, Bool.and_true] at houtcome
    obtain ⟨body, hcarries, hbody⟩ := buildProxyResponse_carries d.outcome e'.conn.keepAlive
    have hresponse : serialize (buildProxyResponse d.outcome e'.conn.keepAlive) = response := by
      revert hanswer
      simp only [HeadPath.handled, applyProxyOutcome]
      split
      · exact fun hanswer => by cases hanswer
      · exact fun hanswer => Option.some.inj hanswer
    subst hresponse
    rw [hcarries.endsAtHead hsent, houtcome]
    refine or_iff_left_of_imp fun hnil => ?_
    cases hadmitted : admitted with
    | true => rfl
    | false => exact absurd hnil (hbody (hfailed hadmitted))

/-! ### A file that is not there -/

/-- A file system with nothing but its root directory. -/
def emptyDisk : Disk where
  tree := { entries := [], cwd := [], maxLinks := 40, placed := by decide }
  readable _ := true
  what := none

/-- `HEAD /missing`. -/
def headMissing : HttpRequest where
  method := .head
  target := ascii "/missing"

/-- The routes of the server; neither WebSocket nor proxy is configured. -/
def staticServices (admin : Admin) : Services where
  routes := routeTable admin
  websocketEnabled := false
  websocketMaxMessageBytes := 0
  evaluateUpgrade _ := {}
  proxyHandles _ := false
  proxyStart _ := none
  documentRoot := ascii "/"
  workerAccepts := true

def closedAdmin : Admin where
  live := ⟨false, [], []⟩
  store := ⟨0, [], 0, 0, []⟩
  performReload := none

def missingTask : WorkerTask := ⟨1, ascii "/missing", ascii "/", true⟩

/-- The connection once the worker has the request. -/
def waitingForHead : Endpoint State.NoSession :=
  (dispatchRequest (staticServices closedAdmin) ⟨{ id := 1 }, false⟩ headMissing).toEndpoint

/-- The worker does not find the file. -/
def headMissingPath :
    HeadPath (staticServices closedAdmin) (⟨{ id := 1 }, false⟩ : Endpoint State.NoSession)
      headMissing :=
  .worker missingTask rfl emptyDisk waitingForHead

theorem headMissing_queued : headMissingPath.handled.answer =
    some (serialize (workerResponse ⟨1, [], [], 404, ascii "File not found", false⟩ true)) := by
  have htask : executeFilesystemTask emptyDisk missingTask =
      ⟨1, [], [], 404, ascii "File not found", false⟩ := by decide +kernel
  show (applyWorkerResult waitingForHead (executeFilesystemTask emptyDisk missingTask)).answer = _
  rw [htask]
  rfl

theorem endsAtHead_iff_missing :
    EndsAtHead (serialize (workerResponse ⟨1, [], [], 404, ascii "File not found", false⟩ true)) ↔
      headMissingPath.Remembered :=
  endsAtHead_iff (show (staticServices closedAdmin).routes = routeTable closedAdmin from rfl) rfl
    headMissingPath headMissing_queued (by decide +kernel)

/-- The 404 carries its text. -/
theorem head_answered_with_body :
    bodyBytes (serialize (workerResponse ⟨1, [], [], 404, ascii "File not found", false⟩ true)) =
      ascii "File not found" ∧
    ¬∀ (services : Services) (e : Endpoint State.NoSession) (request : HttpRequest) (admin : Admin)
        (path : HeadPath services e request) (response : Bytes),
      services.routes = routeTable admin → request.method = .head →
        path.handled.answer = some response → response ≠ [] → EndsAtHead response := by
  refine ⟨by decide +kernel, fun hall => ?_⟩
  have hends := hall _ _ _ closedAdmin headMissingPath _ rfl rfl headMissing_queued
    (by decide +kernel)
  unfold EndsAtHead at hends
  revert hends
  decide +kernel

end Aevrix.Server
