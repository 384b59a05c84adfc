import Aevrix.Keyed.Pairs
import Aevrix.Server.HeadRequests
import Aevrix.Server.SelfDelimiting

/-!
# From a file to its response

A GET request that a worker takes is answered with the file its target resolves to, byte for byte,
if and only if the file is not empty: `serve_file` takes an empty string from `read_file` for a
failure (`delivers_iff`).
-/

namespace Aevrix.Static
open Aevrix.Filesystem Aevrix.Http
open Aevrix.Server (WorkerTask WorkerResult)

/-! ### What a target resolves to -/

theorem lexicallyRelative_below {base rest : List Name} (hrest : dotdot ∉ rest) :
    dotdot ∉ (Path.lexicallyRelative ⟨true, base ++ rest⟩ ⟨true, base⟩).names := by
  have hmismatch : Path.mismatch (base ++ rest) base = (rest, []) := by
    induction base with
    | nil => cases rest <;> rfl
    | cons name base ih => rw [List.cons_append, Path.mismatch, if_pos rfl, ih]
  have hdot : dotdot ∉ [dot] := by decide
  simp only [Path.lexicallyRelative, hmismatch]
  rw [if_neg (fun h => h rfl)]
  split
  · exact hdot
  split
  · exact List.not_mem_nil
  split
  · exact hdot
  · exact hrest

namespace StaticFileServer
variable {t : Tree}

/-- The target leads to a regular file inside the document root that can be read; its size is a
`size_t`. -/
structure Resolves (s : StaticFileServer t) (readable : List Name → Bool)
    (requestTarget content : Bytes) (resolved : Path) : Prop where
  path : (s.normalizePath requestTarget).bind s.resolvePath = some resolved
  file : ∃ l root, t.status resolved = .found l ∧ t.status s.rootPath = .found root ∧ root <+: l ∧
    t.node l = some (.regular content) ∧ readable l = true
  size : content.length < 2 ^ 64

variable {s : StaticFileServer t} {readable : List Name → Bool} {requestTarget content : Bytes}
  {resolved : Path}

theorem validatePath_below {names l root : List Name} (hfound : t.status ⟨true, names⟩ = .found l)
    (hroot : t.status s.rootPath = .found root) (hbelow : root <+: l) :
    s.validatePath ⟨true, names⟩ = true := by
  have hlocation := Tree.found_location hfound
  have hrootLocation := Tree.found_location hroot
  obtain ⟨n, hn, -⟩ := id hlocation
  have hvalid := Tree.names_valid (by rw [hn]; rfl)
  obtain ⟨rest, rfl⟩ := hbelow
  have hup : dotdot ∉ (Path.lexicallyRelative ⟨true, root ++ rest⟩ ⟨true, root⟩).names := by
    apply lexicallyRelative_below
    intro hmem
    exact (hvalid dotdot (List.mem_append_right root hmem)).2.2.1 rfl
  rw [validatePath, absolute_rooted rfl, absolute_rooted rfl, Option.bind_some, Option.bind_some,
    Tree.weaklyCanonical_found hfound, rootPath, Tree.weaklyCanonical_found hroot]
  dsimp only
  rw [Tree.relative_found (Tree.status_location hlocation) (Tree.status_location hrootLocation)]
  dsimp only
  generalize (Path.lexicallyRelative ⟨true, root ++ rest⟩ ⟨true, root⟩).names = way at hup ⊢
  have hhead : way.head? ≠ some dotdot := fun h => hup (List.mem_of_mem_head? h)
  rw [if_neg hhead]
  simpa using hup

theorem Resolves.serveFile (h : s.Resolves readable requestTarget content resolved) :
    s.serveFile readable requestTarget =
      if content = [] then some ([], ascii "text/plain", 500)
      else some (content, detectMimeType resolved, 200) := by
  obtain ⟨l, root, hfound, hroot, hbelow, hnode, hreadable⟩ := h.file
  obtain ⟨normalized, hnormalized, hresolved⟩ := Option.bind_eq_some_iff.mp h.path
  have hrooted := rooted_resolvePath hresolved
  have hvalid : s.validatePath resolved = true := by
    obtain ⟨rooted, names⟩ := resolved
    obtain rfl : rooted = true := hrooted
    exact validatePath_below hfound hroot hbelow
  have hread : readFile t readable resolved = content := by
    simp only [readFile, hfound, hnode, hreadable, if_true]
  have hregular : some (Node.regular content) ≠ some Node.directory := fun heq => by cases heq
  simp only [StaticFileServer.serveFile, hnormalized, hresolved, hvalid, hfound, hnode, hread,
    Bool.true_eq_false, if_false, if_neg hregular]

end StaticFileServer

theorem serve_resolves {disk : Disk} {task : WorkerTask} {server : StaticFileServer disk.tree}
    (hserver : StaticFileServer.construct disk.tree task.documentRoot = some server)
    {content : Bytes} {resolved : Path}
    (hfile : server.Resolves disk.readable task.requestTarget content resolved) :
    disk.serve task = if content = [] then some ([], ascii "text/plain", 500)
      else some (content, detectMimeType resolved, 200) := by
  rw [Disk.serve, hserver, Option.bind_some, hfile.serveFile]

theorem executeFilesystemTask_failed {disk : Disk} {task : WorkerTask} {content mimeType : Bytes}
    (h : disk.serve task = some (content, mimeType, 500)) :
    (executeFilesystemTask disk task).statusCode = 500 := by
  rw [executeFilesystemTask, h]
  rfl

theorem detectMimeType_valid (p : Path) :
    (HttpHeader.ofField (ascii "Content-Type") (detectMimeType p)).isValid = true := by
  have htable : ∀ mimeType ∈ mimeTypes.map Prod.snd,
      (HttpHeader.ofField (ascii "Content-Type") mimeType).isValid = true := by decide
  unfold detectMimeType
  cases htype : mimeTypes.lookup ((extension p).map toLower) with
  | none => decide
  | some mimeType => exact htable mimeType (Keyed.mem_values_of_lookup htype)

end Aevrix.Static

namespace Aevrix.Server
open Aevrix.Http Aevrix.Static
open Aevrix.Http.HttpResponseSerializer (serialize buildStatusLine buildHeaderLine)

/-- The response in the buffer has the status 200, the length of the content and nothing but the
content behind its head. -/
def Delivers (answer : Option Bytes) (content : Bytes) : Prop :=
  ∃ bytes lines, answer = some bytes ∧
    readHead bytes = some (ascii "HTTP/1.1 200 OK" :: lines, content) ∧
    ascii "Content-Length: " ++ decimalText content.length ∈ lines

/-! ### The response to a file -/

section file
variable {content mimeType : Bytes}

theorem fileResponse_headers (hne : content ≠ []) (keepAlive : Bool) :
    (fileResponse content mimeType keepAlive).headers =
      [.ofField (ascii "Content-Length") (decimalText content.length),
        .ofField (ascii "Content-Type") mimeType, .ofField (ascii "Server") (ascii "Aevrix/1.0.0"),
        .ofField (ascii "Connection") (match keepAlivePolicy keepAlive with
          | .keepAlive => ascii "keep-alive"
          | .close => ascii "close")] := by
  obtain ⟨c, rest, rfl⟩ := List.exists_cons_of_ne_nil hne
  rfl

theorem fileResponse_valid (hne : content ≠ []) (hlen : content.length < 2 ^ 64)
    (hmime : (HttpHeader.ofField (ascii "Content-Type") mimeType).isValid = true)
    (keepAlive : Bool) : (fileResponse content mimeType keepAlive).isValid = true := by
  have hdigits := isDecimal_decimalText content.length
  have hall : (fileResponse content mimeType keepAlive).headers.all HttpHeader.isValid = true := by
    have hserver : (HttpHeader.ofField (ascii "Server") (ascii "Aevrix/1.0.0")).isValid = true := by
      decide
    have hconnection : ∀ policy : ConnectionPolicy, (HttpHeader.ofField (ascii "Connection")
        (match policy with
          | .keepAlive => ascii "keep-alive"
          | .close => ascii "close")).isValid = true := by
      intro policy
      cases policy <;> decide
    simp only [fileResponse_headers hne, List.all_cons, digits_valid hdigits.2.1, hmime, hserver,
      hconnection, List.all_nil, Bool.and_true]
  have hbody : (fileResponse content mimeType keepAlive).body = content :=
    ((((Carries.ofBody _ _).setHeader _ _).setHeader _ _).setConnectionPolicy _).body
  have hlength : (fileResponse content mimeType keepAlive).headers.get (ascii "Content-Length") =
      decimalText content.length := by
    rw [fileResponse_measured hne mimeType keepAlive, hbody]
  simp only [HttpResponse.isValid, hall, hlength, hbody, stoul_decimal hdigits hlen,
    beq_self_eq_true, Bool.true_or, Bool.or_true, Bool.and_true]

theorem delivers_fileResponse (hne : content ≠ []) (hlen : content.length < 2 ^ 64)
    (hmime : (HttpHeader.ofField (ascii "Content-Type") mimeType).isValid = true)
    (keepAlive : Bool) :
    Delivers (some (serialize (fileResponse content mimeType keepAlive))) content := by
  have hcarries : Carries (fileResponse content mimeType keepAlive) content false :=
    (((Carries.ofBody _ _).setHeader _ _).setHeader _ _).setConnectionPolicy _
  have hstatus : (fileResponse content mimeType keepAlive).status = 200 := by
    obtain ⟨c, rest, rfl⟩ := List.exists_cons_of_ne_nil hne
    rfl
  have hread := readHead_serialize hcarries.version (fileResponse_valid hne hlen hmime keepAlive)
  have hline : buildStatusLine (fileResponse content mimeType keepAlive) =
      ascii "HTTP/1.1 200 OK" := by
    rw [buildStatusLine, hcarries.version, hstatus]
    decide
  have hbody : (fileResponse content mimeType keepAlive).hasBody = true := by
    rw [HttpResponse.hasBody, hcarries.body]
    simpa using hne
  rw [hline, hbody, hcarries.headOnly, hcarries.body] at hread
  refine ⟨_, _, rfl, hread, ?_⟩
  rw [fileResponse_headers hne, List.map_cons]
  apply List.mem_cons.mpr
  left
  rw [buildHeaderLine, HttpHeader.ofField_value,
    trimWhitespace_digits (isDecimal_decimalText content.length).2.1]
  rfl

end file

theorem not_delivers_error (result : WorkerResult) (hcode : result.statusCode = 500)
    (keepAlive : Bool) (content : Bytes) :
    ¬Delivers (some (serialize (workerResponse result keepAlive))) content := by
  rintro ⟨bytes, lines, hbytes, hread, -⟩
  obtain rfl := Option.some.inj hbytes
  have hcarries := workerResponse_carries result keepAlive
  cases hvalid : (workerResponse result keepAlive).isValid with
  | false =>
    rw [serialize_eq_nil.mpr hvalid] at hread
    cases hread
  | true =>
    rw [readHead_serialize hcarries.version hvalid] at hread
    have hline : buildStatusLine (workerResponse result keepAlive) = ascii "HTTP/1.1 200 OK" :=
      (List.cons.inj (Prod.mk.inj (Option.some.inj hread)).1).1
    have hstatus : (workerResponse result keepAlive).status = 500 := by
      rw [workerResponse, hcode, if_neg (by decide)]
      unfold plainText HttpResponse.ofBody HttpResponse.setBody HttpResponse.updateContentLength
      split <;> rfl
    rw [buildStatusLine, hcarries.version, hstatus] at hline
    revert hline
    decide

/-! ### From the request to the response -/

variable {σ : Type} [WebSocketSession σ]

/-- A GET request that a worker takes is answered with the file that its target resolves to, if and
only if the file is not empty. -/
theorem delivers_iff {services : Services} {e : Endpoint σ} {request : HttpRequest}
    {task : WorkerTask} (hget : request.method = .get)
    (hplace : (dispatchRequest services e request).place = some (.worker task)) (disk : Disk)
    {server : StaticFileServer disk.tree}
    (hserver : StaticFileServer.construct disk.tree services.documentRoot = some server)
    {content : Bytes} {resolved : Filesystem.Path}
    (hfile : server.Resolves disk.readable request.target content resolved)
    (e' : Endpoint σ) :
    Delivers (applyWorkerResult e' (executeFilesystemTask disk task)).answer content ↔
      content ≠ [] := by
  obtain rfl := dispatchRequest_worker hplace
  generalize htask : (⟨e.conn.id, request.target, services.documentRoot,
    request.method == .head⟩ : WorkerTask) = task at *
  have hhead : task.isHeadRequest = false := by
    rw [← htask, hget]
    rfl
  have hserve : disk.serve task = if content = [] then some ([], ascii "text/plain", 500)
      else some (content, detectMimeType resolved, 200) := by
    rw [← htask]
    exact serve_resolves hserver hfile
  have hanswer : (applyWorkerResult e' (executeFilesystemTask disk task)).answer = some
      (serialize (workerResponse (executeFilesystemTask disk task) e'.conn.keepAlive)) := rfl
  rw [hanswer]
  by_cases hne : content = []
  · rw [if_pos hne] at hserve
    exact iff_of_false (not_delivers_error _ (executeFilesystemTask_failed hserve) _ _)
      fun h => h hne
  · rw [if_neg hne] at hserve
    have hresult : executeFilesystemTask disk task =
        ⟨task.connectionId, content, detectMimeType resolved, 200, [], true⟩ := by
      rw [executeFilesystemTask, hserve, hhead]
      rfl
    have hresponse : workerResponse (executeFilesystemTask disk task) e'.conn.keepAlive =
        fileResponse content (detectMimeType resolved) e'.conn.keepAlive := by
      rw [hresult]
      rfl
    rw [hresponse]
    exact iff_of_true (delivers_fileResponse hne hfile.size (detectMimeType_valid resolved) _) hne

/-- The server on `/srv/www`. -/
def wwwServices : Services := { staticServices closedAdmin with documentRoot := ascii "/srv/www" }

def getRequest (target : Bytes) : HttpRequest where
  target := target

def getTask (target : Bytes) : WorkerTask := ⟨1, target, ascii "/srv/www", false⟩

/-- A root with a page and a file of no bytes. -/
def pageTree : Filesystem.Tree where
  entries := [([ascii "srv"], .directory), ([ascii "srv", ascii "www"], .directory),
    ([ascii "srv", ascii "www", ascii "page"], .regular (ascii "hello")),
    ([ascii "srv", ascii "www", ascii "none"], .regular [])]
  cwd := []
  maxLinks := 40
  placed := by decide

def pageServer : StaticFileServer pageTree where
  documentRoot := [ascii "srv", ascii "www"]
  isDirectory := ⟨[ascii "srv", ascii "www"], by decide, by decide⟩

def pageDisk : Disk where
  tree := pageTree
  readable _ := true
  what := none

theorem construct_page :
    StaticFileServer.construct pageTree (ascii "/srv/www") = some pageServer := by
  rfl

theorem resolves_page {name content : Bytes}
    (hpath : (pageServer.normalizePath (47 :: name)).bind pageServer.resolvePath =
      some ⟨true, [ascii "srv", ascii "www", name]⟩)
    (hstatus : pageTree.status ⟨true, [ascii "srv", ascii "www", name]⟩ =
      .found [ascii "srv", ascii "www", name])
    (hnode : pageTree.node [ascii "srv", ascii "www", name] = some (.regular content))
    (hsize : content.length < 2 ^ 64) :
    pageServer.Resolves pageDisk.readable (47 :: name) content
      ⟨true, [ascii "srv", ascii "www", name]⟩ where
  path := hpath
  file := ⟨_, [ascii "srv", ascii "www"], hstatus, by decide, ⟨[name], rfl⟩, hnode, rfl⟩
  size := hsize

theorem resolves_hello : pageServer.Resolves pageDisk.readable (getRequest (ascii "/page")).target
    (ascii "hello") ⟨true, [ascii "srv", ascii "www", ascii "page"]⟩ :=
  resolves_page (by decide +kernel) (by decide) (by decide) (by decide)

theorem resolves_empty : pageServer.Resolves pageDisk.readable (getRequest (ascii "/none")).target
    [] ⟨true, [ascii "srv", ascii "www", ascii "none"]⟩ :=
  resolves_page (by decide +kernel) (by decide) (by decide) (by decide)

/-- A connection that has sent its request. -/
def waitingForPage : Endpoint State.NoSession := ⟨{ id := 1 }, false⟩

theorem delivers_iff_page : Delivers (applyWorkerResult waitingForPage
    (executeFilesystemTask pageDisk (getTask (ascii "/page")))).answer (ascii "hello") ↔
      ascii "hello" ≠ [] := by
  have hplace : (dispatchRequest wwwServices waitingForPage (getRequest (ascii "/page"))).place =
      some (.worker (getTask (ascii "/page"))) := rfl
  exact delivers_iff rfl hplace pageDisk construct_page resolves_hello waitingForPage

/-- A file of no bytes is answered with an error. -/
theorem empty_file_failed : ¬∀ (services : Services) (e e' : Endpoint State.NoSession)
    (request : HttpRequest) (task : WorkerTask) (disk : Disk) (server : StaticFileServer disk.tree)
    (content : Bytes) (resolved : Filesystem.Path), request.method = .get →
      (dispatchRequest services e request).place = some (.worker task) →
      StaticFileServer.construct disk.tree services.documentRoot = some server →
      server.Resolves disk.readable request.target content resolved →
        Delivers (applyWorkerResult e' (executeFilesystemTask disk task)).answer content := by
  intro h
  have hplace : (dispatchRequest wwwServices waitingForPage (getRequest (ascii "/none"))).place =
      some (.worker (getTask (ascii "/none"))) := rfl
  have hdelivers := h wwwServices waitingForPage waitingForPage (getRequest (ascii "/none"))
    (getTask (ascii "/none")) pageDisk pageServer [] _ rfl hplace construct_page resolves_empty
  have hserve : pageDisk.serve (getTask (ascii "/none")) = _ :=
    serve_resolves construct_page resolves_empty
  rw [if_pos rfl] at hserve
  exact not_delivers_error _ (executeFilesystemTask_failed hserve) _ _ hdelivers

end Aevrix.Server
