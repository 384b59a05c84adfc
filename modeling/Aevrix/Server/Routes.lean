import Aevrix.Server.Responses

/-!
# The routes of the server (`main.cpp`)

The routes registered at startup: the two of `Responses`, the metrics endpoint and the
configuration endpoints. What the configuration store holds and what a reload does come
in as arguments.
-/

namespace Aevrix.Server
open Aevrix.Http

/-- `GET /metrics` (`main.cpp:1490-1497`). -/
def metricsRoute (_ : HttpRequest) : HttpResponse :=
  (plainText (.ofBody .ok (ascii "Metrics endpoint - not yet implemented\n"))).setConnectionPolicy
    .keepAlive

/-! ### The configuration endpoints -/

/-- The members of the published configuration the endpoints read. -/
structure LiveConfig where
  adminApiEnabled : Bool
  adminToken : Bytes
  summary : Bytes

/-- The members of `ServerConfigStore` the endpoints read. -/
structure StoreStatus where
  generation : ℕ
  sourcePath : Bytes
  reloadSuccessCount : ℕ
  reloadFailureCount : ℕ
  lastError : Bytes

/-- `ConfigReloadOutcome`, but for the snapshot. -/
structure ConfigReloadOutcome where
  success : Bool
  message : Bytes
  generation : ℕ
  changes : List Bytes
  appliedHot : List Bytes
  restartRequired : List Bytes

/-- What an admin handler asks; `performReload` is the outcome and the store behind it. -/
structure Admin where
  live : LiveConfig
  store : StoreStatus
  performReload : Option (Bytes → ConfigReloadOutcome × StoreStatus)

/-- `join_keys` (`main.cpp:363-372`). -/
def joinKeys (keys : List Bytes) : Bytes := (keys.intersperse (ascii ",")).flatten

/-- `percent_decode` (`main.cpp:375-399`). -/
def percentDecode : Bytes → Bytes
  | 37 :: a :: b :: rest => match Proxy.hexDigit a, Proxy.hexDigit b with
    | some hi, some lo => (hi * 16 + lo).toUInt8 :: percentDecode rest
    | _, _ => 37 :: percentDecode (a :: b :: rest)
  | c :: rest => c :: percentDecode rest
  | [] => []
termination_by v => v.length

/-- `requested_config_path` (`main.cpp:402-436`). -/
def requestedConfigPath (request : HttpRequest) : Bytes :=
  let query := (request.target.dropWhile (· != 63)).drop 1
  let named := (query.splitOn 38).find? fun pair =>
    decide (61 ∈ pair) && pair.takeWhile (· != 61) == ascii "path"
  if 63 ∈ request.target ∧ named.isSome then
    percentDecode (((named.getD []).dropWhile (· != 61)).drop 1)
  else
    let trimmed := trimBy isTrimmable request.body
    if (ascii "path=").isPrefixOf trimmed then trimmed.drop 5 else trimmed

/-- `admin_token_ok` (`main.cpp:439-464`). -/
def adminTokenOk (request : HttpRequest) (live : LiveConfig) : Bool :=
  if live.adminToken = [] then true
  else
    let authorization := request.getHeader (ascii "Authorization")
    let presented :=
      if (ascii "Bearer ").isPrefixOf authorization then authorization.drop 7
      else
        let token := request.getHeader (ascii "X-Aevrix-Token")
        if token = [] then authorization else token
    presented.length == live.adminToken.length &&
      (List.zipWith (· ^^^ ·) presented live.adminToken).foldl (· ||| ·) 0 == 0

/-- `reload_path_allowed` (`main.cpp:469-486`). -/
def reloadPathAllowed (candidate source : Bytes) : Bool :=
  if candidate = [] then true
  else if candidate.head? ≠ some 47 ∨ ascii ".." <:+: candidate then false
  else if source.head? ≠ some 47 then false
  else
    let directory := source.rdropWhile (· != 47)
    directory.isPrefixOf candidate && decide (directory.length < candidate.length)

/-- What both endpoints answer before they look at anything else. -/
def adminRefusal (admin : Admin) (request : HttpRequest) : Option HttpResponse :=
  if !admin.live.adminApiEnabled then
    some ((HttpResponse.ofBody .notFound (ascii "Not Found\n")).setHeader
      (ascii "Content-Type") (ascii "text/plain"))
  else if !adminTokenOk request admin.live then
    some (((HttpResponse.ofBody .unauthorized (ascii "Unauthorized\n")).setHeader
      (ascii "Content-Type") (ascii "text/plain")).setHeader
        (ascii "WWW-Authenticate") (ascii "Bearer realm=\"aevrix-admin\""))
  else none

/-- The last two statements of both handlers. -/
def adminResponse (response : HttpResponse) : HttpResponse :=
  (response.setHeader (ascii "Server") (ascii "Aevrix/1.0.0")).setConnectionPolicy .keepAlive

/-- A report and the generation it is about. -/
def adminReport (status : StatusCode) (body : Bytes) (generation : ℕ) : HttpResponse :=
  ((HttpResponse.ofBody status body).setHeader (ascii "Content-Type") (ascii "text/plain")).setHeader
    (ascii "X-Aevrix-Config-Generation") (decimalText generation)

/-- `GET /admin/config` (`main.cpp:1508-1540`). -/
def adminConfigRoute (admin : Admin) (request : HttpRequest) : HttpResponse :=
  adminResponse <| match adminRefusal admin request with
    | some refusal => refusal
    | none =>
      let store := admin.store
      adminReport .ok
        (ascii "generation=" ++ decimalText store.generation ++ ascii "\n" ++
          ascii "config_path=" ++ store.sourcePath ++ ascii "\n" ++
          ascii "reload_successes=" ++ decimalText store.reloadSuccessCount ++ ascii "\n" ++
          ascii "reload_failures=" ++ decimalText store.reloadFailureCount ++ ascii "\n" ++
          (if store.lastError = [] then [] else ascii "last_error=" ++ store.lastError ++ ascii "\n") ++
          admin.live.summary)
        store.generation

/-- The body of the answer to a reload. -/
def reloadReport (outcome : ConfigReloadOutcome) (store : StoreStatus) : Bytes :=
  (if outcome.success then ascii "reload: applied" else ascii "reload: rejected") ++ ascii "\n" ++
  ascii "generation=" ++ decimalText outcome.generation ++ ascii "\n" ++
  if outcome.success then
    ascii "config_path=" ++ store.sourcePath ++ ascii "\n" ++
    ascii "changed=" ++ joinKeys outcome.changes ++ ascii "\n" ++
    ascii "applied_now=" ++ joinKeys outcome.appliedHot ++ ascii "\n" ++
    ascii "restart_required=" ++ joinKeys outcome.restartRequired ++ ascii "\n"
  else ascii "error=" ++ outcome.message ++ ascii "\n"

/-- `POST /admin/reload-config` (`main.cpp:1542-1592`). -/
def adminReloadRoute (admin : Admin) (request : HttpRequest) : HttpResponse :=
  adminResponse <| match adminRefusal admin request with
    | some refusal => refusal
    | none => match admin.performReload with
      | none =>
        (HttpResponse.ofBody .notImplemented
          (ascii "Reload endpoint unavailable on this platform\n")).setHeader
            (ascii "Content-Type") (ascii "text/plain")
      | some performReload =>
        let overridePath := requestedConfigPath request
        if !reloadPathAllowed overridePath admin.store.sourcePath then
          (HttpResponse.ofBody .badRequest
            (ascii "error=config path must be an absolute file inside the configured " ++
              ascii "configuration directory\n")).setHeader
                (ascii "Content-Type") (ascii "text/plain")
        else
          let (outcome, store) := performReload overridePath
          adminReport (if outcome.success then .ok else .badRequest) (reloadReport outcome store)
            outcome.generation

/-- The route handlers, in the order of their registration. -/
def routeHandlers (admin : Admin) : List (HttpRequest → HttpResponse) :=
  [rootRoute, healthRoute, metricsRoute, adminConfigRoute admin, adminReloadRoute admin]

end Aevrix.Server
