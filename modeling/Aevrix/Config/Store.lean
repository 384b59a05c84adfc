import Mathlib.Data.List.Nodup
import Aevrix.Config.ServerConfig

/-!
# The configuration store (`server_config_store.h`, `server_config_store.cpp`)

The store holds shared pointers to configurations. `configs` are the objects they point to and
`active` is the pointer that is published; a snapshot is such a pointer. Each reload works on an
object of its own, so no object that was handed out is written again (`Ran.kept`).

A reload is a transaction: `verdict` says what it makes of its input, and `transact` what the
store is afterwards; `reload_eq` states that the code's several exits amount to these.
-/

namespace Aevrix.Config

def boolStr (value : Bool) : Bytes := if value then ascii "true" else ascii "false"

/-- `masked`: a secret is shown by its length. -/
def masked (secret : Bytes) : Bytes :=
  if secret = [] then ascii "(unset)" else ascii "(set:" ++ decimalText secret.length ++ ascii ")"

/-- `flatten` (`server_config_store.cpp:252-291`). -/
def flatten (c : ServerConfig) : List (Bytes × Bytes) :=
  [(ascii "host", c.host),
    (ascii "port", decimalText c.port.toNat),
    (ascii "workers", decimalText c.workers.toNat),
    (ascii "document_root", c.documentRoot),
    (ascii "header_timeout_ms", decimalText c.headerTimeoutMs.toNat),
    (ascii "body_timeout_ms", decimalText c.bodyTimeoutMs.toNat),
    (ascii "keep_alive_timeout_ms", decimalText c.keepAliveTimeoutMs.toNat),
    (ascii "write_timeout_ms", decimalText c.writeTimeoutMs.toNat),
    (ascii "max_connections", decimalText c.maxConnections.toNat),
    (ascii "max_buffer_size", decimalText c.maxBufferSize.toNat),
    (ascii "max_request_body", decimalText c.maxRequestBody.toNat),
    (ascii "log_level", c.logLevel),
    (ascii "admin_api_enabled", boolStr c.adminApiEnabled),
    (ascii "admin_token", masked c.adminToken),
    (ascii "tls_enabled", boolStr c.tlsEnabled),
    (ascii "tls_port", decimalText c.tlsPort.toNat),
    (ascii "tls_cert_file", c.tlsCertFile),
    (ascii "tls_key_file", c.tlsKeyFile),
    (ascii "tls_min_version", c.tlsMinVersion),
    (ascii "tls_max_version", c.tlsMaxVersion),
    (ascii "proxy_enabled", boolStr c.proxyEnabled),
    (ascii "proxy_pass", c.proxyPass),
    (ascii "proxy_prefix", c.proxyPrefix),
    (ascii "proxy_strip_prefix", boolStr c.proxyStripPrefix),
    (ascii "proxy_connect_timeout_ms", decimalText c.proxyConnectTimeoutMs.toNat),
    (ascii "proxy_read_timeout_ms", decimalText c.proxyReadTimeoutMs.toNat),
    (ascii "proxy_max_idle_connections", decimalText c.proxyMaxIdleConnections.toNat),
    (ascii "proxy_max_response_bytes", decimalText c.proxyMaxResponseBytes.toNat),
    (ascii "proxy_idle_timeout_ms", decimalText c.proxyIdleTimeoutMs.toNat),
    (ascii "websocket_enabled", boolStr c.websocketEnabled),
    (ascii "websocket_paths", joinCsv c.websocketAllowedPaths),
    (ascii "websocket_max_message_bytes", decimalText c.websocketMaxMessageBytes.toNat),
    (ascii "websocket_close_timeout_ms", decimalText c.websocketCloseTimeoutMs.toNat),
    (ascii "websocket_ping_interval_ms", decimalText c.websocketPingIntervalMs.toNat),
    (ascii "websocket_allowed_origins", joinCsv c.websocketAllowedOrigins)]

/-- `diff_entries` (`server_config_store.cpp:45-67`): the keys whose values differ, each with a
rendering of its change, up to the first place where the keys themselves do. -/
def diffEntries : List (Bytes × Bytes) → List (Bytes × Bytes) → List (Bytes × Bytes)
  | (key, old) :: olds, (key', new) :: news =>
    if key ≠ key' then []
    else if old ≠ new then
      (key, key ++ ascii ": " ++ old ++ ascii " -> " ++ new) :: diffEntries olds news
    else diffEntries olds news
  | _, _ => []

/-- `restart_keys` (`server_config_store.cpp:304-309`). -/
def restartKeys : List Bytes :=
  [ascii "host", ascii "port", ascii "workers", ascii "tls_enabled", ascii "tls_port",
    ascii "tls_cert_file", ascii "tls_key_file", ascii "tls_min_version", ascii "tls_max_version",
    ascii "proxy_enabled", ascii "proxy_pass", ascii "proxy_prefix"]

/-- `is_restart_required` (`server_config_store.cpp:299-316`). -/
def isRestartRequired (key : Bytes) : Bool := restartKeys.contains key

/-- `ConfigReloadOutcome`; the snapshot is a pointer. -/
structure ConfigReloadOutcome where
  success : Bool := false
  message : Bytes := []
  generation : ℕ := 0
  changes : List Bytes := []
  appliedHot : List Bytes := []
  restartRequired : List Bytes := []
  snapshot : Option ℕ := none
  deriving DecidableEq

structure ServerConfigStore where
  configs : List ServerConfig
  active : Fin configs.length
  generation : ℕ := 1
  reloadSuccessCount : ℕ := 0
  reloadFailureCount : ℕ := 0
  sourcePath : Bytes := []
  lastError : Bytes := []

/-- What the file system answers during one attempt: whether a file opens, its bytes when the
parser reads it, whether a TLS file opens. -/
structure Files where
  opens : Bytes → Bool
  content : Bytes → Option Bytes
  readable : Bytes → Bool

/-- A call of `try_reload` or of `try_reload_from_parser`. -/
inductive Attempt where
  | file (path : Bytes) (files : Files)
  | parser (p : ConfigParser) (label rememberPath : Bytes) (files : Files)

/-- The candidate of a parser, validated (`server_config_store.cpp:164-179`). -/
def validated (p : ConfigParser) (files : Files) : Except Bytes ServerConfig :=
  match ({} : ServerConfig).loadFromParser p with
  | .error e => .error e
  | .ok c =>
    if c.tlsEnabled && (!files.readable c.tlsCertFile || !files.readable c.tlsKeyFile) then
      .error (ascii "TLS enabled but certificate/key unreadable (cert='" ++ c.tlsCertFile ++
        ascii "' key='" ++ c.tlsKeyFile ++ ascii "')")
    else .ok c

namespace ServerConfigStore

/-- `*snapshot()`. -/
def snapshot (s : ServerConfigStore) : ServerConfig := s.configs.get s.active

/-- A rejection: the error is recorded and counted. -/
def recordFailure (s : ServerConfigStore) (error : Bytes) : ServerConfigStore :=
  { s with reloadFailureCount := s.reloadFailureCount + 1, lastError := error }

/-- `publish` (`server_config_store.cpp:100-155`). -/
def publish (s : ServerConfigStore) (candidate : ServerConfig) (rememberPath : Bytes) :
    ServerConfigStore × ConfigReloadOutcome :=
  let previous := s.snapshot
  let s := { s with
    configs := s.configs ++ [candidate]
    active := ⟨s.configs.length, by rw [List.length_append]; exact Nat.lt_succ_self _⟩
    generation := s.generation + 1 }
  let changes := diffEntries (flatten previous) (flatten s.snapshot)
  let keys := changes.map Prod.fst
  let outcome : ConfigReloadOutcome := {
    success := true
    generation := s.generation
    snapshot := some s.active
    changes := keys
    restartRequired := keys.filter isRestartRequired
    appliedHot := keys.filter fun key => !isRestartRequired key
    message :=
      if changes = [] then ascii "no values changed"
      else ascii " changed=[" ++ (ascii ", ").intercalate (changes.map Prod.snd) ++ ascii "]" }
  ({ s with
    sourcePath := if rememberPath = [] then s.sourcePath else rememberPath
    lastError := []
    reloadSuccessCount := s.reloadSuccessCount + 1 }, outcome)

/-- The text of a rejection that keeps the generation. -/
def rejection (s : ServerConfigStore) (label error : Bytes) : Bytes :=
  ascii "config reload REJECTED (" ++ label ++ ascii "), keeping generation " ++
    decimalText s.generation ++ ascii ": " ++ error

/-- `try_reload_from_parser` (`server_config_store.cpp:157-195`). -/
def tryReloadFromParser (s : ServerConfigStore) (p : ConfigParser) (label rememberPath : Bytes)
    (files : Files) : ServerConfigStore × ConfigReloadOutcome :=
  match validated p files with
  | .error e =>
    (s.recordFailure e, { message := s.rejection label e, generation := s.generation })
  | .ok candidate => s.publish candidate rememberPath

/-- `try_reload` (`server_config_store.cpp:197-250`). -/
def tryReload (s : ServerConfigStore) (path : Bytes) (files : Files) :
    ServerConfigStore × ConfigReloadOutcome :=
  let resolved := if path = [] then s.sourcePath else path
  if resolved = [] then
    let message := ascii "config reload REJECTED: no configuration file path known " ++
      ascii "(start with -c/--config or pass a path)"
    (s.recordFailure message, { message, generation := s.generation })
  else if files.opens resolved = false then
    let message := ascii "config reload REJECTED: cannot open configuration file '" ++ resolved ++
      ascii "', keeping generation " ++ decimalText s.generation
    (s.recordFailure message, { message, generation := s.generation })
  else match files.content resolved with
    | none =>
      let e := ascii "Cannot open configuration file: " ++ resolved
      (s.recordFailure e,
        { message := s.rejection (ascii "path=" ++ resolved) e, generation := s.generation })
    | some content =>
      s.tryReloadFromParser (.parseFile content) (ascii "path=" ++ resolved) resolved files

def reload (s : ServerConfigStore) : Attempt → ServerConfigStore × ConfigReloadOutcome
  | .file path files => s.tryReload path files
  | .parser p label rememberPath files => s.tryReloadFromParser p label rememberPath files

/-- The startup configuration (`server_config_store.cpp:72-79`). -/
def new (initial : ServerConfig) (sourcePath : Bytes) : ServerConfigStore where
  configs := [initial]
  active := ⟨0, Nat.zero_lt_one⟩
  sourcePath := sourcePath

/-! ### Reloads as transactions -/

/-- What an attempt makes of its input: the error it records, or the configuration it
publishes and the path it remembers. -/
def verdict (s : ServerConfigStore) : Attempt → Except Bytes (ServerConfig × Bytes)
  | .parser p _ rememberPath files => (validated p files).map fun c => (c, rememberPath)
  | .file path files =>
    let resolved := if path = [] then s.sourcePath else path
    if resolved = [] then
      .error (ascii "config reload REJECTED: no configuration file path known " ++
        ascii "(start with -c/--config or pass a path)")
    else if files.opens resolved = false then
      .error (ascii "config reload REJECTED: cannot open configuration file '" ++ resolved ++
        ascii "', keeping generation " ++ decimalText s.generation)
    else match files.content resolved with
      | none => .error (ascii "Cannot open configuration file: " ++ resolved)
      | some content => (validated (.parseFile content) files).map fun c => (c, resolved)

/-- The store after a verdict. -/
def transact (s : ServerConfigStore) : Except Bytes (ServerConfig × Bytes) → ServerConfigStore
  | .error e => { s with lastError := e, reloadFailureCount := s.reloadFailureCount + 1 }
  | .ok (c, rememberPath) => { s with
      configs := s.configs ++ [c]
      active := ⟨s.configs.length, by rw [List.length_append]; exact Nat.lt_succ_self _⟩
      generation := s.generation + 1
      reloadSuccessCount := s.reloadSuccessCount + 1
      lastError := []
      sourcePath := if rememberPath = [] then s.sourcePath else rememberPath }

theorem reload_eq (s : ServerConfigStore) (a : Attempt) :
    (s.reload a).1 = s.transact (s.verdict a) ∧
      (s.reload a).2.success = (s.verdict a).isOk := by
  have hparser : ∀ p label rememberPath files,
      (s.tryReloadFromParser p label rememberPath files).1 =
          s.transact ((validated p files).map fun c => (c, rememberPath)) ∧
        (s.tryReloadFromParser p label rememberPath files).2.success =
          ((validated p files).map fun c => (c, rememberPath)).isOk := by
    intro p label rememberPath files
    unfold tryReloadFromParser
    cases validated p files with
    | error e => exact ⟨rfl, rfl⟩
    | ok c => exact ⟨rfl, rfl⟩
  cases a with
  | parser p label rememberPath files => exact hparser p label rememberPath files
  | file path files =>
    simp only [reload, tryReload, verdict]
    generalize (if path = [] then s.sourcePath else path) = resolved
    split
    · exact ⟨rfl, rfl⟩
    split
    · exact ⟨rfl, rfl⟩
    cases files.content resolved with
    | none => exact ⟨rfl, rfl⟩
    | some content => exact hparser _ _ _ _

/-- The outcome points to a snapshot when it reports success, and only then. -/
theorem snapshot_isSome_reload (s : ServerConfigStore) (a : Attempt) :
    (s.reload a).2.snapshot.isSome = (s.reload a).2.success := by
  have hparser : ∀ p label rememberPath files,
      (s.tryReloadFromParser p label rememberPath files).2.snapshot.isSome =
        (s.tryReloadFromParser p label rememberPath files).2.success := by
    intro p label rememberPath files
    unfold tryReloadFromParser
    cases validated p files with
    | error e => rfl
    | ok c => rfl
  cases a with
  | parser p label rememberPath files => exact hparser p label rememberPath files
  | file path files =>
    simp only [reload, tryReload]
    generalize (if path = [] then s.sourcePath else path) = resolved
    split
    · rfl
    split
    · rfl
    cases files.content resolved with
    | none => rfl
    | some content => exact hparser _ _ _ _

theorem snapshot_of_rejected {s : ServerConfigStore} {a : Attempt}
    (h : (s.reload a).2.success = false) : (s.reload a).1.snapshot = s.snapshot := by
  obtain ⟨hstore, hsuccess⟩ := s.reload_eq a
  rw [h] at hsuccess
  rw [hstore]
  cases hverdict : s.verdict a with
  | error e => rfl
  | ok published =>
    rw [hverdict] at hsuccess
    cases hsuccess

/-! ### Reports -/

/-- The changed keys fall into the two kinds. -/
structure Reported (o : ConfigReloadOutcome) : Prop where
  union : o.changes.Perm (o.appliedHot ++ o.restartRequired)
  nodup : o.changes.Nodup
  hot : ∀ key ∈ o.appliedHot, isRestartRequired key = false
  restart : ∀ key ∈ o.restartRequired, isRestartRequired key = true

theorem diffEntries_keys (olds news : List (Bytes × Bytes)) :
    ((diffEntries olds news).map Prod.fst).Sublist (olds.map Prod.fst) := by
  fun_induction diffEntries olds news with
  | case1 => exact List.nil_sublist _
  | case2 key old olds key' new news hkey hvalue ih => exact ih.cons_cons key
  | case3 key old olds key' new news hkey hvalue ih => exact ih.cons key
  | case4 => exact List.nil_sublist _

theorem flatten_keys_nodup (c : ServerConfig) : ((flatten c).map Prod.fst).Nodup := by
  have hkeys : (flatten c).map Prod.fst = (flatten {}).map Prod.fst := rfl
  rw [hkeys]
  decide +kernel

theorem reported_publish (s : ServerConfigStore) (candidate : ServerConfig) (rememberPath : Bytes) :
    Reported (s.publish candidate rememberPath).2 := by
  refine ⟨?_, ?_, ?_, ?_⟩
  · exact (List.perm_append_comm.trans (List.filter_append_perm isRestartRequired _)).symm
  · exact (flatten_keys_nodup s.snapshot).sublist (diffEntries_keys _ _)
  · intro key hkey
    have hhot := (List.mem_filter.mp hkey).2
    simpa using hhot
  · intro key hkey
    exact (List.mem_filter.mp hkey).2

theorem reported_rejected (message : Bytes) (generation : ℕ) :
    Reported { message, generation } := by
  refine ⟨List.Perm.nil, List.nodup_nil, ?_, ?_⟩
  all_goals
    intro key hkey
    cases hkey

theorem reported_reload (s : ServerConfigStore) (a : Attempt) : Reported (s.reload a).2 := by
  have hparser : ∀ p label rememberPath files,
      Reported (s.tryReloadFromParser p label rememberPath files).2 := by
    intro p label rememberPath files
    unfold tryReloadFromParser
    cases validated p files with
    | error e => exact reported_rejected _ _
    | ok c => exact reported_publish s c rememberPath
  cases a with
  | parser p label rememberPath files => exact hparser p label rememberPath files
  | file path files =>
    simp only [reload, tryReload]
    generalize (if path = [] then s.sourcePath else path) = resolved
    split
    · exact reported_rejected _ _
    split
    · exact reported_rejected _ _
    cases files.content resolved with
    | none => exact reported_rejected _ _
    | some content => exact hparser _ _ _ _

/-! ### Runs of reloads -/

/-- One attempt: rejected without a trace but the error and its count, or applied as a whole. -/
structure Atomic (s : ServerConfigStore) (a : Attempt) : Prop where
  rejected : (s.reload a).2.success = false → ∃ error, s.verdict a = .error error ∧
    (s.reload a).1 = { s with lastError := error, reloadFailureCount := s.reloadFailureCount + 1 }
  applied : (s.reload a).2.success = true → ∃ c path, s.verdict a = .ok (c, path) ∧
    (s.reload a).1.snapshot = c ∧ (s.reload a).1.lastError = [] ∧
    (s.reload a).1.generation = s.generation + 1 ∧
    (s.reload a).1.reloadSuccessCount = s.reloadSuccessCount + 1 ∧
    (s.reload a).1.reloadFailureCount = s.reloadFailureCount
  reported : Reported (s.reload a).2

theorem atomic_reload (s : ServerConfigStore) (a : Attempt) : Atomic s a := by
  obtain ⟨hstore, hsuccess⟩ := s.reload_eq a
  refine ⟨fun hfalse => ?_, fun htrue => ?_, s.reported_reload a⟩
  · cases hverdict : s.verdict a with
    | error e =>
      rw [hverdict] at hstore
      exact ⟨e, rfl, hstore⟩
    | ok published =>
      rw [hverdict] at hsuccess
      exact absurd (hsuccess.symm.trans hfalse) (by simp [Except.isOk, Except.toBool])
  · cases hverdict : s.verdict a with
    | error e =>
      rw [hverdict] at hsuccess
      exact absurd (hsuccess.symm.trans htrue) (by simp [Except.isOk, Except.toBool])
    | ok published =>
      obtain ⟨c, path⟩ := published
      rw [hverdict] at hstore
      rw [hstore]
      refine ⟨c, path, rfl, ?_, rfl, rfl, rfl, rfl⟩
      simp [snapshot, transact]

/-- Attempts one after the other, with their outcomes. -/
def run (s : ServerConfigStore) : List Attempt → ServerConfigStore × List ConfigReloadOutcome
  | [] => (s, [])
  | a :: attempts =>
    let (s', outcome) := s.reload a
    let (s'', outcomes) := s'.run attempts
    (s'', outcome :: outcomes)

/-- After a run from `s` with these outcomes. -/
structure Ran (s s' : ServerConfigStore) (outcomes : List ConfigReloadOutcome) : Prop where
  generation : s'.generation = s.generation + outcomes.countP fun o => o.success
  successes : s'.reloadSuccessCount = s.reloadSuccessCount + outcomes.countP fun o => o.success
  failures : s'.reloadFailureCount = s.reloadFailureCount + outcomes.countP fun o => !o.success
  kept : s.configs <+: s'.configs

theorem ran_reload (s : ServerConfigStore) (a : Attempt) :
    Ran s (s.reload a).1 [(s.reload a).2] := by
  obtain ⟨hstore, hsuccess⟩ := s.reload_eq a
  rw [hstore]
  cases hverdict : s.verdict a with
  | error e =>
    rw [hverdict] at hsuccess
    have hfalse : (s.reload a).2.success = false := hsuccess
    refine ⟨?_, ?_, ?_, List.prefix_rfl⟩
    all_goals simp [transact, hfalse]
  | ok published =>
    rw [hverdict] at hsuccess
    have htrue : (s.reload a).2.success = true := hsuccess
    refine ⟨?_, ?_, ?_, List.prefix_append ..⟩
    all_goals simp [transact, htrue]

theorem Ran.trans {s s' s'' : ServerConfigStore} {os os' : List ConfigReloadOutcome}
    (h : Ran s s' os) (h' : Ran s' s'' os') : Ran s s'' (os ++ os') := by
  refine ⟨?_, ?_, ?_, h.kept.trans h'.kept⟩
  · rw [h'.generation, h.generation, List.countP_append, Nat.add_assoc]
  · rw [h'.successes, h.successes, List.countP_append, Nat.add_assoc]
  · rw [h'.failures, h.failures, List.countP_append, Nat.add_assoc]

theorem ran_run (s : ServerConfigStore) (attempts : List Attempt) :
    Ran s (s.run attempts).1 (s.run attempts).2 := by
  induction attempts generalizing s with
  | nil => exact ⟨rfl, rfl, rfl, List.prefix_rfl⟩
  | cons a attempts ih => exact (s.ran_reload a).trans (ih (s.reload a).1)

/-- Whatever reloads have been tried: the next one is all or nothing, the counters count the
outcomes, and a snapshot still points to the configuration it was taken of. -/
theorem reload_atomic (s : ServerConfigStore) (attempts : List Attempt) :
    let s' := (s.run attempts).1
    let outcomes := (s.run attempts).2
    (∀ a, Atomic s' a) ∧
    s'.generation = s.generation + outcomes.countP (fun o => o.success) ∧
    s'.reloadSuccessCount = s.reloadSuccessCount + outcomes.countP (fun o => o.success) ∧
    s'.reloadFailureCount = s.reloadFailureCount + outcomes.countP (fun o => !o.success) ∧
    (∀ (pointer : ℕ) config, s.configs[pointer]? = some config → s'.configs[pointer]? = some config) := by
  intro s' outcomes
  have hran := s.ran_run attempts
  refine ⟨s'.atomic_reload, hran.generation, hran.successes, hran.failures, ?_⟩
  intro pointer config hconfig
  obtain ⟨rest, hrest⟩ := hran.kept
  rw [← hrest, List.getElem?_append_left (List.getElem?_eq_some_iff.mp hconfig).1]
  exact hconfig

end ServerConfigStore
end Aevrix.Config
