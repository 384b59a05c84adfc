import Aevrix.Config.Parser

/-!
# The server configuration (`server_config.h`, `server_config.cpp`, `logger.cpp`)

Every value of `ServerConfig` with its default, and `load_from_parser` in a build with TLS. A
text goes through a getter with the old value as its default, then a cast to the type of the
field; validation comes last and sees the cast values.
-/

namespace Aevrix.Config

structure ServerConfig where
  headerTimeoutMs : UInt64 := 10000
  bodyTimeoutMs : UInt64 := 30000
  keepAliveTimeoutMs : UInt64 := 5000
  writeTimeoutMs : UInt64 := 30000
  maxConnections : UInt32 := 1000
  maxBufferSize : UInt32 := 65536
  maxRequestBody : UInt32 := 10485760
  host : Bytes := ascii "127.0.0.1"
  port : UInt16 := 8080
  workers : UInt32 := 4
  documentRoot : Bytes := ascii "./public"
  tlsEnabled : Bool := false
  tlsCertFile : Bytes := []
  tlsKeyFile : Bytes := []
  tlsMinVersion : Bytes := []
  tlsMaxVersion : Bytes := []
  tlsPort : UInt16 := 443
  proxyEnabled : Bool := false
  proxyPass : Bytes := []
  proxyPrefix : Bytes := ascii "/proxy"
  proxyStripPrefix : Bool := true
  proxyConnectTimeoutMs : UInt64 := 5000
  proxyReadTimeoutMs : UInt64 := 30000
  proxyMaxIdleConnections : UInt32 := 4
  proxyMaxResponseBytes : UInt32 := 4194304
  proxyIdleTimeoutMs : UInt64 := 60000
  websocketEnabled : Bool := false
  websocketAllowedPaths : List Bytes := [ascii "/ws"]
  websocketMaxMessageBytes : UInt32 := 1048576
  websocketCloseTimeoutMs : UInt64 := 5000
  websocketPingIntervalMs : UInt64 := 0
  websocketAllowedOrigins : List Bytes := []
  logLevel : Bytes := ascii "info"
  adminApiEnabled : Bool := false
  adminToken : Bytes := []
  deriving DecidableEq

/-- `split_csv` (`server_config.cpp:18-37`). -/
def splitCsv (value : Bytes) : List Bytes :=
  ((value.splitOn 44).map trimOws).filter fun entry => !entry.isEmpty

/-- `join_csv` (`server_config.cpp:39-48`). -/
def joinCsv (values : List Bytes) : Bytes := [44].intercalate values

/-- `static_cast<int64_t>` of an unsigned field. -/
def toSigned (n : ℕ) : ℤ := Int.bmod n (2 ^ 64)

/-- `level_from_string`, then `level_to_string` (`logger.cpp:28-57`). -/
def canonicalLevel (name : Bytes) : Option Bytes :=
  let lowered := trimOws (name.map toLower)
  if lowered = ascii "debug" then some (ascii "debug")
  else if lowered = ascii "info" then some (ascii "info")
  else if lowered = ascii "warn" then some (ascii "warn")
  else if lowered = ascii "error" ∨ lowered = ascii "err" then some (ascii "error")
  else none

namespace ServerConfig

/-- `load_from_parser` as far as the TLS keys (`server_config.cpp:156-187`). -/
def loadServer (c : ServerConfig) (p : ConfigParser) : ServerConfig :=
  { c with
    host := p.getString (ascii "host") c.host
    port := .ofInt (p.getInt (ascii "port") (toSigned c.port.toNat))
    workers := .ofInt (p.getInt (ascii "workers") (toSigned c.workers.toNat))
    documentRoot := p.getString (ascii "document_root") c.documentRoot
    headerTimeoutMs := .ofInt (p.getInt (ascii "header_timeout_ms") (toSigned c.headerTimeoutMs.toNat))
    bodyTimeoutMs := .ofInt (p.getInt (ascii "body_timeout_ms") (toSigned c.bodyTimeoutMs.toNat))
    keepAliveTimeoutMs :=
      .ofInt (p.getInt (ascii "keep_alive_timeout_ms") (toSigned c.keepAliveTimeoutMs.toNat))
    writeTimeoutMs := .ofInt (p.getInt (ascii "write_timeout_ms") (toSigned c.writeTimeoutMs.toNat))
    maxConnections := .ofInt (p.getInt (ascii "max_connections") (toSigned c.maxConnections.toNat))
    maxBufferSize := .ofInt (p.getInt (ascii "max_buffer_size") (toSigned c.maxBufferSize.toNat))
    maxRequestBody := .ofInt (p.getInt (ascii "max_request_body") (toSigned c.maxRequestBody.toNat))
    tlsEnabled := p.getBool (ascii "tls_enabled") c.tlsEnabled
    tlsCertFile := p.getString (ascii "tls_cert_file") c.tlsCertFile
    tlsKeyFile := p.getString (ascii "tls_key_file") c.tlsKeyFile
    tlsMinVersion := p.getString (ascii "tls_min_version") c.tlsMinVersion
    tlsMaxVersion := p.getString (ascii "tls_max_version") c.tlsMaxVersion
    tlsPort := .ofInt (p.getInt (ascii "tls_port") (toSigned c.tlsPort.toNat)) }

/-- `server_config.cpp:189-200`. -/
def checkTls (c : ServerConfig) : Except Bytes Unit :=
  if c.tlsEnabled then
    if c.tlsCertFile = [] then .error (ascii "TLS enabled but tls_cert_file not specified")
    else if c.tlsKeyFile = [] then .error (ascii "TLS enabled but tls_key_file not specified")
    else if c.tlsPort = 0 then .error (ascii "Invalid tls_port: must be positive")
    else .ok ()
  else .ok ()

/-- The proxy, WebSocket and runtime keys (`server_config.cpp:203-232`). -/
def loadFeatures (c : ServerConfig) (p : ConfigParser) : ServerConfig :=
  { c with
    proxyEnabled := p.getBool (ascii "proxy_enabled") c.proxyEnabled
    proxyPass := p.getString (ascii "proxy_pass") c.proxyPass
    proxyPrefix := p.getString (ascii "proxy_prefix") c.proxyPrefix
    proxyStripPrefix := p.getBool (ascii "proxy_strip_prefix") c.proxyStripPrefix
    proxyConnectTimeoutMs :=
      .ofInt (p.getInt (ascii "proxy_connect_timeout_ms") (toSigned c.proxyConnectTimeoutMs.toNat))
    proxyReadTimeoutMs :=
      .ofInt (p.getInt (ascii "proxy_read_timeout_ms") (toSigned c.proxyReadTimeoutMs.toNat))
    proxyMaxIdleConnections := .ofInt
      (p.getInt (ascii "proxy_max_idle_connections") (toSigned c.proxyMaxIdleConnections.toNat))
    proxyMaxResponseBytes :=
      .ofInt (p.getInt (ascii "proxy_max_response_bytes") (toSigned c.proxyMaxResponseBytes.toNat))
    proxyIdleTimeoutMs :=
      .ofInt (p.getInt (ascii "proxy_idle_timeout_ms") (toSigned c.proxyIdleTimeoutMs.toNat))
    websocketEnabled := p.getBool (ascii "websocket_enabled") c.websocketEnabled
    websocketAllowedPaths :=
      splitCsv (p.getString (ascii "websocket_paths") (joinCsv c.websocketAllowedPaths))
    websocketMaxMessageBytes := .ofInt
      (p.getInt (ascii "websocket_max_message_bytes") (toSigned c.websocketMaxMessageBytes.toNat))
    websocketCloseTimeoutMs := .ofInt
      (p.getInt (ascii "websocket_close_timeout_ms") (toSigned c.websocketCloseTimeoutMs.toNat))
    websocketPingIntervalMs := .ofInt
      (p.getInt (ascii "websocket_ping_interval_ms") (toSigned c.websocketPingIntervalMs.toNat))
    websocketAllowedOrigins :=
      splitCsv (p.getString (ascii "websocket_allowed_origins") (joinCsv c.websocketAllowedOrigins))
    logLevel := p.getString (ascii "log_level") c.logLevel
    adminApiEnabled := p.getBool (ascii "admin_api_enabled") c.adminApiEnabled
    adminToken := p.getString (ascii "admin_token") c.adminToken }

/-- The log level under its canonical name (`server_config.cpp:234-243`). -/
def checkLogLevel (c : ServerConfig) : Except Bytes ServerConfig :=
  match canonicalLevel c.logLevel with
  | some level => .ok { c with logLevel := level }
  | none => .error (ascii "Invalid log_level: '" ++ c.logLevel ++
      ascii "' (expected debug, info, warn or error)")

/-- `server_config.cpp:245-254`. -/
def checkProxy (c : ServerConfig) : Except Bytes Unit :=
  if c.proxyEnabled then
    if c.proxyPass = [] then .error (ascii "Proxy enabled but proxy_pass not specified")
    else if c.proxyPrefix.head? ≠ some 47 then
      .error (ascii "proxy_prefix must be an absolute path (e.g. /proxy)")
    else .ok ()
  else .ok ()

/-- `server_config.cpp:256-272`. -/
def checkWebsocket (c : ServerConfig) : Except Bytes Unit :=
  if c.websocketEnabled then
    if c.websocketAllowedPaths = [] then
      .error (ascii "WebSocket enabled but websocket_paths is empty")
    else if c.websocketAllowedPaths.any fun path => path.head? != some 47 then
      .error (ascii "websocket_paths entries must be absolute paths (e.g. /ws)")
    else if c.websocketMaxMessageBytes = 0 then
      .error (ascii "Invalid websocket_max_message_bytes: must be positive")
    else if c.websocketCloseTimeoutMs = 0 then
      .error (ascii "Invalid websocket_close_timeout_ms: must be positive")
    else .ok ()
  else .ok ()

/-- `server_config.cpp:274-309`. -/
def checkServer (c : ServerConfig) : Except Bytes Unit :=
  if c.port = 0 then .error (ascii "Invalid port: " ++ decimalText c.port.toNat)
  else if c.workers = 0 then .error (ascii "Invalid workers: must be at least 1")
  else if c.headerTimeoutMs = 0 then .error (ascii "Invalid header_timeout_ms: must be positive")
  else if c.bodyTimeoutMs = 0 then .error (ascii "Invalid body_timeout_ms: must be positive")
  else if c.keepAliveTimeoutMs = 0 then
    .error (ascii "Invalid keep_alive_timeout_ms: must be positive")
  else if c.writeTimeoutMs = 0 then .error (ascii "Invalid write_timeout_ms: must be positive")
  else if c.maxConnections = 0 then .error (ascii "Invalid max_connections: must be at least 1")
  else if c.maxBufferSize = 0 then .error (ascii "Invalid max_buffer_size: must be positive")
  else if c.maxRequestBody = 0 then .error (ascii "Invalid max_request_body: must be positive")
  else .ok ()

/-- `load_from_parser` (`server_config.cpp:156-313`); an exception is an error with its text. -/
def loadFromParser (c : ServerConfig) (p : ConfigParser) : Except Bytes ServerConfig := do
  let c := c.loadServer p
  c.checkTls
  let c ← (c.loadFeatures p).checkLogLevel
  c.checkProxy
  c.checkWebsocket
  c.checkServer
  return c

theorem loadFromParser_eq {c c' : ServerConfig} {p : ConfigParser}
    (h : c.loadFromParser p = .ok c') : ∃ level, canonicalLevel
      ((c.loadServer p).loadFeatures p).logLevel = some level ∧
      c' = { (c.loadServer p).loadFeatures p with logLevel := level } := by
  simp only [loadFromParser, bind, Except.bind, pure, Except.pure] at h
  split at h
  · cases h
  · split at h
    · cases h
    · rename_i checked hlevel
      have hresult : checked = c' := by
        split at h
        · cases h
        · split at h
          · cases h
          · split at h
            · cases h
            · exact Except.ok.inj h
      rw [checkLogLevel] at hlevel
      split at hlevel
      · rename_i level hname
        exact ⟨level, hname, by rw [← hresult]; exact (Except.ok.inj hlevel).symm⟩
      · cases hlevel

/-! ### The printed configuration -/

/-- One line of `summary`. -/
def summaryLine (label value : Bytes) : Bytes :=
  ascii "  " ++ label ++ ascii ": " ++ value ++ ascii "\n"

def enabledText (value : Bool) : Bytes := ascii (if value then "enabled" else "disabled")
def yesText (value : Bool) : Bytes := ascii (if value then "yes" else "no")

/-- The TLS part of `summary`. -/
def tlsSummary (c : ServerConfig) : Bytes :=
  summaryLine (ascii "TLS enabled") (yesText c.tlsEnabled) ++
  if c.tlsEnabled then
    summaryLine (ascii "TLS certificate") c.tlsCertFile ++
    summaryLine (ascii "TLS private key") c.tlsKeyFile ++
    (if c.tlsMinVersion = [] then [] else summaryLine (ascii "TLS min version") c.tlsMinVersion) ++
    (if c.tlsMaxVersion = [] then [] else summaryLine (ascii "TLS max version") c.tlsMaxVersion) ++
    summaryLine (ascii "TLS port") (decimalText c.tlsPort.toNat)
  else []

/-- The proxy part of `summary`. -/
def proxySummary (c : ServerConfig) : Bytes :=
  summaryLine (ascii "Proxy enabled") (yesText c.proxyEnabled) ++
  if c.proxyEnabled then
    summaryLine (ascii "Proxy pass") c.proxyPass ++
    summaryLine (ascii "Proxy prefix") (c.proxyPrefix ++
      ascii (if c.proxyStripPrefix then " (prefix stripped)" else " (prefix preserved)")) ++
    summaryLine (ascii "Proxy connect timeout")
      (decimalText c.proxyConnectTimeoutMs.toNat ++ ascii " ms") ++
    summaryLine (ascii "Proxy read timeout")
      (decimalText c.proxyReadTimeoutMs.toNat ++ ascii " ms") ++
    summaryLine (ascii "Proxy max idle connections")
      (decimalText c.proxyMaxIdleConnections.toNat) ++
    summaryLine (ascii "Proxy max response")
      (decimalText c.proxyMaxResponseBytes.toNat ++ ascii " bytes")
  else []

/-- The WebSocket part of `summary`. -/
def websocketSummary (c : ServerConfig) : Bytes :=
  summaryLine (ascii "WebSocket enabled") (yesText c.websocketEnabled) ++
  if c.websocketEnabled then
    summaryLine (ascii "WebSocket paths") ((ascii ", ").intercalate c.websocketAllowedPaths) ++
    summaryLine (ascii "WebSocket max message")
      (decimalText c.websocketMaxMessageBytes.toNat ++ ascii " bytes") ++
    summaryLine (ascii "WebSocket close timeout")
      (decimalText c.websocketCloseTimeoutMs.toNat ++ ascii " ms") ++
    summaryLine (ascii "WebSocket ping interval")
      (decimalText c.websocketPingIntervalMs.toNat ++ ascii " ms") ++
    summaryLine (ascii "WebSocket allowed origins")
      (if c.websocketAllowedOrigins = [] then ascii "(any)"
        else decimalText c.websocketAllowedOrigins.length)
  else []

/-- `summary` (`server_config.cpp:92-154`). -/
def summary (c : ServerConfig) : Bytes :=
  ascii "Server Configuration:\n" ++
  summaryLine (ascii "Host") c.host ++
  summaryLine (ascii "Port") (decimalText c.port.toNat) ++
  summaryLine (ascii "Workers") (decimalText c.workers.toNat) ++
  summaryLine (ascii "Document root") c.documentRoot ++
  summaryLine (ascii "Log level") c.logLevel ++
  summaryLine (ascii "Admin API") (enabledText c.adminApiEnabled) ++
  summaryLine (ascii "Header timeout") (decimalText c.headerTimeoutMs.toNat ++ ascii " ms") ++
  summaryLine (ascii "Body timeout") (decimalText c.bodyTimeoutMs.toNat ++ ascii " ms") ++
  summaryLine (ascii "Keep-alive timeout") (decimalText c.keepAliveTimeoutMs.toNat ++ ascii " ms") ++
  summaryLine (ascii "Write timeout") (decimalText c.writeTimeoutMs.toNat ++ ascii " ms") ++
  summaryLine (ascii "Max connections") (decimalText c.maxConnections.toNat) ++
  summaryLine (ascii "Max buffer size") (decimalText c.maxBufferSize.toNat ++ ascii " bytes (" ++
    decimalText (c.maxBufferSize.toNat / 1024) ++ ascii " KB)") ++
  summaryLine (ascii "Max request body") (decimalText c.maxRequestBody.toNat ++ ascii " bytes (" ++
    decimalText (c.maxRequestBody.toNat / 1024 / 1024) ++ ascii " MB)") ++
  c.tlsSummary ++ c.proxySummary ++ c.websocketSummary

end ServerConfig
end Aevrix.Config
