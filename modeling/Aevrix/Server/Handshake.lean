import Aevrix.Config.ServerConfig
import Aevrix.Server.Responses

/-!
# The WebSocket handshake (`websocket_handshake.cpp`)

What the server makes of a request that may be an upgrade, under a configuration.
`computeAccept` is `compute_accept`: the answer to a key, empty when the key is not one.
-/

namespace Aevrix.Server
open Aevrix.Http
open Aevrix.Config (ServerConfig)

/-- `header_has_token` (`websocket_handshake.cpp:270-288`). -/
def headerHasToken (value token : Bytes) : Bool :=
  (value.splitOn 44).any fun part => (trimOws part).map toLower == token.map toLower

/-- `target_path` (`websocket_handshake.cpp:291-294`). -/
def targetPath (target : Bytes) : Bytes := target.takeWhile fun c => decide (c ∉ ascii "?#")

/-- `is_websocket_intent` (`websocket_handshake.cpp:302-304`). -/
def isWebsocketIntent (request : HttpRequest) : Bool :=
  headerHasToken (request.headers.get (ascii "Upgrade")) (ascii "websocket")

/-- `build_switching_protocols` (`websocket_handshake.cpp:318-326`). -/
def buildSwitchingProtocols (accept : Bytes) : Bytes :=
  ascii "HTTP/1.1 101 Switching Protocols\r\n" ++ ascii "Upgrade: websocket\r\n" ++
    ascii "Connection: Upgrade\r\n" ++ (ascii "Sec-WebSocket-Accept: " ++ accept ++ crlf) ++ crlf

/-- The allowlist of origins, when there is one (`websocket_handshake.cpp:385-402`). -/
def originAllowed (request : HttpRequest) (config : ServerConfig) : Bool :=
  let origin := (trimOws (request.headers.get (ascii "Origin"))).map toLower
  config.websocketAllowedOrigins.isEmpty ||
    config.websocketAllowedOrigins.any fun candidate =>
      candidate.map toLower == origin && !origin.isEmpty

/-- `evaluate_upgrade` (`websocket_handshake.cpp:328-408`). -/
def evaluateUpgrade (computeAccept : Bytes → Bytes) (request : HttpRequest)
    (config : ServerConfig) : UpgradeResult :=
  if !config.websocketEnabled then {}
  else if targetPath request.target ∉ config.websocketAllowedPaths then {}
  else if !isWebsocketIntent request then {}
  else if request.method ≠ .get ∨ request.version ≠ ascii "HTTP/1.1" then
    { verdict := .badRequest }
  else if !headerHasToken (request.headers.get (ascii "Connection")) (ascii "upgrade") then
    { verdict := .badRequest }
  else
    let version := trimOws (request.headers.get (ascii "Sec-WebSocket-Version"))
    let key := trimOws (request.headers.get (ascii "Sec-WebSocket-Key"))
    let accept := computeAccept key
    if version = [] then { verdict := .badRequest }
    else if version ≠ ascii "13" then { verdict := .unsupportedVersion }
    else if key = [] then { verdict := .badRequest }
    else if accept = [] then { verdict := .badRequest }
    else if !originAllowed request config then { verdict := .forbiddenOrigin }
    else { verdict := .accepted, accept, response := buildSwitchingProtocols accept }

end Aevrix.Server
