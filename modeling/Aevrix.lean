import Aevrix.Incremental.Machine
import Aevrix.Incremental.Lines
import Aevrix.Incremental.Reader
import Aevrix.Incremental.BigEndian
import Aevrix.Incremental.Splits
import Aevrix.Pipeline.Slots
import Aevrix.Keyed.Pairs
import Aevrix.Custody.Ledger
import Aevrix.Concurrent.Monitor
import Aevrix.Concurrent.Channel
import Aevrix.Concurrent.Wakeups
import Aevrix.Concurrent.Doorbell
import Aevrix.Http.Bytes
import Aevrix.Http.Header
import Aevrix.Http.Request
import Aevrix.Http.RequestParser
import Aevrix.Http.Response
import Aevrix.Http.RequestMachine
import Aevrix.Http.RequestSegmentation
import Aevrix.Http.RequestHead
import Aevrix.Http.RequestFraming
import Aevrix.Http.Pipelining
import Aevrix.Http.RequestGrammar
import Aevrix.Http.StoredRequest
import Aevrix.Proxy.ResponseParser
import Aevrix.Proxy.ResponseMachine
import Aevrix.Proxy.ResponseRefinement
import Aevrix.Proxy.ResponseSegmentation
import Aevrix.Proxy.ResponseHead
import Aevrix.Proxy.Tokens
import Aevrix.Proxy.ResponseMessage
import Aevrix.Proxy.Truncation
import Aevrix.Proxy.Interim
import Aevrix.Proxy.UpstreamPool
import Aevrix.Proxy.Handler
import Aevrix.Proxy.Reuse
import Aevrix.Proxy.ResponseFraming
import Aevrix.Proxy.StoredFields
import Aevrix.Proxy.RequestBuilder
import Aevrix.Proxy.UpstreamRequest
import Aevrix.Proxy.Lifecycle
import Aevrix.Proxy.IdleCap
import Aevrix.Proxy.Steps
import Aevrix.Proxy.Completion
import Aevrix.Proxy.Admission
import Aevrix.Config.Parser
import Aevrix.Config.ServerConfig
import Aevrix.Proxy.PoolLedger
import Aevrix.Config.Written
import Aevrix.Config.Store
import Aevrix.Config.Diff
import Aevrix.Filesystem.Path
import Aevrix.Filesystem.Tree
import Aevrix.Static.FileServer
import Aevrix.Static.UrlDecode
import Aevrix.Server.Connection
import Aevrix.Server.Responses
import Aevrix.Server.EventLoop
import Aevrix.Server.Delivery
import Aevrix.Server.Relay
import Aevrix.Server.Routes
import Aevrix.Static.FilesystemWorker
import Aevrix.Server.SelfDelimiting
import Aevrix.Server.ResponseText
import Aevrix.Server.KeepAlive
import Aevrix.Server.AnnouncedClose
import Aevrix.Server.HeadRequests
import Aevrix.Server.FileDelivery
import Aevrix.Ws.Frame
import Aevrix.Ws.FrameCodec
import Aevrix.Ws.Utf8
import Aevrix.Ws.Canonical
import Aevrix.Ws.Connection
import Aevrix.Ws.SessionSteps
import Aevrix.Ws.SessionSegmentation
import Aevrix.Ws.Echo
import Aevrix.Ws.Output
import Aevrix.Ws.Undrained
import Aevrix.Ws.CloseHandshake
import Aevrix.Ws.ClosePayload
import Aevrix.Ws.Memory
import Aevrix.Server.Websocket
import Aevrix.Server.WebsocketEnd
import Aevrix.Server.Handshake
import Aevrix.Server.Program
import Aevrix.Server.AdminReload
import Aevrix.Server.HotKeys
import Aevrix.Server.ConnectionManager
import Aevrix.Server.DescriptorOwners
import Aevrix.Server.Deadlines
import Aevrix.Worker.BoundedQueue
import Aevrix.Worker.Pool
import Aevrix.Worker.CompletionHandler
import Aevrix.Server.Attribution
import Aevrix.Proxy.FinalHead
import Aevrix.Proxy.TransferCodings
import Aevrix.Proxy.ParserMemory
import Aevrix.Proxy.HeadBudget
import Aevrix.Http.RequestLimits
import Aevrix.Http.RequestLines
import Aevrix.Http.LongLines
import Aevrix.Server.FieldLines
import Aevrix.Server.Nominated
import Aevrix.Proxy.Routing
import Aevrix.Proxy.TargetText
import Aevrix.Http.Range
import Aevrix.Calendar.Gregorian
import Aevrix.Http.Date
import Aevrix.Http.Setters
import Aevrix.Http.ResponseWire
import Aevrix.Http.ResponseLength
import Aevrix.Server.CloseTokens
import Aevrix.Incremental.Search
import Aevrix.Incremental.Blocks
import Aevrix.Config.CsvLists
import Aevrix.Digest.Sha1
import Aevrix.Digest.Words
import Aevrix.Ws.Sha1
import Aevrix.Ws.Base64
import Aevrix.Statistics.Ranks
import Aevrix.Statistics.History
import Aevrix.Observability.Metrics
import Aevrix.Descriptors.UniqueFd
import Aevrix.Proxy.Descriptors
import Aevrix.Proxy.Sending
import Aevrix.Proxy.Waiting
import Aevrix.Concurrent.Latch
import Aevrix.Server.SighupReload
import Aevrix.Server.Dispatch
import Aevrix.Server.TlsHandshake
import Aevrix.Server.Upgrade
import Aevrix.Concurrent.Effort
import Aevrix.Worker.PoolProgress
import Aevrix.Isolation.Purge
import Aevrix.Server.AdminAccess
import Aevrix.Server.Eviction
import Aevrix.Worker.FileService
import Aevrix.Config.ConfigFile
import Aevrix.Config.Reread
