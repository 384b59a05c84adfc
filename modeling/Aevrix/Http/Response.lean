import Aevrix.Http.RequestParser

/-!
# Responses and their wire form (`http_status.h`, `http_response.h`, `http_response_serializer.h`)

A status is any 16-bit number: the server casts upstream and worker codes to
`StatusCode`, and the names below are the ones it writes itself.
-/

namespace Aevrix.Http

/-- `StatusCode`, an enumeration with a fixed underlying type. -/
abbrev StatusCode := UInt16

namespace StatusCode

def ok : StatusCode := 200
def badRequest : StatusCode := 400
def unauthorized : StatusCode := 401
def forbidden : StatusCode := 403
def notFound : StatusCode := 404
def upgradeRequired : StatusCode := 426
def notImplemented : StatusCode := 501
def badGateway : StatusCode := 502
def serviceUnavailable : StatusCode := 503
def gatewayTimeout : StatusCode := 504

end StatusCode

/-- `status_code_to_string` (`http_status.h:228-260`). -/
def statusCodeToString (status : StatusCode) : Bytes := match status with
  | 200 => ascii "OK"
  | 201 => ascii "Created"
  | 204 => ascii "No Content"
  | 301 => ascii "Moved Permanently"
  | 302 => ascii "Found"
  | 304 => ascii "Not Modified"
  | 400 => ascii "Bad Request"
  | 401 => ascii "Unauthorized"
  | 403 => ascii "Forbidden"
  | 404 => ascii "Not Found"
  | 405 => ascii "Method Not Allowed"
  | 409 => ascii "Conflict"
  | 413 => ascii "Content Too Large"
  | 429 => ascii "Too Many Requests"
  | 426 => ascii "Upgrade Required"
  | 500 => ascii "Internal Server Error"
  | 501 => ascii "Not Implemented"
  | 502 => ascii "Bad Gateway"
  | 503 => ascii "Service Unavailable"
  | 504 => ascii "Gateway Timeout"
  | _ => ascii "Unknown"

inductive ConnectionPolicy where
  | keepAlive | close
  deriving DecidableEq, Repr

structure HttpResponse where
  version : Bytes := ascii "HTTP/1.1"
  status : StatusCode := .ok
  headers : HttpHeaders := []
  body : Bytes := []
  connectionPolicy : ConnectionPolicy := .keepAlive
  headOnly : Bool := false

/-- `HttpHeaders::remove`. -/
def HttpHeaders.remove (hs : HttpHeaders) (name : Bytes) : HttpHeaders :=
  hs.eraseP fun h => h.normalizedName == HttpHeader.normalizeName name

namespace HttpResponse

def setHeader (r : HttpResponse) (name value : Bytes) : HttpResponse :=
  { r with headers := r.headers.set name value }
def removeHeader (r : HttpResponse) (name : Bytes) : HttpResponse :=
  { r with headers := r.headers.remove name }
def setHeadOnly (r : HttpResponse) (headOnly : Bool) : HttpResponse := { r with headOnly }
def hasBody (r : HttpResponse) : Bool := !r.body.isEmpty

/-- `update_content_length` (`http_response.h:453-460`). -/
def updateContentLength (r : HttpResponse) : HttpResponse :=
  if r.hasBody then r.setHeader (ascii "Content-Length") (decimalText r.body.length)
  else r.removeHeader (ascii "Content-Length")

def setBody (r : HttpResponse) (body : Bytes) : HttpResponse :=
  { r with body }.updateContentLength

/-- `HttpResponse(status, body)`. -/
def ofBody (status : StatusCode) (body : Bytes) : HttpResponse :=
  { status : HttpResponse }.setBody body

def setConnectionPolicy (r : HttpResponse) (connectionPolicy : ConnectionPolicy) : HttpResponse :=
  { r with connectionPolicy }.setHeader (ascii "Connection") (match connectionPolicy with
    | .keepAlive => ascii "keep-alive"
    | .close => ascii "close")

/-- `is_valid` (`http_response.h:493-518`): a Content-Length that `stoul` cannot read
is invalid, as is one other than the body's length unless the response is to HEAD. -/
def isValid (r : HttpResponse) : Bool :=
  let contentLengthStr := r.headers.get (ascii "Content-Length")
  r.headers.all HttpHeader.isValid &&
    (contentLengthStr == [] || match stoul contentLengthStr with
      | none => false
      | some contentLength => contentLength == r.body.length || r.headOnly)

end HttpResponse

namespace HttpResponseSerializer

def buildStatusLine (r : HttpResponse) : Bytes :=
  r.version ++ ascii " " ++ decimalText r.status.toNat ++ ascii " " ++ statusCodeToString r.status

def buildHeaderLine (h : HttpHeader) : Bytes := h.name ++ ascii ": " ++ h.value

/-- `serialize` (`http_response_serializer.h:150-177`): nothing for an invalid response. -/
def serialize (r : HttpResponse) : Bytes :=
  if r.isValid then
    headBlock (buildStatusLine r) (r.headers.map buildHeaderLine) ++
      if r.hasBody && !r.headOnly then r.body else []
  else []

end HttpResponseSerializer
end Aevrix.Http
