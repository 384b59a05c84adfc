import Aevrix.Http.Header

/-!
# Requests (`http_method.h`, `http_request.h`)
-/

namespace Aevrix.Http

inductive HttpMethod where
  | get | head | post | put | delete | options | patch | unknown
  deriving DecidableEq, Repr

/-- `string_to_http_method`: case-insensitive (`http_method.h:138-155`). -/
def stringToHttpMethod (s : Bytes) : HttpMethod :=
  let upper := s.map toUpper
  if upper = ascii "GET" then .get
  else if upper = ascii "HEAD" then .head
  else if upper = ascii "POST" then .post
  else if upper = ascii "PUT" then .put
  else if upper = ascii "DELETE" then .delete
  else if upper = ascii "OPTIONS" then .options
  else if upper = ascii "PATCH" then .patch
  else .unknown

/-- `http_method_to_string` (`http_method.h:112-124`). -/
def httpMethodToString : HttpMethod → Bytes
  | .get => ascii "GET"
  | .head => ascii "HEAD"
  | .post => ascii "POST"
  | .put => ascii "PUT"
  | .delete => ascii "DELETE"
  | .options => ascii "OPTIONS"
  | .patch => ascii "PATCH"
  | .unknown => ascii "UNKNOWN"

structure HttpRequest where
  method : HttpMethod := .get
  target : Bytes := ascii "/"
  version : Bytes := ascii "HTTP/1.1"
  headers : HttpHeaders := []
  body : Bytes := []
  deriving DecidableEq

namespace HttpRequest

def setHeader (r : HttpRequest) (name value : Bytes) : HttpRequest :=
  { r with headers := r.headers.set name value }
def getHeader (r : HttpRequest) (name : Bytes) : Bytes := r.headers.get name
def hasBody (r : HttpRequest) : Bool := !r.body.isEmpty
/-- `requires_body`: POST, PUT and PATCH (`http_request.h:263-267`). -/
def requiresBody (r : HttpRequest) : Bool :=
  r.method == .post || r.method == .put || r.method == .patch

end HttpRequest
end Aevrix.Http
