/-
  FiberProxy.Http.ResponseText

  The texts of the responses that the server side writes: `operator<<` for
  `response_t` (HttpProtocolHandler.cpp), the response that
  `HttpConnection::write_rsp` builds, and the fixed error responses.
-/

import FiberProxy.Lib.Http1

namespace FiberProxy.Http

open Lib Lib.Http1

/-- `struct response_t`: the fields its printer reads. -/
structure ResponseT where
  code : Nat := 504
  statusMessage : Bytes := []
  headers : List Header := []
  body : Bytes := []
deriving DecidableEq, Repr

/-- The size of the buffer that `operator<<` prints the length into. -/
def lengthBufSize : Nat := 10

/-- `operator<<(std::ostream&, response_t&)`. -/
def ResponseT.toBytes (r : ResponseT) : Bytes :=
  ascii "HTTP/1.1 " ++ decimal r.code ++ ascii " " ++
    (if r.statusMessage ≠ [] then r.statusMessage else ascii " " ++ crlf) ++
    r.headers.flatMap (fun h => h.1 ++ ascii ": " ++ h.2 ++ crlf) ++
    (if r.headers.any (isNamed "server") then [] else ascii "Server: FibpServer 1.0" ++ crlf) ++
    (if r.headers.any (isNamed "content-length") then []
      else ascii "Content-Length: " ++ decimal r.body.length ++ crlf) ++
    crlf ++ r.body

/-- The text that `write_rsp` sends for a handled request, `body` being what the
    handler or the JSON writer left in `rsp_.body_`. -/
def rspText (keepAlive : Bool) (body : Bytes) : Bytes :=
  ResponseT.toBytes {
    code := 200
    headers := (ascii "ContentType", ascii "application/json") ::
      if keepAlive then
        [(ascii "Connection", ascii "keep-alive"), (ascii "Keep-Alive", ascii "timeout=100")]
      else [(ascii "Connection", ascii "close")]
    body := body }

/-- The error responses, by their first line. -/
inductive ErrorRsp where
  | badRequest | notFound | internalServerError
deriving DecidableEq, Repr

def ErrorRsp.firstLine : ErrorRsp → Bytes
  | .badRequest => ascii "HTTP/1.1 400 Bad Request"
  | .notFound => ascii "HTTP/1.1 404 Not Found"
  | .internalServerError => ascii "HTTP/1.1 500 Internal Server Error"

/-- The text that `write_error_rsp` sends. -/
def ErrorRsp.text (e : ErrorRsp) : Bytes :=
  e.firstLine ++ crlf ++ ascii "Content-Length: 0" ++ crlf ++ crlf

end FiberProxy.Http
