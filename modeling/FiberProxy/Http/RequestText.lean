/-
  FiberProxy.Http.RequestText

  The text of an upstream HTTP request: `operator<<` for `request_t`
  (HttpProtocolHandler.cpp) and the two functions of `FibpHttpClient` that
  fill a `request_t` and hand its text to the session
  (`send_request`, `send_http_request`).

  `sendRequest_eq` cuts the text into a request line and header lines, whatever
  bytes the path, the query and the host hold.  What a receiver makes of it is in
  `Http.RequestReads`.
-/

import FiberProxy.Front.RequestParser
import FiberProxy.Lib.Http1

namespace FiberProxy.Http

open Lib Lib.Http1

/-- `METHOD_STRING`, indexed by the method. -/
def methodString : Method → Bytes
  | .delete => ascii "DELETE"
  | .get => ascii "GET"
  | .head => ascii "HEAD"
  | .post => ascii "POST"
  | .put => ascii "PUT"

/-- `struct request_t`: the fields its printer reads. -/
structure RequestT where
  httpMajor : Nat := 1
  httpMinor : Nat := 1
  method : Method := .post
  path : Bytes := []
  query : Bytes := []
  headers : List Header := []
  keepAlive : Bool := false
  body : Bytes := []
deriving DecidableEq, Repr

/-- The target as it is printed: the `?` comes with a non-empty query only. -/
def RequestT.target (r : RequestT) : Bytes :=
  r.path ++ if r.query = [] then [] else 63 :: r.query

def headerText (h : Header) : Bytes := h.1 ++ ascii ": " ++ h.2

/-- `operator<<(std::ostringstream&, const request_t&)`. -/
def RequestT.toBytes (r : RequestT) : Bytes :=
  methodString r.method ++ ascii " " ++ r.target ++
    ascii " HTTP/" ++ decimal r.httpMajor ++ ascii "." ++ decimal r.httpMinor ++ crlf ++
    r.headers.flatMap (fun h => headerText h ++ crlf) ++
    (ascii "Content-Length: " ++ decimal r.body.length ++ crlf) ++
    (if r.keepAlive then ascii "Connection: Keep-Alive" ++ crlf
      else ascii "Connection: close" ++ crlf) ++
    crlf ++ r.body

/-- The `Host` value: `session_->host() + ":" + session_->port()`. -/
def hostText (host port : Bytes) : Bytes := host ++ ascii ":" ++ port

/-- `FibpHttpClient::send_http_request` for a session to `host:port`: the
    request after the call (a `Host` header has been pushed on it) and the
    bytes handed to `send_data`. -/
def sendHttpRequest (host port : Bytes) (r : RequestT) : RequestT × Bytes :=
  let r' := { r with headers := r.headers ++ [(ascii "Host", hostText host port)] }
  (r', r'.toBytes)

/-- The path split at its first `?`. -/
def splitQuery (path : Bytes) : Bytes × Bytes :=
  match cut 63 path with
  | none => (path, [])
  | some (p, q) => (p, q)

/-- `FibpHttpClient::send_request`: the bytes handed to the socket. -/
def sendRequest (host port path : Bytes) (method : Method) (reqdata : Bytes) : Bytes :=
  let pq := splitQuery path
  (sendHttpRequest host port
    { method := method, path := pq.1, query := pq.2, keepAlive := true, body := reqdata }).2

/-- The target that is printed for a path. -/
def printedTarget (path : Bytes) : Bytes :=
  RequestT.target { path := (splitQuery path).1, query := (splitQuery path).2 }

theorem splitQuery_of_notMem {path : Bytes} (h : 63 ∉ path) : splitQuery path = (path, []) := by
  rw [splitQuery, cut_eq_none.mpr h]

theorem splitQuery_append {p : Bytes} (h : 63 ∉ p) (q : Bytes) :
    splitQuery (p ++ 63 :: q) = (p, q) := by
  rw [splitQuery, cut_append h]

/-- There is no `?` in a path, or a first one. -/
theorem query_cases (path : Bytes) : 63 ∉ path ∨ ∃ p q, path = p ++ 63 :: q ∧ 63 ∉ p := by
  cases h : cut 63 path with
  | none => exact Or.inl (cut_eq_none.mp h)
  | some pq =>
    obtain ⟨heq, hnot⟩ := cut_eq_some h
    exact Or.inr ⟨pq.1, pq.2, heq, hnot⟩

/-- Printing drops a bare `?`, which is not part of the path. -/
theorem splitQuery_printedTarget (path : Bytes) :
    (splitQuery (printedTarget path)).1 = (splitQuery path).1 := by
  obtain hnot | ⟨p, q, rfl, hp⟩ := query_cases path
  · simp [printedTarget, RequestT.target, splitQuery_of_notMem hnot]
  · by_cases hq : q = []
    · simp [printedTarget, RequestT.target, splitQuery_append hp, hq, splitQuery_of_notMem hp]
    · simp [printedTarget, RequestT.target, splitQuery_append hp, hq]

/-! ## The lines of a request -/

/-- The request line of a version 1.1 request. -/
def requestLine (m : Method) (target : Bytes) : Bytes :=
  methodString m ++ 32 :: (target ++ 32 :: ascii "HTTP/1.1")

/-- The header lines: the ones the `Host` text opens, then the two fixed ones. -/
def requestLines (hostport : Bytes) (n : Nat) : List Bytes :=
  crlfLines (ascii "Host: " ++ hostport) ++
    [ascii "Content-Length: " ++ decimal n, ascii "Connection: Keep-Alive"]

/-- The text handed to the socket, line by line. -/
theorem sendRequest_eq (host port path : Bytes) (m : Method) (data : Bytes) :
    sendRequest host port path m data =
      requestLine m (printedTarget path) ++
        (crlf ++ headerBlock (requestLines (hostText host port) data.length) data) := by
  -- the version is printed from its two numbers
  have h11 (bs : Bytes) : ascii " HTTP/" ++ (decimal 1 ++ (ascii "." ++ (decimal 1 ++ bs))) =
      32 :: (ascii "HTTP/1.1" ++ bs) := rfl
  have hsp : ascii " " = [32] := by decide
  have hhost : headerText (ascii "Host", hostText host port) =
      ascii "Host: " ++ hostText host port := by
    simp only [headerText]
    rfl
  -- one header is printed, but a CR LF in the host makes several lines of it
  have hlines := flatMap_crlfLines (ascii "Host: " ++ hostText host port)
  simp only [sendRequest, sendHttpRequest, RequestT.toBytes, printedTarget, RequestT.target,
    requestLine, headerBlock, requestLines, List.flatMap_append, List.flatMap_cons,
    List.flatMap_nil, hlines, hhost, hsp, h11, List.append_assoc, List.nil_append,
    List.append_nil, if_true, List.cons_append]

end FiberProxy.Http
