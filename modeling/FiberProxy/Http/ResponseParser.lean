/-
  FiberProxy.Http.ResponseParser

  The client's response parser: `http_parser_execute` for responses
  (`fiber-server/http_parser.cpp`, `HTTP_PARSER_STRICT`) with the callbacks of
  `response::parser_impl` (`fiber-server/HttpProtocolHandler.cpp`).

  The parser reads octets.  An octet carries its place in the response that the
  server wrote, so that the texts of status lines and header fields need not be
  read again; what they say stands at the end of the header.  `OctetView` says that
  this is the parser of bytes of `HttpParser`, with each byte seen in its place.  The
  parser does not know the method of the request: a response to HEAD is framed by its
  header like any other.
-/

import FiberProxy.Common.Types
import FiberProxy.Lib.Bytes
import FiberProxy.Lib.Lists

namespace FiberProxy.Http

open Lib

/-- The framing of the body that the header fields announce. -/
inductive Framing where
  | chunked
  | length (n : Nat)
  | unframed
deriving DecidableEq, Repr

/-- What the parser keeps of a header. -/
structure Head where
  code : Nat
  /-- HTTP/1.1 without `Connection: close`, or HTTP/1.0 with `keep-alive`. -/
  persistent : Bool
  /-- There is an `Upgrade` field. -/
  upgrade : Bool
  framing : Framing
deriving DecidableEq, Repr

def Head.interim (h : Head) : Bool := h.code / 100 = 1

/-- `http_message_needs_eof`. -/
def Head.needsEof (h : Head) : Bool :=
  !(h.interim || h.code = 204 || h.code = 304) && h.framing = .unframed

/-- `http_should_keep_alive`. -/
def Head.keepAlive (h : Head) : Bool := h.persistent && !h.needsEof

inductive Octet where
  /-- The `H` that begins a status line. -/
  | start
  /-- An octet of the status line or of a header field.  The parser stops at it with
      an error (`HPE_HEADER_OVERFLOW`) if it is not `ok`. -/
  | head (b : UInt8) (ok : Bool)
  /-- An octet of the reason phrase. -/
  | reason (b : UInt8)
  /-- The LF that ends the header. -/
  | headEnd (h : Head)
  | data (b : UInt8)
  /-- An octet of a chunk's size line, the CRLF after it, or a trailer. -/
  | chunk (b : UInt8)
  /-- The LF that ends a chunked body, and what the trailers leave of `Head.persistent`: they
      may have a `Connection` field too. -/
  | chunksEnd (persistent : Bool)
deriving DecidableEq, Repr

def Octet.byte : Octet → UInt8
  | .start => 72
  | .head b _ | .reason b | .data b | .chunk b => b
  | .headEnd _ | .chunksEnd _ => 10

/-- `parser_.state`, with the header of the message being read and, of the remaining
    `content_length`, what the body still lacks. -/
inductive Parser where
  | start
  | head
  | body (h : Head) (left : Nat)
  | untilEof (h : Head)
  | chunks (h : Head)
  /-- `s_dead`: a message that does not keep the connection alive is over. -/
  | dead
  /-- `http_errno` is set. -/
  | error
deriving DecidableEq, Repr

/-- `struct response_t`: the fields that the client reads. -/
structure Received where
  code : Nat := 504
  statusMessage : Bytes := []
  keepAlive : Bool := false
  body : Bytes := []
deriving DecidableEq, Repr

/-- The fields of `response::parser_impl` that its callbacks write. -/
structure Reception where
  /-- `response_`, the client's `next_rsp_`. -/
  rsp : Received := {}
  /-- `state_ == status`. -/
  inStatus : Bool := false
  shouldContinue : Bool := true
deriving DecidableEq, Repr

namespace Reception

def onMsgBegin (r : Reception) : Reception := { r with rsp := {}, inStatus := false }

def onStatusComplete (r : Reception) (piece : Bytes) : Reception :=
  { r with
    rsp := { r.rsp with
      statusMessage := if r.inStatus then r.rsp.statusMessage ++ piece else piece }
    inStatus := true }

/-- `on_header_field` and `on_header_value`, without the headers. -/
def onHeader (r : Reception) : Reception := { r with inStatus := false }

def onBody (r : Reception) (piece : Bytes) : Reception :=
  { r with rsp := { r.rsp with body := r.rsp.body ++ piece }, inStatus := false }

def onMsgComplete (r : Reception) (code : Nat) (keepAlive : Bool) : Reception :=
  { rsp := { r.rsp with code := code, keepAlive := keepAlive }
    inStatus := false
    shouldContinue := false }

end Reception

/-- `response::parser_impl`. -/
structure ParserImpl extends Reception where
  parser : Parser := .start
deriving DecidableEq, Repr

namespace ParserImpl

def onMsgBegin (i : ParserImpl) : ParserImpl := { i with toReception := i.toReception.onMsgBegin }

def onStatusComplete (i : ParserImpl) (b : UInt8) : ParserImpl :=
  { i with toReception := i.toReception.onStatusComplete [b] }

def onBody (i : ParserImpl) (b : UInt8) : ParserImpl :=
  { i with toReception := i.toReception.onBody [b] }

def onMsgComplete (i : ParserImpl) (h : Head) : ParserImpl :=
  { i with toReception := i.toReception.onMsgComplete h.code h.keepAlive }

/-- The end of a message: `NEW_MESSAGE()` and the callback. -/
def complete (i : ParserImpl) (h : Head) : ParserImpl :=
  { i.onMsgComplete h with parser := if h.keepAlive then .start else .dead }

end ParserImpl

/-- What one octet does to `http_parser_execute`. -/
inductive Fed where
  | next (i : ParserImpl)
  /-- It returns after this octet: the rest belongs to another protocol. -/
  | exit (i : ParserImpl)
  | error (i : ParserImpl)

/-- `s_headers_done`. -/
def headersDone (i : ParserImpl) (h : Head) : Fed :=
  if h.upgrade then .exit (i.complete h)
  else
    match h.framing with
    | .chunked => .next { i with parser := .chunks h }
    | .length 0 => .next (i.complete h)
    | .length (n + 1) => .next { i with parser := .body h (n + 1) }
    | .unframed =>
      if h.needsEof then .next { i with parser := .untilEof h } else .next (i.complete h)

/-- The parser stops at the octet, whatever it is. -/
def Octet.overflows : Octet → Bool
  | .head _ ok => !ok
  | _ => false

/-- `s_start_res`.  `message_begin` is called for a CR and an LF too. -/
def startRes (i : ParserImpl) (c : Octet) : Fed :=
  if c.overflows then .error { i with parser := .error }
  else if c.byte = 72 then .next { i.onMsgBegin with parser := .head }
  else if c.byte = 13 ∨ c.byte = 10 then .next i.onMsgBegin
  else .error { i with parser := .error }

/-- `s_dead`. -/
def deadByte (i : ParserImpl) (c : Octet) : Fed :=
  if c.overflows = false ∧ (c.byte = 13 ∨ c.byte = 10) then .next i
  else .error { i with parser := .error }

/-- One octet.  Inside a header an octet from another place is an error. -/
def feed (i : ParserImpl) (c : Octet) : Fed :=
  match i.parser, c with
  | .start, c => startRes i c
  | .dead, c => deadByte i c
  | .head, .head _ true => .next { i with toReception := i.toReception.onHeader }
  | .head, .reason b => .next (i.onStatusComplete b)
  | .head, .headEnd h => headersDone i h
  | .body h left, c =>
    if left ≤ 1 then .next ((i.onBody c.byte).complete h)
    else .next { i.onBody c.byte with parser := .body h (left - 1) }
  | .untilEof _, c => .next (i.onBody c.byte)
  | .chunks _, .data b => .next (i.onBody b)
  | .chunks _, .chunk _ => .next i
  | .chunks h, .chunksEnd persistent => .next (i.complete { h with persistent := persistent })
  | _, _ => .error { i with parser := .error }

/-- `http_parser_execute`: the parser afterwards and the number of octets it took. -/
def execute : ParserImpl → List Octet → ParserImpl × Nat
  | i, [] => (i, 0)
  | i, c :: cs =>
    match feed i c with
    | .next i' => ((execute i' cs).1, (execute i' cs).2 + 1)
    | .exit i' => (i', 1)
    | .error i' => (i', 0)

/-- `http_parser_execute` with no octets, at the end of the stream. -/
def executeEof (i : ParserImpl) : ParserImpl :=
  match i.parser with
  | .untilEof h => i.onMsgComplete h
  | .start | .dead | .error => i
  | _ => { i with parser := .error }

/-- `http_parser_init`. -/
def ParserImpl.init (i : ParserImpl) : ParserImpl := { i with parser := .start }

/-! ## What a server answers -/

/-- A header up to its last octet. -/
structure HeadText where
  version : Bytes
  reason : Bytes
  fields : List (UInt8 × Bool)

def HeadText.octets (t : HeadText) : List Octet :=
  .start :: (t.version.map (.head · true) ++ t.reason.map .reason ++
    t.fields.map fun f => .head f.1 f.2)

/-- A 1xx response.  It has no body and announces none. -/
structure Interim where
  text : HeadText
  head : Head
  interim : head.interim = true
  bare : head.framing = .unframed

def Interim.octets (m : Interim) : List Octet := m.text.octets ++ [.headEnd m.head]

def Octet.isChunk : Octet → Bool
  | .data _ | .chunk _ => true
  | _ => false

def Octet.content? : Octet → Option UInt8
  | .data b => some b
  | _ => none

/-- The body `octets` carries the content in the framing that the header announces. -/
def FramedAs (framing : Framing) (content : Bytes) (octets : List Octet) : Prop :=
  match framing with
  | .chunked =>
    ∃ cs persistent, octets = cs ++ [.chunksEnd persistent] ∧ (∀ c ∈ cs, c.isChunk = true) ∧
      content = cs.filterMap Octet.content?
  | .length n => octets = content.map .data ∧ content.length = n
  | .unframed => octets = content.map .data

/-- The final response to a request, framed by the HTTP/1.1 rules. -/
structure Final where
  method : Method
  text : HeadText
  head : Head
  content : Bytes
  body : List Octet
  final : head.interim = false
  framed : if method = .head ∨ head.code = 204 ∨ head.code = 304 then content = [] ∧ body = []
    else FramedAs head.framing content body

def Final.octets (f : Final) : List Octet := f.text.octets ++ .headEnd f.head :: f.body

/-- The header with what its trailers add. -/
def Final.lastHead (f : Final) : Head :=
  match f.body.getLast? with
  | some (.chunksEnd persistent) => { f.head with persistent := persistent }
  | _ => f.head

/-- The response as the client should see it. -/
def Final.rsp (f : Final) : Received :=
  { code := f.head.code, statusMessage := f.text.reason, keepAlive := f.lastHead.keepAlive
    body := f.content }

/-- The answer to one request. -/
structure Answer where
  interims : List Interim
  final : Final

def Answer.octets (a : Answer) : List Octet := a.interims.flatMap Interim.octets ++ a.final.octets

/-- The reason phrases of an answer. -/
def Answer.reasons (a : Answer) : List Bytes :=
  a.interims.map (·.text.reason) ++ [a.final.text.reason]

end FiberProxy.Http
