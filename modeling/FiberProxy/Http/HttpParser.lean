/-
  FiberProxy.Http.HttpParser

  `http_parser_execute` (`fiber-server/http_parser.cpp`, `HTTP_PARSER_STRICT`), byte by
  byte: the parser of requests on the server's side and of responses on the client's.

  A read hands over some bytes.  For a byte, `feed` is the case of the parser's state;
  `goto reexecute_byte` is a call of the case of the new state.  The bytes of a body are
  taken as many at a time as the read has (`advance`).  What a byte makes the code do with
  its marks and callbacks is a list of acts, which `execute` performs; a mark keeps the
  bytes behind it.

  The callbacks are those of the two `parser_impl` (`HttpProtocolHandler.cpp`): all return
  0, but `on_message_complete` of the requests, whose answers are a parameter.
  `execute` is `none` where an `assert` fails.
-/

import FiberProxy.Http.MessageAssembly
import FiberProxy.Http.UrlParser

namespace FiberProxy.Http.ByteParser

open Lib

/-! ## Characters -/

/-- `IS_NUM`. -/
def isNum (c : UInt8) : Bool := 48 ≤ c && c ≤ 57

/-- `ch - '0'`. -/
def digitOf (c : UInt8) : Nat := c.toNat - 48

/-- `TOKEN`: the lower case of a character of a header name. -/
def token (c : UInt8) : Option UInt8 :=
  if isAlpha c then some (lowerByte c)
  else if isNum c || (ascii "!#$%&'*+-.^_`|~").contains c then some c
  else none

/-- `LOWER`. -/
def lower (c : UInt8) : UInt8 := c ||| 32

/-- `unhex`.  The table has initialisers for 128 of its 256 elements; the others are zero. -/
def unhex (c : UInt8) : Option Nat :=
  if isNum c then some (digitOf c)
  else if 65 ≤ c && c ≤ 70 then some (c.toNat - 55)
  else if 97 ≤ c && c ≤ 102 then some (c.toNat - 87)
  else if 128 ≤ c then some 0
  else none

/-- `ULLONG_MAX`, which says that there is no length. -/
def ullongMax : Nat := 18446744073709551615

/-- `HTTP_MAX_HEADER_SIZE`. -/
def maxHeaderSize : Nat := 80 * 1024

/-! ## The parser -/

/-- `enum http_method`. -/
inductive HttpMethod where
  | delete | get | head | post | put
  | connect | options | trace
  | copy | lock | mkcol | move | propfind | proppatch | search | unlock
  | report | mkactivity | checkout | merge
  | msearch | notify | subscribe | unsubscribe
  | patch | purge | mkcalendar
deriving DecidableEq, Repr

/-- `method_strings`. -/
def HttpMethod.string : HttpMethod → Bytes
  | delete => ascii "DELETE"
  | get => ascii "GET"
  | head => ascii "HEAD"
  | post => ascii "POST"
  | put => ascii "PUT"
  | connect => ascii "CONNECT"
  | options => ascii "OPTIONS"
  | trace => ascii "TRACE"
  | copy => ascii "COPY"
  | lock => ascii "LOCK"
  | mkcol => ascii "MKCOL"
  | move => ascii "MOVE"
  | propfind => ascii "PROPFIND"
  | proppatch => ascii "PROPPATCH"
  | search => ascii "SEARCH"
  | unlock => ascii "UNLOCK"
  | report => ascii "REPORT"
  | mkactivity => ascii "MKACTIVITY"
  | checkout => ascii "CHECKOUT"
  | merge => ascii "MERGE"
  | msearch => ascii "M-SEARCH"
  | notify => ascii "NOTIFY"
  | subscribe => ascii "SUBSCRIBE"
  | unsubscribe => ascii "UNSUBSCRIBE"
  | patch => ascii "PATCH"
  | purge => ascii "PURGE"
  | mkcalendar => ascii "MKCALENDAR"

/-- `enum http_parser_type`. -/
inductive ParserType where
  | request | response | both
deriving DecidableEq, Repr

/-- `enum http_errno`: the values that `http_parser_execute` sets here. -/
inductive HttpErrno where
  | ok
  | cbMessageComplete
  | invalidEofState | headerOverflow | closedConnection
  | invalidVersion | invalidStatus | invalidMethod | invalidUrl
  | lfExpected | invalidHeaderToken | invalidContentLength | invalidChunkSize | invalidConstant
  | strict
deriving DecidableEq, Repr

/-- `enum state`; the states of a target are those of `parse_url_char`. -/
inductive HttpState where
  | dead
  | startReqOrRes | resOrRespH
  | startRes | resH | resHT | resHTT | resHTTP
  | resFirstHttpMajor | resHttpMajor | resFirstHttpMinor | resHttpMinor
  | resFirstStatusCode | resStatusCode | resStatusStart | resStatus | resLineAlmostDone
  | startReq | reqMethod
  | url (u : UrlState)
  | reqHttpStart | reqHttpH | reqHttpHT | reqHttpHTT | reqHttpHTTP
  | reqFirstHttpMajor | reqHttpMajor | reqFirstHttpMinor | reqHttpMinor | reqLineAlmostDone
  | headerFieldStart | headerField
  | headerValueDiscardWs | headerValueDiscardWsAlmostDone | headerValueDiscardLws
  | headerValueStart | headerValue | headerValueLws | headerAlmostDone
  | chunkSizeStart | chunkSize | chunkParameters | chunkSizeAlmostDone
  | headersAlmostDone | headersDone
  | chunkData | chunkDataAlmostDone | chunkDataDone
  | bodyIdentity | bodyIdentityEof
  | messageDone
deriving DecidableEq, Repr

/-- `PARSING_HEADER`. -/
def HttpState.parsingHeader : HttpState → Bool
  | chunkData | chunkDataAlmostDone | chunkDataDone | bodyIdentity | bodyIdentityEof
  | messageDone => false
  | _ => true

/-- `enum header_states`. -/
inductive HeaderState where
  | general
  | c | co | con
  | matchingConnection | matchingProxyConnection | matchingContentLength
  | matchingTransferEncoding | matchingUpgrade
  | connection | contentLength | transferEncoding | upgrade
  | matchingTransferEncodingChunked | matchingConnectionKeepAlive | matchingConnectionClose
  | transferEncodingChunked | connectionKeepAlive | connectionClose
deriving DecidableEq, Repr

/-- `enum flags`. -/
structure Flags where
  chunked : Bool := false
  connectionKeepAlive : Bool := false
  connectionClose : Bool := false
  trailing : Bool := false
  upgrade : Bool := false
  skipbody : Bool := false
deriving DecidableEq, Repr

/-- `struct http_parser`. -/
structure HttpParser where
  type : ParserType
  flags : Flags := {}
  state : HttpState
  headerState : HeaderState := .general
  index : Nat := 0
  nread : Nat := 0
  contentLength : Nat := 0
  httpMajor : Nat := 0
  httpMinor : Nat := 0
  statusCode : Nat := 0
  method : HttpMethod := .delete
  errno : HttpErrno := .ok
  upgrade : Bool := false
deriving DecidableEq, Repr

/-- What is marked. -/
inductive Part where
  | url | status | headerField | headerValue | body
deriving DecidableEq, Repr

inductive Act where
  /-- `MARK`. -/
  | mark (part : Part)
  /-- `CALLBACK_DATA`: the bytes from the mark on. -/
  | data (part : Part)
  | messageBegin
  | headersComplete
  | messageComplete
deriving DecidableEq, Repr

inductive Verdict where
  | next
  /-- `return`: what follows is another protocol. -/
  | exit
  /-- `goto error`. -/
  | error
deriving DecidableEq, Repr

/-- What a byte does: the acts before it is passed, and those that see it behind the
    mark. -/
structure Fed where
  parser : HttpParser
  acts : List Act := []
  late : List Act := []
  verdict : Verdict := .next
deriving DecidableEq, Repr

/-- A message is complete. -/
def Fed.completes (fed : Fed) : Bool :=
  fed.acts.contains .messageComplete || fed.late.contains .messageComplete

namespace HttpParser

/-- `http_parser_init`. -/
def init (t : ParserType) : HttpParser where
  type := t
  state := match t with
    | .request => .startReq
    | .response => .startRes
    | .both => .startReqOrRes

/-- `http_message_needs_eof`. -/
def needsEof (p : HttpParser) : Bool :=
  if p.type = .request then false
  else if p.statusCode / 100 = 1 ∨ p.statusCode = 204 ∨ p.statusCode = 304 ∨ p.flags.skipbody then
    false
  else if p.flags.chunked ∨ p.contentLength ≠ ullongMax then false
  else true

/-- `http_should_keep_alive`. -/
def shouldKeepAlive (p : HttpParser) : Bool :=
  if 0 < p.httpMajor ∧ 0 < p.httpMinor then !p.flags.connectionClose && !p.needsEof
  else p.flags.connectionKeepAlive && !p.needsEof

/-- `start_state`. -/
def startState (p : HttpParser) : HttpState :=
  if p.type = .request then .startReq else .startRes

/-- `NEW_MESSAGE()`. -/
def newMessage (p : HttpParser) : HttpState := if p.shouldKeepAlive then p.startState else .dead

def goto (p : HttpParser) (s : HttpState) : HttpParser := { p with state := s }

def next (p : HttpParser) (acts : List Act) : Fed := { parser := p, acts := acts }

def fail (p : HttpParser) (e : HttpErrno) (acts : List Act) : Fed :=
  { parser := { p with errno := e }, acts := acts, verdict := .error }

/-- `STRICT_CHECK(ch != c)`. -/
def expect (p : HttpParser) (ch c : UInt8) (acts : List Act) (f : Fed) : Fed :=
  if ch = c then f else p.fail .strict acts

/-- `NEW_MESSAGE()` and `on_message_complete`. -/
def complete (p : HttpParser) (acts : List Act) : Fed :=
  (p.goto p.newMessage).next (acts ++ [.messageComplete])

/-! ## The first line -/

/-- The fields that every message begins with. -/
def fresh (p : HttpParser) : HttpParser := { p with flags := {}, contentLength := ullongMax }

/-- The method that begins with a letter. -/
def firstMethod (ch : UInt8) : Option HttpMethod :=
  if ch = 67 then some .connect
  else if ch = 68 then some .delete
  else if ch = 71 then some .get
  else if ch = 72 then some .head
  else if ch = 76 then some .lock
  else if ch = 77 then some .mkcol
  else if ch = 78 then some .notify
  else if ch = 79 then some .options
  else if ch = 80 then some .post
  else if ch = 82 then some .report
  else if ch = 83 then some .subscribe
  else if ch = 84 then some .trace
  else if ch = 85 then some .unlock
  else none

/-- `s_start_req`. -/
def startReq (p : HttpParser) (ch : UInt8) : Fed :=
  if ch = 13 ∨ ch = 10 then p.next []
  else
    match firstMethod ch with
    | none => p.fresh.fail .invalidMethod []
    | some m => { p.fresh with method := m, index := 1, state := .reqMethod }.next [.messageBegin]

/-- The method that a character turns another one into, at its place. -/
def otherMethod (m : HttpMethod) (index : Nat) (ch : UInt8) : Option HttpMethod :=
  match m with
  | .connect =>
    if index = 1 ∧ ch = 72 then some .checkout
    else if index = 2 ∧ ch = 80 then some .copy
    else none
  | .mkcol =>
    if index = 1 ∧ ch = 79 then some .move
    else if index = 1 ∧ ch = 69 then some .merge
    else if index = 1 ∧ ch = 45 then some .msearch
    else if index = 2 ∧ ch = 65 then some .mkactivity
    else if index = 3 ∧ ch = 65 then some .mkcalendar
    else none
  | .subscribe => if index = 1 ∧ ch = 69 then some .search else none
  | .post =>
    if index = 1 ∧ ch = 82 then some .propfind
    else if index = 1 ∧ ch = 85 then some .put
    else if index = 1 ∧ ch = 65 then some .patch
    else none
  | .put => if index = 2 ∧ ch = 82 then some .purge else none
  | .unlock => if index = 2 ∧ ch = 83 then some .unsubscribe else none
  | .propfind => if index = 4 ∧ ch = 80 then some .proppatch else none
  | _ => none

/-- `s_req_method`. -/
def reqMethod (p : HttpParser) (ch : UInt8) : Fed :=
  let after := { p with index := p.index + 1 }
  if ch = 32 ∧ p.index = p.method.string.length then
    (after.goto (.url .spacesBeforeUrl)).next []
  else if p.method.string[p.index]? = some ch then after.next []
  else
    match otherMethod p.method p.index ch with
    | none => p.fail .invalidMethod []
    | some m => { after with method := m }.next []

/-- The states of a target that a blank or the end of the line can end. -/
def endsUrl : UrlState → Bool
  | .spacesBeforeUrl | .schema | .schemaSlash | .schemaSlashSlash | .serverStart => false
  | _ => true

/-- A character of a target. -/
def urlChar (p : HttpParser) (u : UrlState) (ch : UInt8) (acts : List Act) : Fed :=
  match parseUrlChar u ch with
  | none => (p.goto .dead).fail .invalidUrl acts
  | some u => (p.goto (.url u)).next acts

/-- `s_req_spaces_before_url` and the states of a target. -/
def reqUrl (p : HttpParser) (u : UrlState) (ch : UInt8) : Fed :=
  if u = .spacesBeforeUrl then
    if ch = 32 then p.next []
    else p.urlChar (if p.method = .connect then .serverStart else u) ch [.mark .url]
  else if endsUrl u then
    if ch = 32 then (p.goto .reqHttpStart).next [.data .url]
    else if ch = 13 ∨ ch = 10 then
      -- HTTP/0.9
      { p with
        httpMajor := 0
        httpMinor := 9
        state := if ch = 13 then .reqLineAlmostDone else .headerFieldStart }.next [.data .url]
    else p.urlChar u ch []
  else if ch = 32 ∨ ch = 13 ∨ ch = 10 then p.fail .invalidUrl []
  else p.urlChar u ch []

/-- One more digit of the major version. -/
def majorDigit (p : HttpParser) (ch : UInt8) : Fed :=
  if isNum ch then
    let p := { p with httpMajor := p.httpMajor * 10 + digitOf ch }
    if 999 < p.httpMajor then p.fail .invalidVersion [] else p.next []
  else p.fail .invalidVersion []

/-- One more digit of the minor version. -/
def minorDigit (p : HttpParser) (ch : UInt8) : Fed :=
  if isNum ch then
    let p := { p with httpMinor := p.httpMinor * 10 + digitOf ch }
    if 999 < p.httpMinor then p.fail .invalidVersion [] else p.next []
  else p.fail .invalidVersion []

/-- `s_res_status_code`. -/
def resStatusCode (p : HttpParser) (ch : UInt8) : Fed :=
  if isNum ch then
    let p := { p with statusCode := p.statusCode * 10 + digitOf ch }
    if 999 < p.statusCode then p.fail .invalidStatus [] else p.next []
  else if ch = 32 then (p.goto .resStatusStart).next []
  else if ch = 13 then (p.goto .resLineAlmostDone).next []
  else if ch = 10 then (p.goto .headerFieldStart).next []
  else p.fail .invalidStatus []

/-! ## The header -/

/-- One more character of a word that is being matched. -/
def matching (p : HttpParser) (word : Bytes) (found : HeaderState) (c : UInt8) : HttpParser :=
  let p := { p with index := p.index + 1 }
  if word[p.index]? ≠ some c then { p with headerState := .general }
  else if p.index + 1 = word.length then { p with headerState := found }
  else p

/-- `s_headers_done`. -/
def headersDone (p : HttpParser) (ch : UInt8) (acts : List Act) : Fed :=
  let q := { p with nread := 0 }
  p.expect ch 10 acts <|
    if q.upgrade then { q.complete acts with verdict := .exit }
    else if q.flags.skipbody then q.complete acts
    else if q.flags.chunked then (q.goto .chunkSizeStart).next acts
    else if q.contentLength = 0 then q.complete acts
    else if q.contentLength ≠ ullongMax then (q.goto .bodyIdentity).next acts
    else if q.type = .request ∨ q.needsEof = false then q.complete acts
    else (q.goto .bodyIdentityEof).next acts

/-- `s_headers_almost_done`. -/
def headersAlmostDone (p : HttpParser) (ch : UInt8) (acts : List Act) : Fed :=
  let q := { p with
    state := .headersDone, upgrade := p.flags.upgrade || p.method == HttpMethod.connect }
  p.expect ch 10 acts <|
    if p.flags.trailing then p.complete acts else q.headersDone ch (acts ++ [Act.headersComplete])

/-- Which names may begin with a letter. -/
def firstHeaderState (c : UInt8) : HeaderState :=
  if c = 99 then .c
  else if c = 112 then .matchingProxyConnection
  else if c = 116 then .matchingTransferEncoding
  else if c = 117 then .matchingUpgrade
  else .general

/-- `s_header_field_start`. -/
def headerFieldStart (p : HttpParser) (ch : UInt8) (acts : List Act) : Fed :=
  if ch = 13 then (p.goto .headersAlmostDone).next acts
  else if ch = 10 then (p.goto .headersAlmostDone).headersAlmostDone ch acts
  else
    match token ch with
    | none => p.fail .invalidHeaderToken acts
    | some c =>
      let q := { p with index := 0, state := .headerField, headerState := firstHeaderState c }
      q.next (acts ++ [.mark .headerField])

/-- One more character of a header name. -/
def matchName (p : HttpParser) (ch c : UInt8) : HttpParser :=
  match p.headerState with
  | .general => p
  | .c => { p with index := p.index + 1, headerState := if c = 111 then .co else .general }
  | .co => { p with index := p.index + 1, headerState := if c = 110 then .con else .general }
  | .con =>
    { p with
      index := p.index + 1
      headerState :=
        if c = 110 then .matchingConnection
        else if c = 116 then .matchingContentLength
        else .general }
  | .matchingConnection => p.matching (ascii "connection") .connection c
  | .matchingProxyConnection => p.matching (ascii "proxy-connection") .connection c
  | .matchingContentLength => p.matching (ascii "content-length") .contentLength c
  | .matchingTransferEncoding => p.matching (ascii "transfer-encoding") .transferEncoding c
  | .matchingUpgrade => p.matching (ascii "upgrade") .upgrade c
  | .connection | .contentLength | .transferEncoding | .upgrade =>
    if ch = 32 then p else { p with headerState := .general }
  -- `assert(0 && "Unknown header_state")`
  | _ => p

/-- `s_header_field`. -/
def headerField (p : HttpParser) (ch : UInt8) : Fed :=
  match token ch with
  | some c => (p.matchName ch c).next []
  | none =>
    if ch = 58 then (p.goto .headerValueDiscardWs).next [.data .headerField]
    else if ch = 13 then (p.goto .headerAlmostDone).next [.data .headerField]
    else if ch = 10 then (p.goto .headerFieldStart).next [.data .headerField]
    else p.fail .invalidHeaderToken []

/-- `s_header_value_start`. -/
def headerValueStart (p : HttpParser) (ch : UInt8) : Fed :=
  let p := { p with state := .headerValue, index := 0 }
  match p.headerState with
  | .upgrade =>
    { p with flags := { p.flags with upgrade := true }, headerState := .general }.next
      [.mark .headerValue]
  | .transferEncoding =>
    { p with
      headerState :=
        if lower ch = 99 then .matchingTransferEncodingChunked else .general }.next
      [.mark .headerValue]
  | .contentLength =>
    if isNum ch then { p with contentLength := digitOf ch }.next [.mark .headerValue]
    else p.fail .invalidContentLength [.mark .headerValue]
  | .connection =>
    { p with
      headerState :=
        if lower ch = 107 then .matchingConnectionKeepAlive
        else if lower ch = 99 then .matchingConnectionClose
        else .general }.next [.mark .headerValue]
  | _ => { p with headerState := .general }.next [.mark .headerValue]

/-- `s_header_value_discard_ws`. -/
def headerValueDiscardWs (p : HttpParser) (ch : UInt8) : Fed :=
  if ch = 32 ∨ ch = 9 then p.next []
  else if ch = 13 then (p.goto .headerValueDiscardWsAlmostDone).next []
  else if ch = 10 then (p.goto .headerValueDiscardLws).next []
  else p.headerValueStart ch

/-- `s_header_almost_done`. -/
def headerAlmostDone (p : HttpParser) (ch : UInt8) (acts : List Act) : Fed :=
  p.expect ch 10 acts ((p.goto .headerValueLws).next acts)

/-- One more digit of a length. -/
def lengthDigit (p : HttpParser) (ch : UInt8) : Fed :=
  if ch = 32 then p.next []
  else if isNum ch then
    if (ullongMax - 10) / 10 < p.contentLength then p.fail .invalidContentLength []
    else { p with contentLength := p.contentLength * 10 + digitOf ch }.next []
  else p.fail .invalidContentLength []

/-- `s_header_value`. -/
def headerValue (p : HttpParser) (ch : UInt8) : Fed :=
  if ch = 13 then (p.goto .headerAlmostDone).next [.data .headerValue]
  else if ch = 10 then (p.goto .headerAlmostDone).headerAlmostDone ch [.data .headerValue]
  else
    match p.headerState with
    | .general => p.next []
    | .contentLength => p.lengthDigit ch
    | .matchingTransferEncodingChunked =>
      (p.matching (ascii "chunked") .transferEncodingChunked (lower ch)).next []
    | .matchingConnectionKeepAlive =>
      (p.matching (ascii "keep-alive") .connectionKeepAlive (lower ch)).next []
    | .matchingConnectionClose =>
      (p.matching (ascii "close") .connectionClose (lower ch)).next []
    | .transferEncodingChunked | .connectionKeepAlive | .connectionClose =>
      (if ch = 32 then p else { p with headerState := .general }).next []
    -- `assert(0 && "Shouldn't get here.")`
    | .connection | .transferEncoding => p.next []
    | _ => { p with headerState := .general }.next []

/-- The flag of a header that is over. -/
def headerFlags (p : HttpParser) : Flags :=
  match p.headerState with
  | .connectionKeepAlive => { p.flags with connectionKeepAlive := true }
  | .connectionClose => { p.flags with connectionClose := true }
  | .transferEncodingChunked => { p.flags with chunked := true }
  | _ => p.flags

/-- `s_header_value_lws`. -/
def headerValueLws (p : HttpParser) (ch : UInt8) : Fed :=
  if ch = 32 ∨ ch = 9 then p.headerValueStart ch
  else { p with flags := p.headerFlags, state := .headerFieldStart }.headerFieldStart ch []

/-- `s_header_value_discard_lws`. -/
def headerValueDiscardLws (p : HttpParser) (ch : UInt8) : Fed :=
  if ch = 32 ∨ ch = 9 then (p.goto .headerValueDiscardWs).next []
  else
    -- the value was empty
    (p.goto .headerFieldStart).headerFieldStart ch [.mark .headerValue, .data .headerValue]

/-! ## Chunks -/

/-- `s_chunk_size_start`. -/
def chunkSizeStart (p : HttpParser) (ch : UInt8) : Fed :=
  match unhex ch with
  | none => p.fail .invalidChunkSize []
  | some v => { p with contentLength := v, state := .chunkSize }.next []

/-- `s_chunk_size`. -/
def chunkSize (p : HttpParser) (ch : UInt8) : Fed :=
  if ch = 13 then (p.goto .chunkSizeAlmostDone).next []
  else
    match unhex ch with
    | none =>
      if ch = 59 ∨ ch = 32 then (p.goto .chunkParameters).next []
      else p.fail .invalidChunkSize []
    | some v =>
      if (ullongMax - 16) / 16 < p.contentLength then p.fail .invalidContentLength []
      else { p with contentLength := p.contentLength * 16 + v }.next []

/-- `s_chunk_size_almost_done`. -/
def chunkSizeAlmostDone (p : HttpParser) (ch : UInt8) : Fed :=
  p.expect ch 10 [] <|
    if p.contentLength = 0 then
      { p with
        nread := 0
        flags := { p.flags with trailing := true }
        state := .headerFieldStart }.next []
    else { p with nread := 0, state := .chunkData }.next []

/-! ## A byte -/

/-- The cases of the `switch` on the state, but those of a body. -/
def feed (p : HttpParser) (ch : UInt8) : Fed :=
  match p.state with
  | .dead => if ch = 13 ∨ ch = 10 then p.next [] else p.fail .closedConnection []
  | .startReqOrRes =>
    if ch = 13 ∨ ch = 10 then p.next []
    else if ch = 72 then (p.fresh.goto .resOrRespH).next [.messageBegin]
    else { p.fresh with type := .request, state := .startReq }.startReq ch
  | .resOrRespH =>
    if ch = 84 then { p with type := .response, state := .resHT }.next []
    else if ch = 69 then
      { p with type := .request, method := .head, index := 2, state := .reqMethod }.next []
    else p.fail .invalidConstant []
  | .startRes =>
    if ch = 72 then (p.fresh.goto .resH).next [.messageBegin]
    else if ch = 13 ∨ ch = 10 then p.fresh.next [.messageBegin]
    else p.fresh.fail .invalidConstant []
  | .resH => p.expect ch 84 [] ((p.goto .resHT).next [])
  | .resHT => p.expect ch 84 [] ((p.goto .resHTT).next [])
  | .resHTT => p.expect ch 80 [] ((p.goto .resHTTP).next [])
  | .resHTTP => p.expect ch 47 [] ((p.goto .resFirstHttpMajor).next [])
  | .resFirstHttpMajor =>
    if isNum ch then { p with httpMajor := digitOf ch, state := .resHttpMajor }.next []
    else p.fail .invalidVersion []
  | .resHttpMajor =>
    if ch = 46 then (p.goto .resFirstHttpMinor).next [] else p.majorDigit ch
  | .resFirstHttpMinor =>
    if isNum ch then { p with httpMinor := digitOf ch, state := .resHttpMinor }.next []
    else p.fail .invalidVersion []
  | .resHttpMinor =>
    if ch = 32 then (p.goto .resFirstStatusCode).next [] else p.minorDigit ch
  | .resFirstStatusCode =>
    if isNum ch then { p with statusCode := digitOf ch, state := .resStatusCode }.next []
    else if ch = 32 then p.next []
    else p.fail .invalidStatus []
  | .resStatusCode => p.resStatusCode ch
  | .resStatusStart =>
    if ch = 13 then (p.goto .resLineAlmostDone).next []
    else if ch = 10 then (p.goto .headerFieldStart).next []
    else { p with state := .resStatus, index := 0 }.next [.mark .status]
  | .resStatus =>
    if ch = 13 then (p.goto .resLineAlmostDone).next [.data .status]
    else if ch = 10 then (p.goto .headerFieldStart).next [.data .status]
    else p.next []
  | .resLineAlmostDone => p.expect ch 10 [] ((p.goto .headerFieldStart).next [])
  | .startReq => p.startReq ch
  | .reqMethod => p.reqMethod ch
  | .url u => p.reqUrl u ch
  | .reqHttpStart =>
    if ch = 72 then (p.goto .reqHttpH).next []
    else if ch = 32 then p.next []
    else p.fail .invalidConstant []
  | .reqHttpH => p.expect ch 84 [] ((p.goto .reqHttpHT).next [])
  | .reqHttpHT => p.expect ch 84 [] ((p.goto .reqHttpHTT).next [])
  | .reqHttpHTT => p.expect ch 80 [] ((p.goto .reqHttpHTTP).next [])
  | .reqHttpHTTP => p.expect ch 47 [] ((p.goto .reqFirstHttpMajor).next [])
  | .reqFirstHttpMajor =>
    if 49 ≤ ch ∧ ch ≤ 57 then { p with httpMajor := digitOf ch, state := .reqHttpMajor }.next []
    else p.fail .invalidVersion []
  | .reqHttpMajor =>
    if ch = 46 then (p.goto .reqFirstHttpMinor).next [] else p.majorDigit ch
  | .reqFirstHttpMinor =>
    if isNum ch then { p with httpMinor := digitOf ch, state := .reqHttpMinor }.next []
    else p.fail .invalidVersion []
  | .reqHttpMinor =>
    if ch = 13 then (p.goto .reqLineAlmostDone).next []
    else if ch = 10 then (p.goto .headerFieldStart).next []
    else p.minorDigit ch
  | .reqLineAlmostDone =>
    if ch = 10 then (p.goto .headerFieldStart).next [] else p.fail .lfExpected []
  | .headerFieldStart => p.headerFieldStart ch []
  | .headerField => p.headerField ch
  | .headerValueDiscardWs => p.headerValueDiscardWs ch
  | .headerValueStart => p.headerValueStart ch
  | .headerValue => p.headerValue ch
  | .headerAlmostDone => p.headerAlmostDone ch []
  | .headerValueLws => p.headerValueLws ch
  | .headerValueDiscardWsAlmostDone =>
    p.expect ch 10 [] ((p.goto .headerValueDiscardLws).next [])
  | .headerValueDiscardLws => p.headerValueDiscardLws ch
  | .headersAlmostDone => p.headersAlmostDone ch []
  | .headersDone => p.headersDone ch []
  | .messageDone => p.complete []
  | .chunkSizeStart => p.chunkSizeStart ch
  | .chunkSize => p.chunkSize ch
  | .chunkParameters => if ch = 13 then (p.goto .chunkSizeAlmostDone).next [] else p.next []
  | .chunkSizeAlmostDone => p.chunkSizeAlmostDone ch
  | .chunkDataAlmostDone =>
    p.expect ch 13 [] ((p.goto .chunkDataDone).next [.data .body])
  | .chunkDataDone =>
    p.expect ch 10 [] ({ p with nread := 0, state := .chunkSizeStart }.next [])
  -- `advance` takes these
  | .bodyIdentity | .bodyIdentityEof | .chunkData => p.next []

/-- The assertions of the cases. -/
def asserts (p : HttpParser) (ch : UInt8) : Bool :=
  match p.state with
  | .headerField =>
    token ch = none ||
      match p.headerState with
      | .matchingTransferEncodingChunked | .matchingConnectionKeepAlive
      | .matchingConnectionClose | .transferEncodingChunked | .connectionKeepAlive
      | .connectionClose => false
      | _ => true
  | .headerValue =>
    ch = 13 || ch = 10 || (p.headerState ≠ .connection && p.headerState ≠ .transferEncoding)
  | .bodyIdentity => p.contentLength ≠ 0 && p.contentLength ≠ ullongMax
  | .chunkSizeStart => p.nread = 1 && p.flags.chunked
  | .chunkSize | .chunkParameters | .chunkSizeAlmostDone | .chunkDataDone => p.flags.chunked
  | .chunkData => p.flags.chunked && p.contentLength ≠ 0 && p.contentLength ≠ ullongMax
  | .chunkDataAlmostDone => p.flags.chunked && p.contentLength = 0
  | _ => true

/-- `s_body_identity`, with `n` bytes of the body. -/
def bodyIdentity (p : HttpParser) (n : Nat) : Fed :=
  let p := { p with contentLength := p.contentLength - n }
  if p.contentLength = 0 then
    { parser := p.goto p.newMessage
      acts := [.mark .body]
      late := [.data .body, .messageComplete] }
  else p.next [.mark .body]

/-- `s_chunk_data`, with `n` bytes of the chunk. -/
def chunkData (p : HttpParser) (n : Nat) : Fed :=
  let p := { p with contentLength := p.contentLength - n }
  (if p.contentLength = 0 then p.goto .chunkDataAlmostDone else p).next [.mark .body]

/-- A byte with `avail - 1` more behind it: how many are taken, and what they do. -/
def advance (p : HttpParser) (ch : UInt8) (avail : Nat) : Nat × Fed :=
  match p.state with
  | .bodyIdentity => (min p.contentLength avail, p.bodyIdentity (min p.contentLength avail))
  | .bodyIdentityEof => (avail, p.next [.mark .body])
  | .chunkData => (min p.contentLength avail, p.chunkData (min p.contentLength avail))
  | _ => (1, p.feed ch)

/-- `++parser->nread`, in a header. -/
def count (p : HttpParser) : HttpParser :=
  if p.state.parsingHeader then { p with nread := p.nread + 1 } else p

def overflows (p : HttpParser) : Bool := p.state.parsingHeader && maxHeaderSize < p.nread

end HttpParser

/-! ## A read -/

/-- A call of the parser into its user. -/
inductive Event where
  | messageBegin
  | data (part : Part) (piece : Bytes)
  | headersComplete
  /-- The callback looks at the parser. -/
  | messageComplete (p : HttpParser)
deriving DecidableEq, Repr

/-- The bytes behind each mark. -/
abbrev Marks := Part → Option Bytes

namespace Marks

def set (m : Marks) (part : Part) : Marks :=
  if (m part).isSome then m else Function.update m part (some [])

/-- The read goes on by some bytes. -/
def pass (m : Marks) (bs : Bytes) : Marks := fun part => (m part).map (· ++ bs)

/-- The data callback, if there is a mark. -/
def call (m : Marks) (part : Part) : Marks × List Event :=
  match m part with
  | none => (m, [])
  | some piece => (Function.update m part none, [.data part piece])

def perform (p : HttpParser) (m : Marks) : List Act → Marks × List Event
  | [] => (m, [])
  | .mark part :: acts => perform p (m.set part) acts
  | .data part :: acts =>
    let (m, es) := m.call part
    let (m, es') := perform p m acts
    (m, es ++ es')
  | .messageBegin :: acts => ((perform p m acts).1, .messageBegin :: (perform p m acts).2)
  | .headersComplete :: acts => ((perform p m acts).1, .headersComplete :: (perform p m acts).2)
  | .messageComplete :: acts =>
    ((perform p m acts).1, .messageComplete p :: (perform p m acts).2)

/-- The marks at the beginning of a read. -/
def start (s : HttpState) : Marks := fun part =>
  match s, part with
  | .headerField, .headerField | .headerValue, .headerValue | .resStatus, .status => some []
  | .url u, .url => if u = .spacesBeforeUrl then none else some []
  | _, _ => none

def parts : List Part := [.headerField, .headerValue, .url, .body, .status]

/-- The callbacks for the marks that are left. -/
def leftover (m : Marks) : List Event := parts.flatMap fun part => (m.call part).2

end Marks

/-- What `http_parser_execute` leaves: the parser, its callbacks, the number of bytes it
    returns and of messages completed so far. -/
structure Outcome where
  parser : HttpParser
  events : List Event
  parsed : Nat
  completed : Nat
deriving DecidableEq, Repr

/-- The same, after some callbacks and bytes. -/
def Outcome.after (o : Outcome) (es : List Event) (n : Nat) : Outcome :=
  { o with events := es ++ o.events, parsed := n + o.parsed }

/-- The loop over the bytes of a read.  `answer k` is what `on_message_complete` says to
    the `k`-th message. -/
def executeLoop (answer : Nat → Bool) (p : HttpParser) (m : Marks) (k : Nat) :
    Bytes → Option Outcome
  | [] =>
    if 1 < Marks.parts.countP fun part => (m part).isSome then none
    else some ⟨p, m.leftover, 0, k⟩
  | b :: bs =>
    let p := p.count
    if p.overflows then some ⟨{ p with errno := .headerOverflow }, [], 0, k⟩
    else if p.asserts b = false then none
    else
      let (n, fed) := p.advance b (bs.length + 1)
      let (m, es) := Marks.perform fed.parser m fed.acts
      if fed.verdict = .error then some ⟨fed.parser, es, 0, k⟩
      else
        let (m, es') := Marks.perform fed.parser (m.pass ((b :: bs).take n)) fed.late
        let k' := if fed.completes then k + 1 else k
        if fed.completes && !answer k then
          some ⟨{ fed.parser with errno := .cbMessageComplete }, es ++ es', n, k'⟩
        else if fed.verdict = .exit then some ⟨fed.parser, es ++ es', n, k'⟩
        else
          (executeLoop answer fed.parser m k' (bs.drop (n - 1))).map fun o =>
            o.after (es ++ es') n
termination_by data => data.length
decreasing_by
  simp only [List.length_drop, List.length_cons]
  omega

/-- `http_parser_execute`. -/
def HttpParser.execute (answer : Nat → Bool) (p : HttpParser) (k : Nat) (data : Bytes) :
    Option Outcome :=
  if p.errno ≠ .ok then some ⟨p, [], 0, k⟩
  else if data = [] then
    match p.state with
    | .bodyIdentityEof =>
      some ⟨if answer k then p else { p with errno := .cbMessageComplete },
        [.messageComplete p], 0, k + 1⟩
    | .dead | .startReqOrRes | .startRes | .startReq => some ⟨p, [], 0, k⟩
    | _ => some ⟨{ p with errno := .invalidEofState }, [], 1, k⟩
  else executeLoop answer p (Marks.start p.state) k data

end FiberProxy.Http.ByteParser
