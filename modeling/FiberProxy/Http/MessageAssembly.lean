/-
  FiberProxy.Http.MessageAssembly

  How the callbacks of the two parsers build a message: `request::parser_impl` and
  `response::parser_impl` (`fiber-server/HttpProtocolHandler.cpp`).  `http_parser` hands
  over a url or status text, a header name or value, or a body in as many pieces as the
  reads cut it into.  Whether a piece goes on with the last one or begins a new part is
  decided by `state_`, which every callback sets.

  The message that is built does not depend on the cuts (`completed_pieces`).
-/

import FiberProxy.Lib.Http1
import FiberProxy.Lib.Run

namespace FiberProxy.Http

open Lib Lib.Http1

/-- A call of `http_parser` into its user. -/
inductive Callback where
  | msgBegin
  | url (piece : Bytes)
  | status (piece : Bytes)
  | headerField (piece : Bytes)
  | headerValue (piece : Bytes)
  | headersComplete
  | body (piece : Bytes)
  | msgComplete
deriving DecidableEq, Repr

/-- `parser_state` of both parsers; `url` is the request parser's, `status` the response
    parser's. -/
inductive PartState where
  | none | start | url | status | field | value | body | finished
deriving DecidableEq, Repr

/-- The message under construction. -/
structure Assembly where
  /-- `url_` of the request parser, `status_message_` of the response parser. -/
  text : Bytes := []
  headers : List Header := []
  body : Bytes := []
  /-- `state_`. -/
  state : PartState := .none
deriving DecidableEq, Repr

namespace Assembly

def onMsgBegin (_ : Assembly) : Assembly := { state := .start }

/-- A piece of the text of the first line. -/
def onText (part : PartState) (m : Assembly) (piece : Bytes) : Assembly :=
  { m with text := if m.state = part then m.text ++ piece else piece, state := part }

def onUrl : Assembly → Bytes → Assembly := onText .url

def onStatusComplete : Assembly → Bytes → Assembly := onText .status

/-- `headers_.rbegin()`, changed by `f`; there is none if the list is empty. -/
def modifyLast (m : Assembly) (f : Header → Header) : Option (List Header) :=
  m.headers.getLast?.map fun h => m.headers.dropLast ++ [f h]

def onHeaderField (m : Assembly) (piece : Bytes) : Option Assembly :=
  if m.state = .field then
    (m.modifyLast fun h => (h.1 ++ piece, h.2)).map fun hs =>
      { m with headers := hs, state := .field }
  else some { m with headers := m.headers ++ [(piece, [])], state := .field }

def onHeaderValue (m : Assembly) (piece : Bytes) : Option Assembly :=
  (m.modifyLast fun h => (h.1, if m.state = .value then h.2 ++ piece else piece)).map fun hs =>
    { m with headers := hs, state := .value }

def onBody (m : Assembly) (piece : Bytes) : Assembly :=
  { m with body := m.body ++ piece, state := .body }

def onMsgComplete (m : Assembly) : Assembly := { m with state := .finished }

end Assembly

/-- The callbacks of `request::parser_impl`. -/
def requestCallback (m : Assembly) : Callback → Option Assembly
  | .msgBegin => some m.onMsgBegin
  | .url piece => some (m.onUrl piece)
  | .status _ => some m
  | .headerField piece => m.onHeaderField piece
  | .headerValue piece => m.onHeaderValue piece
  | .headersComplete => some m
  | .body piece => some (m.onBody piece)
  | .msgComplete => some m.onMsgComplete

/-- The callbacks of `response::parser_impl`. -/
def responseCallback (m : Assembly) : Callback → Option Assembly
  | .msgBegin => some m.onMsgBegin
  | .url _ => some m
  | .status piece => some (m.onStatusComplete piece)
  | .headerField piece => m.onHeaderField piece
  | .headerValue piece => m.onHeaderValue piece
  | .headersComplete => some m
  | .body piece => some (m.onBody piece)
  | .msgComplete => some m.onMsgComplete

/-- Which of the parsers. -/
inductive Side where
  | request | response
deriving DecidableEq, Repr

def Side.callback : Side → Assembly → Callback → Option Assembly
  | .request => requestCallback
  | .response => responseCallback

/-- The callback for the text of the first line. -/
def Side.textCallback : Side → Bytes → Callback
  | .request => .url
  | .response => .status

def Side.textState : Side → PartState
  | .request => .url
  | .response => .status

/-- The messages that are complete, as the parser's user sees them in `on_msg_complete`. -/
def completed (side : Side) : Assembly → List Callback → Option (List Assembly)
  | _, [] => some []
  | m, cb :: cbs =>
    (side.callback m cb).bind fun m' =>
      (completed side m' cbs).map fun ms => if cb = .msgComplete then m' :: ms else ms

/-! ## Messages and their pieces -/

/-- The parts of a message. -/
structure Parts where
  text : Bytes
  headers : List Header
  body : Bytes
  trailers : List Header
deriving DecidableEq, Repr

/-- The message when it is complete. -/
def Parts.message (m : Parts) : Assembly where
  text := m.text
  headers := m.headers ++ m.trailers
  body := m.body
  state := .finished

/-- The pieces of a header. -/
structure HeaderPieces where
  name : List Bytes
  value : List Bytes
deriving DecidableEq, Repr

namespace HeaderPieces

def header (p : HeaderPieces) : Header := (p.name.flatten, p.value.flatten)

def callbacks (p : HeaderPieces) : List Callback :=
  p.name.map .headerField ++ p.value.map .headerValue

/-- There is a callback for the name and one for the value, if only with an empty piece. -/
def Announced (p : HeaderPieces) : Prop := p.name ≠ [] ∧ p.value ≠ []

instance (p : HeaderPieces) : Decidable p.Announced := inferInstanceAs (Decidable (_ ∧ _))

end HeaderPieces

/-- The pieces of a message. -/
structure Pieces where
  text : List Bytes
  headers : List HeaderPieces
  body : List Bytes
  trailers : List HeaderPieces
deriving DecidableEq, Repr

namespace Pieces

/-- The message that was cut into these pieces. -/
def parts (p : Pieces) : Parts where
  text := p.text.flatten
  headers := p.headers.map HeaderPieces.header
  body := p.body.flatten
  trailers := p.trailers.map HeaderPieces.header

def callbacks (side : Side) (p : Pieces) : List Callback :=
  .msgBegin :: p.text.map side.textCallback ++ p.headers.flatMap HeaderPieces.callbacks ++
    .headersComplete :: p.body.map .body ++ p.trailers.flatMap HeaderPieces.callbacks ++
    [.msgComplete]

def Announced (p : Pieces) : Prop := ∀ h ∈ p.headers ++ p.trailers, h.Announced

instance (p : Pieces) : Decidable p.Announced := inferInstanceAs (Decidable (∀ _ ∈ _, _))

end Pieces

/-- The message in one piece each. -/
def Parts.whole (m : Parts) : Pieces where
  text := [m.text]
  headers := m.headers.map fun h => ⟨[h.1], [h.2]⟩
  body := [m.body]
  trailers := m.trailers.map fun h => ⟨[h.1], [h.2]⟩

/-! ## One part -/

section Part

variable (side : Side) {m : Assembly} {ps : List Bytes}

@[simp] theorem callback_msgBegin : side.callback m .msgBegin = some m.onMsgBegin := by
  cases side <;> rfl

@[simp] theorem callback_text (piece : Bytes) :
    side.callback m (side.textCallback piece) = some (m.onText side.textState piece) := by
  cases side <;> rfl

@[simp] theorem callback_headerField (piece : Bytes) :
    side.callback m (.headerField piece) = m.onHeaderField piece := by cases side <;> rfl

@[simp] theorem callback_headerValue (piece : Bytes) :
    side.callback m (.headerValue piece) = m.onHeaderValue piece := by cases side <;> rfl

@[simp] theorem callback_headersComplete : side.callback m .headersComplete = some m := by
  cases side <;> rfl

@[simp] theorem callback_body (piece : Bytes) :
    side.callback m (.body piece) = some (m.onBody piece) := by cases side <;> rfl

@[simp] theorem callback_msgComplete : side.callback m .msgComplete = some m.onMsgComplete := by
  cases side <;> rfl

/-- Pieces of a text that has begun. -/
theorem run_text_more (hm : m.state = side.textState) :
    run side.callback m (ps.map side.textCallback) =
      some { m with text := m.text ++ ps.flatten } := by
  induction ps generalizing m with
  | nil => simp
  | cons p ps ih =>
    rw [List.map_cons, run_cons, callback_text, Option.bind_some, ih rfl]
    simp [Assembly.onText, hm]

/-- The text of a message that has begun. -/
theorem run_text (hm : m.state = .start) (htext : m.text = []) :
    ∃ state, state ≠ .field ∧ run side.callback m (ps.map side.textCallback) =
      some { m with text := ps.flatten, state := state } := by
  have hstart : PartState.start ≠ side.textState := by cases side <;> decide
  have hfield : side.textState ≠ .field := by cases side <;> decide
  cases ps with
  | nil => exact ⟨.start, by decide, by simp [← hm, ← htext]⟩
  | cons p ps =>
    refine ⟨side.textState, hfield, ?_⟩
    rw [List.map_cons, run_cons, callback_text, Option.bind_some, run_text_more side rfl]
    simp [Assembly.onText, hm, hstart]

/-- Pieces of a name that has begun. -/
theorem run_name_more {hs : List Header} {h : Header} (hm : m.state = .field)
    (hheaders : m.headers = hs ++ [h]) :
    run side.callback m (ps.map .headerField) =
      some { m with headers := hs ++ [(h.1 ++ ps.flatten, h.2)] } := by
  induction ps generalizing m h with
  | nil => simp [← hheaders]
  | cons p ps ih =>
    have hstep : m.onHeaderField p =
        some { m with headers := hs ++ [(h.1 ++ p, h.2)], state := .field } := by
      simp [Assembly.onHeaderField, Assembly.modifyLast, hm, hheaders]
    rw [List.map_cons, run_cons, callback_headerField, hstep, Option.bind_some, ih rfl rfl]
    simp [hm]

/-- Pieces of a value that has begun. -/
theorem run_value_more {hs : List Header} {h : Header} (hm : m.state = .value)
    (hheaders : m.headers = hs ++ [h]) :
    run side.callback m (ps.map .headerValue) =
      some { m with headers := hs ++ [(h.1, h.2 ++ ps.flatten)] } := by
  induction ps generalizing m h with
  | nil => simp [← hheaders]
  | cons p ps ih =>
    have hstep : m.onHeaderValue p =
        some { m with headers := hs ++ [(h.1, h.2 ++ p)], state := .value } := by
      simp [Assembly.onHeaderValue, Assembly.modifyLast, hm, hheaders]
    rw [List.map_cons, run_cons, callback_headerValue, hstep, Option.bind_some, ih rfl rfl]
    simp [hm]

/-- A header, after anything but a name. -/
theorem run_header {p : HeaderPieces} (hp : p.Announced) (hm : m.state ≠ .field) :
    run side.callback m p.callbacks =
      some { m with headers := m.headers ++ [p.header], state := .value } := by
  obtain ⟨n, ns, hname⟩ := List.exists_cons_of_ne_nil hp.1
  obtain ⟨v, vs, hvalue⟩ := List.exists_cons_of_ne_nil hp.2
  have hfield : m.onHeaderField n =
      some { m with headers := m.headers ++ [(n, [])], state := .field } := if_neg hm
  have hfirst (name : Bytes) : ({ m with headers := m.headers ++ [(name, [])], state := .field } :
      Assembly).onHeaderValue v =
        some { m with headers := m.headers ++ [(name, v)], state := .value } := by
    simp [Assembly.onHeaderValue, Assembly.modifyLast]
  rw [HeaderPieces.callbacks, HeaderPieces.header, hname, hvalue, run_append, List.map_cons,
    List.map_cons, run_cons, callback_headerField, hfield, Option.bind_some,
    run_name_more side rfl rfl, Option.bind_some, run_cons, callback_headerValue, hfirst,
    Option.bind_some, run_value_more side rfl rfl]
  rfl

theorem run_headers {hs : List HeaderPieces} (hhs : ∀ h ∈ hs, h.Announced)
    (hm : m.state ≠ .field) :
    ∃ state, state ≠ .field ∧ run side.callback m (hs.flatMap HeaderPieces.callbacks) =
      some { m with headers := m.headers ++ hs.map HeaderPieces.header, state := state } := by
  induction hs generalizing m with
  | nil => exact ⟨m.state, hm, by simp⟩
  | cons h hs ih =>
    obtain ⟨hh, hhs⟩ := List.forall_mem_cons.mp hhs
    obtain ⟨state, hstate, hrun⟩ := ih (m := { m with
      headers := m.headers ++ [h.header], state := .value }) hhs (by simp)
    refine ⟨state, hstate, ?_⟩
    rw [List.flatMap_cons, run_append, run_header side hh hm, Option.bind_some, hrun]
    simp

theorem run_body (hm : m.state ≠ .field) :
    ∃ state, state ≠ .field ∧ run side.callback m (ps.map .body) =
      some { m with body := m.body ++ ps.flatten, state := state } := by
  induction ps generalizing m with
  | nil => exact ⟨m.state, hm, by simp⟩
  | cons p ps ih =>
    obtain ⟨state, hstate, hrun⟩ := ih (m := m.onBody p) (by simp [Assembly.onBody])
    refine ⟨state, hstate, ?_⟩
    rw [List.map_cons, run_cons, callback_body, Option.bind_some, hrun]
    simp [Assembly.onBody]

end Part

/-! ## Whole messages -/

section Messages

variable (side : Side) {m m' : Assembly}

/-- Callbacks that complete no message. -/
theorem completed_append {cbs rest : List Callback} (hcbs : .msgComplete ∉ cbs)
    (hrun : run side.callback m cbs = some m') :
    completed side m (cbs ++ rest) = completed side m' rest := by
  induction cbs generalizing m with
  | nil =>
    obtain rfl : m = m' := by simpa using hrun
    rfl
  | cons cb cbs ih =>
    obtain ⟨m₁, hcb, hrun⟩ := run_cons_eq_some.mp hrun
    obtain ⟨hne, hcbs⟩ := List.ne_and_not_mem_of_not_mem_cons hcbs
    rw [List.cons_append, completed, hcb, Option.bind_some, ih hcbs hrun]
    simp [Ne.symm hne]

/-- The callbacks of a message but the last. -/
theorem msgComplete_notMem (p : Pieces) :
    Callback.msgComplete ∉ .msgBegin :: p.text.map side.textCallback ++
      p.headers.flatMap HeaderPieces.callbacks ++ .headersComplete :: p.body.map .body ++
      p.trailers.flatMap HeaderPieces.callbacks := by
  have htext (piece : Bytes) : side.textCallback piece ≠ .msgComplete := by
    cases side <;> simp [Side.textCallback]
  simp [HeaderPieces.callbacks, htext]

/-- A message is built from its pieces, whatever the parser did before. -/
theorem run_pieces {p : Pieces} (hp : p.Announced) :
    ∃ state, run side.callback m (.msgBegin :: p.text.map side.textCallback ++
        p.headers.flatMap HeaderPieces.callbacks ++ .headersComplete :: p.body.map .body ++
        p.trailers.flatMap HeaderPieces.callbacks) =
      some { p.parts.message with state := state } := by
  have hheaders : ∀ h ∈ p.headers, h.Announced := fun h hh => hp h (by simp [hh])
  have htrailers : ∀ h ∈ p.trailers, h.Announced := fun h hh => hp h (by simp [hh])
  obtain ⟨st₁, h₁, htext⟩ := @run_text side m.onMsgBegin p.text rfl rfl
  obtain ⟨st₂, h₂, hhead⟩ := run_headers side (m := { m.onMsgBegin with
    text := p.text.flatten, state := st₁ }) hheaders h₁
  obtain ⟨st₃, h₃, hbody⟩ := @run_body side { m.onMsgBegin with
    text := p.text.flatten, headers := [] ++ p.headers.map HeaderPieces.header, state := st₂ }
    p.body h₂
  obtain ⟨st₄, -, htrail⟩ := run_headers side (m := { m.onMsgBegin with
    text := p.text.flatten, headers := [] ++ p.headers.map HeaderPieces.header
    body := [] ++ p.body.flatten, state := st₃ }) htrailers h₃
  refine ⟨st₄, ?_⟩
  rw [run_append, run_append, run_append, run_cons, callback_msgBegin, Option.bind_some, htext,
    Option.bind_some, hhead, Option.bind_some, run_cons, callback_headersComplete,
    Option.bind_some]
  exact Option.bind_eq_some_iff.mpr ⟨_, hbody, htrail⟩

theorem completed_message {p : Pieces} (hp : p.Announced) (rest : List Callback) :
    completed side m (p.callbacks side ++ rest) =
      (completed side p.parts.message rest).map fun ms => p.parts.message :: ms := by
  obtain ⟨state, hrun⟩ := run_pieces side (m := m) hp
  rw [Pieces.callbacks, List.append_assoc,
    completed_append side (msgComplete_notMem side p) hrun, List.singleton_append, completed,
    callback_msgComplete, Option.bind_some]
  simp [Assembly.onMsgComplete, Parts.message]

theorem parts_whole (m : Parts) : m.whole.parts = m := by
  have hheader (hs : List Header) :
      (hs.map fun h => (⟨[h.1], [h.2]⟩ : HeaderPieces)).map HeaderPieces.header = hs := by
    simp [HeaderPieces.header, Function.comp_def]
  simp only [Pieces.parts, Parts.whole, hheader, List.flatten_singleton]

theorem announced_whole (m : Parts) : m.whole.Announced := by
  intro h hh
  simp only [Parts.whole, List.mem_append, List.mem_map] at hh
  rcases hh with ⟨_, _, rfl⟩ | ⟨_, _, rfl⟩ <;> simp [HeaderPieces.Announced]

/-- Any number of messages through one parser object. -/
theorem completed_messages {ps : List Pieces} (hps : ∀ p ∈ ps, p.Announced) :
    completed side m (ps.flatMap (Pieces.callbacks side)) =
      some (ps.map fun p => p.parts.message) := by
  induction ps generalizing m with
  | nil => rfl
  | cons p ps ih =>
    obtain ⟨hp, hps⟩ := List.forall_mem_cons.mp hps
    rw [List.flatMap_cons, completed_message side hp, ih hps]
    rfl

/-- **The cuts do not matter.** A parser that takes any messages in pieces, whatever it did
    before, builds of each what it builds when each part comes in one piece: its text, its
    headers with the trailers behind them, and its body. -/
theorem completed_pieces (m : Assembly) {ps : List Pieces} (hps : ∀ p ∈ ps, p.Announced) :
    completed side m (ps.flatMap (Pieces.callbacks side)) =
        some (ps.map fun p => p.parts.message) ∧
      completed side m ((ps.map fun p => p.parts.whole).flatMap (Pieces.callbacks side)) =
        some (ps.map fun p => p.parts.message) := by
  refine ⟨completed_messages side hps, ?_⟩
  have hwhole : ∀ p ∈ ps.map fun p => p.parts.whole, p.Announced := by
    intro p hp
    obtain ⟨q, -, rfl⟩ := List.mem_map.mp hp
    exact announced_whole q.parts
  rw [completed_messages side hwhole, List.map_map]
  simp only [Function.comp_def, parts_whole]

end Messages

/-- Two responses; the first has a name and a value that are cut, an empty value and a
    trailer, the second nothing but a text. -/
def twoResponses : List Pieces :=
  [⟨[ascii "O", ascii "K"],
    [⟨[ascii "Content-", ascii "Type"], [ascii "text", ascii "/plain"]⟩, ⟨[ascii "X"], [[]]⟩],
    [ascii "hel", ascii "lo"], [⟨[ascii "Check", ascii "sum"], [ascii "1", ascii "2"]⟩]⟩,
   ⟨[ascii "No", ascii " Content"], [], [], []⟩]

theorem twoResponses_completed :
    completed .response {} (twoResponses.flatMap (Pieces.callbacks .response)) =
      some [⟨ascii "OK", [(ascii "Content-Type", ascii "text/plain"), (ascii "X", []),
          (ascii "Checksum", ascii "12")], ascii "hello", .finished⟩,
        ⟨ascii "No Content", [], [], .finished⟩] :=
  (completed_pieces .response {} (by decide : ∀ p ∈ twoResponses, p.Announced)).1

end FiberProxy.Http
