/-
  FiberProxy.Server.DriverConnection

  `FiberDriverConnection::start` (`fiber-server/FiberDriverConnection.cpp`): the
  connection of the driver protocol.  One fiber reads request frames.  A request is
  handled by a fiber of the pool, or by the reader itself when there is no pool, and
  every fiber that has a response writes it to the socket, a piece at a time and
  yielding in between; the reader does so too for the errors it finds.

  A frame is a header of eight bytes, the sequence and the payload size, and the
  payload.  The sequence is only copied from the request to the response, so its
  byte order does not matter; it is that of the size here.
-/

import FiberProxy.Lib.Bytes
import FiberProxy.Lib.Frames
import FiberProxy.Lib.Run

namespace FiberProxy.Server.Driver

open Lib

/-- `kLimitSize`. -/
def limitSize : Nat := 64 * 1024 * 1024

/-- What `handleRequest` makes of a payload. -/
inductive Form where
  /-- `reader_->read` fails with these messages. -/
  | malformed (errorMessages : Bytes)
  /-- The type of the value is not `kObjectType`. -/
  | notObject
  | object (controller action : Bytes)

inductive Handler where
  | sync | async
deriving DecidableEq, Repr

/-- The reader, the router and the writer of a connection. -/
structure App where
  read : Bytes → Form
  find : Bytes → Bytes → Option Handler
  /-- What the writer writes for a response that has this error and nothing else. -/
  errorText : Bytes → Bytes

/-- A frame as it is sent. -/
def frame (sequence : UInt32) (payload : Bytes) : Bytes :=
  be32 sequence ++ be32 (UInt32.ofNat payload.length) ++ payload

/-- Where the fiber of a request stands. -/
inductive Phase where
  /-- Before `handleRequestFunc`, with what the router finds. -/
  | queued (handler : Option Handler)
  /-- An async handler has the request. -/
  | pending
  /-- In the `async_write` of `writeRsp`. -/
  | writing (rsp : Bytes) (sent : Nat)
  | done (rsp : Bytes)
  /-- The write failed, which is only logged. -/
  | failed
deriving DecidableEq, Repr

/-- `DriverConnectionContext`. -/
structure Context where
  sequence : UInt32
  phase : Phase
deriving DecidableEq, Repr

/-- Where `start` stands. -/
inductive Reader where
  | header
  | payload (sequence : UInt32) (size : Nat)
  /-- In the handling of the `k`-th context, after which it stops or goes on. -/
  | busy (k : Nat) (last : Bool)
  | ended
deriving DecidableEq, Repr

structure Connection where
  /-- The bytes that are still to be read; then the stream ends. -/
  input : Bytes
  reader : Reader := .header
  contexts : List Context := []
  out : Bytes := []

/-- How a handler's call ends: with a response, with an exception, whose error is in the
    response, or, if it is async, with the promise to call back. -/
inductive Outcome where
  | returned (rsp : Bytes)
  | thrown (rsp : Bytes)
  | accepted
deriving DecidableEq, Repr

inductive Event where
  /-- The reader has a header, or the stream ends in it. -/
  | header
  | headerError (message : Bytes)
  | payload
  | payloadError (message : Bytes)
  /-- `handleRequestFunc` runs for the `k`-th context. -/
  | invoke (k : Nat) (outcome : Outcome)
  /-- The async handler of the `k`-th context calls back. -/
  | complete (k : Nat) (rsp : Bytes)
  | writeSome (k n : Nat)
  | writeDone (k : Nat)
  | writeFail (k : Nat)
deriving DecidableEq, Repr

/-- The fiber goes on to other work. -/
def Phase.frees : Phase → Bool
  | .pending | .done _ | .failed => true
  | .queued _ | .writing .. => false

/-- The fiber of the `k`-th context goes on; the reader does so if it is the reader. -/
def Reader.release (k : Nat) : Reader → Reader
  | .busy j last => if j = k then (if last then .ended else .header) else .busy j last
  | r => r

/-- The `k`-th context goes to another place. -/
def Connection.setPhase (s : Connection) (k : Nat) (c : Context) (phase : Phase) : Connection :=
  { s with
    contexts := s.contexts.set k { c with phase := phase }
    reader := if phase.frees then s.reader.release k else s.reader }

/-- `createContext`. -/
def Connection.createContext (s : Connection) (c : Context) (reader : Reader) : Connection :=
  { s with contexts := s.contexts ++ [c], reader := reader }

section Step

variable (app : App) (pooled : Bool)

/-- `writeError`, called by the reader. -/
def Connection.writeError (s : Connection) (sequence : UInt32) (message : Bytes) (last : Bool) :
    Connection :=
  s.createContext ⟨sequence, .writing (app.errorText message) 0⟩ (.busy s.contexts.length last)

/-- The reader after a header. -/
def Connection.afterHeader (s : Connection) (sequence : UInt32) (size : Nat) : Connection :=
  -- a zero header is the client's end of the stream
  if sequence = 0 ∨ size = 0 then { s with reader := .ended }
  else if limitSize < size then s.writeError app sequence (ascii "Size exceeds limit.") true
  else { s with reader := .payload sequence size }

/-- `handleRequest`. -/
def Connection.handleRequest (s : Connection) (sequence : UInt32) (payload : Bytes) :
    Connection :=
  match app.read payload with
  | .malformed errorMessages => s.writeError app sequence errorMessages false
  | .notObject =>
    s.writeError app sequence
      (ascii "Malformed request: require an object as input.") false
  | .object controller action =>
    s.createContext ⟨sequence, .queued (app.find controller action)⟩
      (if pooled then .header else .busy s.contexts.length false)

/-- `handleRequestFunc`: where the context goes. -/
def handleRequestFunc : Option Handler → Outcome → Option Phase
  | none, _ => some (.writing (app.errorText (ascii "Handler not found")) 0)
  | some .sync, .returned rsp => some (.writing rsp 0)
  | some .async, .accepted => some .pending
  -- the handler of the `try` adds the error and writes the response
  | some _, .thrown rsp => some (.writing rsp 0)
  | _, _ => none

/-- One step of the fiber of a context. -/
def contextStep (s : Connection) (k : Nat) (c : Context) : Event → Option Connection
  | .invoke _ outcome =>
    match c.phase with
    | .queued handler => (handleRequestFunc app handler outcome).map (s.setPhase k c)
    | _ => none
  | .complete _ rsp =>
    if c.phase = .pending then some (s.setPhase k c (.writing rsp 0)) else none
  | .writeSome _ n =>
    match c.phase with
    | .writing rsp sent =>
      if 0 < n ∧ sent + n ≤ (frame c.sequence rsp).length then
        some { s.setPhase k c (.writing rsp (sent + n)) with
          out := s.out ++ ((frame c.sequence rsp).drop sent).take n }
      else none
    | _ => none
  | .writeDone _ =>
    match c.phase with
    | .writing rsp sent =>
      if sent = (frame c.sequence rsp).length then some (s.setPhase k c (.done rsp)) else none
    | _ => none
  | .writeFail _ =>
    match c.phase with
    | .writing .. => some (s.setPhase k c .failed)
    | _ => none
  | _ => none

/-- The context an event is about. -/
def Event.context : Event → Option Nat
  | .invoke k _ | .complete k _ | .writeSome k _ | .writeDone k | .writeFail k => some k
  | _ => none

def step (s : Connection) (e : Event) : Option Connection :=
  match e with
  | .header =>
    if s.reader = .header ∧ 8 ≤ s.input.length then
      some (({ s with input := s.input.drop 8 } : Connection).afterHeader app
        (readBe32 (s.input.take 4)) (readBe32 ((s.input.drop 4).take 4)).toNat)
    else none
  | .headerError message =>
    -- `setSequence(0)`, whatever the error
    if s.reader = .header ∧ s.input.length < 8 then some (s.writeError app 0 message true)
    else none
  | .payload =>
    match s.reader with
    | .payload sequence size =>
      if size ≤ s.input.length then
        some (({ s with input := s.input.drop size } : Connection).handleRequest app pooled
          sequence (s.input.take size))
      else none
    | _ => none
  | .payloadError message =>
    match s.reader with
    | .payload sequence size =>
      if s.input.length < size then some (s.writeError app sequence message true) else none
    | _ => none
  | e => (e.context).bind fun k => (s.contexts[k]?).bind fun c => contextStep app s k c e

/-! ## What a step can do -/

inductive StepsTo (s : Connection) : Event → Connection → Prop where
  | header (hr : s.reader = .header) (hlen : 8 ≤ s.input.length) :
      StepsTo s .header (({ s with input := s.input.drop 8 } : Connection).afterHeader app
        (readBe32 (s.input.take 4)) (readBe32 ((s.input.drop 4).take 4)).toNat)
  | headerError {message : Bytes} (hr : s.reader = .header) (hlen : s.input.length < 8) :
      StepsTo s (.headerError message) (s.writeError app 0 message true)
  | payload {sequence : UInt32} {size : Nat} (hr : s.reader = .payload sequence size)
      (hlen : size ≤ s.input.length) :
      StepsTo s .payload (({ s with input := s.input.drop size } : Connection).handleRequest app
        pooled sequence (s.input.take size))
  | payloadError {message : Bytes} {sequence : UInt32} {size : Nat}
      (hr : s.reader = .payload sequence size) (hlen : s.input.length < size) :
      StepsTo s (.payloadError message) (s.writeError app sequence message true)
  | invoke {k : Nat} {c : Context} {handler : Option Handler} {outcome : Outcome} {phase : Phase}
      (hk : s.contexts[k]? = some c) (hp : c.phase = .queued handler)
      (ho : handleRequestFunc app handler outcome = some phase) :
      StepsTo s (.invoke k outcome) (s.setPhase k c phase)
  | complete {k : Nat} {c : Context} {rsp : Bytes} (hk : s.contexts[k]? = some c)
      (hp : c.phase = .pending) :
      StepsTo s (.complete k rsp) (s.setPhase k c (.writing rsp 0))
  | writeSome {k n sent : Nat} {c : Context} {rsp : Bytes} (hk : s.contexts[k]? = some c)
      (hp : c.phase = .writing rsp sent) (hn : 0 < n)
      (hle : sent + n ≤ (frame c.sequence rsp).length) :
      StepsTo s (.writeSome k n) { s.setPhase k c (.writing rsp (sent + n)) with
        out := s.out ++ ((frame c.sequence rsp).drop sent).take n }
  | writeDone {k sent : Nat} {c : Context} {rsp : Bytes} (hk : s.contexts[k]? = some c)
      (hp : c.phase = .writing rsp sent) (hall : sent = (frame c.sequence rsp).length) :
      StepsTo s (.writeDone k) (s.setPhase k c (.done rsp))
  | writeFail {k sent : Nat} {c : Context} {rsp : Bytes} (hk : s.contexts[k]? = some c)
      (hp : c.phase = .writing rsp sent) :
      StepsTo s (.writeFail k) (s.setPhase k c .failed)

variable {app pooled}

theorem stepsTo_of_contextStep {s s' : Connection} {k : Nat} {c : Context} {e : Event}
    (hk : s.contexts[k]? = some c) (he : e.context = some k)
    (h : contextStep app s k c e = some s') : StepsTo app pooled s e s' := by
  cases e with
  | header | headerError | payload | payloadError => simp [Event.context] at he
  | invoke j outcome =>
    obtain rfl : j = k := by simpa [Event.context] using he
    simp only [contextStep] at h
    split at h
    · obtain ⟨phase, ho, rfl⟩ := Option.map_eq_some_iff.mp h
      exact .invoke hk ‹_› ho
    · simp at h
  | complete j rsp =>
    obtain rfl : j = k := by simpa [Event.context] using he
    simp only [contextStep] at h
    split at h
    · obtain rfl := Option.some.inj h
      exact .complete hk ‹_›
    · simp at h
  | writeSome j n =>
    obtain rfl : j = k := by simpa [Event.context] using he
    simp only [contextStep] at h
    split at h
    · split at h
      · rename_i hp hn
        obtain rfl := Option.some.inj h
        exact .writeSome hk hp hn.1 hn.2
      · simp at h
    · simp at h
  | writeDone j =>
    obtain rfl : j = k := by simpa [Event.context] using he
    simp only [contextStep] at h
    split at h
    · split at h
      · rename_i hp hall
        obtain rfl := Option.some.inj h
        exact .writeDone hk hp hall
      · simp at h
    · simp at h
  | writeFail j =>
    obtain rfl : j = k := by simpa [Event.context] using he
    simp only [contextStep] at h
    split at h
    · rename_i hp
      obtain rfl := Option.some.inj h
      exact .writeFail hk hp
    · simp at h

theorem stepsTo_of_step {s s' : Connection} {e : Event} (h : step app pooled s e = some s') :
    StepsTo app pooled s e s' := by
  unfold step at h
  split at h
  · split at h
    · rename_i hr
      obtain rfl := Option.some.inj h
      exact .header hr.1 hr.2
    · simp at h
  · split at h
    · rename_i hr
      obtain rfl := Option.some.inj h
      exact .headerError hr.1 hr.2
    · simp at h
  · split at h
    · split at h
      · obtain rfl := Option.some.inj h
        exact .payload ‹_› ‹_›
      · simp at h
    · simp at h
  · split at h
    · split at h
      · obtain rfl := Option.some.inj h
        exact .payloadError ‹_› ‹_›
      · simp at h
    · simp at h
  · obtain ⟨k, he, h⟩ := Option.bind_eq_some_iff.mp h
    obtain ⟨c, hk, h⟩ := Option.bind_eq_some_iff.mp h
    exact stepsTo_of_contextStep hk he h

end Step

end FiberProxy.Server.Driver
