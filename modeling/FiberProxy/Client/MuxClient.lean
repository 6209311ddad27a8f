/-
  FiberProxy.Client.MuxClient

  The two clients that share one connection between many calls: `FibpRpcClient`
  and `FibpRawClient` (`forward-manager/FibpClient.cpp`) with their futures
  (`FibpClientFuture.cpp`) and the part of `ClientSession` they use.  Every call
  is a fiber of its own; another fiber reads the responses.  A fiber runs until it
  yields: in the loop on `connecting_`, in a connect, between the pieces of a
  write, and in the wait for its future.

  The clients differ in how a request is packed and in what the reader does when
  it fails: the RPC reader closes the session.
-/

import FiberProxy.Lib.Bytes
import FiberProxy.Lib.Lists
import FiberProxy.Lib.Run
import Mathlib.Logic.Function.Basic

namespace FiberProxy.Client

open Lib

/-- The client, with msgpack's packing of a request (id, method, parameters) for
    the RPC client. -/
inductive Kind where
  | rpc (pack : UInt32 → Bytes → Bytes → Bytes)
  | raw

/-- The request frame: `rpc_req.pack`, or id and length in front of the data. -/
def Kind.frame : Kind → UInt32 → Bytes → Bytes → Bytes
  | .rpc pack, msgid, path, reqdata => pack msgid path reqdata
  | .raw, fid, _, reqdata => be32 fid ++ be32 (UInt32.ofNat reqdata.length) ++ reqdata

/-- Whether a reader that fails closes the session. -/
def Kind.readerCloses : Kind → Bool
  | .rpc _ => true
  | .raw => false

/-- `FibpClientFuture`. -/
structure Future where
  rsp : Bytes := []
  isSuccess : Bool := false
  canRetry : Bool := true
  done : Bool := false
deriving DecidableEq, Repr

/-- `FibpClientFuture::set_result`: the future afterwards. -/
def setResult (rsp : Bytes) (isSuccess canRetry : Bool) : Future :=
  { rsp := rsp, isSuccess := isSuccess, canRetry := canRetry, done := true }

/-- What `getRsp` gives: its result, `rsp` and `can_retry`. -/
structure Result where
  isSuccess : Bool
  rsp : Bytes
  canRetry : Bool
deriving DecidableEq, Repr

/-- `TIMEOUT_ERR`. -/
def timeoutErr : Bytes := ascii "Server Timed Out."

/-- `FibpClientFuture::getRsp`, after its wait. -/
def Future.getRsp (f : Future) : Result :=
  if f.done then { isSuccess := f.isSuccess, rsp := f.rsp, canRetry := f.canRetry }
  else { isSuccess := f.isSuccess, rsp := timeoutErr, canRetry := true }

/-- Where the fiber of a call stands. -/
inductive Phase where
  /-- In the loop on `connecting_`. -/
  | queued
  /-- In `async_connect`. -/
  | connecting
  /-- In `async_write`, begun on the `conn`-th connection. -/
  | writing (conn sent : Nat)
  /-- `send_request` has returned a null pointer. -/
  | failed
  /-- In the wait of `getRsp`. -/
  | waiting
  | returned (r : Result)
deriving DecidableEq, Repr

structure Call where
  id : UInt32
  frame : Bytes
  future : Future := {}
  phase : Phase := .queued
deriving DecidableEq, Repr

/-- How `async_connect` ends: connected, with an error code, or with an exception
    from the resolver, which leaves the error code clear. -/
inductive ConnectOutcome where
  | ok | error | thrown
deriving DecidableEq, Repr

structure MuxClient where
  fid : UInt32 := 0
  /-- The calls made so far. -/
  calls : List Call := []
  /-- `future_list_`: the call whose future is listed under an id. -/
  futureList : UInt32 → Option Nat := fun _ => none
  /-- `reading_fiber_` is set. -/
  reading : Bool := false
  /-- `socket_.is_open()`. -/
  isOpen : Bool := false
  /-- `connecting_`. -/
  connecting : Bool := false
  /-- How often a connection was made, and the bytes put on the last one. -/
  conn : Nat := 0
  wire : Bytes := []

inductive Event where
  /-- A fiber calls `send_request`. -/
  | send (path reqdata : Bytes)
  /-- The `k`-th call finds `connecting_` clear. -/
  | proceed (k : Nat)
  | connected (k : Nat) (outcome : ConnectOutcome)
  /-- The socket takes `n` more bytes of the `k`-th call's frame. -/
  | writeSome (k n : Nat)
  | writeDone (k : Nat)
  | writeFail (k : Nat)
  /-- The reader has a whole response frame. -/
  | frame (id : UInt32) (rsp : Bytes) (isSuccess : Bool)
  | readerFail (errinfo : Bytes)
  /-- The wait of the `k`-th call ends, by its timer or by its future. -/
  | resume (k : Nat)
deriving DecidableEq, Repr

/-- `set_response`. -/
def MuxClient.setResponse (s : MuxClient) (id : UInt32) (rsp : Bytes) (isSuccess canRetry : Bool) :
    MuxClient :=
  { s with
    calls := match s.futureList id with
      | some k => s.calls.modify k fun c => { c with future := setResult rsp isSuccess canRetry }
      | none => s.calls
    futureList := Function.update s.futureList id none }

/-- `set_all_error`. -/
def MuxClient.setAllError (s : MuxClient) (errinfo : Bytes) : MuxClient :=
  { s with
    calls := s.calls.mapIdx fun k c =>
      if s.futureList c.id = some k then { c with future := setResult errinfo false true } else c
    futureList := fun _ => none }

/-- The `k`-th call goes to another place. -/
def MuxClient.setPhase (s : MuxClient) (k : Nat) (c : Call) (phase : Phase) : MuxClient :=
  { s with calls := s.calls.set k { c with phase := phase } }

/-- `send_data` returned false: `send_request` unlists its future. -/
def MuxClient.sendFailed (s : MuxClient) (k : Nat) (c : Call) : MuxClient :=
  { s.setPhase k c .failed with futureList := Function.update s.futureList c.id none }

/-- The reader completes futures and leaves the frames and places of the calls alone. -/
theorem setResponse_calls (s : MuxClient) (id : UInt32) (rsp : Bytes) (isSuccess canRetry : Bool) :
    (s.setResponse id rsp isSuccess canRetry).calls.map (fun c => (c.frame, c.phase)) =
      s.calls.map fun c => (c.frame, c.phase) := by
  unfold MuxClient.setResponse
  cases s.futureList id with
  | none => rfl
  | some k =>
    apply List.ext_getElem?
    intro j
    simp only [List.getElem?_map, List.getElem?_modify]
    cases s.calls[j]? with
    | none => rfl
    | some c => by_cases hjk : k = j <;> simp [hjk]

theorem setAllError_calls (s : MuxClient) (errinfo : Bytes) :
    (s.setAllError errinfo).calls.map (fun c => (c.frame, c.phase)) =
      s.calls.map fun c => (c.frame, c.phase) := by
  apply List.ext_getElem?
  intro j
  simp only [MuxClient.setAllError, List.getElem?_map, List.getElem?_mapIdx]
  cases s.calls[j]? with
  | none => rfl
  | some c =>
    simp only [Option.map_some]
    split <;> rfl

section Step

variable (kind : Kind)

/-- One step of a call's fiber. -/
def callStep (s : MuxClient) (k : Nat) (c : Call) : Event → Option MuxClient
  | .proceed _ =>
    if c.phase = .queued ∧ s.connecting = false then
      if s.isOpen then some (s.setPhase k c (.writing s.conn 0))
      else some { s.setPhase k c .connecting with connecting := true }
    else none
  | .connected _ outcome =>
    if c.phase = .connecting then
      match outcome with
      | .ok =>
        some { s.setPhase k c (.writing (s.conn + 1) 0) with
          connecting := false, isOpen := true, conn := s.conn + 1, wire := [] }
      | .error => some { s.sendFailed k c with connecting := false, isOpen := false }
      -- no error code: `send_data` goes on to write on the closed socket
      | .thrown =>
        some { s.setPhase k c (.writing s.conn 0) with connecting := false, isOpen := false }
    else none
  | .writeSome _ n =>
    match c.phase with
    | .writing conn sent =>
      -- `async_write` keeps the socket, not the connection: closing the socket aborts a
      -- piece under way, but one that is complete is followed by the next, on whatever
      -- connection the socket then has
      if 0 < n ∧ sent + n ≤ c.frame.length ∧ s.isOpen = true ∧ (conn = s.conn ∨ 0 < sent) then
        some { s.setPhase k c (.writing conn (sent + n)) with
          wire := s.wire ++ (c.frame.drop sent).take n }
      else none
    | _ => none
  | .writeDone _ =>
    match c.phase with
    | .writing _ sent =>
      if sent = c.frame.length then some { s.setPhase k c .waiting with reading := true }
      else none
    | _ => none
  | .writeFail _ =>
    match c.phase with
    -- `async_write` leaves the session alone while another fiber connects
    | .writing _ _ => some { s.sendFailed k c with isOpen := s.connecting && s.isOpen }
    | _ => none
  | .resume _ =>
    if c.phase = .waiting then some (s.setPhase k c (.returned c.future.getRsp)) else none
  | _ => none

/-- The call an event is about. -/
def Event.call : Event → Option Nat
  | .proceed k | .connected k _ | .writeSome k _ | .writeDone k | .writeFail k | .resume k =>
    some k
  | _ => none

def step (s : MuxClient) (e : Event) : Option MuxClient :=
  match e with
  | .send path reqdata =>
    let id := s.fid + 1
    some { s with
      fid := id
      calls := s.calls ++ [{ id := id, frame := kind.frame id path reqdata }]
      futureList := Function.update s.futureList id (some s.calls.length) }
  | .frame id rsp isSuccess =>
    if s.reading then some (s.setResponse id rsp isSuccess false) else none
  | .readerFail errinfo =>
    if s.reading then
      some { s.setAllError errinfo with
        reading := false, isOpen := s.isOpen && !kind.readerCloses }
    else none
  | e => (e.call).bind fun k => (s.calls[k]?).bind fun c => callStep s k c e

/-! ## What a step can do -/

inductive StepsTo (s : MuxClient) : Event → MuxClient → Prop where
  | send (path reqdata : Bytes) :
      StepsTo s (.send path reqdata) { s with
        fid := s.fid + 1
        calls := s.calls ++ [{ id := s.fid + 1, frame := kind.frame (s.fid + 1) path reqdata }]
        futureList := Function.update s.futureList (s.fid + 1) (some s.calls.length) }
  | frame (id : UInt32) (rsp : Bytes) (isSuccess : Bool) (hr : s.reading = true) :
      StepsTo s (.frame id rsp isSuccess) (s.setResponse id rsp isSuccess false)
  | readerFail (errinfo : Bytes) (hr : s.reading = true) :
      StepsTo s (.readerFail errinfo) { s.setAllError errinfo with
        reading := false, isOpen := s.isOpen && !kind.readerCloses }
  | write {k : Nat} {c : Call} (hk : s.calls[k]? = some c) (hp : c.phase = .queued)
      (hc : s.connecting = false) (ho : s.isOpen = true) :
      StepsTo s (.proceed k) (s.setPhase k c (.writing s.conn 0))
  | connect {k : Nat} {c : Call} (hk : s.calls[k]? = some c) (hp : c.phase = .queued)
      (hc : s.connecting = false) (ho : s.isOpen = false) :
      StepsTo s (.proceed k) { s.setPhase k c .connecting with connecting := true }
  | connected {k : Nat} {c : Call} (hk : s.calls[k]? = some c) (hp : c.phase = .connecting) :
      StepsTo s (.connected k .ok) { s.setPhase k c (.writing (s.conn + 1) 0) with
        connecting := false, isOpen := true, conn := s.conn + 1, wire := [] }
  | connectFailed {k : Nat} {c : Call} (hk : s.calls[k]? = some c) (hp : c.phase = .connecting) :
      StepsTo s (.connected k .error)
        { s.sendFailed k c with connecting := false, isOpen := false }
  | resolveFailed {k : Nat} {c : Call} (hk : s.calls[k]? = some c) (hp : c.phase = .connecting) :
      StepsTo s (.connected k .thrown)
        { s.setPhase k c (.writing s.conn 0) with connecting := false, isOpen := false }
  | writeSome {k n conn sent : Nat} {c : Call} (hk : s.calls[k]? = some c)
      (hp : c.phase = .writing conn sent) (hn : 0 < n) (hle : sent + n ≤ c.frame.length)
      (ho : s.isOpen = true) (hon : conn = s.conn ∨ 0 < sent) :
      StepsTo s (.writeSome k n) { s.setPhase k c (.writing conn (sent + n)) with
        wire := s.wire ++ (c.frame.drop sent).take n }
  | writeDone {k conn sent : Nat} {c : Call} (hk : s.calls[k]? = some c)
      (hp : c.phase = .writing conn sent) (hall : sent = c.frame.length) :
      StepsTo s (.writeDone k) { s.setPhase k c .waiting with reading := true }
  | writeFail {k conn sent : Nat} {c : Call} (hk : s.calls[k]? = some c)
      (hp : c.phase = .writing conn sent) :
      StepsTo s (.writeFail k) { s.sendFailed k c with isOpen := s.connecting && s.isOpen }
  | resume {k : Nat} {c : Call} (hk : s.calls[k]? = some c) (hp : c.phase = .waiting) :
      StepsTo s (.resume k) (s.setPhase k c (.returned c.future.getRsp))

variable {kind}

theorem stepsTo_of_callStep {s s' : MuxClient} {k : Nat} {c : Call} {e : Event}
    (hk : s.calls[k]? = some c) (he : e.call = some k) (h : callStep s k c e = some s') :
    StepsTo kind s e s' := by
  cases e with
  | send | frame | readerFail => simp [Event.call] at he
  | proceed j =>
    obtain rfl : j = k := by simpa [Event.call] using he
    simp only [callStep] at h
    split at h
    · rename_i hq
      split at h <;> obtain rfl := Option.some.inj h
      · exact .write hk hq.1 hq.2 ‹_›
      · exact .connect hk hq.1 hq.2 (by simpa using ‹¬ s.isOpen = true›)
    · simp at h
  | connected j outcome =>
    obtain rfl : j = k := by simpa [Event.call] using he
    simp only [callStep] at h
    split at h
    · cases outcome <;> obtain rfl := Option.some.inj h
      · exact .connected hk ‹_›
      · exact .connectFailed hk ‹_›
      · exact .resolveFailed hk ‹_›
    · simp at h
  | writeSome j n =>
    obtain rfl : j = k := by simpa [Event.call] using he
    simp only [callStep] at h
    split at h
    · split at h
      · rename_i hp hn
        obtain ⟨hn, hle, ho, hon⟩ := hn
        obtain rfl := Option.some.inj h
        exact .writeSome hk hp hn hle ho hon
      · simp at h
    · simp at h
  | writeDone j =>
    obtain rfl : j = k := by simpa [Event.call] using he
    simp only [callStep] at h
    split at h
    · split at h
      · rename_i hp hall
        obtain rfl := Option.some.inj h
        exact .writeDone hk hp hall
      · simp at h
    · simp at h
  | writeFail j =>
    obtain rfl : j = k := by simpa [Event.call] using he
    simp only [callStep] at h
    split at h
    · rename_i hp
      obtain rfl := Option.some.inj h
      exact .writeFail hk hp
    · simp at h
  | resume j =>
    obtain rfl : j = k := by simpa [Event.call] using he
    simp only [callStep] at h
    split at h
    · obtain rfl := Option.some.inj h
      exact .resume hk ‹_›
    · simp at h

theorem stepsTo_of_step {s s' : MuxClient} {e : Event} (h : step kind s e = some s') :
    StepsTo kind s e s' := by
  unfold step at h
  split at h
  · obtain rfl := Option.some.inj h
    exact .send _ _
  · split at h
    · obtain rfl := Option.some.inj h
      exact .frame _ _ _ ‹_›
    · simp at h
  · split at h
    · obtain rfl := Option.some.inj h
      exact .readerFail _ ‹_›
    · simp at h
  · obtain ⟨k, he, h⟩ := Option.bind_eq_some_iff.mp h
    obtain ⟨c, hk, h⟩ := Option.bind_eq_some_iff.mp h
    exact stepsTo_of_callStep hk he h

end Step

end FiberProxy.Client
