/-
  FiberProxy.Front.Dispatch

  The front ends that make service calls: `CommandsController`'s
  `call_single_service_async` and `call_services_async`, and
  `FibpRpcServer::dispatch`, from the request to its answer.  Each call asks the
  logger for a number before it is made and gives it back after it is answered.

  The call itself is the machine of `FiberProxy.Forward.FanOut`; the request is
  answered wherever that machine invokes its callback, and the machine goes on
  behind it.  That a number is not given back twice rests on the callback coming
  once (`once_step`).  The HTTP actions run in a `try` of `HttpConnection` that
  answers with a 500 when they throw.
-/

import FiberProxy.Forward.FanIn
import FiberProxy.Front.RequestParser
import FiberProxy.Http.ResponseText
import FiberProxy.Lib.Lists
import FiberProxy.Log.FibpLogger

namespace FiberProxy.Front

open Lib Forward Log

/-- What msgpack gives for the parameters of an RPC request. -/
structure RpcParams where
  /-- Their conversion to a tuple of one `RpcServicesReq`; `none`: `type_error`. -/
  services : Option (List ServiceCallReq)
  /-- The bytes they pack to. -/
  packed : Bytes

/-- A request that has reached one of the three front ends.  Where a conversion or
    an accessor of `izenelib::driver::Value` throws, its value is `none`. -/
inductive Request where
  | single (method : Int) (rawReq path : Bytes)
  | services (apiList : Option (List (Option ApiData))) (doTransaction : Option Bool)
  | rpc (method : Option Bytes) (params : RpcParams)

/-- What the client gets. -/
inductive Answer where
  | error (msg : Bytes)
  /-- The error is the `what()` of a standard exception. -/
  | exception
  | http (e : Http.ErrorRsp)
  /-- The result of the RPC method `test`. -/
  | alive
  /-- The responses of the services, rendered for the front end. -/
  | rsp (rspList : List ServiceCallRsp)
deriving DecidableEq, Repr

/-- The callback that answers when the calls have ended. -/
inductive Callback where
  | afterCallSingleService | afterCallServices | rpcCallback | rpcSingleServiceCallback
deriving DecidableEq, Repr

/-- What a front end does with a request. -/
inductive Handling where
  /-- It answers, and asks for no number. -/
  | answer (a : Answer)
  /-- It has a number, and answers without making a call. -/
  | started (a : Answer)
  /-- It has a number, and makes the calls. -/
  | calls (c : ServicesCall) (cb : Callback)

/-- `CommandsController::call_single_service_async`. -/
def callSingleServiceAsync (method : Int) (rawReq path : Bytes) : Handling :=
  match parseSingleApiRequest method rawReq path with
  | none => .started (.error (ascii "parser request data failed."))
  | some req => .calls ⟨[req], [], false⟩ .afterCallSingleService

section Services

variable (packTuple : Bytes → Bytes)

/-- `CommandsController::call_services_async`. -/
def callServicesAsync (apiList : Option (List (Option ApiData))) (doTransaction : Option Bool) :
    Handling :=
  match doTransaction with
  -- `asBool` has thrown: the connection answers
  | none => .started (.http .internalServerError)
  | some doTransaction =>
    match parseApiRequest packTuple apiList with
    | none => .started (.error (ascii "parser request data failed."))
    | some reqs => .calls ⟨reqs, [], doTransaction⟩ .afterCallServices

/-- The call that `dispatch` makes for the method `call_single_service_async`, from what
    follows that name; the first character of it is skipped. -/
def singleServiceReq (serverMethod : Bytes) (params : RpcParams) : Option ServiceCallReq :=
  if 47 ∈ serverMethod then
    some {
      serviceName := serverMethod.takeWhile (· != 47)
      serviceApi := (serverMethod.dropWhile (· != 47)).drop 1
      serviceReqData := params.packed
      serviceCluster := ascii "dev"
      serviceType := ServiceType.rpc.toInt }
  else none

/-- `FibpRpcServer::dispatch`. -/
def dispatch (method : Option Bytes) (params : RpcParams) : Handling :=
  match method with
  | none => .answer (.error (ascii "ARGUMENT_ERROR"))
  | some method =>
    if method = ascii "test" then .answer .alive
    else if method = ascii "call_services_async" then
      -- the number is taken before the parameters are converted
      match params.services with
      | none => .started (.error (ascii "ARGUMENT_ERROR"))
      | some reqs => .calls ⟨reqs, [], false⟩ .rpcCallback
    else if ascii "call_single_service_async" <+: method then
      -- `substr` throws when there is nothing behind the name
      match method.drop (ascii "call_single_service_async").length with
      | [] => .answer .exception
      | _ :: serverMethod =>
        match singleServiceReq serverMethod params with
        | none => .answer (.error (ascii "ARGUMENT_ERROR"))
        | some req => .calls ⟨[req], [], false⟩ .rpcSingleServiceCallback
    else .answer (.error (ascii "NO_METHOD_ERROR"))

/-- The front end of a request. -/
def handle : Request → Handling
  | .single method rawReq path => callSingleServiceAsync method rawReq path
  | .services apiList doTransaction => callServicesAsync packTuple apiList doTransaction
  | .rpc method params => dispatch method params

end Services

/-- `rpc_single_service_callback`, up to `endServiceCall`; `none`: `msgpack::unpack` has
    thrown, and nothing in the fiber catches it. -/
def rpcSingleServiceCallback (unpacks : Bytes → Bool) (rspList : List ServiceCallRsp) :
    Option Answer :=
  match rspList with
  | [rsp] =>
    if rsp.error = [] then
      if unpacks rsp.rsp then some (.rsp [rsp]) else none
    else some (.error rsp.error)
  | _ => some (.error (ascii "SERVER_RETURN_ERROR"))

/-- The answer that a callback gives. -/
def Callback.answer (unpacks : Bytes → Bool) (rspList : List ServiceCallRsp) :
    Callback → Option Answer
  | .rpcSingleServiceCallback => Front.rpcSingleServiceCallback unpacks rspList
  | .afterCallSingleService | .afterCallServices | .rpcCallback => some (.rsp rspList)

/-! ## Requests and the logger -/

/-- Where a request stands. -/
inductive Stage where
  | waiting
  | answered (a : Answer)
  /-- An exception has left the fiber. -/
  | crashed

def Stage.isAnswered : Stage → Bool
  | .answered _ => true
  | _ => false

/-- A request, the number it got from the logger (0: none) and how often it was passed
    to `endServiceCall`. -/
structure Served where
  request : Request
  id : UInt64
  ended : Nat
  /-- The calls that were made for it, their callback and where they stand. -/
  calls : Option (ServicesCall × Callback × Fan) := none
  stage : Stage

/-- The logger and the requests so far. -/
structure State where
  logger : FibpLogger := {}
  served : List Served := []

inductive Event where
  /-- A request comes in; `pool` is what other callers have on the thread's pool. -/
  | arrive (r : Request) (pool : FiberPool Unit) (now : Nat)
  /-- A step of the calls of the `k`-th request. -/
  | fan (k : Nat) (e : Forward.Event) (now : Nat)
  /-- The sender of the logs frees a slot. -/
  | send

section Step

variable (mgr : ForwardManager) (mem : LiteralMemory)
  (packTuple : Bytes → Bytes) (unpacks : Bytes → Bool)

/-- A request enters its front end. -/
def State.arrive (s : State) (r : Request) (pool : FiberPool Unit) (now : Nat) : State :=
  let started := s.logger.startServiceCall now
  match handle packTuple r with
  | .answer a =>
    { s with served := s.served ++ [{ request := r, id := 0, ended := 0, stage := .answered a }] }
  | .started a =>
    { s with
      logger := started.2
      served := s.served ++
        [{ request := r, id := started.1, ended := 0, stage := .answered a }] }
  | .calls c cb =>
    { s with
      logger := started.2
      served := s.served ++ [{
        request := r, id := started.1, ended := 0
        calls := some (c, cb, .start c pool), stage := .waiting }] }

/-- The `k`-th request, when its calls have stepped from `fan` to `fan'`: where they have
    invoked the callback, it answers and ends the log. -/
def State.stepped (s : State) (k : Nat) (q : Served) (c : ServicesCall) (cb : Callback)
    (fan fan' : Fan) (now : Nat) : State :=
  let q := { q with calls := some (c, cb, fan') }
  if fan'.callbacks = fan.callbacks then { s with served := s.served.set k q }
  else
    match cb.answer unpacks fan'.rspList with
    | none => { s with served := s.served.set k { q with stage := .crashed } }
    | some a =>
      { s with
        logger := s.logger.endServiceCall q.id now
        served := s.served.set k { q with ended := q.ended + 1, stage := .answered a } }

def step (s : State) : Event → Option State
  | .arrive r pool now => some (s.arrive packTuple r pool now)
  | .fan k e now =>
    (s.served[k]?).bind fun q =>
      q.calls.bind fun f =>
        (Forward.step mgr mem f.1 f.2.2 e).map fun fan' =>
          s.stepped unpacks k q f.1 f.2.1 f.2.2 fan' now
  | .send => s.logger.sendNext.map fun l => { s with logger := l }

/-! ## Every number is given back -/

/-- The arguments of the request can be read: its path names a service and an api, its
    list and its flag convert, its parameters are a list of calls. -/
def Request.Readable : Request → Prop
  | .single method rawReq path => parseSingleApiRequest method rawReq path ≠ none
  | .services apiList doTransaction =>
    doTransaction ≠ none ∧ parseApiRequest packTuple apiList ≠ none
  | .rpc method params => method = some (ascii "call_services_async") → params.services ≠ none

theorem readable_rpc {method : Option Bytes} {params : RpcParams} :
    (∀ a, dispatch method params ≠ .started a) ↔
      (Request.rpc method params).Readable packTuple := by
  simp only [Request.Readable]
  unfold dispatch
  split
  · simp
  · rename_i method
    by_cases htest : method = ascii "test"
    · subst htest
      rw [if_pos rfl]
      have hne : ascii "test" ≠ ascii "call_services_async" := by decide
      simp [hne]
    · rw [if_neg htest]
      by_cases hm : method = ascii "call_services_async"
      · rw [if_pos hm]
        cases hp : params.services <;> simp [hm]
      · rw [if_neg hm]
        have hno : ¬ some method = some (ascii "call_services_async") := by simpa using hm
        simp only [hno, false_imp_iff, iff_true]
        intro a
        split_ifs
        · split
          · simp
          · split <;> simp
        · simp

/-- A front end gives up with a number in hand exactly when it cannot read the
    arguments. -/
theorem readable_iff (r : Request) :
    (∀ a, handle packTuple r ≠ .started a) ↔ r.Readable packTuple := by
  cases r with
  | single method rawReq path =>
    simp only [handle, callSingleServiceAsync, Request.Readable]
    cases parseSingleApiRequest method rawReq path <;> simp
  | services apiList doTransaction =>
    simp only [handle, callServicesAsync, Request.Readable]
    cases doTransaction with
    | none => simp
    | some b => cases parseApiRequest packTuple apiList <;> simp
  | rpc method params => exact readable_rpc packTuple

/-- What holds of a request: its log is ended by the callback of its calls, which answers, and
    without calls never. -/
def Served.Ok (q : Served) : Prop :=
  match q.calls with
  | none => q.ended = 0 ∧ (q.id ≠ 0 → ¬ q.request.Readable packTuple)
  | some (_, _, fan) => q.request.Readable packTuple ∧ fan.Once ∧ q.ended ≤ fan.callbacks ∧
      (q.stage.isAnswered = true → q.ended = fan.callbacks ∧ fan.callbacks = 1)

variable {mgr mem packTuple unpacks}

theorem Served.Ok.arrive {s : State} (hs : ∀ q ∈ s.served, q.Ok packTuple) (r : Request)
    (pool : FiberPool Unit) (now : Nat) :
    ∀ q ∈ (s.arrive packTuple r pool now).served, q.Ok packTuple := by
  have hread := readable_iff packTuple r
  unfold State.arrive
  intro q hq
  split at hq <;> rename_i hh <;> rcases List.mem_append.mp hq with hq | hq
  case h_1.inr =>
    obtain rfl := List.mem_singleton.mp hq
    exact ⟨rfl, fun h => absurd rfl h⟩
  case h_2.inr =>
    obtain rfl := List.mem_singleton.mp hq
    exact ⟨rfl, fun _ h => hread.mpr h _ hh⟩
  case h_3.inr =>
    obtain rfl := List.mem_singleton.mp hq
    exact ⟨hread.mp (by simp [hh]), once_start _ pool, Nat.zero_le _, by simp [Stage.isAnswered]⟩
  all_goals exact hs q hq

/-- The calls step: the callback is the first one, and so is the end of the log. -/
theorem Served.Ok.stepped {s : State} (hs : ∀ q ∈ s.served, q.Ok packTuple) {k : Nat} {q : Served}
    (hq : s.served[k]? = some q) {c : ServicesCall} {cb : Callback} {fan fan' : Fan}
    (hcalls : q.calls = some (c, cb, fan)) {e : Forward.Event}
    (hstep : Forward.step mgr mem c fan e = some fan') (now : Nat) :
    ∀ q' ∈ (s.stepped unpacks k q c cb fan fan' now).served, q'.Ok packTuple := by
  have hok := hs q (List.mem_of_getElem? hq)
  unfold Served.Ok at hok
  rw [hcalls] at hok
  obtain ⟨hread, honce, hle, hans⟩ := hok
  have honce' := once_step honce hstep
  unfold State.stepped
  simp only
  split
  · rename_i hsame
    exact forall_mem_set hs ⟨hread, honce', hsame ▸ hle, hsame ▸ hans⟩
  · rename_i hne
    obtain ⟨hzero, hone⟩ := callbacks_of_ne honce hstep hne
    have hended : q.ended = 0 := by omega
    split
    · exact forall_mem_set hs ⟨hread, honce', by simp [hended], by simp [Stage.isAnswered]⟩
    · exact forall_mem_set hs ⟨hread, honce', by simp [hended, hone], by simp [hended, hone]⟩

theorem Served.Ok.step {s s' : State} {e : Event} (hs : ∀ q ∈ s.served, q.Ok packTuple)
    (h : step mgr mem packTuple unpacks s e = some s') : ∀ q ∈ s'.served, q.Ok packTuple := by
  cases e with
  | arrive r pool now =>
    obtain rfl := Option.some.inj h
    exact Served.Ok.arrive hs r pool now
  | send =>
    obtain ⟨l, -, rfl⟩ := Option.map_eq_some_iff.mp h
    exact hs
  | fan k e now =>
    obtain ⟨q, hq, h⟩ := Option.bind_eq_some_iff.mp h
    obtain ⟨⟨c, cb, fan⟩, hcalls, h⟩ := Option.bind_eq_some_iff.mp h
    obtain ⟨fan', hstep, rfl⟩ := Option.map_eq_some_iff.mp h
    exact Served.Ok.stepped hs hq hcalls hstep now

/-- **Every number is given back once**, by the time its request is answered, exactly for
    the requests whose arguments can be read. -/
theorem ended_once_iff {es : List Event} {s : State}
    (hrun : run (Front.step mgr mem packTuple unpacks) {} es = some s) {q : Served}
    (hq : q ∈ s.served) (hans : q.stage.isAnswered = true) (hid : q.id ≠ 0) :
    q.ended = 1 ↔ q.request.Readable packTuple := by
  have hok : q.Ok packTuple :=
    run_inv (fun _ _ _ hs h => Served.Ok.step hs h) (by simp) hrun q hq
  unfold Served.Ok at hok
  split at hok
  · obtain ⟨hended, hno⟩ := hok
    simp [hended, hno hid]
  · obtain ⟨hread, -, -, hanswered⟩ := hok
    obtain ⟨hended, hone⟩ := hanswered hans
    simp [hread, hended, hone]

end Step

/-- A request for the built-in service, through its call. -/
def localTestRun : List Event :=
  [.arrive (.single 1 [] (ascii "/commands/call_single_service_async/local_test/x")) .empty 100,
    .fan 0 .take 101, .fan 0 (.call 0 .enter) 102, .fan 0 .singleEnd 103, .fan 0 .collect 104,
    .fan 0 .callback 105]

/-- The log of that request is ended once. -/
theorem localTest_ended_once :
    ∃ s q, run (step {} zeroMemory id fun _ => true) {} localTestRun = some s ∧ q ∈ s.served ∧
      q.stage.isAnswered = true ∧ q.id = 1 ∧ q.ended = 1 := by
  have hrun : run (step {} zeroMemory id fun _ => true) {} localTestRun = some _ := rfl
  refine ⟨_, _, hrun, List.mem_singleton_self _, rfl, rfl, ?_⟩
  refine (ended_once_iff hrun (List.mem_singleton_self _) rfl (by decide)).mpr ?_
  show parseSingleApiRequest 1 [] (ascii "/commands/call_single_service_async/local_test/x") ≠ none
  decide

/-- **A path without an api** is answered with an error, and its number is never given
    back. -/
theorem shortPath_not_ended :
    ∃ s q, run (step {} zeroMemory id fun _ => true) {}
        [.arrive (.single 1 [] (ascii "/commands/call_single_service_async/users")) .empty 100] =
        some s ∧
      q ∈ s.served ∧ q.stage.isAnswered = true ∧ q.id = 1 ∧ q.ended = 0 :=
  ⟨_, _, rfl, List.mem_singleton_self _, rfl, rfl, rfl⟩

end FiberProxy.Front
