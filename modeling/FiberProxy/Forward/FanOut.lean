/-
  FiberProxy.Forward.FanOut

  A multi-service call: `FibpForwardManager::call_services_in_fiber` with its
  per-service fibers, the counter and condition variable that join them, and the
  transaction part that follows the join.  The machine runs on the fiber pool of
  the calling thread, next to the tasks of other callers: any caller may schedule
  tasks, any task of another caller returns at any time, and the fibers interleave
  at every point where they may yield.

  The fibers of one pool share one thread, so what a fiber does between two
  yields is one step; in particular the test of `call_num` and the wait on the
  condition variable are one step.
-/

import FiberProxy.Forward.CallSingleService
import FiberProxy.Forward.TransactionMgr
import FiberProxy.Server.FiberPool

namespace FiberProxy.Forward

open Lib

/-- The pointers of `FibpForwardManager` that are set, and whether the build checks them. -/
structure ForwardManager where
  serviceMgr : Bool := false
  portForwardMgr : Bool := false
  serviceCache : Bool := false
  transactionMgr : Bool := false
  /-- `shared_ptr::operator->` asserts that the pointer is set; not in the default build,
      which defines `NDEBUG`. -/
  asserts : Bool := false
deriving DecidableEq, Repr

/-- `FibpForwardManager::init`. -/
def ForwardManager.init (m : ForwardManager) : ForwardManager :=
  { m with serviceMgr := true, portForwardMgr := true, serviceCache := true }

/-- The arguments of `call_services_in_fiber`. -/
structure ServicesCall where
  reqs : List ServiceCallReq
  rspList : List ServiceCallRsp
  doTransaction : Bool

/-- The tasks in the pool's list: this call, its per-service calls, and whatever
    other callers have scheduled. -/
inductive Task where
  | parent
  | child (i : Nat)
  | other
deriving DecidableEq, Repr

/-- Where a per-service call stands with the pool. -/
inductive Place where
  | unscheduled | queued | running | ended
deriving DecidableEq, Repr

/-- A per-service call; `call.rsp` is its entry of `rsp_list`. -/
structure Child where
  place : Place
  call : CallState
deriving DecidableEq, Repr

/-- Where `call_services_in_fiber` stands. -/
inductive Parent where
  /-- In the task list. -/
  | posted
  /-- In `call_single_service` for a list of one. -/
  | single
  /-- About to schedule the `i`-th call. -/
  | scheduling (i : Nat)
  /-- At the loop condition `call_num > 0`. -/
  | checking
  /-- In `cond.wait`. -/
  | waiting
  /-- Past the join. -/
  | joined
  /-- About to send the `i`-th confirm or cancel. -/
  | deciding (needCancel : Bool) (ids : List Bytes) (i : Nat)
  /-- About to invoke the callback. -/
  | returning
  | finished
  /-- An assertion has stopped the process at a null `transaction_mgr_`. -/
  | crashed
deriving DecidableEq, Repr

/-- The state of the call, and of the pool it runs on. -/
structure Fan where
  pool : FiberPool Task
  /-- Tasks of other callers that are running. -/
  others : Nat
  parent : Parent
  children : List Child
  /-- An `int`, set from the length of the list: the same for fewer than 2^31 calls. -/
  callNum : Int
  cache : ServiceCache
  /-- Confirms and cancels sent so far, with the index of their participant. -/
  sent : List (Nat × TranAction × TranMsg)
  /-- How often the callback was invoked. -/
  callbacks : Nat

/-- `rsp_list`. -/
def Fan.rspList (s : Fan) : List ServiceCallRsp := s.children.map (·.call.rsp)

/-- `rsp_list.resize(call_api_list.size())`. -/
def ServicesCall.resized (c : ServicesCall) : List ServiceCallRsp :=
  c.rspList.take c.reqs.length ++ List.replicate (c.reqs.length - c.rspList.length)
    ({} : ServiceCallRsp)

/-- `check` is false: a transaction with a service that is not HTTP. -/
def ServicesCall.rejected (c : ServicesCall) : Bool :=
  c.doTransaction && c.reqs.any fun r => r.serviceType != ServiceType.http.toInt

/-- The call posted to a pool that other callers use. -/
def Fan.start (c : ServicesCall) (pool : FiberPool Unit) : Fan where
  pool := (pool.map fun _ => .other).scheduleTaskFromFiber .parent
  others := pool.running
  parent := .posted
  -- `resize` keeps what the caller's entries held
  children := c.resized.map fun r => { place := .unscheduled, call := { rsp := r } }
  callNum := 0
  cache := []
  sent := []
  callbacks := 0

inductive Event where
  /-- Another caller schedules a task. -/
  | post
  /-- A task of another caller returns. -/
  | otherEnd
  /-- A call of another caller caches its answer. -/
  | insert (req : ServiceCallReq) (rsp : ServiceCallRsp)
  /-- A fiber of the pool takes a task, or finds none and sleeps. -/
  | take
  | sleep
  /-- The parent's steps. -/
  | schedule
  | check
  | singleEnd
  | collect
  | decide
  | callback
  /-- A step of the `i`-th call, and its return. -/
  | call (i : Nat) (e : CallEvent)
  | childEnd (i : Nat)
deriving DecidableEq, Repr

/-- The entry of a call in a rejected transaction. -/
def rejectedChild (req : ServiceCallReq) (ch : Child) : Child where
  place := .ended
  call := { ch.call with
    rsp := { ch.call.rsp with
      serviceName := req.serviceName
      error := ascii "transaction is supported only if all services using http protocol." } }

/-- The parent starts on a fiber of the pool. -/
def Fan.launch (c : ServicesCall) (s : Fan) (pool : FiberPool Task) : Fan :=
  if c.rejected then
    { s with
      pool := pool
      parent := .returning
      children := List.zipWith rejectedChild c.reqs s.children }
  else if c.reqs.length = 1 then
    -- no task, no counter: the parent's fiber makes the call
    { s with
      pool := pool
      parent := .single
      children := s.children.map fun ch => { ch with place := .running } }
  else { s with pool := pool, parent := .scheduling 0, callNum := c.reqs.length }

/-- `need_cancel`. -/
def Fan.needCancel (s : Fan) : Bool := s.children.any fun ch => ch.call.rsp.error != []

/-- An entry of `tran_id_list`: of a failed call the id is looked for in the error. -/
def tranId (mem : LiteralMemory) (rsp : ServiceCallRsp) : Bytes :=
  if rsp.error ≠ [] then getTransactionId mem rsp.error else getTransactionId mem rsp.rsp

/-- `tran_id_list`. -/
def Fan.tranIds (mem : LiteralMemory) (s : Fan) : List Bytes :=
  s.children.map fun ch => tranId mem ch.call.rsp

/-- The message of one turn of the last loop, if there is one. -/
def tranMsg (needCancel : Bool) (req : ServiceCallReq) (rsp : ServiceCallRsp) (tranId : Bytes) :
    Option (TranAction × TranMsg) :=
  if needCancel then
    if tranId = [] then none
    else some (.cancel, sendTransactionApi rsp.host rsp.port req.serviceApi tranId .cancel)
  else some (.confirm, sendTransactionApi rsp.host rsp.port req.serviceApi tranId .confirm)

/-- The messages sent after one turn of the last loop. -/
def Fan.sentAfter (c : ServicesCall) (s : Fan) (needCancel : Bool) (ids : List Bytes) (i : Nat) :
    List (Nat × TranAction × TranMsg) :=
  match c.reqs[i]?, s.children[i]?, ids[i]? with
  | some req, some ch, some tranId =>
    s.sent ++ ((tranMsg needCancel req ch.call.rsp tranId).map fun m => (i, m)).toList
  | _, _, _ => s.sent

/-- The counting overload of `call_single_service`, after the call: the last one
    notifies the parent. -/
def Fan.afterChild (s : Fan) : Parent :=
  if s.callNum - 1 = 0 ∧ s.parent = .waiting then .checking else s.parent

section Step

variable (mgr : ForwardManager) (mem : LiteralMemory) (c : ServicesCall)

/-- A step of the parent: what it does depends on where it stands. -/
def parentStep (s : Fan) (e : Event) : Option Fan :=
  match s.parent, e with
  | .scheduling i, .schedule =>
    match s.children[i]? with
    -- the loop is over
    | none => some { s with parent := .checking }
    | some ch =>
      some { s with
        pool := s.pool.scheduleTaskFromFiber (.child i)
        children := s.children.set i { ch with place := .queued }
        parent := .scheduling (i + 1) }
  | .checking, .check =>
    some { s with parent := if 0 < s.callNum then .waiting else .joined }
  | .single, .singleEnd =>
    if s.children.all (fun ch => ch.call.phase = .done) then
      some { s with
        parent := .joined
        children := s.children.map fun ch => { ch with place := .ended } }
    else none
  | .joined, .collect =>
    if c.doTransaction then
      -- Without the assertion a null `transaction_mgr_` does not matter: its functions are not
      -- virtual and use no member.  With it the first response is one too many.
      if s.children ≠ [] ∧ mgr.transactionMgr = false ∧ mgr.asserts = true then
        some { s with parent := .crashed }
      else some { s with parent := .deciding s.needCancel (s.tranIds mem) 0 }
    else some { s with parent := .returning }
  | .deciding needCancel ids i, .decide =>
    if i < c.reqs.length then
      some { s with
        sent := s.sentAfter c needCancel ids i
        parent := .deciding needCancel ids (i + 1) }
    else some { s with parent := .returning }
  | .returning, .callback =>
    s.pool.finish.map fun p =>
      { s with pool := p, parent := .finished, callbacks := s.callbacks + 1 }
  | _, _ => none

/-- A fiber that has taken a task starts it. -/
def Fan.runTask (s : Fan) (pool : FiberPool Task) : Task → Option Fan
  | .other => some { s with pool := pool, others := s.others + 1 }
  | .parent => some (s.launch c pool)
  | .child i =>
    (s.children[i]?).map fun ch =>
      { s with pool := pool, children := s.children.set i { ch with place := .running } }

/-- One step of the machine. -/
def step (s : Fan) (e : Event) : Option Fan :=
  if s.parent = .crashed then none
  else
    match e with
    | .post => some { s with pool := s.pool.scheduleTaskFromFiber .other }
    | .otherEnd =>
      if 0 < s.others then
        s.pool.finish.map fun p => { s with pool := p, others := s.others - 1 }
      else none
    | .insert req rsp =>
      -- another run of `call_single_service`, which names its service in `rsp`
      if rsp.serviceName = req.serviceName then
        some { s with cache := cacheSet s.cache req rsp }
      else none
    | .take => s.pool.take.bind fun tp => s.runTask c tp.2 tp.1
    | .sleep => s.pool.sleep.map fun p => { s with pool := p }
    | .call i e =>
      (s.children[i]?).bind fun ch => (c.reqs[i]?).bind fun req =>
        if ch.place = .running ∧ e.possible s.cache req = true then
          (callStep req ch.call e).map fun call' =>
            { s with
              children := s.children.set i { ch with call := call' }
              cache := cacheAfter s.cache req ch.call call' }
        else none
    | .childEnd i =>
      (s.children[i]?).bind fun ch =>
        -- the call of a list of one is no task of its own
        if s.parent ≠ .single ∧ ch.place = .running ∧ ch.call.phase = .done then
          s.pool.finish.map fun p =>
            { s with
              pool := p
              children := s.children.set i { ch with place := .ended }
              callNum := s.callNum - 1
              parent := s.afterChild }
        else none
    | e => parentStep mgr mem c s e

/-! ## What a step can do -/

inductive StepsTo (s : Fan) : Event → Fan → Prop where
  | post : StepsTo s .post { s with pool := s.pool.scheduleTaskFromFiber .other }
  | otherEnd {p : FiberPool Task} (ho : 0 < s.others) (hp : s.pool.finish = some p) :
      StepsTo s .otherEnd { s with pool := p, others := s.others - 1 }
  | insert {req : ServiceCallReq} {rsp : ServiceCallRsp}
      (hn : rsp.serviceName = req.serviceName) :
      StepsTo s (.insert req rsp) { s with cache := cacheSet s.cache req rsp }
  | sleep {p : FiberPool Task} (hp : s.pool.sleep = some p) : StepsTo s .sleep { s with pool := p }
  | takeOther {p : FiberPool Task} (hp : s.pool.take = some (.other, p)) :
      StepsTo s .take { s with pool := p, others := s.others + 1 }
  | takeParent {p : FiberPool Task} (hp : s.pool.take = some (.parent, p)) :
      StepsTo s .take (s.launch c p)
  | takeChild {p : FiberPool Task} {i : Nat} {ch : Child}
      (hp : s.pool.take = some (.child i, p)) (hch : s.children[i]? = some ch) :
      StepsTo s .take
        { s with pool := p, children := s.children.set i { ch with place := .running } }
  | schedule {i : Nat} {ch : Child} (hpar : s.parent = .scheduling i)
      (hch : s.children[i]? = some ch) :
      StepsTo s .schedule { s with
        pool := s.pool.scheduleTaskFromFiber (.child i)
        children := s.children.set i { ch with place := .queued }
        parent := .scheduling (i + 1) }
  | scheduled {i : Nat} (hpar : s.parent = .scheduling i) (hch : s.children[i]? = none) :
      StepsTo s .schedule { s with parent := .checking }
  | wait (hpar : s.parent = .checking) (hn : 0 < s.callNum) :
      StepsTo s .check { s with parent := .waiting }
  | join (hpar : s.parent = .checking) (hn : ¬ 0 < s.callNum) :
      StepsTo s .check { s with parent := .joined }
  | singleEnd (hpar : s.parent = .single) (hd : ∀ ch ∈ s.children, ch.call.phase = .done) :
      StepsTo s .singleEnd { s with
        parent := .joined
        children := s.children.map fun ch => { ch with place := .ended } }
  | crash (hpar : s.parent = .joined) (ht : c.doTransaction = true) (hne : s.children ≠ [])
      (hm : mgr.transactionMgr = false ∧ mgr.asserts = true) :
      StepsTo s .collect { s with parent := .crashed }
  | collect (hpar : s.parent = .joined) (ht : c.doTransaction = true)
      (hm : ¬ (s.children ≠ [] ∧ mgr.transactionMgr = false ∧ mgr.asserts = true)) :
      StepsTo s .collect { s with parent := .deciding s.needCancel (s.tranIds mem) 0 }
  | noTransaction (hpar : s.parent = .joined) (ht : c.doTransaction = false) :
      StepsTo s .collect { s with parent := .returning }
  | decide {needCancel : Bool} {ids : List Bytes} {i : Nat}
      (hpar : s.parent = .deciding needCancel ids i) (hi : i < c.reqs.length) :
      StepsTo s .decide { s with
        sent := s.sentAfter c needCancel ids i
        parent := .deciding needCancel ids (i + 1) }
  | decided {needCancel : Bool} {ids : List Bytes} {i : Nat}
      (hpar : s.parent = .deciding needCancel ids i) (hi : ¬ i < c.reqs.length) :
      StepsTo s .decide { s with parent := .returning }
  | callback {p : FiberPool Task} (hpar : s.parent = .returning) (hp : s.pool.finish = some p) :
      StepsTo s .callback
        { s with pool := p, parent := .finished, callbacks := s.callbacks + 1 }
  | call {i : Nat} {e : CallEvent} {ch : Child} {req : ServiceCallReq} {call' : CallState}
      (hch : s.children[i]? = some ch) (hreq : c.reqs[i]? = some req)
      (hrun : ch.place = .running) (he : e.possible s.cache req = true)
      (hstep : callStep req ch.call e = some call') :
      StepsTo s (.call i e) { s with
        children := s.children.set i { ch with call := call' }
        cache := cacheAfter s.cache req ch.call call' }
  | childEnd {p : FiberPool Task} {i : Nat} {ch : Child} (hch : s.children[i]? = some ch)
      (hns : s.parent ≠ .single) (hrun : ch.place = .running) (hd : ch.call.phase = .done)
      (hp : s.pool.finish = some p) :
      StepsTo s (.childEnd i) { s with
        pool := p
        children := s.children.set i { ch with place := .ended }
        callNum := s.callNum - 1
        parent := s.afterChild }

variable {mgr mem c}

theorem stepsTo_of_parentStep {s s' : Fan} {e : Event}
    (h : parentStep mgr mem c s e = some s') : StepsTo mgr mem c s e s' := by
  unfold parentStep at h
  split at h
  · rename_i i hpar
    split at h <;> obtain rfl := Option.some.inj h
    · exact .scheduled hpar ‹_›
    · exact .schedule hpar ‹_›
  · rename_i hpar
    obtain rfl := Option.some.inj h
    by_cases hn : 0 < s.callNum
    · rw [if_pos hn]
      exact .wait hpar hn
    · rw [if_neg hn]
      exact .join hpar hn
  · rename_i hpar
    split at h
    · rename_i hd
      obtain rfl := Option.some.inj h
      exact .singleEnd hpar (by simpa using hd)
    · simp at h
  · rename_i hpar
    split at h
    · rename_i ht
      split at h <;> obtain rfl := Option.some.inj h
      · rename_i hm
        exact .crash hpar ht hm.1 hm.2
      · exact .collect hpar ht ‹_›
    · rename_i ht
      obtain rfl := Option.some.inj h
      exact .noTransaction hpar (by simpa using ht)
  · rename_i hpar
    split at h <;> obtain rfl := Option.some.inj h
    · exact .decide hpar ‹_›
    · exact .decided hpar ‹_›
  · rename_i hpar
    obtain ⟨p, hp, rfl⟩ := Option.map_eq_some_iff.mp h
    exact .callback hpar hp
  · simp at h

/-- Whoever steps, the parent has not crashed, and the step is one of these. -/
theorem stepsTo_of_step {s s' : Fan} {e : Event} (h : step mgr mem c s e = some s') :
    s.parent ≠ .crashed ∧ StepsTo mgr mem c s e s' := by
  unfold step at h
  split at h
  · simp at h
  · refine ⟨‹_›, ?_⟩
    split at h
    · obtain rfl := Option.some.inj h
      exact .post
    · split at h
      · obtain ⟨p, hp, rfl⟩ := Option.map_eq_some_iff.mp h
        exact .otherEnd ‹_› hp
      · simp at h
    · split at h
      · obtain rfl := Option.some.inj h
        exact .insert ‹_›
      · simp at h
    · obtain ⟨⟨t, p⟩, hp, ht⟩ := Option.bind_eq_some_iff.mp h
      cases t with
      | other =>
        obtain rfl := Option.some.inj ht
        exact .takeOther hp
      | parent =>
        obtain rfl := Option.some.inj ht
        exact .takeParent hp
      | child i =>
        obtain ⟨ch, hch, rfl⟩ := Option.map_eq_some_iff.mp ht
        exact .takeChild hp hch
    · obtain ⟨p, hp, rfl⟩ := Option.map_eq_some_iff.mp h
      exact .sleep hp
    · obtain ⟨ch, hch, h⟩ := Option.bind_eq_some_iff.mp h
      obtain ⟨req, hreq, h⟩ := Option.bind_eq_some_iff.mp h
      split at h
      · rename_i hrun
        obtain ⟨call', hcall, rfl⟩ := Option.map_eq_some_iff.mp h
        exact .call hch hreq hrun.1 hrun.2 hcall
      · simp at h
    · obtain ⟨ch, hch, h⟩ := Option.bind_eq_some_iff.mp h
      split at h
      · rename_i hrun
        obtain ⟨p, hp, rfl⟩ := Option.map_eq_some_iff.mp h
        exact .childEnd hch hrun.1 hrun.2.1 hrun.2.2 hp
      · simp at h
    · exact stepsTo_of_parentStep h

end Step

end FiberProxy.Forward
