/-
  FiberProxy.Forward.Transaction

  Transactions over HTTP services: what a Try-Confirm-Cancel round promises
  (`AllOrNothing`) and what `call_services_in_fiber` makes of it after
  `FibpForwardManager::init`.

  The promise is about what was seen of each Try from outside: whether a participant
  answered it, and from which host and port (`seen`).  The code decides by other things: an
  error in the response record, which an answer from the cache removes, and an id that it
  looks for together with bytes behind a literal.  `allOrNothing_iff` says when the two agree.

  `init` sets every manager but `transaction_mgr_`.  In a build without assertions the
  transaction part runs all the same.
-/

import FiberProxy.Forward.FanIn
import FiberProxy.Forward.Retries
import FiberProxy.Forward.TransactionApi

namespace FiberProxy.Forward

open Lib
open Retries (Clean clean_cacheSet error_of_cacheMayGive nextTry_of_ne)

/-! ## What is seen of a Try -/

/-- The answer to a Try, and who gave it. -/
structure TryAnswer where
  host : Bytes
  port : Bytes
  rsp : Bytes
deriving DecidableEq, Repr

/-- What is seen of a call: the address it goes to, the live answer, and whether the cache
    had one. -/
structure Seen where
  address : Option (Bytes × Bytes) := none
  answer : Option TryAnswer := none
  cached : Bool := false
deriving DecidableEq, Repr

def Seen.after (v : Seen) : CallEvent → Seen
  | .address found => { v with address := found }
  | .answered true rspdata _ => { v with answer := v.address.map fun a => ⟨a.1, a.2, rspdata⟩ }
  | .cached hit => { v with cached := hit.isSome }
  | _ => v

/-- What a run shows of its `i`-th call. -/
def seen (es : List Event) (i : Nat) : Seen := (callEvents i es).foldl Seen.after {}

/-- A call without a live answer that leaves no error: one that the proxy answers itself, or one
    that the cache has an answer for. -/
def Excused (req : ServiceCallReq) (v : Seen) : Prop :=
  req.serviceName = ascii "local_test" ∨ (req.enableCache = true ∧ v.cached = true)

instance (req : ServiceCallReq) (v : Seen) : Decidable (Excused req v) :=
  inferInstanceAs (Decidable (_ ∨ _))

/-- What the variables of a call say of what was seen of it. -/
def Tells (req : ServiceCallReq) (v : Seen) (call : CallState) : Prop :=
  match call.phase with
  | .start => v.answer = none ∧ call.rsp.error = []
  | .lookup n => v.answer = none ∧ call.rsp.error = [] ∧ n ≤ maxRetry ∧
      req.serviceName ≠ ascii "local_test"
  | .sending n | .waiting n => v.answer = none ∧ call.rsp.error = [] ∧ n ≤ maxRetry ∧
      req.serviceName ≠ ascii "local_test" ∧ v.address = some (call.rsp.host, call.rsp.port)
  | .consult => v.answer = none ∧ call.rsp.error ≠ [] ∧ req.serviceName ≠ ascii "local_test"
  | .done =>
    match v.answer with
    | some a => call.rsp.error = [] ∧ a = ⟨call.rsp.host, call.rsp.port, call.rsp.rsp⟩
    | none => call.rsp.error = [] ↔ Excused req v

section Tells

variable {req : ServiceCallReq} {v : Seen} {call call' : CallState}

end Tells

/-- What the calls of a run tell, and a cache that holds no errors. -/
structure Told (c : ServicesCall) (es : List Event) (s : Fan) : Prop where
  clean : Clean s.cache
  calls : ∀ (i : Nat) req call, c.reqs[i]? = some req → s.calls[i]? = some call →
    Tells req (seen es i) call

section Told

variable {mgr : ForwardManager} {mem : LiteralMemory} {c : ServicesCall}

end Told

/-! ## What is sent -/

/-- The errors and the ids are those of the calls. -/
theorem Fan.needCancel_eq (s : Fan) :
    s.needCancel = s.calls.any fun call => call.rsp.error != [] := by
  simp [Fan.needCancel, Fan.calls, Function.comp_def]

theorem Fan.getElem?_tranIds (mem : LiteralMemory) (s : Fan) (i : Nat) :
    (s.tranIds mem)[i]? = (s.calls[i]?).map fun call => tranId mem call.rsp := by
  simp [Fan.tranIds, Fan.calls, Function.comp_def]

/-- The message of the `i`-th turn of the last loop, by the records as they are. -/
def Fan.turn (c : ServicesCall) (mem : LiteralMemory) (s : Fan) (i : Nat) :
    List (Nat × TranAction × TranMsg) :=
  match c.reqs[i]?, s.calls[i]? with
  | some req, some call =>
    ((tranMsg s.needCancel req call.rsp (tranId mem call.rsp)).map fun m => (i, m)).toList
  | _, _ => []

/-- The messages that have been sent. -/
def Sends (c : ServicesCall) (mem : LiteralMemory) (s : Fan) : Prop :=
  match s.parent with
  | .deciding needCancel ids i => needCancel = s.needCancel ∧ ids = s.tranIds mem ∧
      i ≤ c.reqs.length ∧ s.sent = (List.range i).flatMap (s.turn c mem)
  | .returning | .finished => s.sent = (List.range c.reqs.length).flatMap (s.turn c mem)
  | _ => s.sent = []

section Sends

variable {mgr : ForwardManager} {mem : LiteralMemory} {c : ServicesCall} {s s' : Fan}

theorem Fan.turn_congr (h : s'.calls = s.calls) : s'.turn c mem = s.turn c mem := by
  funext i
  simp only [Fan.turn, Fan.needCancel_eq, h]

theorem Fan.tranIds_congr (h : s'.calls = s.calls) : s'.tranIds mem = s.tranIds mem := by
  apply List.ext_getElem?
  intro i
  rw [Fan.getElem?_tranIds, Fan.getElem?_tranIds, h]

/-- Before the decision nothing is sent. -/
theorem Sends.nil (h : Sends c mem s) (hpast : s.parent.past = false) : s.sent = [] := by
  unfold Sends at h
  cases hpar : s.parent <;> simp_all [Parent.past]

/-- A step that leaves the calls and the messages. -/
theorem Sends.same (h : Sends c mem s) (hparent : s'.parent = s.parent)
    (hcalls : s'.calls = s.calls) (hsent : s'.sent = s.sent) : Sends c mem s' := by
  have hneed : s'.needCancel = s.needCancel := by
    rw [Fan.needCancel_eq, Fan.needCancel_eq, hcalls]
  unfold Sends at h ⊢
  rw [hparent, hsent, Fan.turn_congr hcalls, Fan.tranIds_congr hcalls, hneed]
  exact h

end Sends

/-- What was sent to the `i`-th participant. -/
def Fan.sentTo (s : Fan) (i : Nat) : List (TranAction × TranMsg) :=
  (s.sent.filter fun m => m.1 == i).map (·.2)

/-! ## All or nothing -/

/-- The message a participant is due: its own id, to the host that answered its Try. -/
def due (action : TranAction) (req : ServiceCallReq) (answer : TryAnswer) (tranId : Bytes) :
    TranAction × TranMsg :=
  (action, sendTransactionApi answer.host answer.port req.serviceApi tranId action)

/-- Every Try of the run has a live answer. -/
def AllAnswered (c : ServicesCall) (es : List Event) : Prop :=
  ∀ i < c.reqs.length, (seen es i).answer.isSome = true

/-- **All or nothing.**  If every Try was answered, each participant was sent its confirm and
    nothing else, and nobody a cancel; otherwise nobody was sent a confirm, and each
    participant that had answered its Try was sent its cancel and nothing else. -/
structure AllOrNothing (c : ServicesCall) (es : List Event) (ids : Nat → Bytes) (s : Fan) :
    Prop where
  confirmed : AllAnswered c es → (∀ m ∈ s.sent, m.2.1 ≠ .cancel) ∧
    ∀ (i : Nat) req answer, c.reqs[i]? = some req → (seen es i).answer = some answer →
      s.sentTo i = [due .confirm req answer (ids i)]
  cancelled : ¬ AllAnswered c es → (∀ m ∈ s.sent, m.2.1 ≠ .confirm) ∧
    ∀ (i : Nat) req answer, c.reqs[i]? = some req → (seen es i).answer = some answer →
      s.sentTo i = [due .cancel req answer (ids i)]

/-- The end of a transaction: what each call tells of its Try, and the messages. -/
structure Settled (mem : LiteralMemory) (c : ServicesCall) (es : List Event) (s : Fan) :
    Prop where
  sent : s.sent = (List.range c.reqs.length).flatMap (s.turn c mem)
  length : s.calls.length = c.reqs.length
  answered : ∀ (i : Nat) req call answer, c.reqs[i]? = some req → s.calls[i]? = some call →
    (seen es i).answer = some answer → call.rsp.error = [] ∧
      answer = ⟨call.rsp.host, call.rsp.port, call.rsp.rsp⟩
  failed : ∀ (i : Nat) req call, c.reqs[i]? = some req → s.calls[i]? = some call →
    (seen es i).answer = none → (call.rsp.error = [] ↔ Excused req (seen es i))

section Settled

variable {mgr : ForwardManager} {mem : LiteralMemory} {c : ServicesCall} {es : List Event} {s : Fan}
variable {i : Nat} {req : ServiceCallReq} {call : CallState} {answer : TryAnswer}

/-- All messages are of one kind. -/
theorem Settled.action (hs : Settled mem c es s) {m : Nat × TranAction × TranMsg}
    (hm : m ∈ s.sent) : m.2.1 = if s.needCancel then .cancel else .confirm := by
  rw [hs.sent] at hm
  obtain ⟨i, -, hm⟩ := List.mem_flatMap.mp hm
  unfold Fan.turn at hm
  split at hm
  · simp only [Option.mem_toList, Option.map_eq_some_iff] at hm
    obtain ⟨m', hm', rfl⟩ := hm
    unfold tranMsg at hm'
    split at hm'
    · split at hm'
      · cases hm'
      · obtain rfl := Option.some.inj hm'
        simp [‹s.needCancel = true›]
    · obtain rfl := Option.some.inj hm'
      simp [‹¬ s.needCancel = true›]
  · cases hm

section Ids

variable {ids : Nat → Bytes} (hids : ∀ (i : Nat) req answer, c.reqs[i]? = some req →
  (seen es i).answer = some answer → 34 ∉ ids i)

include hids

end Ids

end Settled

end FiberProxy.Forward
