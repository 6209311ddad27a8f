/-
  FiberProxy.Forward.CallSingleService

  One service call: `FibpForwardManager::call_single_service` and the answer
  cache it uses (`FibpServiceCache`).  The function is a machine that stops at
  every point where its fiber may yield; the event says what came back there: an
  address, the outcome of a send, an answer, or what the cache gave.

  The cache is a list of what was inserted.  Which entries it still has when it
  is asked is the cache's own affair (`izenelib`'s `ConcurrentCache` is not part
  of the repository): it gives back a value inserted under an equal key, or
  nothing.
-/

import FiberProxy.Common.Types
import FiberProxy.Lib.Run

namespace FiberProxy.Forward

open Lib

/-- `MAX_RETRY`. -/
def maxRetry : Nat := 3

/-- Where a call stands; `n` is `retry_counter`. -/
inductive CallPhase where
  | start
  | lookup (n : Nat)
  | sending (n : Nat)
  | waiting (n : Nat)
  | consult
  | done
deriving DecidableEq, Repr

/-- The variables of a call: its place, `rsp` and `is_success`. -/
structure CallState where
  phase : CallPhase := .start
  rsp : ServiceCallRsp
  isSuccess : Bool := false
deriving DecidableEq, Repr

/-- What a call gets back where it stopped. -/
inductive CallEvent where
  /-- The fiber starts the call. -/
  | enter
  /-- `get_service_address`. -/
  | address (found : Option (Bytes × Bytes))
  /-- `client_mgr.send_request`: a client or future, or a null pointer. -/
  | sent (ok : Bool)
  /-- `client_mgr.get_response`: its result, `rspdata` and `can_retry`. -/
  | answered (ok : Bool) (rspdata : Bytes) (canRetry : Bool)
  /-- `cache_.get`. -/
  | cached (hit : Option ServiceCallRsp)
deriving DecidableEq, Repr

/-- The loop condition `++retry_counter <= MAX_RETRY`. -/
def nextTry (n : Nat) : CallPhase := if n < maxRetry then .lookup (n + 1) else .consult

/-- `FibpServiceCache::get`, for what the cache gave. -/
def cacheGet (req : ServiceCallReq) (hit : Option ServiceCallRsp) (rsp : ServiceCallRsp) :
    ServiceCallRsp :=
  match req.enableCache, hit with
  | true, some v => { v with isCached := true }
  | _, _ => rsp

/-- `call_single_service`, from one stop to the next. -/
def callStep (req : ServiceCallReq) (s : CallState) : CallEvent → Option CallState
  | .enter =>
    match s.phase with
    | .start =>
      -- `error`, `host` and the rest keep what the caller's entry held
      let rsp := { s.rsp with serviceName := req.serviceName }
      if req.serviceName = ascii "local_test" then
        some { s with phase := .done, rsp := { rsp with rsp := ascii "local_test" } }
      else some { s with phase := nextTry 0, rsp := rsp }
    | _ => none
  | .address found =>
    match s.phase, found with
    -- `break`: no other address is tried
    | .lookup _, none =>
      some { s with
        phase := .consult
        rsp := { s.rsp with error := ascii "Service Not Found." } }
    | .lookup n, some (ip, port) =>
      some { s with phase := .sending n, rsp := { s.rsp with host := ip, port := port } }
    | _, _ => none
  | .sent ok =>
    match s.phase with
    | .sending n =>
      if ok then some { s with phase := .waiting n }
      -- `continue`; the message is left for the last attempt only
      else if n = maxRetry then
        some { s with
          phase := nextTry n
          rsp := { s.rsp with error := ascii "Send Service Request Failed. " } }
      else some { s with phase := nextTry n }
    | _ => none
  | .answered ok rspdata canRetry =>
    match s.phase with
    | .waiting n =>
      if ok then
        some { phase := .done, rsp := { s.rsp with rsp := rspdata }, isSuccess := true }
      else if canRetry = false ∨ n = maxRetry then
        some { s with
          phase := .consult
          rsp := { s.rsp with error := ascii "Get Service Response Failed. " ++ rspdata } }
      else some { s with phase := nextTry n }
    | _ => none
  | .cached hit =>
    match s.phase with
    -- a hit overwrites the entry, `error` included
    | .consult => some { s with phase := .done, rsp := cacheGet req hit s.rsp }
    | _ => none

/-- A run of `call_single_service` on the entry `rsp`, with what came back on
    the way. -/
def callSingleService (req : ServiceCallReq) (rsp : ServiceCallRsp) (es : List CallEvent) :
    Option CallState :=
  run (callStep req) { rsp := rsp } es

/-! ## The cache -/

/-- What has been inserted into the cache. -/
abbrev ServiceCache := List (ServiceCallReq × ServiceCallRsp)

/-- `FibpServiceCache::set`. -/
def cacheSet (cache : ServiceCache) (req : ServiceCallReq) (rsp : ServiceCallRsp) : ServiceCache :=
  if rsp.error ≠ [] ∨ req.enableCache = false then cache else (req, rsp) :: cache

/-- What `cache_.get` may give for a key. -/
def cacheMayGive (cache : ServiceCache) (req : ServiceCallReq) (hit : Option ServiceCallRsp) :
    Bool :=
  match hit with
  | none => true
  | some v => cache.any fun e => e.1.same req && e.2 == v

/-- The events a call can meet, given the cache. -/
def CallEvent.possible (cache : ServiceCache) (req : ServiceCallReq) : CallEvent → Bool
  | .cached hit => cacheMayGive cache req hit
  | _ => true

/-- The cache after a step of a call: a call that has just succeeded calls `set`. -/
def cacheAfter (cache : ServiceCache) (req : ServiceCallReq) (before after : CallState) :
    ServiceCache :=
  if before.isSuccess = false ∧ after.isSuccess = true then cacheSet cache req after.rsp else cache

/-- Every cached answer names the service of its key. -/
def CacheNamed (cache : ServiceCache) : Prop :=
  ∀ e ∈ cache, e.2.serviceName = e.1.serviceName

theorem cacheNamed_cacheSet {cache : ServiceCache} {req : ServiceCallReq} {rsp : ServiceCallRsp}
    (h : CacheNamed cache) (hrsp : rsp.serviceName = req.serviceName) :
    CacheNamed (cacheSet cache req rsp) := by
  unfold cacheSet
  split
  · exact h
  · intro e he
    rcases List.mem_cons.mp he with rfl | he
    · exact hrsp
    · exact h e he

theorem serviceName_of_cacheMayGive {cache : ServiceCache} {req : ServiceCallReq}
    {v : ServiceCallRsp} (h : CacheNamed cache) (hv : cacheMayGive cache req (some v) = true) :
    v.serviceName = req.serviceName := by
  simp only [cacheMayGive, List.any_eq_true, Bool.and_eq_true, beq_iff_eq] at hv
  obtain ⟨e, he, hsame, rfl⟩ := hv
  rw [h e he, ServiceCallReq.same_serviceName hsame]

/-! ## The steps of a call -/

/-- What one step of a call can do. -/
inductive CallStepsTo (req : ServiceCallReq) (s : CallState) : CallEvent → CallState → Prop where
  | localTest (hp : s.phase = .start) (hn : req.serviceName = ascii "local_test") :
      CallStepsTo req s .enter { s with
        phase := .done
        rsp := { s.rsp with serviceName := req.serviceName, rsp := ascii "local_test" } }
  | enter (hp : s.phase = .start) (hn : req.serviceName ≠ ascii "local_test") :
      CallStepsTo req s .enter { s with
        phase := .lookup 1
        rsp := { s.rsp with serviceName := req.serviceName } }
  | notFound {n : Nat} (hp : s.phase = .lookup n) :
      CallStepsTo req s (.address none) { s with
        phase := .consult
        rsp := { s.rsp with error := ascii "Service Not Found." } }
  | found {n : Nat} (ip port : Bytes) (hp : s.phase = .lookup n) :
      CallStepsTo req s (.address (some (ip, port))) { s with
        phase := .sending n
        rsp := { s.rsp with host := ip, port := port } }
  | sent {n : Nat} (hp : s.phase = .sending n) :
      CallStepsTo req s (.sent true) { s with phase := .waiting n }
  | sendFailed {n : Nat} (error : Bytes) (hp : s.phase = .sending n) :
      CallStepsTo req s (.sent false) { s with
        phase := nextTry n
        rsp := { s.rsp with error := error } }
  | success {n : Nat} (rspdata : Bytes) (canRetry : Bool) (hp : s.phase = .waiting n) :
      CallStepsTo req s (.answered true rspdata canRetry)
        { phase := .done, rsp := { s.rsp with rsp := rspdata }, isSuccess := true }
  | failed {n : Nat} (rspdata : Bytes) (canRetry : Bool) (hp : s.phase = .waiting n) :
      CallStepsTo req s (.answered false rspdata canRetry) { s with
        phase := .consult
        rsp := { s.rsp with error := ascii "Get Service Response Failed. " ++ rspdata } }
  | retry {n : Nat} (rspdata : Bytes) (canRetry : Bool) (hp : s.phase = .waiting n)
      (hn : n ≠ maxRetry) :
      CallStepsTo req s (.answered false rspdata canRetry) { s with phase := nextTry n }
  | cached (hit : Option ServiceCallRsp) (hp : s.phase = .consult) :
      CallStepsTo req s (.cached hit) { s with phase := .done, rsp := cacheGet req hit s.rsp }

theorem callStepsTo_of_callStep {req : ServiceCallReq} {s s' : CallState} {e : CallEvent}
    (h : callStep req s e = some s') : CallStepsTo req s e s' := by
  unfold callStep at h
  split at h
  · split at h
    · rename_i hp
      split at h <;> obtain rfl := Option.some.inj h
      · exact .localTest hp ‹_›
      · exact .enter hp ‹_›
    · simp at h
  · split at h
    · rename_i n hp
      obtain rfl := Option.some.inj h
      exact .notFound hp
    · rename_i n ip port hp
      obtain rfl := Option.some.inj h
      exact .found ip port hp
    · simp at h
  · rename_i ok
    split at h
    · rename_i n hp
      cases ok with
      | true =>
        obtain rfl := Option.some.inj h
        exact .sent hp
      | false =>
        simp only [Bool.false_eq_true, if_false] at h
        split at h <;> obtain rfl := Option.some.inj h
        · exact .sendFailed _ hp
        · exact .sendFailed s.rsp.error hp
    · simp at h
  · rename_i ok rspdata canRetry
    split at h
    · rename_i n hp
      cases ok with
      | true =>
        obtain rfl := Option.some.inj h
        exact .success rspdata canRetry hp
      | false =>
        simp only [Bool.false_eq_true, if_false] at h
        split at h <;> obtain rfl := Option.some.inj h
        · exact .failed rspdata canRetry hp
        · rename_i hagain
          exact .retry rspdata canRetry hp fun hn => hagain (.inr hn)
    · simp at h
  · rename_i hit
    split at h
    · rename_i hp
      obtain rfl := Option.some.inj h
      exact .cached hit hp
    · simp at h

/-- Only a call that gives up writes an error. -/
theorem error_of_callStep {req : ServiceCallReq} {s s' : CallState} {e : CallEvent}
    (h : callStep req s e = some s') (hs : s.phase ≠ .consult) (hs' : s'.phase ≠ .consult) :
    s'.rsp.error = s.rsp.error := by
  cases callStepsTo_of_callStep h with
  | localTest | enter | found | sent | success | retry => rfl
  | notFound | failed => exact absurd rfl hs'
  | @sendFailed n error hp =>
    -- the loop goes on, so this was not the last attempt
    have hn : n ≠ maxRetry := by
      rintro rfl
      simp [nextTry] at hs'
    simp only [callStep, hp, Bool.false_eq_true, if_false, if_neg hn, Option.some.injEq] at h
    exact (congrArg (·.rsp.error) h).symm
  | cached _ hp => exact absurd hp hs

/-- From its first step on, a call's entry names its service, and a call that
    has succeeded is over. -/
structure CallState.Ok (req : ServiceCallReq) (s : CallState) : Prop where
  named : s.phase ≠ .start → s.rsp.serviceName = req.serviceName
  ended : s.isSuccess = true → s.phase = .done

theorem CallState.ok_start (req : ServiceCallReq) (rsp : ServiceCallRsp) :
    CallState.Ok req { rsp := rsp } :=
  ⟨fun h => absurd rfl h, fun h => absurd h (by simp)⟩

theorem callStep_ok {req : ServiceCallReq} {cache : ServiceCache} {s s' : CallState}
    {e : CallEvent} (hcache : CacheNamed cache) (hs : s.Ok req)
    (he : e.possible cache req = true) (h : callStep req s e = some s') : s'.Ok req := by
  -- before its end a call has not succeeded
  have hover {ph : CallPhase} (hp : s.phase = ph) (hne : ph ≠ .done) : s.isSuccess = false := by
    cases hsucc : s.isSuccess with
    | false => rfl
    | true => exact absurd ((hs.ended hsucc).symm.trans hp).symm hne
  have hname {ph : CallPhase} (hp : s.phase = ph) (hne : ph ≠ .start) :
      s.rsp.serviceName = req.serviceName := hs.named (by rwa [hp])
  cases callStepsTo_of_callStep h with
  | localTest hp hn => exact ⟨fun _ => rfl, fun _ => rfl⟩
  | enter hp hn => exact ⟨fun _ => rfl, fun hsucc => by simp [hover hp] at hsucc⟩
  | notFound hp | failed _ _ hp =>
    exact ⟨fun _ => hname hp (by simp), fun hsucc => by simp [hover hp] at hsucc⟩
  | found _ _ hp | sent hp | sendFailed _ hp | retry _ _ hp =>
    exact ⟨fun _ => hname hp (by simp), fun hsucc => by simp [hover hp] at hsucc⟩
  | success _ _ hp => exact ⟨fun _ => hname hp (by simp), fun _ => rfl⟩
  | cached hit hp =>
    refine ⟨fun _ => ?_, fun _ => rfl⟩
    -- a hit replaces the whole entry, service name included
    cases hit with
    | none => simpa [cacheGet] using hname hp (by simp)
    | some v =>
      have hv := serviceName_of_cacheMayGive hcache he
      cases hcache : req.enableCache <;> simp [cacheGet, hcache, hv, hname hp]

theorem cacheNamed_cacheAfter {req : ServiceCallReq} {cache : ServiceCache} {s s' : CallState}
    (hcache : CacheNamed cache) (hs' : s'.Ok req) : CacheNamed (cacheAfter cache req s s') := by
  unfold cacheAfter
  split
  · rename_i h
    exact cacheNamed_cacheSet hcache (hs'.named (by simp [hs'.ended h.2]))
  · exact hcache

/-! ## A call ends -/

/-- A bound on the steps a call still has to make. -/
def CallPhase.weight : CallPhase → Nat
  -- three attempts of at most four steps, and the way in and out
  | .start => 17
  | .lookup n => 4 * (4 - n) + 4
  | .sending n => 4 * (4 - n) + 3
  | .waiting n => 4 * (4 - n) + 2
  | .consult => 1
  | .done => 0

theorem weight_nextTry_lt (n : Nat) : (nextTry n).weight < 4 * (4 - n) + 2 := by
  unfold nextTry maxRetry
  split
  · simp only [CallPhase.weight]
    omega
  · simp only [CallPhase.weight]
    omega

theorem callStep_weight {req : ServiceCallReq} {s s' : CallState} {e : CallEvent}
    (h : callStep req s e = some s') : s'.phase.weight < s.phase.weight := by
  cases callStepsTo_of_callStep h with
  | localTest hp | enter hp | notFound hp | found _ _ hp | sent hp | success _ _ hp
  | failed _ _ hp | cached _ hp =>
    rw [hp]
    simp only [CallPhase.weight]
    omega
  | @sendFailed n _ hp | @retry n _ _ hp =>
    have hlt := weight_nextTry_lt n
    have hw : 4 * (4 - n) + 2 ≤ s.phase.weight := by
      rw [hp]
      simp only [CallPhase.weight]
      omega
    exact lt_of_lt_of_le hlt hw

/-- A call that is not over can always go on: whatever it waits for may fail. -/
theorem exists_callStep {req : ServiceCallReq} {s : CallState} (cache : ServiceCache)
    (h : s.phase ≠ .done) :
    ∃ e, CallEvent.possible cache req e = true ∧ (callStep req s e).isSome = true := by
  cases hp : s.phase with
  | start =>
    refine ⟨.enter, rfl, ?_⟩
    simp only [callStep, hp]
    split <;> rfl
  | lookup n => exact ⟨.address none, rfl, by simp [callStep, hp]⟩
  | sending n => exact ⟨.sent true, rfl, by simp [callStep, hp]⟩
  | waiting n => exact ⟨.answered true [] false, rfl, by simp [callStep, hp]⟩
  | consult => exact ⟨.cached none, rfl, by simp [callStep, hp]⟩
  | done => exact absurd hp h

end FiberProxy.Forward
