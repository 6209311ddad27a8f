/-
  FiberProxy.Forward.Retries

  The outcome of the retry loop in `FibpForwardManager::call_single_service`.  The
  machine of `FiberProxy.Forward.CallSingleService` gets its addresses from the registry,
  by the balance index that it counts up from `rand()`, and its cached answers from a
  cache that other calls fill too.  Next to its state it keeps the attempts it has made.

  `outcome` says what is in the response record when the call returns, and where the
  attempts went.
-/

import FiberProxy.Forward.TableAccess
import FiberProxy.Lib.Lists

namespace FiberProxy.Forward.Retries

open Lib Registry

/-- An attempt: where it went, and the payload if it succeeded. -/
structure Attempt where
  address : HostPair
  payload : Option Bytes
deriving DecidableEq, Repr

/-- The loop, with the cache and the attempts so far. -/
structure State where
  call : CallState := { rsp := {} }
  balanceIndex : Nat := 0
  cache : ServiceCache := []
  attempts : List Attempt := []
  /-- What the cache held for the request when it was asked. -/
  held : Option ServiceCallRsp := none

inductive Event where
  /-- Another call stores its answer. -/
  | otherSet (req : ServiceCallReq) (rsp : ServiceCallRsp)
  /-- The call begins; `rand` is what `rand()` gives. -/
  | enter (rand : Nat)
  /-- `get_service_address`, on what is registered at that time. -/
  | lookup (table : Registry.State) (cluster : Bytes)
  | sent (ok : Bool)
  | answered (ok : Bool) (rspdata : Bytes) (canRetry : Bool)
  /-- `FibpServiceCache::get`; `held` is what the cache has for an equal request. -/
  | consult (held : Option ServiceCallRsp)

/-- The address of the next attempt. -/
def nextAddress (req : ServiceCallReq) (table : Registry.State) (cluster : Bytes)
    (balanceIndex : Nat) : Option HostPair :=
  getServiceAddress table cluster balanceIndex req.serviceName (typeIndex req.serviceType)

/-- The last attempt has succeeded. -/
def succeedLast (attempts : List Attempt) (payload : Bytes) : List Attempt :=
  match attempts.getLast? with
  | none => attempts
  | some a => attempts.dropLast ++ [{ a with payload := some payload }]

def step (req : ServiceCallReq) (s : State) : Event → Option State
  | .otherSet req' rsp => some { s with cache := cacheSet s.cache req' rsp }
  | .enter rand =>
    (callStep req s.call .enter).map fun call => { s with call := call, balanceIndex := rand }
  | .lookup table cluster =>
    let found := nextAddress req table cluster (s.balanceIndex + 1)
    (callStep req s.call (.address found)).map fun call =>
      { s with
        call := call
        balanceIndex := s.balanceIndex + 1
        attempts := s.attempts ++ found.toList.map fun hp => ⟨hp, none⟩ }
  | .sent ok => (callStep req s.call (.sent ok)).map fun call => { s with call := call }
  | .answered ok rspdata canRetry =>
    (callStep req s.call (.answered ok rspdata canRetry)).map fun call =>
      { s with
        call := call
        cache := cacheAfter s.cache req s.call call
        attempts := if ok then succeedLast s.attempts rspdata else s.attempts }
  | .consult held =>
    if cacheMayGive s.cache req held then
      (callStep req s.call (.cached held)).map fun call => { s with call := call, held := held }
    else none

/-! ## The steps -/

/-- The call goes on with another record. -/
def State.go (s : State) (phase : CallPhase) (rsp : ServiceCallRsp) : State :=
  { s with call := { s.call with phase := phase, rsp := rsp } }

/-- What one step can do. -/
inductive StepsTo (req : ServiceCallReq) (s : State) : Event → State → Prop where
  | otherSet (req' : ServiceCallReq) (rsp : ServiceCallRsp) :
      StepsTo req s (.otherSet req' rsp) { s with cache := cacheSet s.cache req' rsp }
  | enter (hp : s.call.phase = .start) (hn : req.serviceName ≠ ascii "local_test") (rand : Nat) :
      StepsTo req s (.enter rand)
        { s.go (.lookup 1) { s.call.rsp with serviceName := req.serviceName } with
          balanceIndex := rand }
  | localTest (hp : s.call.phase = .start) (hn : req.serviceName = ascii "local_test")
      (rand : Nat) :
      StepsTo req s (.enter rand)
        { s.go .done { s.call.rsp with
            serviceName := req.serviceName, rsp := ascii "local_test" } with
          balanceIndex := rand }
  | notFound {n : Nat} (hp : s.call.phase = .lookup n) (table : Registry.State) (cluster : Bytes)
      (h : nextAddress req table cluster (s.balanceIndex + 1) = none) :
      StepsTo req s (.lookup table cluster)
        { s.go .consult { s.call.rsp with error := ascii "Service Not Found." } with
          balanceIndex := s.balanceIndex + 1 }
  | found {n : Nat} (hp : s.call.phase = .lookup n) (table : Registry.State) (cluster : Bytes)
      (address : HostPair)
      (h : nextAddress req table cluster (s.balanceIndex + 1) = some address) :
      StepsTo req s (.lookup table cluster)
        { s.go (.sending n) { s.call.rsp with host := address.1, port := address.2 } with
          balanceIndex := s.balanceIndex + 1
          attempts := s.attempts ++ [⟨address, none⟩] }
  | sent {n : Nat} (hp : s.call.phase = .sending n) :
      StepsTo req s (.sent true) (s.go (.waiting n) s.call.rsp)
  | sendRetry {n : Nat} (hp : s.call.phase = .sending n) (hn : n ≠ maxRetry) :
      StepsTo req s (.sent false) (s.go (nextTry n) s.call.rsp)
  | sendFailed (hp : s.call.phase = .sending maxRetry) :
      StepsTo req s (.sent false)
        (s.go .consult { s.call.rsp with error := ascii "Send Service Request Failed. " })
  | success {n : Nat} (hp : s.call.phase = .waiting n) (rspdata : Bytes) (canRetry : Bool)
      (cache : ServiceCache)
      (hcache : cache = s.cache ∨ cache = cacheSet s.cache req { s.call.rsp with rsp := rspdata }) :
      StepsTo req s (.answered true rspdata canRetry)
        { s with
          call := { phase := .done, rsp := { s.call.rsp with rsp := rspdata }, isSuccess := true }
          cache := cache
          attempts := succeedLast s.attempts rspdata }
  | retry {n : Nat} (hp : s.call.phase = .waiting n) (hn : n ≠ maxRetry) (rspdata : Bytes)
      (canRetry : Bool) :
      StepsTo req s (.answered false rspdata canRetry) (s.go (nextTry n) s.call.rsp)
  | failed {n : Nat} (hp : s.call.phase = .waiting n) (rspdata : Bytes) (canRetry : Bool) :
      StepsTo req s (.answered false rspdata canRetry)
        (s.go .consult
          { s.call.rsp with error := ascii "Get Service Response Failed. " ++ rspdata })
  | consult (hp : s.call.phase = .consult) (held : Option ServiceCallRsp)
      (hheld : cacheMayGive s.cache req held = true) :
      StepsTo req s (.consult held)
        { s.go .done (cacheGet req held s.call.rsp) with held := held }

section Steps

variable {req : ServiceCallReq} {s s' : State}

theorem stepsTo_lookup {table : Registry.State} {cluster : Bytes}
    (h : step req s (.lookup table cluster) = some s') :
    StepsTo req s (.lookup table cluster) s' := by
  obtain ⟨call, hcall, rfl⟩ := Option.map_eq_some_iff.mp h
  cases hfound : nextAddress req table cluster (s.balanceIndex + 1) with
  | none =>
    rw [hfound] at hcall
    cases hp : s.call.phase <;> simp only [callStep, hp, reduceCtorEq] at hcall
    cases hcall
    simpa [State.go] using StepsTo.notFound hp table cluster hfound
  | some address =>
    rw [hfound] at hcall
    cases hp : s.call.phase <;> simp only [callStep, hp, reduceCtorEq] at hcall
    cases hcall
    exact StepsTo.found hp table cluster address hfound

theorem stepsTo_sent {ok : Bool} (h : step req s (.sent ok) = some s') :
    StepsTo req s (.sent ok) s' := by
  obtain ⟨call, hcall, rfl⟩ := Option.map_eq_some_iff.mp h
  cases hp : s.call.phase <;> simp only [callStep, hp, reduceCtorEq] at hcall
  cases ok with
  | true =>
    cases hcall
    exact StepsTo.sent hp
  | false =>
    rw [if_neg (by decide)] at hcall
    split at hcall
    · rename_i hn
      cases hcall
      subst hn
      exact StepsTo.sendFailed hp
    · rename_i hn
      cases hcall
      exact StepsTo.sendRetry hp hn

theorem stepsTo_answered {ok : Bool} {rspdata : Bytes} {canRetry : Bool}
    (h : step req s (.answered ok rspdata canRetry) = some s') :
    StepsTo req s (.answered ok rspdata canRetry) s' := by
  obtain ⟨call, hcall, rfl⟩ := Option.map_eq_some_iff.mp h
  cases hp : s.call.phase <;> simp only [callStep, hp, reduceCtorEq] at hcall
  cases ok with
  | true =>
    cases hcall
    refine StepsTo.success hp rspdata canRetry _ ?_
    unfold cacheAfter
    split
    · exact Or.inr rfl
    · exact Or.inl rfl
  | false =>
    rw [if_neg (by decide)] at hcall
    -- the call has not succeeded with this step, so nothing is stored
    have hcache (c : CallState) (hc : c.isSuccess = s.call.isSuccess) :
        cacheAfter s.cache req s.call c = s.cache := by
      unfold cacheAfter
      rw [hc, if_neg]
      rintro ⟨h₁, h₂⟩
      rw [h₁] at h₂
      cases h₂
    split at hcall
    · cases hcall
      simp only [hcache, Bool.false_eq_true, if_false]
      exact StepsTo.failed hp rspdata canRetry
    · rename_i hn
      cases hcall
      simp only [hcache, Bool.false_eq_true, if_false]
      exact StepsTo.retry hp (fun hmax => hn (Or.inr hmax)) rspdata canRetry

theorem stepsTo_of_step {e : Event} (h : step req s e = some s') : StepsTo req s e s' := by
  cases e with
  | otherSet req' rsp =>
    cases h
    exact StepsTo.otherSet req' rsp
  | enter rand =>
    obtain ⟨call, hcall, rfl⟩ := Option.map_eq_some_iff.mp h
    cases hp : s.call.phase <;> simp only [callStep, hp, reduceCtorEq] at hcall
    split at hcall
    · rename_i hn
      cases hcall
      exact StepsTo.localTest hp hn rand
    · rename_i hn
      cases hcall
      exact StepsTo.enter hp hn rand
  | lookup table cluster => exact stepsTo_lookup h
  | sent ok => exact stepsTo_sent h
  | answered ok rspdata canRetry => exact stepsTo_answered h
  | consult held =>
    simp only [step] at h
    split at h
    · rename_i hheld
      obtain ⟨call, hcall, rfl⟩ := Option.map_eq_some_iff.mp h
      cases hp : s.call.phase <;> simp only [callStep, hp, reduceCtorEq] at hcall
      cases hcall
      exact StepsTo.consult hp held hheld
    · cases h

end Steps

/-! ## What is true on the way -/

/-- Only answers without an error are stored. -/
def Clean (cache : ServiceCache) : Prop := ∀ e ∈ cache, e.2.error = []

theorem clean_cacheSet {cache : ServiceCache} (h : Clean cache) (req : ServiceCallReq)
    (rsp : ServiceCallRsp) : Clean (cacheSet cache req rsp) := by
  unfold cacheSet
  split
  · exact h
  · rename_i hset
    intro e he
    rcases List.mem_cons.mp he with rfl | he
    · exact not_not.mp fun hne => hset (Or.inl hne)
    · exact h e he

theorem error_of_cacheMayGive {cache : ServiceCache} {req : ServiceCallReq} {v : ServiceCallRsp}
    (h : Clean cache) (hv : cacheMayGive cache req (some v) = true) : v.error = [] := by
  simp only [cacheMayGive, List.any_eq_true, Bool.and_eq_true, beq_iff_eq] at hv
  obtain ⟨e, he, -, rfl⟩ := hv
  exact h e he

/-- No attempt has succeeded yet, and there are `n` of them. -/
structure Unanswered (attempts : List Attempt) (rsp : ServiceCallRsp) (n : Nat) : Prop where
  count : attempts.length = n
  bound : n ≤ maxRetry
  payload : ∀ a ∈ attempts, a.payload = none
  notCached : rsp.isCached = false

/-- The last attempt went where the record says. -/
def AtLast (attempts : List Attempt) (rsp : ServiceCallRsp) : Prop :=
  attempts.getLast? = some ⟨(rsp.host, rsp.port), none⟩

/-- What a call returns. -/
structure Outcome (req : ServiceCallReq) (attempts : List Attempt) (rsp : ServiceCallRsp)
    (held : Option ServiceCallRsp) : Prop where
  bound : attempts.length ≤ maxRetry
  error : rsp.error = [] ↔
    (∃ a, attempts.getLast? = some a ∧ a.payload.isSome = true) ∨
      (req.enableCache = true ∧ held.isSome = true)
  isCached : rsp.isCached = true ↔
    (∀ a ∈ attempts, a.payload = none) ∧ req.enableCache = true ∧ held.isSome = true
  live : ∀ a ∈ attempts, ∀ payload, a.payload = some payload →
    rsp.rsp = payload ∧ (rsp.host, rsp.port) = a.address

/-- Where the call stands. -/
def Inv (req : ServiceCallReq) (s : State) : Prop :=
  Clean s.cache ∧
    match s.call.phase with
    | .start => s.call.rsp = {} ∧ s.attempts = [] ∧ s.held = none
    | .lookup n =>
      s.call.rsp.error = [] ∧ (1 ≤ n ∧ n ≤ maxRetry) ∧
        Unanswered s.attempts s.call.rsp (n - 1) ∧ s.held = none
    | .sending n | .waiting n =>
      s.call.rsp.error = [] ∧ Unanswered s.attempts s.call.rsp n ∧
        AtLast s.attempts s.call.rsp ∧ s.held = none
    | .consult => s.call.rsp.error ≠ [] ∧ ∃ n, Unanswered s.attempts s.call.rsp n
    | .done => Outcome req s.attempts s.call.rsp s.held

section Inv

variable {req : ServiceCallReq} {s s' : State}

theorem nextTry_of_ne {n : Nat} (hn : n ≤ maxRetry) (hne : n ≠ maxRetry) :
    nextTry n = .lookup (n + 1) := if_pos (by omega)

/-- Another attempt after one that may be repeated. -/
theorem inv_retry {n : Nat} (hclean : Clean s.cache) (herror : s.call.rsp.error = [])
    (h : Unanswered s.attempts s.call.rsp n) (hheld : s.held = none) (hn : n ≠ maxRetry) :
    Inv req (s.go (nextTry n) s.call.rsp) := by
  have hlt : n < maxRetry := Nat.lt_of_le_of_ne h.bound hn
  rw [nextTry_of_ne h.bound hn]
  exact ⟨hclean, herror, ⟨by omega, hlt⟩, h, hheld⟩

/-- The loop ends with an error in the record. -/
theorem inv_consult {n : Nat} {error : Bytes} (hclean : Clean s.cache) (herror : error ≠ [])
    (h : Unanswered s.attempts s.call.rsp n) :
    Inv req (s.go .consult { s.call.rsp with error := error }) :=
  ⟨hclean, herror, n, h.count, h.bound, h.payload, h.notCached⟩

theorem succeedLast_eq {attempts : List Attempt} {a : Attempt} (h : attempts.getLast? = some a)
    (payload : Bytes) :
    ∃ init, attempts = init ++ [a] ∧
      succeedLast attempts payload = init ++ [{ a with payload := some payload }] := by
  obtain ⟨init, rfl⟩ := List.getLast?_eq_some_iff.mp h
  exact ⟨init, rfl, by simp [succeedLast]⟩

/-- The last attempt succeeds. -/
theorem outcome_success {attempts : List Attempt} {rsp : ServiceCallRsp} {n : Nat}
    (herror : rsp.error = []) (h : Unanswered attempts rsp n) (hlast : AtLast attempts rsp)
    (rspdata : Bytes) :
    Outcome req (succeedLast attempts rspdata) { rsp with rsp := rspdata } none := by
  obtain ⟨init, rfl, heq⟩ := succeedLast_eq hlast rspdata
  have hinit : ∀ a ∈ init, a.payload = none := fun a ha => h.payload a (by simp [ha])
  rw [heq]
  constructor
  case bound =>
    have hcount := h.count
    have hbound := h.bound
    simp only [List.length_append, List.length_singleton] at hcount ⊢
    omega
  case error => simp [herror]
  case isCached => simp [h.notCached]
  case live =>
    intro a ha payload hpayload
    rcases List.mem_append.mp ha with ha | ha
    · rw [hinit a ha] at hpayload
      cases hpayload
    · obtain rfl := List.mem_singleton.mp ha
      exact ⟨Option.some.inj hpayload, rfl⟩

/-- The cache is asked after a failure. -/
theorem outcome_consult {attempts : List Attempt} {rsp : ServiceCallRsp} {n : Nat}
    {cache : ServiceCache} {held : Option ServiceCallRsp} (hclean : Clean cache)
    (herror : rsp.error ≠ []) (h : Unanswered attempts rsp n)
    (hheld : cacheMayGive cache req held = true) :
    Outcome req attempts (cacheGet req held rsp) held := by
  have hlast : ¬ ∃ a, attempts.getLast? = some a ∧ a.payload.isSome = true := by
    rintro ⟨a, ha, hsome⟩
    rw [h.payload a (List.mem_of_getLast? ha)] at hsome
    cases hsome
  have hlive : ∀ a ∈ attempts, ∀ payload, a.payload = some payload →
      (cacheGet req held rsp).rsp = payload ∧
        ((cacheGet req held rsp).host, (cacheGet req held rsp).port) = a.address := by
    intro a ha payload hpayload
    rw [h.payload a ha] at hpayload
    cases hpayload
  have hbound : attempts.length ≤ maxRetry := h.count ▸ h.bound
  refine ⟨hbound, ?_, ?_, hlive⟩
  · cases henable : req.enableCache with
    | false => simp [cacheGet, henable, herror, hlast]
    | true =>
      cases held with
      | none => simp [cacheGet, henable, herror, hlast]
      | some v => simp [cacheGet, henable, error_of_cacheMayGive hclean hheld]
  · have hnone := h.payload
    cases henable : req.enableCache with
    | false => simp [cacheGet, henable, h.notCached]
    | true =>
      cases held with
      | none => simp [cacheGet, henable, h.notCached]
      | some v => simpa [cacheGet, henable] using hnone

theorem inv_step (hname : req.serviceName ≠ ascii "local_test") {e : Event} (h : Inv req s)
    (hstep : step req s e = some s') : Inv req s' := by
  obtain ⟨hclean, hphase⟩ := h
  cases stepsTo_of_step hstep with
  | otherSet req' rsp => exact ⟨clean_cacheSet hclean req' rsp, hphase⟩
  | localTest hp hn rand => exact absurd hn hname
  | enter hp hn rand =>
    rw [hp] at hphase
    obtain ⟨hrsp, hattempts, hheld⟩ := hphase
    refine ⟨hclean, ?_, ⟨Nat.le_refl 1, by decide⟩, ⟨?_, by decide, ?_, ?_⟩, hheld⟩
    · simp [State.go, hrsp]
    · simp [State.go, hattempts]
    · simp [State.go, hattempts]
    · simp [State.go, hrsp]
  | notFound hp table cluster hfound =>
    rw [hp] at hphase
    obtain ⟨-, -, hun, -⟩ := hphase
    exact ⟨hclean, show ascii "Service Not Found." ≠ [] by decide, _, hun.count, hun.bound,
      hun.payload, hun.notCached⟩
  | @found n hp table cluster address hfound =>
    rw [hp] at hphase
    obtain ⟨herror, ⟨hpos, hle⟩, hun, hheld⟩ := hphase
    refine ⟨hclean, herror, ⟨?_, hle, ?_, hun.notCached⟩, ?_, hheld⟩
    · have hcount := hun.count
      simp only [List.length_append, List.length_singleton]
      omega
    · exact forall_mem_snoc hun.payload rfl
    · simp [AtLast, State.go]
  | sent hp =>
    rw [hp] at hphase
    exact ⟨hclean, hphase⟩
  | sendRetry hp hn =>
    rw [hp] at hphase
    obtain ⟨herror, hun, -, hheld⟩ := hphase
    exact inv_retry hclean herror hun hheld hn
  | sendFailed hp =>
    rw [hp] at hphase
    exact inv_consult hclean (by decide) hphase.2.1
  | success hp rspdata canRetry cache hcache =>
    rw [hp] at hphase
    obtain ⟨herror, hun, hlast, hheld⟩ := hphase
    refine ⟨?_, ?_⟩
    · rcases hcache with rfl | rfl
      · exact hclean
      · exact clean_cacheSet hclean _ _
    · simp only [hheld]
      exact outcome_success herror hun hlast rspdata
  | retry hp hn rspdata canRetry =>
    rw [hp] at hphase
    obtain ⟨herror, hun, -, hheld⟩ := hphase
    exact inv_retry hclean herror hun hheld hn
  | failed hp rspdata canRetry =>
    rw [hp] at hphase
    refine inv_consult hclean ?_ hphase.2.1
    exact fun hnil => absurd (List.append_eq_nil_iff.mp hnil).1 (by decide)
  | consult hp held hheld =>
    rw [hp] at hphase
    obtain ⟨herror, n, hun⟩ := hphase
    exact ⟨hclean, outcome_consult hclean herror hun hheld⟩

theorem inv_init (req : ServiceCallReq) : Inv req {} :=
  ⟨by simp [Clean], rfl, rfl, rfl⟩

end Inv

/-! ## Where the attempts go -/

/-- At a lookup the registry has these addresses for the request. -/
def Event.Offers (req : ServiceCallReq) (hosts : List HostPair) : Event → Prop
  | .lookup table cluster =>
    ∃ t, serviceTypes[typeIndex req.serviceType]? = some t ∧
      table.hosts t (serviceKey req.serviceName cluster) = some hosts
  | _ => True

def State.addresses (s : State) : List HostPair := s.attempts.map Attempt.address

/-- The attempts have taken the addresses one after the other, from some place on. -/
inductive Rotating (hosts : List HostPair) (s : State) : Prop where
  | start (hp : s.call.phase = .start) (h : s.addresses = [])
  | running (b : Nat) (hp : s.call.phase ≠ .start)
      (hindex : s.balanceIndex = b + s.addresses.length)
      (h : ∀ i p, s.addresses[i]? = some p → hosts[(b + i + 1) % hosts.length]? = some p)

theorem map_address_succeedLast (attempts : List Attempt) (payload : Bytes) :
    (succeedLast attempts payload).map Attempt.address = attempts.map Attempt.address := by
  cases h : attempts.getLast? with
  | none => simp [succeedLast, h]
  | some a =>
    obtain ⟨init, rfl, heq⟩ := succeedLast_eq h payload
    rw [heq]
    simp

theorem nextTry_ne_start (n : Nat) : nextTry n ≠ .start := by
  unfold nextTry
  split <;> simp

section Rotating

variable {req : ServiceCallReq} {hosts : List HostPair} {s s' : State}

/-- Balance index and addresses stay. -/
theorem Rotating.keep (h : Rotating hosts s) (hstart : s.call.phase ≠ .start)
    (hstart' : s'.call.phase ≠ .start) (hindex : s'.balanceIndex = s.balanceIndex)
    (haddresses : s'.addresses = s.addresses) : Rotating hosts s' := by
  cases h with
  | start hp h => exact absurd hp hstart
  | running b hp hindex' h =>
    exact .running b hstart' (by rw [hindex, haddresses, hindex']) (by rwa [haddresses])

/-- The lookup takes the next address. -/
theorem nextAddress_of_offers {table : Registry.State} {cluster : Bytes}
    (h : (Event.lookup table cluster).Offers req hosts) (balanceIndex : Nat) :
    nextAddress req table cluster balanceIndex = hosts[balanceIndex % hosts.length]? := by
  obtain ⟨t, ht, hhosts⟩ := h
  simp only [nextAddress, getServiceAddress, ht, hhosts]

theorem Rotating.lookup {table : Registry.State} {cluster : Bytes} {address : HostPair}
    (h : Rotating hosts s) (hstart : s.call.phase ≠ .start)
    (hoffers : (Event.lookup table cluster).Offers req hosts)
    (hfound : nextAddress req table cluster (s.balanceIndex + 1) = some address)
    (hstart' : s'.call.phase ≠ .start) (hindex : s'.balanceIndex = s.balanceIndex + 1)
    (haddresses : s'.addresses = s.addresses ++ [address]) : Rotating hosts s' := by
  rw [nextAddress_of_offers hoffers] at hfound
  cases h with
  | start hp h => exact absurd hp hstart
  | running b hp hindex' h =>
    refine .running b hstart' ?_ fun i p hi => ?_
    · rw [hindex, haddresses, hindex', List.length_append, List.length_singleton, Nat.add_assoc]
    · rw [haddresses] at hi
      rcases getElem?_snoc_eq_some hi with hi | ⟨rfl, rfl⟩
      · exact h i p hi
      · rwa [hindex'] at hfound

theorem rotating_step {e : Event} (hne : hosts ≠ []) (h : Rotating hosts s)
    (hoffers : e.Offers req hosts) (hstep : step req s e = some s') : Rotating hosts s' := by
  cases stepsTo_of_step hstep with
  | otherSet req' rsp =>
    cases h with
    | start hp h => exact .start hp h
    | running b hp hindex h => exact .running b hp hindex h
  | enter hp _ rand | localTest hp _ rand =>
    have hnil : s.addresses = [] := by
      cases h with
      | start _ h => exact h
      | running b hp' => exact absurd hp hp'
    refine .running rand (by simp [State.go]) ?_ ?_
    · simpa [State.addresses, State.go] using hnil
    · intro i p hi
      have hi' : s.addresses[i]? = some p := hi
      rw [hnil] at hi'
      cases hi'
  | notFound hp table cluster hfound =>
    rw [nextAddress_of_offers hoffers] at hfound
    have hsome := isSome_getElem?_mod hne (s.balanceIndex + 1)
    rw [hfound] at hsome
    cases hsome
  | found hp table cluster address hfound =>
    exact h.lookup (by simp [hp]) hoffers hfound (by simp [State.go]) rfl
      (by simp [State.addresses])
  | sent hp => exact h.keep (by simp [hp]) (by simp [State.go]) rfl rfl
  | sendRetry hp => exact h.keep (by simp [hp]) (nextTry_ne_start _) rfl rfl
  | sendFailed hp => exact h.keep (by simp [hp]) (by simp [State.go]) rfl rfl
  | success hp rspdata canRetry cache hcache =>
    exact h.keep (by simp [hp]) (by simp) rfl (map_address_succeedLast s.attempts rspdata)
  | retry hp => exact h.keep (by simp [hp]) (nextTry_ne_start _) rfl rfl
  | failed hp => exact h.keep (by simp [hp]) (by simp [State.go]) rfl rfl
  | consult hp => exact h.keep (by simp [hp]) (by simp [State.go]) rfl rfl

/-- Within one round the addresses differ. -/
theorem Rotating.nodup (h : Rotating hosts s) (hnodup : hosts.Nodup) :
    (s.addresses.take hosts.length).Nodup := by
  rw [List.nodup_iff_getElem?_ne_getElem?]
  intro i j hij hj heq
  have hj' : j < hosts.length ∧ j < s.addresses.length := by simpa using hj
  rw [List.getElem?_take_of_lt (by omega), List.getElem?_take_of_lt hj'.1] at heq
  cases h with
  | start hp h => simp [h] at hj'
  | running b hp hindex h =>
    obtain ⟨p, hp⟩ : ∃ p, s.addresses[j]? = some p := ⟨_, List.getElem?_eq_getElem hj'.2⟩
    have hsame := (h i p (heq.trans hp)).trans (h j p hp).symm
    have heq' := getElem?_mod_inj hnodup (by omega) (by omega) hsame
    omega

end Rotating

/-- **The outcome of a call** on an empty record, whatever the lookups and the attempts give:
    at most three attempts; what the record says when the call returns; and, as long as the
    registry has the same addresses, different ones until all of them were tried. -/
theorem outcome {req : ServiceCallReq} {es : List Event} {s : State}
    (hname : req.serviceName ≠ ascii "local_test") (hrun : run (step req) {} es = some s)
    (hdone : s.call.phase = .done) :
    Outcome req s.attempts s.call.rsp s.held ∧
      ∀ hosts : List HostPair, hosts.Nodup → hosts ≠ [] → (∀ e ∈ es, e.Offers req hosts) →
        (s.addresses.take hosts.length).Nodup := by
  constructor
  · have hinv := run_inv (fun _ _ _ => inv_step hname) (inv_init req) hrun
    have hphase := hinv.2
    rwa [hdone] at hphase
  · intro hosts hnodup hne hoffers
    have hrotating : (∀ e ∈ es, e.Offers req hosts) → Rotating hosts s := by
      refine run_induction (P := fun es s => (∀ e ∈ es, e.Offers req hosts) → Rotating hosts s)
        (fun _ => .start rfl rfl) ?_ hrun
      intro es s e s' _ ih hstep hall
      exact rotating_step hne (ih fun e' he' => hall e' (by simp [he'])) (hall e (by simp)) hstep
    exact (hrotating hoffers).nodup hnodup

/-- The addresses of `users`. -/
def usersHosts : List HostPair :=
  [(ascii "10.0.0.1", ascii "80"), (ascii "10.0.0.2", ascii "80")]

/-- A registry that has them. -/
def usersTable : Registry.State where
  reg := fun _ => (∅ : HostMap).insert (serviceKey (ascii "users") (ascii "dev")) usersHosts

/-- The first request cannot be sent, the second one is answered. -/
def secondAnswered : List Event :=
  [Event.enter 6, .lookup usersTable (ascii "dev"), .sent false,
    .lookup usersTable (ascii "dev"), .sent true, .answered true (ascii "[1, 2]") true]

theorem offers_usersTable :
    ∀ e ∈ secondAnswered, e.Offers { serviceName := ascii "users" } usersHosts := by
  have hlookup : (Event.lookup usersTable (ascii "dev")).Offers { serviceName := ascii "users" }
      usersHosts := ⟨.http, rfl, AList.lookup_insert _⟩
  intro e he
  simp only [secondAnswered, List.mem_cons, List.not_mem_nil, or_false] at he
  rcases he with rfl | rfl | rfl | rfl | rfl | rfl
  · trivial
  · exact hlookup
  · trivial
  · exact hlookup
  · trivial
  · trivial

theorem outcome_secondAnswered :
    ∃ s, run (step { serviceName := ascii "users" }) {} secondAnswered = some s ∧
      Outcome { serviceName := ascii "users" } s.attempts s.call.rsp s.held ∧
      s.attempts.length = 2 ∧ (s.addresses.take 2).Nodup := by
  have hview : (run (step { serviceName := ascii "users" }) {} secondAnswered).map
      (fun s => (s.call.phase, s.attempts.length)) = some (.done, 2) := by decide +kernel
  obtain ⟨s, hrun, hs⟩ := Option.map_eq_some_iff.mp hview
  obtain ⟨hdone, htwo⟩ := Prod.mk.inj hs
  obtain ⟨hout, hnodup⟩ := outcome (by decide) hrun hdone
  exact ⟨s, hrun, hout, htwo, hnodup usersHosts (by decide) (by decide) offers_usersTable⟩

end FiberProxy.Forward.Retries
