/-
  FiberProxy.Forward.TableAccess

  The tables that `call_single_service` and the functions it calls index with
  fields of the request: `METHOD_STRING` with the method, `reg_service_host_info_`
  and `client_pool_list_` with the service type.  A call is the machine of
  `FiberProxy.Forward.CallSingleService`, with the registry and the clients in the
  place of its events; next to its state it keeps what it has accessed.

  `ServiceType` is an unsigned enumeration, so a negative service type is a very
  large index.
-/

import FiberProxy.Front.Dispatch
import FiberProxy.Registry.Watcher

namespace FiberProxy.Forward

open Lib Front

/-- A table that a request indexes. -/
inductive Table where
  | methodString | regServiceHostInfo | clientPoolList
deriving DecidableEq, Repr

/-- How many entries it has: `METHOD_STRING` 5, the others `End_Service`. -/
def Table.size : Table → Nat
  | .methodString => 5
  | .regServiceHostInfo | .clientPoolList => 4

/-- What a call does on behalf of its request that can go wrong. -/
inductive Effect where
  | access (t : Table) (index : Int)
  /-- `throw -1`. -/
  | throw
deriving DecidableEq, Repr

/-- The access is in bounds, and nothing is thrown. -/
def Effect.Ok : Effect → Prop
  | .access t index => 0 ≤ index ∧ index < t.size
  | .throw => False

instance (e : Effect) : Decidable e.Ok := by
  cases e <;> unfold Effect.Ok <;> infer_instance

/-- `(ServiceType)service_type`, as an index. -/
def typeIndex (serviceType : Int) : Nat := (serviceType % 2 ^ 32).toNat

/-- What a call meets where it stops. -/
inductive Meets where
  | enter
  /-- `get_service_address`, on what is registered at that time. -/
  | address (s : Registry.State) (cluster : Bytes) (balanceIndex : Nat)
  /-- `send_request`; `available`: an HTTP client is pooled, or the limit of clients has
      not been reached. -/
  | sent (available ok : Bool)
  | answered (ok : Bool) (rspdata : Bytes) (canRetry : Bool)
  | cached (hit : Option ServiceCallRsp)

/-- What the call makes of it. -/
def Meets.event (req : ServiceCallReq) : Meets → CallEvent
  | .enter => .enter
  | .address s cluster balanceIndex =>
    .address (Registry.getServiceAddress s cluster balanceIndex req.serviceName
      (typeIndex req.serviceType))
  | .sent available ok =>
    if req.serviceType = ServiceType.http.toInt then .sent (available && ok)
    -- there is no client for a custom service
    else if req.serviceType = ServiceType.custom.toInt then .sent false
    else .sent ok
  | .answered ok rspdata canRetry => .answered ok rspdata canRetry
  | .cached hit => .cached hit

/-- `get_service_address`. -/
def addressEffects (type : Nat) : List Effect :=
  if Table.regServiceHostInfo.size ≤ type then [] else [.access .regServiceHostInfo type]

/-- `FibpClientMgr::send_request` for an HTTP call: a client writes the request. -/
def httpSendEffects (method : Int) (available : Bool) : List Effect :=
  if available then [.access .methodString method] else []

/-- `FibpClientMgr::send_request` for the other types. -/
def sendEffects (type : Nat) : List Effect :=
  if Table.clientPoolList.size ≤ type then [.throw]
  else if (type : Int) = ServiceType.http.toInt then [.throw]
  else [.access .clientPoolList type]

/-- What is accessed while the call is where it stops. -/
def Meets.effects (req : ServiceCallReq) : Meets → List Effect
  | .address .. => addressEffects (typeIndex req.serviceType)
  | .sent available _ =>
    if req.serviceType = ServiceType.http.toInt then httpSendEffects req.method available
    else sendEffects (typeIndex req.serviceType)
  | .enter | .answered .. | .cached _ => []

/-- A call and its accesses so far. -/
structure Traced where
  call : CallState
  effects : List Effect := []

/-- A step of the call. -/
def tracedStep (req : ServiceCallReq) (s : Traced) (m : Meets) : Option Traced :=
  (callStep req s.call (m.event req)).map fun call' => ⟨call', s.effects ++ m.effects req⟩

/-- Whatever a call for `req` meets, its accesses are in bounds. -/
def InRange (req : ServiceCallReq) : Prop :=
  ∀ rsp ms s, run (tracedStep req) ⟨{ rsp := rsp }, []⟩ ms = some s → ∀ e ∈ s.effects, e.Ok

/-! ## Requests that reach a call -/

/-- The value fits the source's `int`. -/
def IsInt (n : Int) : Prop := -2 ^ 31 ≤ n ∧ n < 2 ^ 31

/-- The request comes from one of the front ends. -/
inductive Reaches : ServiceCallReq → Prop where
  /-- The method is what `http_parser` reports. -/
  | single {method : Int} {rawReq path : Bytes} {req : ServiceCallReq}
      (hm : 0 ≤ method ∧ method ≤ 26) (h : parseSingleApiRequest method rawReq path = some req) :
      Reaches req
  | services {packTuple : Bytes → Bytes} {apiList : Option (List (Option ApiData))}
      {reqs : List ServiceCallReq} {req : ServiceCallReq}
      (h : parseApiRequest packTuple apiList = some reqs) (hreq : req ∈ reqs)
      (ht : IsInt req.serviceType) : Reaches req
  /-- The fields of a msgpack request are converted as they are. -/
  | rpcServices {req : ServiceCallReq} (hm : IsInt req.method) (ht : IsInt req.serviceType) :
      Reaches req
  | rpcSingle {serverMethod : Bytes} {params : RpcParams} {req : ServiceCallReq}
      (h : singleServiceReq serverMethod params = some req) : Reaches req

theorem isInt_toInt (t : ServiceType) : IsInt t.toInt := by
  cases t <;> exact ⟨by decide, by decide⟩

theorem Reaches.isInt {req : ServiceCallReq} (h : Reaches req) : IsInt req.serviceType := by
  cases h with
  | single hm h =>
    unfold parseSingleApiRequest at h
    simp only at h
    split at h
    · obtain rfl := Option.some.inj h
      exact isInt_toInt .http
    · simp at h
  | services h hreq ht => exact ht
  | rpcServices hm ht => exact ht
  | rpcSingle h =>
    unfold singleServiceReq at h
    split at h
    · obtain rfl := Option.some.inj h
      exact isInt_toInt .rpc
    · simp at h

/-! ## The service type -/

/-- Of the values of an `int` the first four are the valid types. -/
theorem typeIndex_eq {n : Int} (hn : IsInt n) (h : typeIndex n < 4) : (typeIndex n : Int) = n := by
  obtain ⟨hlo, hhi⟩ := hn
  unfold typeIndex at h ⊢
  omega

/-- An address is found for a valid type only. -/
theorem typeIndex_lt_of_address {s : Registry.State} {cluster name : Bytes}
    {balanceIndex type : Nat} {hp : Registry.HostPair}
    (h : Registry.getServiceAddress s cluster balanceIndex name type = some hp) : type < 4 := by
  unfold Registry.getServiceAddress at h
  split at h
  · simp at h
  · rename_i t ht
    exact (List.getElem?_eq_some_iff.mp ht).1

theorem addressEffects_ok (type : Nat) : ∀ e ∈ addressEffects type, e.Ok := by
  unfold addressEffects
  split
  · simp
  · rename_i h
    intro e he
    obtain rfl := List.mem_singleton.mp he
    exact ⟨Int.natCast_nonneg _, by simp only [Table.size] at h ⊢; omega⟩

theorem sendEffects_ok {n : Int} (hn : IsInt n) (hlt : typeIndex n < 4)
    (hne : n ≠ ServiceType.http.toInt) : ∀ e ∈ sendEffects (typeIndex n), e.Ok := by
  have heq := typeIndex_eq hn hlt
  unfold sendEffects
  rw [if_neg (by simp only [Table.size]; omega), if_neg (by rw [heq]; exact hne)]
  intro e he
  obtain rfl := List.mem_singleton.mp he
  exact ⟨Int.natCast_nonneg _, by simp only [Table.size]; omega⟩

/-! ## Calls -/

/-- A request whose accesses are in bounds: the built-in service makes none, and the
    method is an index only of HTTP calls. -/
def Guarded (req : ServiceCallReq) : Prop :=
  req.serviceName = ascii "local_test" ∨ req.serviceType ≠ ServiceType.http.toInt ∨
    (0 ≤ req.method ∧ req.method < 5)

instance (req : ServiceCallReq) : Decidable (Guarded req) :=
  inferInstanceAs (Decidable (_ ∨ _ ∨ _))

/-- What holds of a traced call. -/
structure Traced.Safe (req : ServiceCallReq) (s : Traced) : Prop where
  effects : ∀ e ∈ s.effects, e.Ok
  -- a call that sends has found an address
  sending : ∀ n, s.call.phase = .sending n → typeIndex req.serviceType < 4
  -- the built-in service is not looked up
  localTest : req.serviceName = ascii "local_test" → s.call.phase = .start ∨ s.call.phase = .done

variable {req : ServiceCallReq}

/-- A call sends only where it stands before a send. -/
theorem sending_of_sent {s s' : CallState} {ok : Bool} (h : callStep req s (.sent ok) = some s') :
    ∃ n, s.phase = .sending n := by
  cases callStepsTo_of_callStep h with
  | sent hp => exact ⟨_, hp⟩
  | sendFailed _ hp => exact ⟨_, hp⟩

/-- An address is what the registry gave. -/
theorem typeIndex_lt_of_event {m : Meets} {hp : Bytes × Bytes}
    (h : m.event req = .address (some hp)) : typeIndex req.serviceType < 4 := by
  cases m with
  | address s cluster i => exact typeIndex_lt_of_address (CallEvent.address.inj h)
  | sent available ok =>
    simp only [Meets.event] at h
    split_ifs at h
  | enter => simp [Meets.event] at h
  | answered => simp [Meets.event] at h
  | cached => simp [Meets.event] at h

/-- Where a step leads: to a send only with an address, and nowhere for the built-in
    service. -/
theorem phase_of_callStep {s s' : CallState} {m : Meets}
    (h : callStep req s (m.event req) = some s') :
    (∀ n, s'.phase = .sending n → typeIndex req.serviceType < 4) ∧
      (req.serviceName = ascii "local_test" → s.phase = .start ∨ s.phase = .done →
        s'.phase = .done) := by
  have hnext (n k : Nat) : nextTry n ≠ .sending k := by
    unfold nextTry
    split <;> simp
  generalize he : m.event req = e at h
  cases callStepsTo_of_callStep h with
  | localTest hp hn => exact ⟨by simp, fun _ _ => rfl⟩
  | enter hp hn => exact ⟨by simp, fun h => absurd h hn⟩
  | notFound hp => exact ⟨by simp, by simp [hp]⟩
  | found ip port hp => exact ⟨fun _ _ => typeIndex_lt_of_event he, by simp [hp]⟩
  | sent hp => exact ⟨by simp, by simp [hp]⟩
  | sendFailed _ hp => exact ⟨fun k hk => absurd hk (hnext _ k), by simp [hp]⟩
  | success _ _ hp => exact ⟨by simp, by simp [hp]⟩
  | failed _ _ hp => exact ⟨by simp, by simp [hp]⟩
  | retry _ _ hp => exact ⟨fun k hk => absurd hk (hnext _ k), by simp [hp]⟩
  | cached _ hp => exact ⟨by simp, by simp [hp]⟩

/-- A guarded call accesses nothing out of bounds where it stops. -/
theorem Traced.Safe.effects_ok {s : Traced} {m : Meets} {call' : CallState} (hs : s.Safe req)
    (hint : IsInt req.serviceType) (hg : Guarded req)
    (h : callStep req s.call (m.event req) = some call') : ∀ e ∈ m.effects req, e.Ok := by
  cases m with
  | enter => simp [Meets.effects]
  | answered => simp [Meets.effects]
  | cached => simp [Meets.effects]
  | address st cluster i => exact addressEffects_ok _
  | sent available ok =>
    have hsent : ∃ n, s.call.phase = .sending n := by
      simp only [Meets.event] at h
      split_ifs at h <;> exact sending_of_sent h
    obtain ⟨n, hn⟩ := hsent
    simp only [Meets.effects]
    split
    · rename_i hhttp
      -- the call is for HTTP and not for the built-in service: the method is in range
      have hm : 0 ≤ req.method ∧ req.method < 5 := by
        rcases hg with hl | hne | hm
        · rcases hs.localTest hl with h | h <;> simp [hn] at h
        · exact absurd hhttp hne
        · exact hm
      unfold httpSendEffects
      split
      · intro e he
        obtain rfl := List.mem_singleton.mp he
        exact hm
      · simp
    · exact sendEffects_ok hint (hs.sending n hn) ‹_›

theorem Traced.Safe.step {s s' : Traced} {m : Meets} (hs : s.Safe req)
    (hint : IsInt req.serviceType) (hg : Guarded req) (h : tracedStep req s m = some s') :
    s'.Safe req := by
  obtain ⟨call', hcall, rfl⟩ := Option.map_eq_some_iff.mp h
  obtain ⟨hsending, hlocal⟩ := phase_of_callStep hcall
  refine ⟨fun e he => ?_, hsending, fun hl => .inr (hlocal hl (hs.localTest hl))⟩
  rcases List.mem_append.mp he with he | he
  · exact hs.effects e he
  · exact hs.effects_ok hint hg hcall e he

/-- One node is registered for a service, for every type. -/
def registered (name : Bytes) : Registry.State where
  reg := fun _ => (∅ : Registry.HostMap).insert (Registry.serviceKey name [])
    [(ascii "10.0.0.1", ascii "80")]

theorem getServiceAddress_registered (name : Bytes) :
    Registry.getServiceAddress (registered name) [] 0 name 0 =
      some (ascii "10.0.0.1", ascii "80") := by
  have hhosts : (registered name).hosts .http (Registry.serviceKey name []) =
      some [(ascii "10.0.0.1", ascii "80")] := AList.lookup_insert _
  simp [Registry.getServiceAddress, Registry.serviceTypes, hhosts]

/-- An HTTP call that finds an address prints its method. -/
theorem run_httpCall (hn : req.serviceName ≠ ascii "local_test")
    (ht : req.serviceType = ServiceType.http.toInt) (rsp : ServiceCallRsp) :
    ∃ s, run (tracedStep req) ⟨{ rsp := rsp }, []⟩
        [.enter, .address (registered req.serviceName) [] 0, .sent true true] = some s ∧
      .access .methodString req.method ∈ s.effects := by
  have ht' : req.serviceType = 0 := ht
  have hidx : typeIndex req.serviceType = 0 := by rw [ht']; rfl
  have haddress : Meets.event req (.address (registered req.serviceName) [] 0) =
      .address (some (ascii "10.0.0.1", ascii "80")) := by
    rw [Meets.event, hidx, getServiceAddress_registered]
  have hsent : Meets.event req (.sent true true) = .sent true := by
    rw [Meets.event, if_pos ht]
    rfl
  refine ⟨⟨{ phase := .waiting 1
             rsp := { rsp with
               serviceName := req.serviceName, host := ascii "10.0.0.1", port := ascii "80" } },
    [.access .regServiceHostInfo 0, .access .methodString req.method]⟩, ?_, by simp⟩
  simp only [run, tracedStep, haddress, hsent]
  simp [Meets.event, callStep, hn, nextTry, maxRetry, Meets.effects, httpSendEffects, ht',
    ServiceType.toInt]
  rfl

/-- **Every access is in bounds** exactly for the requests for the built-in service, those
    for another type than HTTP, and those whose method is one of the five. -/
theorem inRange_iff (h : Reaches req) : InRange req ↔ Guarded req := by
  constructor
  · intro hin
    by_contra hg
    simp only [Guarded, not_or, not_not] at hg
    obtain ⟨hn, ht, hm⟩ := hg
    obtain ⟨s, hs, hmem⟩ := run_httpCall hn ht {}
    exact hm (hin {} _ s hs _ hmem)
  · intro hg rsp ms s hs
    have hsafe : s.Safe req :=
      run_inv (fun _ _ _ hs hstep => hs.step h.isInt hg hstep)
        ⟨by simp, by simp, fun _ => .inl rfl⟩ hs
    exact hsafe.effects

/-- What the HTTP front end makes of a request for `/users/x` with the given method. -/
def usersReq (method : Int) : ServiceCallReq where
  serviceName := ascii "users"
  serviceApi := ascii "/x"
  method := method

theorem parse_usersReq (method : Int) :
    parseSingleApiRequest method [] (ascii "/commands/call_single_service_async/users/x") =
      some (usersReq method) := by
  rfl

/-- A GET. -/
theorem inRange_get : Reaches (usersReq 1) ∧ InRange (usersReq 1) :=
  ⟨.single (by decide) (parse_usersReq 1),
    (inRange_iff (.single (by decide) (parse_usersReq 1))).mpr (by decide)⟩

/-- **The method of an OPTIONS request** is the sixth of five: the HTTP front end hands it
    on, and the text of the call is looked up past the end of `METHOD_STRING`. -/
theorem options_not_inRange :
    ∃ req s, Reaches req ∧
      run (tracedStep req) ⟨{ rsp := {} }, []⟩
        [.enter, .address (registered req.serviceName) [] 0, .sent true true] = some s ∧
      .access .methodString 6 ∈ s.effects ∧ ¬ (Effect.access .methodString 6).Ok := by
  have hname : (usersReq 6).serviceName ≠ ascii "local_test" := by decide
  obtain ⟨s, hs, hmem⟩ := run_httpCall hname (by decide) {}
  exact ⟨usersReq 6, s, .single (by decide) (parse_usersReq 6), hs, hmem, by decide⟩

end FiberProxy.Forward
