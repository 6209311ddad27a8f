/-
  FiberProxy.Front.RpcMethods

  The method names of the RPC server: `FibpRpcServer::dispatch` with the
  callbacks `rpc_callback` and `rpc_single_service_callback`.  A single call is
  documented as `call_single_service_async/service/api`.

  `dispatch` looks for the name at the beginning of the method and skips the
  character behind it without looking at it, so that a method which only begins
  like the name is forwarded too (`followsGrammar_iff`).

  Here a request keeps its calls after their callback, and every answer given to
  it, so that a second answer would be seen; that there is none rests on the
  callback being invoked once (`once_step`).
-/

import FiberProxy.Front.Dispatch

namespace FiberProxy.Front

open Lib Forward

/-! ## What a method is taken for -/

/-- The name of the single call. -/
def singleName : Bytes := ascii "call_single_service_async"

/-- The request that is forwarded for a service and an api. -/
def singleReq (name api : Bytes) (params : RpcParams) : ServiceCallReq where
  serviceName := name
  serviceApi := api
  serviceReqData := params.packed
  serviceCluster := ascii "dev"
  serviceType := ServiceType.rpc.toInt

/-- The answer is an error. -/
def Answer.IsError : Answer → Prop
  | .error _ | .exception => True
  | .http _ | .alive | .rsp _ => False

/-- The text is split at its first slash. -/
theorem singleServiceReq_split {n a : Bytes} (hn : 47 ∉ n) (params : RpcParams) :
    singleServiceReq (n ++ 47 :: a) params = some (singleReq n a params) := by
  have hne : ∀ c ∈ n, (c != 47) = true := by
    intro c hc
    rw [bne_iff_ne]
    rintro rfl
    exact hn hc
  have hmem : (47 : UInt8) ∈ n ++ 47 :: a := by simp
  unfold singleServiceReq singleReq
  rw [if_pos hmem, List.takeWhile_append_of_pos hne, List.dropWhile_append_of_pos hne]
  simp

/-- What `dispatch` does with a method. -/
inductive Dispatched (params : RpcParams) (m : Bytes) : Handling → Prop where
  | test (hm : m = ascii "test") : Dispatched params m (.answer .alive)
  | unreadable (hm : m = ascii "call_services_async") :
      Dispatched params m (.started (.error (ascii "ARGUMENT_ERROR")))
  | services {reqs : List ServiceCallReq} (hm : m = ascii "call_services_async") :
      Dispatched params m (.calls ⟨reqs, [], false⟩ .rpcCallback)
  /-- `x` is the character that is skipped. -/
  | single {x : UInt8} {n a : Bytes} (hm : m = singleName ++ x :: (n ++ 47 :: a)) (hn : 47 ∉ n) :
      Dispatched params m (.calls ⟨[singleReq n a params], [], false⟩ .rpcSingleServiceCallback)
  | refused {e : Answer} (he : e.IsError)
      (hm : ∀ x n a, m ≠ singleName ++ x :: (n ++ 47 :: a)) : Dispatched params m (.answer e)

theorem dispatched (m : Bytes) (params : RpcParams) :
    Dispatched params m (dispatch (some m) params) := by
  unfold dispatch
  simp only
  split
  · rename_i hm
    exact .test hm
  split
  · rename_i hm
    split
    · exact .unreadable hm
    · exact .services hm
  split
  · rename_i hprefix
    obtain ⟨rest, rfl⟩ := hprefix
    rw [List.drop_left]
    cases rest with
    | nil =>
      refine .refused trivial fun x n a heq => ?_
      cases List.append_cancel_left heq
    | cons x serverMethod =>
      by_cases hslash : 47 ∈ serverMethod
      · obtain ⟨n, a, rfl, hn⟩ := List.eq_append_cons_of_mem hslash
        simp only [singleServiceReq_split hn]
        exact .single rfl hn
      · have hnone : singleServiceReq serverMethod params = none := if_neg hslash
        simp only [hnone]
        refine .refused trivial fun x n a heq => hslash ?_
        obtain ⟨-, rfl⟩ := List.cons.inj (List.append_cancel_left heq)
        simp
  · rename_i hprefix
    refine .refused trivial fun x n a heq => hprefix ?_
    exact ⟨_, heq.symm⟩

/-! ## Requests and their answers -/

/-- A request with what it was given. -/
structure Rpc where
  method : Option Bytes
  params : RpcParams
  /-- The calls that were made for it, their callback and where they stand. -/
  forwarded : Option (ServicesCall × Callback × Fan)
  /-- The answers, by `dispatch` or by the callback. -/
  answers : List Answer

/-- What happens to the requests of the RPC server. -/
inductive RpcEvent where
  | arrive (method : Option Bytes) (params : RpcParams) (pool : FiberPool Unit)
  /-- A step of the calls of the `k`-th request. -/
  | fan (k : Nat) (e : Forward.Event)

/-- The request after `dispatch`. -/
def Rpc.received (method : Option Bytes) (params : RpcParams) (pool : FiberPool Unit) : Rpc :=
  match dispatch method params with
  | .answer a | .started a => ⟨method, params, none, [a]⟩
  | .calls c cb => ⟨method, params, some (c, cb, .start c pool), []⟩

section Machine

variable (mgr : ForwardManager) (mem : LiteralMemory) (unpacks : Bytes → Bool)

/-- The calls have stepped from `fan` to `fan'`; where the callback was invoked, it answers. -/
def Rpc.stepped (q : Rpc) (c : ServicesCall) (cb : Callback) (fan fan' : Fan) : Rpc :=
  { q with
    forwarded := some (c, cb, fan')
    answers :=
      if fan'.callbacks = fan.callbacks then q.answers
      else q.answers ++ (cb.answer unpacks fan'.rspList).toList }

def rpcStep (s : List Rpc) : RpcEvent → Option (List Rpc)
  | .arrive method params pool => some (s ++ [Rpc.received method params pool])
  | .fan k e =>
    (s[k]?).bind fun q =>
      q.forwarded.bind fun f =>
        (Forward.step mgr mem f.1 f.2.2 e).map fun fan' =>
          s.set k (q.stepped unpacks f.1 f.2.1 f.2.2 fan')

/-! ## One answer -/

/-- What is known of a request: the calls are those of `dispatch`, and their callback gives
    the only answer. -/
def Rpc.Ok (q : Rpc) : Prop :=
  match q.forwarded with
  | none => ∃ a, (dispatch q.method q.params = .answer a ∨
      dispatch q.method q.params = .started a) ∧ q.answers = [a]
  | some (c, cb, fan) => dispatch q.method q.params = .calls c cb ∧ fan.Once ∧
      q.answers.length ≤ fan.callbacks

theorem ok_received (method : Option Bytes) (params : RpcParams) (pool : FiberPool Unit) :
    (Rpc.received method params pool).Ok := by
  unfold Rpc.received
  split
  · rename_i a h
    exact ⟨a, .inl h, rfl⟩
  · rename_i a h
    exact ⟨a, .inr h, rfl⟩
  · rename_i c cb h
    exact ⟨h, once_start c pool, by simp⟩

variable {mgr mem unpacks}

theorem Rpc.Ok.stepped {q : Rpc} {c : ServicesCall} {cb : Callback} {fan fan' : Fan}
    {e : Forward.Event} (h : q.Ok) (hq : q.forwarded = some (c, cb, fan))
    (hstep : Forward.step mgr mem c fan e = some fan') :
    (q.stepped unpacks c cb fan fan').Ok := by
  unfold Rpc.Ok at h
  rw [hq] at h
  obtain ⟨hdispatch, honce, hanswers⟩ := h
  refine ⟨hdispatch, once_step honce hstep, ?_⟩
  have hle := callbacks_le_step hstep
  show (if fan'.callbacks = fan.callbacks then q.answers
    else q.answers ++ (cb.answer unpacks fan'.rspList).toList).length ≤ fan'.callbacks
  split
  · omega
  · have hlast := (cb.answer unpacks fan'.rspList).length_toList_le
    rw [List.length_append]
    omega

theorem ok_step {s s' : List Rpc} {e : RpcEvent} (hs : ∀ q ∈ s, q.Ok)
    (h : rpcStep mgr mem unpacks s e = some s') : ∀ q ∈ s', q.Ok := by
  cases e with
  | arrive method params pool =>
    obtain rfl := Option.some.inj h
    exact forall_mem_snoc hs (ok_received method params pool)
  | fan k e =>
    obtain ⟨q, hk, h⟩ := Option.bind_eq_some_iff.mp h
    obtain ⟨⟨c, cb, fan⟩, hq, h⟩ := Option.bind_eq_some_iff.mp h
    obtain ⟨fan', hstep, rfl⟩ := Option.map_eq_some_iff.mp h
    have hok := hs q (List.mem_of_getElem? hk)
    exact forall_mem_set hs (hok.stepped hq hstep)

theorem Rpc.Ok.once {q : Rpc} (h : q.Ok) : q.answers.length ≤ 1 := by
  unfold Rpc.Ok at h
  split at h
  · obtain ⟨a, -, ha⟩ := h
    rw [ha]
    exact le_rfl
  · obtain ⟨-, honce, hanswers⟩ := h
    rw [honce.callbacks] at hanswers
    exact hanswers.trans (by split <;> omega)

end Machine

/-! ## The grammar -/

/-- The request is forwarded as a single call of this service and api. -/
def Rpc.Forwards (q : Rpc) (name api : Bytes) : Prop :=
  ∃ c fan req, q.forwarded = some (c, .rpcSingleServiceCallback, fan) ∧ c.reqs = [req] ∧
    req.serviceName = name ∧ req.serviceApi = api

/-- The documented form of a single call. -/
def Single (m name api : Bytes) : Prop :=
  47 ∉ name ∧ m = singleName ++ 47 :: (name ++ 47 :: api)

/-- What the method of a request asks for is what is done, and one answer is given. -/
structure Rpc.FollowsGrammar (q : Rpc) (m : Bytes) : Prop where
  single : ∀ name api, q.Forwards name api ↔ Single m name api
  others : m ≠ ascii "test" → m ≠ ascii "call_services_async" →
    (∀ name api, ¬ Single m name api) → q.forwarded = none ∧ ∃ e, q.answers = [e] ∧ e.IsError
  once : q.answers.length ≤ 1

/-- Behind the name stands a slash, or no slash follows. -/
def Separated (m : Bytes) : Prop :=
  ∀ x rest, m = singleName ++ x :: rest → x = 47 ∨ 47 ∉ rest

theorem singleName_append_ne (rest : Bytes) :
    singleName ++ rest ≠ ascii "test" ∧ singleName ++ rest ≠ ascii "call_services_async" := by
  have htest : ¬ singleName <+: ascii "test" := by decide
  have hservices : ¬ singleName <+: ascii "call_services_async" := by decide
  exact ⟨fun h => htest ⟨rest, h⟩, fun h => hservices ⟨rest, h⟩⟩

/-- The method of a single call, whatever is behind the name. -/
theorem dispatch_single {x : UInt8} {n a : Bytes} (hn : 47 ∉ n) (params : RpcParams) :
    dispatch (some (singleName ++ x :: (n ++ 47 :: a))) params =
      .calls ⟨[singleReq n a params], [], false⟩ .rpcSingleServiceCallback := by
  obtain ⟨htest, hservices⟩ := singleName_append_ne (x :: (n ++ 47 :: a))
  generalize hm : singleName ++ x :: (n ++ 47 :: a) = m at htest hservices
  generalize hd : dispatch (some m) params = handling
  cases hd ▸ dispatched m params with
  | test hm' => exact absurd hm' htest
  | unreadable hm' => exact absurd hm' hservices
  | services hm' => exact absurd hm' hservices
  | refused _ hno => exact absurd hm.symm (hno x n a)
  | @single x' n' a' hm' hn' =>
    -- the first slash is where it is
    obtain ⟨-, hsplit⟩ := List.cons.inj (List.append_cancel_left (hm.trans hm'))
    have hreq : singleServiceReq (n' ++ 47 :: a') params = _ := singleServiceReq_split hn' params
    rw [← hsplit, singleServiceReq_split hn] at hreq
    rw [Option.some.inj hreq]

theorem Rpc.Ok.forwards_iff {q : Rpc} (h : q.Ok) {m : Bytes} (hm : q.method = some m)
    {name api : Bytes} : q.Forwards name api ↔
      ∃ x, 47 ∉ name ∧ m = singleName ++ x :: (name ++ 47 :: api) := by
  unfold Rpc.Ok at h
  rw [hm] at h
  constructor
  · rintro ⟨c, fan, req, hforwarded, hreqs, rfl, rfl⟩
    rw [hforwarded] at h
    have hd := dispatched m q.params
    rw [h.1] at hd
    cases hd with
    | @single x n a hm hn =>
      obtain rfl : singleReq n a q.params = req := (List.cons.inj hreqs).1
      exact ⟨x, hn, hm⟩
  · rintro ⟨x, hn, rfl⟩
    rw [dispatch_single hn] at h
    split at h
    · rename_i hnone
      obtain ⟨a, ha | ha, -⟩ := h
      · cases ha
      · cases ha
    · rename_i c cb fan hforwarded
      cases h.1
      exact ⟨_, fan, _, hforwarded, rfl, rfl, rfl⟩

/-- What is no single call in any form is refused. -/
theorem Rpc.Ok.refused {q : Rpc} (h : q.Ok) {m : Bytes} (hm : q.method = some m)
    (htest : m ≠ ascii "test") (hservices : m ≠ ascii "call_services_async")
    (hno : ∀ x n a, 47 ∉ n → m ≠ singleName ++ x :: (n ++ 47 :: a)) :
    q.forwarded = none ∧ ∃ e, q.answers = [e] ∧ e.IsError := by
  unfold Rpc.Ok at h
  rw [hm] at h
  generalize hd : dispatch (some m) q.params = handling at h
  cases hd ▸ dispatched m q.params with
  | test hm => exact absurd hm htest
  | unreadable hm => exact absurd hm hservices
  | services hm => exact absurd hm hservices
  | @single x n a hm hn => exact absurd hm (hno x n a hn)
  | @refused e he _ =>
    split at h
    · rename_i hnone
      obtain ⟨a, ha | ha, hanswers⟩ := h
      · cases ha
        exact ⟨hnone, e, hanswers, he⟩
      · cases ha
    · cases h.1

variable {mgr : ForwardManager} {mem : LiteralMemory} {unpacks : Bytes → Bool}

/-- **A method is handled by the documented grammar**, with one answer at most, exactly when
    it does not have another character than a slash behind the name of the single call and a
    slash after that. -/
theorem followsGrammar_iff {es : List RpcEvent} {s : List Rpc}
    (hrun : run (rpcStep mgr mem unpacks) [] es = some s) {q : Rpc} (hq : q ∈ s) {m : Bytes}
    (hm : q.method = some m) : q.FollowsGrammar m ↔ Separated m := by
  have hok : q.Ok := run_inv (fun _ _ _ hs h => ok_step hs h) (by simp) hrun q hq
  constructor
  · intro h x rest hrest
    by_contra hcon
    rw [not_or, not_not] at hcon
    obtain ⟨n, a, rfl, hn⟩ := List.eq_append_cons_of_mem hcon.2
    obtain ⟨-, heq⟩ := (h.single n a).mp ((hok.forwards_iff hm).mpr ⟨x, hn, hrest⟩)
    exact hcon.1 (List.cons.inj (List.append_cancel_left (hrest.symm.trans heq))).1
  · intro h
    -- behind the name of a single call stands a slash
    have hslash {x : UInt8} {n a : Bytes} (heq : m = singleName ++ x :: (n ++ 47 :: a)) :
        x = 47 := by
      rcases h x _ heq with hx | hno
      · exact hx
      · exact absurd (by simp) hno
    refine ⟨fun name api => ?_, fun htest hservices hno => ?_, hok.once⟩
    · rw [hok.forwards_iff hm]
      constructor
      · rintro ⟨x, hn, heq⟩
        obtain rfl := hslash heq
        exact ⟨hn, heq⟩
      · rintro ⟨hn, heq⟩
        exact ⟨47, hn, heq⟩
    · refine hok.refused hm htest hservices fun x n a hn heq => ?_
      obtain rfl := hslash heq
      exact hno n a ⟨hn, heq⟩

/-- A documented single call of the built-in service, to its answer. -/
def localTestCall : List RpcEvent :=
  [.arrive (some (ascii "call_single_service_async/local_test/get")) ⟨none, []⟩ .empty,
    .fan 0 .take, .fan 0 (.call 0 .enter), .fan 0 .singleEnd, .fan 0 .collect, .fan 0 .callback]

theorem localTest_followsGrammar :
    ∃ s q, run (rpcStep {} zeroMemory fun _ => true) [] localTestCall = some s ∧ q ∈ s ∧
      q.method = some (ascii "call_single_service_async/local_test/get") ∧
      q.answers.length = 1 ∧
      q.FollowsGrammar (ascii "call_single_service_async/local_test/get") := by
  have hrun : run (rpcStep {} zeroMemory fun _ => true) [] localTestCall = some _ := rfl
  refine ⟨_, _, hrun, List.mem_singleton_self _, rfl, rfl, ?_⟩
  refine (followsGrammar_iff hrun (List.mem_singleton_self _) rfl).mpr ?_
  intro x rest hrest
  left
  have hmethod : ascii "call_single_service_async/local_test/get" =
      singleName ++ 47 :: ascii "local_test/get" := by decide +kernel
  exact (List.cons.inj (List.append_cancel_left (hmethod.symm.trans hrest))).1.symm

/-- **A method that only begins like the name**: `call_single_service_async2/users/get` is
    forwarded, for a service without a name. -/
theorem otherMethod_forwarded :
    ∃ s q, run (rpcStep {} zeroMemory fun _ => true) []
        [.arrive (some (ascii "call_single_service_async2/users/get")) ⟨none, []⟩ .empty] =
        some s ∧ q ∈ s ∧
      q.Forwards [] (ascii "users/get") ∧ q.answers = [] ∧
      ¬ q.FollowsGrammar (ascii "call_single_service_async2/users/get") := by
  have hrun : run (rpcStep {} zeroMemory fun _ => true) []
    [.arrive (some (ascii "call_single_service_async2/users/get")) ⟨none, []⟩ .empty] =
    some _ := rfl
  have hforwards : (Rpc.received (some (ascii "call_single_service_async2/users/get"))
      ⟨none, []⟩ .empty).Forwards [] (ascii "users/get") :=
    ⟨_, _, _, rfl, rfl, rfl, rfl⟩
  refine ⟨_, _, hrun, List.mem_singleton_self _, hforwards, rfl, fun h => ?_⟩
  obtain ⟨-, heq⟩ := (h.single _ _).mp hforwards
  exact absurd heq (by decide +kernel)

end FiberProxy.Front
