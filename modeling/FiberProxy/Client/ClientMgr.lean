/-
  FiberProxy.Client.ClientMgr

  `FibpClientMgr` (`forward-manager/FibpClientMgr.cpp`): the HTTP clients that wait
  to be used again, by host and port, and the count of the clients that were made.
  A fiber takes a client in `send_request` and gives it back when the send fails, or
  else at the end of `get_response`; it yields in both.

  The fibers that use a manager share a thread, so what one does between two yields
  is one step.  A client is its place in the list of all that were ever made, which
  the source does not keep.
-/

import FiberProxy.Common.Types
import FiberProxy.Lib.Custody
import FiberProxy.Lib.Lists
import FiberProxy.Lib.Run

namespace FiberProxy.Client.Mgr

open Lib

/-- `MAX_CLIENT_NUM`. -/
def maxClientNum : Nat := 100

def getClientId (host port : Bytes) : Bytes := host ++ ascii ":" ++ port

/-- A `FibpHttpClient`: the `io_service`, host and port of its session. -/
structure HttpClient (Io : Type) where
  io : Io
  host : Bytes
  port : Bytes
deriving DecidableEq, Repr

/-- The key that `get_response` computes from the client. -/
def HttpClient.clientId {Io : Type} (c : HttpClient Io) : Bytes := getClientId c.host c.port

/-- Where a fiber with a client stands; `client_id` is a local of both functions. -/
inductive Phase where
  /-- In `client->send_request`. -/
  | sending (clientId : Bytes)
  /-- `send_request` has returned the client. -/
  | returned
  /-- In `client->get_response`. -/
  | receiving (clientId : Bytes)
deriving DecidableEq, Repr

/-- The client of a fiber, and the `io` it gave to `send_request`. -/
structure Lease (Io : Type) where
  client : Nat
  io : Io
  phase : Phase
deriving DecidableEq, Repr

/-- In the maps a missing key is an empty deque, a null pointer or 0. -/
structure ClientMgr (Io : Type) where
  /-- Every HTTP client that was made. -/
  clients : List (HttpClient Io) := []
  httpClientPoolList : Bytes → List Nat := fun _ => []
  /-- Whether there is an RPC or raw client. -/
  clientPoolList : ServiceType → Bytes → Bool := fun _ _ => false
  clientNum : Bytes → UInt32 := fun _ => 0
  fibers : Nat → Option (Lease Io) := fun _ => none

inductive Event (Io : Type) where
  /-- The fiber calls `send_request(io, …)` for HTTP. -/
  | sendRequest (f : Nat) (io : Io) (ip port : Bytes)
  /-- `client->send_request` returns to it. -/
  | sendEnd (f : Nat) (ok : Bool)
  /-- It calls `get_response`. -/
  | getResponse (f : Nat)
  /-- `client->get_response` returns to it. -/
  | responseEnd (f : Nat)
  /-- A call of `send_request` for another service type. -/
  | muxRequest (type : ServiceType) (ip port : Bytes)
deriving DecidableEq, Repr

/-- The overload without `io`, which the transactions use: it passes `io_service_`. -/
def Event.transaction {Io : Type} (ioService : Io) (f : Nat) (ip port : Bytes) : Event Io :=
  .sendRequest f ioService ip port

variable {Io : Type}

/-- The fiber has this client, or none. -/
def ClientMgr.setFiber (s : ClientMgr Io) (f : Nat) (l : Option (Lease Io)) : ClientMgr Io :=
  { s with fibers := Function.update s.fibers f l }

/-- `client_pool[client_id].push_back(client)`, by the fiber that had it. -/
def ClientMgr.pushBack (s : ClientMgr Io) (f : Nat) (clientId : Bytes) (k : Nat) : ClientMgr Io :=
  { s.setFiber f none with
    httpClientPoolList :=
      Function.update s.httpClientPoolList clientId (s.httpClientPoolList clientId ++ [k]) }

/-- `client_num_[client_id]++`. -/
def ClientMgr.countUp (s : ClientMgr Io) (clientId : Bytes) : Bytes → UInt32 :=
  Function.update s.clientNum clientId (s.clientNum clientId + 1)

/-- `send_request` for HTTP, up to `client->send_request`. -/
def ClientMgr.sendRequest (s : ClientMgr Io) (f : Nat) (io : Io) (ip port : Bytes) :
    ClientMgr Io :=
  let clientId := getClientId ip port
  match s.httpClientPoolList clientId with
  | k :: ks =>
    { s.setFiber f (some ⟨k, io, .sending clientId⟩) with
      httpClientPoolList := Function.update s.httpClientPoolList clientId ks }
  | [] =>
    -- `exceedClientLimit`: a null pointer is returned
    if maxClientNum < (s.clientNum clientId).toNat then s
    else
      { s.setFiber f (some ⟨s.clients.length, io, .sending clientId⟩) with
        clients := s.clients ++ [⟨io, ip, port⟩]
        clientNum := s.countUp clientId }

/-- `send_request` for the other types, up to `client->send_request`. -/
def ClientMgr.muxRequest (s : ClientMgr Io) (type : ServiceType) (ip port : Bytes) :
    Option (ClientMgr Io) :=
  let clientId := getClientId ip port
  match type with
  -- `throw -1`
  | .http => none
  | .custom => some s
  | .rpc | .raw =>
    if s.clientPoolList type clientId then some s
    else
      some { s with
        clientNum := s.countUp clientId
        clientPoolList := Function.update s.clientPoolList type
          (Function.update (s.clientPoolList type) clientId true) }

def step (s : ClientMgr Io) : Event Io → Option (ClientMgr Io)
  | .sendRequest f io ip port =>
    match s.fibers f with
    | none => some (s.sendRequest f io ip port)
    | some _ => none
  | .sendEnd f ok =>
    match s.fibers f with
    | some ⟨k, io, .sending clientId⟩ =>
      if ok then some (s.setFiber f (some ⟨k, io, .returned⟩))
      else some (s.pushBack f clientId k)
    | _ => none
  | .getResponse f =>
    match s.fibers f with
    | some ⟨k, io, .returned⟩ =>
      (s.clients[k]?).map fun c => s.setFiber f (some ⟨k, io, .receiving c.clientId⟩)
    | _ => none
  | .responseEnd f =>
    match s.fibers f with
    | some ⟨k, _, .receiving clientId⟩ => some (s.pushBack f clientId k)
    | _ => none
  | .muxRequest type ip port => s.muxRequest type ip port

/-! ## What a step can do -/

inductive StepsTo (s : ClientMgr Io) : Event Io → ClientMgr Io → Prop where
  /-- A client that waits is taken. -/
  | reuse {f : Nat} {io : Io} {ip port : Bytes} {k : Nat} {ks : List Nat}
      (hf : s.fibers f = none) (hp : s.httpClientPoolList (getClientId ip port) = k :: ks) :
      StepsTo s (.sendRequest f io ip port)
        { s.setFiber f (some ⟨k, io, .sending (getClientId ip port)⟩) with
          httpClientPoolList := Function.update s.httpClientPoolList (getClientId ip port) ks }
  | limit {f : Nat} {io : Io} {ip port : Bytes} : StepsTo s (.sendRequest f io ip port) s
  | create {f : Nat} {io : Io} {ip port : Bytes} (hf : s.fibers f = none)
      (hnum : (s.clientNum (getClientId ip port)).toNat ≤ maxClientNum) :
      StepsTo s (.sendRequest f io ip port)
        { s.setFiber f (some ⟨s.clients.length, io, .sending (getClientId ip port)⟩) with
          clients := s.clients ++ [⟨io, ip, port⟩]
          clientNum := s.countUp (getClientId ip port) }
  | sent {f k : Nat} {io : Io} {clientId : Bytes}
      (hf : s.fibers f = some ⟨k, io, .sending clientId⟩) :
      StepsTo s (.sendEnd f true) (s.setFiber f (some ⟨k, io, .returned⟩))
  | sendFailed {f k : Nat} {io : Io} {clientId : Bytes}
      (hf : s.fibers f = some ⟨k, io, .sending clientId⟩) :
      StepsTo s (.sendEnd f false) (s.pushBack f clientId k)
  | getResponse {f k : Nat} {io : Io} {c : HttpClient Io}
      (hf : s.fibers f = some ⟨k, io, .returned⟩) (hk : s.clients[k]? = some c) :
      StepsTo s (.getResponse f) (s.setFiber f (some ⟨k, io, .receiving c.clientId⟩))
  | responseEnd {f k : Nat} {io : Io} {clientId : Bytes}
      (hf : s.fibers f = some ⟨k, io, .receiving clientId⟩) :
      StepsTo s (.responseEnd f) (s.pushBack f clientId k)
  | muxKnown {type : ServiceType} {ip port : Bytes} : StepsTo s (.muxRequest type ip port) s
  | muxCreate {type : ServiceType} {ip port : Bytes} (ht : type = .rpc ∨ type = .raw)
      (hnew : s.clientPoolList type (getClientId ip port) = false) :
      StepsTo s (.muxRequest type ip port)
        { s with
          clientNum := s.countUp (getClientId ip port)
          clientPoolList := Function.update s.clientPoolList type
            (Function.update (s.clientPoolList type) (getClientId ip port) true) }

theorem stepsTo_of_sendRequest {s : ClientMgr Io} {f : Nat} {io : Io} {ip port : Bytes}
    (hf : s.fibers f = none) :
    StepsTo s (.sendRequest f io ip port) (s.sendRequest f io ip port) := by
  unfold ClientMgr.sendRequest
  dsimp only
  split
  · exact .reuse hf ‹_›
  · split
    · exact .limit
    · exact .create hf (by omega)

theorem stepsTo_of_muxRequest {s s' : ClientMgr Io} {type : ServiceType} {ip port : Bytes}
    (h : s.muxRequest type ip port = some s') : StepsTo s (.muxRequest type ip port) s' := by
  unfold ClientMgr.muxRequest at h
  dsimp only at h
  cases type with
  | http => simp at h
  | custom =>
    obtain rfl := Option.some.inj h
    exact .muxKnown
  | rpc | raw =>
    dsimp only at h
    split at h <;> obtain rfl := Option.some.inj h
    · exact .muxKnown
    · exact .muxCreate (by simp) ((Bool.not_eq_true _).mp ‹¬ _›)

theorem stepsTo_of_step {s s' : ClientMgr Io} {e : Event Io} (h : step s e = some s') :
    StepsTo s e s' := by
  unfold step at h
  split at h
  · split at h
    · obtain rfl := Option.some.inj h
      exact stepsTo_of_sendRequest ‹_›
    · simp at h
  · rename_i f ok
    split at h
    · rename_i k io clientId hf
      cases ok with
      | true =>
        obtain rfl := Option.some.inj h
        exact .sent hf
      | false =>
        obtain rfl := Option.some.inj h
        exact .sendFailed hf
    · simp at h
  · split at h
    · rename_i k io hf
      obtain ⟨c, hc, rfl⟩ := Option.map_eq_some_iff.mp h
      exact .getResponse hf hc
    · simp at h
  · split at h
    · obtain rfl := Option.some.inj h
      exact .responseEnd ‹_›
    · simp at h
  · exact stepsTo_of_muxRequest h

/-! ## Every client is in one place -/

/-- The key of the `k`-th client. -/
def ClientMgr.home (s : ClientMgr Io) (k : Nat) : Bytes :=
  (s.clients[k]?).elim [] HttpClient.clientId

/-- The client of a fiber. -/
def ClientMgr.held (s : ClientMgr Io) (f : Nat) : Option Nat := (s.fibers f).map Lease.client

/-- The RPC and raw clients with a key. -/
def ClientMgr.muxCount (s : ClientMgr Io) (clientId : Bytes) : Nat :=
  [ServiceType.rpc, .raw].countP fun type => s.clientPoolList type clientId

/-- The HTTP clients that were made with a key. -/
def ClientMgr.httpCount (s : ClientMgr Io) (clientId : Bytes) : Nat :=
  s.clients.countP fun c => c.clientId = clientId

/-- The key under which a fiber will give its client back. -/
def Phase.key : Phase → Option Bytes
  | .sending clientId | .receiving clientId => some clientId
  | .returned => none

/-- The clients are where they belong, and `client_num_` counts them. -/
structure Inv (s : ClientMgr Io) : Prop where
  custody : Custody (· < s.clients.length) s.home s.httpClientPoolList s.held
  /-- The two ways to compute the key agree. -/
  keys : ∀ f l clientId, s.fibers f = some l → l.phase.key = some clientId →
    s.home l.client = clientId
  num : ∀ clientId, (s.clientNum clientId).toNat = s.httpCount clientId + s.muxCount clientId
  /-- The limit, and one client of each other type. -/
  few : ∀ clientId, (s.clientNum clientId).toNat ≤ maxClientNum + 1 + s.muxCount clientId

theorem inv_init : Inv ({} : ClientMgr Io) where
  custody := by
    have hnone : (fun k : Nat => k < ([] : List (HttpClient Io)).length) = fun _ => False := by
      funext k
      simp
    rw [hnone]
    exact custody_empty _
  keys _ _ _ hf := nomatch hf
  num clientId := by simp [ClientMgr.httpCount, ClientMgr.muxCount]
  few clientId := by simp

theorem held_setFiber (s : ClientMgr Io) (f : Nat) (l : Option (Lease Io)) :
    (s.setFiber f l).held = Function.update s.held f (l.map Lease.client) := by
  funext f'
  by_cases hf : f' = f
  · subst hf
    simp [ClientMgr.held, ClientMgr.setFiber]
  · simp [ClientMgr.held, ClientMgr.setFiber, Function.update_of_ne hf]

theorem muxCount_le (s : ClientMgr Io) (clientId : Bytes) : s.muxCount clientId ≤ 2 :=
  List.countP_le_length

/-- A count goes up by one, far from overflowing. -/
theorem toNat_countUp {s : ClientMgr Io} (h : Inv s) (clientId id : Bytes) :
    (s.countUp clientId id).toNat =
      (s.clientNum id).toNat + if id = clientId then 1 else 0 := by
  unfold ClientMgr.countUp
  by_cases hid : id = clientId
  · subst hid
    have hfew := h.few id
    have hmux := muxCount_le s id
    have hlt : (s.clientNum id).toNat + 1 < 2 ^ 32 := by
      unfold maxClientNum at hfew
      omega
    rw [Function.update_self, UInt32.toNat_add, if_pos rfl]
    exact Nat.mod_eq_of_lt hlt
  · rw [Function.update_of_ne hid, if_neg hid, Nat.add_zero]

/-- A fiber goes on with the client it has, under a key that is the client's. -/
theorem Inv.move {s : ClientMgr Io} (h : Inv s) {f : Nat} {l : Lease Io} {phase : Phase}
    (hf : s.fibers f = some l)
    (hkey : ∀ clientId, phase.key = some clientId → s.home l.client = clientId) :
    Inv (s.setFiber f (some { l with phase := phase })) where
  custody := by
    have hheld : Function.update s.held f (some l.client) = s.held :=
      Function.update_eq_self_iff.mpr (by simp [ClientMgr.held, hf])
    rw [held_setFiber, Option.map_some, hheld]
    exact h.custody
  keys f' l' clientId hf' hp := by
    rcases update_held_eq_some hf' with ⟨-, rfl⟩ | ⟨-, hf'⟩
    · exact hkey clientId hp
    · exact h.keys f' l' clientId hf' hp
  num := h.num
  few := h.few

/-- A fiber gives its client back. -/
theorem Inv.pushBack {s : ClientMgr Io} (h : Inv s) {f : Nat} {l : Lease Io} {clientId : Bytes}
    (hf : s.fibers f = some l) (hp : l.phase.key = some clientId) :
    Inv (s.pushBack f clientId l.client) where
  custody := by
    obtain rfl := h.keys f l clientId hf hp
    have hfile := h.custody.file (h := f) (t := l.client) (by simp [ClientMgr.held, hf])
    have hheld := held_setFiber s f none
    rw [Option.map_none] at hheld
    rw [← hheld] at hfile
    exact hfile
  keys f' l' id hf' hp' := by
    have hff : f' ≠ f := by
      rintro rfl
      simp [ClientMgr.pushBack, ClientMgr.setFiber] at hf'
    refine h.keys f' l' id ?_ hp'
    simpa [ClientMgr.pushBack, ClientMgr.setFiber, Function.update_of_ne hff] using hf'
  num := h.num
  few := h.few

/-- A fiber takes a client that waits. -/
theorem Inv.reuse {s : ClientMgr Io} (h : Inv s) {f k : Nat} {io : Io} {clientId : Bytes}
    {ks : List Nat} (hf : s.fibers f = none) (hp : s.httpClientPoolList clientId = k :: ks) :
    Inv { s.setFiber f (some ⟨k, io, .sending clientId⟩) with
      httpClientPoolList := Function.update s.httpClientPoolList clientId ks } where
  custody := by
    have htake := h.custody.take (h := f) hp (by simp [ClientMgr.held, hf])
    have hheld := held_setFiber s f (some ⟨k, io, .sending clientId⟩)
    rw [Option.map_some] at hheld
    rw [← hheld] at htake
    exact htake
  keys f' l id hf' hp' := by
    rcases update_held_eq_some hf' with ⟨-, rfl⟩ | ⟨-, hf'⟩
    · obtain rfl : clientId = id := Option.some.inj hp'
      exact h.custody.home_eq clientId k (by simp [hp])
    · exact h.keys f' l id hf' hp'
  num := h.num
  few := h.few

theorem countP_clients_snoc (s : ClientMgr Io) (io : Io) (ip port id : Bytes) :
    (s.clients ++ [(⟨io, ip, port⟩ : HttpClient Io)]).countP (fun c => c.clientId = id) =
      s.httpCount id + if id = getClientId ip port then 1 else 0 := by
  rw [List.countP_append, List.countP_singleton]
  by_cases hid : id = getClientId ip port
  · simp [HttpClient.clientId, ClientMgr.httpCount, hid]
  · simp [HttpClient.clientId, ClientMgr.httpCount, hid, Ne.symm hid]

/-- A fiber gets a new client. -/
theorem Inv.create {s : ClientMgr Io} (h : Inv s) {f : Nat} {io : Io} {ip port : Bytes}
    (hf : s.fibers f = none) (hnum : (s.clientNum (getClientId ip port)).toNat ≤ maxClientNum) :
    Inv { s.setFiber f (some ⟨s.clients.length, io, .sending (getClientId ip port)⟩) with
      clients := s.clients ++ [⟨io, ip, port⟩]
      clientNum := s.countUp (getClientId ip port) } := by
  -- the old clients keep their places and so their keys
  have hhome (k : Nat) (hk : k < s.clients.length) :
      ((s.clients ++ [⟨io, ip, port⟩])[k]?).elim [] HttpClient.clientId = s.home k := by
    rw [List.getElem?_append_left hk]
    rfl
  constructor
  case custody =>
    have hnew := (h.custody.congr_home hhome).create (t := s.clients.length) (h := f)
      (Nat.lt_irrefl _) (by simp [ClientMgr.held, hf])
    have hheld := held_setFiber s f (some ⟨s.clients.length, io, .sending (getClientId ip port)⟩)
    rw [Option.map_some] at hheld
    rw [← hheld] at hnew
    have hknown : (fun k => k < s.clients.length ∨ k = s.clients.length) =
        (· < (s.clients ++ [(⟨io, ip, port⟩ : HttpClient Io)]).length) := by
      funext k
      rw [List.length_append, List.length_singleton, Nat.lt_succ_iff_lt_or_eq]
    rw [hknown] at hnew
    exact hnew
  case keys =>
    intro f' l id hf' hp
    rcases update_held_eq_some hf' with ⟨-, rfl⟩ | ⟨-, hl⟩
    · obtain rfl : getClientId ip port = id := Option.some.inj hp
      simp [ClientMgr.home, HttpClient.clientId]
    · have hlt := h.custody.known_held f' l.client (by simp [ClientMgr.held, hl])
      exact (hhome l.client hlt).trans (h.keys f' l id hl hp)
  case num =>
    intro id
    show (s.countUp (getClientId ip port) id).toNat =
      (s.clients ++ [(⟨io, ip, port⟩ : HttpClient Io)]).countP _ + s.muxCount id
    rw [toNat_countUp h, countP_clients_snoc, h.num id]
    omega
  case few =>
    intro id
    show (s.countUp (getClientId ip port) id).toNat ≤ maxClientNum + 1 + s.muxCount id
    have hfew := h.few id
    rw [toNat_countUp h]
    split
    · subst id
      omega
    · omega

/-- The first client of another type with a key. -/
theorem Inv.muxCreate {s : ClientMgr Io} (h : Inv s) {type : ServiceType} {clientId : Bytes}
    (ht : type = .rpc ∨ type = .raw) (hnew : s.clientPoolList type clientId = false) :
    Inv { s with
      clientNum := s.countUp clientId
      clientPoolList := Function.update s.clientPoolList type
        (Function.update (s.clientPoolList type) clientId true) } := by
  have hmux (id : Bytes) :
      [ServiceType.rpc, .raw].countP (fun type' =>
        Function.update s.clientPoolList type
          (Function.update (s.clientPoolList type) clientId true) type' id) =
        s.muxCount id + if id = clientId then 1 else 0 := by
    by_cases hid : id = clientId
    · subst hid
      rcases ht with rfl | rfl <;> simp [ClientMgr.muxCount, hnew, List.countP_cons]
      omega
    · rcases ht with rfl | rfl <;>
        simp [ClientMgr.muxCount, List.countP_cons, hid]
  constructor
  case custody => exact h.custody
  case keys => exact h.keys
  case num =>
    intro id
    have hnum := h.num id
    show (s.countUp clientId id).toNat = s.httpCount id + List.countP _ _
    rw [toNat_countUp h, hmux]
    omega
  case few =>
    intro id
    have hfew := h.few id
    show (s.countUp clientId id).toNat ≤ maxClientNum + 1 + List.countP _ _
    rw [toNat_countUp h, hmux]
    omega

theorem Inv.step {s s' : ClientMgr Io} {e : Event Io} (h : Inv s) (hs : StepsTo s e s') :
    Inv s' := by
  cases hs with
  | reuse hf hp => exact h.reuse hf hp
  | limit => exact h
  | create hf hnum => exact h.create hf hnum
  | sent hf => exact h.move hf fun _ hp => nomatch hp
  | sendFailed hf => exact h.pushBack hf rfl
  | getResponse hf hk =>
    refine h.move hf fun clientId hp => ?_
    obtain rfl := Option.some.inj hp
    simp [ClientMgr.home, hk]
  | responseEnd hf => exact h.pushBack hf rfl
  | muxKnown => exact h
  | muxCreate ht hnew => exact h.muxCreate ht hnew

theorem inv_of_run {s : ClientMgr Io} {es : List (Event Io)} (hrun : run step {} es = some s) :
    Inv s :=
  run_inv (fun _ _ _ h hs => h.step (stepsTo_of_step hs)) inv_init hrun

/-- **No client is lost and none has two users.** In every run every HTTP client that was
    made for a host and port waits, once, under that key and under no other, or exactly one
    fiber has it; and `client_num_` is their number for a key that no RPC or raw client
    uses. -/
theorem conserved {s : ClientMgr Io} {es : List (Event Io)} (hrun : run step {} es = some s) :
    (∀ k < s.clients.length, InOnePlace s.home s.httpClientPoolList s.held k) ∧
      ∀ clientId, (∀ type, s.clientPoolList type clientId = false) →
        (s.clientNum clientId).toNat = s.httpCount clientId := by
  have h := inv_of_run hrun
  refine ⟨fun k hk => h.custody.inOnePlace hk, fun clientId hmux => ?_⟩
  rw [h.num clientId, ClientMgr.muxCount]
  simp [hmux]

/-- Two fibers call one node; the second one's send fails, and it tries again. -/
def twoCallers : List (Event Nat) :=
  [.sendRequest 0 1 (ascii "n") (ascii "80"), .sendRequest 1 1 (ascii "n") (ascii "80"),
    .sendEnd 0 true, .sendEnd 1 false, .getResponse 0,
    .sendRequest 1 1 (ascii "n") (ascii "80")]

theorem twoCallers_conserved :
    ∃ s, run step {} twoCallers = some s ∧ s.clients.length = 2 ∧
      (∀ k < s.clients.length, InOnePlace s.home s.httpClientPoolList s.held k) ∧
      (s.clientNum (ascii "n:80")).toNat = s.httpCount (ascii "n:80") := by
  obtain ⟨s, hrun, hlen, hmux⟩ : ∃ s, run step {} twoCallers = some s ∧ s.clients.length = 2 ∧
      ∀ type, s.clientPoolList type (ascii "n:80") = false :=
    ⟨_, rfl, rfl, fun _ => rfl⟩
  exact ⟨s, hrun, hlen, (conserved hrun).1, (conserved hrun).2 _ hmux⟩

/-! ## The limit

`exceedClientLimit` is reached when `client_num_` is greater than `MAX_CLIENT_NUM`, so the
call that finds it equal makes one client more. -/

/-- No more HTTP clients were made for a key than the limit allows. -/
def ClientMgr.WithinCap (s : ClientMgr Io) : Prop :=
  ∀ clientId, s.httpCount clientId ≤ maxClientNum

/-- If no client of its key waits and as many as allowed were made, a call of
    `send_request` returns a null client and changes nothing. -/
def Refuses (s : ClientMgr Io) : Event Io → Prop
  | .sendRequest f io ip port =>
    s.httpClientPoolList (getClientId ip port) = [] →
      maxClientNum ≤ s.httpCount (getClientId ip port) →
        step s (.sendRequest f io ip port) = some s
  | _ => True

/-- When `send_request` finds no client that waits, fewer than the limit were made, or an
    RPC or raw client with the same key is counted with them. -/
def Spare (s : ClientMgr Io) : Event Io → Prop
  | .sendRequest _ _ ip port =>
    s.httpClientPoolList (getClientId ip port) = [] →
      s.httpCount (getClientId ip port) < maxClientNum ∨
        0 < s.muxCount (getClientId ip port)
  | _ => True

instance (s : ClientMgr Io) : ∀ e, Decidable (Spare s e)
  | .sendRequest _ _ ip port =>
    inferInstanceAs (Decidable (s.httpClientPoolList (getClientId ip port) = [] → _))
  | .sendEnd .. | .getResponse .. | .responseEnd .. | .muxRequest .. => isTrue trivial

theorem sendRequest_of_waiting {s : ClientMgr Io} {f k : Nat} {io : Io} {ip port : Bytes}
    {ks : List Nat} (hp : s.httpClientPoolList (getClientId ip port) = k :: ks) :
    (s.sendRequest f io ip port).clients = s.clients := by
  simp only [ClientMgr.sendRequest, hp]
  rfl

theorem sendRequest_of_limit {s : ClientMgr Io} {f : Nat} {io : Io} {ip port : Bytes}
    (hp : s.httpClientPoolList (getClientId ip port) = [])
    (hnum : maxClientNum < (s.clientNum (getClientId ip port)).toNat) :
    s.sendRequest f io ip port = s := by
  simp only [ClientMgr.sendRequest, hp, if_pos hnum]

theorem sendRequest_of_create {s : ClientMgr Io} {f : Nat} {io : Io} {ip port : Bytes}
    (hp : s.httpClientPoolList (getClientId ip port) = [])
    (hnum : ¬ maxClientNum < (s.clientNum (getClientId ip port)).toNat) :
    (s.sendRequest f io ip port).clients = s.clients ++ [⟨io, ip, port⟩] := by
  simp only [ClientMgr.sendRequest, hp, if_neg hnum]

/-- The number of clients depends on the list of them only. -/
theorem withinCap_congr {s s' : ClientMgr Io} (h : s'.clients = s.clients) :
    s'.WithinCap ↔ s.WithinCap := by
  unfold ClientMgr.WithinCap ClientMgr.httpCount
  rw [h]

/-- Whether a call keeps the number of clients within the limit. -/
theorem withinCap_sendRequest_iff {s : ClientMgr Io} {f : Nat} {io : Io} {ip port : Bytes}
    (h : Inv s) (hs : s.WithinCap) :
    (s.sendRequest f io ip port).WithinCap ↔ Spare s (.sendRequest f io ip port) := by
  have hnum := h.num (getClientId ip port)
  have hcap := hs (getClientId ip port)
  cases hp : s.httpClientPoolList (getClientId ip port) with
  | cons k ks => simp [Spare, hp, withinCap_congr (sendRequest_of_waiting hp), hs]
  | nil =>
    by_cases hlim : maxClientNum < (s.clientNum (getClientId ip port)).toNat
    · -- the call is refused, so one of the clients counted is not an HTTP client
      rw [sendRequest_of_limit hp hlim]
      exact ⟨fun _ _ => by omega, fun _ => hs⟩
    · have hcount (id : Bytes) : (s.sendRequest f io ip port).httpCount id =
          s.httpCount id + if id = getClientId ip port then 1 else 0 := by
        rw [← countP_clients_snoc s io, ← sendRequest_of_create hp hlim]
        rfl
      constructor
      · intro hs' _
        have hnew := hs' (getClientId ip port)
        rw [hcount, if_pos rfl] at hnew
        omega
      · intro hspare id
        have hid := hs id
        rw [hcount]
        split
        · subst id
          rcases hspare hp with hlt | hmux <;> omega
        · exact hid

theorem withinCap_step_iff {s s' : ClientMgr Io} {e : Event Io} (h : Inv s) (hs : s.WithinCap)
    (he : step s e = some s') : s'.WithinCap ↔ Spare s e := by
  cases e with
  | sendRequest f io ip port =>
    simp only [step] at he
    split at he
    · obtain rfl := Option.some.inj he
      exact withinCap_sendRequest_iff h hs
    · simp at he
  | sendEnd f ok | getResponse f | responseEnd f | muxRequest type ip port =>
    have hclients : s'.clients = s.clients := by cases stepsTo_of_step he <;> rfl
    rw [withinCap_congr hclients]
    exact ⟨fun _ => trivial, fun _ => hs⟩

theorem refuses_of_spare {s s' : ClientMgr Io} {e : Event Io} (h : Inv s)
    (hspare : Spare s e) (he : step s e = some s') : Refuses s e := by
  cases e with
  | sendRequest f io ip port =>
    intro hp hfull
    have hnum := h.num (getClientId ip port)
    have hlim : maxClientNum < (s.clientNum (getClientId ip port)).toNat := by
      rcases hspare hp with hlt | hmux <;> omega
    simp only [step] at he ⊢
    split at he
    · rw [sendRequest_of_limit hp hlim]
    · simp at he
  | sendEnd f ok | getResponse f | responseEnd f | muxRequest type ip port => exact trivial

/-- **The limit on the clients of a node.** In a run no more than `MAX_CLIENT_NUM` HTTP
    clients are made for any host and port, and every call that would go beyond is refused,
    exactly when no call finds none of them waiting at the limit itself, with no RPC or raw
    client of the same key in the count. -/
theorem capped_iff_spare {s : ClientMgr Io} {es : List (Event Io)}
    (hrun : run step {} es = some s) :
    Throughout step ClientMgr.WithinCap {} es ∧ Along step Refuses {} es ↔
      Along step Spare {} es := by
  have hinv (s : ClientMgr Io) (e : Event Io) (s' : ClientMgr Io) (h : Inv s)
      (he : step s e = some s') : Inv s' := h.step (stepsTo_of_step he)
  have hnone : ({} : ClientMgr Io).WithinCap := fun _ => Nat.zero_le _
  have hiff : Throughout step ClientMgr.WithinCap {} es ↔ Along step Spare {} es :=
    throughout_iff_along hinv (fun _ _ _ => withinCap_step_iff) inv_init hnone hrun
  rw [hiff]
  refine ⟨And.left, fun hspare => ⟨hspare, ?_⟩⟩
  exact along_mono (I := fun s => Inv s ∧ s.WithinCap)
    (fun s e s' h hsp he => ⟨hinv s e s' h.1 he, (withinCap_step_iff h.1 h.2 he).mpr hsp⟩)
    (fun s e s' h hsp he => refuses_of_spare h.1 hsp he) ⟨inv_init, hnone⟩ hspare hrun

theorem twoCallers_capped :
    ∃ s, run step {} twoCallers = some s ∧
      Throughout step ClientMgr.WithinCap {} twoCallers ∧ Along step Refuses {} twoCallers := by
  obtain ⟨s, hrun, -⟩ := Option.map_eq_some_iff.mp
    (show (run step {} twoCallers).map (fun s => s.clients.length) = some 2 by decide +kernel)
  exact ⟨s, hrun, (capped_iff_spare hrun).mpr (by decide +kernel)⟩

/-- `n` fibers call one node before any of them has its answer. -/
def callers (n : Nat) : List (Event Nat) :=
  (List.range n).map fun f => .sendRequest f 1 (ascii "n") (ascii "80")

/-- The call after the hundredth makes one client more. -/
theorem callers_over_cap :
    ∃ s, run step {} (callers 101) = some s ∧ s.httpCount (ascii "n:80") = 101 ∧
      ¬ Throughout step ClientMgr.WithinCap {} (callers 101) := by
  obtain ⟨s, hrun, hcount⟩ := Option.map_eq_some_iff.mp
    (show (run step {} (callers 101)).map (fun s => s.httpCount (ascii "n:80")) = some 101 by
      decide +kernel)
  refine ⟨s, hrun, hcount, fun hcap => ?_⟩
  have hle := hcap (callers 101) s (List.prefix_refl _) hrun (ascii "n:80")
  rw [hcount] at hle
  exact absurd hle (by decide)

end FiberProxy.Client.Mgr
