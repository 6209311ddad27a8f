/-
  FiberProxy.Forward.Clusters

  Calls while the cluster changes.  `curClusterName_` is read only where an address is
  looked up (`FibpServiceMgr::get_service_address`); requests and the keys of the answer
  cache do not have it.  The machine has the registry, the current cluster, the cache and
  any number of calls, which take turns.

  A live answer comes from a node of a cluster that was current during the call.  A cached
  one comes from a node of the cluster that was current when it was stored
  (`cachedElsewhere_not_isolated`), so the clusters stay apart while the cluster does not
  change under the cache (`isolated_of_settled`).
-/

import FiberProxy.Forward.TableAccess
import FiberProxy.Registry.Lookups

namespace FiberProxy.Forward.Clusters

open Lib

/-- The node of an answer: the cluster and the table when its address was looked up. -/
structure Source where
  cluster : Bytes
  table : Registry.State
  node : Registry.HostPair

/-- The node was registered for the request, under that cluster. -/
def Source.Registered (src : Source) (req : ServiceCallReq) : Prop :=
  ∃ t hosts, Registry.serviceTypes[typeIndex req.serviceType]? = some t ∧
    src.table.hosts t (Registry.serviceKey req.serviceName src.cluster) = some hosts ∧
    src.node ∈ hosts

/-- An entry of the cache, with the node that produced it. -/
structure Cached where
  req : ServiceCallReq
  rsp : ServiceCallRsp
  source : Option Source

/-- A call of `call_single_service`. -/
structure Running where
  req : ServiceCallReq
  call : CallState
  /-- The body that the caller's entry held. -/
  given : Bytes
  /-- The clusters that were current during the call. -/
  seen : List Bytes
  /-- The node whose address it found last. -/
  source : Option Source := none
  /-- The node that produced the body it delivers. -/
  delivered : Option Source := none

structure Site where
  table : Registry.State := {}
  /-- `curClusterName_`. -/
  cluster : Bytes := ascii "dev"
  cache : List Cached := []
  calls : List Running := []

/-- What a call meets where it stops; an address comes from the registry, a hit from the
    cache. -/
inductive Move where
  | enter
  | address (balanceIndex : Nat)
  | sent (available ok : Bool)
  | answered (ok : Bool) (rspdata : Bytes) (canRetry : Bool)
  | cached (hit : Option Nat)

inductive Event where
  | registry (e : Registry.Event)
  | changeCluster (newClusterName : Bytes)
  | begin (req : ServiceCallReq) (rsp : ServiceCallRsp)
  | call (k : Nat) (m : Move)

/-- The entry that the cache gives: one with an equal key. -/
def Site.hit? (s : Site) (req : ServiceCallReq) (j : Nat) : Option Cached :=
  s.cache[j]?.filter fun e => e.req.same req

/-- What the call makes of it. -/
def Move.event (s : Site) (req : ServiceCallReq) : Move → Option CallEvent
  | .enter => some .enter
  | .address balanceIndex => some ((Meets.address s.table s.cluster balanceIndex).event req)
  | .sent available ok => some ((Meets.sent available ok).event req)
  | .answered ok rspdata canRetry => some (.answered ok rspdata canRetry)
  | .cached none => some (.cached none)
  | .cached (some j) => (s.hit? req j).map fun e => .cached (some e.rsp)

/-- The node the call is with after a step. -/
def Running.sourceAfter (s : Site) (r : Running) : CallEvent → Option Source
  | .address (some node) => some ⟨s.cluster, s.table, node⟩
  | _ => r.source

/-- The node of the body, once there is one. -/
def Running.deliveredAfter (s : Site) (r : Running) : Move → Option Source
  | .answered true _ _ => r.source
  | .cached (some j) =>
    if r.req.enableCache then (s.hit? r.req j).bind Cached.source else r.delivered
  | _ => r.delivered

/-- `service_cache_->set`, for a call that has just succeeded. -/
def Running.cacheAfter (s : Site) (r : Running) (call' : CallState) : List Cached :=
  if r.call.isSuccess = false ∧ call'.isSuccess = true then
    if call'.rsp.error ≠ [] ∨ r.req.enableCache = false then s.cache
    else ⟨r.req, call'.rsp, r.source⟩ :: s.cache
  else s.cache

/-- The cluster is noted in the calls that are under way. -/
def Running.see (cluster : Bytes) (r : Running) : Running :=
  if r.call.phase = .done then r else { r with seen := cluster :: r.seen }

/-- The `k`-th call, which is `r`, takes a step. -/
def Site.move (s : Site) (k : Nat) (r : Running) (m : Move) (e : CallEvent) (call' : CallState) :
    Site :=
  { s with
    cache := r.cacheAfter s call'
    calls := s.calls.set k { r with
      call := call', source := r.sourceAfter s e, delivered := r.deliveredAfter s m } }

def step (s : Site) : Event → Option Site
  | .registry e => (Registry.step s.table e).map fun table => { s with table := table }
  | .changeCluster newClusterName =>
    if newClusterName = [] then some s
    else
      some { s with
        cluster := newClusterName
        calls := s.calls.map (Running.see newClusterName) }
  | .begin req rsp =>
    some { s with
      calls := s.calls ++
        [{ req := req, call := { rsp := rsp }, given := rsp.rsp, seen := [s.cluster] }] }
  | .call k m =>
    (s.calls[k]?).bind fun r => (m.event s r.req).bind fun e =>
      (callStep r.req r.call e).map fun call' => s.move k r m e call'

/-- The body of a call was produced by a node registered under a cluster that was current
    during the call.  Other bodies are the caller's own and that of `local_test`. -/
structure Running.Isolated (r : Running) : Prop where
  node : ∀ src, r.delivered = some src → src.cluster ∈ r.seen ∧ src.Registered r.req
  own : r.delivered = none →
    r.call.rsp.rsp = r.given ∨ r.req.serviceName = ascii "local_test"

def Site.Isolated (s : Site) : Prop := ∀ r ∈ s.calls, r.Isolated

/-- The cluster is changed to another one only while nothing is cached and no call that may
    cache is under way. -/
def Settled (s : Site) : Event → Prop
  | .changeCluster newClusterName =>
    newClusterName = [] ∨ newClusterName = s.cluster ∨
      s.cache = [] ∧ ∀ r ∈ s.calls, r.req.enableCache = true → r.call.phase = .done
  | _ => True

/-! ## What holds in every run -/

/-- A call and the node it is with. -/
structure Running.Ok (cluster : Bytes) (r : Running) : Prop extends r.Isolated where
  source : ∀ src, r.source = some src → src.cluster ∈ r.seen ∧ src.Registered r.req
  -- only a call that has found an address waits for an answer
  located : ∀ n, r.call.phase = .sending n ∨ r.call.phase = .waiting n → r.source ≠ none
  -- until its end a call sees every change
  current : r.call.phase ≠ .done → cluster ∈ r.seen
  -- what it caches belongs to the current cluster
  fresh : r.req.enableCache = true → r.call.phase ≠ .done → ∀ src, r.source = some src →
    src.cluster = cluster

/-- An entry of the cache, made by a node of the cluster. -/
def Cached.Of (cluster : Bytes) (e : Cached) : Prop :=
  ∃ src, e.source = some src ∧ src.cluster = cluster ∧ src.Registered e.req

structure Inv (s : Site) : Prop where
  calls : ∀ r ∈ s.calls, r.Ok s.cluster
  cache : ∀ e ∈ s.cache, e.Of s.cluster

theorem inv_init : Inv {} := ⟨by simp, by simp⟩

theorem registered_congr {src : Source} {a b : ServiceCallReq} (h : a.same b = true)
    (hreg : src.Registered a) : src.Registered b := by
  simp only [ServiceCallReq.same, Bool.and_eq_true, beq_iff_eq] at h
  obtain ⟨⟨⟨⟨⟨hname, -⟩, -⟩, -⟩, htype⟩, -⟩ := h
  obtain ⟨t, hosts, ht, hhosts, hmem⟩ := hreg
  exact ⟨t, hosts, htype ▸ ht, hname ▸ hhosts, hmem⟩

theorem hit?_eq_some {s : Site} {req : ServiceCallReq} {j : Nat} {e : Cached} :
    s.hit? req j = some e ↔ s.cache[j]? = some e ∧ e.req.same req = true := by
  simp [Site.hit?, Option.filter_eq_some_iff]

/-- A call that takes a step is not over. -/
theorem phase_ne_done {req : ServiceCallReq} {call call' : CallState} {e : CallEvent}
    (h : callStep req call e = some call') : call.phase ≠ .done := by
  intro hdone
  have hlt := callStep_weight h
  rw [hdone] at hlt
  exact absurd hlt (Nat.not_lt_zero _)

/-- What a call can meet, and what it makes of it. -/
inductive MovesTo (s : Site) (req : ServiceCallReq) : Move → CallEvent → Prop where
  | enter : MovesTo s req .enter .enter
  | address {balanceIndex : Nat} {found : Option (Bytes × Bytes)}
      (hfound : Registry.getServiceAddress s.table s.cluster balanceIndex req.serviceName
        (typeIndex req.serviceType) = found) :
      MovesTo s req (.address balanceIndex) (.address found)
  | sent (available ok ok' : Bool) : MovesTo s req (.sent available ok) (.sent ok')
  | answered (ok : Bool) (rspdata : Bytes) (canRetry : Bool) :
      MovesTo s req (.answered ok rspdata canRetry) (.answered ok rspdata canRetry)
  | miss : MovesTo s req (.cached none) (.cached none)
  | hit {j : Nat} {e : Cached} (he : s.cache[j]? = some e) (hsame : e.req.same req = true) :
      MovesTo s req (.cached (some j)) (.cached (some e.rsp))

theorem movesTo_of_event {s : Site} {req : ServiceCallReq} {m : Move} {e : CallEvent}
    (h : m.event s req = some e) : MovesTo s req m e := by
  cases m with
  | enter =>
    cases h
    exact .enter
  | address balanceIndex =>
    cases h
    exact .address rfl
  | sent available ok =>
    cases h
    simp only [Meets.event]
    split
    · exact .sent ..
    · split <;> exact .sent ..
  | answered ok rspdata canRetry =>
    cases h
    exact .answered ..
  | cached hit =>
    cases hit with
    | none =>
      cases h
      exact .miss
    | some j =>
      obtain ⟨e, hhit, rfl⟩ := Option.map_eq_some_iff.mp h
      obtain ⟨he, hsame⟩ := hit?_eq_some.mp hhit
      exact .hit he hsame

section Inv

variable {s s' : Site}

/-- The address that a call finds is that of a node of the current cluster. -/
theorem sourceAfter_ok {r : Running} {m : Move} {e : CallEvent} (h : r.Ok s.cluster)
    (hopen : r.call.phase ≠ .done) (hm : MovesTo s r.req m e) {src : Source}
    (hsrc : r.sourceAfter s e = some src) :
    src.cluster ∈ r.seen ∧ src.Registered r.req ∧
      (r.req.enableCache = true → src.cluster = s.cluster) := by
  unfold Running.sourceAfter at hsrc
  split at hsrc
  · cases hm with
    | address hfound =>
      obtain rfl := Option.some.inj hsrc
      exact ⟨h.current hopen, Registry.exists_hosts_of_getServiceAddress hfound, fun _ => rfl⟩
  · obtain ⟨hseen, hreg⟩ := h.source src hsrc
    exact ⟨hseen, hreg, fun hcache => h.fresh hcache hopen src hsrc⟩

/-- A call that is with a node has its address. -/
theorem sourceAfter_located {r : Running} {e : CallEvent} {call' : CallState}
    (h : r.Ok s.cluster) (hstep : CallStepsTo r.req r.call e call') (n : Nat)
    (hphase : call'.phase = .sending n ∨ call'.phase = .waiting n) :
    r.sourceAfter s e ≠ none := by
  cases hstep with
  | found ip port hp => simp [Running.sourceAfter]
  | sent hp => exact h.located _ (.inl hp)
  | localTest | enter | notFound | success | failed | cached => simp at hphase
  | sendFailed | retry =>
    simp only [nextTry] at hphase
    split at hphase <;> simp at hphase

/-- What is delivered is the answer of that node, or a cached one of the current cluster. -/
theorem deliveredAfter_node {r : Running} (hs : Inv s) (h : r.Ok s.cluster)
    (hopen : r.call.phase ≠ .done) {m : Move} {e : CallEvent} (hm : MovesTo s r.req m e)
    {src : Source} (hsrc : r.deliveredAfter s m = some src) :
    src.cluster ∈ r.seen ∧ src.Registered r.req := by
  cases hm with
  | answered ok =>
    cases ok with
    | true => exact h.source src hsrc
    | false => exact h.node src hsrc
  | hit he hsame =>
    simp only [Running.deliveredAfter, hit?_eq_some.mpr ⟨he, hsame⟩, Option.bind_some] at hsrc
    split at hsrc
    · obtain ⟨src', hsrc', hcluster, hreg⟩ := hs.cache _ (List.mem_of_getElem? he)
      obtain rfl := Option.some.inj (hsrc'.symm.trans hsrc)
      exact ⟨hcluster ▸ h.current hopen, registered_congr hsame hreg⟩
    · exact h.node src hsrc
  | enter | address | sent | miss => exact h.node src hsrc

/-- No other step writes the body. -/
theorem deliveredAfter_own {r : Running} (hs : Inv s) (h : r.Ok s.cluster) {m : Move}
    {e : CallEvent} {call' : CallState} (hm : MovesTo s r.req m e)
    (hstep : CallStepsTo r.req r.call e call') (hnone : r.deliveredAfter s m = none) :
    call'.rsp.rsp = r.given ∨ r.req.serviceName = ascii "local_test" := by
  cases hstep with
  | localTest hp hn => exact .inr hn
  | success rspdata canRetry hp =>
    -- an answer comes from the node whose address was found
    cases hm
    exact absurd hnone (h.located _ (.inr hp))
  | cached hit hp =>
    cases hm with
    | miss =>
      have hsame : cacheGet r.req none r.call.rsp = r.call.rsp := by simp [cacheGet]
      rw [hsame]
      exact h.own hnone
    | hit he hsame =>
      simp only [Running.deliveredAfter, hit?_eq_some.mpr ⟨he, hsame⟩,
        Option.bind_some] at hnone
      split at hnone
      · obtain ⟨src, hsrc, -⟩ := hs.cache _ (List.mem_of_getElem? he)
        exact absurd (hsrc.symm.trans hnone) (by simp)
      · rename_i hoff
        simp only [cacheGet, hoff]
        exact h.own hnone
  | enter | notFound | found | sent | sendFailed | failed | retry =>
    cases hm
    exact h.own hnone

/-- What is cached comes from the current cluster. -/
theorem cacheAfter_ok {r : Running} (hs : Inv s) (h : r.Ok s.cluster) {e : CallEvent}
    {call' : CallState} (hstep : CallStepsTo r.req r.call e call') :
    ∀ e ∈ r.cacheAfter s call', e.Of s.cluster := by
  unfold Running.cacheAfter
  split
  · rename_i hnew
    split
    · exact hs.cache
    · rename_i hset
      simp only [not_or, Bool.not_eq_false] at hset
      intro e he
      rcases List.mem_cons.mp he with rfl | he
      · -- only an answer makes a call succeed
        cases hstep with
        | success rspdata canRetry hp =>
          obtain ⟨src, hsrc⟩ := Option.ne_none_iff_exists'.mp (h.located _ (.inr hp))
          have hopen : r.call.phase ≠ .done := by simp [hp]
          exact ⟨src, hsrc, h.fresh hset.2 hopen src hsrc, (h.source src hsrc).2⟩
        | _ => exact absurd hnew.2 (by simp [hnew.1])
      · exact hs.cache e he
  · exact hs.cache

/-- A call takes a step. -/
theorem Inv.move (hs : Inv s) {k : Nat} {r : Running} {m : Move} {e : CallEvent}
    {call' : CallState} (hr : s.calls[k]? = some r) (he : m.event s r.req = some e)
    (hcall : callStep r.req r.call e = some call') : Inv (s.move k r m e call') := by
  have h := hs.calls r (List.mem_of_getElem? hr)
  have hopen := phase_ne_done hcall
  have hm := movesTo_of_event he
  have hstep := callStepsTo_of_callStep hcall
  refine ⟨forall_mem_set hs.calls ?_, cacheAfter_ok hs h hstep⟩
  constructor
  case toIsolated =>
    exact ⟨fun src hsrc => deliveredAfter_node hs h hopen hm hsrc,
      fun hnone => deliveredAfter_own hs h hm hstep hnone⟩
  case source =>
    intro src hsrc
    obtain ⟨hseen, hreg, -⟩ := sourceAfter_ok h hopen hm hsrc
    exact ⟨hseen, hreg⟩
  case located => exact sourceAfter_located h hstep
  case current => exact fun _ => h.current hopen
  case fresh => exact fun hcache _ src hsrc => (sourceAfter_ok h hopen hm hsrc).2.2 hcache

/-- A call sees the cluster change. -/
theorem Running.Ok.see {cluster cluster' : Bytes} {r : Running} (h : r.Ok cluster)
    (hsettled : cluster' = cluster ∨ (r.req.enableCache = true → r.call.phase = .done)) :
    (r.see cluster').Ok cluster' := by
  unfold Running.see
  split
  · rename_i hdone
    exact { h with
      current := fun hopen => absurd hdone hopen
      fresh := fun _ hopen => absurd hdone hopen }
  · rename_i hopen
    have hmore {src : Source} (hsrc : src.cluster ∈ r.seen ∧ src.Registered r.req) :
        src.cluster ∈ cluster' :: r.seen ∧ src.Registered r.req :=
      ⟨List.mem_cons_of_mem _ hsrc.1, hsrc.2⟩
    constructor
    case toIsolated => exact ⟨fun src hsrc => hmore (h.node src hsrc), h.own⟩
    case source => exact fun src hsrc => hmore (h.source src hsrc)
    case located => exact h.located
    case current => exact fun _ => List.mem_cons_self
    case fresh =>
      intro hcache _ src hsrc
      rcases hsettled with rfl | hdone
      · exact h.fresh hcache hopen src hsrc
      · exact absurd (hdone hcache) hopen

theorem Inv.step {e : Event} (hs : Inv s) (hsettled : Settled s e) (hstep : step s e = some s') :
    Inv s' := by
  cases e with
  | registry e =>
    obtain ⟨table, -, rfl⟩ := Option.map_eq_some_iff.mp hstep
    exact ⟨hs.calls, hs.cache⟩
  | changeCluster name =>
    simp only [Clusters.step] at hstep
    split at hstep
    · cases hstep
      exact hs
    · rename_i hne
      cases hstep
      -- the same name again, or nothing that the old cluster could leave behind
      replace hsettled := hsettled.resolve_left hne
      refine ⟨fun r hr => ?_, fun e he => ?_⟩
      · obtain ⟨r₀, hr₀, rfl⟩ := List.mem_map.mp hr
        exact (hs.calls r₀ hr₀).see (hsettled.imp_right fun h => h.2 r₀ hr₀)
      · rcases hsettled with rfl | ⟨hempty, -⟩
        · exact hs.cache e he
        · rw [hempty] at he
          cases he
  | begin req rsp =>
    cases hstep
    exact ⟨forall_mem_snoc hs.calls ⟨⟨by simp, by simp⟩, by simp, by simp, by simp, by simp⟩,
      hs.cache⟩
  | call k m =>
    obtain ⟨r, hr, hstep⟩ := Option.bind_eq_some_iff.mp hstep
    obtain ⟨e, he, hstep⟩ := Option.bind_eq_some_iff.mp hstep
    obtain ⟨call', hcall, rfl⟩ := Option.map_eq_some_iff.mp hstep
    exact hs.move hr he hcall

end Inv

/-- **Clusters stay apart** in every run of registry updates, cluster changes and calls in
    which the cluster changes only while nothing is cached or about to be. -/
theorem isolated_of_settled {es : List Event} {s : Site} (hsettled : Along step Settled {} es)
    (hrun : run step {} es = some s) : s.Isolated := by
  have hs : Inv s :=
    run_inv_along (fun s e s' hs hP hstep => hs.step hP hstep) inv_init hsettled hrun
  exact fun r hr => (hs.calls r hr).toIsolated

/-- A node of `users` in a cluster. -/
def usersNode (cluster : Bytes) : Registry.Node where
  host := ascii "10.0.0.1"
  port := 80
  service := ascii "users"
  tags := [ascii "http", cluster]
  statuses := some [ascii "passing"]

def usersList : ServiceCallReq where
  serviceName := ascii "users"
  serviceApi := ascii "list"
  enableCache := true

/-- The node is registered, and a call gets its answer, which is cached. -/
def answeredIn (cluster : Bytes) : List Event :=
  (Registry.handling (ascii "users") [Registry.healthRsp [usersNode cluster]]).map Event.registry ++
    [Event.begin usersList {}, .call 0 .enter, .call 0 (.address 0), .call 0 (.sent true true),
      .call 0 (.answered true (ascii "[1, 2]") true)]

/-- The cluster that the body of each call is from. -/
def Site.clusters (s : Site) : List (Option Bytes) :=
  s.calls.map fun r => r.delivered.map Source.cluster

/-- The cluster is changed before the first call. -/
def switchedFirst : List Event := .changeCluster (ascii "prod") :: answeredIn (ascii "prod")

theorem switchedFirst_isolated :
    ∃ s, run step {} switchedFirst = some s ∧
      s.clusters = [some (ascii "prod")] ∧ s.Isolated := by
  have hview : (run step {} switchedFirst).map Site.clusters = some [some (ascii "prod")] := by
    decide +kernel
  obtain ⟨s, hrun, hs⟩ := Option.map_eq_some_iff.mp hview
  have hfirst : Settled {} (.changeCluster (ascii "prod")) := .inr (.inr ⟨rfl, by simp⟩)
  have hrest : ∀ e ∈ answeredIn (ascii "prod"), ∀ s, Settled s e := by
    simp only [answeredIn, List.mem_append, List.mem_map, List.mem_cons, List.not_mem_nil, or_false]
    rintro e (⟨e, -, rfl⟩ | rfl | rfl | rfl | rfl | rfl) s <;> trivial
  have hsettled : Along step Settled {} switchedFirst :=
    ⟨hfirst, fun _ _ => along_of_forall hrest⟩
  exact ⟨s, hrun, hs, isolated_of_settled hsettled hrun⟩

/-! ## A cached answer of another cluster -/

/-- The cluster is changed to one without nodes, and the same request is called again. -/
def cachedElsewhere : List Event :=
  answeredIn (ascii "dev") ++
    [Event.changeCluster (ascii "prod"), .begin usersList {}, .call 1 .enter,
      .call 1 (.address 0), .call 1 (.cached (some 0))]

/-- The clusters a call has seen, its body, whether that is a cached one, and the cluster it
    is from. -/
def outcome (r : Running) : (List Bytes × Bytes) × Bool × Option Bytes :=
  ((r.seen, r.call.rsp.rsp), r.call.rsp.isCached, r.delivered.map Source.cluster)

/-- **A call gets an answer of another cluster**, one that was not current during the call. -/
theorem cachedElsewhere_not_isolated :
    ∃ s, run step {} cachedElsewhere = some s ∧
      (∃ r ∈ s.calls, r.seen = [ascii "prod"] ∧ r.call.rsp.rsp = ascii "[1, 2]" ∧
        r.call.rsp.isCached = true ∧ r.delivered.map Source.cluster = some (ascii "dev")) ∧
      ¬ s.Isolated := by
  have hview : (run step {} cachedElsewhere).map (fun s => s.calls[1]?.map outcome) =
      some (some (([ascii "prod"], ascii "[1, 2]"), true, some (ascii "dev"))) := by
    decide +kernel
  obtain ⟨s, hrun, hs⟩ := Option.map_eq_some_iff.mp hview
  obtain ⟨r, hr, hr'⟩ := Option.map_eq_some_iff.mp hs
  simp only [outcome, Prod.mk.injEq, and_assoc] at hr'
  have hmem := List.mem_of_getElem? hr
  refine ⟨s, hrun, ⟨r, hmem, hr'⟩, fun hiso => ?_⟩
  obtain ⟨src, hsrc, hdev⟩ := Option.map_eq_some_iff.mp hr'.2.2.2
  have hseen := ((hiso r hmem).node src hsrc).1
  rw [hdev, hr'.1] at hseen
  exact absurd hseen (by decide)

end FiberProxy.Forward.Clusters
