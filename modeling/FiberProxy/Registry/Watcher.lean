/-
  FiberProxy.Registry.Watcher

  The watchers of the service registry:
  `FibpServiceMgr::watchServiceNodeChangeFunc` (`forward-manager/FibpServiceMgr.cpp`)
  and the table `reg_service_host_info_` they share.  Each service has a watcher.  A
  watcher handles one response after another; for every service type it locks the
  table, erases the keys it registered before and registers those of the response.
  Other watchers can run between two of these passes.
-/

import FiberProxy.Lib.Run
import FiberProxy.Registry.ServiceInfo

namespace FiberProxy.Registry

open Lib

/-- `ServiceHostMapT`. -/
abbrev HostMap := AList fun _ : Bytes => List HostPair

/-- One type's part of the pass: erase the last keys, then register the new ones. -/
def registerType (last : List Bytes) (info : HostSets) (hosts : HostMap) : HostMap :=
  info.entries.foldl (fun hosts e => hosts.insert e.1 e.2.toList)
    (last.foldl (fun hosts key => hosts.erase key) hosts)

/-- The locals of a watcher. -/
structure Watcher where
  lastServiceNames : List Bytes := []
  nodeList : NodeList := fun _ => ∅
  /-- The passes left for the response. -/
  todo : List ServiceType := []

structure State where
  /-- `reg_service_host_info_`. -/
  reg : ServiceType → HostMap := fun _ => ∅
  watchers : Bytes → Watcher := fun _ => {}

/-- The hosts registered under a key. -/
def State.hosts (s : State) (t : ServiceType) (key : Bytes) : Option (List HostPair) :=
  (s.reg t).lookup key

inductive Event where
  /-- The watcher of a service gets a response. -/
  | rsp (name : Bytes) (doc : Json)
  /-- It makes its next pass. -/
  | pass (name : Bytes)

def Event.name : Event → Bytes
  | .rsp name _ | .pass name => name

def serviceTypes : List ServiceType := [.http, .rpc, .raw, .custom]

/-- The watcher has a response to register. -/
def State.begin (s : State) (name : Bytes) (nodeList : NodeList) : State where
  reg := s.reg
  watchers := Function.update s.watchers name
    { lastServiceNames := (s.watchers name).lastServiceNames
      nodeList := nodeList
      todo := serviceTypes }

/-- The watcher's pass over one type, with `todo` left. -/
def State.pass (s : State) (name : Bytes) (t : ServiceType) (todo : List ServiceType) : State where
  reg := Function.update s.reg t
    (registerType (s.watchers name).lastServiceNames ((s.watchers name).nodeList t) (s.reg t))
  watchers := Function.update s.watchers name
    { lastServiceNames :=
        ((s.watchers name).nodeList t).keys ++ (s.watchers name).lastServiceNames
      nodeList := (s.watchers name).nodeList
      todo := todo }

def step (s : State) : Event → Option State
  | .rsp name doc =>
    match (s.watchers name).todo with
    -- the next response is fetched after the passes over this one
    | _ :: _ => none
    | [] =>
      (parseServiceInfoRsp doc).map fun
        | none => s
        | some nodeList => s.begin name nodeList
  | .pass name =>
    match (s.watchers name).todo with
    | [] => none
    | t :: todo => some (s.pass name t todo)

/-- `FibpServiceMgr::get_service_address`, `curClusterName_` being `cluster`. -/
def getServiceAddress (s : State) (cluster : Bytes) (balanceIndex : Nat) (serviceName : Bytes)
    (type : Nat) : Option HostPair :=
  match serviceTypes[type]? with
  | none => none
  | some t =>
    match s.hosts t (serviceKey serviceName cluster) with
    | none => none
    | some hosts => hosts[balanceIndex % hosts.length]?

/-! ## One pass -/

theorem lookup_eraseAll (keys : List Bytes) (hosts : HostMap) (k : Bytes) :
    (keys.foldl (fun hosts key => hosts.erase key) hosts).lookup k =
      if k ∈ keys then none else hosts.lookup k := by
  induction keys generalizing hosts with
  | nil => simp
  | cons key keys ih =>
    rw [List.foldl_cons, ih]
    by_cases hk : k = key
    · subst hk
      simp
    · simp [AList.lookup_erase_ne hk, hk]

theorem lookup_insertAll (info : HostSets) (hosts : HostMap) (k : Bytes) :
    (info.entries.foldl (fun hosts e => hosts.insert e.1 e.2.toList) hosts).lookup k =
      ((info.lookup k).map OrderedSet.toList).or (hosts.lookup k) := by
  -- on the entries, whose keys differ; the table varies
  have hentries (entries : List (Sigma fun _ : Bytes => HostSet)) (hnodup : entries.NodupKeys) :
      (entries.foldl (fun hosts e => hosts.insert e.1 e.2.toList) hosts).lookup k =
        ((entries.dlookup k).map OrderedSet.toList).or (hosts.lookup k) := by
    induction entries generalizing hosts with
    | nil => rfl
    | cons e entries ih =>
      obtain ⟨key, hs⟩ := e
      obtain ⟨hkey, hrest⟩ := List.nodupKeys_cons.mp hnodup
      rw [List.foldl_cons, ih _ hrest]
      by_cases hk : k = key
      · subst hk
        rw [List.dlookup_eq_none.mpr hkey, AList.lookup_insert, List.dlookup_cons_eq]
        rfl
      · rw [AList.lookup_insert_ne hk,
          List.dlookup_cons_ne entries (⟨key, hs⟩ : Sigma fun _ : Bytes => HostSet) hk]
  exact hentries info.entries info.nodupKeys

/-- **What a pass leaves.** A key of the response has its hosts; of the other keys, those
    registered before are gone. -/
theorem lookup_registerType (last : List Bytes) (info : HostSets) (hosts : HostMap) (k : Bytes) :
    (registerType last info hosts).lookup k =
      ((info.lookup k).map OrderedSet.toList).or
        (if k ∈ last then none else hosts.lookup k) := by
  rw [registerType, lookup_insertAll, lookup_eraseAll]

/-! ## One response -/

/-- The keys registered for this type are among those the watcher remembers. -/
def Remembers (s : State) (name : Bytes) (t : ServiceType) : Prop :=
  ∀ k, (s.hosts t k).isSome = true → k ∈ (s.watchers name).lastServiceNames

/-- The table of this type is the response's. -/
def Holds (s : State) (nodeList : NodeList) (t : ServiceType) : Prop :=
  ∀ k, s.hosts t k = ((nodeList t).lookup k).map OrderedSet.toList

section Pass

variable {s : State} {name : Bytes} {t t' : ServiceType} {todo : List ServiceType}

@[simp] theorem pass_watcher_todo : ((s.pass name t todo).watchers name).todo = todo := by
  simp [State.pass]

@[simp] theorem pass_watcher_nodeList :
    ((s.pass name t todo).watchers name).nodeList = (s.watchers name).nodeList := by
  simp [State.pass]

theorem mem_pass_lastServiceNames {k : Bytes} :
    k ∈ ((s.pass name t todo).watchers name).lastServiceNames ↔
      k ∈ (s.watchers name).nodeList t ∨ k ∈ (s.watchers name).lastServiceNames := by
  simp [State.pass, AList.mem_keys]

theorem hosts_pass_self (k : Bytes) :
    (s.pass name t todo).hosts t k =
      (((s.watchers name).nodeList t |>.lookup k).map OrderedSet.toList).or
        (if k ∈ (s.watchers name).lastServiceNames then none else s.hosts t k) := by
  simp only [State.hosts, State.pass, Function.update_self, lookup_registerType]

theorem hosts_pass_of_ne (h : t' ≠ t) : (s.pass name t todo).hosts t' = s.hosts t' := by
  funext k
  simp only [State.hosts, State.pass, Function.update_of_ne h]

/-- A key that is remembered wherever it is registered has the hosts of the response. -/
theorem hosts_pass_of_remembered {k : Bytes}
    (h : (s.hosts t k).isSome = true → k ∈ (s.watchers name).lastServiceNames) :
    (s.pass name t todo).hosts t k =
      ((s.watchers name).nodeList t |>.lookup k).map OrderedSet.toList := by
  rw [hosts_pass_self]
  -- a key that is registered is remembered, so it was erased first
  cases hk : s.hosts t k with
  | none => simp
  | some hosts => simp [h (by simp [hk])]

/-- A key that the watcher neither remembers nor has in its response stays as it is. -/
theorem hosts_pass_of_foreign {k : Bytes} (hlast : k ∉ (s.watchers name).lastServiceNames)
    (hnodes : k ∉ (s.watchers name).nodeList t) :
    (s.pass name t todo).hosts t' k = s.hosts t' k := by
  by_cases ht : t' = t
  · subst ht
    rw [hosts_pass_self, AList.lookup_eq_none.mpr hnodes, if_neg hlast]
    rfl
  · rw [hosts_pass_of_ne ht]

theorem holds_pass (h : Remembers s name t) :
    Holds (s.pass name t todo) (s.watchers name).nodeList t :=
  fun k => hosts_pass_of_remembered (h k)

/-- The watcher remembers what it registers, and forgets nothing. -/
theorem remembers_pass (h : Remembers s name t') : Remembers (s.pass name t todo) name t' := by
  intro k hk
  rw [mem_pass_lastServiceNames]
  by_cases ht : t' = t
  · subst ht
    rw [holds_pass h k, Option.isSome_map] at hk
    exact .inl (AList.lookup_isSome.mp hk)
  · rw [hosts_pass_of_ne ht] at hk
    exact .inr (h k hk)

/-- The passes that are left register the response. -/
theorem run_passes (htodo : (s.watchers name).todo = todo) (hnodup : todo.Nodup)
    (hrem : ∀ t, Remembers s name t) :
    ∃ s', run step s (List.replicate todo.length (.pass name)) = some s' ∧
      (s'.watchers name).todo = [] ∧ (∀ t, Remembers s' name t) ∧
      (∀ t ∈ todo, Holds s' (s.watchers name).nodeList t) ∧
      ∀ t ∉ todo, s'.hosts t = s.hosts t := by
  induction todo generalizing s with
  | nil => exact ⟨s, rfl, htodo, hrem, by simp, fun _ _ => rfl⟩
  | cons t todo ih =>
    obtain ⟨hnot, hnodup⟩ := List.nodup_cons.mp hnodup
    obtain ⟨s', hrun, hidle, hrem', hholds, hkeep⟩ :=
      ih (s := s.pass name t todo) pass_watcher_todo hnodup fun t' => remembers_pass (hrem t')
    refine ⟨s', ?_, hidle, hrem', ?_, ?_⟩
    · rw [List.length_cons, List.replicate_succ, run_cons]
      simp only [step, htodo, Option.bind_some]
      exact hrun
    · intro t' ht'
      rcases List.mem_cons.mp ht' with rfl | ht'
      -- the passes that follow leave this type alone
      · intro k
        rw [hkeep t' hnot]
        exact holds_pass (hrem t') k
      · simpa using hholds t' ht'
    · intro t' ht'
      obtain ⟨hne, hnot'⟩ : t' ≠ t ∧ t' ∉ todo := by simpa using ht'
      rw [hkeep t' hnot', hosts_pass_of_ne hne]

end Pass

/-! ## Any number of responses -/

/-- The table is what the nodes of one response say: for every type and key the sorted
    addresses, without repetition, of the passing nodes of that type with that key, and
    nothing when there are none. -/
def Registered (nodes : List Node) (s : State) : Prop :=
  ∀ t k,
    match s.hosts t k with
    | some hosts =>
      hosts.Pairwise hostLt ∧ hosts ≠ [] ∧ ∀ p, p ∈ hosts ↔
        ∃ n ∈ nodes, n.passing = true ∧ n.type = t ∧ k ∈ n.keys ∧ p = n.address
    | none => ¬ ∃ n ∈ nodes, n.passing = true ∧ n.type = t ∧ k ∈ n.keys

/-- The watcher of `name` handles these responses. -/
def handling (name : Bytes) (docs : List Json) : List Event :=
  docs.flatMap fun doc => .rsp name doc :: List.replicate serviceTypes.length (.pass name)

theorem handling_append (name : Bytes) (docs docs' : List Json) :
    handling name (docs ++ docs') = handling name docs ++ handling name docs' :=
  List.flatMap_append

theorem registered_of_holds {nodes : List Node} {nodeList : NodeList} {s : State}
    (hagrees : Agrees nodes nodeList) (hholds : ∀ t, Holds s nodeList t) : Registered nodes s := by
  intro t k
  rw [hholds t k]
  cases hk : (nodeList t).lookup k with
  | none =>
    simp only [Option.map_none]
    rw [← hagrees.isSome t k, hk]
    simp
  | some hs =>
    refine ⟨hs.increasing, ?_, hagrees.mem t k hs hk⟩
    obtain ⟨n, hn, hpassing, htype, hkey⟩ := (hagrees.isSome t k).mp (by simp [hk])
    have hmem : n.address ∈ hs :=
      (hagrees.mem t k hs hk n.address).mpr ⟨n, hn, hpassing, htype, hkey, rfl⟩
    exact List.ne_nil_of_mem hmem

/-- One response, handled by a watcher that remembers what is registered. -/
theorem run_response {s : State} {name : Bytes} {doc : Json} {nodes : List Node}
    (hidle : (s.watchers name).todo = []) (hrem : ∀ t, Remembers s name t)
    (hdoc : WellFormed doc nodes) :
    ∃ s', run step s (handling name [doc]) = some s' ∧ (s'.watchers name).todo = [] ∧
      (∀ t, Remembers s' name t) ∧ Registered nodes s' := by
  obtain ⟨nodeList, hparse, hagrees⟩ := parseServiceInfoRsp_agrees hdoc
  have hbegin : step s (.rsp name doc) = some (s.begin name nodeList) := by
    simp [step, hidle, hparse]
  have hrem' (t : ServiceType) : Remembers (s.begin name nodeList) name t := by
    simpa [Remembers, State.hosts, State.begin] using hrem t
  have htodo : ((s.begin name nodeList).watchers name).todo = serviceTypes := by
    simp [State.begin]
  obtain ⟨s', hrun, hidle', hrem'', hholds, -⟩ := run_passes htodo (by decide) hrem'
  refine ⟨s', ?_, hidle', hrem'', registered_of_holds hagrees fun t => ?_⟩
  · rw [handling, List.flatMap_singleton, run_cons, hbegin]
    exact hrun
  · have ht : t ∈ serviceTypes := by cases t <;> decide
    simpa [State.begin] using hholds t ht

/-- **The table is the last response.** A watcher alone, on an empty table, over any
    number of well-formed responses: after the last one the table is what that response
    says. -/
theorem registered_last (name : Bytes) {docs : List Json} {doc : Json} {nodes : List Node}
    (hdocs : ∀ d ∈ docs, ∃ ns, WellFormed d ns) (hdoc : WellFormed doc nodes) :
    ∃ s, run step {} (handling name (docs ++ [doc])) = some s ∧ Registered nodes s := by
  have hall : ∃ s, run step {} (handling name docs) = some s ∧ (s.watchers name).todo = [] ∧
      ∀ t, Remembers s name t := by
    -- the watcher is idle and remembers all it registered, after each response
    induction docs using List.reverseRecOn with
    | nil => exact ⟨{}, rfl, rfl, by simp [Remembers, State.hosts]⟩
    | append_singleton docs d ih =>
      obtain ⟨s, hrun, hidle, hrem⟩ := ih fun d' hd' => hdocs d' (by simp [hd'])
      obtain ⟨ns, hd⟩ := hdocs d (by simp)
      obtain ⟨s', hrun', hidle', hrem', -⟩ := run_response hidle hrem hd
      exact ⟨s', by rw [handling_append, run_append, hrun]; exact hrun', hidle', hrem'⟩
  obtain ⟨s, hrun, hidle, hrem⟩ := hall
  obtain ⟨s', hrun', -, -, hreg⟩ := run_response hidle hrem hdoc
  exact ⟨s', by rw [handling_append, run_append, hrun]; exact hrun', hreg⟩

/-- One passing node of `svc` with the tag `Prod`. -/
def prodNode (port : Int) : Node where
  host := ascii "10.0.0.1"
  port := port
  service := ascii "svc"
  tags := [ascii "Prod"]
  statuses := some [ascii "passing"]

/-- The node has moved to another port: the old address is gone. -/
theorem registered_movedNode :
    ∃ s, run step {} (handling (ascii "svc")
        ([healthRsp [prodNode 80]] ++ [healthRsp [prodNode 81]])) = some s ∧
      Registered [prodNode 81] s :=
  registered_last (ascii "svc")
    (fun _ hd => ⟨_, List.mem_singleton.mp hd ▸ wellFormed_healthRsp [prodNode 80]⟩)
    (wellFormed_healthRsp _)

/-- A tag is registered in lower case: under the tag as it stands there is nothing. -/
theorem prodTag_notRegistered :
    WellFormed (healthRsp [prodNode 80]) [prodNode 80] ∧ (prodNode 80).passing = true ∧
      (prodNode 80).type = .custom ∧ (prodNode 80).tags = [ascii "Prod"] ∧
      ∃ s, run step {} (handling (ascii "svc") [healthRsp [prodNode 80]]) = some s ∧
        s.hosts .custom (serviceKey (ascii "svc") (ascii "Prod")) = none ∧
        s.hosts .custom (serviceKey (ascii "svc") (ascii "prod")) =
          some [(ascii "10.0.0.1", ascii "80")] := by
  have hlookup : (run step {} (handling (ascii "svc") [healthRsp [prodNode 80]])).map (fun s =>
      [ascii "Prod", ascii "prod"].map fun tag => s.hosts .custom (serviceKey (ascii "svc") tag)) =
      some [none, some [(ascii "10.0.0.1", ascii "80")]] := by decide +kernel
  obtain ⟨s, hrun, hs⟩ := Option.map_eq_some_iff.mp hlookup
  simp only [List.map_cons, List.map_nil, List.cons.injEq, and_true] at hs
  exact ⟨wellFormed_healthRsp _, by decide +kernel, by decide +kernel, rfl, s, hrun, hs⟩

end FiberProxy.Registry

