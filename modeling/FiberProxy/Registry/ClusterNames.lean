/-
  FiberProxy.Registry.ClusterNames

  The cluster of a lookup and the tags of the nodes.  A node's tags are put in lower
  case when it is registered, the name that `FibpServiceMgr::changeCluster` sets is
  used as it stands.  A node is found under a tag of its own exactly when the tag is
  in lower case already (`foundInCluster_iff`).
-/

import FiberProxy.Lib.Lists
import FiberProxy.Registry.Isolation
import FiberProxy.Registry.Lookups

namespace FiberProxy.Registry

open Lib

/-- `FibpServiceMgr::changeCluster`: `curClusterName_` after it. -/
def changeCluster (curClusterName newClusterName : Bytes) : Bytes :=
  if newClusterName = [] then curClusterName else newClusterName

/-- Every index gives an address, and the indices from 0 on give each of these addresses
    once before they begin anew. -/
def ServesEach (s : State) (cluster serviceName : Bytes) (type : Nat)
    (addresses : HostPair → Prop) : Prop :=
  (∀ i, (getServiceAddress s cluster i serviceName type).isSome = true) ∧
    ∃ hosts : List HostPair, hosts.Nodup ∧ (∀ p, p ∈ hosts ↔ addresses p) ∧
      ∀ i < hosts.length, getServiceAddress s cluster i serviceName type = hosts[i]?

/-- The address of a node registered for a service, a type and a cluster. -/
def RegisteredFor (nodes : List Node) (serviceName : Bytes) (t : ServiceType) (cluster : Bytes)
    (p : HostPair) : Prop :=
  ∃ n ∈ nodes, n.passing = true ∧ n.service = serviceName ∧ n.type = t ∧
    cluster ∈ n.serviceTags ∧ p = n.address

/-! ## Tags and keys -/

theorem serviceKey_inj {serviceName tag tag' : Bytes} :
    serviceKey serviceName tag = serviceKey serviceName tag' ↔ tag = tag' := by
  unfold serviceKey
  rw [List.append_cancel_left_eq]

theorem mem_keys_iff {n : Node} {tag : Bytes} :
    serviceKey n.service tag ∈ n.keys ↔ tag ∈ n.serviceTags := by
  unfold Node.keys
  rw [List.mem_map]
  constructor
  · rintro ⟨tag', hmem, hkey⟩
    rwa [← serviceKey_inj.mp hkey]
  · exact fun hmem => ⟨tag, hmem, rfl⟩

/-- A tag that names no protocol is registered as it stands exactly when it is in lower
    case. -/
theorem mem_serviceTags_iff {n : Node} {tag : Bytes} (htag : tag ∈ n.tags)
    (hplain : protocol? (toLower tag) = none) : tag ∈ n.serviceTags ↔ toLower tag = tag := by
  refine ⟨toLower_of_mem_serviceTags, fun hlower => ?_⟩
  have hmem : tag ∈ plainTags (n.tags.map toLower) := by
    refine List.mem_filter.mpr ⟨List.mem_map.mpr ⟨tag, htag, hlower⟩, ?_⟩
    rw [← hlower, hplain]
    rfl
  unfold Node.serviceTags
  rw [if_neg]
  · exact hmem
  · exact fun h => List.ne_nil_of_mem hmem h.2

/-! ## Lookups of one key -/

/-- A lookup over the hosts that a response gives for the key. -/
theorem getServiceAddress_of_hosts {s : State} {cluster serviceName : Bytes} {type : Nat}
    {t : ServiceType} {hosts : List HostPair} (ht : serviceTypes[type]? = some t)
    (hhosts : s.hosts t (serviceKey serviceName cluster) = some hosts) (i : Nat) :
    getServiceAddress s cluster i serviceName type = hosts[i % hosts.length]? := by
  simp only [getServiceAddress, ht, hhosts]

theorem servesEach_of_hosts {s : State} {cluster serviceName : Bytes} {type : Nat}
    {t : ServiceType} {hosts : List HostPair} {addresses : HostPair → Prop}
    (ht : serviceTypes[type]? = some t)
    (hhosts : s.hosts t (serviceKey serviceName cluster) = some hosts) (hne : hosts ≠ [])
    (hnodup : hosts.Nodup) (hmem : ∀ p, p ∈ hosts ↔ addresses p) :
    ServesEach s cluster serviceName type addresses := by
  refine ⟨fun i => ?_, hosts, hnodup, hmem, fun i hi => ?_⟩
  · rw [getServiceAddress_of_hosts ht hhosts]
    exact isSome_getElem?_mod hne i
  · rw [getServiceAddress_of_hosts ht hhosts, Nat.mod_eq_of_lt hi]

/-- A watcher alone: no other one uses its keys. -/
theorem spares_handling (name key : Bytes) (docs : List Json) :
    ∀ e ∈ handling name docs, e.Spares name key := by
  intro e he
  simp only [handling, List.mem_flatMap, List.mem_cons, List.mem_replicate] at he
  obtain ⟨doc, -, rfl | ⟨-, rfl⟩⟩ := he
  · exact fun hne => absurd rfl hne
  · trivial

theorem newResponse_handling {name : Bytes} {doc : Json} {nodes : List Node}
    (h : WellFormed doc nodes) : newResponse name (handling name [doc]) = some doc := by
  obtain ⟨nodeList, hparse, -⟩ := parseServiceInfoRsp_agrees h
  simp [newResponse, responses, handling, serviceTypes, List.replicate, List.filterMap_cons,
    Event.response?, hparse]

/-- Under the key there are the nodes of this service with this tag. -/
theorem serviceKey_mem_keys_iff {m : Node} {serviceName cluster : Bytes}
    (hown : serviceKey serviceName cluster ∈ m.keys → m.service = serviceName) :
    serviceKey serviceName cluster ∈ m.keys ↔
      m.service = serviceName ∧ cluster ∈ m.serviceTags := by
  constructor
  · intro hk
    obtain rfl := hown hk
    exact ⟨rfl, mem_keys_iff.mp hk⟩
  · rintro ⟨rfl, htags⟩
    exact mem_keys_iff.mpr htags

/-- The hosts that a response gives for the key are those of the nodes registered for it. -/
theorem Agrees.mem_iff_registeredFor {nodes : List Node} {nodeList : NodeList} {t : ServiceType}
    {serviceName cluster : Bytes} {hs : HostSet} (h : Agrees nodes nodeList)
    (hown : ∀ m ∈ nodes, serviceKey serviceName cluster ∈ m.keys → m.service = serviceName)
    (hlookup : (nodeList t).lookup (serviceKey serviceName cluster) = some hs) (p : HostPair) :
    p ∈ hs.toList ↔ RegisteredFor nodes serviceName t cluster p := by
  rw [show p ∈ hs.toList ↔ p ∈ hs from Iff.rfl, h.mem _ _ _ hlookup]
  constructor
  · rintro ⟨m, hm, hmp, hmt, hk, rfl⟩
    obtain ⟨hms, hmtag⟩ := (serviceKey_mem_keys_iff (hown m hm)).mp hk
    exact ⟨m, hm, hmp, hms, hmt, hmtag, rfl⟩
  · rintro ⟨m, hm, hmp, hms, hmt, hmtag, rfl⟩
    exact ⟨m, hm, hmp, hmt, (serviceKey_mem_keys_iff (hown m hm)).mpr ⟨hms, hmtag⟩, rfl⟩

/-- **Found in its cluster.** The response about the service has been processed, in any run
    of all watchers in which no other service uses the key.  A passing node carries the
    name of the cluster among its tags.  Then it is found, and with it each node
    registered for the service, the type and the cluster, exactly when the name is in lower
    case. -/
theorem foundInCluster_iff {es : List Event} {s : State} {serviceName cluster : Bytes}
    {doc : Json} {nodes : List Node} {n : Node} {type : Nat} (curClusterName : Bytes)
    (hrun : run step {} es = some s)
    (hspares : ∀ e ∈ es, e.Spares serviceName (serviceKey serviceName cluster))
    (hdone : (s.watchers serviceName).todo = [])
    (hnew : newResponse serviceName es = some doc) (hdoc : WellFormed doc nodes)
    (hown : ∀ m ∈ nodes, serviceKey serviceName cluster ∈ m.keys → m.service = serviceName)
    (hn : n ∈ nodes) (hpassing : n.passing = true) (hservice : n.service = serviceName)
    (htag : cluster ∈ n.tags) (hplain : protocol? (toLower cluster) = none)
    (hcluster : cluster ≠ []) (ht : serviceTypes[type]? = some n.type) :
    ServesEach s (changeCluster curClusterName cluster) serviceName type
        (RegisteredFor nodes serviceName n.type cluster) ↔
      toLower cluster = cluster := by
  rw [changeCluster, if_neg hcluster]
  obtain ⟨nodeList, hparse, hagrees⟩ := parseServiceInfoRsp_agrees hdoc
  have hhosts : s.hosts n.type (serviceKey serviceName cluster) =
      ((nodeList n.type).lookup (serviceKey serviceName cluster)).map OrderedSet.toList := by
    rw [(updating_run hspares hrun).hosts, hdone, if_neg List.not_mem_nil, hnew,
      hostsIn_of_parse hparse]
  have hkey {m : Node} (hm : m ∈ nodes) := serviceKey_mem_keys_iff (hown m hm)
  cases hlookup : (nodeList n.type).lookup (serviceKey serviceName cluster) with
  | none =>
    rw [hlookup, Option.map_none] at hhosts
    have hnone : ¬ ∃ m ∈ nodes, m.passing = true ∧ m.type = n.type ∧
        serviceKey serviceName cluster ∈ m.keys := by
      rw [← hagrees.isSome, hlookup]
      simp
    constructor
    · intro h
      have hsome := h.1 0
      simp [getServiceAddress, ht, hhosts] at hsome
    · intro hlower
      refine absurd ⟨n, hn, hpassing, rfl, (hkey hn).mpr ⟨hservice, ?_⟩⟩ hnone
      exact (mem_serviceTags_iff htag hplain).mpr hlower
  | some hs =>
    rw [hlookup, Option.map_some] at hhosts
    have hmem := hagrees.mem_iff_registeredFor hown hlookup
    obtain ⟨m, hm, hmp, hmt, hk⟩ := (hagrees.isSome _ _).mp (by rw [hlookup]; rfl)
    obtain ⟨hms, hmtag⟩ := (hkey hm).mp hk
    have haddress : m.address ∈ hs.toList := (hmem _).mpr ⟨m, hm, hmp, hms, hmt, hmtag, rfl⟩
    constructor
    · exact fun _ => toLower_of_mem_serviceTags hmtag
    · exact fun _ => servesEach_of_hosts ht hhosts (List.ne_nil_of_mem haddress)
        (hs.increasing.imp fun h => ne_of_irrefl h) hmem

/-- Two passing nodes of `svc` with the tag `tag`, and a failing one. -/
def svcNodes (tag : Bytes) : List Node :=
  [taggedNode (ascii "svc") tag (ascii "10.0.0.2"), taggedNode (ascii "svc") tag (ascii "10.0.0.1"),
    { taggedNode (ascii "svc") tag (ascii "10.0.0.3") with statuses := some [ascii "critical"] }]

/-- The events of the watcher of `svc` for these nodes. -/
def svcEvents (tag : Bytes) : List Event := handling (ascii "svc") [healthRsp (svcNodes tag)]

theorem service_of_mem_svcNodes {tag : Bytes} {n : Node} (h : n ∈ svcNodes tag) :
    n.service = ascii "svc" := by
  simp only [svcNodes, List.mem_cons, List.not_mem_nil, or_false] at h
  rcases h with rfl | rfl | rfl <;> rfl

/-- With the tag in lower case both nodes are found. -/
theorem foundInCluster_prod :
    ∃ s, run step {} (svcEvents (ascii "prod")) = some s ∧
      ServesEach s (changeCluster (ascii "dev") (ascii "prod")) (ascii "svc") 3
        (RegisteredFor (svcNodes (ascii "prod")) (ascii "svc") .custom (ascii "prod")) := by
  have hview : (run step {} (svcEvents (ascii "prod"))).map (fun s =>
      (s.watchers (ascii "svc")).todo) = some [] := by decide +kernel
  obtain ⟨s, hrun, hdone⟩ := Option.map_eq_some_iff.mp hview
  refine ⟨s, hrun, ?_⟩
  refine (foundInCluster_iff (ascii "dev") hrun ?_ hdone ?_ (wellFormed_healthRsp _) ?_
    (List.mem_cons_self : taggedNode (ascii "svc") (ascii "prod") (ascii "10.0.0.2") ∈ _)
    (by decide) rfl (by decide) (by decide) (by decide) (by decide)).mpr (by decide)
  · exact spares_handling _ _ _
  · exact newResponse_handling (wellFormed_healthRsp _)
  · exact fun m hm _ => service_of_mem_svcNodes hm

/-- With a capital none is, though the tag is the name of the cluster. -/
theorem notFoundInCluster_Prod :
    ∃ s, run step {} (svcEvents (ascii "Prod")) = some s ∧
      (∃ n ∈ svcNodes (ascii "Prod"), n.passing = true ∧ n.service = ascii "svc" ∧
        n.type = .custom ∧ ascii "Prod" ∈ n.tags) ∧
      ∀ i, getServiceAddress s (changeCluster (ascii "dev") (ascii "Prod")) i (ascii "svc") 3 =
        none := by
  have hview : (run step {} (svcEvents (ascii "Prod"))).map (fun s =>
      s.hosts .custom (serviceKey (ascii "svc") (ascii "Prod"))) = some none := by decide +kernel
  obtain ⟨s, hrun, hhosts⟩ := Option.map_eq_some_iff.mp hview
  refine ⟨s, hrun, ⟨_, List.mem_cons_self, by decide, rfl, by decide, by decide⟩, fun i => ?_⟩
  simp [getServiceAddress, changeCluster, serviceTypes, hhosts, show ascii "Prod" ≠ [] by decide]

end FiberProxy.Registry
