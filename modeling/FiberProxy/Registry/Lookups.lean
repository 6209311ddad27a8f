/-
  FiberProxy.Registry.Lookups

  Lookups while the registry is being updated: `FibpServiceMgr::get_service_address`
  takes the lock between any two of the passes that a watcher makes over one response.
  Within a type a pass replaces the old hosts of a key by the new ones at once.  A
  lookup therefore sees, for its type, the response before or the response being
  registered, and no gap between the two (`getServiceAddress_during_update`).
-/

import FiberProxy.Registry.Watcher

namespace FiberProxy.Registry

open Lib

/-! ## What a response says -/

/-- The response has the address under this key and type. -/
def Lists (doc : Json) (t : ServiceType) (key : Bytes) (hp : HostPair) : Prop :=
  ∃ nodeList hs, parseServiceInfoRsp doc = some (some nodeList) ∧
    (nodeList t).lookup key = some hs ∧ hp ∈ hs

/-- The response has this key, under some type. -/
def Mentions (doc : Json) (key : Bytes) : Prop :=
  ∃ nodeList t, parseServiceInfoRsp doc = some (some nodeList) ∧ key ∈ nodeList t

/-- The addresses of a well-formed response are those of its passing nodes. -/
theorem lists_iff {doc : Json} {nodes : List Node} (h : WellFormed doc nodes) {t : ServiceType}
    {key : Bytes} {hp : HostPair} :
    Lists doc t key hp ↔
      ∃ n ∈ nodes, n.passing = true ∧ n.type = t ∧ key ∈ n.keys ∧ hp = n.address := by
  obtain ⟨nodeList, hparse, hagrees⟩ := parseServiceInfoRsp_agrees h
  constructor
  · rintro ⟨nodeList', hs, hparse', hlookup, hmem⟩
    obtain rfl : nodeList = nodeList' := by
      rw [hparse] at hparse'
      exact Option.some.inj (Option.some.inj hparse')
    exact (hagrees.mem t key hs hlookup hp).mp hmem
  · rintro ⟨n, hn, hpassing, htype, hkey, hhp⟩
    have hsome := (hagrees.isSome t key).mpr ⟨n, hn, hpassing, htype, hkey⟩
    obtain ⟨hs, hlookup⟩ := Option.isSome_iff_exists.mp hsome
    exact ⟨nodeList, hs, hparse, hlookup,
      (hagrees.mem t key hs hlookup hp).mpr ⟨n, hn, hpassing, htype, hkey, hhp⟩⟩

/-- The hosts that a response gives for a key; without a response there are none. -/
def hostsIn (doc : Option Json) (t : ServiceType) (key : Bytes) : Option (List HostPair) :=
  ((doc.bind parseServiceInfoRsp).bind id).bind fun nodeList =>
    ((nodeList t).lookup key).map OrderedSet.toList

theorem hostsIn_of_parse {doc : Json} {nodeList : NodeList}
    (h : parseServiceInfoRsp doc = some (some nodeList)) (t : ServiceType) (key : Bytes) :
    hostsIn (some doc) t key = ((nodeList t).lookup key).map OrderedSet.toList := by
  simp [hostsIn, h]

theorem lists_of_hostsIn {doc : Option Json} {t : ServiceType} {key : Bytes}
    {hosts : List HostPair} (h : hostsIn doc t key = some hosts) {hp : HostPair}
    (hmem : hp ∈ hosts) : ∃ d ∈ doc, Lists d t key hp := by
  simp only [hostsIn, Option.bind_eq_some_iff, Option.map_eq_some_iff, id_eq] at h
  obtain ⟨nodeList, ⟨_, ⟨d, hd, hparse⟩, rfl⟩, hs, hlookup, rfl⟩ := h
  exact ⟨d, hd, nodeList, hs, hparse, hlookup, hmem⟩

theorem hostsIn_of_lists {doc : Option Json} {t : ServiceType} {key : Bytes} {d : Json}
    {hp : HostPair} (hd : d ∈ doc) (h : Lists d t key hp) :
    ∃ hosts, hostsIn doc t key = some hosts ∧ hp ∈ hosts := by
  obtain ⟨nodeList, hs, hparse, hlookup, hmem⟩ := h
  obtain rfl := Option.mem_def.mp hd
  exact ⟨hs.toList, by rw [hostsIn_of_parse hparse, hlookup]; rfl, hmem⟩

/-! ## The responses of a run -/

/-- The response that the watcher of `name` gets, if it can read it. -/
def Event.response? (name : Bytes) : Event → Option Json
  | .rsp name' doc =>
    if name' = name ∧ (parseServiceInfoRsp doc).any Option.isSome then some doc else none
  | .pass _ => none

/-- The responses that the watcher of `name` has begun to register. -/
def responses (name : Bytes) (es : List Event) : List Json :=
  es.filterMap (Event.response? name)

/-- The response registered last, or the one whose passes are being made. -/
def newResponse (name : Bytes) (es : List Event) : Option Json := (responses name es).getLast?

/-- The response before it. -/
def previousResponse (name : Bytes) (es : List Event) : Option Json :=
  (responses name es).dropLast.getLast?

section Responses

variable {name : Bytes} {es : List Event} {e : Event}

theorem responses_snoc_none (h : e.response? name = none) :
    responses name (es ++ [e]) = responses name es := by
  simp [responses, List.filterMap_append, h]

theorem responses_snoc_some {doc : Json} (h : e.response? name = some doc) :
    responses name (es ++ [e]) = responses name es ++ [doc] := by
  simp [responses, List.filterMap_append, h]

theorem newResponse_snoc_none (h : e.response? name = none) :
    newResponse name (es ++ [e]) = newResponse name es := by
  rw [newResponse, responses_snoc_none h, newResponse]

theorem previousResponse_snoc_none (h : e.response? name = none) :
    previousResponse name (es ++ [e]) = previousResponse name es := by
  rw [previousResponse, responses_snoc_none h, previousResponse]

theorem newResponse_snoc_some {doc : Json} (h : e.response? name = some doc) :
    newResponse name (es ++ [e]) = some doc := by
  rw [newResponse, responses_snoc_some h, List.getLast?_concat]

theorem previousResponse_snoc_some {doc : Json} (h : e.response? name = some doc) :
    previousResponse name (es ++ [e]) = newResponse name es := by
  rw [previousResponse, responses_snoc_some h, List.dropLast_concat, newResponse]

end Responses

/-! ## One key during the passes -/

/-- What the table says about `key`, which only the watcher of `name` handles: the types
    whose pass is still to be made have the hosts of the previous response, the others those
    of the new one. -/
structure Updating (name key : Bytes) (es : List Event) (s : State) : Prop where
  order : (s.watchers name).todo.Nodup
  nodeList : ∀ t, ((s.watchers name).nodeList t |>.lookup key).map OrderedSet.toList =
    hostsIn (newResponse name es) t key
  hosts : ∀ t, s.hosts t key =
    hostsIn (if t ∈ (s.watchers name).todo then previousResponse name es
      else newResponse name es) t key
  remembers : ∀ t, (s.hosts t key).isSome = true → key ∈ (s.watchers name).lastServiceNames
  foreign : ∀ name' ≠ name, key ∉ (s.watchers name').lastServiceNames ∧
    ∀ t, key ∉ (s.watchers name').nodeList t

/-- The response is not about `key`, unless the watcher of `name` got it. -/
def Event.Spares (name key : Bytes) : Event → Prop
  | .rsp name' doc => name' ≠ name → ¬ Mentions doc key
  | .pass _ => True

section Updating

variable {name key : Bytes} {es : List Event} {s s' : State}

theorem updating_init : Updating name key [] {} where
  order := List.nodup_nil
  nodeList := by simp [hostsIn, newResponse, responses]
  hosts := by simp [hostsIn, newResponse, responses, State.hosts]
  remembers := by simp [State.hosts]
  foreign := by simp

/-- The watcher gets a response: what was new is previous, for all types. -/
theorem Updating.begin {doc : Json} {nodeList : NodeList} (h : Updating name key es s)
    (hidle : (s.watchers name).todo = [])
    (hparse : parseServiceInfoRsp doc = some (some nodeList)) :
    Updating name key (es ++ [.rsp name doc]) (s.begin name nodeList) := by
  have hresponse : (Event.rsp name doc).response? name = some doc := by
    simp [Event.response?, hparse]
  constructor
  case order => simp [State.begin, serviceTypes]
  case nodeList =>
    intro t
    rw [newResponse_snoc_some hresponse, hostsIn_of_parse hparse]
    simp [State.begin]
  case hosts =>
    intro t
    have hmem : t ∈ serviceTypes := by cases t <;> decide
    have hold := h.hosts t
    rw [hidle, if_neg (List.not_mem_nil)] at hold
    rw [previousResponse_snoc_some hresponse]
    simpa [State.begin, State.hosts, hmem] using hold
  case remembers => simpa [State.begin, State.hosts] using h.remembers
  case foreign =>
    intro name' hne
    simpa [State.begin, Function.update_of_ne hne] using h.foreign name' hne

/-- The watcher's pass over one type. -/
theorem Updating.pass {t : ServiceType} {todo : List ServiceType} (h : Updating name key es s)
    (htodo : (s.watchers name).todo = t :: todo) :
    Updating name key (es ++ [.pass name]) (s.pass name t todo) := by
  have hresponse : (Event.pass name).response? name = none := rfl
  obtain ⟨hnot, hnodup⟩ := List.nodup_cons.mp (htodo ▸ h.order)
  -- this type now has the new hosts, the others what they had
  have hself : (s.pass name t todo).hosts t key = hostsIn (newResponse name es) t key := by
    rw [hosts_pass_of_remembered (h.remembers t), h.nodeList]
  constructor
  case order => simpa using hnodup
  case nodeList =>
    intro t'
    rw [newResponse_snoc_none hresponse, pass_watcher_nodeList, h.nodeList]
  case hosts =>
    intro t'
    rw [newResponse_snoc_none hresponse, previousResponse_snoc_none hresponse, pass_watcher_todo]
    by_cases ht : t' = t
    · subst ht
      rw [if_neg hnot, hself]
    · rw [hosts_pass_of_ne ht, h.hosts t', htodo]
      simp [ht]
  case remembers =>
    intro t' hsome
    rw [mem_pass_lastServiceNames]
    by_cases ht : t' = t
    · subst ht
      rw [hosts_pass_of_remembered (h.remembers t'), Option.isSome_map] at hsome
      exact .inl (AList.lookup_isSome.mp hsome)
    · rw [hosts_pass_of_ne ht] at hsome
      exact .inr (h.remembers t' hsome)
  case foreign =>
    intro name' hne
    simpa [State.pass, Function.update_of_ne hne] using h.foreign name' hne

/-- An event that is no response of this watcher, and changes nothing of the key. -/
theorem Updating.keep {e : Event} (h : Updating name key es s)
    (hresponse : e.response? name = none) (hwatcher : s'.watchers name = s.watchers name)
    (hhosts : ∀ t, s'.hosts t key = s.hosts t key)
    (hforeign : ∀ name' ≠ name, key ∉ (s'.watchers name').lastServiceNames ∧
      ∀ t, key ∉ (s'.watchers name').nodeList t) : Updating name key (es ++ [e]) s' := by
  constructor
  case order => rw [hwatcher]; exact h.order
  case nodeList => rw [hwatcher, newResponse_snoc_none hresponse]; exact h.nodeList
  case hosts =>
    intro t
    rw [hhosts, hwatcher, newResponse_snoc_none hresponse, previousResponse_snoc_none hresponse]
    exact h.hosts t
  case remembers =>
    intro t
    rw [hhosts, hwatcher]
    exact h.remembers t
  case foreign => exact hforeign

/-- A step of another watcher leaves the key as it is. -/
theorem Updating.other {e : Event} (h : Updating name key es s) (hne : e.name ≠ name)
    (hspares : e.Spares name key) (hstep : step s e = some s') :
    Updating name key (es ++ [e]) s' := by
  cases e with
  | rsp other doc =>
    have hresponse : (Event.rsp other doc).response? name = none :=
      if_neg fun hnone => hne hnone.1
    simp only [step] at hstep
    split at hstep
    · cases hstep
    · obtain ⟨read, hparse, hs'⟩ := Option.map_eq_some_iff.mp hstep
      cases read with
      | none =>
        cases hs'
        exact h.keep hresponse rfl (fun _ => rfl) h.foreign
      | some nodeList =>
        cases hs'
        refine h.keep hresponse (Function.update_of_ne (Ne.symm hne) _ _) (fun _ => rfl) ?_
        intro name' hne'
        by_cases hname : name' = other
        · subst hname
          refine ⟨by simpa [State.begin] using (h.foreign name' hne').1, fun t hmem => ?_⟩
          exact hspares hne ⟨nodeList, t, hparse, by simpa [State.begin] using hmem⟩
        · simpa [State.begin, Function.update_of_ne hname] using h.foreign name' hne'
  | pass other =>
    obtain ⟨hlast, hnodes⟩ := h.foreign other hne
    simp only [step] at hstep
    split at hstep
    · cases hstep
    · cases hstep
      refine h.keep rfl (Function.update_of_ne (Ne.symm hne) _ _)
        (fun t => hosts_pass_of_foreign hlast (hnodes _)) ?_
      intro name' hne'
      by_cases hname : name' = other
      · subst hname
        refine ⟨fun hmem => ?_, by simpa using hnodes⟩
        exact (mem_pass_lastServiceNames.mp hmem).elim (hnodes _) hlast
      · simpa [State.pass, Function.update_of_ne hname] using h.foreign name' hne'

/-- One step of any watcher. -/
theorem Updating.step {e : Event} (h : Updating name key es s) (hspares : e.Spares name key)
    (hstep : step s e = some s') : Updating name key (es ++ [e]) s' := by
  by_cases hne : e.name = name
  · cases e with
    | rsp other doc =>
      obtain rfl : other = name := hne
      simp only [Registry.step] at hstep
      split at hstep
      · cases hstep
      · rename_i hidle
        obtain ⟨read, hparse, hs'⟩ := Option.map_eq_some_iff.mp hstep
        cases read with
        | some nodeList =>
          cases hs'
          exact h.begin hidle hparse
        | none =>
          -- a response that cannot be read is dropped
          cases hs'
          exact h.keep (by simp [Event.response?, hparse]) rfl (fun _ => rfl) h.foreign
    | pass other =>
      obtain rfl : other = name := hne
      simp only [Registry.step] at hstep
      split at hstep
      · cases hstep
      · rename_i htodo
        cases hstep
        exact h.pass htodo
  · exact h.other hne hspares hstep

theorem updating_run (hspares : ∀ e ∈ es, e.Spares name key)
    (hrun : run Registry.step {} es = some s) : Updating name key es s := by
  revert hspares
  refine run_induction (P := fun es s => (∀ e ∈ es, e.Spares name key) → Updating name key es s)
    (fun _ => updating_init) ?_ hrun
  intro es s e s' _ ih hstep hspares
  exact (ih fun e' he' => hspares e' (by simp [he'])).step (hspares e (by simp)) hstep

end Updating

/-! ## Lookups -/

theorem getServiceAddress_eq_some {s : State} {cluster serviceName : Bytes}
    {balanceIndex type : Nat} {t : ServiceType} {hp : HostPair}
    (ht : serviceTypes[type]? = some t) :
    getServiceAddress s cluster balanceIndex serviceName type = some hp ↔
      ∃ hosts, s.hosts t (serviceKey serviceName cluster) = some hosts ∧
        hosts[balanceIndex % hosts.length]? = some hp := by
  simp only [getServiceAddress, ht]
  cases hhosts : s.hosts t (serviceKey serviceName cluster) with
  | none => simp
  | some hosts => simp

/-- An address that is found is registered, for a valid type. -/
theorem exists_hosts_of_getServiceAddress {s : State} {cluster serviceName : Bytes}
    {balanceIndex type : Nat} {hp : HostPair}
    (h : getServiceAddress s cluster balanceIndex serviceName type = some hp) :
    ∃ t hosts, serviceTypes[type]? = some t ∧
      s.hosts t (serviceKey serviceName cluster) = some hosts ∧ hp ∈ hosts := by
  cases ht : serviceTypes[type]? with
  | none => simp [getServiceAddress, ht] at h
  | some t =>
    obtain ⟨hosts, hhosts, hget⟩ := (getServiceAddress_eq_some ht).mp h
    exact ⟨t, hosts, rfl, hhosts, List.mem_of_getElem? hget⟩

/-- **Lookups during an update.** The watcher of `name` registers one response after
    another, and no other watcher handles the key of the lookup.  At any point between two
    passes an address that is found is listed by the previous response or by the new one, and
    one is found when both list some. -/
theorem getServiceAddress_during_update (name serviceName cluster : Bytes) {es : List Event}
    {s : State} (hspares : ∀ e ∈ es, e.Spares name (serviceKey serviceName cluster))
    (hrun : run step {} es = some s) (balanceIndex : Nat) {type : Nat} {t : ServiceType}
    (ht : serviceTypes[type]? = some t) :
    (∀ hp, getServiceAddress s cluster balanceIndex serviceName type = some hp →
      (∃ doc ∈ previousResponse name es, Lists doc t (serviceKey serviceName cluster) hp) ∨
        ∃ doc ∈ newResponse name es, Lists doc t (serviceKey serviceName cluster) hp) ∧
    ((∃ doc ∈ previousResponse name es, ∃ hp, Lists doc t (serviceKey serviceName cluster) hp) →
      (∃ doc ∈ newResponse name es, ∃ hp, Lists doc t (serviceKey serviceName cluster) hp) →
      ∃ hp, getServiceAddress s cluster balanceIndex serviceName type = some hp) := by
  have hhosts := (updating_run hspares hrun).hosts t
  constructor
  · intro hp hfound
    obtain ⟨hosts, hsome, hget⟩ := (getServiceAddress_eq_some ht).mp hfound
    rw [hsome] at hhosts
    have hlisted := lists_of_hostsIn hhosts.symm (List.mem_of_getElem? hget)
    split at hlisted
    · exact .inl hlisted
    · exact .inr hlisted
  · rintro ⟨old, hold, hpOld, hlistsOld⟩ ⟨new, hnew, hpNew, hlistsNew⟩
    -- whichever of the two the table has, it has a host
    obtain ⟨hosts, hsome, hp, hmem⟩ :
        ∃ hosts, s.hosts t (serviceKey serviceName cluster) = some hosts ∧ ∃ hp, hp ∈ hosts := by
      rw [hhosts]
      split
      · obtain ⟨hosts, hsome, hmem⟩ := hostsIn_of_lists hold hlistsOld
        exact ⟨hosts, hsome, hpOld, hmem⟩
      · obtain ⟨hosts, hsome, hmem⟩ := hostsIn_of_lists hnew hlistsNew
        exact ⟨hosts, hsome, hpNew, hmem⟩
    have hlt : balanceIndex % hosts.length < hosts.length :=
      Nat.mod_lt _ (List.length_pos_of_mem hmem)
    exact ⟨hosts[balanceIndex % hosts.length],
      (getServiceAddress_eq_some ht).mpr ⟨hosts, hsome, List.getElem?_eq_getElem hlt⟩⟩

/-- The node moves to another port; a lookup comes after two of the four passes. -/
def movingNode : List Event :=
  handling (ascii "svc") [healthRsp [prodNode 80]] ++
    [Event.rsp (ascii "svc") (healthRsp [prodNode 81]), .pass (ascii "svc"), .pass (ascii "svc")]

theorem movingNode_found :
    ∃ s, run step {} movingNode = some s ∧
      ∃ hp, getServiceAddress s (ascii "prod") 5 (ascii "svc") 3 = some hp := by
  have hlists (port : Int) : Lists (healthRsp [prodNode port]) .custom
      (serviceKey (ascii "svc") (ascii "prod")) (prodNode port).address :=
    (lists_iff (wellFormed_healthRsp _)).mpr
      ⟨prodNode port, List.mem_singleton_self _, by simp [prodNode, Node.passing], rfl,
        (by decide : _ ∈ (prodNode 80).keys), rfl⟩
  have hsome : (run step {} movingNode).isSome = true := by decide +kernel
  obtain ⟨s, hrun⟩ := Option.isSome_iff_exists.mp hsome
  have hspares : ∀ e ∈ movingNode,
      e.Spares (ascii "svc") (serviceKey (ascii "svc") (ascii "prod")) := by
    simp [movingNode, handling, serviceTypes, List.replicate, Event.Spares]
  have hresponses : responses (ascii "svc") movingNode =
      [healthRsp [prodNode 80], healthRsp [prodNode 81]] := by
    rfl
  refine ⟨s, hrun, (getServiceAddress_during_update (ascii "svc") (ascii "svc") (ascii "prod")
    hspares hrun 5 (t := .custom) rfl).2 ?_ ?_⟩
  · exact ⟨_, by rw [previousResponse, hresponses]; rfl, _, hlists 80⟩
  · exact ⟨_, by rw [newResponse, hresponses]; rfl, _, hlists 81⟩

end FiberProxy.Registry
